import Pintos.Userprog.Below

/-!
# Userprog/UserOnly — system calls and `PHYS_BASE`

Each call checks where things start, and none looks at where they end. `HandlerBelow` says call by
call what has to end, or to fail, below `PHYS_BASE` for nothing above to be touched, and it is
neither more nor less than that.
-/

namespace Pintos

open Machinery Traced

variable {post : Unit → Kernel → Prop} {fd : ℤ}

section

variable {e : Env}

/-! ## Behind the semaphore -/

/-- The rest of a call stays below `PHYS_BASE`. -/
def Critical.Below (e : Env) (k : Kernel) : Critical → Prop
  | .create file initialSize => e.dirOpens = true → e.inodeSector = true →
      0 ≤ toInt32 initialSize → e.dataSectors = true → e.StringBelow file
  | .remove file => e.dirOpens = true → file ≠ null →
      ∀ d ∈ e.entries k, d.inUse = true → e.NameBelow file d.name
  | .openFile file => file ≠ null → file < physBase ∧ (e.dirOpens = true →
      ∀ d ∈ e.entries k, d.inUse = true → e.NameBelow file d.name)
  | .read fd buffer length =>
    ∀ ptr f, fdToFilePtr k.fileDescriptors fd = some ptr → k.file ptr = some f →
      e.StoresBelow buffer (e.moves k f (toInt32 length))
  | .write fd buffer size =>
    ∀ ptr f, fdToFilePtr k.fileDescriptors fd = some ptr → k.file ptr = some f →
      (k.inode f.inode).denyWriteCnt = 0 → e.LoadsBelow buffer (e.moves k f (toInt32 size))
  | _ => True

variable {k : Kernel}

@[simp] lemma within_semaUp :
    Within (· < physBase) semaUp k post ↔ post () { k with filesysSema := k.filesysSema + 1 } :=
  within_update

lemma within_dirAdd {file inode : ℕ} (hfile : file < 2 ^ 32) :
    Within (· < physBase) (dirAdd e file inode) k (fun _ _ => True) ↔ e.StringBelow file := by
  rw [dirAdd, within_bind, within_iff, within_getString (by simp only [physBase]; omega) (by omega)]
  refine and_iff_left_of_imp fun hstring s _ => ?_
  rw [within_ite]
  refine ⟨fun _ => (within_pure _).mpr trivial, fun _ => ?_⟩
  rw [within_bind, within_read, within_bind, within_iff, within_lookup]
  refine ⟨fun d _ _ => hstring.nameBelow d.name, fun slot _ => ?_⟩
  split <;> simp

lemma within_filesysCreate {file : ℕ} {size : ℤ} (hfile : file < 2 ^ 32) :
    Within (· < physBase) (filesysCreate e file size) k (fun _ _ => True) ↔
      (e.dirOpens = true → e.inodeSector = true → 0 ≤ size → e.dataSectors = true →
        e.StringBelow file) := by
  rw [filesysCreate]
  simp only [within_ite, within_stop, within_pure, within_bind, within_read, within_bind, within_update,
    within_dirAdd hfile, implies_true, and_true, true_and, and_imp, Int.not_lt]

lemma within_openSlot (k k' : Kernel) (slot : Option ℕ) :
    Within (· < physBase) (match slot.bind (k.root[·]?) with
      | some d => if e.inodeOpens then fileOpen e d.inodeSector else return none
      | none => return none) k' (fun _ _ => True) := by
  split
  · rw [within_ite]
    refine ⟨fun _ => ?_, fun _ => by simp⟩
    rw [fileOpen, within_bind, within_read, within_ite]
    simp
  · simp

lemma within_filesysOpen {name : ℕ} :
    Within (· < physBase) (filesysOpen e name) k (fun _ _ => True) ↔
      (e.dirOpens = true → ∀ d ∈ e.entries k, d.inUse = true → e.NameBelow name d.name) := by
  rw [filesysOpen, within_ite]
  simp only [within_pure, implies_true, and_true, within_bind, within_read, within_bind]
  refine imp_congr_right fun _ => ?_
  rw [← within_lookup]
  exact within_congr fun slot k' => iff_true_intro (within_openSlot k k' slot)

lemma within_filesysRemove {name : ℕ} :
    Within (· < physBase) (filesysRemove e name) k (fun _ _ => True) ↔
      (e.dirOpens = true → name ≠ null →
        ∀ d ∈ e.entries k, d.inUse = true → e.NameBelow name d.name) := by
  rw [filesysRemove]
  simp only [within_ite, within_pure, within_stop, implies_true, and_true, true_and, within_bind, within_read,
    within_bind]
  refine imp_congr_right fun _ => imp_congr_right fun _ => ?_
  rw [← within_lookup]
  refine within_congr fun slot k' => iff_true_intro ?_
  cases slot with
  | none => simp
  | some i =>
    rw [within_ite]
    simp

lemma within_getFileDescriptor {file : ℕ} :
    Within (· < physBase) (getFileDescriptor file) k (fun _ _ => True) := by
  rw [getFileDescriptor, within_bind, within_read]
  split <;> simp

lemma within_giveDescriptor {file filePtr : ℕ} :
    Within (· < physBase) (giveDescriptor e file filePtr) k (fun _ _ => True) := by
  have hnull : null < physBase := by decide
  rw [giveDescriptor, within_bind, within_iff]
  refine ⟨within_getFileDescriptor, fun fd _ => ?_⟩
  split
  · simp [within_ite, within_putByte, hnull]
  · simp [within_ite, within_putByte, hnull]

lemma within_transferFile {move : ℕ → Sys ℤ} :
    Within (· < physBase) (transferFile move fd) k (fun _ _ => True) ↔
      ∀ ptr, fdToFilePtr k.fileDescriptors fd = some ptr →
        Within (· < physBase) (move ptr) k (fun _ _ => True) := by
  rw [transferFile, within_bind, within_read]
  cases fdToFilePtr k.fileDescriptors fd with
  | none => simp [within_semaUp]
  | some ptr => simp [within_bind, within_semaUp]

/-- The name of a new file is at a 32-bit address. -/
def Critical.Fits : Critical → Prop
  | .create file _ => file < 2 ^ 32
  | _ => True

/-- Exactly then the rest of the call touches nothing above. -/
lemma Critical.within_run {c : Critical} (hc : c.Fits) :
    Within (· < physBase) (c.run e) k (fun _ _ => True) ↔ c.Below e k := by
  cases c with
  | create file size =>
    simp only [run, Pintos.create, within_bind, within_semaUp, within_pure]
    exact within_filesysCreate hc
  | remove file =>
    simp only [run, Pintos.remove, within_bind, within_semaUp, within_pure]
    exact within_filesysRemove
  | openFile file =>
    rw [run, Pintos.openFile, within_ite]
    simp only [within_bind, within_semaUp, within_pure, implies_true, true_and]
    refine imp_congr_right fun _ => ?_
    rw [within_getByte]
    refine and_congr_right fun hlow => ?_
    have hend (hstop : (e.load file).Fails ∨ e.load file = .ok 0) (d : DirEntry) :
        e.NameBelow file d.name :=
      Env.StringBelow.nameBelow ⟨file, Nat.le_refl _, hlow, hstop⟩ d.name
    obtain ⟨b, hload⟩ | hfails := (e.load file).ok_or_fails
    · rw [hload]
      simp only [Access.ok.injEq, forall_eq']
      by_cases hb0 : b = 0
      · rw [if_pos hb0]
        refine iff_of_true (by simp) fun _ d _ _ => hend (.inr (hb0 ▸ hload)) d
      · rw [if_neg hb0, within_bind, ← within_filesysOpen]
        refine within_congr fun opened k' => iff_true_intro ?_
        cases opened with
        | none => simp
        | some ptr => exact within_giveDescriptor
    · exact iff_of_true (fun b hb => absurd hb (hfails b)) fun _ d _ _ => hend (.inl hfails) d
  | filesize fd =>
    refine iff_of_true ?_ trivial
    rw [run, Pintos.filesize, within_ite]
    refine ⟨fun _ => by simp, fun _ => ?_⟩
    rw [within_bind, within_read]
    split
    · simp
    · simp [fileLength, within_derefFile]
  | read fd buffer length =>
    rw [run, within_transferFile]
    simp only [within_fileRead, span_iff]
    exact forall_congr' fun ptr => forall_comm
  | write fd buffer size =>
    rw [run, within_transferFile]
    simp only [within_fileWrite, spanLoads]
    exact forall_congr' fun ptr => forall_comm
  | seek fd ptr position =>
    refine iff_of_true ?_ trivial
    rw [run, Pintos.seek, within_bind, fileSeek, within_ite]
    simp [within_derefFile]
  | tell fd ptr =>
    refine iff_of_true ?_ trivial
    simp [run, Pintos.tell, fileTell, within_derefFile]

end

/-! ## The handler -/

/-- A call stays below `PHYS_BASE`, in the handler and behind the semaphore. -/
def Env.CallBelow (e : Env) (esp : ℕ) (k : Kernel) (e' : Env) (k' : Kernel) : SysNr → Prop
  | .exec => esp + 4 < physBase → e.LoadsBelow (esp + 4) 4 ∧
      ∀ cmdLine, e.word (esp + 4) = some cmdLine → cmdLine < physBase → e.mapped cmdLine = true →
        e.argPage = true → cmdLine ≠ null → e.StringBelow cmdLine
  | .create => esp + 8 < physBase → ∀ file, e.word (esp + 4) = some file →
      e.LoadsBelow (esp + 8) 4 ∧ ∀ initialSize, e.word (esp + 8) = some initialSize →
        file ≠ null → file < physBase → e.mapped file = true →
          (Critical.create file initialSize).Below e' k'
  | .remove => esp + 4 < physBase → e.LoadsBelow (esp + 4) 4 ∧
      ∀ file, e.word (esp + 4) = some file → (Critical.remove file).Below e' k'
  | .openFile => esp + 4 < physBase → e.LoadsBelow (esp + 4) 4 ∧
      ∀ file, e.word (esp + 4) = some file → file < physBase → e.mapped file = true →
        (Critical.openFile file).Below e' k'
  | .read => esp + 12 < physBase → ∀ fd, e.word (esp + 4) = some fd →
      fdToFilePtr k.fileDescriptors (toInt32 fd) ≠ none → ∀ buffer, e.word (esp + 8) = some buffer →
      buffer ≠ null → buffer < physBase → e.LoadsBelow (esp + 12) 4 ∧
        ∀ length, e.word (esp + 12) = some length →
          (Critical.read (toInt32 fd) buffer length).Below e' k'
  | .write => esp + 12 < physBase → ∀ fd, e.word (esp + 4) = some fd →
      ∀ buffer, e.word (esp + 8) = some buffer → buffer < physBase → e.mapped buffer = true →
      e.LoadsBelow (esp + 12) 4 ∧ ∀ size, e.word (esp + 12) = some size →
        (toInt32 fd = 1 → e.LoadsBelow buffer size) ∧
        (toInt32 fd ≠ 1 → (Critical.write (toInt32 fd) buffer size).Below e' k')
  | .seek => esp + 8 < physBase → ∀ fd, e.word (esp + 4) = some fd → e.LoadsBelow (esp + 8) 4
  | .halt | .close => True
  | _ => esp + 4 < physBase → e.LoadsBelow (esp + 4) 4

/-- The number of the call is loaded first. -/
def Env.HandlerBelow (e : Env) (esp : ℕ) (k : Kernel) (e' : Env) (k' : Kernel) : Prop :=
  esp ≠ null → esp < physBase → e.mapped esp = true →
    e.LoadsBelow esp 4 ∧ ∀ nr, e.sysNr esp = some nr → e.CallBelow esp k e' k' nr

section

variable {e : Env} {k : Kernel}
variable {a : ℕ}

lemma isUserVaddr_iff : isUserVaddr a = true ↔ a < physBase := decide_eq_true_iff

lemma within_exit {α : Type} {status : ℤ} {post : α → Kernel → Prop} :
    Within (· < physBase) (exit status : Sys α) k post ↔ True := within_stop _

lemma within_argErrorCheck {esp n : ℕ} :
    Within (· < physBase) (argErrorCheck esp n) k post ↔ (esp + 4 * n < physBase → post () k) := by
  rw [argErrorCheck, within_ite, isUserVaddr_iff]
  simp [within_exit]

variable {post : Bool → Kernel → Prop}

lemma within_isPaged :
    Within (· < physBase) (isPaged e a) k post ↔ (a < physBase → post (e.mapped a) k) := by
  rw [isPaged, within_ite, isUserVaddr_iff]
  simp

lemma within_isUserAndMapped : Within (· < physBase) (isUserAndMapped e a) k post ↔
      post (decide (a < physBase) && e.mapped a) k := by
  rw [isUserAndMapped, within_ite, isUserVaddr_iff, within_isPaged]
  by_cases ha : a < physBase <;> simp [ha]

lemma within_userString (ha : a < 2 ^ 32) :
    Within (· < physBase) (getString e a (2 ^ 32 - a)) k (fun _ _ => True) ↔ e.StringBelow a :=
  within_getString (by simp only [physBase]; omega) (by omega)

lemma within_processExecute {fileName : ℕ} (hname : fileName < 2 ^ 32) :
    Within (· < physBase) (processExecute e fileName) k (fun _ _ => True) ↔
      (e.argPage = true → fileName ≠ null → e.StringBelow fileName) := by
  have hnull : null + 4 < physBase := by decide
  rw [processExecute]
  simp only [within_ite, within_pure, within_stop, implies_true, and_true, true_and]
  refine imp_congr_right fun _ => imp_congr_right fun _ => ?_
  rw [within_bind, ← within_userString hname]
  refine within_congr fun _ _ => iff_true_intro ?_
  simp [within_ite, within_getByte, hnull]

lemma within_exec {cmdLine : ℕ} :
    Within (· < physBase) (exec e cmdLine) k (fun _ _ => True) ↔
      (cmdLine < physBase → e.mapped cmdLine = true → e.argPage = true → cmdLine ≠ null →
        e.StringBelow cmdLine) := by
  have hnull : null + 16 < physBase := by decide
  rw [exec, within_bind, within_isUserAndMapped, within_ite]
  simp only [Bool.and_eq_true, decide_eq_true_eq, within_pure, implies_true, and_true, and_imp]
  refine imp_congr_right fun huser => imp_congr_right fun _ => ?_
  have hname : cmdLine < 2 ^ 32 := by
    simp only [physBase] at huser
    omega
  rw [within_bind, ← within_processExecute hname]
  refine within_congr fun _ _ => iff_true_intro ?_
  simp [within_ite, within_putByte, hnull]

lemma within_withFile {c : ℕ → Critical} {post : Next → Kernel → Prop} :
    Within (· < physBase) (withFile fd c) k post ↔
      ∀ ptr, fdToFilePtr k.fileDescriptors fd = some ptr → post (.locked (c ptr)) k := by
  rw [withFile, within_bind, within_read]
  cases fdToFilePtr k.fileDescriptors fd with
  | none => simp [within_exit]
  | some ptr => simp

/-- What is left to do. -/
def Next.Rest (e' : Env) (k' : Kernel) : Next → Prop
  | .ret _ => True
  | .locked c => Within (· < physBase) (c.run e') k' (fun _ _ => True)

lemma loadsBelow_of_le {a n : ℕ} (h : a + n ≤ physBase) : e.LoadsBelow a n := .inr (.inl h)

variable {e' : Env} {k' : Kernel} {esp : ℕ}

lemma within_readCall {buffer length : ℕ} (hfd : fdToFilePtr k.fileDescriptors fd ≠ none) :
    Within (· < physBase) (read e fd buffer length) k (fun n _ => n.Rest e' k') ↔
      (Critical.read fd buffer length).Below e' k' := by
  rw [read, if_neg fun h0 => hfd (fdToFilePtr_of_lt (by omega)), within_pure]
  exact Critical.within_run trivial

lemma within_writeCall {buffer size : ℕ} :
    Within (· < physBase) (write e fd buffer size) k (fun n _ => n.Rest e' k') ↔
      (fd = 1 → e.LoadsBelow buffer size) ∧
      (fd ≠ 1 → (Critical.write fd buffer size).Below e' k') := by
  rw [write, within_ite]
  refine and_congr (imp_congr_right fun _ => ?_) (imp_congr_right fun _ => ?_)
  · simp only [within_bind, within_pure, Next.Rest]
    exact within_getBytes.trans spanLoads
  · exact (within_pure _).trans (Critical.within_run trivial)

lemma not_console : ¬ (fd = 1 ∨ fdToFilePtr k.fileDescriptors fd = none) ↔
    fdToFilePtr k.fileDescriptors fd ≠ none := by
  refine ⟨fun h hnone => h (.inr hnone), fun h => ?_⟩
  rintro (h1 | hnone)
  · exact h (fdToFilePtr_of_lt (by omega))
  · exact h hnone

lemma not_null_or {buffer : ℕ} :
    ¬ (buffer = null ∨ isUserVaddr buffer = false) ↔ buffer ≠ null ∧ buffer < physBase := by
  simp [isUserVaddr]

/-- Call by call. -/
lemma within_serve (nr : SysNr) :
    Within (· < physBase) (serve e esp nr) k (fun n _ => n.Rest e' k') ↔
      e.CallBelow esp k e' k' nr := by
  cases nr with
  | halt => exact iff_of_true ((within_stop _).mpr trivial) trivial
  | exit =>
    simp only [serve, within_bind, within_argErrorCheck, within_getWord, within_exit, spanLoads,
      implies_true, and_true]
    rfl
  | exec =>
    simp only [serve, within_bind, within_argErrorCheck, within_getWord, within_pure, spanLoads,
      Next.Rest, within_exec]
    rfl
  | wait =>
    simp only [serve, within_bind, within_argErrorCheck, within_getWord, within_pure, spanLoads,
      Next.Rest, implies_true, and_true]
    rfl
  | create =>
    simp only [serve, within_bind, within_argErrorCheck, within_getWord, within_ite, within_exit,
      within_isPaged, within_pure, spanLoads, implies_true, true_and, and_true]
    refine imp_congr_right fun hesp => ?_
    rw [and_iff_right (loadsBelow_of_le (by omega))]
    refine forall_congr' fun file => imp_congr_right fun _ => and_congr_right fun _ => ?_
    refine forall_congr' fun size => imp_congr_right fun _ => imp_congr_right fun _ => ?_
    refine imp_congr_right fun huser => imp_congr_right fun _ => ?_
    have hfits : (Critical.create file size).Fits := by
      simp only [physBase, Critical.Fits] at *
      omega
    exact Critical.within_run hfits
  | remove =>
    simp only [serve, within_bind, within_argErrorCheck, within_getWord, within_pure, spanLoads]
    refine imp_congr_right fun _ => and_congr_right fun _ => ?_
    exact forall_congr' fun file => imp_congr_right fun _ => Critical.within_run trivial
  | openFile =>
    simp only [serve, within_bind, within_argErrorCheck, within_getWord, within_ite, within_exit,
      within_isPaged, within_pure, spanLoads, implies_true, and_true]
    refine imp_congr_right fun _ => and_congr_right fun _ => ?_
    refine forall_congr' fun file => imp_congr_right fun _ => imp_congr_right fun _ => ?_
    exact imp_congr_right fun _ => Critical.within_run trivial
  | filesize =>
    simp only [serve, within_bind, within_argErrorCheck, within_getWord, within_pure, spanLoads]
    refine imp_congr_right fun _ => and_iff_left fun fd _ => ?_
    exact (Critical.within_run (c := .filesize _) trivial).mpr trivial
  | read =>
    simp only [serve, within_bind, within_argErrorCheck, within_getWord, within_read, within_ite,
      within_exit, spanLoads, implies_true, true_and, not_console, not_null_or]
    refine imp_congr_right fun hesp => ?_
    rw [and_iff_right (loadsBelow_of_le (by omega))]
    refine forall_congr' fun fd => imp_congr_right fun _ => imp_congr_right fun hfd => ?_
    rw [and_iff_right (loadsBelow_of_le (by omega))]
    refine forall_congr' fun buffer => imp_congr_right fun _ => ?_
    rw [and_imp]
    refine imp_congr_right fun _ => imp_congr_right fun _ => and_congr_right fun _ => ?_
    exact forall_congr' fun length => imp_congr_right fun _ => within_readCall hfd
  | write =>
    simp only [serve, within_bind, within_argErrorCheck, within_getWord, within_ite, within_exit,
      within_isUserAndMapped, spanLoads, implies_true, and_true, Bool.and_eq_true,
      decide_eq_true_eq, and_imp]
    refine imp_congr_right fun hesp => ?_
    rw [and_iff_right (loadsBelow_of_le (by omega))]
    refine forall_congr' fun fd => imp_congr_right fun _ => ?_
    rw [and_iff_right (loadsBelow_of_le (by omega))]
    refine forall_congr' fun buffer => imp_congr_right fun _ => imp_congr_right fun _ => ?_
    refine imp_congr_right fun _ => and_congr_right fun _ => ?_
    exact forall_congr' fun size => imp_congr_right fun _ => within_writeCall
  | seek =>
    simp only [serve, within_bind, within_argErrorCheck, within_getWord, within_withFile, spanLoads]
    refine imp_congr_right fun hesp => ?_
    rw [and_iff_right (loadsBelow_of_le (by omega))]
    refine forall_congr' fun fd => imp_congr_right fun _ => and_iff_left fun position _ ptr _ => ?_
    exact (Critical.within_run (c := .seek _ _ _) trivial).mpr trivial
  | tell =>
    simp only [serve, within_bind, within_argErrorCheck, within_getWord, within_withFile, spanLoads]
    refine imp_congr_right fun hesp => and_iff_left fun fd _ ptr _ => ?_
    exact (Critical.within_run (c := .tell _ _) trivial).mpr trivial
  | close =>
    refine iff_of_true ?_ trivial
    simp [serve, within_argErrorCheck, Next.Rest]

lemma within_syscallHandler :
    Within (· < physBase) (syscallHandler e esp) k (fun n _ => n.Rest e' k') ↔
      e.HandlerBelow esp k e' k' := by
  rw [syscallHandler, within_ite, or_comm]
  simp only [within_exit, implies_true, true_and, not_null_or, and_imp, within_bind, within_isPaged,
    within_ite, and_true, within_getWord, spanLoads]
  refine imp_congr_right fun _ => ⟨fun h huser => ?_, fun h huser _ => ?_⟩
  · refine fun hmapped => (h huser huser hmapped).imp id fun hnr nr hsys => ?_
    obtain ⟨w, hw, hof⟩ := Option.bind_eq_some_iff.mp hsys
    have hserve := hnr w hw
    rw [hof] at hserve
    exact (within_serve nr).mp hserve
  · refine fun hmapped => (h huser hmapped).imp id fun hnr w hw => ?_
    cases hof : SysNr.ofWord w with
    | none => exact (within_pure _).mpr trivial
    | some nr => exact (within_serve nr).mpr (hnr nr (by rw [Env.sysNr, hw]; exact hof))

end

/-- A whole call. Behind the semaphore, others have been at work, and the surroundings are `e'`
and `k'`. -/
def wholeCall (e : Env) (esp : ℕ) (e' : Env) (k' : Kernel) : Sys (Option ℤ) := do
  let next ← syscallHandler e esp
  match next with
  | .ret eax => return eax
  | .locked c => do
    Traced.update fun _ => k'
    c.run e'

/-- **A system call touches only user memory** exactly if what it goes through ends, or fails, below
`PHYS_BASE`. -/
theorem touches_user_memory (e e' : Env) (esp : ℕ) (k k' : Kernel) :
    (∀ x ∈ (wholeCall e esp e' k' k).trace, x < physBase) ↔ e.HandlerBelow esp k e' k' := by
  rw [← within_true, wholeCall, within_bind, ← within_syscallHandler]
  refine within_congr fun n _ => ?_
  cases n with
  | ret eax => simp [Next.Rest]
  | locked c => simp [Next.Rest]

/-- `write (1, PHYS_BASE - 4, 8)` prints four bytes of the kernel. -/
theorem kernel_memory_touched :
    let e := callEnv [9, 1, physBase - 4, 8]
    (¬ ∀ x ∈ (wholeCall e callEsp e bootWorld.kernel bootWorld.kernel).trace, x < physBase) ∧
      (wholeCall e callEsp e bootWorld.kernel bootWorld.kernel).value = .ok (some 8) := by
  decide +kernel

end Pintos
