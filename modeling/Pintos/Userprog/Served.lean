import Pintos.Userprog.Untouched

/-!
# Userprog/Served — what the handler makes of a call

The handler stops a call, or it comes to `Served`: the call returns, or is at the semaphore with the
arguments it has loaded. `seek` and `tell` have looked up their file by then.
-/

namespace Pintos

open Machinery Traced

/-- What the handler makes of each call that it does not stop. -/
inductive Served (e : Env) (esp : ℕ) (k : Kernel) : SysNr → Next → Prop
  | exec (pid : ℤ) : Served e esp k .exec (.ret (some pid))
  | wait : Served e esp k .wait (.ret (some e.waitResult))
  | create {file initialSize : ℕ} (hfile : e.word (esp + 4) = some file)
      (hsize : e.word (esp + 8) = some initialSize) :
    Served e esp k .create (.locked (.create file initialSize))
  | remove {file : ℕ} (hfile : e.word (esp + 4) = some file) :
    Served e esp k .remove (.locked (.remove file))
  | openFile {file : ℕ} (hfile : e.word (esp + 4) = some file) :
    Served e esp k .openFile (.locked (.openFile file))
  | filesize {fd : ℕ} (hfd : e.word (esp + 4) = some fd) :
    Served e esp k .filesize (.locked (.filesize (toInt32 fd)))
  | read {fd buffer length : ℕ} (hfd : e.word (esp + 4) = some fd)
      (hbuffer : e.word (esp + 8) = some buffer) (hlength : e.word (esp + 12) = some length) :
    Served e esp k .read (.locked (.read (toInt32 fd) buffer length))
  | console {fd : ℕ} (size : ℕ) (hfd : e.word (esp + 4) = some fd) (h1 : toInt32 fd = 1) :
    Served e esp k .write (.ret (some (toInt32 size)))
  | write {fd buffer size : ℕ} (hfd : e.word (esp + 4) = some fd) (h1 : toInt32 fd ≠ 1)
      (hbuffer : e.word (esp + 8) = some buffer) (hsize : e.word (esp + 12) = some size) :
    Served e esp k .write (.locked (.write (toInt32 fd) buffer size))
  | seek {fd position ptr : ℕ} (hfd : e.word (esp + 4) = some fd)
      (hposition : e.word (esp + 8) = some position)
      (hptr : fdToFilePtr k.fileDescriptors (toInt32 fd) = some ptr) :
    Served e esp k .seek (.locked (.seek (toInt32 fd) ptr position))
  | tell {fd ptr : ℕ} (hfd : e.word (esp + 4) = some fd)
      (hptr : fdToFilePtr k.fileDescriptors (toInt32 fd) = some ptr) :
    Served e esp k .tell (.locked (.tell (toInt32 fd) ptr))
  | close : Served e esp k .close (.ret none)

section

variable {e : Env} {E : SysStop → Prop} {k : Kernel}

lemma value_getWord {σ : Type} {s : σ} {a w : ℕ} : (getWord e a s).value = .ok w ↔ e.word a = some w := by
  have hval : ((getWord e a : Traced SysStop ℕ Unit ℕ) ()).value = (getWord e a s).value := by
    simp only [getWord, bind, getByte]
    cases e.load a <;> cases e.load (a + 1) <;> cases e.load (a + 2) <;> cases e.load (a + 3) <;> rfl
  rw [Env.word, hval]
  cases (getWord e a s).value <;> simp [Except.toOption]

lemma keeps_argErrorCheck {esp argWidth : ℕ} (h : E (.exit (-1))) :
    Keeps view E (argErrorCheck esp argWidth) k := by
  rw [argErrorCheck]
  split
  · exact keeps_pure _
  · exact keeps_stop h

lemma user_of_argErrorCheck {esp argWidth : ℕ} {u : Unit}
    (h : (argErrorCheck esp argWidth k).value = .ok u) : isUserVaddr (esp + 4 * argWidth) = true := by
  rw [argErrorCheck] at h
  split at h
  · assumption
  · cases h

/-- The words of arguments that `arg_error_check` is asked for. -/
def SysNr.argWidth : SysNr → ℕ
  | .halt => 0
  | .create => 2
  | .seek => 2
  | .read => 3
  | .write => 3
  | _ => 1

/-- What the handler does with the arguments of a call stops it only for reasons in `E`. -/
def Env.ArgsFine (e : Env) (E : SysStop → Prop) (esp : ℕ) : SysNr → Prop
  | .exec => ∀ cmdLine, e.word (esp + 4) = some cmdLine → isUserVaddr cmdLine = true →
      e.mapped cmdLine = true → (cmdLine = null → E .panic) ∧ e.Readable E cmdLine ∧
        ((e.argPage && e.fnPage && e.threadCreated) = true ∨
          E .wild ∧ (e.load 4).Fine E ∧ (e.store 16).Fine E)
  | .create => ∀ file, e.word (esp + 4) = some file → isUserVaddr file = false → E .panic
  | .openFile => ∀ file, e.word (esp + 4) = some file → isUserVaddr file = false → E .panic
  | .write => ∀ fd buffer size, e.word (esp + 4) = some fd → toInt32 fd = 1 →
      e.word (esp + 8) = some buffer → e.word (esp + 12) = some size →
      ∀ x, buffer ≤ x → x < buffer + size → (e.load x).Fine E
  | _ => True

/-- …and neither does getting at them. -/
structure Env.CallFine (e : Env) (E : SysStop → Prop) (esp : ℕ) : Prop where
  exit : ∀ status, E (.exit status)
  powerOff : E .powerOff
  number : isUserVaddr esp = true → e.mapped esp = true →
    ∀ x, esp ≤ x → x < esp + 4 → (e.load x).Fine E
  words : ∀ nr, e.sysNr esp = some nr → isUserVaddr (esp + 4 * nr.argWidth) = true →
    ∀ x, esp + 4 ≤ x → x < esp + 4 + 4 * nr.argWidth → (e.load x).Fine E
  args : ∀ nr, e.sysNr esp = some nr → e.ArgsFine E esp nr

lemma value_isUserAndMapped {a : ℕ} {σ : Type} {s : σ} :
    (isUserAndMapped e a s).value = .ok (isUserVaddr a && e.mapped a) := by
  rw [isUserAndMapped, isPaged]
  cases isUserVaddr a <;> rfl

lemma keeps_processExecute {cmdLine : ℕ} (hnull : cmdLine = null → E .panic)
    (hread : e.Readable E cmdLine) (hload : e.threadCreated = true ∨ (e.load 4).Fine E) :
    Keeps id E (processExecute e cmdLine) k := by
  rw [processExecute]
  split
  · split
    · exact keeps_stop (hnull ‹_›)
    · refine (keeps_getString hread).bind fun _ _ => ?_
      split
      · split
        · exact keeps_pure _
        · exact (keeps_getByte (hload.resolve_left ‹_›)).bind fun _ _ => keeps_pure _
      · exact keeps_pure _
  · exact keeps_pure _

lemma created_of_processExecute {cmdLine : ℕ} {created : Bool}
    (hmem : (e.argPage && e.fnPage && e.threadCreated) = true)
    (h : (processExecute e cmdLine k).value = .ok created) : created = true := by
  obtain ⟨⟨harg, hfn⟩, hthread⟩ : (e.argPage = true ∧ e.fnPage = true) ∧ e.threadCreated = true := by
    simpa using hmem
  rw [processExecute, if_pos harg] at h
  split at h
  · cases h
  · obtain ⟨s, -, hs⟩ := value_bind.mp h
    cases hs
    rfl

lemma keeps_exec {cmdLine esp : ℕ} (h : e.ArgsFine E esp .exec)
    (hcmd : e.word (esp + 4) = some cmdLine) : Keeps id E (exec e cmdLine) k := by
  refine keeps_isUserAndMapped.bind fun valid hvalid => ?_
  rw [value_isUserAndMapped] at hvalid
  cases hvalid
  split
  · rename_i huser
    obtain ⟨huser, hmapped⟩ : isUserVaddr cmdLine = true ∧ e.mapped cmdLine = true := by
      simpa using huser
    obtain ⟨hnull, hread, hmem | ⟨hwild, hload, hstore⟩⟩ := h cmdLine hcmd huser hmapped
    · refine (keeps_processExecute hnull hread (.inl (by simp_all))).bind fun created hc => ?_
      rw [if_pos (created_of_processExecute hmem hc)]
      exact keeps_pure _
    · refine (keeps_processExecute hnull hread (.inr hload)).bind fun created _ => ?_
      split
      · exact keeps_pure _
      · exact (keeps_putByte hstore).bind fun _ _ => keeps_stop hwild
  · exact keeps_pure _

lemma goes_withFile {R : Next → Prop} {fd : ℤ} {c : ℕ → Critical} (hexit : E (.exit (-1)))
    (h : ∀ ptr, fdToFilePtr k.fileDescriptors fd = some ptr → R (.locked (c ptr))) :
    Goes R E (withFile fd c) k := by
  refine keeps_read.goes_bind ?_
  rintro _ ⟨⟩
  cases hptr : fdToFilePtr k.fileDescriptors fd with
  | none => exact goes_stop hexit
  | some ptr => exact goes_pure (h ptr hptr)

lemma fdToFilePtr_of_lt {table : ℕ → Option ℕ} {fd : ℤ} (h : fd < 2) :
    fdToFilePtr table fd = none := if_pos (.inl h)

/-- Call by call. -/
lemma goes_serve {esp : ℕ} {nr : SysNr} (h : e.CallFine E esp) (hnr : e.sysNr esp = some nr) :
    Goes (Served e esp k nr) E (serve e esp nr) k := by
  have hargs := h.args nr hnr
  have hword (huser : isUserVaddr (esp + 4 * nr.argWidth) = true) (i : ℕ) (h4 : 4 ≤ i)
      (hi : i ≤ 4 * nr.argWidth) {f : ℕ → Sys Next}
      (hf : ∀ w, e.word (esp + i) = some w → Goes (Served e esp k nr) E (f w) k) :
      Goes (Served e esp k nr) E (getWord e (esp + i) >>= f) k :=
    (keeps_getWord fun x hx hx' => h.words nr hnr huser x (by omega) (by omega)).goes_bind
      fun w hw => hf w (value_getWord.mp hw)
  have hcheck {f : Unit → Sys Next} (hf : isUserVaddr (esp + 4 * nr.argWidth) = true →
      Goes (Served e esp k nr) E (f ()) k) :
      Goes (Served e esp k nr) E (argErrorCheck esp nr.argWidth >>= f) k :=
    (keeps_argErrorCheck (h.exit _)).goes_bind fun _ hu => hf (user_of_argErrorCheck hu)
  -- most calls go on to load their first argument
  have hone (hw : 1 ≤ nr.argWidth) {f : ℕ → Sys Next}
      (hf : isUserVaddr (esp + 4 * nr.argWidth) = true → ∀ w, e.word (esp + 4) = some w →
        Goes (Served e esp k nr) E (f w) k) :
      Goes (Served e esp k nr) E (argErrorCheck esp nr.argWidth >>= fun _ =>
        getWord e (esp + 4) >>= f) k :=
    hcheck fun hu => hword hu 4 (by omega) (by omega) (hf hu)
  cases nr with
  | halt => exact goes_stop h.powerOff
  | exit => exact hone (by decide) fun _ _ _ => goes_stop (h.exit _)
  | exec =>
    refine hone (by decide) fun _ cmdLine hcmd => ?_
    exact (keeps_exec hargs hcmd).goes_bind fun pid _ => goes_pure (.exec pid)
  | wait => exact hone (by decide) fun _ _ _ => goes_pure .wait
  | create =>
    refine hone (by decide) fun hu file hfile => ?_
    refine hword hu 8 (by decide) (by decide) fun size hsize => ?_
    split
    · exact goes_stop (h.exit _)
    · refine (keeps_isPaged (hargs file hfile)).goes_bind fun paged _ => ?_
      split
      · exact goes_pure (.create hfile hsize)
      · exact goes_stop (h.exit _)
  | remove => exact hone (by decide) fun _ file hfile => goes_pure (.remove hfile)
  | openFile =>
    refine hone (by decide) fun _ file hfile => ?_
    refine (keeps_isPaged (hargs file hfile)).goes_bind fun paged _ => ?_
    split
    · exact goes_pure (.openFile hfile)
    · exact goes_stop (h.exit _)
  | filesize => exact hone (by decide) fun _ fd hfd => goes_pure (.filesize hfd)
  | read =>
    refine hone (by decide) fun hu fd hfd => keeps_read.goes_bind ?_
    rintro _ ⟨⟩
    split
    · exact goes_stop (h.exit _)
    · rename_i hfile
      refine hword hu 8 (by decide) (by decide) fun buffer hbuffer => ?_
      split
      · exact goes_stop (h.exit _)
      · refine hword hu 12 (by decide) (by decide) fun length hlength => ?_
        -- the console is no file, so its branch of `read` is out of reach
        rw [read, if_neg fun h0 => hfile (.inr (fdToFilePtr_of_lt (by omega)))]
        exact goes_pure (.read hfd hbuffer hlength)
  | write =>
    refine hone (by decide) fun hu fd hfd => ?_
    refine hword hu 8 (by decide) (by decide) fun buffer hbuffer => ?_
    refine keeps_isUserAndMapped.goes_bind fun v _ => ?_
    split
    · refine hword hu 12 (by decide) (by decide) fun size hsize => ?_
      rw [write]
      split
      · rename_i h1
        exact (keeps_getBytes (hargs fd buffer size hfd h1 hbuffer hsize)).goes_bind
          fun _ _ => goes_pure (.console size hfd h1)
      · rename_i h1
        exact goes_pure (.write hfd h1 hbuffer hsize)
    · exact goes_stop (h.exit _)
  | seek =>
    refine hone (by decide) fun hu fd hfd => hword hu 8 (by decide) (by decide) fun position hpos => ?_
    exact goes_withFile (h.exit _) fun ptr hptr => .seek hfd hpos hptr
  | tell =>
    refine hone (by decide) fun _ fd hfd => ?_
    exact goes_withFile (h.exit _) fun ptr hptr => .tell hfd hptr
  | close => exact hcheck fun _ => goes_pure .close

/-- What the handler returns to, it was called for; an unknown call changes nothing. -/
lemma goes_syscallHandler {esp : ℕ} (h : e.CallFine E esp) :
    Goes (fun n => e.sysNr esp = none ∧ n = .ret none ∨
      ∃ nr, e.sysNr esp = some nr ∧ Served e esp k nr n) E (syscallHandler e esp) k := by
  rw [syscallHandler]
  split
  · exact goes_stop (h.exit _)
  · rename_i huser
    have huser : isUserVaddr esp = true := by simpa using fun hk => huser (.inl hk)
    refine (keeps_isPaged fun hk => absurd huser (by simp [hk])).goes_bind fun paged hpaged => ?_
    rw [isPaged, if_pos huser] at hpaged
    cases hpaged
    split
    · rename_i hmapped
      refine (keeps_getWord (h.number huser hmapped)).goes_bind fun id hid => ?_
      rw [value_getWord] at hid
      have hsys : e.sysNr esp = SysNr.ofWord id := by rw [Env.sysNr, hid, Option.bind_some]
      split
      · rename_i nr hnr
        obtain ⟨hkeeps, hserved⟩ := goes_serve (k := k) h (hsys.trans hnr)
        exact ⟨hkeeps, fun n hn => .inr ⟨nr, hsys.trans hnr, hserved n hn⟩⟩
      · rename_i hnr
        exact goes_pure (.inl ⟨hsys.trans hnr, rfl⟩)
    · exact goes_stop (h.exit _)

lemma Env.callFine_true (e : Env) (esp : ℕ) : e.CallFine (fun _ => True) esp where
  exit _ := trivial
  powerOff := trivial
  number _ _ _ _ _ _ _ := trivial
  words _ _ _ _ _ _ _ _ := trivial
  args nr _ := by
    cases nr <;>
      simp [Env.ArgsFine, Env.Readable, Access.Fine]

lemma served_of_syscallHandler {esp : ℕ} {n : Next}
    (h : (syscallHandler e esp k).value = .ok n) : e.sysNr esp = none ∧ n = .ret none ∨
      ∃ nr, e.sysNr esp = some nr ∧ Served e esp k nr n :=
  (goes_syscallHandler (e.callFine_true esp)).2 n h

end

/-! ## Steps -/

/-- Everything that can happen. The handler itself leaves the kernel's data as they are. -/
inductive SysStep (w : World) : SysAct → World → Prop
  | ret {p esp : ℕ} {e : Env} {eax : Option ℤ} (hup : w.down = none) (hp : w.stage p = .user)
      (h : (syscallHandler e esp w.kernel).value = .ok (.ret eax)) :
    SysStep w (.trap p e esp) ({ w with
      owned := noteClose w.owned p e esp, parent := noteExec w.parent p e esp }.resume p eax)
  | locked {p esp : ℕ} {e : Env} {c : Critical} (hup : w.down = none) (hp : w.stage p = .user)
      (h : (syscallHandler e esp w.kernel).value = .ok (.locked c)) :
    SysStep w (.trap p e esp)
      ({ w with owned := noteClose w.owned p e esp }.setStage p (.waiting c))
  | trapStop {p esp : ℕ} {e : Env} {stop : SysStop} (hup : w.down = none) (hp : w.stage p = .user)
      (h : (syscallHandler e esp w.kernel).value = .error stop) :
    SysStep w (.trap p e esp) ({ w with owned := noteClose w.owned p e esp }.leave p e stop)
  | semaDown {p : ℕ} {c : Critical} (hup : w.down = none) (hp : w.stage p = .waiting c)
      (hsema : w.kernel.filesysSema ≠ 0) :
    SysStep w (.semaDown p)
      ({ w with kernel := { w.kernel with filesysSema := w.kernel.filesysSema - 1 } }.setStage p
        (.inside c))
  | done {p : ℕ} {e : Env} {c : Critical} {eax : Option ℤ} (hup : w.down = none)
      (hp : w.stage p = .inside c) (h : (c.run e w.kernel).value = .ok eax) :
    SysStep w (.finish p e) ({ w with
      kernel := (c.run e w.kernel).state, owned := noteOpen w.owned p c eax }.resume p eax)
  | doneStop {p : ℕ} {e : Env} {c : Critical} {stop : SysStop} (hup : w.down = none)
      (hp : w.stage p = .inside c) (h : (c.run e w.kernel).value = .error stop) :
    SysStep w (.finish p e) ({ w with kernel := (c.run e w.kernel).state }.leave p e stop)
  | killed {p : ℕ} {e : Env} (hup : w.down = none) (hp : w.stage p = .user) :
    SysStep w (.killed p e) (w.threadExit p e.frames)

variable {q : ℕ}

namespace World

variable {w w' : World} {a : SysAct}

lemma step_of_act (h : w.act a = some w') : SysStep w a w' := by
  cases a with
  | trap p e esp =>
    rw [act] at h
    split at h
    · rename_i hup
      obtain ⟨hup, hp⟩ := hup
      cases h
      have hk := (goes_syscallHandler (k := w.kernel) (e.callFine_true esp)).1.state_eq
      rw [trapped, hk]
      split
      · exact .ret hup hp ‹_›
      · exact .locked hup hp ‹_›
      · exact .trapStop hup hp ‹_›
    · cases h
  | semaDown p =>
    rw [act] at h
    split at h
    · rename_i hup hp
      split at h
      · cases h
      · cases h
        exact .semaDown hup hp ‹_›
    · cases h
  | finish p e =>
    rw [act] at h
    split at h
    · rename_i hup hp
      cases h
      rw [finished]
      split
      · exact .done hup hp ‹_›
      · exact .doneStop hup hp ‹_›
    · cases h
  | killed p e =>
    rw [act] at h
    split at h
    · rename_i hup
      cases h
      exact .killed hup.1 hup.2
    · cases h

/-! ## The views of a world after a step -/

variable (w) (p : ℕ)

@[simp] lemma stage_setStage_self (st : Stage) : (w.setStage p st).stage p = st :=
  Function.update_self ..

lemma stage_setStage_ne (h : q ≠ p) (st : Stage) :
    (w.setStage p st).stage q = w.stage q := Function.update_of_ne h ..

@[simp] lemma stage_resume_self (eax : Option ℤ) : (w.resume p eax).stage p = .user :=
  stage_setStage_self ..

/-- `w'` is `w` after the end of process `p`, or of the kernel. -/
def Left (w' : World) : Prop :=
  (∃ stop, w' = { w with down := some stop }) ∨ ∃ used, w' = { w with used := used }.setStage p .ended

lemma left_threadExit (frames : List ℕ) : w.Left p (w.threadExit p frames) := by
  rw [threadExit]
  split
  · exact .inl ⟨_, rfl⟩
  · split
    · exact .inl ⟨_, rfl⟩
    · exact .inr ⟨_, rfl⟩

lemma left_leave (e : Env) (stop : SysStop) : w.Left p (w.leave p e stop) := by
  cases stop with
  | exit => exact w.left_threadExit p e.frames
  | _ => exact .inl ⟨_, rfl⟩

variable {w} {p}

variable (h : w.Left p w')

include h

lemma Left.kernel : w'.kernel = w.kernel := by
  obtain ⟨stop, rfl⟩ | ⟨used, rfl⟩ := h <;> rfl

lemma Left.owned : w'.owned = w.owned := by
  obtain ⟨stop, rfl⟩ | ⟨used, rfl⟩ := h <;> rfl

lemma Left.stage_ne (hq : q ≠ p) : w'.stage q = w.stage q := by
  obtain ⟨stop, rfl⟩ | ⟨used, rfl⟩ := h
  · rfl
  · exact stage_setStage_ne _ _ hq _

/-- If the kernel goes on, the process has ended. -/
lemma Left.stage_self (hup : w'.down = none) : w'.stage p = .ended := by
  obtain ⟨stop, rfl⟩ | ⟨used, rfl⟩ := h
  · cases hup
  · exact stage_setStage_self ..

end World

/-- Whose step it is. -/
def SysAct.proc : SysAct → ℕ
  | .trap p _ _ => p
  | .semaDown p => p
  | .finish p _ => p
  | .killed p _ => p

variable {w w' : World}

lemma SysStep.stage_ne {a : SysAct} (h : SysStep w a w') (hq : q ≠ a.proc) :
    w'.stage q = w.stage q := by
  cases h with
  | ret => exact World.stage_setStage_ne _ _ hq _
  | locked => exact World.stage_setStage_ne _ _ hq _
  | trapStop => exact (World.left_leave ..).stage_ne hq
  | semaDown => exact World.stage_setStage_ne _ _ hq _
  | done => exact World.stage_setStage_ne _ _ hq _
  | doneStop => exact (World.left_leave ..).stage_ne hq
  | killed => exact (World.left_threadExit ..).stage_ne hq

/-- The kernel's data change behind the semaphore, or it is the semaphore itself that does. -/
lemma SysStep.kernel_cases {a : SysAct} (h : SysStep w a w') :
    (∃ n, w'.kernel = { w.kernel with filesysSema := n }) ∨ ∃ p e c, a = .finish p e ∧
      w.stage p = .inside c ∧ w'.kernel = (c.run e w.kernel).state := by
  cases h with
  | ret => exact .inl ⟨_, rfl⟩
  | locked => exact .inl ⟨_, rfl⟩
  | trapStop => exact .inl ⟨_, (World.left_leave ..).kernel⟩
  | semaDown => exact .inl ⟨_, rfl⟩
  | done hup hp => exact .inr ⟨_, _, _, rfl, hp, rfl⟩
  | doneStop hup hp => exact .inr ⟨_, _, _, rfl, hp, (World.left_leave ..).kernel⟩
  | killed => exact .inl ⟨_, (World.left_threadExit ..).kernel⟩

lemma World.stage_of_run {G : World → SysAct → Prop} [∀ w a, Decidable (G w a)]
    {l : List SysAct} (h : System.run World.act G w l = some w') (hl : ∀ a ∈ l, q ≠ a.proc) :
    w'.stage q = w.stage q := by
  induction l generalizing w with
  | nil =>
    cases h
    rfl
  | cons a l ih =>
    rw [System.run] at h
    split at h
    · obtain ⟨w₁, hstep, hrest⟩ := Option.bind_eq_some_iff.mp h
      rw [ih hrest fun b hb => hl b (List.mem_cons_of_mem _ hb)]
      exact (step_of_act hstep).stage_ne (hl a List.mem_cons_self)
    · cases h

end Pintos
