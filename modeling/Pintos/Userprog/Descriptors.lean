import Pintos.Userprog.Table

/-!
# Userprog/Descriptors — whose descriptors they are

`owned` notes who has got a descriptor from `open`. As long as every process keeps to its own, a
descriptor belongs to one process, and a call with it goes to the file that it stands for.
-/

namespace Pintos

open Machinery Traced Option Critical

/-! ## Calls with a descriptor -/

/-- The calls that take a descriptor of a file; `write` to 1 is for the console. -/
def SysNr.takes (fd : ℤ) : SysNr → Bool
  | .filesize => true
  | .read => true
  | .write => fd ≠ 1
  | .seek => true
  | .tell => true
  | .close => true
  | _ => false

/-- The descriptor of a file that the step is about. -/
def World.usesFd (w : World) : SysAct → Option ℤ
  | .trap _ e esp =>
    match e.sysNr esp, e.word (esp + 4) with
    | some nr, some fd => if nr.takes (toInt32 fd) then some (toInt32 fd) else none
    | _, _ => none
  | .finish p _ =>
    match w.stage p with
    | .inside c => c.fd
    | _ => none
  | _ => none

def SysAct.closes : SysAct → Bool
  | .trap _ e esp => e.sysNr esp = some .close
  | _ => false

/-- One keeps to one's own descriptors, or to those that stand for no file; and closes only
one's own. -/
def UsesOwn (w : World) (a : SysAct) : Prop :=
  ∀ fd ∈ w.usesFd a, w.owned a.proc fd = true ∨
    fdToFilePtr w.kernel.fileDescriptors fd = none ∧ a.closes = false

instance (w : World) (a : SysAct) : Decidable (UsesOwn w a) :=
  inferInstanceAs (Decidable (∀ fd ∈ w.usesFd a,
    w.owned a.proc fd = true ∨ fdToFilePtr w.kernel.fileDescriptors fd = none ∧ a.closes = false))

/-! ## Whole runs -/

/-- The call a process is in, once it has come to the semaphore. -/
def Stage.critical : Stage → Option Critical
  | .waiting c => some c
  | .inside c => some c
  | _ => none

/-- What descriptors are like while everybody keeps to their own. -/
structure World.Private (w : World) : Prop where
  filled : ∀ p fd, w.owned p fd = true → fdToFilePtr w.kernel.fileDescriptors fd ≠ none
  single : ∀ p q fd, w.owned p fd = true → w.owned q fd = true → p = q
  found : ∀ p c ptr, (w.stage p).critical = some c → c.found = some ptr →
    ∃ fd, c.fd = some fd ∧ w.owned p fd = true ∧ fdToFilePtr w.kernel.fileDescriptors fd = some ptr

lemma World.Boot.private {w : World} (h : w.Boot) : w.Private where
  filled p fd hp := by simp [h.owned] at hp
  single p q fd hp := by simp [h.owned] at hp
  found p c ptr hc := by simp [h.user, Stage.critical] at hc

variable {c : Critical} {e : Env}

section

variable {owned : ℕ → ℤ → Bool} {p q : ℕ} {fd : ℤ}

lemma of_noteOpen {eax : Option ℤ} (h : noteOpen owned p c eax q fd = true) :
    owned q fd = true ∨ q = p ∧ (∃ file, c = .openFile file) ∧ eax = some fd ∧ 2 ≤ fd := by
  unfold noteOpen at h
  split at h
  · rename_i file fd'
    split at h
    · rename_i h2
      rw [note] at h
      split at h
      · rename_i hq
        obtain ⟨hq, rfl⟩ := hq
        exact .inr ⟨hq, ⟨file, rfl⟩, rfl, h2⟩
      · exact .inl h
    · exact .inl h
  · exact .inl h

lemma noteClose_cases (owned : ℕ → ℤ → Bool) (p : ℕ) (e : Env) (esp : ℕ) :
    noteClose owned p e esp = owned ∨
      ∃ fd, e.sysNr esp = some .close ∧ noteClose owned p e esp = note owned p fd false := by
  rw [noteClose]
  split
  · exact .inr ⟨_, ‹_›, rfl⟩
  · exact .inl rfl

lemma of_noteClose {esp : ℕ} (h : noteClose owned p e esp q fd = true) : owned q fd = true := by
  obtain hn | ⟨fd', -, hn⟩ := noteClose_cases owned p e esp
  · exact hn ▸ h
  · rw [hn, note] at h
    split at h
    · cases h
    · exact h

lemma note_ne (h : q ≠ p) (has : Bool) : note owned p fd has q = owned q := by
  funext fd'
  exact if_neg fun hq => h hq.1

lemma noteOpen_ne (h : q ≠ p) (c : Critical) (eax : Option ℤ) :
    noteOpen owned p c eax q = owned q := by
  unfold noteOpen
  split
  · split
    · exact note_ne h _
    · rfl
  · rfl

lemma noteClose_ne (h : q ≠ p) (e : Env) (esp : ℕ) : noteClose owned p e esp q = owned q := by
  obtain hn | ⟨fd, -, hn⟩ := noteClose_cases owned p e esp
  · rw [hn]
  · rw [hn, note_ne h]

lemma noteClose_of_ne {esp : ℕ} (h : e.sysNr esp ≠ some .close) :
    noteClose owned p e esp = owned :=
  (noteClose_cases owned p e esp).resolve_right fun ⟨_, hclose, _⟩ => h hclose

end

variable {fd : ℤ}

lemma World.Left.critical {w w' : World} {p q : ℕ} (h : w.Left p w')
    (hc : (w'.stage q).critical = some c) : (w.stage q).critical = some c := by
  by_cases hq : q = p
  · obtain ⟨stop, rfl⟩ | ⟨used, rfl⟩ := h
    · exact hc
    · rw [hq, stage_setStage_self] at hc
      cases hc
  · rwa [← h.stage_ne hq]

namespace SysStep

variable {w w' : World} {a : SysAct}

variable (h : SysStep w a w')

include h

lemma extends_kernel : w.kernel.Extends w'.kernel := by
  obtain ⟨n, hk⟩ | ⟨p, e, c, -, -, hk⟩ := h.kernel_cases
  · rw [hk]
    exact fun _ _ => id
  · rw [hk]
    exact c.extends_run

/-- A number that a step gives away stood for no file before. -/
lemma owned_cases {q : ℕ} (ho : w'.owned q fd = true) : w.owned q fd = true ∨
      q = a.proc ∧ fdToFilePtr w.kernel.fileDescriptors fd = none ∧
        ∃ ptr, fdToFilePtr w'.kernel.fileDescriptors fd = some ptr := by
  cases h with
  | ret => exact .inl (of_noteClose ho)
  | locked => exact .inl (of_noteClose ho)
  | trapStop =>
    rw [(World.left_leave ..).owned] at ho
    exact .inl (of_noteClose ho)
  | semaDown => exact .inl ho
  | @done p e c eax hup hp hval =>
    obtain ho | ⟨hq, ⟨file, rfl⟩, rfl, h2⟩ := of_noteOpen ho
    · exact .inl ho
    · exact .inr ⟨hq, (opened_openFile (Critical.fine_true _ e w.kernel).rest).fresh hval h2⟩
  | doneStop =>
    rw [(World.left_leave ..).owned] at ho
    exact .inl ho
  | killed =>
    rw [(World.left_threadExit ..).owned] at ho
    exact .inl ho

lemma owned_ne {q : ℕ} (hq : q ≠ a.proc) : w'.owned q = w.owned q := by
  cases h with
  | ret => exact noteClose_ne hq ..
  | locked => exact noteClose_ne hq ..
  | trapStop =>
    rw [(World.left_leave ..).owned]
    exact noteClose_ne hq ..
  | semaDown => rfl
  | done => exact noteOpen_ne hq ..
  | doneStop => rw [(World.left_leave ..).owned]
  | killed => rw [(World.left_threadExit ..).owned]

/-- A call at the semaphore was there before, with the same notes, or the handler has just let
it through. -/
lemma critical_cases {p : ℕ} (hc : (w'.stage p).critical = some c) :
    ((w.stage p).critical = some c ∧ w'.owned p = w.owned p) ∨
      ∃ e esp, a = .trap p e esp ∧ (syscallHandler e esp w.kernel).value = .ok (.locked c) ∧
        w'.owned = noteClose w.owned p e esp := by
  by_cases hp : p = a.proc
  · cases hp
    cases h with
    | ret => simp [SysAct.proc, Stage.critical] at hc
    | locked hup hp hval =>
      simp only [SysAct.proc, World.stage_setStage_self, Stage.critical, some.injEq] at hc
      cases hc
      exact .inr ⟨_, _, rfl, hval, rfl⟩
    | trapStop hup hp =>
      have hkeep := (World.left_leave ..).critical hc
      simp [SysAct.proc, hp, Stage.critical] at hkeep
    | semaDown hup hp =>
      simp only [SysAct.proc, World.stage_setStage_self, Stage.critical, some.injEq] at hc
      cases hc
      exact .inl ⟨congrArg Stage.critical hp, rfl⟩
    | done => simp [SysAct.proc, Stage.critical] at hc
    | @doneStop p e c' stop hup hp hval =>
      have hkeep := (World.left_leave ..).critical hc
      exact .inl ⟨hkeep, by rw [(World.left_leave ..).owned]⟩
    | killed hup hp =>
      have hkeep := (World.left_threadExit ..).critical hc
      simp [SysAct.proc, hp, Stage.critical] at hkeep
  · exact .inl ⟨by rw [← h.stage_ne hp]; exact hc, h.owned_ne hp⟩

end SysStep

lemma SysNr.takes_write : SysNr.write.takes fd = true ↔ fd ≠ 1 := decide_eq_true_iff

section

variable {e : Env} {esp : ℕ} {k : Kernel} {nr : SysNr}

/-- A call comes to the semaphore with the descriptor it was made with, and with no other file than
its own. -/
lemma Served.fd_of_locked (h : Served e esp k nr (.locked c)) :
    (c.found = none ∧ ∀ fd, nr.takes fd = false) ∨ ∃ v, e.word (esp + 4) = some v ∧
      c.fd = some (toInt32 v) ∧ nr.takes (toInt32 v) = true ∧ nr ≠ .close ∧
      ∀ ptr, c.found = some ptr → fdToFilePtr k.fileDescriptors (toInt32 v) = some ptr := by
  cases h with
  | create => exact .inl ⟨rfl, fun _ => rfl⟩
  | remove => exact .inl ⟨rfl, fun _ => rfl⟩
  | openFile => exact .inl ⟨rfl, fun _ => rfl⟩
  | filesize hfd => exact .inr ⟨_, hfd, rfl, rfl, nofun, nofun⟩
  | read hfd => exact .inr ⟨_, hfd, rfl, rfl, nofun, nofun⟩
  | write hfd h1 => exact .inr ⟨_, hfd, rfl, SysNr.takes_write.mpr h1, nofun, nofun⟩
  | seek hfd _ hptr => exact .inr ⟨_, hfd, rfl, rfl, nofun, fun _ h => h ▸ hptr⟩
  | tell hfd hptr => exact .inr ⟨_, hfd, rfl, rfl, nofun, fun _ h => h ▸ hptr⟩

lemma Served.eq_close {eax : Option ℤ} {v : ℕ} (h : Served e esp k nr (.ret eax))
    (hv : e.word (esp + 4) = some v) (ht : nr.takes (toInt32 v) = true) : nr = .close := by
  cases h with
  | exec => cases ht
  | wait => cases ht
  | console size hfd h1 =>
    rw [hv] at hfd
    rw [some.inj hfd] at ht
    exact absurd h1 (SysNr.takes_write.mp ht)
  | close => rfl

end

namespace World

variable {w w' : World} {a : SysAct}

lemma usesFd_trap {p esp : ℕ} : fd ∈ w.usesFd (.trap p e esp) ↔
    ∃ nr v, e.sysNr esp = some nr ∧ e.word (esp + 4) = some v ∧ nr.takes (toInt32 v) = true ∧
      toInt32 v = fd := by
  rw [usesFd]
  cases e.sysNr esp with
  | none => simp
  | some nr =>
    cases e.word (esp + 4) with
    | none => simp
    | some v => simp

lemma usesFd_finish {p : ℕ} (hp : w.stage p = .inside c) (h : fd ∈ w.usesFd (.finish p e)) :
    c.fd = some fd := by
  rwa [usesFd, hp] at h

lemma found_of_locked {p esp ptr : ℕ} (huse : UsesOwn w (.trap p e esp))
    (h : (syscallHandler e esp w.kernel).value = .ok (.locked c)) (hptr : c.found = some ptr) :
    ∃ fd, c.fd = some fd ∧ noteClose w.owned p e esp p fd = true ∧
      fdToFilePtr w.kernel.fileDescriptors fd = some ptr := by
  obtain ⟨-, h⟩ | ⟨nr, hnr, hserved⟩ := served_of_syscallHandler h
  · cases h
  obtain ⟨hno, -⟩ | ⟨v, hv, hfd, ht, hclose, hfound⟩ := hserved.fd_of_locked
  · rw [hno] at hptr
    cases hptr
  have hslot := hfound ptr hptr
  rw [noteClose_of_ne (by rw [hnr]; exact fun h => hclose (some.inj h))]
  obtain howned | ⟨hnone, -⟩ := huse _ (usesFd_trap.mpr ⟨nr, v, hnr, hv, ht, rfl⟩)
  · exact ⟨_, hfd, howned, hslot⟩
  · rw [hnone] at hslot
    cases hslot

lemma Private.step (h : w.Private) (huse : UsesOwn w a) (hstep : SysStep w a w') :
    w'.Private := by
  have hext := hstep.extends_kernel
  refine ⟨fun p fd hp => ?_, fun p q fd hp hq => ?_, fun p c ptr hc hptr => ?_⟩
  · obtain hp | ⟨-, -, ptr, hptr⟩ := hstep.owned_cases hp
    · obtain ⟨ptr, hptr⟩ := ne_none_iff_exists'.mp (h.filled p fd hp)
      rw [hext fd ptr hptr]
      exact nofun
    · rw [hptr]
      exact nofun
  · obtain hp | ⟨hp, hnone, -⟩ := hstep.owned_cases hp <;>
      obtain hq | ⟨hq, hnone', -⟩ := hstep.owned_cases hq
    · exact h.single p q fd hp hq
    · exact absurd hnone' (h.filled p fd hp)
    · exact absurd hnone (h.filled q fd hq)
    · exact hp.trans hq.symm
  · obtain ⟨hcrit, howned⟩ | ⟨e, esp, rfl, hval, howned⟩ := hstep.critical_cases hc
    · obtain ⟨fd, hfd, ho, hslot⟩ := h.found p c ptr hcrit hptr
      exact ⟨fd, hfd, by rw [howned]; exact ho, hext fd ptr hslot⟩
    · obtain ⟨fd, hfd, ho, hslot⟩ := found_of_locked huse hval hptr
      exact ⟨fd, hfd, by rw [howned]; exact ho, hext fd ptr hslot⟩

/-! ## Refusals -/

/-- Process `p` gets nothing for its call with `fd`. -/
def Refused (w : World) (p : ℕ) (fd : ℤ) : Prop :=
  w.stage p = .ended ∨ (w.stage p = .user ∧ w.eax p = some (-1)) ∨
    ∃ c, w.stage p = .waiting c ∧ c.fd = some fd ∧ c.found = none

/-- The files of a call are those of its descriptor. -/
lemma Private.slot_of_targets (h : w.Private) {p ptr : ℕ} (hp : w.stage p = .inside c)
    (hfd : c.fd = some fd) (ht : c.Targets w.kernel ptr) :
    fdToFilePtr w.kernel.fileDescriptors fd = some ptr := by
  obtain hfound | ⟨fd', hfd', hslot⟩ := ht
  · obtain ⟨fd', hfd', -, hslot⟩ := h.found p c ptr (congrArg Stage.critical hp) hfound
    rwa [some.inj (hfd.symm.trans hfd')]
  · rwa [some.inj (hfd.symm.trans hfd')]

lemma served_of_usesFd {p esp : ℕ} {n : Next} (hfd : fd ∈ w.usesFd (.trap p e esp))
    (h : (syscallHandler e esp w.kernel).value = .ok n) :
    ∃ nr v, e.sysNr esp = some nr ∧ e.word (esp + 4) = some v ∧ nr.takes (toInt32 v) = true ∧
      toInt32 v = fd ∧ Served e esp w.kernel nr n := by
  obtain ⟨nr, v, hnr, hv, ht, hfd⟩ := usesFd_trap.mp hfd
  obtain ⟨hno, -⟩ | ⟨nr', hnr', hserved⟩ := served_of_syscallHandler h
  · rw [hno] at hnr
    cases hnr
  · rw [hnr] at hnr'
    rw [← some.inj hnr'] at hserved
    exact ⟨nr, v, hnr, hv, ht, hfd, hserved⟩

/-- A call with a descriptor that stands for no file is refused, and no file is touched. -/
lemma Private.refused (h : w.Private) (hfd : fd ∈ w.usesFd a)
    (hnone : fdToFilePtr w.kernel.fileDescriptors fd = none) (hclose : a.closes = false)
    (hstep : SysStep w a w')
    (hup : w'.down = none) :
    w'.kernel.file = w.kernel.file ∧ w'.kernel.inode = w.kernel.inode ∧ w'.Refused a.proc fd := by
  have hno {p : ℕ} {c : Critical} (hp : w.stage p = .inside c) (hfd : c.fd = some fd) (ptr : ℕ) :
      ¬ c.Targets w.kernel ptr := by
    intro ht
    rw [h.slot_of_targets hp hfd ht] at hnone
    cases hnone
  cases hstep with
  | ret hdown hp hval =>
    obtain ⟨nr, v, hnr, hv, ht, -, hserved⟩ := served_of_usesFd hfd hval
    rw [hserved.eq_close hv ht] at hnr
    exact absurd hnr (of_decide_eq_false hclose)
  | @locked p esp e c hdown hp hval =>
    obtain ⟨nr, v, hnr, hv, ht, rfl, hserved⟩ := served_of_usesFd hfd hval
    refine ⟨rfl, rfl, .inr (.inr ⟨c, stage_setStage_self .., ?_⟩)⟩
    obtain ⟨-, hno⟩ | ⟨v', hv', hc, -, -, hfound⟩ := hserved.fd_of_locked
    · rw [hno] at ht
      cases ht
    · rw [hv] at hv'
      rw [← some.inj hv'] at hc hfound
      refine ⟨hc, eq_none_iff_forall_ne_some.mpr fun ptr hptr => ?_⟩
      rw [hfound ptr hptr] at hnone
      cases hnone
  | trapStop =>
    rw [(left_leave ..).kernel]
    exact ⟨rfl, rfl, .inl ((left_leave ..).stage_self hup)⟩
  | semaDown => cases hfd
  | killed => cases hfd
  | @done p e c eax hdown hp hval =>
    have hc := usesFd_finish hp hfd
    obtain ⟨hfile, hinode⟩ := files_of_no_target hc (hno hp hc)
    refine ⟨hfile, hinode, .inr (.inl ⟨stage_resume_self .., ?_⟩)⟩
    rw [yields_error hc (hno hp hc) eax hval]
    exact Function.update_self ..
  | @doneStop p e c stop hdown hp hval =>
    have hc := usesFd_finish hp hfd
    obtain ⟨hfile, hinode⟩ := files_of_no_target hc (hno hp hc)
    rw [(left_leave ..).kernel]
    exact ⟨hfile, hinode, .inl ((left_leave ..).stage_self hup)⟩

end World

/-! ## Privacy -/

namespace World

variable {w w' : World} {a : SysAct}

lemma Private.confined (h : w.Private) (hfd : fd ∈ w.usesFd a) (hstep : SysStep w a w') :
    w.kernel.Confined fd w'.kernel := by
  obtain ⟨n, hk⟩ | ⟨p, e, c, rfl, hp, hk⟩ := hstep.kernel_cases
  · rw [hk]
    exact ⟨fun _ _ => rfl, fun _ _ => rfl⟩
  · have hc := usesFd_finish hp hfd
    rw [hk]
    exact confined_run hc fun ptr => h.slot_of_targets hp hc

end World

/-- **File descriptors are private**, when everybody keeps to their own. A call with a descriptor
not got from `open`, or closed, is refused; one that was got is the process's alone, and the call
touches no other file. -/
theorem descriptors_private {w w' : World} {a : SysAct} {fd : ℤ} (h : sysSystem.Reach UsesOwn w)
    (ha : UsesOwn w a) (hact : w.act a = some w') (hup : w'.down = none) (hfd : fd ∈ w.usesFd a) :
    (w.owned a.proc fd = false → w'.kernel.file = w.kernel.file ∧
      w'.kernel.inode = w.kernel.inode ∧ w'.Refused a.proc fd) ∧
    (w.owned a.proc fd = true → (∀ q, w.owned q fd = true → q = a.proc) ∧
      w.kernel.Confined fd w'.kernel) := by
  have hpriv : w.Private := h.invariant (fun w (h0 : w.Boot) => h0.private)
    fun w a w' hI huse hact => hI.step huse (World.step_of_act hact)
  have hstep := World.step_of_act hact
  refine ⟨fun hno => ?_, fun hyes => ⟨fun q hq => ?_, hpriv.confined hfd hstep⟩⟩
  · obtain hyes | ⟨hnone, hclose⟩ := ha fd hfd
    · rw [hno] at hyes
      cases hyes
    · exact hpriv.refused hfd hnone hclose hstep hup
  · exact hpriv.single q _ fd hq hyes

/-- Process 1 opens `a`, and process 2 asks for the size of file 5. -/
theorem descriptors_private_filesize : ∃ w w', sysSystem.Reach UsesOwn w ∧
    w.act (.finish 2 (callEnv [7, 5])) = some w' ∧ w.owned 1 2 = true ∧ w.owned 2 5 = false ∧
    w'.kernel.file = w.kernel.file ∧ w'.kernel.inode = w.kernel.inode ∧ w'.Refused 2 5 := by
  obtain ⟨w, -, hreach, hone, htwo, huse, hfd, hact⟩ := world_of_run (G := UsesOwn)
    (P := fun w => w.owned 1 2 = true ∧ w.owned 2 5 = false ∧
      UsesOwn w (.finish 2 (callEnv [7, 5])) ∧ w.usesFd (.finish 2 (callEnv [7, 5])) = some 5 ∧
      (w.act (.finish 2 (callEnv [7, 5]))).any (fun w' => w'.down = none) = true)
    (l := call 1 [6, 0x1010, 0, 0, 97] ++
      [.trap 2 (callEnv [7, 5]) callEsp, .semaDown 2]) (by decide +kernel)
  obtain ⟨w', hact, hup⟩ := (Option.any_eq_true ..).mp hact
  refine ⟨w, w', hreach, hact, hone, htwo, ?_⟩
  exact (descriptors_private hreach huse hact (of_decide_eq_true hup) hfd).1 htwo

/-! ## Somebody else's descriptor -/

/-- Process 2 moves a file of process 1, with the descriptor that 1 has got from `open`. -/
theorem descriptor_shared : ∃ w w', sysSystem.Reachable w ∧
    w.act (.finish 2 (callEnv [10, 2, 3])) = some w' ∧
    w.usesFd (.finish 2 (callEnv [10, 2, 3])) = some 2 ∧
    w.owned 1 2 = true ∧ w.owned 2 2 = false ∧
    w.kernel.file physBase = some ⟨2, 0⟩ ∧ w'.kernel.file physBase = some ⟨2, 3⟩ := by
  obtain ⟨w, -, hreach, hfd, hone, htwo, hfile, hact⟩ := world_of_run (G := fun _ _ => True)
    (P := fun w => w.usesFd (.finish 2 (callEnv [10, 2, 3])) = some 2 ∧ w.owned 1 2 = true ∧
      w.owned 2 2 = false ∧ w.kernel.file physBase = some ⟨2, 0⟩ ∧
      (w.act (.finish 2 (callEnv [10, 2, 3]))).any
        (fun w' => w'.kernel.file physBase = some ⟨2, 3⟩) = true)
    (l := call 1 [6, 0x1010, 0, 0, 97] ++
      [.trap 2 (callEnv [10, 2, 3]) callEsp, .semaDown 2]) (by decide +kernel)
  obtain ⟨w', hact, hmoved⟩ := (Option.any_eq_true ..).mp hact
  exact ⟨w, w', hreach, hact, hfd, hone, htwo, hfile, of_decide_eq_true hmoved⟩

end Pintos
