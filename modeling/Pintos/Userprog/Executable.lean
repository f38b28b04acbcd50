import Pintos.Filesys.Handles
import Pintos.Filesys.Rollback
import Pintos.Threads.Orphan
import Pintos.Threads.Units

/-!
# Userprog/Executable — what a parent finds when `process_wait` returns

`load` opens the executable and denies writes to it, until `thread_exit` closes it. But the parent
is signalled first, and may be back before its child gets any further. A child that is not
interrupted there has closed its executable when the parent goes on.
-/

namespace Pintos

open Machinery Function

/-- What has become of a thread's executable. -/
inductive ExecStage where
  /-- not opened, as yet -/
  | unopened
  /-- opened by `load`, though it may have found no file -/
  | opened
  /-- closed, in `thread_exit` -/
  | closed
  deriving DecidableEq, Repr

/-- The threads, the file system, and the field `executable` of each thread. -/
structure Machine where
  family : Family
  fs : Fs
  executable : ℕ → Option ℕ
  stage : ℕ → ExecStage

/-- What happens next. -/
inductive MachineAct where
  /-- a thread goes on -/
  | family (a : FamilyAct)
  /-- `load` opens the executable -/
  | openExecutable (m : Mem) (c : ℕ) (name : CString)
  /-- `thread_exit` closes it -/
  | closeExecutable (m : Mem) (t : ℕ)
  /-- somebody opens, closes or writes another file -/
  | files (c : Fs.OpenerCall)

/-- The thread whose executable is closed by a step. -/
def MachineAct.closes : MachineAct → Option ℕ
  | .closeExecutable _ t => some t
  | _ => none

/-- The file that a call closes, or whose `deny_write` it changes. -/
def Fs.OpenerCall.touches : Fs.OpenerCall → Option ℕ
  | closeFile _ f => some f
  | denyWrite f => some f
  | allowWrite f => some f
  | _ => none

namespace Machine

/-- In `load`: `filesys_open`, and `file_deny_write` if there is a file. -/
def openExecutable (m : Mem) (name : CString) : FsM (Option ℕ) := do
  let file ← Fs.filesysOpen m name
  match file with
  | none => return none
  | some f =>
    Fs.fileDenyWrite f
    return some f

/-- `file_close`, of a pointer that may be null. -/
def closeExecutable (m : Mem) : Option ℕ → FsM Unit
  | none => return ()
  | some f => Fs.fileClose m f

/-- A `load` that gets past the opening has an executable, and a thread that is through with
`thread_exit` has closed it. -/
def Allows (s : Machine) : FamilyAct → Prop
  | .load c true => s.stage c = .opened ∧ s.executable c ≠ none
  | .loadExit c => s.stage c = .opened ∧ s.executable c ≠ none
  | .die t => s.stage t = .closed
  | _ => True

instance (s : Machine) : (a : FamilyAct) → Decidable (s.Allows a)
  | .load _ true | .loadExit _ => inferInstanceAs (Decidable (_ ∧ _))
  | .die _ => inferInstanceAs (Decidable (_ = _))
  | .load _ false | .exec .. | .runTask _ | .loadSignal _ | .loadAbort _ | .execDown _
  | .execReturn _ | .wait .. | .waitDown _ | .waitReturn _ | .exit .. | .mainExit | .signal _ =>
    inferInstanceAs (Decidable True)

/-- The executable of `c` has been opened. -/
def withOpened (s : Machine) (c : ℕ) (file : Option ℕ) (fs : Fs) : Machine where
  family := s.family
  fs := fs
  executable := update s.executable c file
  stage := update s.stage c .opened

/-- …and closed. -/
def withClosed (s : Machine) (t : ℕ) (fs : Fs) : Machine where
  family := s.family
  fs := fs
  executable := s.executable
  stage := update s.stage t .closed

section

variable (s : Machine) {t u : ℕ} (file : Option ℕ) (fs : Fs)

@[simp] lemma executable_withOpened_self : (s.withOpened t file fs).executable t = file :=
  update_self ..

@[simp] lemma stage_withOpened_self : (s.withOpened t file fs).stage t = .opened :=
  update_self ..

@[simp] lemma stage_withClosed_self : (s.withClosed t fs).stage t = .closed :=
  update_self ..

lemma stage_withOpened_ne (h : u ≠ t) : (s.withOpened t file fs).stage u = s.stage u :=
  update_of_ne h ..

lemma stage_withClosed_ne (h : u ≠ t) : (s.withClosed t fs).stage u = s.stage u :=
  update_of_ne h ..

end

/-- The file system after a call that comes to its end. -/
def after {α : Type} (x : FsM α) (fs : Fs) (k : α → Fs → Machine) : Option Machine :=
  match x.run fs with
  | .ok a fs' => some (k a fs')
  | .error _ _ => none

/-- What `a` does in `s`, if it can be done there. -/
def act (s : Machine) : MachineAct → Option Machine
  | .family a => if s.Allows a then (s.family.act a).map fun fam => { s with family := fam } else none
  | .openExecutable m c name =>
    if (s.family.thread c).phase = .loading ∧ s.stage c = .unopened then
      after (openExecutable m name) s.fs (s.withOpened c)
    else none
  | .closeExecutable m t =>
    if (s.family.thread t).phase = .signalled ∧ s.stage t ≠ .closed then
      after (closeExecutable m (s.executable t)) s.fs fun _ => s.withClosed t
    else none
  | .files c =>
    if ∀ t < s.family.nextTid, s.executable t = none ∨ s.executable t ≠ c.touches then
      after c.run s.fs fun _ fs => { s with fs := fs }
    else none

/-- The machine has just started, and no executable is open. -/
structure Boot (s : Machine) : Prop where
  family : s.family.Boot
  counted : Fs.Counted Fs.nothing s.fs
  executable : ∀ t, s.executable t = none
  stage : ∀ t, s.stage t = .unopened

end Machine

/-- The threads and their executables. -/
def machineSystem : System Machine MachineAct where
  init := Machine.Boot
  step s a s' := s.act a = some s'

variable {fs : Fs}

namespace Machine

/-! ## Steps -/

/-- Everything that can happen. -/
inductive Step (s : Machine) : MachineAct → Machine → Prop
  | family {a : FamilyAct} {fam : Family} (h : s.Allows a) (hstep : FamilyStep s.family a fam) :
    Step s (.family a) { s with family := fam }
  | opened {m : Mem} {c : ℕ} {name : CString} {file : Option ℕ} {fs : Fs}
      (hph : (s.family.thread c).phase = .loading) (hstage : s.stage c = .unopened)
      (hrun : (openExecutable m name).run s.fs = .ok file fs) :
    Step s (.openExecutable m c name) (s.withOpened c file fs)
  | closed {m : Mem} {t : ℕ} {fs : Fs} (hph : (s.family.thread t).phase = .signalled)
      (hrun : (closeExecutable m (s.executable t)).run s.fs = .ok () fs) :
    Step s (.closeExecutable m t) (s.withClosed t fs)
  | files {c : Fs.OpenerCall} {fs : Fs} (hrun : c.run.run s.fs = .ok () fs) :
    Step s (.files c) { s with fs := fs }

lemma after_eq_some {α : Type} {x : FsM α} {k : α → Fs → Machine} {s : Machine}
    (h : after x fs k = some s) : ∃ a fs', x.run fs = .ok a fs' ∧ s = k a fs' := by
  rw [after] at h
  split at h
  · rename_i a fs' hrun
    exact ⟨a, fs', hrun, (Option.some.inj h).symm⟩
  · cases h

lemma step_of_act {s s' : Machine} {a : MachineAct} (h : s.act a = some s') : Step s a s' := by
  cases a with
  | family a =>
    rw [act] at h
    split_ifs at h with hallows
    obtain ⟨fam, hfam, rfl⟩ := Option.map_eq_some_iff.mp h
    exact .family hallows (Family.step_of_act hfam)
  | openExecutable m c name =>
    rw [act] at h
    split_ifs at h with hc
    obtain ⟨file, fs, hrun, rfl⟩ := after_eq_some h
    exact .opened hc.1 hc.2 hrun
  | closeExecutable m t =>
    rw [act] at h
    split_ifs at h with ht
    obtain ⟨_, fs, hrun, rfl⟩ := after_eq_some h
    exact .closed ht.1 hrun
  | files c =>
    rw [act] at h
    split_ifs at h
    obtain ⟨_, fs, hrun, rfl⟩ := after_eq_some h
    exact .files hrun

/-! ## What holds all the time -/

/-- The threads are tidy and the counts right. -/
structure Sound (s : Machine) : Prop where
  tidy : s.family.Tidy
  balanced : ∀ p, s.family.Balanced p
  counted : Fs.Counted Fs.nothing s.fs
  handle : ∀ t f, s.executable t = some f → f < s.fs.files.next
  closed : ∀ t f, s.stage t = .closed → s.executable t = some f → s.fs.files.get? f = none
  dead : ∀ t, (s.family.thread t).phase = .dead → s.stage t = .closed

variable {s s' : Machine} {a : MachineAct} {t p c : ℕ}

lemma Boot.sound (h : s.Boot) : s.Sound where
  tidy := h.family.tidy
  balanced := h.family.balanced
  counted := h.counted
  handle t f hf := by
    rw [h.executable t] at hf
    cases hf
  closed t f ht := by
    rw [h.stage t] at ht
    cases ht
  dead t ht := by obtain hth | hth := h.family.cases t <;> rw [hth] at ht <;> cases ht

lemma gives_openExecutable (m : Mem) (name : CString) (h : Fs.Counted Fs.nothing fs) :
    Gives (openExecutable m name) fs fun r fs' =>
      Fs.Counted Fs.nothing fs' ∧ fs.files.Later fs'.files ∧ ∀ f, r = some f → f < fs'.files.next := by
  rw [openExecutable, gives_bind]
  refine (Fs.gives_filesysOpen h name).mono ?_
  rintro file fs₁ ⟨hcounted, hopened⟩
  have hlater := hopened.later
  obtain ⟨rfl, -⟩ | ⟨a, rfl, hfiles⟩ := hopened
  · exact (gives_pure none).mpr ⟨hcounted, hlater, nofun⟩
  · simp only [gives_bind, gives_pure]
    refine (Fs.gives_fileDenyWrite hcounted).mono fun _ fs₂ hfs₂ => ?_
    refine ⟨hfs₂.1, hlater.trans hfs₂.2.later, fun g hg => ?_⟩
    cases hg
    rw [hfs₂.2.next, hfiles]
    exact Nat.lt_succ_self _

lemma gives_closeExecutable (m : Mem) (file : Option ℕ) (h : Fs.Counted Fs.nothing fs) :
    Gives (closeExecutable m file) fs fun _ fs' =>
      Fs.Counted Fs.nothing fs' ∧ fs.files.Later fs'.files ∧
        ∀ f, file = some f → fs'.files.get? f = none := by
  cases file with
  | none => exact (gives_pure ()).mpr ⟨h, .refl _, nofun⟩
  | some f =>
    refine (Fs.gives_fileClose m h).mono ?_
    rintro _ fs' ⟨hcounted, t, hsame, hfiles⟩
    refine ⟨hcounted, hfiles ▸ hsame.later.trans (Heap.later_free _ f), fun g hg => ?_⟩
    cases hg
    rw [hfiles, Heap.get?_free_self]

lemma Sound.older (h : s.Sound) (hcounted : Fs.Counted Fs.nothing fs)
    (hlater : s.fs.files.Later fs.files) : Sound { s with fs := fs } where
  tidy := h.tidy
  balanced := h.balanced
  counted := hcounted
  handle t f hf := (h.handle t f hf).trans_le hlater.next
  closed t f ht hf := hlater.gone f (h.handle t f hf) (h.closed t f ht hf)
  dead := h.dead

lemma Sound.step (h : s.Sound) (hstep : Step s a s') : s'.Sound := by
  cases hstep with
  | @family a fam hallows hfam =>
    refine ⟨h.tidy.step hfam, fun p => (h.balanced p).step h.tidy hfam, h.counted, h.handle,
      h.closed, fun t ht => ?_⟩
    obtain hdead | rfl := (h.tidy.change hfam t).dead ht
    · exact h.dead t hdead
    · exact hallows
  | @opened m c name file fs hph hstage hrun =>
    obtain ⟨hcounted, hlater, hlt⟩ := gives_openExecutable m name h.counted file fs hrun
    have hold := h.older hcounted hlater
    refine ⟨h.tidy, h.balanced, hcounted, fun t f hf => ?_, fun t f ht hf => ?_, fun t ht => ?_⟩
    · by_cases htc : t = c
      · rw [htc, executable_withOpened_self] at hf
        exact hlt f hf
      · replace hf := (update_of_ne htc ..).symm.trans hf
        exact hold.handle t f hf
    · have hne : t ≠ c := by
        rintro rfl
        simp at ht
      rw [stage_withOpened_ne _ _ _ hne] at ht
      replace hf := (update_of_ne hne ..).symm.trans hf
      exact hold.closed t f ht hf
    · have hne : t ≠ c := by
        rintro rfl
        cases hph.symm.trans ht
      rw [stage_withOpened_ne _ _ _ hne]
      exact h.dead t ht
  | @closed m t fs hph hrun =>
    obtain ⟨hcounted, hlater, hgone⟩ := gives_closeExecutable m _ h.counted () fs hrun
    have hold := h.older hcounted hlater
    refine ⟨h.tidy, h.balanced, hcounted, hold.handle, fun u f hu hf => ?_, fun u hu => ?_⟩
    · by_cases hut : u = t
      · rw [hut] at hf
        exact hgone f hf
      · rw [stage_withClosed_ne _ _ hut] at hu
        exact hold.closed u f hu hf
    · by_cases hut : u = t
      · rw [hut, stage_withClosed_self]
      · rw [stage_withClosed_ne _ _ hut]
        exact h.dead u hu
  | files hrun =>
    obtain ⟨hcounted, hlater⟩ := h.counted.call _ () _ hrun
    exact h.older hcounted hlater

lemma stage_step (hstep : Step s a s') (hc : s.stage c = .closed) : s'.stage c = .closed := by
  cases hstep with
  | family => exact hc
  | @opened _ d _ file fs _ hstage =>
    have hne : c ≠ d := by
      rintro rfl
      cases hc.symm.trans hstage
    rwa [stage_withOpened_ne _ _ _ hne]
  | @closed _ t fs =>
    by_cases hct : c = t
    · rw [hct, stage_withClosed_self]
    · rwa [stage_withClosed_ne _ _ hct]
  | files => exact hc

/-! ## A child that is not interrupted -/

/-- Thread `t` has signalled its parent, and not closed its executable. -/
def Interrupted (s : Machine) (t : ℕ) : Prop :=
  (s.family.thread t).phase = .signalled ∧ s.stage t ≠ .closed

instance (s : Machine) (t : ℕ) : Decidable (s.Interrupted t) := inferInstanceAs (Decidable (_ ∧ _))

/-- Nothing comes between the `sema_up` and the `file_close` of a thread in `thread_exit`. -/
def Uninterrupted (s : Machine) (a : MachineAct) : Prop :=
  ∀ t < s.family.nextTid, s.Interrupted t → a.closes = some t

instance (s : Machine) (a : MachineAct) : Decidable (Uninterrupted s a) :=
  inferInstanceAs (Decidable (∀ t < _, _ → _))

lemma Sound.closed_of_gone (h : s.Sound) (hgone : (s.family.thread c).Gone)
    (hc : ¬ s.Interrupted c) : s.stage c = .closed := by
  obtain hph | hph := hgone
  · by_contra hstage
    exact hc ⟨hph, hstage⟩
  · exact h.dead c hph

/-- Past the `sema_down` with one child left, it has closed its executable. -/
def WaitedOut (s : Machine) : Prop := ∀ p c, (s.family.thread p).phase = .waitRead c →
  (s.family.thread p).children = [c] → s.stage c = .closed

/-- A thread gets past the `sema_down` of `process_wait` by that alone, and then its list stays. -/
lemma waitRead_of_change {s : Family} {a : FamilyAct} {th : Thread} (h : ThreadChange s a p th)
    (ha : ¬ a.CreatedBy p) (hph : th.phase = .waitRead c) :
    ((s.thread p).phase = .waitRead c ∧ th.children = (s.thread p).children) ∨ a = .waitDown p := by
  cases h with
  | own hown => cases hown <;> simp_all
  | born => cases hph
  | exec => cases hph
  | runTask hp hrun => exact absurd (.inr ⟨hrun, hp⟩) ha
  | @loadSignal success => cases success <;> cases hph
  | signal => cases hph
  | _ => exact .inl ⟨hph, rfl⟩

lemma WaitedOut.step (h : s.WaitedOut) (hs : s.Sound) (hG : Uninterrupted s a)
    (hstep : Step s a s') : s'.WaitedOut := by
  intro p c hread hone
  have hs' := hs.step hstep
  cases hstep with
  | @family a fam hallows hfam =>
    have hcreated : ¬ a.CreatedBy p := by
      intro ha
      obtain ⟨-, ph, hph, hthread⟩ := hs.tidy.thread_creator hfam ha
      rw [hthread] at hread
      obtain rfl | rfl := hph <;> cases hread
    obtain ⟨hread₀, hlist⟩ | rfl := waitRead_of_change (hs.tidy.change hfam p) hcreated hread
    · exact h p c hread₀ (hlist ▸ hone)
    · -- the parent goes past the semaphore: its child is gone, and was not interrupted
      have hpar := hs'.tidy.child p c (by rw [hone]; exact List.mem_singleton_self c)
      have hgone := (hs'.balanced p).gone hs'.tidy hread hone hpar
      have hpar₀ : (s.family.thread c).parent = some p := by
        obtain hpar₀ | ⟨-, ha⟩ := (hs.tidy.parent_iff hfam).mp hpar
        · exact hpar₀
        · exact absurd ha hcreated
      obtain hgone₀ | ha := (hs.tidy.gone_iff hfam).mp hgone
      · refine hs.closed_of_gone hgone₀ fun hint => ?_
        cases hG c (hs.tidy.lt_nextTid_of_parent hpar₀) hint
      · cases ha
  | opened hph hstage hrun => exact stage_step (.opened hph hstage hrun) (h p c hread hone)
  | closed hph hrun => exact stage_step (.closed hph hrun) (h p c hread hone)
  | files => exact h p c hread hone

/-! ## The child's executable -/

/-- The executable of `c` is closed: writes that are denied are denied by other files. -/
structure Released (s : Machine) (c : ℕ) : Prop where
  stage : s.stage c = .closed
  file : ∀ f, s.executable c = some f → s.fs.files.get? f = none
  others : ∀ a i, s.fs.inodes.get? a = some i → i.denyWriteCnt ≠ 0 → ∃ g x,
    s.fs.files.get? g = some x ∧ x.inode = a ∧ x.denyWrite = true ∧ s.executable c ≠ some g

lemma Sound.released (h : s.Sound) (hc : s.stage c = .closed) : s.Released c := by
  refine ⟨hc, fun f hf => h.closed c f hc hf, fun a i hi hdeny => ?_⟩
  have hcount := (h.counted.counts hi).2.2
  have hpos : 0 < s.fs.deniers a := by
    rw [hcount] at hdeny
    exact Nat.pos_of_ne_zero fun hzero => hdeny (by rw [hzero]; rfl)
  obtain ⟨g, x, hx, hp⟩ := Heap.exists_of_count_pos hpos
  simp only [Bool.and_eq_true, decide_eq_true_eq] at hp
  refine ⟨g, x, hx, hp.1, hp.2, fun hg => ?_⟩
  cases (h.closed c g hc hg).symm.trans hx

/-- The runs that go on from a state. -/
def runsFrom (s : Machine) : System Machine MachineAct where
  init := (· = s)
  step := machineSystem.step

end Machine

/-- **A child's exit is complete before its parent learns of it**, when nothing comes between the
`sema_up` and the `file_close` of a thread in `thread_exit`: writes are denied by other files then,
if at all. -/
theorem exit_complete_before_wait {s : Machine} (hs : machineSystem.Reach Machine.Uninterrupted s)
    {p c : ℕ} (hread : (s.family.thread p).phase = .waitRead c)
    (hone : (s.family.thread p).children = [c]) :
    s.Released c ∧ ∀ s', (Machine.runsFrom s).Reachable s' → s'.Released c := by
  have hinv : s.Sound ∧ s.WaitedOut := by
    refine hs.invariant (I := fun s => s.Sound ∧ s.WaitedOut) (fun s (h0 : s.Boot) => ⟨h0.sound, ?_⟩)
      fun s a s' h hG hact => ⟨h.1.step (Machine.step_of_act hact),
        h.2.step h.1 hG (Machine.step_of_act hact)⟩
    intro p c hread
    obtain hp | hp := h0.family.cases p <;> rw [hp] at hread <;> cases hread
  obtain ⟨hsound, hwaited⟩ := hinv
  have hclosed := hwaited p c hread hone
  refine ⟨hsound.released hclosed, fun s' hs' => ?_⟩
  have hlater : s'.Sound ∧ s'.stage c = .closed := by
    refine hs'.invariant (I := fun s => s.Sound ∧ s.stage c = .closed) ?_ ?_
    · rintro _ rfl
      exact ⟨hsound, hclosed⟩
    · intro s a s' h _ hact
      exact ⟨h.1.step (Machine.step_of_act hact), Machine.stage_step (Machine.step_of_act hact) h.2⟩
  exact hlater.1.released hlater.2

/-! ## Two programs -/

lemma parentName_ok : (0 : UInt8) ∉ [97] := by decide

/-- The parent's program… -/
def parentName : CString := ⟨[97], parentName_ok⟩

/-- …and the child's. -/
def childName : CString := ⟨[98], by decide⟩

/-- A device is formatted, and gets the two programs. -/
def install : FsM Unit := do
  Fs.filesysInit .plenty (fun _ => 0) true
  let _ ← Fs.filesysCreate .plenty (fun _ => 0) parentName 1
  let _ ← Fs.filesysCreate .plenty (fun _ => 0) childName 1

def twoPrograms : Fs := final (install.run Fs.eightSectors)

lemma counted_twoPrograms : Fs.Counted Fs.nothing twoPrograms := by
  have hends : endsWith (fun _ _ => true) (install.run Fs.eightSectors) = true := by decide +kernel
  obtain ⟨_, s, hrun, -⟩ := endsWith_iff.mp hends
  have hgives : Gives install Fs.eightSectors fun _ s => Fs.Counted Fs.nothing s := by
    have hboot : Fs.eightSectors.Booting := ⟨fun _ => rfl, fun _ => rfl, rfl⟩
    have hcreate {K : ℕ → Prop} {f₀ : ℕ} {s : Fs} (name : CString)
        (hv : Fs.Volume K Fs.nothing f₀ Fs.rootDirSector 16 s) :
        Gives (Fs.filesysCreate .plenty (fun _ => 0) name 1) s fun _ s' =>
          ∃ K', Fs.Volume K' Fs.nothing f₀ Fs.rootDirSector 16 s' := by
      refine (hv.filesysCreate .plenty _ name Int.one_nonneg (by decide)).gives.mono ?_
      rintro _ s' (⟨-, hs'⟩ | ⟨-, x, hs'⟩)
      · exact ⟨_, hs'.kept.volume⟩
      · exact ⟨_, hs'.kept.volume⟩
    simp only [install, gives_bind, gives_pure]
    refine (Fs.gives_filesysInit .plenty _ hboot).mono fun _ s₁ hs₁ => ?_
    obtain ⟨f₀, hv₁⟩ := hs₁.volume
    refine (hcreate parentName hv₁).mono ?_
    rintro _ s₂ ⟨K₂, hv₂⟩
    refine (hcreate childName hv₂).mono ?_
    rintro _ s₃ ⟨K₃, hv₃⟩
    exact hv₃.counted
  rw [twoPrograms, hrun]
  exact hgives () s hrun

def bootMachine (fs : Fs) : Machine := ⟨bootFamily, fs, fun _ => none, fun _ => .unopened⟩

lemma bootMachine_boot (h : Fs.Counted Fs.nothing fs) : (bootMachine fs).Boot :=
  ⟨bootFamily_boot, h, fun _ => rfl, fun _ => rfl⟩

/-- Process 2 executes process 3, waits for it, and process 3 exits, as far as its `sema_up`. -/
def childSignals : List MachineAct :=
  [.family (.runTask true), .openExecutable .plenty 2 parentName, .family (.load 2 true),
    .family (.loadSignal 2), .family (.exec 2 true), .openExecutable .plenty 3 childName,
    .family (.load 3 true), .family (.loadSignal 3), .family (.execDown 2), .family (.execReturn 2),
    .family (.wait 2 3), .family (.exit 3 0), .family (.signal 3)]

/-- Process 3 closes its executable, and process 2 goes on. -/
theorem exit_complete_before_wait_two : ∃ s, machineSystem.Reach Machine.Uninterrupted s ∧
    (s.family.thread 2).phase = .waitRead 3 ∧ (s.family.thread 2).children = [3] ∧
    s.Released 3 := by
  obtain ⟨s, -, hs, hread, hone⟩ := System.exists_of_run (T := machineSystem)
    (G := Machine.Uninterrupted)
    (P := fun s => (s.family.thread 2).phase = .waitRead 3 ∧ (s.family.thread 2).children = [3])
    (l := childSignals ++ [.closeExecutable .plenty 3, .family (.waitDown 2)])
    (fun _ _ _ h => h) (bootMachine_boot counted_twoPrograms) (by decide +kernel)
  exact ⟨s, hs, hread, hone, (exit_complete_before_wait hs hread hone).1⟩

/-- Process 2 is back before process 3 has closed its executable, and cannot write to it; no
other file denies that. -/
theorem wait_before_close : ∃ s, machineSystem.Reachable s ∧
    (s.family.thread 2).phase = .waitRead 3 ∧ (s.family.thread 2).children = [3] ∧
    s.stage 3 = .opened ∧ (∃ x i, (s.executable 3).bind s.fs.files.get? = some x ∧
      x.denyWrite = true ∧ s.fs.inodes.get? x.inode = some i ∧ i.denyWriteCnt = 1 ∧
      ∀ m bytes size offset, (Fs.inodeWriteAt m x.inode bytes size offset).run s.fs = .ok 0 s.fs) := by
  obtain ⟨s, -, hs, hread, hone, hstage, hfile⟩ := System.exists_of_run (T := machineSystem)
    (G := fun _ _ => True)
    (P := fun s => (s.family.thread 2).phase = .waitRead 3 ∧ (s.family.thread 2).children = [3] ∧
      s.stage 3 = .opened ∧ (s.executable 3).bind s.fs.files.get? = some ⟨7, 0, true⟩ ∧
      (s.fs.inodes.get? 7).map (·.denyWriteCnt) = some 1)
    (l := childSignals ++ [.family (.waitDown 2)])
    (fun _ _ _ h => h) (bootMachine_boot counted_twoPrograms) (by decide +kernel)
  obtain ⟨hfile, hinode⟩ := hfile
  obtain ⟨i, hi, hdeny⟩ := Option.map_eq_some_iff.mp hinode
  refine ⟨s, hs, hread, hone, hstage, _, i, hfile, rfl, hi, hdeny, fun m bytes size offset => ?_⟩
  exact Fs.inodeWriteAt_denied m size offset bytes hi (by rw [hdeny]; decide)

end Pintos
