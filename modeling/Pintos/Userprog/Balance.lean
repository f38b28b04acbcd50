import Pintos.Userprog.Table

/-!
# Userprog/Balance — the file system semaphore comes back

Each of the eight calls that take `filesys_sema` gives it back on the way out; `filesize` forgets to
for the console's descriptors, and a process that a page fault ends inside has no way out.
-/

namespace Pintos

open Machinery Traced

/-- No process ends. -/
def NotExit (stop : SysStop) : Prop := ∀ status, stop ≠ .exit status

/-- The rest of the call comes to its `sema_up` if the kernel survives: the bytes it moves or
compares do not end the process; and it is no `filesize` of the console. -/
def Critical.Unhurt (e : Env) (k : Kernel) (c : Critical) : Prop :=
  c.RestFine e NotExit k ∧ ∀ fd, c = .filesize fd → 2 ≤ fd

/-- Whoever is inside comes out. -/
def ReturnsSema (w : World) : SysAct → Prop
  | .finish p e => ∀ c, w.stage p = .inside c → c.Unhurt e w.kernel
  | _ => True

/-! ## One call -/

lemma notExit_panic : NotExit .panic := nofun

lemma notExit_wild : NotExit .wild := nofun

section

variable {e : Env} {k k' : Kernel}

lemma Opened.closed {E : SysStop → Prop} {file : ℕ} {r : Except SysStop (Option ℤ)}
    (h : Opened e E k file r k') : Closed Kernel.filesysSema E k r k' := by
  cases h with
  | refused h => exact .up h.sema
  | stopped hE h => exact .stop hE h.sema
  | given h _ hgiven =>
    cases hgiven with
    | filled => exact .up h.sema
    | stopped _ hE hk =>
      refine .stop hE ?_
      obtain rfl | ⟨i, -, -, rfl⟩ := hk <;> exact h.sema

lemma Critical.Unhurt.closed {c : Critical} (h : c.Unhurt e k) :
    Ends (Closed Kernel.filesysSema NotExit k) (c.run e) k := by
  obtain ⟨hrest, hfd⟩ := h
  have hspares : c.Spares Kernel.filesysSema k :=
    ⟨fun _ _ _ _ => rfl, fun _ _ _ _ _ _ _ => rfl, fun _ _ _ h => congrArg (·.1.1) h⟩
  cases c with
  | openFile file => exact (opened_openFile hrest).mono fun _ _ => Opened.closed
  | _ => exact hspares.closed nofun ⟨hrest, fun _ _ _ => notExit_wild⟩ hfd

/-- The semaphore is given back once, unless the call stops. -/
lemma Critical.Unhurt.sema {c : Critical} (h : c.Unhurt e k) {eax : Option ℤ}
    (hval : (c.run e k).value = .ok eax) : (c.run e k).state.filesysSema = k.filesysSema + 1 := by
  have hclosed := h.closed
  rw [Ends, hval] at hclosed
  generalize (c.run e k).state = k' at *
  cases hclosed with
  | up h => exact congrArg (· + 1) h

lemma Critical.Unhurt.notExit {c : Critical} (h : c.Unhurt e k) {stop : SysStop}
    (hval : (c.run e k).value = .error stop) : NotExit stop := by
  have hclosed := h.closed
  rw [Ends, hval] at hclosed
  cases hclosed with
  | stop hE => exact hE

end

/-! ## Whole runs -/

/-- At most one process is inside; the semaphore is 1 when none is, and 0 while the kernel runs
with one inside. -/
structure World.Balanced (w : World) : Prop where
  outside : (∀ p c, w.stage p ≠ .inside c) → w.kernel.filesysSema = 1
  alone : ∀ p q c d, w.stage p = .inside c → w.stage q = .inside d → p = q
  taken : ∀ p c, w.stage p = .inside c → w.down = none → w.kernel.filesysSema = 0

lemma World.Boot.balanced {w : World} (h : w.Boot) : w.Balanced where
  outside _ := h.filesysSema
  alone p q c d hp := by rw [h.user p] at hp; cases hp
  taken p c hp := by rw [h.user p] at hp; cases hp

namespace World.Balanced

variable {w w' : World} {a : SysAct}

lemma of_same (h : w.Balanced) (hsema : w'.kernel.filesysSema = w.kernel.filesysSema)
    (hin : ∀ p c, w'.stage p = .inside c ↔ w.stage p = .inside c) (hup : w.down = none) :
    w'.Balanced where
  outside hout := hsema.trans (h.outside fun p c hp => hout p c ((hin p c).mpr hp))
  alone p q c d hp hq := h.alone p q c d ((hin p c).mp hp) ((hin q d).mp hq)
  taken p c hp _ := hsema.trans (h.taken p c ((hin p c).mp hp) hup)

lemma inside_setStage {p : ℕ} (st : Stage) (hold : ∀ c, w.stage p ≠ .inside c)
    (hnew : ∀ c, st ≠ .inside c) (q : ℕ) (c : Critical) :
    (w.setStage p st).stage q = .inside c ↔ w.stage q = .inside c := by
  by_cases hq : q = p
  · rw [hq, stage_setStage_self]
    exact iff_of_false (hnew c) (hold c)
  · rw [stage_setStage_ne _ _ hq]

lemma left {p : ℕ} (h : w.Balanced) (hleft : w.Left p w') (hp : ∀ c, w.stage p ≠ .inside c)
    (hup : w.down = none) : w'.Balanced := by
  obtain ⟨stop, rfl⟩ | ⟨used, rfl⟩ := hleft
  · exact h.of_same rfl (fun _ _ => Iff.rfl) hup
  · exact h.of_same rfl (inside_setStage .ended hp nofun) hup

lemma step (h : w.Balanced) (hret : ReturnsSema w a) (hstep : SysStep w a w') : w'.Balanced := by
  cases hstep with
  | @ret p esp e eax hup hp hval =>
    exact h.of_same rfl (inside_setStage .user (by simp [hp]) nofun) hup
  | @locked p esp e c hup hp hval =>
    exact h.of_same rfl (inside_setStage (.waiting c) (by simp [hp]) nofun) hup
  | @trapStop p esp e stop hup hp hval =>
    have hnotes : { w with owned := noteClose w.owned p e esp }.Balanced := ⟨h.outside, h.alone, h.taken⟩
    exact hnotes.left (left_leave ..) (by simp [hp]) hup
  | @semaDown p c hup hp hsema =>
    have hnone (q : ℕ) (d : Critical) : w.stage q ≠ .inside d := fun hq => hsema (h.taken q d hq hup)
    have honly {q : ℕ} {d : Critical} (hq : (w.setStage p (.inside c)).stage q = .inside d) :
        q = p := by
      by_contra hne
      rw [stage_setStage_ne _ _ hne] at hq
      exact hnone q d hq
    refine ⟨fun hout => absurd (stage_setStage_self ..) (hout p c), ?_, fun q d _ _ => ?_⟩
    · intro q r d d' hq hr
      exact (honly hq).trans (honly hr).symm
    · simp [setStage, h.outside hnone]
  | @done p e c eax hup hp hval =>
    have hsema := (hret c hp).sema hval
    have hout (q : ℕ) (d : Critical) : (w.setStage p .user).stage q ≠ .inside d := by
      by_cases hq : q = p
      · rw [hq, stage_setStage_self]
        exact nofun
      · rw [stage_setStage_ne _ _ hq]
        exact fun hin => hq (h.alone q p d c hin hp)
    refine ⟨fun _ => ?_, fun q _ d _ hq => absurd hq (hout q d), fun q d hq => absurd hq (hout q d)⟩
    rw [h.taken p c hp hup] at hsema
    exact hsema
  | @doneStop p e c stop hup hp hval =>
    have hnot : NotExit stop := (hret c hp).notExit hval
    cases stop with
    | exit status => exact absurd rfl (hnot status)
    | _ => exact ⟨fun hout => absurd hp (hout p c), h.alone, fun _ _ _ hup' => by cases hup'⟩
  | killed hup hp => exact h.left (left_threadExit ..) (by simp [hp]) hup

end World.Balanced

/-- **The file system semaphore is always given back**, if whoever is inside comes out. -/
theorem filesysSema_returned {w : World} (h : sysSystem.Reach ReturnsSema w) :
    (∀ p e c eax, w.stage p = .inside c → c.Unhurt e w.kernel → (c.run e w.kernel).value = .ok eax →
      (c.run e w.kernel).state.filesysSema = w.kernel.filesysSema + 1) ∧
    ((∀ p c, w.stage p ≠ .inside c) → w.kernel.filesysSema = 1) := by
  have hbal : w.Balanced := h.invariant (fun w (h0 : w.Boot) => h0.balanced)
    fun w a w' hI hret hact => hI.step hret (World.step_of_act hact)
  exact ⟨fun p e c eax _ hc hval => hc.sema hval, hbal.outside⟩

/-- A call that touches no memory, and is no `filesize` of the console. -/
def PlainCall (w : World) : SysAct → Prop
  | .finish p _ =>
    match w.stage p with
    | .inside (.filesize fd) => 2 ≤ fd
    | .inside (.seek ..) => True
    | .inside (.tell ..) => True
    | _ => False
  | _ => True

instance (w : World) (a : SysAct) : Decidable (PlainCall w a) := by
  unfold PlainCall
  split
  · split <;> infer_instance
  · infer_instance

lemma PlainCall.returnsSema {w : World} {a : SysAct} (h : PlainCall w a) : ReturnsSema w a := by
  cases a with
  | finish p e =>
    intro c hc
    rw [PlainCall, hc] at h
    cases c with
    | filesize fd => exact ⟨trivial, fun fd' hfd => (Critical.filesize.inj hfd) ▸ h⟩
    | seek => exact ⟨fun _ => notExit_panic, nofun⟩
    | tell => exact ⟨trivial, nofun⟩
    | _ => exact h.elim
  | _ => trivial

/-- After a `filesize` of a descriptor that nobody has. -/
theorem filesysSema_after_filesize : ∃ w, sysSystem.Reach ReturnsSema w ∧ w.stage 1 = .user ∧
    w.eax 1 = some (-1) ∧ ((∀ p c, w.stage p ≠ .inside c) → w.kernel.filesysSema = 1) := by
  obtain ⟨w, -, hreach, huser, heax⟩ := world_of_run (G := PlainCall)
    (P := fun w => w.stage 1 = .user ∧ w.eax 1 = some (-1)) (l := call 1 [7, 2]) (by decide +kernel)
  have hret := hreach.mono fun _ _ h => PlainCall.returnsSema h
  exact ⟨w, hret, huser, heax, (filesysSema_returned hret).2⟩

/-! ## A `filesize` of the console -/

/-- The semaphore is gone after `filesize (0)`, with nobody inside. -/
theorem filesysSema_lost : ∃ w,
    System.run World.act (fun _ _ => True) bootWorld (call 1 [7, 0]) = some w ∧
    sysSystem.Reachable w ∧ (∀ p c, w.stage p ≠ .inside c) ∧ w.kernel.filesysSema = 0 := by
  obtain ⟨w, hrun, hreach, huser, hsema⟩ := world_of_run (G := fun _ _ => True)
    (P := fun w => w.stage 1 = .user ∧ w.kernel.filesysSema = 0) (l := call 1 [7, 0])
    (by decide +kernel)
  refine ⟨w, hrun, hreach, fun p c hp => ?_, hsema⟩
  by_cases h1 : p = 1
  · rw [h1, huser] at hp
    cases hp
  · rw [World.stage_of_run hrun (by simp [call, SysAct.proc, h1])] at hp
    cases hp

end Pintos
