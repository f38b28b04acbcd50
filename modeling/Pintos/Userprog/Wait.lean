import Pintos.Threads.Tidy

/-!
# Userprog/Wait — what `process_wait` returns

`process_wait` takes one unit of the parent's `wait_sema` and then reads the record of the child it
was asked for. The unit may be any child's. They agree as long as the parent never waits for a
living child with a dead sibling's unit to hand, and no sibling dies while it waits.
-/

namespace Pintos

open Machinery

/-! ## The order that makes it right -/

/-- The child a thread at the `sema_down` of `process_wait` waits for. -/
def Phase.awaited : Phase → Option ℕ
  | .waitDown c => some c
  | _ => none

/-- `process_wait` is called for a child that is gone, or with no unit to hand; and no child exits
while its parent waits for a living sibling. -/
def WaitsInOrder (s : Family) : FamilyAct → Prop
  | .wait p c => (s.thread c).Gone ∨ (s.thread p).waitSema.value = 0
  | .signal t => ∀ p ∈ (s.thread t).parent, ∀ c ∈ (s.thread p).phase.awaited,
      c = t ∨ (s.thread c).Gone
  | _ => True

instance (s : Family) : (a : FamilyAct) → Decidable (WaitsInOrder s a)
  | .wait p c => inferInstanceAs (Decidable ((s.thread c).Gone ∨ (s.thread p).waitSema.value = 0))
  | .signal t => inferInstanceAs (Decidable (∀ p ∈ (s.thread t).parent,
      ∀ c ∈ (s.thread p).phase.awaited, c = t ∨ (s.thread c).Gone))
  | .exec _ _ | .runTask _ | .load _ _ | .loadSignal _ | .loadAbort _ | .loadExit _ | .execDown _
  | .execReturn _ | .waitDown _ | .waitReturn _ | .exit _ _ | .mainExit | .die _ => isTrue trivial

/-- A thread in `process_wait` has no unit to take, or its child is gone; past the `sema_down` its
child is gone. -/
structure Thread.WaitOk (th : Thread) (gone : ℕ → Prop) : Prop where
  down : ∀ c, th.phase = .waitDown c → c ∈ th.children ∧ (gone c ∨ th.waitSema.value = 0)
  read : ∀ c, th.phase = .waitRead c → c ∈ th.children ∧ gone c

lemma Thread.WaitOk.mono {th : Thread} {gone gone' : ℕ → Prop} (h : th.WaitOk gone)
    (hmono : ∀ c, gone c → gone' c) : th.WaitOk gone' where
  down c hc := ⟨(h.down c hc).1, (h.down c hc).2.imp_left (hmono c)⟩
  read c hc := ⟨(h.read c hc).1, hmono c (h.read c hc).2⟩

lemma ThreadStep.waitOk {t : ℕ} {th th' : Thread} {a : FamilyAct} {gone : ℕ → Prop}
    (h : th.WaitOk gone) (hstep : ThreadStep t th a th')
    (hwait : ∀ c, a = .wait t c → gone c ∨ th.waitSema.value = 0) : th'.WaitOk gone := by
  obtain ⟨hdown, hread⟩ := h
  cases hstep with
  | wait hph hc =>
    refine ⟨fun c' hc' => ?_, nofun⟩
    cases hc'
    exact ⟨hc, hwait _ rfl⟩
  | waitUnknown => exact ⟨hdown, hread⟩
  | waitDown hph hb hv =>
    refine ⟨nofun, fun c' hc' => ?_⟩
    cases hc'
    obtain ⟨hmem, hgone | hzero⟩ := hdown _ hph
    · exact ⟨hmem, hgone⟩
    · exact absurd hzero (Nat.ne_of_gt hv)
  | waitSleep => exact ⟨hdown, hread⟩
  | execSleep => exact ⟨hdown, hread⟩
  | _ => exact ⟨nofun, nofun⟩

lemma waitOk_step {s s' : Family} {a : FamilyAct} (hs : s.Tidy)
    (h : ∀ p, (s.thread p).WaitOk fun c => (s.thread c).Gone) (horder : WaitsInOrder s a)
    (hstep : FamilyStep s a s') (p : ℕ) : (s'.thread p).WaitOk fun c => (s'.thread c).Gone := by
  have hp := (h p).mono fun c => hs.gone_step hstep
  have hchange := hs.change hstep p
  generalize s'.thread p = th at hchange
  cases hchange with
  | rest => exact hp
  | own hown =>
    refine hown.waitOk hp fun c ha => ?_
    subst ha
    exact horder.imp_left (hs.gone_step hstep)
  | runTask =>
    exact ⟨fun c hc => ⟨List.mem_append_left _ (hp.down c hc).1, (hp.down c hc).2⟩,
      fun c hc => ⟨List.mem_append_left _ (hp.read c hc).1, (hp.read c hc).2⟩⟩
  | @loadSignal success => cases success <;> exact ⟨nofun, nofun⟩
  | loadSignalled => exact ⟨hp.down, hp.read⟩
  | signalled hc hpar ha =>
    -- the unit that arrives is the awaited child's, or that child was gone before
    subst ha
    refine ⟨fun c hph => ⟨(hp.down c hph).1, .inl ?_⟩, hp.read⟩
    rcases horder p hpar c (congrArg Phase.awaited hph) with rfl | hgone
    · exact gone_signal hstep
    · exact hs.gone_step hstep hgone
  | _ => exact ⟨nofun, nofun⟩

/-- **`process_wait` returns the status its child exited with**, in every run whose waits and exits
are in order. -/
theorem wait_returns_status {s : Family} (h : familySystem.Reach WaitsInOrder s) {p c : ℕ}
    (hret : (s.thread p).phase = .waitRead c) :
    (s.thread c).parent = some p ∧ (s.thread c).Gone ∧
      (s.thread c).exited = some (s.waitResult c) := by
  have hinv : s.Tidy ∧ ∀ p, (s.thread p).WaitOk fun c => (s.thread c).Gone := by
    refine h.invariant (I := fun s => s.Tidy ∧ ∀ p, (s.thread p).WaitOk fun c => (s.thread c).Gone)
      (fun s (h0 : s.Boot) => ⟨h0.tidy, fun p => ?_⟩)
      fun s a s' hI horder hact => ⟨hI.1.step (Family.step_of_act hact),
        waitOk_step hI.1 hI.2 horder (Family.step_of_act hact)⟩
    rcases h0.cases p with hp | hp <;> rw [hp] <;> exact ⟨nofun, nofun⟩
  obtain ⟨hs, hwait⟩ := hinv
  obtain ⟨hmem, hgone⟩ := (hwait p).read c hret
  exact ⟨hs.child p c hmem, hgone, (hs.recorded c).exited hgone⟩

/-- Process 2 waits for 3, which then exits with 5. -/
theorem wait_for_one : ∃ s, familySystem.Reach WaitsInOrder s ∧ (s.thread 2).phase = .waitRead 3 ∧
    s.waitResult 3 = 5 ∧ (s.thread 3).exited = some (s.waitResult 3) := by
  obtain ⟨s, -, hreach, hph, hres⟩ := family_of_run (G := WaitsInOrder)
    (P := fun s => (s.thread 2).phase = .waitRead 3 ∧ s.waitResult 3 = 5)
    (l := oneChild ++ [.wait 2 3, .exit 3 5, .signal 3, .waitDown 2]) (by decide)
  exact ⟨s, hreach, hph, hres, (wait_returns_status hreach hph).2.2⟩

/-! ## A sibling that exits first -/

/-- Process 2 executes 3 and 4; 4 exits with 7, then 2 waits for 3. -/
def twoChildren : List FamilyAct :=
  oneChild ++ [.exec 2 true, .load 4 true, .loadSignal 4, .execDown 2, .execReturn 2,
    .exit 4 7, .signal 4, .wait 2 3, .waitDown 2]

/-- Process 2 is back with -666 from a child that is still running. -/
theorem wait_before_exit : ∃ s,
    System.run Family.act (fun _ _ => True) bootFamily twoChildren = some s ∧
    familySystem.Reachable s ∧ (s.thread 2).phase = .waitRead 3 ∧ s.waitResult 3 = -666 ∧
    (s.thread 3).parent = some 2 ∧ (s.thread 3).phase = .running ∧ (s.thread 3).exited = none :=
  family_of_run (by decide)

end Pintos
