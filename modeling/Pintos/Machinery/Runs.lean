import Mathlib.Logic.Basic

/-!
# Machinery/Runs — guarded runs of a labelled transition system

`Reach G` collects the states of the runs whose *every* step is taken under `G`, a condition on the
label and on the state before the step; the unrestricted runs are `Reachable`.
-/

namespace Machinery

/-- A labelled transition system. -/
structure System (σ α : Type*) where
  /-- The states a run may start in. -/
  init : σ → Prop
  /-- The steps: before, label, after. -/
  step : σ → α → σ → Prop

namespace System

variable {σ α : Type*} {T : System σ α} {G H : σ → α → Prop}

/-- The states of the guarded runs — `G` is asked of every label in the state before it. -/
inductive Reach (T : System σ α) (G : σ → α → Prop) : σ → Prop
  | start {s : σ} : T.init s → Reach T G s
  | next {s s' : σ} {a : α} : Reach T G s → G s a → T.step s a s' → Reach T G s'

/-- The states of all runs. -/
abbrev Reachable (T : System σ α) : σ → Prop := T.Reach fun _ _ => True

lemma Reach.mono (h : ∀ s a, G s a → H s a) {s : σ} (hs : T.Reach G s) : T.Reach H s := by
  induction hs with
  | start h0 => exact .start h0
  | next _ hg hstep ih => exact .next ih (h _ _ hg) hstep

/-- The invariant rule: what holds at the start and survives every guarded step holds throughout. -/
lemma Reach.invariant {I : σ → Prop} (h0 : ∀ s, T.init s → I s)
    (hstep : ∀ s a s', I s → G s a → T.step s a s' → I s') {s : σ} (hs : T.Reach G s) : I s := by
  induction hs with
  | start h => exact h0 _ h
  | next _ hg ht ih => exact hstep _ _ _ ih hg ht

/-! ## Runs that can be computed -/

section Compute

variable {act : σ → α → Option σ}

/-- A run through given labels, each allowed by the guard. -/
def run (act : σ → α → Option σ) (G : σ → α → Prop) [∀ s a, Decidable (G s a)] :
    σ → List α → Option σ
  | s, [] => some s
  | s, a :: l => if G s a then (act s a).bind fun s' => run act G s' l else none

/-- What is computed is reached, under any guard the labels pass on the way. -/
lemma Reach.run [∀ s a, Decidable (H s a)] (hact : ∀ s a s', act s a = some s' → T.step s a s')
    {s s' : σ} {l : List α} (hG : ∀ a ∈ l, ∀ s, H s a → G s a) (hs : T.Reach G s)
    (h : run act H s l = some s') : T.Reach G s' := by
  induction l generalizing s with
  | nil =>
    cases h
    exact hs
  | cons a l ih =>
    rw [System.run] at h
    split at h
    · obtain ⟨s₁, hstep, hrest⟩ := Option.bind_eq_some_iff.mp h
      have hg := hG a List.mem_cons_self s ‹_›
      exact ih (fun b hb => hG b (List.mem_cons_of_mem _ hb)) (.next hs hg (hact _ _ _ hstep)) hrest
    · cases h

lemma exists_of_run [∀ s a, Decidable (G s a)] {P : σ → Prop} [DecidablePred P] {s : σ}
    {l : List α} (hact : ∀ s a s', act s a = some s' → T.step s a s') (hs : T.init s)
    (h : (run act G s l).any (fun s' => decide (P s')) = true) :
    ∃ s', run act G s l = some s' ∧ T.Reach G s' ∧ P s' := by
  obtain ⟨s', hrun, hP⟩ := (Option.any_eq_true ..).mp h
  exact ⟨s', hrun, Reach.run hact (fun _ _ _ => id) (.start hs) hrun, of_decide_eq_true hP⟩

end Compute

end System

end Machinery
