import Mathlib.Logic.Basic

/-!
# Machinery/Ledger — who holds what, when what is held is marked as used

In a `Ledger` a held resource is marked, and has one holder. It survives any change that gives an
*unmarked* resource to one place and marks it; places that let go, and marks that stay behind, do no
harm.
-/

namespace Machinery

variable {ι κ : Type*}

/-- Held resources are marked, and have one holder. -/
structure Ledger (H : ι → κ → Prop) (U : κ → Prop) : Prop where
  used : ∀ i f, H i f → U f
  unique : ∀ i j f, H i f → H j f → i = j

variable {H H' : ι → κ → Prop} {U U' : κ → Prop}

lemma Ledger.mono (h : Ledger H U) (hH : ∀ i f, H' i f → H i f) (hU : ∀ f, U f → U' f) :
    Ledger H' U' where
  used i f hi := hU f (h.used i f (hH i f hi))
  unique i j f hi hj := h.unique i j f (hH i f hi) (hH j f hj)

lemma Ledger.not_holds (h : Ledger H U) {f : κ} (hf : ¬ U f) (i : ι) : ¬ H i f :=
  fun hi => hf (h.used i f hi)

lemma Ledger.hand_out (h : Ledger H U) {f : κ} (hf : ¬ U f) (hU : ∀ g, U g → U' g) (hUf : U' f)
    {k : ι} (hH : ∀ i g, H' i g → H i g ∨ i = k ∧ g = f) : Ledger H' U' where
  used i g hi := by
    rcases hH i g hi with hi | ⟨-, rfl⟩
    · exact hU g (h.used i g hi)
    · exact hUf
  unique i j g hi hj := by
    rcases hH i g hi with hi | ⟨rfl, rfl⟩ <;> rcases hH j g hj with hj | ⟨rfl, hg⟩
    · exact h.unique i j g hi hj
    · exact absurd hi (hg ▸ h.not_holds hf i)
    · exact absurd hj (h.not_holds hf j)
    · rfl

end Machinery
