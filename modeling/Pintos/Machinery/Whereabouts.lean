import Mathlib.Data.List.Nodup

/-!
# Machinery/Whereabouts — queues, as lists of those who are at a place

Each thing is at one place, and a queue is the list of those who are at its place, each of them
once: `Lists l at_ x`. When a thing moves, the one list loses it, the other gets it, and no other
changes.
-/

namespace Machinery

open Function List

variable {α β : Type} [DecidableEq α] {at_ : α → β} {l : List α} {a b : α} {x y : β}

/-- Who is at `x`, when `a` goes from elsewhere to elsewhere. -/
lemma update_eq_iff_of_ne (hne : at_ a ≠ x ∧ y ≠ x) :
    update at_ a y b = x ↔ at_ b = x := by
  by_cases hb : b = a
  · rw [hb, update_self]
    exact iff_of_false hne.2 hne.1
  · rw [update_of_ne hb]

lemma update_eq_iff_of_self : update at_ a x b = x ↔ b = a ∨ at_ b = x := by
  by_cases hb : b = a
  · rw [hb, update_self]
    exact iff_of_true rfl (.inl rfl)
  · rw [update_of_ne hb, or_iff_right hb]

lemma update_eq_iff_of_leave (hnew : y ≠ x) :
    update at_ a y b = x ↔ b ≠ a ∧ at_ b = x := by
  by_cases hb : b = a
  · rw [hb, update_self]
    exact iff_of_false hnew fun h => h.1 rfl
  · rw [update_of_ne hb, and_iff_right hb]

/-- `l` lists those who are at `x`. -/
structure Lists (l : List α) (at_ : α → β) (x : β) : Prop where
  nodup : l.Nodup
  mem_iff : ∀ a, a ∈ l ↔ at_ a = x

namespace Lists

lemma other (h : Lists l at_ x) (hne : at_ a ≠ x ∧ y ≠ x) :
    Lists l (update at_ a y) x where
  nodup := h.nodup
  mem_iff b := by rw [h.mem_iff, update_eq_iff_of_ne hne]

lemma push (h : Lists l at_ x) (hold : at_ a ≠ x) : Lists (l ++ [a]) (update at_ a x) x where
  nodup := by
    refine (perm_append_singleton a l).nodup_iff.mpr (nodup_cons.mpr ⟨?_, h.nodup⟩)
    rwa [h.mem_iff]
  mem_iff b := by
    rw [mem_append, mem_singleton, h.mem_iff, update_eq_iff_of_self, or_comm]

lemma cons (h : Lists l at_ x) (hold : at_ a ≠ x) : Lists (a :: l) (update at_ a x) x where
  nodup := List.nodup_cons.mpr ⟨by rwa [h.mem_iff], h.nodup⟩
  mem_iff b := by rw [mem_cons, h.mem_iff, update_eq_iff_of_self]

lemma tail (h : Lists (a :: l) at_ x) (hnew : y ≠ x) : Lists l (update at_ a y) x where
  nodup := h.nodup.of_cons
  mem_iff b := by
    rw [update_eq_iff_of_leave hnew, ← h.mem_iff, mem_cons]
    have hnot := (nodup_cons.mp h.nodup).1
    constructor
    · intro hb
      exact ⟨fun heq => hnot (heq ▸ hb), .inr hb⟩
    · intro hb
      exact hb.2.resolve_left hb.1

lemma erase (h : Lists l at_ x) (hnew : y ≠ x) : Lists (l.erase a) (update at_ a y) x where
  nodup := h.nodup.erase a
  mem_iff b := by rw [h.nodup.mem_erase_iff, h.mem_iff, update_eq_iff_of_leave hnew]

end Lists

end Machinery
