import Mathlib.Data.Finset.Card
import Mathlib.Data.Setoid.Basic

/-!
# Machinery/KeyedSet — finite sets with one element for each key

No two elements of the set are equivalent. An element equivalent to a given one can be looked up;
insertion keeps it, replacement puts the new element in its place.
-/

namespace Machinery

variable {ε : Type}

/-- A finite set with one element for each key. -/
structure KeyedSet (r : Setoid ε) where
  elems : Finset ε
  keyed : ∀ x ∈ elems, ∀ y ∈ elems, r x y → x = y

namespace KeyedSet

variable {r : Setoid ε} {s : KeyedSet r} {e x : ε}

def empty : KeyedSet r := ⟨∅, nofun⟩

open Classical in
/-- The element with the key of `e`. -/
noncomputable def find (s : KeyedSet r) (e : ε) : Option ε :=
  if h : ∃ x ∈ s.elems, r x e then some h.choose else none

lemma find_eq_some : s.find e = some x ↔ x ∈ s.elems ∧ r x e := by
  rw [find]
  split_ifs with h
  · obtain ⟨hmem, hkey⟩ := h.choose_spec
    constructor
    · rintro ⟨⟩
      exact ⟨hmem, hkey⟩
    · rintro ⟨hx, hxe⟩
      rw [s.keyed _ hmem x hx (r.trans hkey (r.symm hxe))]
  · exact iff_of_false nofun fun hx => h ⟨x, hx⟩

lemma find_eq_none : s.find e = none ↔ ∀ x ∈ s.elems, ¬ r x e := by
  rw [Option.eq_none_iff_forall_ne_some]
  refine ⟨fun h x hx hxe => h x (find_eq_some.mpr ⟨hx, hxe⟩), fun h x hx => ?_⟩
  obtain ⟨hmem, hkey⟩ := find_eq_some.mp hx
  exact h x hmem hkey

open Classical in
/-- The elements with other keys. -/
noncomputable def delete (s : KeyedSet r) (e : ε) : KeyedSet r where
  elems := s.elems.filter fun x => ¬ r x e
  keyed x hx y hy := s.keyed x (Finset.mem_of_mem_filter x hx) y (Finset.mem_of_mem_filter y hy)

lemma mem_delete : x ∈ (s.delete e).elems ↔ x ∈ s.elems ∧ ¬ r x e := by
  classical exact Finset.mem_filter

open Classical in
/-- `e` in the place of the element with its key. -/
noncomputable def replace (s : KeyedSet r) (e : ε) : KeyedSet r where
  elems := Insert.insert e (s.delete e).elems
  keyed := by
    intro x hx y hy hxy
    obtain rfl | hx := Finset.mem_insert.mp hx
    · obtain rfl | hy := Finset.mem_insert.mp hy
      · rfl
      · exact absurd (r.symm hxy) (mem_delete.mp hy).2
    · obtain rfl | hy := Finset.mem_insert.mp hy
      · exact absurd hxy (mem_delete.mp hx).2
      · exact (s.delete e).keyed x hx y hy hxy

lemma mem_replace : x ∈ (s.replace e).elems ↔ x = e ∨ x ∈ s.elems ∧ ¬ r x e := by
  classical
  rw [← mem_delete]
  exact Finset.mem_insert

/-- `e` too, unless there is an element with its key. -/
noncomputable def insert (s : KeyedSet r) (e : ε) : KeyedSet r :=
  match s.find e with
  | some _ => s
  | none => s.replace e

lemma mem_replace_of_find_eq_none (h : s.find e = none) :
    x ∈ (s.replace e).elems ↔ x = e ∨ x ∈ s.elems := by
  rw [mem_replace]
  exact or_congr_right (and_iff_left_of_imp fun hx => find_eq_none.mp h x hx)

lemma mem_delete_of_find_eq_some {y : ε} (h : s.find e = some y) :
    x ∈ (s.delete e).elems ↔ x ∈ s.elems ∧ x ≠ y := by
  obtain ⟨hy, hye⟩ := find_eq_some.mp h
  rw [mem_delete]
  refine and_congr_right fun hx => not_congr ⟨fun hxe => ?_, ?_⟩
  · exact s.keyed x hx y hy (r.trans hxe (r.symm hye))
  · rintro rfl
    exact hye

end KeyedSet

end Machinery
