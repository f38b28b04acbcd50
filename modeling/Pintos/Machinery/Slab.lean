import Mathlib.Data.List.Nodup
import Mathlib.Data.List.Perm.Subperm

/-!
# Machinery/Slab — one free list for the items of many groups

Items come in groups. The items of the groups that are there are either free, on one list for
all of them, or used. Of each group a count of its free members is kept: it is the number of
members just when none of them is used.
-/

namespace Machinery

open List

variable {α γ : Type}

/-- The items of the groups in `G` are free, and then on the list `free`, or `used`. -/
structure Slab (group : α → γ) (members : γ → List α) (G : γ → Prop) (free : List α)
    (used : α → Prop) : Prop where
  listed : ∀ g, G g → (members g).Nodup ∧ ∀ a ∈ members g, group a = g
  nodup : free.Nodup
  free_mem : ∀ a ∈ free, G (group a) ∧ a ∈ members (group a)
  used_mem : ∀ a, used a → G (group a) ∧ a ∈ members (group a)
  apart : ∀ a ∈ free, ¬ used a
  cover : ∀ g, G g → ∀ a ∈ members g, a ∈ free ∨ used a

namespace Slab

/-- How many items of a group are free. -/
def count [DecidableEq γ] (group : α → γ) (free : List α) (g : γ) : ℕ := free.countP fun a => group a = g

variable {group : α → γ} {members : γ → List α} {G G' : γ → Prop} {free free' : List α}
  {used used' : α → Prop} {a : α} {g : γ}

/-! ## The count -/

section

variable [DecidableEq γ]

lemma count_cons (a : α) (free : List α) (g : γ) :
    count group (a :: free) g = count group free g + if group a = g then 1 else 0 := by
  rw [count, count, countP_cons]
  simp only [decide_eq_true_eq]

lemma count_append (l l' : List α) (g : γ) :
    count group (l ++ l') g = count group l g + count group l' g := countP_append

lemma mem_filter : a ∈ free.filter (fun a => group a = g) ↔ a ∈ free ∧ group a = g := by
  rw [List.mem_filter, decide_eq_true_eq]

variable (h : Slab group members G free used)

include h

lemma filter_subperm : (free.filter fun a => group a = g).Subperm (members g) := by
  refine (h.nodup.filter _).subperm fun a ha => ?_
  obtain ⟨hfree, rfl⟩ := mem_filter.mp ha
  exact (h.free_mem a hfree).2

lemma count_le : count group free g ≤ (members g).length := by
  rw [count, countP_eq_length_filter]
  exact h.filter_subperm.length_le

/-- All the members of a group are free just when none is used. -/
lemma count_eq_iff (hg : G g) :
    count group free g = (members g).length ↔ ∀ a, used a → group a ≠ g := by
  constructor
  · rintro hcount a ha rfl
    have hperm : (free.filter fun b => group b = group a).Perm (members (group a)) := by
      refine h.filter_subperm.perm_of_length_le ?_
      rw [← countP_eq_length_filter]
      exact Nat.le_of_eq hcount.symm
    have hmem := hperm.mem_iff.mpr (h.used_mem a ha).2
    exact h.apart a (mem_filter.mp hmem).1 ha
  · intro hnone
    have hsub : (members g).Subperm (free.filter fun a => group a = g) := by
      refine (h.listed g hg).1.subperm fun a ha => ?_
      have hga := (h.listed g hg).2 a ha
      obtain hfree | hused := h.cover g hg a ha
      · exact mem_filter.mpr ⟨hfree, hga⟩
      · exact absurd hga (hnone a hused)
    refine Nat.le_antisymm h.count_le ?_
    rw [count, countP_eq_length_filter]
    exact hsub.length_le

end

/-! ## Items are taken and put back -/

lemma congr (h : Slab group members G free used) (hG : ∀ g, G' g ↔ G g)
    (hused : ∀ a, used' a ↔ used a) : Slab group members G' free used' where
  listed g hg := h.listed g ((hG g).mp hg)
  nodup := h.nodup
  free_mem a ha := ⟨(hG _).mpr (h.free_mem a ha).1, (h.free_mem a ha).2⟩
  used_mem a ha := by
    obtain ⟨hg, hmem⟩ := h.used_mem a ((hused a).mp ha)
    exact ⟨(hG _).mpr hg, hmem⟩
  apart a ha hu := h.apart a ha ((hused a).mp hu)
  cover g hg a ha := (h.cover g ((hG g).mp hg) a ha).imp_right (hused a).mpr

lemma take (h : Slab group members G (a :: free) used) :
    Slab group members G free fun b => b = a ∨ used b where
  listed := h.listed
  nodup := h.nodup.of_cons
  free_mem b hb := h.free_mem b (mem_cons_of_mem a hb)
  used_mem b hb := by
    obtain rfl | hb := hb
    · exact h.free_mem b mem_cons_self
    · exact h.used_mem b hb
  apart b hb := by
    rintro (rfl | hu)
    · exact (nodup_cons.mp h.nodup).1 hb
    · exact h.apart b (mem_cons_of_mem a hb) hu
  cover g hg b hb := by
    obtain hfree | hu := h.cover g hg b hb
    · obtain rfl | hfree := mem_cons.mp hfree
      · exact .inr (.inl rfl)
      · exact .inl hfree
    · exact .inr (.inr hu)

section

variable (h : Slab group members G free used)

include h

/-- A used item is put back. -/
lemma put (ha : used a) : Slab group members G (a :: free) fun b => used b ∧ b ≠ a where
  listed := h.listed
  nodup := nodup_cons.mpr ⟨fun hfree => h.apart a hfree ha, h.nodup⟩
  free_mem b hb := by
    obtain rfl | hb := mem_cons.mp hb
    · exact h.used_mem b ha
    · exact h.free_mem b hb
  used_mem b hb := h.used_mem b hb.1
  apart b hb hu := by
    obtain rfl | hb := mem_cons.mp hb
    · exact hu.2 rfl
    · exact h.apart b hb hu.1
  cover g hg b hb := by
    obtain hfree | hu := h.cover g hg b hb
    · exact .inl (mem_cons_of_mem a hfree)
    · obtain rfl | hne := eq_or_ne b a
      · exact .inl mem_cons_self
      · exact .inr ⟨hu, hne⟩

/-! ## Groups come and go -/

lemma add (hg : ¬ G g) (hmem : (members g).Nodup ∧ ∀ a ∈ members g, group a = g) :
    Slab group members (fun g' => g' = g ∨ G g') (free ++ members g) used where
  listed g' hg' := by
    obtain rfl | hg' := hg'
    · exact hmem
    · exact h.listed g' hg'
  nodup := by
    refine nodup_append.mpr ⟨h.nodup, hmem.1, fun a ha b hb heq => ?_⟩
    subst heq
    exact hg (hmem.2 a hb ▸ (h.free_mem a ha).1)
  free_mem a ha := by
    obtain ha | ha := mem_append.mp ha
    · exact ⟨.inr (h.free_mem a ha).1, (h.free_mem a ha).2⟩
    · have hga := hmem.2 a ha
      exact ⟨.inl hga, hga.symm ▸ ha⟩
  used_mem a ha := ⟨.inr (h.used_mem a ha).1, (h.used_mem a ha).2⟩
  apart a ha hu := by
    obtain ha | ha := mem_append.mp ha
    · exact h.apart a ha hu
    · exact hg (hmem.2 a ha ▸ (h.used_mem a hu).1)
  cover g' hg' a ha := by
    obtain rfl | hg' := hg'
    · exact .inl (mem_append_right _ ha)
    · exact (h.cover g' hg' a ha).imp_left (mem_append_left _)

lemma count_eq_zero [DecidableEq γ] (hg : ¬ G g) : count group free g = 0 := by
  rw [count, countP_eq_zero]
  intro a ha hga
  exact hg (of_decide_eq_true hga ▸ (h.free_mem a ha).1)

end

lemma count_members [DecidableEq γ] (hmem : ∀ a ∈ members g, group a = g) :
    count group (members g) g = (members g).length := by
  rw [count, countP_eq_length]
  exact fun a ha => decide_eq_true (hmem a ha)

variable (h : Slab group members G free used)

include h

lemma mem_diff [DecidableEq α] (hg : G g) : a ∈ free.diff (members g) ↔ a ∈ free ∧ group a ≠ g := by
  rw [h.nodup.mem_sdiff_iff, and_congr_right_iff]
  intro ha
  constructor
  · rintro hnot rfl
    exact hnot (h.free_mem a ha).2
  · intro hne hmem
    exact hne ((h.listed g hg).2 a hmem)

/-- A group with no used member goes, and its members with it. -/
lemma drop [DecidableEq α] (hg : G g) (hnone : ∀ a, used a → group a ≠ g) :
    Slab group members (fun g' => G g' ∧ g' ≠ g) (free.diff (members g)) used where
  listed g' hg' := h.listed g' hg'.1
  nodup := h.nodup.diff
  free_mem a ha := by
    obtain ⟨ha, hne⟩ := (h.mem_diff hg).mp ha
    exact ⟨⟨(h.free_mem a ha).1, hne⟩, (h.free_mem a ha).2⟩
  used_mem a ha := ⟨⟨(h.used_mem a ha).1, hnone a ha⟩, (h.used_mem a ha).2⟩
  apart a ha := h.apart a ((h.mem_diff hg).mp ha).1
  cover g' hg' a ha := by
    obtain hfree | hu := h.cover g' hg'.1 a ha
    · refine .inl ((h.mem_diff hg).mpr ⟨hfree, ?_⟩)
      rw [(h.listed g' hg'.1).2 a ha]
      exact hg'.2
    · exact .inr hu

lemma count_diff [DecidableEq α] [DecidableEq γ] (hg : G g) {g' : γ} (hne : g' ≠ g) :
    count group (free.diff (members g)) g' = count group free g' := by
  rw [count, count, countP_eq_length_filter, countP_eq_length_filter]
  refine List.Perm.length_eq ((perm_ext_iff_of_nodup (h.nodup.diff.filter _)
    (h.nodup.filter _)).mpr fun a => ?_)
  rw [mem_filter, mem_filter, h.mem_diff hg]
  constructor
  · rintro ⟨⟨ha, -⟩, hga⟩
    exact ⟨ha, hga⟩
  · rintro ⟨ha, rfl⟩
    exact ⟨⟨ha, hne⟩, rfl⟩

end Slab

end Machinery
