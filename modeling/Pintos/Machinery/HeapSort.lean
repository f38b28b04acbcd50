import Mathlib.Data.List.Perm.Basic
import Pintos.Machinery.StableSort

/-!
# Machinery/HeapSort — the order of a heap

The elements `f 1 … f n` are a tree: below `i` are `2 * i` and `2 * i + 1`. They are heaped from
`k` on if no element is above a larger one, those before `k` left aside. An element that may be
too small for its place is swapped down (`HeapedBut.step`). When all are heaped, the first one is
the largest; it goes to the end, and the rest is heaped again (`Tail.step`).
-/

namespace Machinery.HeapSort

open List

variable {α : Type} {le : α → α → Bool} {f f' f'' : ℕ → α} {n k i j c : ℕ}

def Below (i c : ℕ) : Prop := c = 2 * i ∨ c = 2 * i + 1

/-- The elements up to `n` are heaped from `k` on. -/
def Heaped (le : α → α → Bool) (f : ℕ → α) (n k : ℕ) : Prop :=
  ∀ i c, k ≤ i → Below i c → c ≤ n → le (f c) (f i) = true

/-- …but for the one at `j`, below which nothing is larger than what is above it. -/
structure HeapedBut (le : α → α → Bool) (f : ℕ → α) (n k j : ℕ) : Prop where
  order : ∀ i c, k ≤ i → i ≠ j → Below i c → c ≤ n → le (f c) (f i) = true
  above : ∀ i c, k ≤ i → Below i j → Below j c → c ≤ n → le (f c) (f i) = true

/-- The place of the larger of two elements, the first if they are tied. -/
def larger (le : α → α → Bool) (f : ℕ → α) (n i c : ℕ) : ℕ :=
  if c ≤ n ∧ le (f c) (f i) = false then c else i

/-- The place of the largest element among `i` and those below it. -/
def largest (le : α → α → Bool) (f : ℕ → α) (n i : ℕ) : ℕ :=
  larger le f n (larger le f n i (2 * i)) (2 * i + 1)

def swap (f : ℕ → α) (i j : ℕ) : ℕ → α := f ∘ Equiv.swap i j

@[simp] lemma swap_left (f : ℕ → α) (i j : ℕ) : swap f i j i = f j := by simp [swap]

@[simp] lemma swap_right (f : ℕ → α) (i j : ℕ) : swap f i j j = f i := by simp [swap]

lemma swap_of_ne (hi : c ≠ i) (hj : c ≠ j) : swap f i j c = f c := by
  rw [swap, Function.comp_apply, Equiv.swap_apply_of_ne_of_ne hi hj]

/-! ## One step down -/

lemma larger_spec (hle : WeakOrder le) (f : ℕ → α) (n i c : ℕ) :
    (larger le f n i c = i ∨ larger le f n i c = c ∧ c ≤ n ∧ le (f c) (f i) = false) ∧
      le (f i) (f (larger le f n i c)) = true ∧
      (c ≤ n → le (f c) (f (larger le f n i c)) = true) := by
  rw [larger]
  split
  · next h => exact ⟨.inr ⟨rfl, h⟩, hle.of_not h.2, fun _ => hle.refl _⟩
  · next h =>
    refine ⟨.inl rfl, hle.refl _, fun hc => ?_⟩
    by_contra hnot
    exact h ⟨hc, Bool.eq_false_iff.mpr hnot⟩

lemma largest_spec (hle : WeakOrder le) (f : ℕ → α) (n i : ℕ) :
    (largest le f n i = i ∨ Below i (largest le f n i) ∧ largest le f n i ≤ n) ∧
      le (f i) (f (largest le f n i)) = true ∧
      ∀ c, Below i c → c ≤ n → le (f c) (f (largest le f n i)) = true := by
  obtain ⟨hleft, hi, hc⟩ := larger_spec hle f n i (2 * i)
  obtain ⟨hright, hi', hc'⟩ := larger_spec hle f n (larger le f n i (2 * i)) (2 * i + 1)
  refine ⟨?_, hle.trans _ _ _ hi hi', ?_⟩
  · rw [largest]
    obtain hright | ⟨hright, hn, -⟩ := hright
    · rw [hright]
      obtain hleft | ⟨hleft, hn, -⟩ := hleft
      · exact .inl hleft
      · exact .inr ⟨.inl hleft, hleft.trans_le hn⟩
    · exact .inr ⟨.inr hright, hright.trans_le hn⟩
  · rintro c (rfl | rfl) hn
    · exact hle.trans _ _ _ (hc hn) hi'
    · exact hc' hn

lemma Below.lt (h : Below i c) (hi : 0 < i) : i < c := by
  unfold Below at h
  omega

lemma Below.unique (h : Below i c) (h' : Below j c) : i = j := by
  unfold Below at h h'
  omega

lemma HeapedBut.heaped (hle : WeakOrder le) (h : HeapedBut le f n k j)
    (hj : largest le f n j = j) : Heaped le f n k := by
  intro i c hi hc hn
  obtain rfl | hne := eq_or_ne i j
  · have := (largest_spec hle f n i).2.2 c hc hn
    rwa [hj] at this
  · exact h.order i c hi hne hc hn

lemma HeapedBut.step (hle : WeakOrder le) (h : HeapedBut le f n k j) (hk : 0 < k) (hj : k ≤ j)
    (hne : largest le f n j ≠ j) :
    HeapedBut le (swap f j (largest le f n j)) n k (largest le f n j) := by
  obtain ⟨hplace, hle_j, hle_c⟩ := largest_spec hle f n j
  obtain ⟨hbelow, hn⟩ := hplace.resolve_left hne
  have hlt := hbelow.lt (hk.trans_le hj)
  generalize largest le f n j = m at *
  constructor
  · intro i c hi him hc hcn
    have hic : i < c := hc.lt (by omega)
    by_cases hij : i = j
    · -- the largest is now above the two
      subst hij
      rw [swap_left]
      obtain rfl | hcm := eq_or_ne c m
      · rwa [swap_right]
      · rw [swap_of_ne (by omega) hcm]
        exact hle_c c hc hcn
    · rw [swap_of_ne hij him]
      obtain rfl | hcj := eq_or_ne c j
      · rw [swap_left]
        exact h.above i m hi hc hbelow hn
      · have hcm : c ≠ m := by
          rintro rfl
          exact hij (hc.unique hbelow)
        rw [swap_of_ne hcj hcm]
        exact h.order i c hi hij hc hcn
  · intro i c hi him hc hcn
    obtain rfl := him.unique hbelow
    have hmc : m < c := hc.lt (by omega)
    rw [swap_left, swap_of_ne (by omega) (by omega)]
    exact h.order m c (by omega) hne hc hcn

lemma Heaped.but (h : Heaped le f n (k + 1)) (hk : 0 < k) : HeapedBut le f n k k where
  order i c hi hik hc hn := h i c (by omega) hc hn
  above i c hi hik hc hn := absurd (hik.lt (by omega)) (by omega)

lemma Heaped.le_first (hle : WeakOrder le) (h : Heaped le f n 1) (hi : 0 < i) (hn : i ≤ n) :
    le (f i) (f 1) = true := by
  -- from an element to the one above it
  induction i using Nat.strongRecOn with
  | ind i ih =>
    obtain rfl | hne := eq_or_ne i 1
    · exact hle.refl _
    · have hbelow : Below (i / 2) i := by
        unfold Below
        omega
      refine hle.trans _ _ _ (h (i / 2) i (by omega) hbelow hn) ?_
      exact ih (i / 2) (by omega) (by omega) (by omega)

/-! ## Rearranging -/

/-- The first `n` elements are rearranged, and no other. -/
def Rearranged (n : ℕ) (f f' : ℕ → α) : Prop :=
  ∃ σ : Equiv.Perm ℕ, (∀ j, σ j ≠ j → 0 < j ∧ j ≤ n) ∧ f' = f ∘ σ

namespace Rearranged

lemma refl (n : ℕ) (f : ℕ → α) : Rearranged n f f := ⟨.refl ℕ, fun _ h => absurd rfl h, rfl⟩

lemma trans (h : Rearranged n f f') (h' : Rearranged n f' f'') : Rearranged n f f'' := by
  obtain ⟨σ, hσ, rfl⟩ := h
  obtain ⟨τ, hτ, rfl⟩ := h'
  refine ⟨τ.trans σ, fun j hj => ?_, rfl⟩
  by_cases hfix : τ j = j
  · refine hσ j fun h => hj ?_
    rw [Equiv.trans_apply, hfix, h]
  · exact hτ j hfix

lemma mono {n' : ℕ} (h : Rearranged n f f') (hn : n ≤ n') : Rearranged n' f f' := by
  obtain ⟨σ, hσ, rfl⟩ := h
  exact ⟨σ, fun j hj => ⟨(hσ j hj).1, (hσ j hj).2.trans hn⟩, rfl⟩

lemma swap (f : ℕ → α) (hi : 0 < i) (hin : i ≤ n) (hj : 0 < j) (hjn : j ≤ n) :
    Rearranged n f (swap f i j) := by
  refine ⟨Equiv.swap i j, fun c hc => ?_, rfl⟩
  obtain rfl | hci := eq_or_ne c i
  · exact ⟨hi, hin⟩
  obtain rfl | hcj := eq_or_ne c j
  · exact ⟨hj, hjn⟩
  exact absurd (Equiv.swap_apply_of_ne_of_ne hci hcj) hc

lemma place (h : Rearranged n f f') (j : ℕ) :
    ∃ i, f' j = f i ∧ (0 < j ∧ j ≤ n → 0 < i ∧ i ≤ n) ∧ (n < j → i = j) := by
  obtain ⟨σ, hσ, rfl⟩ := h
  refine ⟨σ j, rfl, fun hj => ?_, fun hj => ?_⟩
  · by_cases hfix : σ j = j
    · rwa [hfix]
    · exact hσ _ fun h => hfix (σ.injective h)
  · by_contra hne
    exact absurd (hσ j hne).2 (by omega)

lemma perm (h : Rearranged n f f') :
    ((List.range' 1 n).map f').Perm ((List.range' 1 n).map f) := by
  obtain ⟨σ, hσ, rfl⟩ := h
  rw [← map_map]
  refine List.Perm.map f ?_
  have hnodup : ((range' 1 n).map σ).Nodup := List.Nodup.map σ.injective nodup_range'
  rw [perm_ext_iff_of_nodup hnodup nodup_range']
  intro c
  simp only [mem_map, mem_range'_1]
  constructor
  · rintro ⟨j, hj, rfl⟩
    by_cases hfix : σ j = j
    · rwa [hfix]
    · have := hσ _ fun h => hfix (σ.injective h)
      omega
  · intro hc
    refine ⟨σ.symm c, ?_, σ.apply_symm_apply c⟩
    by_cases hfix : σ (σ.symm c) = σ.symm c
    · rwa [← hfix, σ.apply_symm_apply]
    · have := hσ _ hfix
      omega

end Rearranged

/-! ## Taking the largest, again and again -/

/-- After the first `i` elements all are in their places. -/
def Tail (le : α → α → Bool) (f : ℕ → α) (n i : ℕ) : Prop :=
  ∀ a b, 0 < a → a ≤ b → i < b → b ≤ n → le (f a) (f b) = true

lemma tail_self (f : ℕ → α) (n : ℕ) : Tail le f n n :=
  fun _ _ _ _ hb hn => absurd hn (Nat.not_le.mpr hb)

lemma Tail.rearranged (h : Tail le f n i) (hi : Rearranged i f f') :
    Tail le f' n i := by
  intro a b ha hab hb hn
  obtain ⟨a', hfa, hin, hout⟩ := hi.place a
  obtain ⟨b', hfb, -, hb'⟩ := hi.place b
  obtain rfl := hb' hb
  rw [hfa, hfb]
  by_cases hai : a ≤ i
  · obtain ⟨ha', hai'⟩ := hin ⟨ha, hai⟩
    exact h a' b' ha' (by omega) hb hn
  · obtain rfl := hout (by omega)
    exact h a' b' ha hab hb hn

/-- The largest goes to the end, and the rest is heaped but for the first. -/
lemma Tail.step (hle : WeakOrder le) (h : Tail le f n (i + 1)) (hheap : Heaped le f (i + 1) 1)
    (hi : 0 < i) :
    Tail le (swap f 1 (i + 1)) n i ∧ HeapedBut le (swap f 1 (i + 1)) i 1 1 := by
  have hre : Rearranged (i + 1) f (swap f 1 (i + 1)) :=
    .swap f Nat.one_pos (by omega) (by omega) le_rfl
  constructor
  · intro a b ha hab hb hbn
    obtain rfl | hne := eq_or_ne b (i + 1)
    · obtain ⟨a', hfa, hin, -⟩ := hre.place a
      obtain ⟨ha', hai'⟩ := hin ⟨ha, hab⟩
      rw [hfa, swap_right]
      exact hheap.le_first hle ha' hai'
    · exact h.rearranged hre a b ha hab (by omega) hbn
  · constructor
    · intro j c hj hne hc hcn
      have hjc := hc.lt hj
      rw [swap_of_ne (by omega) (by omega), swap_of_ne hne (by omega)]
      exact hheap j c hj hc (by omega)
    · intro j c hj hbelow
      exact absurd (hbelow.lt hj) (by omega)

lemma Tail.sorted (h : Tail le f n i) (hi : i ≤ 1) :
    ((List.range' 1 n).map f).Pairwise fun a b => le a b = true := by
  rw [pairwise_map]
  refine List.Pairwise.imp_of_mem (fun {a b} ha hb hlt => ?_) pairwise_lt_range'
  rw [mem_range'_1] at ha hb
  exact h a b (by omega) hlt.le (by omega) (by omega)

end Machinery.HeapSort
