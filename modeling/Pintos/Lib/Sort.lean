import Mathlib.Algebra.Group.Nat.Defs
import Pintos.Machinery.HeapSort
import Pintos.Machinery.Stopping

/-!
# Lib/Sort — `sort` and `qsort`

An array is `cnt` elements of `size` bytes each, and the caller compares two of them. `sort` is a
heap sort, with indexes from 1 on. A function here may only touch bytes of the array: at any other
byte it stops. A comparison looks at the two elements and at nothing else.
-/

namespace Pintos.Stdlib

open Machinery Function Nat

abbrev Mem := ℕ → UInt8

/-- The arguments `array`, `cnt` and `size`. -/
structure Elements where
  array : ℕ
  cnt : ℕ
  size : ℕ

abbrev Element (size : ℕ) := Fin size → UInt8

/-- What compares two elements. -/
abbrev Elements.Compare (e : Elements) (B : Type) := Element e.size → Element e.size → B

/-- How a call does not return. -/
inductive Fault where
  /-- a failing `ASSERT` -/
  | assertion
  /-- a byte that is not in the array is touched -/
  | outside
  /-- a loop goes on for too long -/
  | endless
  deriving DecidableEq, Repr

abbrev SortM := EStateM Fault Mem

namespace Elements

variable (e : Elements)

/-- `k` bytes at `p` are in the array. -/
def Covers (p k : ℕ) : Prop := e.array ≤ p ∧ p + k ≤ e.array + e.cnt * e.size

instance (p k : ℕ) : Decidable (e.Covers p k) := inferInstanceAs (Decidable (_ ∧ _))

def load (p : ℕ) : SortM UInt8 := do
  require .outside (e.Covers p 1)
  let m ← get
  return m p

def store (p : ℕ) (b : UInt8) : SortM Unit := do
  require .outside (e.Covers p 1)
  modify fun m => update m p b

/-- The element at `p` is looked at. -/
def look (p : ℕ) : SortM (Element e.size) := do
  require .outside (e.Covers p e.size)
  let m ← get
  return fun j => m (p + j)

/-- `array + (idx - 1) * size`, for a 1-based index. -/
def place (idx : ℕ) : ℕ := (e.array + (idx + 2 ^ 32 - 1) * e.size) % 2 ^ 32

/-! ## The functions -/

def swapLoop (a b : ℕ) : ℕ → ℕ → SortM Unit
  | 0, _ => return ()
  | left + 1, i => do
    let t ← e.load (a + i)
    let u ← e.load (b + i)
    e.store (a + i) u
    e.store (b + i) t
    swapLoop a b left (i + 1)

/-- `do_swap`. -/
def doSwap (aIdx bIdx : ℕ) : SortM Unit := e.swapLoop (e.place aIdx) (e.place bIdx) e.size 0

variable {A : Type} (compare : e.Compare (A → ℤ)) (aux : A)

/-- `do_compare`. -/
def doCompare (aIdx bIdx : ℕ) : SortM ℤ := do
  let a ← e.look (e.place aIdx)
  let b ← e.look (e.place bIdx)
  return compare a b aux

/-- The `if` of `heapify` for one of the two children: the index of the larger element. -/
def pick (cnt max child : ℕ) : SortM ℕ :=
  if child ≤ cnt then do
    let cmp ← e.doCompare compare aux child max
    return if 0 < cmp then child else max
  else return max

/-- `heapify`, for at most so many turns of its loop. -/
def heapify (cnt : ℕ) : ℕ → ℕ → SortM Unit
  | 0, _ => throw .endless
  | turns + 1, i => do
    let left := 2 * i % 2 ^ 32
    let right := (2 * i + 1) % 2 ^ 32
    let max ← e.pick compare aux cnt i left
    let max ← e.pick compare aux cnt max right
    if max = i then return ()
    else do
      e.doSwap i max
      heapify cnt turns max

/-- The first loop of `sort`, which builds a heap. -/
def buildLoop : ℕ → SortM Unit
  | 0 => return ()
  | i + 1 => do
    e.heapify compare aux e.cnt (e.cnt + 1) (i + 1)
    buildLoop i

def sortLoop : ℕ → SortM Unit
  | 0 => return ()
  | 1 => return ()
  | i + 2 => do
    e.doSwap 1 (i + 2)
    e.heapify compare aux (i + 1) (e.cnt + 1) 1
    sortLoop (i + 1)

/-- `sort`: a heap is built and taken down. -/
def sort : SortM Unit := do
  require .assertion (e.array ≠ 0 ∨ e.cnt = 0)
  require .assertion (0 < e.size)
  e.buildLoop compare aux (e.cnt / 2)
  e.sortLoop compare aux e.cnt

end Elements

/-- `compare_thunk`, whose auxiliary data is the comparison. -/
def compareThunk {size : ℕ} (a b : Element size) (aux : Element size → Element size → ℤ) : ℤ := aux a b

/-- `qsort`. -/
def Elements.qsort (e : Elements) (compare : e.Compare ℤ) : SortM Unit :=
  e.sort compareThunk compare

/-! ## The array in memory -/

/-- An array that lies in memory, as large as arrays can be. -/
structure Elements.Fits (e : Elements) : Prop where
  size_pos : 0 < e.size
  small : e.cnt * e.size < 2 ^ 31
  inside : e.array + e.cnt * e.size ≤ 2 ^ 32

namespace Elements

variable {e : Elements} {m m' m₀ : Mem} {f f' : ℕ → Element e.size} {i j a b : ℕ}

/-- The array holds the elements `f 1 … f cnt`, and no byte outside of it is changed since
`m₀`. -/
structure Shows (e : Elements) (m₀ m : Mem) (f : ℕ → Element e.size) : Prop where
  inside : ∀ i, 0 < i → i ≤ e.cnt → ∀ j : Fin e.size, m (e.array + (i - 1) * e.size + j) = f i j
  outside : ∀ p, ¬ e.Covers p 1 → m p = m₀ p

lemma index_le (hi : 0 < i) (hcnt : i ≤ e.cnt) : (i - 1) * e.size + e.size ≤ e.cnt * e.size := by
  rw [← succ_mul]
  exact mul_le_mul_right _ (by omega)

lemma index_apart (hij : i ≠ j) (hi : 0 < i) (hj : 0 < j) :
    (i - 1) * e.size + e.size ≤ (j - 1) * e.size ∨ (j - 1) * e.size + e.size ≤ (i - 1) * e.size := by
  rw [← succ_mul, ← succ_mul]
  obtain hlt | hlt := lt_or_gt_of_ne hij
  · exact .inl (mul_le_mul_right _ (by omega))
  · exact .inr (mul_le_mul_right _ (by omega))

namespace Fits

lemma cnt_lt (h : e.Fits) : e.cnt < 2 ^ 31 :=
  (Nat.le_mul_of_pos_right _ h.size_pos).trans_lt h.small

lemma place_eq (h : e.Fits) (hi : 0 < i) (hcnt : i ≤ e.cnt) :
    e.place i = e.array + (i - 1) * e.size := by
  have hpred : i + 2 ^ 32 - 1 = i - 1 + 2 ^ 32 := by omega
  have hend := index_le hi hcnt
  have hpos := h.size_pos
  have hinside := h.inside
  rw [place, hpred, Nat.add_mul, ← Nat.add_assoc, Nat.add_mul_mod_self_left, Nat.mod_eq_of_lt (by omega)]

lemma covers (_ : e.Fits) (hi : 0 < i) (hcnt : i ≤ e.cnt) {k n : ℕ} (hk : k + n ≤ e.size) :
    e.Covers (e.array + (i - 1) * e.size + k) n := by
  have hend := index_le hi hcnt
  exact ⟨by omega, by omega⟩

end Fits

/-! ## Swapping -/

/-- Memory with the bytes `i … n - 1` of `a` and `b` swapped. -/
def swapped (m : Mem) (a b i n : ℕ) : Mem := fun p =>
  if a + i ≤ p ∧ p < a + n then m (b + (p - a))
  else if b + i ≤ p ∧ p < b + n then m (a + (p - b))
  else m p

lemma swapped_succ {n : ℕ} (hab : a + n ≤ b ∨ b + n ≤ a) (hi : i < n) :
    swapped (update (update m (a + i) (m (b + i))) (b + i) (m (a + i))) a b (i + 1) n =
      swapped m a b i n := by
  funext p
  unfold swapped
  by_cases hpa : p = a + i
  · subst hpa
    rw [if_neg (by omega), if_neg (by omega), if_pos (by omega), update_of_ne (by omega),
      update_self, Nat.add_sub_cancel_left]
  by_cases hpb : p = b + i
  · subst hpb
    rw [if_neg (by omega), if_neg (by omega), if_neg (by omega), if_pos (by omega), update_self,
      Nat.add_sub_cancel_left]
  by_cases hina : a + i ≤ p ∧ p < a + n
  · rw [if_pos (by omega), if_pos hina, update_of_ne (by omega), update_of_ne (by omega)]
  by_cases hinb : b + i ≤ p ∧ p < b + n
  · rw [if_neg (by omega), if_pos (by omega), if_neg hina, if_pos hinb, update_of_ne (by omega),
      update_of_ne (by omega)]
  · rw [if_neg (by omega), if_neg (by omega), if_neg hina, if_neg hinb, update_of_ne hpb,
      update_of_ne hpa]

lemma does_swapLoop {left : ℕ} (hab : a + (i + left) ≤ b ∨ b + (i + left) ≤ a)
    (ha : e.Covers (a + i) left) (hb : e.Covers (b + i) left) :
    Does (e.swapLoop a b left i) m fun _ m' => m' = swapped m a b i (i + left) := by
  induction left generalizing i m with
  | zero =>
    rw [swapLoop, does_pure]
    funext p
    rw [swapped, if_neg (by omega), if_neg (by omega)]
  | succ left ih =>
    have hcover {p : ℕ} (hp : e.Covers p (left + 1)) : e.Covers p 1 ∧ e.Covers (p + 1) left :=
      ⟨⟨hp.1, (Nat.add_le_add_left (by omega) p).trans hp.2⟩, hp.1.trans (by omega), by
        rw [Nat.add_assoc, Nat.add_comm 1]
        exact hp.2⟩
    have hnext : i + 1 + left = i + (left + 1) := by omega
    rw [swapLoop]
    simp only [load, store, does_bind, does_require, does_get, does_pure, does_modify]
    refine ⟨(hcover ha).1, (hcover hb).1, (hcover ha).1, (hcover hb).1, ?_⟩
    refine (ih (by omega) (hcover ha).2 (hcover hb).2).mono fun _ m' hm' => ?_
    rw [hm', hnext, swapped_succ hab (by omega)]

lemma Shows.does_doSwap (h : e.Shows m₀ m f) (he : e.Fits) (ha : 0 < a) (hacnt : a ≤ e.cnt) (hb : 0 < b)
    (hbcnt : b ≤ e.cnt) (hab : a ≠ b) :
    Does (e.doSwap a b) m fun _ m' => e.Shows m₀ m' (HeapSort.swap f a b) := by
  have hapart := index_apart (e := e) hab ha hb
  rw [doSwap, he.place_eq ha hacnt, he.place_eq hb hbcnt]
  refine (does_swapLoop (by omega) (he.covers ha hacnt (by omega))
    (he.covers hb hbcnt (by omega))).mono fun _ m' hm' => ?_
  rw [hm']
  constructor
  · intro i hi hcnt j
    rw [swapped]
    obtain rfl | hia := eq_or_ne i a
    · rw [if_pos (by omega), HeapSort.swap_left, ← h.inside b hb hbcnt]
      congr 1
      omega
    have hia' := index_apart (e := e) hia hi ha
    rw [if_neg (by omega)]
    obtain rfl | hib := eq_or_ne i b
    · rw [if_pos (by omega), HeapSort.swap_right, ← h.inside a ha hacnt]
      congr 1
      omega
    have hib' := index_apart (e := e) hib hi hb
    rw [if_neg (by omega), HeapSort.swap_of_ne hia hib]
    exact h.inside i hi hcnt j
  · intro p hp
    have hacover := he.covers ha hacnt (k := 0) (n := e.size) (by omega)
    have hbcover := he.covers hb hbcnt (k := 0) (n := e.size) (by omega)
    unfold Covers at hp hacover hbcover
    rw [swapped, if_neg (by omega), if_neg (by omega)]
    exact h.outside p hp

end Elements

/-! ## Comparing -/

/-- A comparison like `strcmp`: its sign orders two elements, some of them perhaps tied. -/
structure Strcmp {α : Type} (cmp : α → α → ℤ) : Prop where
  flip : ∀ a b, cmp a b < 0 ↔ 0 < cmp b a
  trans : ∀ a b c, cmp a b ≤ 0 → cmp b c ≤ 0 → cmp a c ≤ 0

/-- The order of a comparison. -/
def atMost {α : Type} (cmp : α → α → ℤ) (a b : α) : Bool := decide (cmp a b ≤ 0)

lemma Strcmp.weakOrder {α : Type} {cmp : α → α → ℤ} (h : Strcmp cmp) : WeakOrder (atMost cmp) where
  trans a b c hab hbc := decide_eq_true (h.trans a b c (of_decide_eq_true hab) (of_decide_eq_true hbc))
  total a b := by
    have hflip := h.flip b a
    rw [Bool.or_eq_true, atMost, atMost, decide_eq_true_iff, decide_eq_true_iff]
    omega

namespace Elements

variable {e : Elements} {m m₀ : Mem} {f : ℕ → Element e.size} {i a b c n k : ℕ}
  {A : Type} {compare : e.Compare (A → ℤ)} {aux : A}

lemma Shows.does_look (h : e.Shows m₀ m f) (he : e.Fits) (hi : 0 < i) (hcnt : i ≤ e.cnt)
    {Q : Element e.size → Mem → Prop} (hQ : Q (f i) m) : Does (e.look (e.place i)) m Q := by
  rw [look]
  simp only [does_bind, does_require, does_get, does_pure]
  rw [he.place_eq hi hcnt]
  refine ⟨he.covers hi hcnt (k := 0) (by omega), ?_⟩
  have hread := funext (h.inside i hi hcnt)
  rwa [hread]

lemma Shows.does_pick (h : e.Shows m₀ m f) (he : e.Fits) (hi : 0 < i) (hin : i ≤ e.cnt) (hc : 0 < c)
    (hn : n ≤ e.cnt) {Q : ℕ → Mem → Prop}
    (hQ : Q (HeapSort.larger (atMost fun x y => compare x y aux) f n i c) m) :
    Does (e.pick compare aux n i c) m Q := by
  rw [HeapSort.larger] at hQ
  rw [pick, does_ite]
  refine ⟨fun hcn => ?_, fun hcn => ?_⟩
  · rw [doCompare]
    simp only [does_bind, does_pure]
    refine h.does_look he hc (hcn.trans hn) (h.does_look he hi hin ?_)
    simp only [hcn, true_and, atMost, decide_eq_false_iff_not, Int.not_le] at hQ
    exact hQ
  · rw [if_neg fun hand => hcn hand.1] at hQ
    exact (does_pure i).mpr hQ

end Elements

section Sorting

variable {e : Elements} {m m₀ : Mem} {f : ℕ → Element e.size} {i n k : ℕ}
  {A : Type} {compare : e.Compare (A → ℤ)} {aux : A}
  (hcmp : Strcmp fun x y => compare x y aux) (he : e.Fits)

open HeapSort

include hcmp he

namespace Elements

variable (h : e.Shows m₀ m f)

include h

lemma Shows.does_heapify {turns : ℕ} (hn : n ≤ e.cnt) (hk : 0 < k) (hki : k ≤ i) (hin : i ≤ n)
    (hturns : n < turns + i) (hbut : HeapedBut (atMost fun x y => compare x y aux) f n k i) :
    Does (e.heapify compare aux n turns i) m fun _ m' =>
      ∃ f', e.Shows m₀ m' f' ∧ Rearranged n f f' ∧
        Heaped (atMost fun x y => compare x y aux) f' n k := by
  -- each turn goes down, to a larger index
  induction turns generalizing i m f with
  | zero => omega
  | succ turns ih =>
    have hcnt := he.cnt_lt
    have hi : 0 < i := hk.trans_le hki
    have hle := hcmp.weakOrder
    obtain ⟨hplace, -⟩ := larger_spec hle f n i (2 * i)
    obtain ⟨hlargest, -⟩ := largest_spec hle f n i
    rw [heapify]
    simp only [does_bind]
    rw [mod_eq_of_lt (by omega), mod_eq_of_lt (by omega)]
    refine h.does_pick he hi (by omega) (by omega) hn (h.does_pick he (by omega) (by omega) (by omega) hn ?_)
    rw [does_ite]
    refine ⟨fun hstop => ?_, fun hdown => ?_⟩
    · exact (does_pure ()).mpr ⟨f, h, .refl n f, hbut.heaped hle hstop⟩
    · obtain ⟨hbelow, hmax⟩ := hlargest.resolve_left hdown
      have hlt := hbelow.lt hi
      rw [does_bind]
      refine (h.does_doSwap he hi (by omega) (hi.trans hlt) (hmax.trans hn) (Ne.symm hdown)).mono
        fun _ m₁ h₁ => ?_
      refine (ih h₁ (hki.trans hlt.le) hmax (by omega) (hbut.step hle hk hki hdown)).mono ?_
      rintro _ m₂ ⟨f', hshows, hre, hheaped⟩
      exact ⟨f', hshows, (Rearranged.swap f hi hin (hi.trans hlt) hmax).trans hre, hheaped⟩

lemma Shows.does_buildLoop (hi : i ≤ e.cnt)
    (hheaped : Heaped (atMost fun x y => compare x y aux) f e.cnt (i + 1)) :
    Does (e.buildLoop compare aux i) m fun _ m' =>
      ∃ f', e.Shows m₀ m' f' ∧ Rearranged e.cnt f f' ∧
        Heaped (atMost fun x y => compare x y aux) f' e.cnt 1 := by
  induction i generalizing m f with
  | zero => exact (does_pure ()).mpr ⟨f, h, .refl _ f, hheaped⟩
  | succ i ih =>
    rw [buildLoop, does_bind]
    refine (h.does_heapify hcmp he le_rfl i.succ_pos le_rfl hi (by omega) (hheaped.but i.succ_pos)).mono
      fun _ m₁ h₁ => ?_
    obtain ⟨f₁, hshows, hre, hheaped₁⟩ := h₁
    refine (ih hshows (by omega) hheaped₁).mono ?_
    rintro _ m₂ ⟨f₂, hshows₂, hre₂, hheaped₂⟩
    exact ⟨f₂, hshows₂, hre.trans hre₂, hheaped₂⟩

lemma Shows.does_sortLoop (hi : i ≤ e.cnt)
    (hheaped : Heaped (atMost fun x y => compare x y aux) f i 1)
    (htail : Tail (atMost fun x y => compare x y aux) f e.cnt i) :
    Does (e.sortLoop compare aux i) m fun _ m' =>
      ∃ f', e.Shows m₀ m' f' ∧ Rearranged e.cnt f f' ∧
        Tail (atMost fun x y => compare x y aux) f' e.cnt 1 := by
  induction i using Nat.strongRecOn generalizing m f with
  | ind i ih =>
    obtain _ | _ | i := i
    · refine (does_pure ()).mpr ⟨f, h, .refl _ f, fun a b ha hab hb hn => ?_⟩
      exact htail a b ha hab (by omega) hn
    · exact (does_pure ()).mpr ⟨f, h, .refl _ f, htail⟩
    · have hle := hcmp.weakOrder
      obtain ⟨htail₁, hbut⟩ := htail.step hle hheaped i.succ_pos
      have hswap : Rearranged e.cnt f (HeapSort.swap f 1 (i + 2)) :=
        .swap f Nat.one_pos (by omega) (by omega) hi
      rw [sortLoop, does_bind]
      refine (h.does_doSwap he Nat.one_pos (by omega) (by omega) hi (by omega)).mono fun _ m₁ h₁ => ?_
      rw [does_bind]
      refine (h₁.does_heapify hcmp he (by omega) Nat.one_pos le_rfl (by omega) (by omega) hbut).mono
        fun _ m₂ h₂ => ?_
      obtain ⟨f₂, hshows₂, hre₂, hheaped₂⟩ := h₂
      refine (ih (i + 1) (by omega) hshows₂ (by omega) hheaped₂ (htail₁.rearranged hre₂)).mono
        fun _ m₃ h₃ => ?_
      obtain ⟨f₃, hshows₃, hre₃, htail₃⟩ := h₃
      exact ⟨f₃, hshows₃, hswap.trans ((hre₂.mono (by omega)).trans hre₃), htail₃⟩

end Elements

end Sorting

/-! ## Sorting -/

namespace Elements

variable {e : Elements} {m m₀ : Mem}

/-- The elements of the array. -/
def list (e : Elements) (m : Mem) : List (Element e.size) :=
  (List.range e.cnt).map fun i j => m (e.array + i * e.size + j)

lemma shows_self (e : Elements) (m : Mem) :
    e.Shows m m fun i j => m (e.array + (i - 1) * e.size + j) :=
  ⟨fun _ _ _ _ => rfl, fun _ _ => rfl⟩

lemma Shows.list_eq {f : ℕ → Element e.size} (h : e.Shows m₀ m f) :
    e.list m = (List.range' 1 e.cnt).map f := by
  rw [List.range'_eq_map_range, List.map_map]
  refine List.map_congr_left fun i hi => funext fun j => ?_
  have hcnt : i + 1 ≤ e.cnt := List.mem_range.mp hi
  have hinside := h.inside (i + 1) i.succ_pos hcnt j
  rw [Function.comp_apply, Nat.add_comm 1 i, ← hinside, Nat.add_sub_cancel]

/-- The call sorts the array: it returns, with the same elements in order, and nothing else changed.
-/
def Sorts (e : Elements) (cmp : e.Compare ℤ) (call : SortM Unit) (m : Mem) : Prop :=
  Does call m fun _ m' => (e.list m').Perm (e.list m) ∧ ((e.list m').Pairwise fun a b => cmp a b ≤ 0) ∧
    ∀ p, ¬ e.Covers p 1 → m' p = m p

lemma Fits.sorts (he : e.Fits) (hnull : e.array ≠ 0 ∨ e.cnt = 0) {A : Type}
    {compare : e.Compare (A → ℤ)} {aux : A}
    (hcmp : Strcmp fun x y => compare x y aux) (m : Mem) :
    e.Sorts (fun x y => compare x y aux) (e.sort compare aux) m := by
  have hshows := e.shows_self m
  -- nothing is below the second half
  have hhalf : HeapSort.Heaped (atMost fun x y => compare x y aux)
      (fun i j => m (e.array + (i - 1) * e.size + j)) e.cnt (e.cnt / 2 + 1) := by
    intro i c hi hc hn
    unfold HeapSort.Below at hc
    omega
  rw [Sorts, sort]
  simp only [does_bind, does_require]
  refine ⟨hnull, he.size_pos, (hshows.does_buildLoop hcmp he (div_le_self _ _) hhalf).mono
    fun _ m₁ h₁ => ?_⟩
  obtain ⟨f₁, hshows₁, hre₁, hheaped₁⟩ := h₁
  refine (hshows₁.does_sortLoop hcmp he le_rfl hheaped₁ (HeapSort.tail_self f₁ e.cnt)).mono
    fun _ m₂ h₂ => ?_
  obtain ⟨f₂, hshows₂, hre₂, htail₂⟩ := h₂
  refine ⟨?_, ?_, hshows₂.outside⟩
  · rw [hshows₂.list_eq, hshows.list_eq]
    exact (hre₁.trans hre₂).perm
  · rw [hshows₂.list_eq]
    exact (htail₂.sorted le_rfl).imp of_decide_eq_true

end Elements

/-- **`sort` and `qsort` sort.** -/
theorem sort_sorts {e : Elements} (he : e.Fits) (hnull : e.array ≠ 0 ∨ e.cnt = 0) (m : Mem) :
    (∀ (A : Type) (compare : Element e.size → Element e.size → A → ℤ) (aux : A),
      (Strcmp fun x y => compare x y aux) →
        e.Sorts (fun x y => compare x y aux) (e.sort compare aux) m) ∧
      ∀ compare : Element e.size → Element e.size → ℤ, Strcmp compare → e.Sorts compare (e.qsort compare) m :=
  ⟨fun _ _ _ hcmp => he.sorts hnull hcmp m, fun _ hcmp => he.sorts hnull hcmp m⟩

/-- Bytes, compared by their difference. -/
def byteDifference (a b : Element 1) : ℤ := (a 0).toNat - (b 0).toNat

lemma strcmp_byteDifference : Strcmp byteDifference where
  flip a b := by
    unfold byteDifference
    omega
  trans a b c := by
    unfold byteDifference
    omega

/-- Three bytes… -/
def threeBytes : Mem := fun p => if p = 4096 then 3 else if p = 4097 then 1 else 2

/-- …sorted. -/
theorem sort_sorts_three : Elements.Fits ⟨4096, 3, 1⟩ ∧
    Elements.Sorts ⟨4096, 3, 1⟩ (fun x y => compareThunk x y byteDifference)
      (Elements.sort ⟨4096, 3, 1⟩ compareThunk byteDifference) threeBytes ∧
    Elements.Sorts ⟨4096, 3, 1⟩ byteDifference (Elements.qsort ⟨4096, 3, 1⟩ byteDifference)
      threeBytes := by
  have he : Elements.Fits ⟨4096, 3, 1⟩ := ⟨by decide, by decide, by decide⟩
  obtain ⟨hsort, hqsort⟩ := sort_sorts he (.inl (by decide)) threeBytes
  exact ⟨he, hsort _ compareThunk byteDifference strcmp_byteDifference,
    hqsort byteDifference strcmp_byteDifference⟩

end Pintos.Stdlib
