import Pintos.Lib.Sort

/-!
# Lib/Search — `binary_search` and `bsearch`

Everything before `first` is less than the key, everything from `last` on is greater:

    │  < key  …    first   ?   middle   ?   last    > key  …    │

so when the two meet, nothing matches.
-/

namespace Pintos.Stdlib

open Machinery List

namespace Elements

variable (e : Elements) {A : Type} (compare : e.Compare (A → ℤ)) (aux : A)

/-- The loop of `binary_search`, for at most so many turns; 0 is the null pointer. -/
def searchLoop (key : Element e.size) : ℕ → ℕ → ℕ → SortM ℕ
  | 0, _, _ => throw .endless
  | turns + 1, first, last =>
    if first < last then do
      let range := (last - first) / e.size
      let middle := (first + range / 2 * e.size) % 2 ^ 32
      let element ← e.look middle
      let cmp := compare key element aux
      if cmp < 0 then searchLoop key turns first middle
      else if 0 < cmp then searchLoop key turns ((middle + e.size) % 2 ^ 32) last
      else return middle
    else return 0

/-- `binary_search`. -/
def binarySearch (key : Element e.size) : SortM ℕ :=
  e.searchLoop compare aux key (e.cnt + 1) e.array ((e.array + e.size * e.cnt) % 2 ^ 32)

/-- `bsearch`. -/
def bsearch (compare : e.Compare ℤ) (key : Element e.size) : SortM ℕ :=
  e.binarySearch compareThunk compare key

/-! ## The interval -/

section

variable {e : Elements} {m : Mem} {A : Type} {compare : e.Compare (A → ℤ)}
  {aux : A} {key : Element e.size} {i j lo hi : ℕ}

/-- The element at `i`, counted from 0. -/
def item (e : Elements) (m : Mem) (i : ℕ) : Element e.size := fun j => m (e.array + i * e.size + j)

lemma list_eq_map_item (e : Elements) (m : Mem) : e.list m = (List.range e.cnt).map (e.item m) := rfl

/-- The array is in order. -/
def Ordered (e : Elements) (cmp : e.Compare ℤ) (m : Mem) : Prop :=
  (e.list m).Pairwise fun a b => cmp a b ≤ 0

variable {cmp : e.Compare ℤ}

lemma Ordered.le (h : e.Ordered cmp m) (hcmp : Strcmp cmp) (hij : i ≤ j) (hj : j < e.cnt) :
    cmp (e.item m i) (e.item m j) ≤ 0 := by
  obtain rfl | hlt := hij.eq_or_lt
  · have hflip := hcmp.flip (e.item m i) (e.item m i)
    omega
  · rw [Ordered, list_eq_map_item, pairwise_map] at h
    have hlen : j < (range e.cnt).length := by rwa [length_range]
    have hpair := pairwise_iff_getElem.mp h i j (hlt.trans hlen) hlen hlt
    rwa [getElem_range, getElem_range] at hpair

/-- What cannot match any more: before `lo`, and from `hi` on. -/
structure Narrowed (e : Elements) (cmp : e.Compare ℤ) (key : Element e.size)
    (m : Mem) (lo hi : ℕ) : Prop where
  le : lo ≤ hi
  le_cnt : hi ≤ e.cnt
  before : ∀ i < lo, 0 < cmp key (e.item m i)
  after : ∀ i, hi ≤ i → i < e.cnt → cmp key (e.item m i) < 0

namespace Narrowed

variable {cmp : e.Compare ℤ}

lemma all (e : Elements) (cmp : e.Compare ℤ) (key : Element e.size) (m : Mem) :
    e.Narrowed cmp key m 0 e.cnt :=
  ⟨Nat.zero_le _, le_rfl, fun _ hi => absurd hi (Nat.not_lt_zero _), fun _ hi hcnt => absurd hcnt (by omega)⟩

lemma left (h : e.Narrowed cmp key m lo hi) (hcmp : Strcmp cmp) (hord : e.Ordered cmp m) (hlo : lo ≤ i)
    (hcnt : i ≤ e.cnt) (hless : cmp key (e.item m i) < 0) : e.Narrowed cmp key m lo i := by
  refine ⟨hlo, hcnt, h.before, fun j hij hj => ?_⟩
  by_contra hnot
  have hflip := hcmp.flip key (e.item m j)
  have hflip' := hcmp.flip key (e.item m i)
  have htrans := hcmp.trans _ _ key (hord.le hcmp hij hj) (by omega)
  omega

lemma right (h : e.Narrowed cmp key m lo hi) (hcmp : Strcmp cmp) (hord : e.Ordered cmp m) (hhi : i < hi)
    (hless : 0 < cmp key (e.item m i)) : e.Narrowed cmp key m (i + 1) hi := by
  refine ⟨hhi, h.le_cnt, fun j hj => ?_, h.after⟩
  by_contra hnot
  have hle := hord.le hcmp (Nat.le_of_lt_succ hj) (hhi.trans_le h.le_cnt)
  have htrans := hcmp.trans key _ _ (by omega) hle
  omega

end Narrowed

/-- The pointer is to an element that matches, and null if there is none. -/
def Found (e : Elements) (cmp : e.Compare ℤ) (key : Element e.size) (m : Mem)
    (p : ℕ) : Prop :=
  ((∃ i < e.cnt, cmp key (e.item m i) = 0) →
      p ≠ 0 ∧ ∃ i < e.cnt, p = e.array + i * e.size ∧ cmp key (e.item m i) = 0) ∧
    ((¬ ∃ i < e.cnt, cmp key (e.item m i) = 0) → p = 0)

lemma Narrowed.found_null (h : e.Narrowed cmp key m lo lo) : e.Found cmp key m 0 := by
  refine ⟨?_, fun _ => rfl⟩
  rintro ⟨i, hi, hzero⟩
  obtain hlt | hge := Nat.lt_or_ge i lo
  · have := h.before i hlt
    omega
  · have := h.after i hge hi
    omega

/-! ## The search -/

variable (hcmp : Strcmp fun x y => compare x y aux) (he : e.Fits) (hnull : e.array ≠ 0 ∨ e.cnt = 0)
  (hend : e.array + e.cnt * e.size < 2 ^ 32) (hord : e.Ordered (fun x y => compare x y aux) m)

include hcmp he hnull hend hord

lemma Narrowed.does_searchLoop {turns : ℕ} (h : e.Narrowed (fun x y => compare x y aux) key m lo hi)
    (hturns : hi < turns + lo) :
    Does (e.searchLoop compare aux key turns (e.array + lo * e.size) (e.array + hi * e.size)) m fun p m' =>
      m' = m ∧ e.Found (fun x y => compare x y aux) key m p := by
  -- the interval gets shorter with every turn
  induction turns generalizing lo hi with
  | zero => exact absurd hturns (by have := h.le; omega)
  | succ turns ih =>
    have hpos := he.size_pos
    rw [searchLoop, does_ite]
    refine ⟨fun hlt => ?_, fun hge => ?_⟩
    · have hlohi : lo < hi := by
        by_contra hnot
        have := Nat.mul_le_mul_right e.size (Nat.not_lt.mp hnot)
        omega
      -- the pointers are to elements
      have hrange : (e.array + hi * e.size - (e.array + lo * e.size)) / e.size = hi - lo := by
        rw [Nat.add_sub_add_left, ← Nat.sub_mul, Nat.mul_div_cancel _ hpos]
      have hmid : lo + (hi - lo) / 2 < hi := by omega
      have hcnt := h.le_cnt
      have hstop := index_le (e := e) (i := lo + (hi - lo) / 2 + 1) (Nat.succ_pos _) (by omega)
      have hmiddle : (e.array + lo * e.size + (hi - lo) / 2 * e.size) % 2 ^ 32 =
          e.array + (lo + (hi - lo) / 2) * e.size := by
        rw [Nat.add_assoc, ← Nat.add_mul]
        rw [Nat.add_sub_cancel] at hstop
        omega
      have hlo : lo ≤ lo + (hi - lo) / 2 := Nat.le_add_right ..
      simp only [hrange, hmiddle, does_bind]
      generalize lo + (hi - lo) / 2 = mid at *
      rw [Nat.add_sub_cancel] at hstop
      rw [look]
      simp only [does_bind, does_require, does_get, does_pure]
      refine ⟨⟨by omega, by omega⟩, does_ite.mpr ⟨fun hless => ?_, fun hnless => does_ite.mpr
        ⟨fun hless => ?_, fun hnless' => ?_⟩⟩⟩
      · exact ih (h.left hcmp hord hlo (by omega) hless) (by omega)
      · have hnext : (e.array + mid * e.size + e.size) % 2 ^ 32 = e.array + (mid + 1) * e.size := by
          rw [Nat.succ_mul, ← Nat.add_assoc, Nat.mod_eq_of_lt (by omega)]
        rw [hnext]
        exact ih (h.right hcmp hord hmid hless) (by omega)
      · have hmatch : compare key (e.item m mid) aux = 0 := le_antisymm (not_lt.mp hnless') (not_lt.mp hnless)
        refine (does_pure _).mpr ⟨rfl, fun _ => ⟨by omega, mid, by omega, rfl, hmatch⟩, fun hnone => ?_⟩
        exact absurd ⟨mid, by omega, hmatch⟩ hnone
    · have hhilo : hi ≤ lo := by
        by_contra hnot
        have := Nat.mul_lt_mul_of_pos_right (Nat.not_le.mp hnot) hpos
        omega
      obtain rfl := Nat.le_antisymm hhilo h.le
      exact (does_pure 0).mpr ⟨rfl, h.found_null⟩

lemma Fits.does_binarySearch (key : Element e.size) : Does (e.binarySearch compare aux key) m fun p m' =>
    m' = m ∧ e.Found (fun x y => compare x y aux) key m p := by
  have hlast : (e.array + e.size * e.cnt) % 2 ^ 32 = e.array + e.cnt * e.size := by
    rw [Nat.mul_comm, Nat.mod_eq_of_lt hend]
  have hall := Narrowed.all e (fun x y => compare x y aux) key m
  have hloop := hall.does_searchLoop hcmp he hnull hend hord (Nat.lt_succ_self e.cnt)
  rwa [Nat.zero_mul, Nat.add_zero, ← hlast] at hloop

end

end Elements

/-- **`binary_search` and `bsearch` are exact**, for an array with a pointer behind its end. -/
theorem binary_search_exact {e : Elements} (he : e.Fits) (hnull : e.array ≠ 0 ∨ e.cnt = 0)
    (hend : e.array + e.cnt * e.size < 2 ^ 32) (m : Mem) (key : Element e.size) :
    (∀ (A : Type) (compare : Element e.size → Element e.size → A → ℤ) (aux : A),
      (Strcmp fun x y => compare x y aux) → e.Ordered (fun x y => compare x y aux) m →
        Does (e.binarySearch compare aux key) m fun p m' =>
          m' = m ∧ e.Found (fun x y => compare x y aux) key m p) ∧
      ∀ compare : Element e.size → Element e.size → ℤ, Strcmp compare → e.Ordered compare m →
        Does (e.bsearch compare key) m fun p m' => m' = m ∧ e.Found compare key m p :=
  ⟨fun _ _ _ hcmp hord => Elements.Fits.does_binarySearch hcmp he hnull hend hord key,
    fun _ hcmp hord => Elements.Fits.does_binarySearch hcmp he hnull hend hord key⟩

/-- Three bytes, two of them the same… -/
def oneTwoTwo : Mem := fun p => if p = 4096 then 1 else 2

/-- …of which one that is there is found, and one that is not is not. -/
theorem binary_search_exact_two : Elements.Fits ⟨4096, 3, 1⟩ ∧
    Elements.Ordered ⟨4096, 3, 1⟩ byteDifference oneTwoTwo ∧
    (Does (Elements.binarySearch ⟨4096, 3, 1⟩ compareThunk byteDifference fun _ => 2) oneTwoTwo
      fun p _ => p ≠ 0) ∧
    Does (Elements.bsearch ⟨4096, 3, 1⟩ byteDifference fun _ => 3) oneTwoTwo fun p _ => p = 0 := by
  have he : Elements.Fits ⟨4096, 3, 1⟩ := ⟨by decide, by decide, by decide⟩
  have hord : Elements.Ordered ⟨4096, 3, 1⟩ byteDifference oneTwoTwo := by
    unfold Elements.Ordered
    decide
  refine ⟨he, hord, ?_, ?_⟩
  · have hsearch := (binary_search_exact he (.inl (by decide)) (by decide) oneTwoTwo fun _ => 2).1 _
      compareThunk byteDifference strcmp_byteDifference hord
    exact hsearch.mono fun p _ hp => (hp.2.1 (by decide)).1
  · have hsearch := (binary_search_exact he (.inl (by decide)) (by decide) oneTwoTwo fun _ => 3).2
      byteDifference strcmp_byteDifference hord
    exact hsearch.mono fun p _ hp => hp.2.2 (by decide)

end Pintos.Stdlib
