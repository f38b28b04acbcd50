import Pintos.Lib.Bitmap

/-!
# Lib/FirstFit — `bitmap_scan_and_flip`, to the end of the number range

`bitmap_scan` answers with an index or with `BITMAP_ERROR`, the largest `size_t`. The latter says
that there is no run, except in one place: a run of no bits at the end of a bitmap of
`2 ^ 32 - 1` bits begins there.

No function reads a bit past the last one.
-/

namespace Pintos

open Option

namespace Bitmap

/-- `BITMAP_ERROR`. -/
def bitmapError : ℕ := 2 ^ 32 - 1

/-- `bitmap_scan`, with the `size_t` that it returns. -/
def scanIdx (b : Bitmap) (start cnt : ℕ) (value : Bool) : Option ℕ :=
  (b.scan start cnt value).map fun i => i.getD bitmapError

/-- `bitmap_scan_and_flip`, which tells an index from `BITMAP_ERROR` by its value. -/
def scanIdxAndFlip (b : Bitmap) (start cnt : ℕ) (value : Bool) : Option (ℕ × Bitmap) :=
  (b.scanIdx start cnt value).bind fun idx =>
    if idx ≠ bitmapError then (b.setMultiple idx cnt (!value)).map fun b' => (idx, b')
    else some (idx, b)

/-! ## The answer -/

section

variable {b : Bitmap} {start cnt : ℕ} {value : Bool}

/-- The answer is the first run, and the run is flipped. -/
structure Answers (b : Bitmap) (start cnt : ℕ) (value : Bool) (idx : ℕ) (b' : Bitmap) : Prop where
  found : (∃ p, start ≤ p ∧ b.Run p cnt value) → start ≤ idx ∧ b.Run idx cnt value ∧
    (∀ p, start ≤ p → b.Run p cnt value → idx ≤ p) ∧
    b.SetTo (fun j => idx ≤ j ∧ j < idx + cnt) (!value) b'
  missing : (¬ ∃ p, start ≤ p ∧ b.Run p cnt value) → idx = bitmapError ∧ b' = b
  error : idx = bitmapError → (¬ ∃ p, start ≤ p ∧ b.Run p cnt value) ∨
    b.bitCnt = bitmapError ∧ start = bitmapError ∧ cnt = 0

lemma answers_scanIdxAndFlip (hsize : b.bitCnt < 2 ^ 32) (hstart : start ≤ b.bitCnt) :
    ∃ idx b', b.scanIdxAndFlip start cnt value = some (idx, b') ∧ b.Answers start cnt value idx b' := by
  obtain ⟨hscan, hnone⟩ | ⟨k, hscan, hle, hrun, hfirst⟩ := scan_run hsize hstart cnt value
  · have hno : ¬ ∃ p, start ≤ p ∧ b.Run p cnt value := by
      rintro ⟨p, hp, hrun⟩
      exact hnone p hp hrun
    refine ⟨bitmapError, b, ?_, fun h => absurd h hno, fun _ => ⟨rfl, rfl⟩, fun _ => .inl hno⟩
    rw [scanIdxAndFlip, scanIdx, hscan, map_some, getD_none, bind_some,
      if_neg (not_not.mpr rfl)]
  · have hrunning : ∃ p, start ≤ p ∧ b.Run p cnt value := ⟨k, hle, hrun⟩
    have hidx : b.scanIdx start cnt value = some k := by rw [scanIdx, hscan]; rfl
    rw [scanIdxAndFlip, hidx, bind_some]
    rcases eq_or_ne k bitmapError with hk | hk
    · -- nothing to flip
      obtain ⟨hbits, rfl⟩ : b.bitCnt = bitmapError ∧ cnt = 0 := by
        have hend := hrun.1
        rw [bitmapError] at *
        omega
      have hsame : k = start :=
        Nat.le_antisymm (hfirst start (Nat.le_refl _) ⟨hstart, fun j hj hlt => by omega⟩) hle
      exact ⟨k, b, if_neg (not_not.mpr hk), fun _ => ⟨hle, hrun, hfirst, setTo_nothing (by omega) _⟩,
        fun h => absurd hrunning h, fun _ => .inr ⟨hbits, hsame ▸ hk, rfl⟩⟩
    · obtain ⟨b', hb', hset⟩ := setTo_setMultiple hrun.1 hsize (!value)
      rw [if_pos hk, hb']
      exact ⟨k, b', rfl, fun _ => ⟨hle, hrun, hfirst, hset⟩, fun h => absurd hrunning h,
        fun h => absurd h hk⟩

end

/-! ## The bits to spare -/

lemma rel_bind {α β : Type} {r : α → α → Prop} {r' : β → β → Prop} {x y : Option α}
    {f g : α → Option β} (h : Option.Rel r x y) (hfg : ∀ a b, r a b → Option.Rel r' (f a) (g b)) :
    Option.Rel r' (x.bind f) (y.bind g) := by
  cases h with
  | none => exact .none
  | some hr => exact hfg _ _ hr

/-- The same bits, those to spare apart. -/
structure Agree (b c : Bitmap) : Prop where
  bitCnt : c.bitCnt = b.bitCnt
  get : ∀ j < b.bitCnt, c.get j = b.get j

/-- A call on two bitmaps gives the same answer, and bitmaps that agree. -/
def AgreeOn {α : Type} (x y : α × Bitmap) : Prop := x.1 = y.1 ∧ x.2.Agree y.2

/-- No result tells the two apart. -/
structure Alike (b c : Bitmap) : Prop where
  test : ∀ i, c.test i = b.test i
  contains : ∀ start cnt value, c.contains start cnt value = b.contains start cnt value
  scan : ∀ start cnt value, c.scanIdx start cnt value = b.scanIdx start cnt value
  set : ∀ i value, Option.Rel Agree (b.set i value) (c.set i value)
  setMultiple : ∀ start cnt value,
    Option.Rel Agree (b.setMultiple start cnt value) (c.setMultiple start cnt value)
  scanAndFlip : ∀ start cnt value,
    Option.Rel AgreeOn (b.scanIdxAndFlip start cnt value) (c.scanIdxAndFlip start cnt value)

namespace Agree

variable {b c : Bitmap}

section

variable (h : b.Agree c)

include h

lemma test (i : ℕ) : c.test i = b.test i := by
  rw [Bitmap.test, Bitmap.test, h.bitCnt]
  split_ifs with hi
  · rw [h.get i hi]
  · rfl

lemma inRange (start cnt : ℕ) : c.InRange start cnt ↔ b.InRange start cnt := by
  rw [InRange, InRange, h.bitCnt]

lemma containsFrom (start : ℕ) (value : Bool) (left i : ℕ) :
    c.containsFrom start value left i = b.containsFrom start value left i := by
  induction left generalizing i with
  | zero => rfl
  | succ left ih => rw [Bitmap.containsFrom, Bitmap.containsFrom, h.test, ih]

lemma contains (start cnt : ℕ) (value : Bool) :
    c.contains start cnt value = b.contains start cnt value := by
  simp only [Bitmap.contains, h.inRange, h.containsFrom]

lemma scanFrom (cnt : ℕ) (value : Bool) (left i : ℕ) :
    c.scanFrom cnt value left i = b.scanFrom cnt value left i := by
  induction left generalizing i with
  | zero => rfl
  | succ left ih => rw [Bitmap.scanFrom, Bitmap.scanFrom, h.contains, ih]

lemma scanIdx (start cnt : ℕ) (value : Bool) :
    c.scanIdx start cnt value = b.scanIdx start cnt value := by
  simp only [Bitmap.scanIdx, scan, h.bitCnt, h.scanFrom]

lemma set (i : ℕ) (value : Bool) : Option.Rel Agree (b.set i value) (c.set i value) := by
  by_cases hi : i < b.bitCnt
  · obtain ⟨b', hb', hset⟩ := setTo_set hi value
    obtain ⟨c', hc', hset'⟩ := setTo_set (h.bitCnt ▸ hi) value
    rw [hb', hc']
    refine .some ⟨?_, fun j hj => ?_⟩
    · rw [hset.bitCnt, hset'.bitCnt, h.bitCnt]
    · rw [hset.bitCnt] at hj
      by_cases hji : j = i
      · rw [hset.mem j hji, hset'.mem j hji]
      · rw [hset.notMem j hji, hset'.notMem j hji, h.get j hj]
  · rw [Bitmap.set, if_neg hi, Bitmap.set, if_neg (h.bitCnt ▸ hi)]
    exact .none

lemma setFrom (start : ℕ) (value : Bool) (left i : ℕ) :
    Option.Rel Agree (Bitmap.setFrom start value left i b) (Bitmap.setFrom start value left i c) := by
  induction left generalizing i b c with
  | zero => exact .some h
  | succ left ih => exact rel_bind (h.set _ value) fun _ _ hset => ih hset _

lemma setMultiple (start cnt : ℕ) (value : Bool) :
    Option.Rel Agree (b.setMultiple start cnt value) (c.setMultiple start cnt value) := by
  simp only [Bitmap.setMultiple, h.inRange]
  split_ifs
  · exact h.setFrom start value cnt 0
  · exact .none

lemma scanIdxAndFlip (start cnt : ℕ) (value : Bool) :
    Option.Rel AgreeOn (b.scanIdxAndFlip start cnt value) (c.scanIdxAndFlip start cnt value) := by
  rw [Bitmap.scanIdxAndFlip, Bitmap.scanIdxAndFlip, h.scanIdx]
  cases b.scanIdx start cnt value with
  | none => exact .none
  | some idx =>
    rw [bind_some, bind_some]
    split_ifs
    · rw [map_eq_bind, map_eq_bind]
      exact rel_bind (h.setMultiple idx cnt (!value)) fun _ _ hset => .some ⟨rfl, hset⟩
    · exact .some ⟨rfl, h⟩

end

lemma alike (h : b.Agree c) : b.Alike c where
  test := h.test
  contains := h.contains
  scan := h.scanIdx
  set := h.set
  setMultiple := h.setMultiple
  scanAndFlip := h.scanIdxAndFlip

end Agree

/-- **First fit.** `bitmap_scan_and_flip` returns the first run at or after `start` and flips it;
and no function tells bitmaps apart that have the same bits. `BITMAP_ERROR` comes back if there is
no run, and from a run of no bits that begins there. -/
theorem first_fit {b : Bitmap} {start : ℕ} (hsize : b.bitCnt < 2 ^ 32) (hstart : start ≤ b.bitCnt)
    (cnt : ℕ) (value : Bool) :
    (∃ idx b', b.scanIdxAndFlip start cnt value = some (idx, b') ∧
      b.Answers start cnt value idx b') ∧ ∀ c, b.Agree c → b.Alike c :=
  ⟨answers_scanIdxAndFlip hsize hstart, fun _ h => h.alike⟩

/-- Three clear bits are taken behind one that is set. -/
theorem first_fit_three : ∃ idx b', (⟨40, fun _ => 1⟩ : Bitmap).scanIdxAndFlip 0 3 false = some (idx, b') ∧
    (⟨40, fun _ => 1⟩ : Bitmap).Answers 0 3 false idx b' :=
  (first_fit (by decide) (by decide) 3 false).1

/-- A run, and `BITMAP_ERROR`: no bits, at the end of the longest bitmap. -/
theorem first_fit_at_end : ∃ b : Bitmap, b.bitCnt < 2 ^ 32 ∧ bitmapError ≤ b.bitCnt ∧
    b.scanIdxAndFlip bitmapError 0 false = some (bitmapError, b) ∧
    ∃ i, bitmapError ≤ i ∧ b.Run i 0 false := by
  refine ⟨⟨bitmapError, fun _ => 0⟩, by decide, Nat.le_refl _, rfl, bitmapError, Nat.le_refl _,
    Nat.le_refl _, ?_⟩
  intro j hj hlt
  omega

end Bitmap

end Pintos
