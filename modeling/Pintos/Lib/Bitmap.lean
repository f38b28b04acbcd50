import Pintos.Machinery.LittleEndian
import Mathlib.Data.List.Basic

/-!
# Lib/Bitmap — bitmaps

Bit `i` is bit `i % 32` of element `i / 32`, and the last element may have bits to spare. A failing
assertion is `none`. Sizes and indices are `size_t`s, so sums of them wrap.
-/

namespace Pintos

open Machinery Function BitVec

/-- `ELEM_BITS`. -/
def elemBits : ℕ := 32

/-- `struct bitmap`. -/
structure Bitmap where
  bitCnt : ℕ
  bits : ℕ → BitVec 32

namespace Bitmap

/-- `elem_idx`. -/
def elemIdx (i : ℕ) : ℕ := i / elemBits

/-- `bit_mask`. -/
def bitMask (i : ℕ) : BitVec 32 := 1#32 <<< (i % elemBits)

/-- `elem_cnt`. -/
def elemCnt (bitCnt : ℕ) : ℕ := (bitCnt + elemBits - 1) % 2 ^ 32 / elemBits

/-- `byte_cnt`. -/
def byteCnt (bitCnt : ℕ) : ℕ := 4 * elemCnt bitCnt % 2 ^ 32

/-- `last_mask`, of a bitmap with so many bits. -/
def lastMask (bitCnt : ℕ) : BitVec 32 :=
  if bitCnt % elemBits ≠ 0 then (1#32 <<< (bitCnt % elemBits)) - 1#32 else -1#32

def setElem (b : Bitmap) (i : ℕ) (e : BitVec 32) : Bitmap :=
  { b with bits := update b.bits i e }

/-- `bitmap_mark`. -/
def mark (b : Bitmap) (i : ℕ) : Bitmap := b.setElem (elemIdx i) (b.bits (elemIdx i) ||| bitMask i)

/-- `bitmap_reset`. -/
def reset (b : Bitmap) (i : ℕ) : Bitmap :=
  b.setElem (elemIdx i) (b.bits (elemIdx i) &&& ~~~ bitMask i)

def get (b : Bitmap) (i : ℕ) : Bool := b.bits (elemIdx i) &&& bitMask i ≠ 0

/-- `bitmap_set`. -/
def set (b : Bitmap) (i : ℕ) (value : Bool) : Option Bitmap :=
  if i < b.bitCnt then some (if value then b.mark i else b.reset i) else none

/-- `bitmap_test`. -/
def test (b : Bitmap) (i : ℕ) : Option Bool := if i < b.bitCnt then some (b.get i) else none

/-- The assertions about a range. -/
def InRange (b : Bitmap) (start cnt : ℕ) : Prop :=
  start ≤ b.bitCnt ∧ (start + cnt) % 2 ^ 32 ≤ b.bitCnt

instance (b : Bitmap) (start cnt : ℕ) : Decidable (b.InRange start cnt) :=
  inferInstanceAs (Decidable (_ ∧ _))

def setFrom (start : ℕ) (value : Bool) : ℕ → ℕ → Bitmap → Option Bitmap
  | 0, _, b => some b
  | left + 1, i, b => (b.set ((start + i) % 2 ^ 32) value).bind (setFrom start value left (i + 1))

/-- `bitmap_set_multiple`. -/
def setMultiple (b : Bitmap) (start cnt : ℕ) (value : Bool) : Option Bitmap :=
  if b.InRange start cnt then setFrom start value cnt 0 b else none

def containsFrom (b : Bitmap) (start : ℕ) (value : Bool) : ℕ → ℕ → Option Bool
  | 0, _ => some false
  | left + 1, i => (b.test ((start + i) % 2 ^ 32)).bind fun v =>
      if v = value then some true else b.containsFrom start value left (i + 1)

/-- `bitmap_contains`. -/
def contains (b : Bitmap) (start cnt : ℕ) (value : Bool) : Option Bool :=
  if b.InRange start cnt then b.containsFrom start value cnt 0 else none

/-- `bitmap_all`. -/
def all (b : Bitmap) (start cnt : ℕ) : Option Bool := (b.contains start cnt false).map not

/-- The loop of `bitmap_scan`: the answer, if there is one. -/
def scanFrom (b : Bitmap) (cnt : ℕ) (value : Bool) : ℕ → ℕ → Option (Option ℕ)
  | 0, _ => some none
  | left + 1, i => (b.contains i cnt (!value)).bind fun found =>
      if found then b.scanFrom cnt value left (i + 1) else some (some i)

/-- `bitmap_scan`; `none` inside is `BITMAP_ERROR`. -/
def scan (b : Bitmap) (start cnt : ℕ) (value : Bool) : Option (Option ℕ) :=
  if start ≤ b.bitCnt then
    if cnt ≤ b.bitCnt then b.scanFrom cnt value (b.bitCnt - cnt + 1 - start) start else some none
  else none

/-- `bitmap_scan_and_flip`. -/
def scanAndFlip (b : Bitmap) (start cnt : ℕ) (value : Bool) : Option (Option ℕ × Bitmap) :=
  (b.scan start cnt value).bind fun
    | none => some (none, b)
    | some i => (b.setMultiple i cnt (!value)).map fun b' => (some i, b')

/-- `bitmap_create`, with the elements `malloc` finds; for a size of 0 it gives nothing. -/
def create (bitCnt : ℕ) (junk : ℕ → BitVec 32) : Option Bitmap :=
  if byteCnt bitCnt = 0 ∧ bitCnt ≠ 0 then none
  else (Bitmap.mk bitCnt junk).setMultiple 0 bitCnt false

/-- Byte `n` of the elements. -/
def byte (b : Bitmap) (n : ℕ) : UInt8 := leByte (b.bits (n / 4)).toNat (n % 4)

/-- The first bytes of the elements are read from a file, and the bits to spare are cleared. -/
def load (b : Bitmap) (bytes : List UInt8) : Bitmap :=
  let read (n : ℕ) : UInt8 := (bytes[n]?).getD (b.byte n)
  let c : Bitmap := { b with bits := fun k => .ofNat 32 (leWord fun j => read (4 * k + j)) }
  let last := elemCnt b.bitCnt - 1
  c.setElem last (c.bits last &&& lastMask b.bitCnt)

/-! ## Single bits -/

section

variable {b b' : Bitmap} {i j : ℕ}

lemma getLsbD_bitMask (i : ℕ) {j : ℕ} (hj : j < 32) :
    (bitMask i).getLsbD j = decide (j = i % elemBits) := by
  simp only [bitMask, elemBits, getLsbD_shiftLeft, getLsbD_one, hj]
  by_cases h : j = i % 32
  · simp [h]
  · simp [h]
    omega

lemma get_eq (b : Bitmap) (i : ℕ) : b.get i = (b.bits (elemIdx i)).getLsbD (i % elemBits) := by
  have hi : i % elemBits < 32 := Nat.mod_lt _ (by decide)
  cases hbit : (b.bits (elemIdx i)).getLsbD (i % elemBits) with
  | false =>
    refine decide_eq_false (not_not.mpr (eq_of_getLsbD_eq fun j hj => ?_))
    rw [getLsbD_and, getLsbD_bitMask i hj]
    by_cases h : j = i % elemBits
    · simp [h, hbit]
    · simp [h]
  | true =>
    refine decide_eq_true fun hzero => ?_
    have := congrArg (fun v : BitVec 32 => v.getLsbD (i % elemBits)) hzero
    simp [getLsbD_and, getLsbD_bitMask i hi, hbit] at this

lemma eq_of_mod_eq (hidx : elemIdx i = elemIdx j) (hmod : i % elemBits = j % elemBits) : i = j := by
  rw [elemIdx, elemIdx] at hidx
  rw [← Nat.div_add_mod i elemBits, hidx, hmod, Nat.div_add_mod]

lemma eq_of_get {b b' : Bitmap} (hcnt : b'.bitCnt = b.bitCnt) (h : ∀ j, b'.get j = b.get j) :
    b' = b := by
  have hbits : b'.bits = b.bits := by
    funext e
    refine eq_of_getLsbD_eq fun j hj => ?_
    have hj : j < elemBits := hj
    have hidx : elemIdx (elemBits * e + j) = e := by
      rw [elemIdx, Nat.mul_add_div (by decide), Nat.div_eq_of_lt hj, Nat.add_zero]
    have hbit : (elemBits * e + j) % elemBits = j := by rw [Nat.mul_add_mod, Nat.mod_eq_of_lt hj]
    have hget := h (elemBits * e + j)
    rwa [get_eq, get_eq, hidx, hbit] at hget
  cases b
  cases b'
  cases hcnt
  cases hbits
  rfl

lemma get_setElem (b : Bitmap) (k : ℕ) (e : BitVec 32) (j : ℕ) :
    (b.setElem k e).get j = if elemIdx j = k then e.getLsbD (j % elemBits) else b.get j := by
  rw [get_eq, get_eq, setElem]
  simp only [update_apply]
  split <;> rfl

lemma get_mark (b : Bitmap) (i j : ℕ) : (b.mark i).get j = (decide (j = i) || b.get j) := by
  have hj : j % elemBits < 32 := Nat.mod_lt _ (by decide)
  rw [mark, get_setElem]
  split
  · rename_i hidx
    rw [getLsbD_or, getLsbD_bitMask i hj, get_eq, hidx, Bool.or_comm]
    congr 1
    refine decide_eq_decide.mpr ⟨eq_of_mod_eq hidx, fun h => by rw [h]⟩
  · rename_i hidx
    have hne : j ≠ i := fun h => hidx (by rw [h])
    simp [hne]

lemma get_reset (b : Bitmap) (i j : ℕ) : (b.reset i).get j = (!decide (j = i) && b.get j) := by
  have hj : j % elemBits < 32 := Nat.mod_lt _ (by decide)
  rw [reset, get_setElem]
  split
  · rename_i hidx
    rw [getLsbD_and, getLsbD_not, getLsbD_bitMask i hj, get_eq, hidx, Bool.and_comm]
    congr 1
    rw [decide_eq_true hj]
    exact congrArg not (decide_eq_decide.mpr ⟨eq_of_mod_eq hidx, fun h => by rw [h]⟩)
  · rename_i hidx
    have hne : j ≠ i := fun h => hidx (by rw [h])
    simp [hne]

/-- `b'` is `b` with the bits in `P` set to `value`. -/
structure SetTo (b : Bitmap) (P : ℕ → Prop) (value : Bool) (b' : Bitmap) : Prop where
  bitCnt : b'.bitCnt = b.bitCnt
  mem : ∀ j, P j → b'.get j = value
  notMem : ∀ j, ¬ P j → b'.get j = b.get j

lemma setTo_set (hi : i < b.bitCnt) (value : Bool) :
    ∃ b', b.set i value = some b' ∧ b.SetTo (· = i) value b' := by
  rw [set, if_pos hi]
  cases value with
  | true =>
    refine ⟨_, rfl, rfl, fun j hj => ?_, fun j hj => ?_⟩
    · simp [get_mark, hj]
    · simp [get_mark, hj]
  | false =>
    refine ⟨_, rfl, rfl, fun j hj => ?_, fun j hj => ?_⟩
    · simp [get_reset, hj]
    · simp [get_reset, hj]

lemma SetTo.trans {b'' : Bitmap} {P Q : ℕ → Prop} {value : Bool} (h : b.SetTo P value b')
    (h' : b'.SetTo Q value b'') : b.SetTo (fun j => P j ∨ Q j) value b'' := by
  classical
  refine ⟨h'.bitCnt.trans h.bitCnt, fun j hj => ?_, fun j hj => ?_⟩
  · by_cases hQ : Q j
    · exact h'.mem j hQ
    · rw [h'.notMem j hQ]
      exact h.mem j (hj.resolve_right hQ)
  · rw [h'.notMem j fun hQ => hj (.inr hQ), h.notMem j fun hP => hj (.inl hP)]

lemma SetTo.congr {P Q : ℕ → Prop} {value : Bool} (h : b.SetTo P value b')
    (hPQ : ∀ j, P j ↔ Q j) : b.SetTo Q value b' :=
  ⟨h.bitCnt, fun j hj => h.mem j ((hPQ j).mpr hj), fun j hj => h.notMem j (mt (hPQ j).mp hj)⟩

lemma setTo_nothing {P : ℕ → Prop} (hP : ∀ j, ¬ P j) (value : Bool) : b.SetTo P value b :=
  ⟨rfl, fun j hj => absurd hj (hP j), fun _ _ => rfl⟩

end

/-! ## Ranges -/

section

variable {b : Bitmap} {start cnt : ℕ}
variable {left i : ℕ}

lemma setTo_setFrom (value : Bool) (h : start + i + left ≤ b.bitCnt) (hsize : b.bitCnt < 2 ^ 32) :
    ∃ b', setFrom start value left i b = some b' ∧
      b.SetTo (fun j => start + i ≤ j ∧ j < start + i + left) value b' := by
  induction left generalizing i b with
  | zero => exact ⟨b, rfl, setTo_nothing (by omega) value⟩
  | succ left ih =>
    obtain ⟨c, hc, hset⟩ := setTo_set (show start + i < b.bitCnt by omega) value
    have hcnt := hset.bitCnt
    obtain ⟨b', hb', hset'⟩ := ih (b := c) (i := i + 1) (by omega) (by omega)
    refine ⟨b', ?_, (hset.trans hset').congr fun j => by omega⟩
    rwa [setFrom, Nat.mod_eq_of_lt (by omega), hc]

lemma inRange (h : start + cnt ≤ b.bitCnt) (hsize : b.bitCnt < 2 ^ 32) : b.InRange start cnt :=
  ⟨by omega, by rw [Nat.mod_eq_of_lt (by omega)]; exact h⟩

lemma setTo_setMultiple (h : start + cnt ≤ b.bitCnt) (hsize : b.bitCnt < 2 ^ 32) (value : Bool) :
    ∃ b', b.setMultiple start cnt value = some b' ∧
      b.SetTo (fun j => start ≤ j ∧ j < start + cnt) value b' := by
  rw [setMultiple, if_pos (inRange h hsize)]
  exact setTo_setFrom value h hsize

lemma containsFrom_eq (value : Bool) (h : start + i + left ≤ b.bitCnt)
    (hsize : b.bitCnt < 2 ^ 32) : ∃ found, b.containsFrom start value left i = some found ∧
      (found = true ↔ ∃ j, start + i ≤ j ∧ j < start + i + left ∧ b.get j = value) := by
  induction left generalizing i with
  | zero => exact ⟨false, rfl, iff_of_false nofun fun ⟨j, hj, hj', _⟩ => by omega⟩
  | succ left ih =>
    have htest : b.test ((start + i) % 2 ^ 32) = some (b.get (start + i)) := by
      rw [Nat.mod_eq_of_lt (by omega), test, if_pos (by omega)]
    rw [containsFrom, htest, Option.bind_some]
    split
    · rename_i hvalue
      exact ⟨true, rfl, iff_of_true rfl ⟨start + i, by omega, by omega, hvalue⟩⟩
    · rename_i hvalue
      obtain ⟨found, hfound, hiff⟩ := ih (i := i + 1) (by omega)
      refine ⟨found, hfound, hiff.trans ⟨?_, ?_⟩⟩
      · rintro ⟨j, hj, hj', hget⟩
        exact ⟨j, by omega, by omega, hget⟩
      · rintro ⟨j, hj, hj', hget⟩
        have hne : j ≠ start + i := fun hji => hvalue (hji ▸ hget)
        exact ⟨j, by omega, by omega, hget⟩

lemma contains_eq (h : start + cnt ≤ b.bitCnt) (hsize : b.bitCnt < 2 ^ 32) (value : Bool) :
    ∃ found, b.contains start cnt value = some found ∧
      (found = true ↔ ∃ j, start ≤ j ∧ j < start + cnt ∧ b.get j = value) := by
  rw [contains, if_pos (inRange h hsize)]
  exact containsFrom_eq value h hsize

/-- `bitmap_all` of a range. -/
lemma all_eq_true (h : start + cnt ≤ b.bitCnt) (hsize : b.bitCnt < 2 ^ 32)
    (hset : ∀ j, start ≤ j → j < start + cnt → b.get j = true) : b.all start cnt = some true := by
  obtain ⟨found, hfound, hiff⟩ := contains_eq h hsize false
  have hno : found = false := by
    refine Bool.eq_false_iff.mpr fun htrue => ?_
    obtain ⟨j, hj, hj', hget⟩ := hiff.mp htrue
    rw [hset j hj hj'] at hget
    cases hget
  rw [all, hfound, hno]
  rfl

/-- `bitmap_scan` finds the first of the ranges there are. -/
lemma scanFrom_eq (value : Bool) (h : left = 0 ∨ i + left + cnt ≤ b.bitCnt + 1)
    (hsize : b.bitCnt < 2 ^ 32) : (b.scanFrom cnt value left i = some none ∧
      ∀ p, i ≤ p → p < i + left → ∃ j, (p ≤ j ∧ j < p + cnt) ∧ b.get j ≠ value) ∨
    ∃ k, b.scanFrom cnt value left i = some (some k) ∧ i ≤ k ∧ k + cnt ≤ b.bitCnt ∧
      (∀ j, k ≤ j → j < k + cnt → b.get j = value) ∧
      ∀ p, i ≤ p → p < k → ∃ j, (p ≤ j ∧ j < p + cnt) ∧ b.get j ≠ value := by
  induction left generalizing i with
  | zero => exact .inl ⟨rfl, fun p hp hlt => by omega⟩
  | succ left ih =>
    obtain ⟨found, hfound, hiff⟩ := contains_eq (show i + cnt ≤ b.bitCnt by omega) hsize
      (!value)
    rw [scanFrom, hfound]
    cases found with
    | true =>
      obtain ⟨j, hj, hj', hget⟩ := hiff.mp rfl
      have hne : b.get j ≠ value := by
        rw [hget]
        cases value <;> decide
      have hfirst (p : ℕ) (hp : i ≤ p) (hrest : i + 1 ≤ p → ∃ j, (p ≤ j ∧ j < p + cnt) ∧
          b.get j ≠ value) : ∃ j, (p ≤ j ∧ j < p + cnt) ∧ b.get j ≠ value := by
        obtain rfl | hlt := Nat.eq_or_lt_of_le hp
        · exact ⟨j, ⟨hj, hj'⟩, hne⟩
        · exact hrest hlt
      obtain ⟨hscan, hnone⟩ | ⟨k, hscan, hle, hk, hall, hbefore⟩ := ih (i := i + 1) (by omega)
      · exact .inl ⟨hscan, fun p hp hlt => hfirst p hp fun hp' => hnone p hp' (by omega)⟩
      · exact .inr ⟨k, hscan, by omega, hk, hall,
          fun p hp hlt => hfirst p hp fun hp' => hbefore p hp' hlt⟩
    | false =>
      refine .inr ⟨i, rfl, Nat.le_refl i, by omega, fun j hj hj' => ?_, fun p hp hlt => by omega⟩
      cases hv : b.get j <;> cases value <;> simp_all

/-- The `cnt` bits from `p` on are there, and are all `value`. -/
def Run (b : Bitmap) (p cnt : ℕ) (value : Bool) : Prop :=
  p + cnt ≤ b.bitCnt ∧ ∀ j, p ≤ j → j < p + cnt → b.get j = value

/-- `bitmap_scan` finds the first run there is, from a place on. -/
lemma scan_run (hsize : b.bitCnt < 2 ^ 32) (hstart : start ≤ b.bitCnt) (cnt : ℕ) (value : Bool) :
    (b.scan start cnt value = some none ∧ ∀ p, start ≤ p → ¬ b.Run p cnt value) ∨
      ∃ k, b.scan start cnt value = some (some k) ∧ start ≤ k ∧ b.Run k cnt value ∧
        ∀ p, start ≤ p → b.Run p cnt value → k ≤ p := by
  have hno (p : ℕ) (hrun : b.Run p cnt value)
      (h : ∃ j, (p ≤ j ∧ j < p + cnt) ∧ b.get j ≠ value) : False := by
    obtain ⟨j, hj, hget⟩ := h
    exact hget (hrun.2 j hj.1 hj.2)
  rw [scan]
  split_ifs with hcnt
  · have hleft : b.bitCnt - cnt + 1 - start = 0 ∨
        start + (b.bitCnt - cnt + 1 - start) + cnt ≤ b.bitCnt + 1 := by omega
    obtain ⟨hscan, hnone⟩ | ⟨k, hscan, hle, hk, hall, hbefore⟩ := scanFrom_eq value hleft hsize
    · refine .inl ⟨hscan, fun p hp hrun => hno p hrun (hnone p hp ?_)⟩
      have hend := hrun.1
      omega
    · refine .inr ⟨k, hscan, hle, ⟨hk, hall⟩, fun p hp hrun => ?_⟩
      exact Nat.le_of_not_lt fun hlt => hno p hrun (hbefore p hp hlt)
  · refine .inl ⟨rfl, fun p _ hrun => hcnt ?_⟩
    have hend := hrun.1
    omega

lemma scanAndFlip_run (hsize : b.bitCnt < 2 ^ 32) (hstart : start ≤ b.bitCnt) (cnt : ℕ)
    (value : Bool) :
    (b.scanAndFlip start cnt value = some (none, b) ∧ ∀ p, start ≤ p → ¬ b.Run p cnt value) ∨
      ∃ k b', b.scanAndFlip start cnt value = some (some k, b') ∧ start ≤ k ∧ b.Run k cnt value ∧
        (∀ p, start ≤ p → b.Run p cnt value → k ≤ p) ∧
        b.SetTo (fun j => k ≤ j ∧ j < k + cnt) (!value) b' := by
  obtain ⟨hscan, hnone⟩ | ⟨k, hscan, hle, hrun, hfirst⟩ := scan_run hsize hstart cnt value
  · rw [scanAndFlip, hscan]
    exact .inl ⟨rfl, hnone⟩
  · obtain ⟨b', hb', hset⟩ := setTo_setMultiple hrun.1 hsize (!value)
    refine .inr ⟨k, b', ?_, hle, hrun, hfirst, hset⟩
    rw [scanAndFlip, hscan]
    show (b.setMultiple k cnt (!value)).map _ = _
    rw [hb', Option.map_some]

/-- The `cnt` bits from `p` on are there, and clear. -/
abbrev Gap (b : Bitmap) (p cnt : ℕ) : Prop := b.Run p cnt false

/-- A new bitmap has the bits it was asked for, not too many, and all clear. -/
lemma bitCnt_create {n : ℕ} {junk : ℕ → BitVec 32} {b : Bitmap} (hn : n < 2 ^ 32)
    (h : create n junk = some b) :
    b.bitCnt = n ∧ (n ≠ 0 → n + 31 < 2 ^ 32) ∧ ∀ j < n, b.get j = false := by
  rw [create] at h
  split_ifs at h with hempty
  obtain ⟨b', hb', hset⟩ := setTo_setMultiple (b := ⟨n, junk⟩) (show 0 + n ≤ n by omega) hn false
  rw [hb'] at h
  cases h
  refine ⟨hset.bitCnt, fun hne => ?_, fun j hj => hset.mem j ⟨Nat.zero_le j, by omega⟩⟩
  by_contra hlarge
  refine hempty ⟨?_, hne⟩
  show 4 * ((n + 32 - 1) % 2 ^ 32 / 32) % 2 ^ 32 = 0
  omega

end

/-! ## In a file -/

/-- The bits to spare are clear. -/
def Clean (b : Bitmap) : Prop :=
  b.bits (elemCnt b.bitCnt - 1) &&& lastMask b.bitCnt = b.bits (elemCnt b.bitCnt - 1)

section

variable {b b' : Bitmap} {i : ℕ} {value : Bool}

lemma getLsbD_lastMask (n : ℕ) {j : ℕ} (hj : j < 32) :
    (lastMask n).getLsbD j = decide (n % elemBits = 0 ∨ j < n % elemBits) := by
  have hr : n % elemBits < 32 := Nat.mod_lt _ (by decide)
  rw [lastMask]
  split
  · rename_i hne
    have hpow : 2 ^ (n % elemBits) < 2 ^ 32 := Nat.pow_lt_pow_right (by decide) hr
    have hshift : (1#32 <<< (n % elemBits)).toNat = 2 ^ (n % elemBits) := by
      rw [toNat_shiftLeft, Nat.shiftLeft_eq]
      exact (congrArg (· % 2 ^ 32) (Nat.one_mul _)).trans (Nat.mod_eq_of_lt hpow)
    have hnat : ((1#32 <<< (n % elemBits)) - 1#32).toNat = 2 ^ (n % elemBits) - 1 := by
      rw [toNat_sub_of_le, hshift]
      · rfl
      · rw [le_def, hshift]
        exact Nat.one_le_two_pow
    rw [BitVec.getLsbD, hnat, Nat.testBit_two_pow_sub_one]
    exact decide_eq_decide.mpr ⟨.inr, fun h => h.resolve_left hne⟩
  · rename_i hzero
    rw [neg_one_eq_allOnes, getLsbD_allOnes]
    exact decide_eq_decide.mpr ⟨fun _ => .inl (not_not.mp hzero), fun _ => hj⟩

lemma bitMask_and_lastMask (hi : i < b.bitCnt) (hsize : b.bitCnt + 31 < 2 ^ 32)
    (hlast : elemIdx i = elemCnt b.bitCnt - 1) : bitMask i &&& lastMask b.bitCnt = bitMask i := by
  refine eq_of_getLsbD_eq fun j hj => ?_
  rw [getLsbD_and, getLsbD_bitMask i hj, getLsbD_lastMask _ hj]
  refine Bool.and_eq_left_iff_imp.mpr fun hij => decide_eq_true ?_
  have hij : j = i % 32 := of_decide_eq_true hij
  have hlast : i / 32 = (b.bitCnt + 32 - 1) % 2 ^ 32 / 32 - 1 := hlast
  show b.bitCnt % 32 = 0 ∨ j < b.bitCnt % 32
  omega

lemma clean_iff (hsize : b.bitCnt + 31 < 2 ^ 32) (hpos : 0 < b.bitCnt) :
    b.Clean ↔ ∀ j, b.bitCnt ≤ j → elemIdx j = elemCnt b.bitCnt - 1 → b.get j = false := by
  have hlast : elemCnt b.bitCnt - 1 = (b.bitCnt + 32 - 1) % 2 ^ 32 / 32 - 1 := rfl
  constructor
  · intro h j hj hidx
    have hr : j % elemBits < 32 := Nat.mod_lt _ (by decide)
    have hspare : ¬ (b.bitCnt % 32 = 0 ∨ j % 32 < b.bitCnt % 32) := by
      have hidx : j / 32 = _ := hidx
      omega
    rw [get_eq, hidx, ← h, getLsbD_and, getLsbD_lastMask _ hr]
    rw [decide_eq_false (show ¬ (b.bitCnt % elemBits = 0 ∨ j % elemBits < b.bitCnt % elemBits) from
      hspare), Bool.and_false]
  · intro h
    refine eq_of_getLsbD_eq fun j hj => ?_
    rw [getLsbD_and, getLsbD_lastMask _ hj]
    refine Bool.and_eq_left_iff_imp.mpr fun hbit => decide_eq_true ?_
    show b.bitCnt % 32 = 0 ∨ j < b.bitCnt % 32
    by_contra hspare
    have hidx : elemIdx (32 * (elemCnt b.bitCnt - 1) + j) = elemCnt b.bitCnt - 1 := by
      show (32 * _ + j) / 32 = _
      omega
    have hmod : (32 * (elemCnt b.bitCnt - 1) + j) % elemBits = j := by
      show (32 * _ + j) % 32 = j
      omega
    have hget := h (32 * (elemCnt b.bitCnt - 1) + j) (by omega) hidx
    rw [get_eq, hidx, hmod, hbit] at hget
    cases hget

lemma Clean.setTo {P : ℕ → Prop} (h : b.Clean) (hsize : b.bitCnt + 31 < 2 ^ 32)
    (hpos : 0 < b.bitCnt) (hset : b.SetTo P value b') (hP : ∀ j, P j → j < b.bitCnt) : b'.Clean := by
  have hcnt := hset.bitCnt
  refine (clean_iff (by omega) (by omega)).mpr fun j hj hidx => ?_
  rw [hcnt] at hj hidx
  rw [hset.notMem j fun hPj => absurd (hP j hPj) (by omega)]
  exact (clean_iff hsize hpos).mp h j hj hidx

lemma Clean.setElem {k : ℕ} {e : BitVec 32} (h : b.Clean)
    (he : k = elemCnt b.bitCnt - 1 → e &&& lastMask b.bitCnt = e) : (b.setElem k e).Clean := by
  rw [Clean, Bitmap.setElem]
  simp only [update_apply]
  split
  · rename_i hk
    exact he hk.symm
  · exact h

section

variable (h : b.Clean) (hsize : b.bitCnt + 31 < 2 ^ 32)

include h hsize

lemma Clean.set (hset : b.set i value = some b') : b'.Clean ∧ b'.bitCnt = b.bitCnt := by
  rw [Bitmap.set] at hset
  split at hset
  · rename_i hi
    cases hset
    split
    · refine ⟨h.setElem fun hlast => ?_, rfl⟩
      rw [and_or_distrib_right, bitMask_and_lastMask hi hsize hlast, hlast, h]
    · refine ⟨h.setElem fun hlast => ?_, rfl⟩
      rw [BitVec.and_assoc, BitVec.and_comm (~~~ _), ← BitVec.and_assoc, hlast, h]
  · cases hset

lemma Clean.setFrom {start left : ℕ} (hset : Bitmap.setFrom start value left i b = some b') :
    b'.Clean ∧ b'.bitCnt = b.bitCnt := by
  induction left generalizing i b with
  | zero =>
    cases hset
    exact ⟨h, rfl⟩
  | succ left ih =>
    obtain ⟨c, hc, hrest⟩ := Option.bind_eq_some_iff.mp hset
    obtain ⟨hclean, hcnt⟩ := h.set hsize hc
    obtain ⟨hclean', hcnt'⟩ := ih hclean (by omega) hrest
    exact ⟨hclean', hcnt'.trans hcnt⟩

/-- Nothing sets a bit to spare. -/
lemma Clean.setMultiple {start cnt : ℕ} (hset : b.setMultiple start cnt value = some b') :
    b'.Clean ∧ b'.bitCnt = b.bitCnt := by
  rw [Bitmap.setMultiple] at hset
  split at hset
  · exact h.setFrom hsize hset
  · cases hset

end

lemma clean_load (b : Bitmap) (bytes : List UInt8) : (b.load bytes).Clean := by
  rw [Clean, load]
  simp only [setElem, update_self]
  rw [BitVec.and_assoc, BitVec.and_self]

lemma ofNat_leWord_byte (b : Bitmap) (k : ℕ) :
    BitVec.ofNat 32 (leWord fun j => b.byte (4 * k + j)) = b.bits k := by
  have hword : (leWord fun j => b.byte (4 * k + j)) = leWord (leByte (b.bits k).toNat) := by
    refine leWord_congr fun j hj => ?_
    have hdiv : (4 * k + j) / 4 = k := by omega
    have hmod : (4 * k + j) % 4 = j := by omega
    rw [byte, hdiv, hmod]
  rw [hword, leWord_leByte (b.bits k).isLt, ofNat_toNat, setWidth_eq]

variable {bytes : List UInt8}

lemma bits_load_congr (hcnt : b'.bitCnt = b.bitCnt) (hlen : 4 * elemCnt b.bitCnt ≤ bytes.length)
    {k : ℕ} (hk : k < elemCnt b.bitCnt) : (b'.load bytes).bits k = (b.load bytes).bits k := by
  have hword (k : ℕ) (hk : k < elemCnt b.bitCnt) :
      leWord (fun j => (bytes[4 * k + j]?).getD (b'.byte (4 * k + j))) =
        leWord fun j => (bytes[4 * k + j]?).getD (b.byte (4 * k + j)) := by
    refine leWord_congr fun j hj => ?_
    rw [List.getElem?_eq_getElem (by omega)]
    rfl
  simp only [load, setElem, update_apply, hcnt, hword k hk,
    hword (elemCnt b.bitCnt - 1) (by omega)]

/-- The bits that are read back are those that were written, spare bits or not. -/
lemma get_load (hcnt : b'.bitCnt = b.bitCnt)
    (hbytes : ∀ n < 4 * elemCnt b.bitCnt, bytes[n]? = some (b.byte n))
    (hsize : b.bitCnt + 31 < 2 ^ 32) (hi : i < b.bitCnt) : (b'.load bytes).get i = b.get i := by
  have hidx : elemIdx i < elemCnt b.bitCnt := by
    show i / 32 < (b.bitCnt + 32 - 1) % 2 ^ 32 / 32
    omega
  have hword : BitVec.ofNat 32 (leWord fun j =>
      (bytes[4 * elemIdx i + j]?).getD (b'.byte (4 * elemIdx i + j))) = b.bits (elemIdx i) := by
    rw [← b.ofNat_leWord_byte (elemIdx i)]
    refine congrArg _ (leWord_congr fun j hj => ?_)
    rw [hbytes _ (by omega)]
    rfl
  rw [load, get_setElem, get_eq, get_eq]
  simp only [hcnt]
  split_ifs with hlast
  · have hr : i % elemBits < 32 := Nat.mod_lt _ (by decide)
    rw [← hlast, hword, getLsbD_and, getLsbD_lastMask _ hr]
    refine Bool.and_eq_left_iff_imp.mpr fun _ => decide_eq_true ?_
    have hlast : i / 32 = (b.bitCnt + 32 - 1) % 2 ^ 32 / 32 - 1 := hlast
    show b.bitCnt % 32 = 0 ∨ i % 32 < b.bitCnt % 32
    omega
  · rw [hword]

/-- What is read back is what was written, whatever it is read into. -/
lemma bits_load (hc : b.Clean) (hcnt : b'.bitCnt = b.bitCnt)
    (hbytes : ∀ n < 4 * elemCnt b.bitCnt, bytes[n]? = some (b.byte n)) {k : ℕ}
    (hk : k < elemCnt b.bitCnt) : (b'.load bytes).bits k = b.bits k := by
  have hword (k : ℕ) (hk : k < elemCnt b.bitCnt) : BitVec.ofNat 32
      (leWord fun j => (bytes[4 * k + j]?).getD (b'.byte (4 * k + j))) = b.bits k := by
    rw [← b.ofNat_leWord_byte k]
    refine congrArg _ (leWord_congr fun j hj => ?_)
    rw [hbytes _ (by omega)]
    rfl
  rw [load]
  simp only [setElem, update_apply, hcnt]
  split
  · rename_i hlast
    rwa [hword _ (by omega), hlast]
  · exact hword k hk

end

end Bitmap

end Pintos
