import Mathlib.Data.Nat.Digits.Lemmas

/-!
# Machinery/Numerals — numbers written with a given number of digits

`numeral b w n` is `n` in base `b` with zeros before it until there are `w` digits, and
`reading b a ds` what one has after reading the digits `ds` when one had `a` before.
-/

namespace Machinery

open List Nat

/-- What has been read after the digits `ds`, with `a` read before. -/
def reading (b a : ℕ) (ds : List ℕ) : ℕ := ds.foldl (fun a d => a * b + d) a

@[simp] lemma reading_cons (b a d : ℕ) (ds : List ℕ) :
    reading b a (d :: ds) = reading b (a * b + d) ds := rfl

lemma reading_append (b a : ℕ) (ds es : List ℕ) :
    reading b a (ds ++ es) = reading b (reading b a ds) es :=
  List.foldl_append

lemma le_reading {b : ℕ} (hb : 0 < b) (a : ℕ) (ds : List ℕ) : a ≤ reading b a ds := by
  induction ds generalizing a with
  | nil => exact le_rfl
  | cons d ds ih =>
    calc a ≤ a * b := Nat.le_mul_of_pos_right a hb
      _ ≤ a * b + d := Nat.le_add_right _ _
      _ ≤ reading b (a * b + d) ds := ih _

lemma reading_replicate_zero (b k : ℕ) : reading b 0 (List.replicate k 0) = 0 := by
  induction k with
  | zero => rfl
  | succ k ih => rw [replicate_succ, reading_cons, zero_mul, ih]

lemma reading_reverse (b : ℕ) (ds : List ℕ) : reading b 0 ds.reverse = Nat.ofDigits b ds := by
  rw [reading, foldl_reverse, ofDigits_eq_foldr]
  congr 1
  funext d a
  rw [cast_id, mul_comm, add_comm]

/-- `n` in base `b`, with zeros before it until there are `w` digits. -/
def numeral (b w n : ℕ) : List ℕ :=
  List.replicate (w - (Nat.digits b n).length) 0 ++ (Nat.digits b n).reverse

section

variable {b w n : ℕ}

lemma length_numeral (hb : 1 < b) (h : n < b ^ w) : (numeral b w n).length = w := by
  have hle : (digits b n).length ≤ w := (digits_length_le_iff hb n).mpr h
  rw [numeral, length_append, length_replicate, length_reverse]
  omega

lemma lt_of_mem_numeral (hb : 1 < b) {d : ℕ} (h : d ∈ numeral b w n) : d < b := by
  obtain h | h := mem_append.mp h
  · rw [eq_of_mem_replicate h]
    omega
  · exact digits_lt_base hb (mem_reverse.mp h)

lemma reading_numeral (b w n : ℕ) : reading b 0 (numeral b w n) = n := by
  rw [numeral, reading_append, reading_replicate_zero, reading_reverse, ofDigits_digits]

end

end Machinery
