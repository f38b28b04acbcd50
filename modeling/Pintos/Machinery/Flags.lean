import Mathlib.Algebra.Group.Nat.Defs
import Mathlib.Logic.Basic

/-!
# Machinery/Flags — words with flags in their low bits

The flags are in the bits below some `m`, an address above them. A flag is the word
`BitVec.twoPow n k`; setting it and clearing it changes that bit only.
-/

namespace Machinery

open BitVec

variable {n m i k : ℕ}

lemma getLsbD_or_flag (hk : k < n) (w : BitVec n) (i : ℕ) :
    (w ||| BitVec.twoPow n k).getLsbD i = (w.getLsbD i || decide (i = k)) := by
  rw [getLsbD_or, getLsbD_twoPow, decide_eq_true hk, Bool.true_and]
  simp only [eq_comm]

lemma getLsbD_and_not_flag (hi : i < n) (w : BitVec n) (k : ℕ) :
    (w &&& ~~~BitVec.twoPow n k).getLsbD i = (w.getLsbD i && decide (i ≠ k)) := by
  rw [getLsbD_and, getLsbD_not, decide_eq_true hi]
  obtain rfl | hik := eq_or_ne i k
  · simp [hi]
  · simp [hik, Ne.symm hik]

lemma and_flag_ne_zero (hk : k < n) (w : BitVec n) :
    w &&& BitVec.twoPow n k ≠ 0#n ↔ w.getLsbD k = true := by
  constructor
  · refine fun h => Decidable.byContradiction fun hbit => h ?_
    rw [and_twoPow, if_neg hbit]
  · intro hbit h
    have hzero := congrArg (BitVec.getLsbD · k) h
    simp only [getLsbD_and, getLsbD_twoPow, hbit, decide_eq_true hk] at hzero
    simp at hzero

/-! ## What is above the flags -/

lemma ushiftRight_or_flag (hk : k < m) (w : BitVec n) :
    (w ||| BitVec.twoPow n k) >>> m = w >>> m := by
  refine eq_of_getLsbD_eq fun i _ => ?_
  have hne : k ≠ m + i := by omega
  rw [getLsbD_ushiftRight, getLsbD_or, getLsbD_twoPow, getLsbD_ushiftRight,
    decide_eq_false hne, Bool.and_false, Bool.or_false]

lemma ushiftRight_and_not_flag (hk : k < m) (w : BitVec n) :
    (w &&& ~~~BitVec.twoPow n k) >>> m = w >>> m := by
  refine eq_of_getLsbD_eq fun i _ => ?_
  rw [getLsbD_ushiftRight, getLsbD_ushiftRight]
  obtain hi | hi := Nat.lt_or_ge (m + i) n
  · have hne : m + i ≠ k := by omega
    rw [getLsbD_and_not_flag hi, decide_eq_true hne, Bool.and_true]
  · rw [getLsbD_of_ge _ _ hi, getLsbD_of_ge _ _ hi]

lemma getLsbD_of_dvd {w : BitVec n} (h : 2 ^ m ∣ w.toNat) (hi : i < m) : w.getLsbD i = false := by
  obtain ⟨q, hq⟩ := h
  have hlow : ¬ m ≤ i := by omega
  rw [BitVec.getLsbD, hq, Nat.testBit_two_pow_mul, decide_eq_false hlow, Bool.false_and]

end Machinery
