import Pintos.Lib.Strings

/-!
# Lib/Memmove — `memmove`

The regions may overlap, and the bytes are copied upwards or downwards, whichever way each of them is
read before it is overwritten. What is returned is the cursor `dst`, which is back where it started
only after the way down.
-/

namespace Pintos.Strings

open Machinery Function EStateM

def addressSpace : ℕ := 2 ^ 32

/-- `while (size-- > 0) *--dst = *--src`, and where `dst` is then. -/
def moveDown : ℕ → ℕ → ℕ → BufM ℕ
  | dst, _, 0 => return dst
  | dst, src, n + 1 => do
    poke addressSpace (dst - 1) (← peek addressSpace (src - 1))
    moveDown (dst - 1) (src - 1) n

/-- `memmove`, `none` if an assertion fails. Its loop upwards leaves `dst` behind the last byte. -/
def memmove (dst src size : ℕ) : BufM (Option ℕ) :=
  if (dst ≠ 0 ∨ size = 0) ∧ (src ≠ 0 ∨ size = 0) then
    if dst < src then do
      memcpy addressSpace dst src size
      return some ((dst + size) % addressSpace)
    else do
      return some (← moveDown (dst + size) (src + size) size)
  else return none

variable {m : ℕ → UInt8} {dst src size : ℕ}

/-- A copy downwards to the right reads what was there before. -/
lemma moveDown_run {n : ℕ} (hle : src ≤ dst) (hsize : dst + n ≤ addressSpace) :
    (moveDown (dst + n) (src + n) n).run m = .ok dst (overwrite m dst n fun i => m (src + i)) := by
  induction n generalizing m with
  | zero =>
    rw [overwrite_zero]
    rfl
  | succ n ih =>
    simp only [moveDown, ← Nat.add_assoc, Nat.add_sub_cancel, run_bind,
      peek_run m (show src + n < addressSpace by omega), poke_run m (show dst + n < addressSpace by omega),
      ih (by omega)]
    congr 1
    rw [← overwrite_append m dst n 1, overwrite_one,
      overwrite_congr fun i hi => update_of_ne (show src + i ≠ dst + n by omega) _ _]
    funext q
    obtain rfl | hq := eq_or_ne q (dst + n)
    · rw [overwrite_of_notMem (.inr le_rfl), update_self, update_self]
      rfl
    · rw [update_of_ne hq]
      by_cases hin : dst ≤ q ∧ q < dst + n
      · rw [overwrite_of_mem hin.1 hin.2, overwrite_of_mem hin.1 hin.2]
      · rw [overwrite_of_notMem (by omega), overwrite_of_notMem (by omega), update_of_ne hq]

/-- All bytes are moved, either way; but the pointer returned depends on the way. -/
lemma memmove_run (hnull : size = 0 ∨ dst ≠ 0 ∧ src ≠ 0) (hdst : dst + size ≤ addressSpace)
    (hsrc : src + size ≤ addressSpace) :
    (memmove dst src size).run m = .ok (some (if dst < src then (dst + size) % addressSpace else dst))
      (overwrite m dst size fun i => m (src + i)) := by
  rw [memmove, if_pos (by omega)]
  split_ifs with hlt
  · rw [run_bind, memcpy_run hlt.le hsrc]
    rfl
  · rw [run_bind, moveDown_run (Nat.not_lt.mp hlt) hdst]
    rfl

/-- `memmove` returns `dst`, where the bytes from `src` now are, and nothing else has changed. -/
def Moves (m : ℕ → UInt8) (dst src size : ℕ) : Prop :=
  Does (memmove dst src size) m fun p m' => p = some dst ∧
    (∀ i < size, m' (dst + i) = m (src + i)) ∧ ∀ a, a < dst ∨ dst + size ≤ a → m' a = m a

/-- **`memmove` moves, and returns `dst`**, just if `dst` is not below `src`, or there is nothing to
move. -/
theorem memmove_exact_iff (m : ℕ → UInt8) {dst src size : BitVec 32}
    (hdst : dst.toNat + size.toNat ≤ 2 ^ 32) (hsrc : src.toNat + size.toNat ≤ 2 ^ 32) :
    Moves m dst.toNat src.toNat size.toNat ↔ size.toNat = 0 ∨ 0 < src.toNat ∧ src.toNat ≤ dst.toNat := by
  have hspace : addressSpace = 2 ^ 32 := rfl
  by_cases hnull : size.toNat = 0 ∨ dst.toNat ≠ 0 ∧ src.toNat ≠ 0
  · have hrun := memmove_run (m := m) hnull (hspace ▸ hdst) (hspace ▸ hsrc)
    rw [hspace] at hrun
    constructor
    · intro h
      obtain ⟨hp, -⟩ := h.of_run hrun
      have hp := Option.some.inj hp
      split_ifs at hp with hway <;> omega
    · intro h
      refine ⟨_, _, hrun, ?_, fun i hi => ?_, fun a ha => overwrite_of_notMem ha⟩
      · congr 1
        split_ifs with hway <;> omega
      · rw [overwrite_of_mem (Nat.le_add_right _ _) (by omega), Nat.add_sub_cancel_left]
  · -- an assertion fails
    refine iff_of_false (fun h => ?_) (by omega)
    have hrun : (memmove dst.toNat src.toNat size.toNat).run m = .ok none m := by
      rw [memmove, if_neg (by omega)]
      rfl
    cases (h.of_run hrun).1

theorem memmove_exact_iff_apart : Moves (fun _ => 7) 2 1 1 :=
  (@memmove_exact_iff (fun _ => 7) 2 1 1 (by decide) (by decide)).mpr (by decide)

/-- One byte, from address 2 to address 1: what is returned is 2. -/
theorem memmove_returns_end : (1 + 1 ≤ 2 ^ 32 ∧ 2 + 1 ≤ 2 ^ 32) ∧
    (∃ m', (memmove 1 2 1).run (fun _ => 7) = .ok (some 2) m') ∧ ¬ Moves (fun _ => 7) 1 2 1 := by
  refine ⟨by decide, ⟨_, rfl⟩, fun h => ?_⟩
  cases (h.of_run rfl).1

end Pintos.Strings
