import Mathlib.Algebra.Group.Nat.Defs

/-!
# Machinery/LittleEndian — 32-bit words as four bytes
-/

namespace Machinery

/-- Byte `j` of a word. -/
def leByte (w j : ℕ) : UInt8 := .ofNat (w / 256 ^ j)

/-- The word whose bytes are the first four. -/
def leWord (b : ℕ → UInt8) : ℕ :=
  (b 0).toNat + 2 ^ 8 * (b 1).toNat + 2 ^ 16 * (b 2).toNat + 2 ^ 24 * (b 3).toNat

lemma leWord_lt (b : ℕ → UInt8) : leWord b < 2 ^ 32 := by
  have h0 := (b 0).toNat_lt
  have h1 := (b 1).toNat_lt
  have h2 := (b 2).toNat_lt
  have h3 := (b 3).toNat_lt
  rw [leWord]
  omega

lemma leWord_leByte {w : ℕ} (h : w < 2 ^ 32) : leWord (leByte w) = w := by
  simp only [leWord, leByte, UInt8.toNat_ofNat', Nat.reducePow]
  omega

lemma leWord_congr {b b' : ℕ → UInt8} (h : ∀ j < 4, b j = b' j) : leWord b = leWord b' := by
  rw [leWord, leWord, h 0 (by decide), h 1 (by decide), h 2 (by decide), h 3 (by decide)]

end Machinery
