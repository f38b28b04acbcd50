import Mathlib.Data.List.GetD
import Mathlib.Data.List.TakeWhile
import Pintos.Machinery.Overwrite

/-!
# Lib/Text — strings, and strings in memory

A string is a list of bytes without the null character, which lies behind it in memory; `strlcpy`
puts as much of it there as there is room, and always the null character.
-/

namespace Pintos

/-- A string: bytes other than the null character. -/
structure CString where
  bytes : List UInt8
  noNul : (0 : UInt8) ∉ bytes
  deriving DecidableEq

namespace Text

open Machinery List

/-- The byte for a character of the source. -/
def ascii (c : Char) : UInt8 := c.toNat.toUInt8

/-- `m` with the bytes `l` from `p` on. -/
def store (m : ℕ → UInt8) (p : ℕ) (l : List UInt8) : ℕ → UInt8 :=
  overwrite m p l.length fun i => l.getD i 0

section

variable {m : ℕ → UInt8} {p n : ℕ} {l : List UInt8}

lemma store_of_lt (h : n < p) : store m p l n = m n := overwrite_of_notMem (.inl h)

lemma store_of_ge (h : p + l.length ≤ n) : store m p l n = m n := overwrite_of_notMem (.inr h)

lemma store_add {i : ℕ} (h : i < l.length) : store m p l (p + i) = l.get ⟨i, h⟩ := by
  rw [store, overwrite_of_mem (Nat.le_add_right p i) (by omega), Nat.add_sub_cancel_left]
  exact getD_eq_getElem l 0 h

end

/-- `text`, cut to leave room for a null character in `size` bytes, and the null character. -/
def terminated (text : List UInt8) (size : ℕ) : List UInt8 :=
  if 0 < size then text.take (size - 1) ++ [0] else []

lemma length_terminated_le (text : List UInt8) (size : ℕ) :
    (terminated text size).length ≤ size := by
  unfold terminated
  split
  · rw [length_append, length_take, length_singleton]
    omega
  · exact Nat.zero_le _

lemma terminated_of_lt {text : List UInt8} {size : ℕ} (h : text.length < size) :
    terminated text size = text ++ [0] := by
  rw [terminated, if_pos (Nat.zero_lt_of_lt h), take_of_length_le (Nat.le_sub_one_of_lt h)]

/-- `strlcpy`. -/
def strlcpy (m : ℕ → UInt8) (dst : ℕ) (src : List UInt8) (size : ℕ) : ℕ → UInt8 :=
  store m dst (terminated src size)

/-- The string at `p`, of which no more than `room` bytes are looked at. -/
def strAt (m : ℕ → UInt8) (p room : ℕ) : List UInt8 :=
  ((List.range room).map fun i => m (p + i)).takeWhile (· ≠ 0)

/-- A string that lies in memory is found there. -/
lemma strAt_eq {m : ℕ → UInt8} {p room : ℕ} {text : List UInt8} (hnul : (0 : UInt8) ∉ text)
    (hroom : text.length < room) (htext : ∀ i (h : i < text.length), m (p + i) = text.get ⟨i, h⟩)
    (hend : m (p + text.length) = 0) : strAt m p room = text := by
  have hsplit : room = text.length + ((room - text.length - 1) + 1) := by omega
  have hfst : (List.range text.length).map (fun i => m (p + i)) = text := by
    apply ext_getElem
    · rw [length_map, length_range]
    · intro i hi hi'
      rw [getElem_map, getElem_range]
      exact htext i hi'
  rw [strAt, hsplit, range_add, map_append, hfst, range_succ_eq_map]
  have hpos : ∀ b ∈ text, decide (b ≠ 0) = true := fun b hb =>
    decide_eq_true (ne_of_mem_of_not_mem hb hnul)
  rw [takeWhile_append_of_pos hpos, map_cons, map_cons, Nat.add_zero, hend,
    takeWhile_cons_of_neg (by decide),
    append_nil]

end Text

end Pintos
