import Mathlib.Algebra.Group.Nat.Defs
import Mathlib.Logic.Function.Basic

/-!
# Machinery/Stores — bytes stored to memory

Addresses have `w` bits and wrap around; a place is told by its offset from a base. A memory has a
log of the addresses that bytes have been stored to, so that a store is seen even where it leaves the
byte that was there.
-/

namespace Machinery

open List Nat

/-- The bytes, and the addresses that have been stored to, the last at the end. -/
@[ext] structure Memory (w : ℕ) where
  byte : BitVec w → UInt8
  log : List (BitVec w)

namespace Memory

variable {w : ℕ}

def store (m : Memory w) (a : BitVec w) (b : UInt8) : Memory w :=
  ⟨Function.update m.byte a b, m.log ++ [a]⟩

/-- Bytes are stored one behind the other, at offsets from `k` on. -/
def storeAll : Memory w → BitVec w → ℕ → List UInt8 → Memory w
  | m, _, _, [] => m
  | m, base, k, b :: l => (m.store (base + BitVec.ofNat w k) b).storeAll base (k + 1) l

/-- How far an address is behind a base. -/
def offset (base a : BitVec w) : ℕ := (a - base).toNat

/-- From `m` to `m'`, all stores are to a buffer of `n` bytes. -/
structure Within (m m' : Memory w) (base : BitVec w) (n : ℕ) : Prop where
  log : ∃ l, m'.log = m.log ++ l ∧ ∀ a ∈ l, offset base a < n
  byte : ∀ a, n ≤ offset base a → m'.byte a = m.byte a

section

variable {m m' : Memory w} {base a : BitVec w} {n n' k i : ℕ} {b : UInt8} {l : List UInt8}

lemma offset_add_ofNat (hk : k < 2 ^ w) : offset base (base + BitVec.ofNat w k) = k := by
  rw [offset, BitVec.add_comm, BitVec.add_sub_cancel, BitVec.toNat_ofNat, mod_eq_of_lt hk]

lemma ne_of_offset_ne (hk : k < 2 ^ w) (hne : offset base a ≠ k) : a ≠ base + BitVec.ofNat w k := by
  rintro rfl
  exact hne (offset_add_ofNat hk)

lemma storeAll_append (m : Memory w) (base : BitVec w) (k : ℕ) (l l' : List UInt8) :
    m.storeAll base k (l ++ l') = (m.storeAll base k l).storeAll base (k + l.length) l' := by
  induction l generalizing m k with
  | nil => rfl
  | cons b l ih =>
    rw [cons_append, storeAll, ih, storeAll, length_cons, add_assoc, add_comm 1]

lemma log_storeAll (m : Memory w) (base : BitVec w) (k : ℕ) (l : List UInt8) :
    (m.storeAll base k l).log =
      m.log ++ (List.range' k l.length).map fun i => base + BitVec.ofNat w i := by
  induction l generalizing m k with
  | nil => exact (append_nil _).symm
  | cons b l ih =>
    rw [storeAll, ih, length_cons, range'_succ, store, append_assoc]
    rfl

lemma byte_storeAll_of_notMem (hfits : k + l.length ≤ 2 ^ w)
    (hout : offset base a < k ∨ k + l.length ≤ offset base a) :
    (m.storeAll base k l).byte a = m.byte a := by
  induction l generalizing m k with
  | nil => rfl
  | cons b l ih =>
    rw [length_cons] at hfits hout
    have hne : offset base a ≠ k := by omega
    rw [storeAll, ih (by omega) (by omega)]
    exact Function.update_of_ne (ne_of_offset_ne (by omega) hne) b m.byte

lemma byte_storeAll (hfits : k + l.length ≤ 2 ^ w) (hb : l[i]? = some b) :
    (m.storeAll base k l).byte (base + BitVec.ofNat w (k + i)) = b := by
  induction l generalizing m k i with
  | nil => cases hb
  | cons b' l ih =>
    rw [length_cons] at hfits
    cases i with
    | zero =>
      cases hb
      have hoff : offset base (base + BitVec.ofNat w (k + 0)) = k := offset_add_ofNat (by omega)
      rw [storeAll, byte_storeAll_of_notMem (by omega) (by omega)]
      exact Function.update_self _ b m.byte
    | succ i =>
      rw [add_comm i, ← add_assoc]
      exact ih (by omega) hb

lemma within_storeAll (m : Memory w) (base : BitVec w) (hfits : l.length ≤ 2 ^ w) :
    m.Within (m.storeAll base 0 l) base l.length := by
  refine ⟨⟨_, log_storeAll m base 0 l, fun a ha => ?_⟩, fun a ha => ?_⟩
  · obtain ⟨i, hi, rfl⟩ := List.mem_map.mp ha
    have hlt : i < l.length := by
      obtain ⟨j, hj, rfl⟩ := mem_range'.mp hi
      omega
    rwa [offset_add_ofNat (by omega)]
  · exact byte_storeAll_of_notMem (by omega) (.inr (by omega))

lemma Within.refl (m : Memory w) (base : BitVec w) (n : ℕ) : m.Within m base n :=
  ⟨⟨[], (append_nil _).symm, fun _ ha => absurd ha not_mem_nil⟩, fun _ _ => rfl⟩

lemma Within.mono (h : m.Within m' base n) (hle : n ≤ n') : m.Within m' base n' := by
  obtain ⟨⟨l, hl, hin⟩, hbyte⟩ := h
  exact ⟨⟨l, hl, fun a ha => Nat.lt_of_lt_of_le (hin a ha) hle⟩,
    fun a ha => hbyte a (Nat.le_trans hle ha)⟩

end

end Memory

end Machinery
