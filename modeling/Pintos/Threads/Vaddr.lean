import Mathlib.Algebra.Group.Int.Defs
import Mathlib.Algebra.Group.Nat.Defs
import Mathlib.Order.Basic

/-!
# Threads/Vaddr — virtual addresses and their page, directory and table numbers

Addresses are natural numbers below `2 ^ 32`; `pdNo` and `ptNo` are the two digits of the page
number.
-/

namespace Pintos

/-- `PGSIZE`, the bytes in a page. -/
def pgSize : ℕ := 4096

/-- `PHYS_BASE`: user addresses end here, the kernel's begin. -/
def physBase : ℕ := 0xc0000000

abbrev null : ℕ := 0

/-- `pg_ofs`. -/
def pgOfs (va : ℕ) : ℕ := va % pgSize

/-- `pg_no`. -/
def pgNo (va : ℕ) : ℕ := va / pgSize

/-- `pg_round_down`. -/
def pgRoundDown (va : ℕ) : ℕ := va - pgOfs va

/-- `is_user_vaddr`. -/
def isUserVaddr (va : ℕ) : Bool := decide (va < physBase)

/-- Page directory index (bits 22:31). -/
def pdNo (va : ℕ) : ℕ := va / 2 ^ 22

/-- Page table index (bits 12:21). -/
def ptNo (va : ℕ) : ℕ := va / 2 ^ 12 % 2 ^ 10

lemma pdNo_eq (va : ℕ) : pdNo va = pgNo va / 1024 := by
  unfold pdNo pgNo pgSize
  omega

lemma ptNo_eq (va : ℕ) : ptNo va = pgNo va % 1024 := rfl

@[simp] lemma pgNo_pgRoundDown (va : ℕ) : pgNo (pgRoundDown va) = pgNo va := by
  unfold pgNo pgRoundDown pgOfs pgSize
  omega

lemma pgRoundDown_add_pgOfs (va : ℕ) : pgRoundDown va + pgOfs va = va := by
  unfold pgRoundDown pgOfs pgSize
  omega

lemma pgOfs_lt (va : ℕ) : pgOfs va < pgSize := Nat.mod_lt _ (Nat.succ_pos _)

lemma pgOfs_add {page n : ℕ} (hpage : pgOfs page = 0) (hn : n < pgSize) : pgOfs (page + n) = n := by
  unfold pgOfs pgSize at *
  omega

lemma pgRoundDown_add {page n : ℕ} (hpage : pgOfs page = 0) (hn : n < pgSize) :
    pgRoundDown (page + n) = page := by
  rw [pgRoundDown, pgOfs_add hpage hn, Nat.add_sub_cancel]

lemma pgNo_eq_iff {va : ℕ} {n : ℕ} : n = pgNo va ↔ n / 1024 = pdNo va ∧ n % 1024 = ptNo va := by
  rw [pdNo_eq, ptNo_eq]
  omega

/-- An integer wrapped to 32 bits and read as a signed word. -/
def toInt32 (w : ℤ) : ℤ := if w % 2 ^ 32 < 2 ^ 31 then w % 2 ^ 32 else w % 2 ^ 32 - 2 ^ 32

/-- The bytes of one page. -/
abbrev Page := Fin pgSize → UInt8

end Pintos
