import Pintos.Devices.Block
import Pintos.Threads.Vaddr
import Mathlib.Data.List.FinRange
import Mathlib.Data.List.Find
import Mathlib.Data.List.Induction

/-!
# Vm/Swap — the swap table and the block device under it

A slot is free when its `tid` is zero, and slot `i` owns the sectors `8 * i … 8 * i + 7`.
-/

namespace Pintos

open Function List

def sectorsPerPage : ℕ := pgSize / blockSectorSize

/-- `struct Swap_entry`. -/
structure SwapEntry where
  tid : ℕ
  vaddr : ℕ
  deriving DecidableEq, Repr

/-- The swap table, `entries` slots long, and the device. -/
structure Swap where
  entries : ℕ
  table : ℕ → SwapEntry
  block : ℕ → Sector

/-- The `i`-th sector's worth of a page. -/
def pageSector (p : Page) (i : Fin sectorsPerPage) : Sector := fun b =>
  p ⟨blockSectorSize * i + b, by
    have hi : (i : ℕ) < 8 := i.isLt
    have hb : (b : ℕ) < 512 := b.isLt
    show 512 * (i : ℕ) + b < 4096
    omega⟩

namespace Swap

/-- The search of `add_swap_entry`: the first slot whose `tid` is zero. -/
def freeSlot (w : Swap) : Option ℕ :=
  (List.range w.entries).find? fun i => decide ((w.table i).tid = 0)

/-- A slot is taken: `swap_table[i]` names the owner. -/
def claim (w : Swap) (i tid vaddr : ℕ) : Swap :=
  { w with table := update w.table i ⟨tid, vaddr⟩ }

/-- `add_swap_entry_helper`: a `block_write` for each sector of the page. -/
def store (w : Swap) (offset : ℕ) (p : Page) : Swap :=
  { w with
    block := (List.finRange sectorsPerPage).foldl
      (fun block (i : Fin sectorsPerPage) =>
        update block (offset * sectorsPerPage + i) (pageSector p i)) w.block }

/-- The `block_read`s of `remove_swap_entry`, put together. -/
def fetch (w : Swap) (index : ℕ) : Page := fun b =>
  w.block (index * sectorsPerPage + b / blockSectorSize) ⟨b % blockSectorSize, Nat.mod_lt _ (by decide)⟩

/-- The slot is free again. -/
def release (w : Swap) (index : ℕ) : Swap :=
  { w with table := update w.table index ⟨0, 0⟩ }

/-! ## Slots -/

lemma freeSlot_eq_some {w : Swap} {i : ℕ} (h : w.freeSlot = some i) :
    i < w.entries ∧ (w.table i).tid = 0 :=
  ⟨List.mem_range.mp (List.mem_of_find?_eq_some h), by simpa using List.find?_some h⟩

section

variable (w : Swap)

include w

@[simp] lemma claim_table (i tid vaddr j : ℕ) :
    (w.claim i tid vaddr).table j = if j = i then ⟨tid, vaddr⟩ else w.table j := by
  simp [claim, update_apply]

@[simp] lemma store_table (i : ℕ) (p : Page) : (w.store i p).table = w.table := rfl

end

/-! ## The round trip -/

lemma foldl_update_mem {ι β : Type} {at' : ι → ℕ} (hinj : Function.Injective at') (val : ι → β)
    (l : List ι) (block : ℕ → β) {i : ι} (hi : i ∈ l) :
    l.foldl (fun block i => update block (at' i) (val i)) block (at' i) = val i := by
  induction l using reverseRecOn with
  | nil => cases hi
  | append_singleton l j ih =>
    rw [foldl_append, foldl_cons, foldl_nil]
    by_cases hij : i = j
    · rw [hij, update_self]
    · rw [update_of_ne (hinj.ne hij)]
      exact ih ((mem_append.mp hi).resolve_right (by simpa using hij))

lemma foldl_update_notMem {ι β : Type} (at' : ι → ℕ) (val : ι → β) (l : List ι) (block : ℕ → β)
    {n : ℕ} (hn : ∀ i ∈ l, n ≠ at' i) :
    l.foldl (fun block i => update block (at' i) (val i)) block n = block n := by
  induction l using reverseRecOn with
  | nil => rfl
  | append_singleton l j ih =>
    rw [foldl_append, foldl_cons, foldl_nil, update_of_ne (hn j (by simp))]
    exact ih fun i hi => hn i (by simp [hi])

/-- The round trip of a slot. -/
@[simp] lemma fetch_store (w : Swap) (i : ℕ) (p : Page) : (w.store i p).fetch i = p := by
  funext b
  have hb : b.val < 4096 := b.isLt
  have hq : b.val / blockSectorSize < sectorsPerPage := by
    show b.val / 512 < 8
    omega
  have hinj : Function.Injective fun k : Fin sectorsPerPage => i * sectorsPerPage + k :=
    fun a c h => Fin.ext (Nat.add_left_cancel h)
  have hsector := foldl_update_mem hinj (pageSector p) (finRange sectorsPerPage) w.block
    (i := ⟨b.val / blockSectorSize, hq⟩) (mem_finRange _)
  refine (congrFun hsector _).trans (congrArg p (Fin.ext ?_))
  exact Nat.div_add_mod b.val blockSectorSize

lemma fetch_store_ne (w : Swap) {i j : ℕ} (h : j ≠ i) (p : Page) :
    (w.store i p).fetch j = w.fetch j := by
  funext b
  have hb : b.val < 4096 := b.isLt
  refine congrFun (foldl_update_notMem _ _ _ w.block fun k _ => ?_) _
  have hk : (k : ℕ) < 8 := k.isLt
  show j * 8 + b.val / 512 ≠ i * 8 + (k : ℕ)
  omega

end Swap

end Pintos
