import Pintos.Machinery.Flags
import Pintos.Machinery.Stopping
import Pintos.Userprog.Pagedir

/-!
# Threads/Pte — page directory and page table entries, bit by bit

A virtual address is a directory index, a table index and an offset; an entry is the address of a
page and twelve flags. The functions are those of `pte.h` and `vaddr.h`, with their assertions;
`ofWord` reads an entry as the record that it packs.
-/

namespace Pintos

open Machinery BitVec

namespace Paging

/-- A word, or an address. -/
abbrev Word := BitVec 32

/-- Kernel memory, a word at each address. -/
abbrev Words := Word → Word

/-- A failing `ASSERT`. -/
inductive Halt where
  | assertion
  deriving DecidableEq, Repr

abbrev PagingM := EStateM Halt Words

/-- `ASSERT`. -/
def assert (c : Prop) [Decidable c] : PagingM Unit := require .assertion c

/-! ## Addresses -/

/-- `PHYS_BASE`. -/
def physBase : Word := 0xc0000000#32

/-- `PGMASK`. -/
def pgMask : Word := 0xfff#32

/-- `PTMASK`. -/
def ptMask : Word := 0x3ff000#32

/-- `pg_ofs`. -/
def pgOfs (va : Word) : Word := va &&& pgMask

/-- `pt_no`. -/
def ptNo (va : Word) : Word := (va &&& ptMask) >>> 12

/-- `pd_no`. -/
def pdNo (va : Word) : Word := va >>> 22

/-- `is_user_vaddr`. -/
def isUserVaddr (vaddr : Word) : Bool := vaddr.ult physBase

/-- `ptov`. -/
def ptov (paddr : Word) : PagingM Word := do
  assert (paddr.ult physBase)
  return paddr + physBase

/-- `vtop`. -/
def vtop (vaddr : Word) : PagingM Word := do
  assert (physBase.ule vaddr)
  return vaddr - physBase

/-! ## Entries -/

/-- `PTE_ADDR`. -/
def pteAddr : Word := 0xfffff000#32

/-- `PTE_P`. -/
def pteP : Word := 0x1#32

/-- `PTE_W`. -/
def pteW : Word := 0x2#32

/-- `PTE_U`. -/
def pteU : Word := 0x4#32

/-- `PTE_A`. -/
def pteA : Word := 0x20#32

/-- `PTE_D`. -/
def pteD : Word := 0x40#32

/-- `pde_create`. -/
def pdeCreate (pt : Word) : PagingM Word := do
  assert (pgOfs pt = 0)
  return (← vtop pt) ||| pteU ||| pteP ||| pteW

/-- `pde_get_pt`. -/
def pdeGetPt (pde : Word) : PagingM Word := do
  assert (pde &&& pteP ≠ 0)
  ptov (pde &&& pteAddr)

/-- `pte_create_kernel`. -/
def pteCreateKernel (page : Word) (writable : Bool) : PagingM Word := do
  assert (pgOfs page = 0)
  return (← vtop page) ||| pteP ||| (if writable then pteW else 0)

/-- `pte_create_user`. -/
def pteCreateUser (page : Word) (writable : Bool) : PagingM Word := do
  return (← pteCreateKernel page writable) ||| pteU

/-- `pte_get_page`. -/
def pteGetPage (pte : Word) : PagingM Word := ptov (pte &&& pteAddr)

/-! ## The digits of an address -/

lemma toNat_pgOfs (va : Word) : (pgOfs va).toNat = Pintos.pgOfs va.toNat := by
  exact Nat.and_two_pow_sub_one_eq_mod va.toNat 12

lemma toNat_pdNo (va : Word) : (pdNo va).toNat = Pintos.pdNo va.toNat := by
  rw [pdNo, toNat_ushiftRight, Nat.shiftRight_eq_div_pow, Pintos.pdNo]

lemma toNat_ptNo (va : Word) : (ptNo va).toNat = Pintos.ptNo va.toNat := by
  have hshift : ptNo va = va >>> 12 &&& 0x3ff#32 := by
    rw [ptNo, ushiftRight_and_distrib]
    rfl
  rw [hshift, toNat_and, toNat_ushiftRight, Nat.shiftRight_eq_div_pow]
  exact Nat.and_two_pow_sub_one_eq_mod _ 10

lemma isUserVaddr_iff {va : Word} : isUserVaddr va = true ↔ va.toNat < Pintos.physBase := by
  rw [isUserVaddr, ult_eq_decide, decide_eq_true_iff]
  rfl

/-! ## Pages -/

/-- A page of kernel memory. -/
structure IsPage (page : Word) : Prop where
  aligned : pgOfs page = 0
  kernel : Pintos.physBase ≤ page.toNat

/-- The number of the frame at a page of kernel memory… -/
def frameNo (page : Word) : ℕ := (page.toNat - Pintos.physBase) / 4096

/-- …and the page at a frame. -/
def frameAt (n : ℕ) : Word := BitVec.ofNat 32 (Pintos.physBase + 4096 * n)

section

variable {page : Word}

variable (h : IsPage page)

include h

lemma IsPage.dvd : 4096 ∣ page.toNat := by
  have hofs := toNat_pgOfs page
  rw [h.aligned] at hofs
  exact Nat.dvd_of_mod_eq_zero hofs.symm

lemma IsPage.toNat_sub : (page - physBase).toNat = page.toNat - Pintos.physBase :=
  toNat_sub_of_le (le_def.mpr h.kernel)

lemma IsPage.toNat_eq : page.toNat = Pintos.physBase + 4096 * frameNo page := by
  have hdvd := h.dvd
  have hkernel := h.kernel
  rw [frameNo, Pintos.physBase] at *
  omega

lemma IsPage.frameAt : frameAt (frameNo page) = page := by
  rw [Paging.frameAt, ← h.toNat_eq, ofNat_toNat, setWidth_eq]

lemma IsPage.frameNo_lt : frameNo page < 2 ^ 18 := by
  have heq := h.toNat_eq
  rw [Pintos.physBase] at heq
  omega

end

/-! ## Entries as records -/

/-- The record that an entry packs. -/
def ofWord (w : Word) : Pte :=
  ⟨(w >>> 12).toNat, w.getLsbD 0, w.getLsbD 1, w.getLsbD 5, w.getLsbD 6⟩

@[simp] lemma ofWord_zero : ofWord 0 = Pte.zero := rfl

lemma pteP_ne_zero {w : Word} : w &&& pteP ≠ 0 ↔ (ofWord w).present = true :=
  and_flag_ne_zero (k := 0) (by decide) w

lemma pteA_ne_zero {w : Word} : w &&& pteA ≠ 0 ↔ (ofWord w).accessed = true :=
  and_flag_ne_zero (k := 5) (by decide) w

lemma pteD_ne_zero {w : Word} : w &&& pteD ≠ 0 ↔ (ofWord w).dirty = true :=
  and_flag_ne_zero (k := 6) (by decide) w

lemma ofWord_or_flag {k : ℕ} (hk : k < 12) (w : Word) : ofWord (w ||| BitVec.twoPow 32 k) =
    ⟨(ofWord w).page, (ofWord w).present || decide (0 = k), (ofWord w).writable || decide (1 = k),
      (ofWord w).accessed || decide (5 = k), (ofWord w).dirty || decide (6 = k)⟩ := by
  have hk' : k < 32 := by omega
  simp only [ofWord, ushiftRight_or_flag hk, getLsbD_or_flag hk']

lemma ofWord_and_not_flag {k : ℕ} (hk : k < 12) (w : Word) : ofWord (w &&& ~~~BitVec.twoPow 32 k) =
    ⟨(ofWord w).page, (ofWord w).present && decide (0 ≠ k), (ofWord w).writable && decide (1 ≠ k),
      (ofWord w).accessed && decide (5 ≠ k), (ofWord w).dirty && decide (6 ≠ k)⟩ := by
  have hbit (i : ℕ) (hi : i < 32) : (w &&& ~~~twoPow 32 k).getLsbD i =
      (w.getLsbD i && decide (i ≠ k)) := getLsbD_and_not_flag hi w k
  rw [ofWord, ushiftRight_and_not_flag hk, hbit 0 (by omega), hbit 1 (by omega), hbit 5 (by omega),
    hbit 6 (by omega)]
  rfl

lemma ofWord_or_pteD (w : Word) : ofWord (w ||| pteD) = { ofWord w with dirty := true } := by
  refine (ofWord_or_flag (k := 6) (by omega) w).trans ?_
  simp

lemma ofWord_or_pteA (w : Word) : ofWord (w ||| pteA) = { ofWord w with accessed := true } := by
  refine (ofWord_or_flag (k := 5) (by omega) w).trans ?_
  simp

lemma ofWord_and_not_pteD (w : Word) :
    ofWord (w &&& ~~~pteD) = { ofWord w with dirty := false } := by
  refine (ofWord_and_not_flag (k := 6) (by omega) w).trans ?_
  simp

lemma ofWord_and_not_pteA (w : Word) :
    ofWord (w &&& ~~~pteA) = { ofWord w with accessed := false } := by
  refine (ofWord_and_not_flag (k := 5) (by omega) w).trans ?_
  simp

lemma ofWord_and_not_pteP (w : Word) :
    ofWord (w &&& ~~~pteP) = { ofWord w with present := false } := by
  refine (ofWord_and_not_flag (k := 0) (by omega) w).trans ?_
  simp

section

variable {page w : Word} {s : Words}

lemma IsPage.getLsbD_sub (h : IsPage page) {i : ℕ} (hi : i < 12) :
    (page - physBase).getLsbD i = false := by
  refine getLsbD_of_dvd ?_ hi
  rw [h.toNat_sub]
  exact Nat.dvd_sub h.dvd (by decide)

lemma and_pteAddr (w : Word) : w &&& pteAddr = BitVec.ofNat 32 (4096 * (ofWord w).page) := by
  have hmask (i : ℕ) : pgMask.getLsbD i = (decide (i < 32) && decide (i < 12)) := by
    rw [pgMask, getLsbD_ofNat, show (0xfff : ℕ) = 2 ^ 12 - 1 from rfl,
      Nat.testBit_two_pow_sub_one]
  have hshift : w &&& pteAddr = w >>> 12 <<< 12 := by
    refine eq_of_getLsbD_eq fun i hi => ?_
    rw [show pteAddr = ~~~pgMask from rfl, getLsbD_and, getLsbD_not, hmask,
      getLsbD_shiftLeft]
    obtain hlow | hhigh := Nat.lt_or_ge i 12
    · simp [hi, hlow]
    · simp [hi, Nat.not_lt.mpr hhigh, Nat.add_sub_cancel' hhigh]
  refine eq_of_toNat_eq ?_
  rw [hshift, toNat_shiftLeft, Nat.shiftLeft_eq, Nat.mul_comm]
  rfl

variable {Q : Word → Words → Prop}

/-- The page at an entry is that of its frame. -/
lemma does_ptov (w : Word) (hlt : (ofWord w).page < 3 * 2 ^ 18)
    (hQ : Q (frameAt (ofWord w).page) s) : Does (ptov (w &&& pteAddr)) s Q := by
  have hsmall : (BitVec.ofNat 32 (4096 * (ofWord w).page)).toNat < physBase.toNat := by
    rw [toNat_ofNat, show physBase.toNat = 4096 * (3 * 2 ^ 18) from rfl]
    omega
  simp only [ptov, assert, does_bind, does_require, does_pure]
  rw [and_pteAddr]
  refine ⟨?_, ?_⟩
  · exact decide_eq_true hsmall
  · rw [show BitVec.ofNat 32 (4096 * (ofWord w).page) + physBase = frameAt (ofWord w).page from ?_]
    · exact hQ
    · rw [frameAt, Nat.add_comm, ofNat_add]
      rfl

section

variable (h : IsPage page)

include h

lemma does_vtop (hQ : Q (page - physBase) s) : Does (vtop page) s Q := by
  have hkernel : physBase.ule page = true := by exact decide_eq_true h.kernel
  simp only [vtop, assert, does_bind, does_require, does_pure]
  exact ⟨hkernel, hQ⟩

lemma IsPage.ofWord_sub :
    ofWord (page - physBase) = ⟨frameNo page, false, false, false, false⟩ := by
  have hbit (i : ℕ) (hi : i < 12) : (page - physBase).getLsbD i = false := h.getLsbD_sub hi
  rw [ofWord, toNat_ushiftRight, h.toNat_sub, Nat.shiftRight_eq_div_pow, hbit 0 (by omega),
    hbit 1 (by omega), hbit 5 (by omega), hbit 6 (by omega)]
  rfl

lemma does_pteCreateUser (writable : Bool) : Does (pteCreateUser page writable) s fun w s' =>
      s' = s ∧ ofWord w = Pintos.pteCreateUser (frameNo page) writable := by
  simp only [pteCreateUser, pteCreateKernel, assert, does_bind, does_require, does_pure]
  refine ⟨h.aligned, does_vtop h ⟨rfl, ?_⟩⟩
  have hP : pteP = twoPow 32 0 := rfl
  have hW : pteW = twoPow 32 1 := rfl
  have hU : pteU = twoPow 32 2 := rfl
  cases writable
  · rw [if_neg Bool.false_ne_true, hP, hU, show (0 : Word) = 0#32 from rfl, or_zero,
      ofWord_or_flag (by omega), ofWord_or_flag (by omega), h.ofWord_sub]
    rfl
  · rw [if_pos rfl, hP, hW, hU, ofWord_or_flag (by omega), ofWord_or_flag (by omega),
      ofWord_or_flag (by omega), h.ofWord_sub]
    rfl

lemma does_pdeCreate :
    Does (pdeCreate page) s fun w s' => s' = s ∧ ofWord w = ⟨frameNo page, true, true, false, false⟩ := by
  simp only [pdeCreate, assert, does_bind, does_require, does_pure]
  refine ⟨h.aligned, does_vtop h ⟨rfl, ?_⟩⟩
  have hP : pteP = twoPow 32 0 := rfl
  have hW : pteW = twoPow 32 1 := rfl
  have hU : pteU = twoPow 32 2 := rfl
  rw [hP, hW, hU, ofWord_or_flag (by omega), ofWord_or_flag (by omega), ofWord_or_flag (by omega),
    h.ofWord_sub]
  rfl

end

/-- `pde_get_pt` gives the table back. -/
lemma does_pdeGetPt (hpresent : (ofWord w).present = true) (hlt : (ofWord w).page < 3 * 2 ^ 18)
    (hQ : Q (frameAt (ofWord w).page) s) : Does (pdeGetPt w) s Q := by
  simp only [pdeGetPt, assert, does_bind, does_require]
  exact ⟨pteP_ne_zero.mpr hpresent, does_ptov w hlt hQ⟩

end

end Paging

end Pintos
