import Pintos.Threads.Pte
import Mathlib.Algebra.GroupWithZero.Nat
import Mathlib.Data.List.Iterate
import Mathlib.Algebra.BigOperators.Group.List.Basic

/-!
# Userprog/Segment — which pages a program header asks for

A loadable segment is `p_filesz` bytes of the file and zeros up to `p_memsz`. `load` rounds it out
to whole pages, and `load_segment` asks for an SPT entry for each. `validate_segment` keeps the
32-bit words from wrapping around. Nothing bounds the file offset, an `off_t`.
-/

namespace Pintos

open Paging (Word pgMask)

/-- `pg_round_up`. -/
def pgRoundUp (va : ℕ) : ℕ := (va + pgSize - 1) / pgSize * pgSize

namespace Elf

/-- `PGSIZE`. -/
def pageSize : Word := 4096#32

/-- `ROUND_UP`. -/
def roundUp (x step : Word) : Word := (x + step - 1#32) / step * step

/-- `struct Elf32_Phdr`, what `load` reads of it. -/
structure Phdr where
  pType : Word
  pOffset : Word
  pVaddr : Word
  pFilesz : Word
  pMemsz : Word
  pFlags : Word
  deriving DecidableEq, Repr

/-- `validate_segment`, in a file of `fileLength` bytes. -/
def validateSegment (phdr : Phdr) (fileLength : ℤ) : Bool :=
  if phdr.pOffset &&& pgMask ≠ phdr.pVaddr &&& pgMask then false
  else if BitVec.ofInt 32 fileLength < phdr.pOffset then false
  else if phdr.pMemsz < phdr.pFilesz then false
  else if phdr.pMemsz = 0#32 then false
  else if !Paging.isUserVaddr phdr.pVaddr then false
  else if !Paging.isUserVaddr (phdr.pVaddr + phdr.pMemsz) then false
  else if phdr.pVaddr + phdr.pMemsz < phdr.pVaddr then false
  -- page 0 is not for mapping
  else if phdr.pVaddr < pageSize then false
  else true

namespace Phdr

/-- `file_page`. -/
def filePage (phdr : Phdr) : Word := phdr.pOffset &&& ~~~pgMask

/-- `mem_page`. -/
def memPage (phdr : Phdr) : Word := phdr.pVaddr &&& ~~~pgMask

/-- `page_offset`. -/
def pageOffset (phdr : Phdr) : Word := phdr.pVaddr &&& pgMask

/-- `read_bytes`. -/
def readBytes (phdr : Phdr) : Word :=
  if 0#32 < phdr.pFilesz then phdr.pageOffset + phdr.pFilesz else 0#32

/-- `zero_bytes`. -/
def zeroBytes (phdr : Phdr) : Word :=
  if 0#32 < phdr.pFilesz then roundUp (phdr.pageOffset + phdr.pMemsz) pageSize - phdr.readBytes
  else roundUp (phdr.pageOffset + phdr.pMemsz) pageSize

end Phdr

/-- The variables of `load_segment`: what is left to do. The offset is an `off_t`, so its value is
`ofs.toInt`. -/
structure Cursor where
  ofs : Word
  upage : Word
  readBytes : Word
  zeroBytes : Word
  deriving DecidableEq, Repr

/-- Where `load` starts `load_segment`. -/
def Phdr.cursor (phdr : Phdr) : Cursor :=
  ⟨phdr.filePage, phdr.memPage, phdr.readBytes, phdr.zeroBytes⟩

namespace Cursor

/-- `page_read_bytes`. -/
def pageReadBytes (c : Cursor) : Word := if c.readBytes < pageSize then c.readBytes else pageSize

/-- `page_zero_bytes`. -/
def pageZeroBytes (c : Cursor) : Word := pageSize - c.pageReadBytes

def advance (c : Cursor) : Cursor :=
  ⟨c.ofs + pageSize, c.upage + pageSize, c.readBytes - c.pageReadBytes, c.zeroBytes - c.pageZeroBytes⟩

end Cursor

/-- How `load_segment` fails to return. -/
inductive Stuck where
  | assertion
  | fuel
  deriving DecidableEq, Repr

/-- The loop of `load_segment`: the cursor at each turn, where it calls `create_SPT_entry`. -/
def loadSegmentLoop : ℕ → Cursor → Except Stuck (List Cursor)
  | 0, _ => .error .fuel
  | fuel + 1, c =>
    if 0#32 < c.readBytes ∨ 0#32 < c.zeroBytes then (loadSegmentLoop fuel c.advance).map (c :: ·)
    else .ok []

/-- `load_segment`, with its assertions; it allows for `fuel` turns. -/
def loadSegment (fuel : ℕ) (c : Cursor) : Except Stuck (List Cursor) :=
  if (c.readBytes + c.zeroBytes) % pageSize ≠ 0#32 then .error .assertion
  else if Paging.pgOfs c.upage ≠ 0#32 then .error .assertion
  else if c.ofs.srem pageSize ≠ 0#32 then .error .assertion
  else loadSegmentLoop fuel c

/-! ## The words as numbers -/

lemma word_pos {w : Word} : 0#32 < w ↔ 0 < w.toNat := BitVec.lt_def

lemma toNat_pgRoundDown (w : Word) : (w &&& ~~~pgMask).toNat = pgRoundDown w.toNat := by
  have hpage : (Paging.ofWord w).page = w.toNat / 4096 := by
    show (w >>> 12).toNat = _
    rw [BitVec.toNat_ushiftRight, Nat.shiftRight_eq_div_pow]
  rw [show ~~~pgMask = Paging.pteAddr from rfl, Paging.and_pteAddr, BitVec.toNat_ofNat,
    pgRoundDown, pgOfs, pgSize]
  omega

lemma toNat_roundUp {x : Word} (h : x.toNat + 4095 < 2 ^ 32) :
    (roundUp x pageSize).toNat = pgRoundUp x.toNat := by
  have hsum : (x + pageSize - 1#32).toNat = x.toNat + 4095 := by
    rw [pageSize]
    bv_omega
  rw [roundUp, BitVec.toNat_mul, BitVec.toNat_udiv, show pageSize.toNat = 4096 from rfl, pgRoundUp,
    pgSize]
  omega

/-- What `validate_segment` has checked, in numbers. -/
structure Accepted (phdr : Phdr) : Prop where
  offset : pgOfs phdr.pOffset.toNat = pgOfs phdr.pVaddr.toNat
  filesz : phdr.pFilesz.toNat ≤ phdr.pMemsz.toNat
  memsz : 0 < phdr.pMemsz.toNat
  user : phdr.pVaddr.toNat + phdr.pMemsz.toNat < physBase
  notZero : pgSize ≤ phdr.pVaddr.toNat

lemma accepted_of_validateSegment {phdr : Phdr} {fileLength : ℤ}
    (h : validateSegment phdr fileLength = true) : Accepted phdr := by
  rw [validateSegment] at h
  split_ifs at h with hofs _ hsz hmem huser hend hwrap hzero
  rw [not_not] at hofs
  rw [Bool.not_eq_true, Bool.not_eq_false', Paging.isUserVaddr_iff] at huser hend
  rw [BitVec.lt_def, Nat.not_lt] at hsz hwrap hzero
  rw [BitVec.toNat_add] at hend hwrap
  refine ⟨?_, hsz, ?_, ?_, hzero⟩
  · have hnat := congrArg BitVec.toNat hofs
    rwa [← Paging.pgOfs, ← Paging.pgOfs, Paging.toNat_pgOfs, Paging.toNat_pgOfs] at hnat
  · exact Nat.pos_of_ne_zero fun hz => hmem (BitVec.eq_of_toNat_eq hz)
  · -- a sum that wraps around is below its first summand
    omega

/-- The bytes of the pages of a segment… -/
def Phdr.extent (phdr : Phdr) : ℕ :=
  pgRoundUp (phdr.pVaddr.toNat + phdr.pMemsz.toNat) - pgRoundDown phdr.pVaddr.toNat

/-- …and their number. -/
def Phdr.pageCount (phdr : Phdr) : ℕ := phdr.extent / pgSize

lemma Phdr.extent_eq (phdr : Phdr) : phdr.extent = pgSize * phdr.pageCount := by
  simp only [pageCount, extent, pgRoundUp, pgRoundDown, pgOfs, pgSize]
  omega

lemma Phdr.pgRoundUp_pageOffset (phdr : Phdr) :
    pgRoundUp (phdr.pageOffset.toNat + phdr.pMemsz.toNat) = phdr.extent := by
  rw [show phdr.pageOffset.toNat = pgOfs phdr.pVaddr.toNat from Paging.toNat_pgOfs _]
  simp only [extent, pgRoundUp, pgRoundDown, pgOfs, pgSize]
  omega

namespace Accepted

variable {phdr : Phdr}

variable (h : Accepted phdr)

include h

lemma pageCount_pos : 0 < phdr.pageCount := by
  have hmem := h.memsz
  simp only [Phdr.pageCount, Phdr.extent, pgRoundUp, pgRoundDown, pgOfs, pgSize]
  omega

lemma extent_le : pgRoundDown phdr.pVaddr.toNat + phdr.extent ≤ physBase := by
  have huser := h.user
  simp only [Phdr.extent, pgRoundUp, pgRoundDown, pgOfs, pgSize, physBase] at huser ⊢
  omega

lemma toNat_readBytes : phdr.readBytes.toNat =
    if 0 < phdr.pFilesz.toNat then pgOfs phdr.pVaddr.toNat + phdr.pFilesz.toNat else 0 := by
  have hofs : phdr.pageOffset.toNat = pgOfs phdr.pVaddr.toNat := Paging.toNat_pgOfs _
  have hle : pgOfs phdr.pVaddr.toNat ≤ phdr.pVaddr.toNat := Nat.mod_le _ _
  have hsz := h.filesz
  have huser := h.user
  rw [physBase] at huser
  have hmod : (pgOfs phdr.pVaddr.toNat + phdr.pFilesz.toNat) % 2 ^ 32 =
      pgOfs phdr.pVaddr.toNat + phdr.pFilesz.toNat := Nat.mod_eq_of_lt (by omega)
  simp only [Phdr.readBytes, apply_ite BitVec.toNat, BitVec.toNat_add, hofs, word_pos, hmod,
    BitVec.toNat_ofNat, Nat.zero_mod]

lemma toNat_zeroBytes : phdr.readBytes.toNat + phdr.zeroBytes.toNat = phdr.extent := by
  have hofs : phdr.pageOffset.toNat = pgOfs phdr.pVaddr.toNat := Paging.toNat_pgOfs _
  have hle : pgOfs phdr.pVaddr.toNat ≤ phdr.pVaddr.toNat := Nat.mod_le _ _
  have hsz := h.filesz
  have huser := h.user
  have hread := h.toNat_readBytes
  rw [physBase] at huser
  have hsum : (phdr.pageOffset + phdr.pMemsz).toNat = phdr.pageOffset.toNat + phdr.pMemsz.toNat := by
    rw [BitVec.toNat_add]
    omega
  have hround : (roundUp (phdr.pageOffset + phdr.pMemsz) pageSize).toNat = phdr.extent := by
    rw [toNat_roundUp (by omega), hsum, phdr.pgRoundUp_pageOffset]
  have hcover : pgOfs phdr.pVaddr.toNat + phdr.pMemsz.toNat ≤ phdr.extent := by
    rw [← phdr.pgRoundUp_pageOffset, pgRoundUp, pgSize]
    omega
  rw [Phdr.zeroBytes]
  by_cases hpos : 0 < phdr.pFilesz.toNat
  · rw [if_pos hpos] at hread
    have hle : phdr.readBytes ≤ roundUp (phdr.pageOffset + phdr.pMemsz) pageSize := by
      rw [BitVec.le_def]
      omega
    rw [if_pos (word_pos.mpr hpos), BitVec.toNat_sub_of_le hle]
    omega
  · rw [if_neg hpos] at hread
    rw [if_neg (mt word_pos.mp hpos), hround, hread, Nat.zero_add]

end Accepted

/-! ## The loop -/

/-- `n` pages are left. -/
def Cursor.Left (c : Cursor) (n : ℕ) : Prop := c.readBytes.toNat + c.zeroBytes.toNat = pgSize * n

variable {k : ℕ}

namespace Cursor

variable {c : Cursor} {n : ℕ}

lemma toNat_pageReadBytes (c : Cursor) : c.pageReadBytes.toNat = min c.readBytes.toNat pgSize := by
  have hsize : pageSize.toNat = pgSize := rfl
  rw [pageReadBytes]
  split_ifs with hlt
  · exact (Nat.min_eq_left (BitVec.lt_def.mp hlt).le).symm
  · rw [BitVec.lt_def, hsize, Nat.not_lt] at hlt
    rw [hsize, Nat.min_eq_right hlt]

lemma pageReadBytes_add_pageZeroBytes (c : Cursor) :
    c.pageReadBytes.toNat + c.pageZeroBytes.toNat = pgSize := by
  have hle : c.pageReadBytes ≤ pageSize := by
    rw [BitVec.le_def, toNat_pageReadBytes]
    exact Nat.min_le_right _ _
  rw [pageZeroBytes, BitVec.toNat_sub_of_le hle]
  exact Nat.add_sub_cancel' hle

lemma Left.le (h : c.Left (n + 1)) :
    c.pageReadBytes ≤ c.readBytes ∧ c.pageZeroBytes ≤ c.zeroBytes := by
  have hread := c.toNat_pageReadBytes
  have hfill := c.pageReadBytes_add_pageZeroBytes
  rw [Left, pgSize] at h
  rw [pgSize] at hread hfill
  simp only [BitVec.le_def]
  omega

lemma Left.advance (h : c.Left (n + 1)) : c.advance.Left n := by
  have hfill := c.pageReadBytes_add_pageZeroBytes
  obtain ⟨hread, hzero⟩ := h.le
  rw [Left, Cursor.advance, BitVec.toNat_sub_of_le hread, BitVec.toNat_sub_of_le hzero]
  rw [BitVec.le_def] at hread hzero
  rw [Left, Nat.mul_succ] at h
  omega

lemma Left.loop (h : c.Left n) {fuel : ℕ} (hfuel : n < fuel) :
    loadSegmentLoop fuel c = .ok (List.iterate Cursor.advance c n) := by
  induction n generalizing c fuel with
  | zero =>
    obtain ⟨fuel, rfl⟩ := Nat.exists_eq_add_one_of_ne_zero (Nat.ne_zero_of_lt hfuel)
    rw [Left, Nat.mul_zero, Nat.add_eq_zero_iff] at h
    rw [loadSegmentLoop, if_neg, List.iterate]
    rw [word_pos, word_pos, h.1, h.2, or_self]
    exact lt_irrefl 0
  | succ n ih =>
    have hmore : 0#32 < c.readBytes ∨ 0#32 < c.zeroBytes := by
      rw [Left, pgSize] at h
      rw [word_pos, word_pos]
      omega
    obtain ⟨fuel, rfl⟩ := Nat.exists_eq_add_one_of_ne_zero (Nat.ne_zero_of_lt hfuel)
    rw [loadSegmentLoop, if_pos hmore, ih h.advance (Nat.lt_of_succ_lt_succ hfuel)]
    rfl

lemma Left.sum_pageReadBytes (h : c.Left n) :
    ((List.iterate Cursor.advance c n).map fun d => d.pageReadBytes.toNat).sum = c.readBytes.toNat := by
  induction n generalizing c with
  | zero =>
    rw [Left, Nat.mul_zero, Nat.add_eq_zero_iff] at h
    exact h.1.symm
  | succ n ih =>
    have hle := BitVec.le_def.mp h.le.1
    rw [List.iterate, List.map_cons, List.sum_cons, ih h.advance, Cursor.advance,
      BitVec.toNat_sub_of_le h.le.1]
    exact Nat.add_sub_cancel' hle

lemma Left.iterate (h : c.Left n) (hk : k ≤ n) : (Cursor.advance^[k] c).Left (n - k) := by
  induction k with
  | zero => exact h
  | succ k ih =>
    have hleft := ih (by omega)
    rw [show n - k = n - (k + 1) + 1 by omega] at hleft
    rw [Function.iterate_succ_apply']
    exact hleft.advance

lemma Left.toNat_readBytes_iterate (h : c.Left n) (hk : k ≤ n) :
    (Cursor.advance^[k] c).readBytes.toNat = c.readBytes.toNat - k * pgSize := by
  induction k with
  | zero => rw [Nat.zero_mul, Nat.sub_zero, Function.iterate_zero_apply]
  | succ k ih =>
    have hleft := h.iterate (Nat.le_of_succ_le hk)
    rw [show n - k = n - (k + 1) + 1 by omega] at hleft
    rw [Function.iterate_succ_apply', Cursor.advance, BitVec.toNat_sub_of_le hleft.le.1,
      toNat_pageReadBytes, Nat.succ_mul]
    omega

lemma iterate_of_advance {f : Cursor → BitVec 32}
    (hf : ∀ c, f (Cursor.advance c) = f c + BitVec.ofNat 32 pgSize) (c : Cursor) (k : ℕ) :
    f (Cursor.advance^[k] c) = f c + BitVec.ofNat 32 (k * pgSize) := by
  induction k with
  | zero => rw [Function.iterate_zero_apply, Nat.zero_mul, BitVec.add_zero]
  | succ k ih =>
    rw [Function.iterate_succ_apply', hf, ih, Nat.succ_mul, BitVec.ofNat_add, BitVec.add_assoc]

lemma ofs_iterate (c : Cursor) (k : ℕ) :
    (Cursor.advance^[k] c).ofs = c.ofs + BitVec.ofNat 32 (k * pgSize) :=
  iterate_of_advance (fun _ => rfl) c k

lemma upage_iterate (c : Cursor) (k : ℕ) :
    (Cursor.advance^[k] c).upage = c.upage + BitVec.ofNat 32 (k * pgSize) :=
  iterate_of_advance (fun _ => rfl) c k

end Cursor

/-! ## The segment -/

/-- The entries a header stands for: one for each page, all of it user memory and none of it page 0;
each fills its page, and together they read what there is. -/
structure Lays (phdr : Phdr) (cs : List Cursor) : Prop where
  noUnderflow : ∀ c ∈ cs, c.pageReadBytes ≤ c.readBytes ∧ c.pageZeroBytes ≤ c.zeroBytes
  pages : cs.map (fun c => c.upage.toNat) =
    (List.range phdr.pageCount).map fun k => pgRoundDown phdr.pVaddr.toNat + k * pgSize
  user : ∀ c ∈ cs, pgSize ≤ c.upage.toNat ∧ c.upage.toNat + pgSize ≤ physBase
  whole : ∀ c ∈ cs, c.pageReadBytes.toNat + c.pageZeroBytes.toNat = pgSize
  offsets : cs.map (fun c => c.ofs.toInt) =
    (List.range phdr.pageCount).map fun k => ((pgRoundDown phdr.pOffset.toNat + k * pgSize : ℕ) : ℤ)
  reads : (cs.map fun c => c.pageReadBytes.toNat).sum =
    if 0 < phdr.pFilesz.toNat then pgOfs phdr.pVaddr.toNat + phdr.pFilesz.toNat else 0

/-- A segment that is laid out soundly: nothing wraps around, and the right entries are asked
for. -/
structure Phdr.Sound (phdr : Phdr) : Prop where
  read : phdr.readBytes.toNat =
    if 0 < phdr.pFilesz.toNat then pgOfs phdr.pVaddr.toNat + phdr.pFilesz.toNat else 0
  zero : phdr.readBytes.toNat + phdr.zeroBytes.toNat =
    pgRoundUp (pgOfs phdr.pVaddr.toNat + phdr.pMemsz.toNat)
  lays : ∃ fuel cs, loadSegment fuel phdr.cursor = .ok cs ∧ Lays phdr cs

lemma dvd_pgRoundDown (n : ℕ) : pgSize ∣ pgRoundDown n := by
  rw [pgRoundDown, pgOfs, pgSize]
  omega

lemma srem_pageSize {w : Word} (h : pgSize ∣ w.toNat) : w.srem pageSize = 0#32 := by
  refine BitVec.eq_of_toInt_eq ?_
  rw [BitVec.toInt_srem, show pageSize.toInt = 4096 from rfl]
  refine Int.tmod_eq_zero_of_dvd ?_
  rw [BitVec.toInt_eq_toNat_cond]
  rw [pgSize] at h
  split_ifs <;> omega

namespace Accepted

variable {phdr : Phdr}

section

variable (h : Accepted phdr)

include h

lemma left : phdr.cursor.Left phdr.pageCount :=
  h.toNat_zeroBytes.trans phdr.extent_eq

lemma loadSegment_eq (fuel : ℕ) :
    loadSegment fuel phdr.cursor = loadSegmentLoop fuel phdr.cursor := by
  have hleft := h.left
  have hmem : phdr.cursor.upage.toNat = pgRoundDown phdr.pVaddr.toNat := toNat_pgRoundDown _
  have hfile : phdr.cursor.ofs.toNat = pgRoundDown phdr.pOffset.toNat := toNat_pgRoundDown _
  have htotal : (phdr.cursor.readBytes + phdr.cursor.zeroBytes) % pageSize = 0#32 := by
    refine BitVec.eq_of_toNat_eq ?_
    rw [Cursor.Left, pgSize] at hleft
    rw [BitVec.toNat_umod, BitVec.toNat_add, show pageSize.toNat = 4096 from rfl]
    show _ = 0
    omega
  have hpage : Paging.pgOfs phdr.cursor.upage = 0#32 := by
    refine BitVec.eq_of_toNat_eq ?_
    rw [Paging.toNat_pgOfs, hmem]
    exact Nat.mod_eq_zero_of_dvd (dvd_pgRoundDown _)
  have hofs : phdr.cursor.ofs.srem pageSize = 0#32 := srem_pageSize (hfile ▸ dvd_pgRoundDown _)
  rw [loadSegment, if_neg (not_not.mpr htotal), if_neg (not_not.mpr hpage), if_neg (not_not.mpr hofs)]

lemma loadSegment_run {fuel : ℕ} (hfuel : phdr.pageCount < fuel) : loadSegment fuel phdr.cursor =
      .ok (List.iterate Cursor.advance phdr.cursor phdr.pageCount) := by
  rw [h.loadSegment_eq, h.left.loop hfuel]

lemma toNat_upage (hk : k < phdr.pageCount) :
    (Cursor.advance^[k] phdr.cursor).upage.toNat = pgRoundDown phdr.pVaddr.toNat + k * pgSize := by
  have hmem : phdr.cursor.upage.toNat = pgRoundDown phdr.pVaddr.toNat := toNat_pgRoundDown _
  have hle := h.extent_le
  rw [phdr.extent_eq] at hle
  rw [Cursor.upage_iterate, BitVec.toNat_add, BitVec.toNat_ofNat]
  rw [physBase, pgSize] at *
  omega

end

lemma toNat_ofs (hlt : pgRoundDown phdr.pOffset.toNat + k * pgSize < 2 ^ 32) :
    (Cursor.advance^[k] phdr.cursor).ofs.toNat = pgRoundDown phdr.pOffset.toNat + k * pgSize := by
  have hfile : phdr.cursor.ofs.toNat = pgRoundDown phdr.pOffset.toNat := toNat_pgRoundDown _
  rw [Cursor.ofs_iterate, BitVec.toNat_add, BitVec.toNat_ofNat, hfile, Nat.add_mod_mod]
  exact Nat.mod_eq_of_lt hlt

lemma toInt_ofs (hk : k < phdr.pageCount)
    (hlt : pgRoundDown phdr.pOffset.toNat + phdr.extent ≤ 2 ^ 31) :
    (Cursor.advance^[k] phdr.cursor).ofs.toInt =
      ((pgRoundDown phdr.pOffset.toNat + k * pgSize : ℕ) : ℤ) := by
  have hsmall : pgRoundDown phdr.pOffset.toNat + k * pgSize < 2 ^ 31 := by
    rw [phdr.extent_eq, pgSize] at hlt
    rw [pgSize]
    omega
  have hnat := toNat_ofs (hsmall.trans (by decide))
  rw [BitVec.toInt_eq_toNat_of_lt (by omega), hnat]

variable (h : Accepted phdr)

include h

/-- The entries are the right ones, as long as the offsets are offsets. -/
lemma lays (hlt : pgRoundDown phdr.pOffset.toNat + phdr.extent ≤ 2 ^ 31) :
    Lays phdr (List.iterate Cursor.advance phdr.cursor phdr.pageCount) where
  noUnderflow c hc := by
    obtain ⟨k, hk, rfl⟩ := List.mem_iterate.mp hc
    have hleft := h.left.iterate hk.le
    rw [show phdr.pageCount - k = phdr.pageCount - (k + 1) + 1 by omega] at hleft
    exact hleft.le
  pages := by
    rw [← List.range_map_iterate, List.map_map]
    exact List.map_congr_left fun k hk => h.toNat_upage (List.mem_range.mp hk)
  user c hc := by
    obtain ⟨k, hk, rfl⟩ := List.mem_iterate.mp hc
    have hzero := h.notZero
    have hle := h.extent_le
    rw [phdr.extent_eq] at hle
    rw [h.toNat_upage hk]
    simp only [pgRoundDown, pgOfs, pgSize, physBase] at hzero hle ⊢
    omega
  whole c _ := c.pageReadBytes_add_pageZeroBytes
  offsets := by
    rw [← List.range_map_iterate, List.map_map]
    exact List.map_congr_left fun k hk => toInt_ofs (List.mem_range.mp hk) hlt
  reads := h.left.sum_pageReadBytes.trans h.toNat_readBytes

lemma sound (hlt : pgRoundDown phdr.pOffset.toNat + phdr.extent ≤ 2 ^ 31) : phdr.Sound where
  read := h.toNat_readBytes
  zero := by
    rw [h.toNat_zeroBytes, ← phdr.pgRoundUp_pageOffset]
    exact congrArg (fun n => pgRoundUp (n + _)) (Paging.toNat_pgOfs _)
  lays := ⟨_, _, h.loadSegment_run (Nat.lt_succ_self _), h.lays hlt⟩

lemma offset_le_of_sound (hsound : phdr.Sound) :
    pgRoundDown phdr.pOffset.toNat + phdr.extent ≤ 2 ^ 31 := by
  obtain ⟨-, cs, -, hlays⟩ := hsound.lays
  have hpos := h.pageCount_pos
  have hmem : ((pgRoundDown phdr.pOffset.toNat + (phdr.pageCount - 1) * pgSize : ℕ) : ℤ) ∈
      cs.map fun c => c.ofs.toInt := by
    rw [hlays.offsets]
    exact List.mem_map.mpr ⟨_, List.mem_range.mpr (by omega), rfl⟩
  obtain ⟨c, -, hc⟩ := List.mem_map.mp hmem
  have hlt : c.ofs.toInt < 2 ^ 31 := BitVec.toInt_lt
  have hdvd := dvd_pgRoundDown phdr.pOffset.toNat
  rw [phdr.extent_eq]
  rw [pgSize] at *
  omega

end Accepted

/-- **Segment arithmetic.** A header that `validate_segment` accepts is laid out soundly, just if an
`off_t` can reach the file offset of the end of its last page. -/
theorem segment_arithmetic {phdr : Phdr} (fileLength : ℤ)
    (h : validateSegment phdr fileLength = true) :
    phdr.Sound ↔ pgRoundDown phdr.pOffset.toNat + (pgRoundUp (phdr.pVaddr.toNat + phdr.pMemsz.toNat) -
      pgRoundDown phdr.pVaddr.toNat) ≤ 2 ^ 31 :=
  have haccepted := accepted_of_validateSegment h
  ⟨haccepted.offset_le_of_sound, haccepted.sound⟩

/-- The code of a small program. -/
theorem segment_arithmetic_small : Phdr.Sound ⟨1, 0x1074, 0x8048074, 0x1234, 0x2345, 5⟩ :=
  (segment_arithmetic 0x4000 (by decide)).mpr (by decide)

/-- The offset of the last page is negative: a segment of more than 2 GiB, in a file of one
page. -/
theorem segment_arithmetic_wraps :
    validateSegment ⟨1, 0, 0x1000, 0x80001000, 0x80001000, 4⟩ 4096 = true ∧
      ¬ Phdr.Sound ⟨1, 0, 0x1000, 0x80001000, 0x80001000, 4⟩ := by
  have hvalid : validateSegment ⟨1, 0, 0x1000, 0x80001000, 0x80001000, 4⟩ 4096 = true := by decide
  refine ⟨hvalid, fun hsound => ?_⟩
  exact absurd ((accepted_of_validateSegment hvalid).offset_le_of_sound hsound) (by decide)

end Elf

end Pintos
