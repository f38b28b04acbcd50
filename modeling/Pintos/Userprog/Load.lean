import Pintos.Userprog.Segment
import Pintos.Userprog.Stale

/-!
# Userprog/Load — `load` and what the process then finds in memory

`load` goes through the program headers, and for each one of type `PT_LOAD` enters the pages of its
segment in the SPT; last comes the page of the stack. Nothing is read yet.

    page ↦ (ofs, page_read_bytes, page_zero_bytes)

An entry that is already there stays. If no page is shared and the file has the bytes, the process
finds the file in memory, as long as the offsets are numbers that an `off_t` can hold.
-/

namespace Pintos

open Machinery List
open Paging (Word)

namespace Elf

/-! ## The file -/

/-- An executable file; its length is an `off_t`. -/
structure Image where
  bytes : List UInt8
  length_lt : bytes.length < 2 ^ 31

/-- `struct Elf32_Ehdr`, what `load` reads of it. -/
structure Ehdr where
  eIdent : List UInt8
  eType : ℕ
  eMachine : ℕ
  eVersion : ℕ
  eEntry : ℕ
  ePhoff : ℕ
  ePhentsize : ℕ
  ePhnum : ℕ
  deriving DecidableEq, Repr

/-- `sizeof (struct Elf32_Ehdr)`. -/
def ehdrSize : ℕ := 52

/-- `sizeof (struct Elf32_Phdr)`. -/
def phdrSize : ℕ := 32

/-- `PT_LOAD`. -/
def ptLoad : Word := 1#32

namespace Image

/-- `file_length`. -/
abbrev length (f : Image) : ℕ := f.bytes.length

def word (f : Image) (ofs : ℕ) : ℕ := leWord fun j => f.bytes.getD (ofs + j) 0

lemma word_lt (f : Image) (ofs : ℕ) : f.word ofs < 2 ^ 32 := leWord_lt _

def half (f : Image) (ofs : ℕ) : ℕ :=
  (f.bytes.getD ofs 0).toNat + 256 * (f.bytes.getD (ofs + 1) 0).toNat

def ehdr (f : Image) : Ehdr where
  eIdent := f.bytes.take 16
  eType := f.half 16
  eMachine := f.half 18
  eVersion := f.word 20
  eEntry := f.word 24
  ePhoff := f.word 28
  ePhentsize := f.half 42
  ePhnum := f.half 44

def phdr (f : Image) (ofs : ℕ) : Phdr where
  pType := BitVec.ofNat 32 (f.word ofs)
  pOffset := BitVec.ofNat 32 (f.word (ofs + 4))
  pVaddr := BitVec.ofNat 32 (f.word (ofs + 8))
  pFilesz := BitVec.ofNat 32 (f.word (ofs + 16))
  pMemsz := BitVec.ofNat 32 (f.word (ofs + 20))
  pFlags := BitVec.ofNat 32 (f.word (ofs + 24))

end Image

/-- The checks of the executable header. -/
def Ehdr.Ok (h : Ehdr) : Prop :=
  h.eIdent.take 7 = [0x7f, 0x45, 0x4c, 0x46, 1, 1, 1] ∧ h.eType = 2 ∧ h.eMachine = 3 ∧ h.eVersion = 1 ∧
    h.ePhentsize = phdrSize ∧ h.ePhnum ≤ 1024

instance (h : Ehdr) : Decidable h.Ok := inferInstanceAs (Decidable (_ ∧ _ ∧ _ ∧ _ ∧ _ ∧ _))

/-! ## The code -/

/-- How `load` does not return. -/
inductive LoadStop where
  /-- a failing `ASSERT` -/
  | assertion
  /-- `exit`, in `vaddr_to_page_num` -/
  | exit
  | fuel
  deriving DecidableEq, Repr

/-- The entry that `load_segment` asks for in one turn. -/
def Cursor.entry (c : Cursor) (writable : Bool) : SptEntry :=
  .create c.upage.toNat false c.ofs.toNat c.pageReadBytes.toNat c.pageZeroBytes.toNat writable
    (Nat.le_of_eq c.pageReadBytes_add_pageZeroBytes)

/-- `create_SPT_entry`, called by `load_segment`. -/
def createEntry (writable : Bool) (spt : SpTable) (c : Cursor) : Except LoadStop SpTable :=
  if isUserVaddr c.upage.toNat then .ok (spt.insert (pgNo c.upage.toNat) (c.entry writable))
  else .error .exit

/-- `PF_W` is set. -/
def Phdr.writable (phdr : Phdr) : Bool := phdr.pFlags &&& 2#32 ≠ 0#32

/-- `load_segment`; no segment has as many turns as this allows for. -/
def enterSegment (spt : SpTable) (phdr : Phdr) : Except LoadStop SpTable :=
  match loadSegment (2 ^ 20) phdr.cursor with
  | .ok cs => cs.foldlM (createEntry phdr.writable) spt
  | .error .assertion => .error .assertion
  | .error .fuel => .error .fuel

/-- The loop of `load` over the program headers, with `n` of them to go; `none` is `goto done`. -/
def loadHeaders (f : Image) : ℕ → ℤ → SpTable → Except LoadStop (Option SpTable)
  | 0, _, spt => .ok (some spt)
  | n + 1, fileOfs, spt =>
    if fileOfs < 0 ∨ f.length < fileOfs then .ok none
    else if f.length < fileOfs + phdrSize then .ok none
    else
      let phdr := f.phdr fileOfs.toNat
      let fileOfs := toInt32 (fileOfs + phdrSize)
      -- PT_DYNAMIC, PT_INTERP, PT_SHLIB
      if phdr.pType = 2#32 ∨ phdr.pType = 3#32 ∨ phdr.pType = 5#32 then .ok none
      else if phdr.pType = ptLoad then
        if validateSegment phdr f.length then
          (enterSegment spt phdr).bind (loadHeaders f n fileOfs)
        else .ok none
      else loadHeaders f n fileOfs spt

/-- The entry of the stack: `setup_stack` sets the flag on it, whether or not it came into the
table. -/
def stackEntry : SptEntry :=
  { SptEntry.create stackPage true 0 0 0 true (Nat.zero_le _) with isStackPage := true }

/-- What `setup_stack` does to the SPT. -/
def enterStack (spt : SpTable) : SpTable := spt.insert (pgNo stackPage) stackEntry

/-- What `load` meets with: `pagedir_create`, `filesys_open`, the `install_page` of `setup_stack`,
and its arguments. -/
structure Setting where
  pagedir : Bool
  file : Option Image
  installed : Bool
  esp : ℕ
  argArray : ℕ → UInt8
  mem : ℕ → UInt8

/-- What `load` leaves, when it returns true. -/
structure Loaded where
  eip : ℕ
  spt : SpTable

/-- `load`, for a process with an empty SPT; `none` is the value false. -/
def load (x : Setting) : Except LoadStop (Option Loaded) :=
  if x.pagedir = false then .ok none
  else match x.file with
    | none => .ok none
    | some f =>
      if f.length < ehdrSize ∨ ¬ f.ehdr.Ok then .ok none
      else (loadHeaders f f.ehdr.ePhnum (toInt32 f.ehdr.ePhoff) fun _ => none).map fun spt =>
        spt.bind fun spt =>
          if (Arguments.setupStack x.installed x.esp x.argArray x.mem).success
          then some ⟨f.ehdr.eEntry, enterStack spt⟩ else none

/-- The first fault on a page, with `stale` in the frame: `file_seek` asserts that the offset is
not negative. -/
def firstSeen (e : SptEntry) (f : Image) (stale : Page) : Option Page :=
  if e.fromSwap then none else if e.ofs < 2 ^ 31 then some (e.fileImage f.bytes stale) else none

lemma Cursor.firstSeen_entry (c : Cursor) (writable : Bool) (f : Image) (stale : Page) :
    firstSeen (c.entry writable) f stale =
      if c.ofs.toNat < 2 ^ 31 then some ((c.entry writable).fileImage f.bytes stale) else none :=
  rfl

variable {f : Image}

lemma Cursor.fileImage_entry {c : Cursor}
    (h : c.pageReadBytes.toNat = 0 ∨ c.ofs.toNat + c.pageReadBytes.toNat ≤ f.length)
    (writable : Bool) (stale : Page) (i : Fin pgSize) :
    (c.entry writable).fileImage f.bytes stale i =
      if i.val < c.pageReadBytes.toNat then f.bytes.getD (c.ofs.toNat + i) 0 else 0 :=
  have hall : (c.entry writable).pageReadBytes + (c.entry writable).pageZeroBytes = pgSize :=
    c.pageReadBytes_add_pageZeroBytes
  SptEntry.fileImage_of_covered hall h stale i

/-! ## What the file says -/

/-- The program headers, `n` of them from an offset on. -/
def Image.phdrs (f : Image) : ℕ → ℕ → List Phdr
  | 0, _ => []
  | n + 1, ofs => f.phdr ofs :: f.phdrs n (ofs + phdrSize)

/-- The segments among them. -/
def Image.segments (f : Image) (n ofs : ℕ) : List Phdr :=
  (f.phdrs n ofs).filter fun phdr => phdr.pType = ptLoad

/-- The segments of the executable. -/
def Image.loadable (f : Image) : List Phdr := f.segments f.ehdr.ePhnum f.ehdr.ePhoff

/-- The address is in the segment. -/
def Phdr.Contains (phdr : Phdr) (a : ℕ) : Prop :=
  phdr.pVaddr.toNat ≤ a ∧ a < phdr.pVaddr.toNat + phdr.pMemsz.toNat

/-- The segment is in memory, as the process sees it: the file, and then zeros. -/
def Phdr.Mapped (phdr : Phdr) (f : Image) (spt : SpTable) : Prop :=
  ∀ a, phdr.Contains a → ∃ e, spt (pgNo a) = some e ∧ ∀ stale, ∃ page, firstSeen e f stale = some page ∧
    if a < phdr.pVaddr.toNat + phdr.pFilesz.toNat then
      f.bytes[phdr.pOffset.toNat + (a - phdr.pVaddr.toNat)]? = some (page ⟨pgOfs a, pgOfs_lt a⟩)
    else page ⟨pgOfs a, pgOfs_lt a⟩ = 0

/-- The process is what the file says. -/
structure Image.Faithful (f : Image) (spt : SpTable) : Prop where
  segments : ∀ phdr ∈ f.loadable, phdr.Mapped f spt
  stack : ∃ e, spt (pgNo stackPage) = some e ∧ e.isStackPage = true

/-- No page belongs to two segments or to a segment and the stack, and no byte is past the end of
the file. -/
structure Image.Possible (f : Image) : Prop where
  apart : f.loadable.Pairwise fun p q => ∀ a b, p.Contains a → q.Contains b → pgNo a ≠ pgNo b
  stack : ∀ p ∈ f.loadable, ∀ a, p.Contains a → pgNo a ≠ pgNo stackPage
  inFile : ∀ p ∈ f.loadable, p.pOffset.toNat + p.pFilesz.toNat ≤ f.length

/-! ## The table

The entries of a process, in the order in which they are asked for. What is in the SPT for a page
is the first entry for it. -/

/-- The entries of a segment… -/
def Phdr.entries (phdr : Phdr) : List (ℕ × SptEntry) :=
  (List.iterate Cursor.advance phdr.cursor phdr.pageCount).map fun c =>
    (pgNo c.upage.toNat, c.entry phdr.writable)

/-- …and their pages. -/
def Phdr.pages (phdr : Phdr) : List ℕ := List.range' (pgNo phdr.pVaddr.toNat) phdr.pageCount

/-- The entries of a process. -/
def Image.table (f : Image) : List (ℕ × SptEntry) :=
  f.loadable.flatMap Phdr.entries ++ [(pgNo stackPage, stackEntry)]

namespace Accepted

variable {phdr : Phdr}

section

variable (h : Accepted phdr)

include h

lemma pgNo_upage {k : ℕ} (hk : k < phdr.pageCount) :
    pgNo (Cursor.advance^[k] phdr.cursor).upage.toNat = pgNo phdr.pVaddr.toNat + k := by
  rw [h.toNat_upage hk, pgNo, pgRoundDown, pgOfs, pgNo, pgSize]
  omega

lemma mem_entries {k : ℕ} (hk : k < phdr.pageCount) :
    (pgNo phdr.pVaddr.toNat + k, (Cursor.advance^[k] phdr.cursor).entry phdr.writable) ∈
      phdr.entries := by
  rw [← h.pgNo_upage hk]
  exact mem_map_of_mem (mem_iterate.mpr ⟨k, hk, rfl⟩)

lemma fst_entries : phdr.entries.map Prod.fst = phdr.pages := by
  rw [Phdr.entries, List.map_map, ← range_map_iterate, List.map_map, Phdr.pages,
    range'_eq_map_range]
  exact map_congr_left fun k hk => h.pgNo_upage (mem_range.mp hk)

lemma mem_pages {n : ℕ} : n ∈ phdr.pages ↔ ∃ a, phdr.Contains a ∧ pgNo a = n := by
  have hmem := h.memsz
  rw [Phdr.pages, mem_range'_1]
  simp only [Phdr.Contains, Phdr.pageCount, Phdr.extent, pgRoundUp, pgRoundDown, pgOfs, pgNo, pgSize]
  constructor
  · rintro ⟨hle, hlt⟩
    refine ⟨max phdr.pVaddr.toNat (n * 4096), ?_, ?_⟩ <;> omega
  · rintro ⟨a, ⟨hle, hlt⟩, rfl⟩
    omega

end

lemma disjoint_pages {p q : Phdr} (hp : Accepted p) (hq : Accepted q) : p.pages.Disjoint q.pages ↔
    ∀ a b, p.Contains a → q.Contains b → pgNo a ≠ pgNo b := by
  constructor
  · intro h a b ha hb hab
    exact h (hp.mem_pages.mpr ⟨a, ha, rfl⟩) (hq.mem_pages.mpr ⟨b, hb, hab.symm⟩)
  · intro h n hn hn'
    obtain ⟨a, ha, rfl⟩ := hp.mem_pages.mp hn
    obtain ⟨b, hb, hab⟩ := hq.mem_pages.mp hn'
    exact h a b ha hb hab.symm

end Accepted

/-! ## What `load` does -/

lemma foldlM_createEntry {cs : List Cursor} (huser : ∀ c ∈ cs, isUserVaddr c.upage.toNat = true)
    (writable : Bool) (spt : SpTable) : cs.foldlM (createEntry writable) spt =
      .ok (spt.insertAll (cs.map fun c => (pgNo c.upage.toNat, c.entry writable))) := by
  induction cs generalizing spt with
  | nil => rfl
  | cons c cs ih =>
    obtain ⟨hc, hcs⟩ := forall_mem_cons.mp huser
    rw [foldlM_cons, createEntry, if_pos hc]
    exact ih hcs _

variable {phdr : Phdr}

lemma Accepted.pageCount_lt (h : Accepted phdr) : phdr.pageCount < 2 ^ 20 := by
  have hle := h.extent_le
  rw [phdr.extent_eq, pgSize, physBase] at hle
  omega

lemma Accepted.enterSegment_eq (h : Accepted phdr) (spt : SpTable) :
    enterSegment spt phdr = .ok (spt.insertAll phdr.entries) := by
  rw [enterSegment, h.loadSegment_run h.pageCount_lt]
  refine foldlM_createEntry (fun c hc => ?_) phdr.writable spt
  obtain ⟨k, hk, rfl⟩ := mem_iterate.mp hc
  have hle := h.extent_le
  rw [phdr.extent_eq] at hle
  rw [h.toNat_upage hk, isUserVaddr, decide_eq_true_iff]
  rw [pgSize] at *
  omega

lemma Image.segments_succ (f : Image) (n ofs : ℕ) : f.segments (n + 1) ofs =
    if (f.phdr ofs).pType = ptLoad then f.phdr ofs :: f.segments n (ofs + phdrSize)
    else f.segments n (ofs + phdrSize) := by
  simp only [segments, phdrs, filter_cons, decide_eq_true_eq]

lemma toInt32_of_lt {n : ℕ} (h : n < 2 ^ 31) : toInt32 n = n := by
  rw [toInt32]
  omega

lemma next_of_read {ofs : ℕ} (h : ¬ (f.length : ℤ) < ofs + phdrSize) :
    toInt32 (ofs + phdrSize) = (ofs + phdrSize : ℕ) := by
  have hlt : f.length < 2 ^ 31 := f.length_lt
  rw [phdrSize] at *
  exact toInt32_of_lt (by omega)

lemma loadHeaders_eq_some {n ofs : ℕ} {spt spt' : SpTable}
    (h : loadHeaders f n ofs spt = .ok (some spt')) : (∀ phdr ∈ f.segments n ofs, Accepted phdr) ∧
      spt' = spt.insertAll ((f.segments n ofs).flatMap Phdr.entries) := by
  induction n generalizing ofs spt with
  | zero =>
    cases h
    exact ⟨fun _ hmem => absurd hmem not_mem_nil, rfl⟩
  | succ n ih =>
    simp only [loadHeaders, Int.toNat_natCast] at h
    split_ifs at h with _ hread _ hload hvalid
    · cases h
    · cases h
    · cases h
    · -- a segment
      have haccepted := accepted_of_validateSegment hvalid
      rw [haccepted.enterSegment_eq, next_of_read hread] at h
      obtain ⟨hall, rfl⟩ := ih h
      rw [Image.segments_succ, if_pos hload, forall_mem_cons]
      refine ⟨⟨haccepted, hall⟩, ?_⟩
      rw [flatMap_cons, SpTable.insertAll_append]
    · cases h
    · -- a header to ignore
      rw [next_of_read hread] at h
      rw [Image.segments_succ, if_neg hload]
      exact ih h

lemma loadHeaders_toInt32 {n ofs : ℕ} {spt spt' : SpTable} (hofs : ofs < 2 ^ 32)
    (h : loadHeaders f n (toInt32 ofs) spt = .ok (some spt')) :
    loadHeaders f n ofs spt = .ok (some spt') := by
  by_cases hlt : ofs < 2 ^ 31
  · rwa [toInt32_of_lt hlt] at h
  · cases n with
    | zero =>
      rw [loadHeaders] at h ⊢
      exact h
    | succ n =>
      have hneg : toInt32 ofs < 0 := by
        rw [toInt32]
        omega
      rw [loadHeaders, if_pos (.inl hneg)] at h
      cases h

lemma load_eq_some {x : Setting} {r : Loaded} (hfile : x.file = some f)
    (h : load x = .ok (some r)) :
    (∀ phdr ∈ f.loadable, Accepted phdr) ∧ ∀ n, r.spt n = f.table.lookup n := by
  simp only [load, hfile] at h
  split at h
  · cases h
  split at h
  · cases h
  · cases hloop : loadHeaders f f.ehdr.ePhnum (toInt32 f.ehdr.ePhoff) fun _ => none with
    | error stop =>
      rw [hloop] at h
      cases h
    | ok entered =>
      obtain ⟨spt, rfl, hspt⟩ := Option.bind_eq_some_iff.mp (Except.ok.inj (hloop ▸ h))
      split_ifs at hspt
      cases hspt
      have hofs : f.ehdr.ePhoff < 2 ^ 32 := f.word_lt 28
      obtain ⟨haccepted, rfl⟩ := loadHeaders_eq_some (loadHeaders_toInt32 hofs hloop)
      refine ⟨haccepted, fun n => ?_⟩
      have hempty : f.table.lookup n = SpTable.insertAll (fun _ => none) f.table n := by
        rw [SpTable.insertAll_apply, Option.none_or]
      rw [hempty, Image.table, SpTable.insertAll_append]
      rfl

namespace Accepted

variable {phdr : Phdr} {f : Image} {spt : SpTable} {k : ℕ}

variable (h : Accepted phdr)

include h

lemma lt_pageReadBytes (hk : k < phdr.pageCount) {i : ℕ} (hi : i < pgSize) :
    i < (Cursor.advance^[k] phdr.cursor).pageReadBytes.toNat ↔
      0 < phdr.pFilesz.toNat ∧ k * pgSize + i < pgOfs phdr.pVaddr.toNat + phdr.pFilesz.toNat := by
  have hread : phdr.cursor.readBytes.toNat = _ := h.toNat_readBytes
  rw [Cursor.toNat_pageReadBytes, h.left.toNat_readBytes_iterate hk.le, hread]
  split_ifs with hpos
  · omega
  · omega

/-- The entry of a page accounts for all of it, and the file has the bytes to be read. -/
lemma covered (hk : k < phdr.pageCount) (hin : phdr.pOffset.toNat + phdr.pFilesz.toNat ≤ f.length) :
    (Cursor.advance^[k] phdr.cursor).pageReadBytes.toNat = 0 ∨
      pgRoundDown phdr.pOffset.toNat + k * pgSize +
        (Cursor.advance^[k] phdr.cursor).pageReadBytes.toNat ≤ f.length := by
  have hfill := (Cursor.advance^[k] phdr.cursor).pageReadBytes_add_pageZeroBytes
  have hofs := h.offset
  have hround := pgRoundDown_add_pgOfs phdr.pOffset.toNat
  have hbyte {i : ℕ} (hi : i < pgSize) := h.lt_pageReadBytes hk hi
  generalize (Cursor.advance^[k] phdr.cursor).pageReadBytes.toNat = n at *
  rcases Nat.eq_zero_or_pos n with hzero | hpos
  · exact .inl hzero
  · -- the last byte that is read is one of the segment
    have hlast := (hbyte (i := n - 1) (by omega)).mp (by omega)
    right
    omega

lemma exists_page {a : ℕ} (ha : phdr.Contains a) : ∃ k < phdr.pageCount,
    pgNo a = pgNo phdr.pVaddr.toNat + k ∧ pgRoundDown phdr.pVaddr.toNat + k * pgSize + pgOfs a = a := by
  have hpage := h.mem_pages.mpr ⟨a, ha, rfl⟩
  rw [Phdr.pages, mem_range'_1] at hpage
  refine ⟨pgNo a - pgNo phdr.pVaddr.toNat, by omega, by omega, ?_⟩
  simp only [pgRoundDown, pgOfs, pgNo, pgSize] at *
  omega

/-- Every byte is the one of the file, or zero. -/
lemma mapped (hin : phdr.pOffset.toNat + phdr.pFilesz.toNat ≤ f.length)
    (hofs : pgRoundDown phdr.pOffset.toNat + phdr.extent ≤ 2 ^ 31)
    (hspt : ∀ k < phdr.pageCount, spt (pgNo phdr.pVaddr.toNat + k) = some ((Cursor.advance^[k] phdr.cursor).entry phdr.writable)) : phdr.Mapped f spt := by
  intro a ha
  obtain ⟨k, hk, hpage, hpos⟩ := h.exists_page ha
  have hlt : pgRoundDown phdr.pOffset.toNat + k * pgSize < 2 ^ 31 := by
    rw [phdr.extent_eq, pgSize] at hofs
    rw [pgSize]
    omega
  have he := toNat_ofs (hlt.trans (by decide))
  refine ⟨_, hpage ▸ hspt k hk, fun stale =>
    ⟨_, (Cursor.firstSeen_entry ..).trans (if_pos (he ▸ hlt)), ?_⟩⟩
  have hcovered := h.covered hk hin
  rw [← he] at hcovered
  rw [Cursor.fileImage_entry hcovered]
  have hround := pgRoundDown_add_pgOfs phdr.pVaddr.toNat
  have hround' := pgRoundDown_add_pgOfs phdr.pOffset.toNat
  have hsame := h.offset
  have hbyte := h.lt_pageReadBytes hk (pgOfs_lt a)
  have hle := ha.1
  split_ifs with hfile hread hread
  · have hplace : (Cursor.advance^[k] phdr.cursor).ofs.toNat + pgOfs a =
        phdr.pOffset.toNat + (a - phdr.pVaddr.toNat) := by omega
    have hlen : phdr.pOffset.toNat + (a - phdr.pVaddr.toNat) < f.bytes.length :=
      lt_of_lt_of_le (by omega) hin
    rw [hplace, getD_eq_getElem _ _ hlen, getElem?_eq_getElem hlen]
  · exact absurd (hbyte.mpr (by omega)) hread
  · exact absurd (hbyte.mp hread) (by omega)
  · rfl

end Accepted

/-! ## The executable in memory -/

/-- No page is asked for twice, the file has the bytes, and every offset is one that an `off_t` can
hold. -/
structure Image.Fits (f : Image) : Prop where
  pages : (f.loadable.flatMap Phdr.pages ++ [pgNo stackPage]).Nodup
  inFile : ∀ p ∈ f.loadable, p.pOffset.toNat + p.pFilesz.toNat ≤ f.length
  offsets : ∀ p ∈ f.loadable, pgRoundDown p.pOffset.toNat + p.extent ≤ 2 ^ 31

section

variable {f : Image} (haccepted : ∀ phdr ∈ f.loadable, Accepted phdr)

include haccepted

lemma fst_table : f.table.map Prod.fst = f.loadable.flatMap Phdr.pages ++ [pgNo stackPage] := by
  rw [Image.table, map_append, map_flatMap]
  exact congrArg (· ++ _) (flatMap_congr fun phdr hphdr => (haccepted phdr hphdr).fst_entries)

lemma nodup_pages_iff : (f.loadable.flatMap Phdr.pages ++ [pgNo stackPage]).Nodup ↔
    (f.loadable.Pairwise fun p q => ∀ a b, p.Contains a → q.Contains b → pgNo a ≠ pgNo b) ∧
      ∀ p ∈ f.loadable, ∀ a, p.Contains a → pgNo a ≠ pgNo stackPage := by
  have hapart := List.Pairwise.iff_of_mem fun hp hq => (haccepted _ hp).disjoint_pages (haccepted _ hq)
  have hstack : (∀ n ∈ f.loadable.flatMap Phdr.pages, ∀ m ∈ [pgNo stackPage], n ≠ m) ↔
      ∀ p ∈ f.loadable, ∀ a, p.Contains a → pgNo a ≠ pgNo stackPage := by
    simp only [mem_flatMap, mem_singleton, forall_eq]
    constructor
    · intro h p hp a ha
      exact h _ ⟨p, hp, (haccepted p hp).mem_pages.mpr ⟨a, ha, rfl⟩⟩
    · rintro h n ⟨p, hp, hn⟩
      obtain ⟨a, ha, rfl⟩ := (haccepted p hp).mem_pages.mp hn
      exact h p hp a ha
  rw [nodup_append, nodup_flatMap, hapart, hstack]
  exact ⟨fun h => ⟨h.1.2, h.2.2⟩,
    fun h => ⟨⟨fun _ _ => nodup_range', h.1⟩, nodup_singleton _, h.2⟩⟩

variable (hpages : (f.loadable.flatMap Phdr.pages ++ [pgNo stackPage]).Nodup)

include hpages

lemma lookup_segment (hphdr : phdr ∈ f.loadable) {k : ℕ} (hk : k < phdr.pageCount) :
    f.table.lookup (pgNo phdr.pVaddr.toNat + k) =
      some ((Cursor.advance^[k] phdr.cursor).entry phdr.writable) := by
  rw [← fst_table haccepted] at hpages
  refine SpTable.lookup_of_mem hpages (mem_append_left _ ?_)
  exact mem_flatMap.mpr ⟨phdr, hphdr, (haccepted phdr hphdr).mem_entries hk⟩

lemma offset_le_of_mapped (hphdr : phdr ∈ f.loadable)
    (hin : phdr.pOffset.toNat + phdr.pFilesz.toNat ≤ f.length) {spt : SpTable}
    (hspt : ∀ n, spt n = f.table.lookup n) (hmapped : phdr.Mapped f spt) :
    pgRoundDown phdr.pOffset.toNat + phdr.extent ≤ 2 ^ 31 := by
  by_contra hgt
  have hlen : f.length < 2 ^ 31 := f.length_lt
  have hround := pgRoundDown_add_pgOfs phdr.pOffset.toNat
  have hdvd := dvd_pgRoundDown phdr.pOffset.toNat
  obtain ⟨k, hk, hofs⟩ : ∃ k < phdr.pageCount,
      pgRoundDown phdr.pOffset.toNat + k * pgSize = 2 ^ 31 := by
    refine ⟨(2 ^ 31 - pgRoundDown phdr.pOffset.toNat) / pgSize, ?_, ?_⟩
    · rw [phdr.extent_eq] at hgt
      rw [pgSize] at *
      omega
    · rw [pgSize] at *
      omega
  have hmem : pgNo phdr.pVaddr.toNat + k ∈ phdr.pages := by
    rw [Phdr.pages, mem_range'_1]
    omega
  obtain ⟨a, ha, hpage⟩ := (haccepted phdr hphdr).mem_pages.mp hmem
  obtain ⟨e, he, hseen⟩ := hmapped a ha
  rw [hpage, hspt, lookup_segment haccepted hpages hphdr hk, Option.some_inj] at he
  obtain ⟨page, hsome, -⟩ := hseen fun _ => 0
  have hnat := (Accepted.toNat_ofs (hofs ▸ by decide)).trans hofs
  rw [← he, Cursor.firstSeen_entry, if_neg (hnat ▸ lt_irrefl _)] at hsome
  cases hsome

end

/-- **The process is what the file says**, whenever `load` returns true, just if the headers fit. -/
theorem load_faithful_iff {x : Setting} {f : Image} {r : Loaded} (hfile : x.file = some f)
    (h : load x = .ok (some r)) : f.Faithful r.spt ∧ f.Possible ↔ f.Fits := by
  obtain ⟨haccepted, hspt⟩ := load_eq_some hfile h
  constructor
  · rintro ⟨hfaithful, hpossible⟩
    have hpages := (nodup_pages_iff haccepted).mpr ⟨hpossible.apart, hpossible.stack⟩
    exact ⟨hpages, hpossible.inFile, fun phdr hphdr => offset_le_of_mapped haccepted hpages hphdr
      (hpossible.inFile phdr hphdr) hspt (hfaithful.segments phdr hphdr)⟩
  · intro hfits
    obtain ⟨hapart, hstack⟩ := (nodup_pages_iff haccepted).mp hfits.pages
    refine ⟨⟨fun phdr hphdr => ?_, stackEntry, ?_, rfl⟩, hapart, hstack, hfits.inFile⟩
    · refine (haccepted phdr hphdr).mapped (hfits.inFile phdr hphdr) (hfits.offsets phdr hphdr) ?_
      intro k hk
      rw [hspt, lookup_segment haccepted hfits.pages hphdr hk]
    · have hpages := hfits.pages
      rw [← fst_table haccepted] at hpages
      rw [hspt]
      exact SpTable.lookup_of_mem hpages (mem_append_right _ (mem_singleton_self _))

/-- A file that is headers only: a segment of `size` bytes, from the start of the file, at
`0x1000`. -/
def headers (size : ℕ) : Image where
  bytes := [0x7f, 0x45, 0x4c, 0x46, 1, 1, 1, 0, 0, 0, 0, 0, 0, 0, 0, 0, 2, 0, 3, 0, 1, 0, 0, 0,
    0x54, 0x10, 0, 0, 52, 0, 0, 0, 0, 0, 0, 0, 0, 0, 0, 0, 52, 0, 32, 0, 1, 0, 0, 0, 0, 0, 0, 0,
    1, 0, 0, 0, 0, 0, 0, 0, 0, 0x10, 0, 0, 0, 0, 0, 0] ++ (List.range 4).map (leByte size) ++
    (List.range 4).map (leByte size) ++ [5, 0, 0, 0, 0, 0, 0, 0]
  length_lt := by
    simp only [length_append, length_map, length_range, length_cons, length_nil]
    decide

/-- All goes well but for the file. -/
def settingOf (f : Image) : Setting := ⟨true, some f, true, 0, fun _ => 0, fun _ => 0⟩

/-- `load` succeeds. -/
def returnsTrue : Except LoadStop (Option Loaded) → Bool
  | .ok (some _) => true
  | _ => false

lemma exists_of_returnsTrue {y : Except LoadStop (Option Loaded)} (h : returnsTrue y = true) :
    ∃ r, y = .ok (some r) := by
  match y, h with
  | .ok (some r), _ => exact ⟨r, rfl⟩

/-- The headers themselves, in memory. -/
theorem load_faithful_headers : ∃ r, load (settingOf (headers 84)) = .ok (some r) ∧
    (headers 84).Faithful r.spt ∧ (headers 84).Possible := by
  obtain ⟨r, hr⟩ := exists_of_returnsTrue
    (show returnsTrue (load (settingOf (headers 84))) = true by decide +kernel)
  exact ⟨r, hr, (load_faithful_iff rfl hr).mpr
    ⟨by decide +kernel, by decide +kernel, by decide +kernel⟩⟩

/-- A program that is not in the file is loaded: the segment is a page, the file 84 bytes. -/
theorem load_past_end : ∃ r, load (settingOf (headers 0x1000)) = .ok (some r) ∧
    ¬ (headers 0x1000).Faithful r.spt ∧ ¬ (headers 0x1000).Possible := by
  obtain ⟨r, hr⟩ := exists_of_returnsTrue
    (show returnsTrue (load (settingOf (headers 0x1000))) = true by decide +kernel)
  have hmem : (⟨1, 0, 0x1000, 0x1000, 0x1000, 5⟩ : Phdr) ∈ (headers 0x1000).loadable := by decide +kernel
  refine ⟨r, hr, fun hfaithful => ?_, fun hpossible => ?_⟩
  · -- the byte after the headers
    obtain ⟨e, -, hseen⟩ := hfaithful.segments _ hmem 0x1054 ⟨by decide, by decide⟩
    obtain ⟨page, -, hbyte⟩ := hseen fun _ => 0
    cases hbyte
  · exact absurd (hpossible.inFile _ hmem) (by decide +kernel)

end Elf

end Pintos
