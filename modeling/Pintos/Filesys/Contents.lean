import Pintos.Filesys.Inode

/-!
# Filesys/Contents — the bytes of a file

A file is a range of the bytes of the device. Whatever the offset and the size, the loops of
`inode_read_at` and `inode_write_at` come to reading that range, or overwriting it.
-/

namespace Pintos

open Machinery EStateM Block InodeDisk Nat

namespace Block

/-- `k` bytes from `a` on. -/
def slice (d : Block) (a k : ℕ) : List UInt8 := (List.range k).map fun i => d.byte (a + i)

variable {d : Block} {a k : ℕ}

@[simp] lemma length_slice : (d.slice a k).length = k := by simp [slice]

lemma slice_append (m : ℕ) : d.slice a k ++ d.slice (a + k) m = d.slice a (k + m) := by
  simp [slice, List.range_add, add_assoc]

lemma getElem?_slice {i : ℕ} (h : i < k) : (d.slice a k)[i]? = some (d.byte (a + i)) := by
  simp [slice, h]

lemma slice_sector {o : ℕ} (n : ℕ) (h : o + k ≤ blockSectorSize) :
    ((List.ofFn (d.sector n)).drop o).take k = d.slice (blockSectorSize * n + o) k := by
  refine List.ext_getElem ?_ fun i hi hi' => ?_
  · simp
    omega
  · have hik : i < k := by simpa using hi'
    simp only [List.getElem_take, List.getElem_drop, List.getElem_ofFn, slice, List.getElem_map,
      List.getElem_range, add_assoc]
    exact (d.byte_sector n ⟨o + i, by omega⟩).symm

end Block

namespace InodeDisk

/-- The sectors of the data, `DIV_ROUND_UP (length, BLOCK_SECTOR_SIZE)`. -/
def sectors (d : InodeDisk) : ℕ := (d.length.toNat + (blockSectorSize - 1)) / blockSectorSize

def base (d : InodeDisk) : ℕ := blockSectorSize * d.start

/-- The data are on the device, all of them. -/
structure Fits (d : InodeDisk) (disk : Block) : Prop where
  nonneg : 0 ≤ d.length
  extent : d.start + d.sectors ≤ disk.size

/-- How many of `size` bytes from `offset` on are bytes of the file. -/
def avail (d : InodeDisk) (size : ℤ) (offset : ℕ) : ℕ := (max 0 (min size (d.length - offset))).toNat

variable {d : InodeDisk} {disk : Block}

lemma place_eq (d : InodeDisk) (offset : ℕ) :
    blockSectorSize * (d.start + offset / blockSectorSize) + offset % blockSectorSize =
      d.base + offset := by
  rw [base, Nat.mul_add, Nat.add_assoc, Nat.div_add_mod]

lemma Fits.byteToSector_eq (h : d.Fits disk) (offset : ℕ) (ho : offset < d.length) :
    Fs.byteToSector d offset = d.start + offset / blockSectorSize ∧
      d.start + offset / blockSectorSize < disk.size := by
  have hext : d.start + (d.length.toNat + 511) / 512 ≤ disk.size := h.extent
  have hlt : d.start + offset / 512 < disk.size := by omega
  refine ⟨?_, hlt⟩
  rw [Fs.byteToSector, if_pos ho]
  exact Nat.mod_eq_of_lt (Nat.lt_trans hlt disk.size_lt)

end InodeDisk

namespace Fs

section Loops

variable {d : InodeDisk} {size : ℤ} {offset : ℕ}

lemma chunkSize_eq (d : InodeDisk) (size : ℤ) (offset : ℕ) :
    chunkSize d size offset = min size (min (d.length - offset) (512 - (offset % 512 : ℕ))) := by
  simp only [chunkSize, minLeft, blockSectorSize]
  split_ifs <;> omega

lemma avail_eq_zero (h : size ≤ 0 ∨ (chunkSize d size offset).toNat = 0) :
    d.avail size offset = 0 := by
  rw [chunkSize_eq] at h
  rw [avail]
  omega

/-- One turn: a chunk within the request, the file and a sector. -/
lemma chunk_spec {chunk : ℕ} (hchunk : (chunkSize d size offset).toNat = chunk)
    (h : ¬ (size ≤ 0 ∨ chunk = 0)) :
    offset + chunk ≤ d.length ∧ offset % blockSectorSize + chunk ≤ blockSectorSize ∧
      chunk ≤ size ∧ 0 < chunk ∧
      d.avail size offset = chunk + d.avail (size - chunk) (offset + chunk) := by
  rw [chunkSize_eq] at hchunk
  rw [avail, avail]
  simp only [blockSectorSize]
  omega

end Loops

@[simp] lemma disk_setDisk (s : Fs) (d : Block) : (s.setDisk d).disk = d := rfl

@[simp] lemma setDisk_setDisk (s : Fs) (d d' : Block) : (s.setDisk d).setDisk d' = s.setDisk d' := rfl

variable {d : InodeDisk}

section Runs

variable {s : Fs} {n : ℕ}

lemma blockRead_run (h : n < s.disk.size) : (blockRead n).run s = .ok (s.disk.sector n) s := by
  have hread : s.disk.read n = some (s.disk.sector n) := if_pos h
  simp only [blockRead, run_bind, run_get, hread]
  rfl

lemma blockWrite_run (h : n < s.disk.size) (data : Sector) :
    (blockWrite n data).run s =
      .ok () (s.setDisk { s.disk with sector := Function.update s.disk.sector n data }) := by
  have hwrite : s.disk.write n data =
      some { s.disk with sector := Function.update s.disk.sector n data } := if_pos h
  simp only [blockWrite, run_bind, run_get, hwrite]
  rfl

lemma readChunk_run (bounce : Bool) {o chunk : ℕ} (h : n < s.disk.size)
    (ho : o + chunk ≤ blockSectorSize) :
    (readChunk bounce n o chunk).run s = .ok (some (s.disk.slice (blockSectorSize * n + o) chunk)) s ∨
      bounce = false ∧ (readChunk bounce n o chunk).run s = .ok none s := by
  have hslice := slice_sector (d := s.disk) n ho
  rw [readChunk]
  split
  · rename_i hfast
    obtain ⟨rfl, rfl⟩ := hfast
    refine .inl ?_
    simp only [run_bind, blockRead_run h, ← hslice, List.drop_zero]
    rw [List.take_of_length_le (by simp)]
    rfl
  · split
    · refine .inl ?_
      simp only [run_bind, blockRead_run h, ← hslice]
      rfl
    · exact .inr ⟨Bool.eq_false_iff.mpr ‹_›, rfl⟩

lemma writeChunk_run (bounce : Bool) {o chunk : ℕ} (h : n < s.disk.size)
    (ho : o + chunk ≤ blockSectorSize) (bytes : ℕ → UInt8) :
    (writeChunk bounce n o chunk bytes).run s =
        .ok true (s.setDisk (s.disk.put (blockSectorSize * n + o) chunk bytes)) ∨
      bounce = false ∧ (writeChunk bounce n o chunk bytes).run s = .ok false s := by
  have hput (b : Sector) (hb : ∀ i, i.val < o ∨ o + chunk ≤ i.val → b i = s.disk.sector n i) :
      { s.disk with sector := Function.update s.disk.sector n (patchSector b o chunk bytes) } =
        s.disk.put (blockSectorSize * n + o) chunk bytes := by
    refine update_sector n ho _ fun i => ?_
    rw [patchSector, overwrite]
    split_ifs with h1 h2
    · congr 1
      omega
    · omega
    · omega
    · rw [hb i (by omega), byte_sector]
  rw [writeChunk]
  split
  · rename_i hfast
    obtain ⟨rfl, rfl⟩ := hfast
    refine .inl ?_
    have hall : (fun i : Fin blockSectorSize => bytes i) =
        patchSector (s.disk.sector n) 0 blockSectorSize bytes := by
      funext i
      simp [patchSector]
    simp only [run_bind, blockWrite_run h, hall, hput _ fun _ _ => rfl]
    rfl
  · rename_i hslow
    split
    · refine .inl ?_
      -- a chunk that fills its sector has gone the fast way
      rw [if_pos (by omega)]
      simp only [run_bind, blockRead_run h, blockWrite_run h, hput _ fun _ _ => rfl]
      rfl
    · exact .inr ⟨Bool.eq_false_iff.mpr ‹_›, rfl⟩

lemma readLoop_run (bounce : Bool) (hd : d.Fits s.disk) {turns : ℕ} (size : ℤ) (offset : ℕ)
    (hturns : size ≤ turns) : ∃ k ≤ d.avail size offset,
      (bounce = true → k = d.avail size offset) ∧
      (readLoop bounce d turns size offset).run s = .ok (s.disk.slice (d.base + offset) k) s := by
  induction turns generalizing size offset with
  | zero => exact ⟨0, zero_le _, fun _ => (avail_eq_zero (.inl hturns)).symm, rfl⟩
  | succ turns ih =>
    rw [readLoop]
    generalize hchunk : (chunkSize d size offset).toNat = chunk
    split
    · rename_i hstop
      exact ⟨0, zero_le _, fun _ => (avail_eq_zero (by rwa [hchunk])).symm, rfl⟩
    · rename_i hgo
      obtain ⟨hfile, hsector, hsize, hpos, havail⟩ := chunk_spec hchunk hgo
      obtain ⟨hidx, hlt⟩ := hd.byteToSector_eq offset (by omega)
      obtain ⟨k, hk, hfull, hrest⟩ := ih (size - chunk) (offset + chunk) (by omega)
      rw [hidx]
      obtain hread | ⟨hno, hread⟩ := readChunk_run bounce hlt hsector
      · refine ⟨chunk + k, by omega, fun hb => by rw [havail, hfull hb], ?_⟩
        rw [← add_assoc] at hrest
        simp only [run_bind, hread, d.place_eq, hrest]
        rw [← slice_append]
        rfl
      · refine ⟨0, zero_le _, fun hb => ?_, ?_⟩
        · rw [hno] at hb
          cases hb
        · simp only [run_bind, hread]
          rfl

lemma writeLoop_run (bounce : Bool) (hd : d.Fits s.disk) {turns : ℕ} (size : ℤ) (offset : ℕ)
    (hturns : size ≤ turns) (bytes : ℕ → UInt8) : ∃ k ≤ d.avail size offset,
      (bounce = true → k = d.avail size offset) ∧
      (writeLoop bounce d turns bytes size offset).run s =
        .ok k (s.setDisk (s.disk.put (d.base + offset) k bytes)) := by
  induction turns generalizing s size offset bytes with
  | zero =>
    refine ⟨0, zero_le _, fun _ => (avail_eq_zero (.inl hturns)).symm, ?_⟩
    rw [put_zero]
    rfl
  | succ turns ih =>
    rw [writeLoop]
    generalize hchunk : (chunkSize d size offset).toNat = chunk
    split
    · rename_i hstop
      refine ⟨0, zero_le _, fun _ => (avail_eq_zero (by rwa [hchunk])).symm, ?_⟩
      rw [put_zero]
      rfl
    · rename_i hgo
      obtain ⟨hfile, hsector, hsize, hpos, havail⟩ := chunk_spec hchunk hgo
      obtain ⟨hidx, hlt⟩ := hd.byteToSector_eq offset (by omega)
      rw [hidx]
      obtain hwrite | ⟨hno, hwrite⟩ := writeChunk_run bounce hlt hsector bytes
      · rw [d.place_eq] at hwrite
        obtain ⟨k, hk, hfull, hrest⟩ := ih
          (s := s.setDisk (s.disk.put (d.base + offset) chunk bytes)) ⟨hd.nonneg, hd.extent⟩
          (size - chunk) (offset + chunk) (by omega) fun i => bytes (chunk + i)
        refine ⟨chunk + k, by omega, fun hb => by rw [havail, hfull hb], ?_⟩
        rw [disk_setDisk, ← add_assoc, put_append] at hrest
        simp only [run_bind, hwrite, if_true, hrest]
        rfl
      · refine ⟨0, zero_le _, fun hb => ?_, ?_⟩
        · rw [hno] at hb
          cases hb
        · simp only [run_bind, hwrite, put_zero]
          rfl

end Runs

/-! ## The calls -/

section

variable {s : Fs} {a : ℕ} {i : Inode} (m : Mem) (size : ℤ) (offset : ℕ)

lemma inodeReadAt_run (hi : s.inodes.get? a = some i) (hd : i.data.Fits s.disk) :
    ∃ k ≤ i.data.avail size offset, (m.answer = true → k = i.data.avail size offset) ∧
      (inodeReadAt m a size offset).run s = .ok (s.disk.slice (i.data.base + offset) k) s := by
  obtain ⟨k, hk, hfull, hrun⟩ := readLoop_run m.answer hd size offset
    (Int.self_le_toNat size)
  refine ⟨k, hk, hfull, ?_⟩
  simp only [inodeReadAt, run_bind, run_get, hi, orThrow, run_pure]
  exact hrun

section

variable (bytes : ℕ → UInt8) (hi : s.inodes.get? a = some i)

include bytes hi

lemma inodeWriteAt_run (hdeny : i.denyWriteCnt = 0) (hd : i.data.Fits s.disk) :
    ∃ k ≤ i.data.avail size offset, (m.answer = true → k = i.data.avail size offset) ∧
      (inodeWriteAt m a bytes size offset).run s =
        .ok k (s.setDisk (s.disk.put (i.data.base + offset) k bytes)) := by
  obtain ⟨k, hk, hfull, hrun⟩ := writeLoop_run m.answer hd size offset
    (Int.self_le_toNat size) bytes
  refine ⟨k, hk, hfull, ?_⟩
  simp only [inodeWriteAt, run_bind, run_get, hi, orThrow, run_pure]
  rwa [if_neg (not_not.mpr hdeny)]

lemma inodeWriteAt_no_memory (hm : m.answer = false) (hsize : size < blockSectorSize) :
    (inodeWriteAt m a bytes size offset).run s = .ok 0 s := by
  have hloop (turns : ℕ) : (writeLoop false i.data turns bytes size offset).run s = .ok 0 s := by
    cases turns with
    | zero => rfl
    | succ turns =>
      have hchunk : (chunkSize i.data size offset).toNat ≠ blockSectorSize := by
        have hsize : size < 512 := hsize
        show _ ≠ 512
        rw [chunkSize_eq]
        omega
      rw [writeLoop]
      split_ifs
      · rfl
      · simp only [writeChunk, run_bind, hchunk, and_false, if_false, Bool.false_eq_true,
          run_pure]
  simp only [inodeWriteAt, run_bind, run_get, hi, orThrow, run_pure, hm]
  split_ifs
  · rfl
  · exact hloop _

lemma inodeWriteAt_denied (hdeny : i.denyWriteCnt ≠ 0) :
    (inodeWriteAt m a bytes size offset).run s = .ok 0 s := by
  simp only [inodeWriteAt, run_bind, run_get, hi, orThrow, run_pure]
  rw [if_pos hdeny]
  rfl

end

end

/-! ## A file is an array of bytes -/

def fileByte (s : Fs) (d : InodeDisk) (n : ℕ) : UInt8 := s.disk.byte (d.base + n)

/-- A call of `inode_write_at`. -/
structure Write where
  bytes : ℕ → UInt8
  size : ℤ
  offset : ℕ

/-- The part of the device that it writes, for a file. -/
def Write.part (w : Write) (d : InodeDisk) : Machinery.Part UInt8 :=
  ⟨d.base + w.offset, d.avail w.size w.offset, w.bytes⟩

def writeAll (m : Mem) (a : ℕ) : List Write → FsM Unit
  | [] => return ()
  | w :: l => do
    let _ ← inodeWriteAt m a w.bytes w.size w.offset
    writeAll m a l

section

variable {s : Fs} {m : Mem} {a : ℕ} {i : Inode}

lemma fileByte_put (d : InodeDisk) (offset k : ℕ) (bytes : ℕ → UInt8) :
    (s.setDisk (s.disk.put (d.base + offset) k bytes)).fileByte d =
      overwrite (s.fileByte d) offset k bytes := by
  funext n
  simp only [fileByte, disk_setDisk, byte_put, overwrite, Nat.add_assoc,
    Nat.add_le_add_iff_left, Nat.add_lt_add_iff_left, Nat.add_sub_add_left]

lemma sector_put_of_notMem {disk : Block} {size : ℤ} {offset k n : ℕ}
    (hk : k ≤ d.avail size offset) (hn : n < d.start ∨ d.start + d.sectors ≤ n)
    (bytes : ℕ → UInt8) : (disk.put (d.base + offset) k bytes).sector n = disk.sector n := by
  have hn : n < d.start ∨ d.start + (d.length.toNat + 511) / 512 ≤ n := hn
  rw [avail] at hk
  obtain rfl | hpos := Nat.eq_zero_or_pos k
  · rw [put_zero]
  · refine sector_put ?_
    show 512 * (n + 1) ≤ 512 * d.start + offset ∨ 512 * d.start + offset + k ≤ 512 * n
    omega

lemma writeAll_run (hi : s.inodes.get? a = some i) (hdeny : i.denyWriteCnt = 0)
    (hd : i.data.Fits s.disk) (hm : m.answer = true) (l : List Write) :
    ∃ disk : Block, (writeAll m a l).run s = .ok () (s.setDisk disk) ∧ disk.size = s.disk.size ∧
      disk.byte = overwriteAll s.disk.byte (l.map (·.part i.data)) := by
  induction l generalizing s with
  | nil => exact ⟨s.disk, rfl, rfl, rfl⟩
  | cons w l ih =>
    obtain ⟨k, -, hk, hrun⟩ := inodeWriteAt_run m w.size w.offset w.bytes hi hdeny hd
    rw [hk hm] at hrun
    obtain ⟨disk, hrest, hsize, hbyte⟩ := ih
      (s := s.setDisk (s.disk.put (i.data.base + w.offset) (i.data.avail w.size w.offset) w.bytes))
      hi ⟨hd.nonneg, hd.extent⟩
    refine ⟨disk, ?_, hsize, ?_⟩
    · simp only [writeAll, run_bind, hrun]
      exact hrest
    · rw [hbyte, disk_setDisk, byte_put]
      rfl

end

/-- **A file is an array of bytes**, with memory for a bounce buffer. A write that is not denied
moves `max 0 (min size (length - offset))` bytes and changes no others; a read returns as many. Two
sequences of disjoint writes that tell the same about every byte lead to the same file system,
however ordered and cut. -/
theorem file_byte_array {s : Fs} {m : Mem} {a : ℕ} {i : Inode} (hi : s.inodes.get? a = some i)
    (hd : i.data.Fits s.disk) (hm : m.answer = true) :
    (∀ bytes size offset, i.denyWriteCnt = 0 → ∃ disk : Block,
      (inodeWriteAt m a bytes size offset).run s =
        .ok (max 0 (min size (i.data.length - (offset : ℕ)))).toNat (s.setDisk disk) ∧
      (∀ n, (s.setDisk disk).fileByte i.data n =
        if offset ≤ n ∧ n < offset + (max 0 (min size (i.data.length - offset))).toNat
        then bytes (n - offset) else s.fileByte i.data n) ∧
      ∀ n, n < i.data.start ∨ i.data.start + i.data.sectors ≤ n →
        disk.sector n = s.disk.sector n) ∧
    (∀ size offset, (inodeReadAt m a size offset).run s =
      .ok ((List.range (max 0 (min size (i.data.length - (offset : ℕ)))).toNat).map
        fun n => s.fileByte i.data (offset + n)) s) ∧
    ∀ l l' : List Write, i.denyWriteCnt = 0 →
      (l.map (·.part i.data)).Pairwise Machinery.Part.Apart →
      (l'.map (·.part i.data)).Pairwise Machinery.Part.Apart →
      (∀ n x, (∃ w ∈ l, (w.part i.data).Tells n x) ↔ ∃ w ∈ l', (w.part i.data).Tells n x) →
      ∃ s', (writeAll m a l).run s = .ok () s' ∧ (writeAll m a l').run s = .ok () s' := by
  refine ⟨fun bytes size offset hdeny => ?_, fun size offset => ?_, fun l l' hdeny hl hl' htell => ?_⟩
  · obtain ⟨k, hle, hk, hrun⟩ := inodeWriteAt_run m size offset bytes hi hdeny hd
    rw [hk hm] at hrun
    refine ⟨_, hrun, fun n => ?_, fun n hn => ?_⟩
    · rw [fileByte_put]
      rfl
    · exact sector_put_of_notMem (Nat.le_refl _) hn bytes
  · obtain ⟨k, -, hk, hrun⟩ := inodeReadAt_run m size offset hi hd
    rw [hk hm] at hrun
    rw [hrun, Block.slice]
    simp only [fileByte, Nat.add_assoc]
    rfl
  · obtain ⟨disk, hrun, hsize, hbyte⟩ := writeAll_run hi hdeny hd hm l
    obtain ⟨disk', hrun', hsize', hbyte'⟩ := writeAll_run hi hdeny hd hm l'
    have hsame : disk = disk' := by
      refine Block.ext_byte (hsize.trans hsize'.symm) ?_
      rw [hbyte, hbyte']
      refine overwriteAll_congr hl hl' fun n x => ?_
      simpa using htell n x
    exact ⟨s.setDisk disk, hrun, hsame ▸ hrun'⟩

/-- A device of five sectors, with one open file of 600 bytes. -/
def oneFile : Fs where
  disk := ⟨5, fun _ _ => 0, by decide⟩
  inodes := Heap.empty.alloc ⟨2, 1, false, 0, ⟨3, 600, inodeMagic⟩⟩
  files := Heap.empty
  dirs := Heap.empty
  freeMap := ⟨5, fun _ => 0x1f⟩
  freeMapFile := none

/-- Of 600 bytes from 100 on, 500 are written, and read back. -/
theorem file_byte_array_oneFile : ∃ disk : Block,
    (inodeWriteAt .plenty 0 (fun _ => 7) 600 100).run oneFile = .ok 500 (oneFile.setDisk disk) ∧
    (∀ n, (oneFile.setDisk disk).fileByte ⟨3, 600, inodeMagic⟩ n =
      if 100 ≤ n ∧ n < 600 then 7 else oneFile.fileByte ⟨3, 600, inodeMagic⟩ n) := by
  have hfits : (⟨3, 600, inodeMagic⟩ : InodeDisk).Fits oneFile.disk := ⟨by decide, by decide⟩
  have hi : oneFile.inodes.get? 0 = some ⟨2, 1, false, 0, ⟨3, 600, inodeMagic⟩⟩ := by decide
  obtain ⟨disk, hrun, hbyte, -⟩ := (file_byte_array hi hfits Mem.answer_plenty).1 (fun _ => 7) 600 100 rfl
  exact ⟨disk, hrun, hbyte⟩

end Fs

end Pintos
