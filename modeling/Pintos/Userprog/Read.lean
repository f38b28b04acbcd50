import Pintos.Filesys.Contents
import Pintos.Filesys.FreeMap
import Pintos.Machinery.Stores
import Pintos.Userprog.Syscall

/-!
# Userprog/Read — `read`, and the caller's buffer

From a file, `read` stores the bytes one behind the other, and no more than were asked for. From the
keyboard it has the buffer for an array of `unsigned`, so that a key takes four bytes: it stores
zeros behind each key, and past the end of the buffer.
-/

namespace Pintos.Reading

open Machinery Fs EStateM List Nat

/-! ## The machine -/

/-- Memory, the keys that will be pressed, `file_descriptors` and the file system. -/
structure Machine where
  memory : Memory 32
  keys : ℕ → UInt8
  fileDescriptors : ℕ → Option ℕ
  fs : Fs

abbrev ReadM := EStateM FsStop Machine

/-- A call into the file system. -/
abbrev onFs {α : Type} : FsM α → ReadM α := onPart Machine.fs fun s fs => { s with fs }

def Machine.put (s : Machine) (buffer : BitVec 32) (k : ℕ) (bytes : List UInt8) : Machine :=
  { s with memory := s.memory.storeAll buffer k bytes }

/-- `memcpy`, and what `block_read` stores. -/
def put (buffer : BitVec 32) (k : ℕ) (bytes : List UInt8) : ReadM Unit :=
  modify fun s => s.put buffer k bytes

/-- `input_getc`, which waits for a key. -/
def inputGetc : ReadM UInt8 := do
  let s ← get
  set { s with keys := fun i => s.keys (i + 1) }
  return s.keys 0

section

variable {s : Machine}

@[simp] lemma fs_put (buffer : BitVec 32) (k : ℕ) (bytes : List UInt8) :
    (s.put buffer k bytes).fs = s.fs := rfl

lemma put_append (buffer : BitVec 32) (k : ℕ) (l l' : List UInt8) :
    s.put buffer k (l ++ l') = (s.put buffer k l).put buffer (k + l.length) l' := by
  rw [Machine.put, Memory.storeAll_append]
  rfl

end

/-! ## `read` -/

/-- The loop of `inode_read_at`, into a buffer. A turn moves at least a byte. -/
def readLoop (bounce : Bool) (d : InodeDisk) (buffer : BitVec 32) : ℕ → ℤ → ℕ → ℕ → ReadM ℕ
  | 0, _, _, bytesRead => return bytesRead
  | turns + 1, size, offset, bytesRead =>
    let chunk := (Fs.chunkSize d size offset).toNat
    if size ≤ 0 ∨ chunk = 0 then return bytesRead
    else do
      let bytes ← onFs (readChunk bounce (byteToSector d offset) (offset % blockSectorSize) chunk)
      match bytes with
      | none => return bytesRead
      | some bytes =>
        put buffer bytesRead bytes
        readLoop bounce d buffer turns (size - chunk) (offset + chunk) (bytesRead + chunk)

/-- `inode_read_at`. -/
def inodeReadAt (m : Mem) (inode : ℕ) (buffer : BitVec 32) (size : ℤ) (offset : ℕ) : ReadM ℕ := do
  let s ← get
  let i ← onFs (deref (s.fs.inodes.get? inode))
  readLoop m.answer i.data buffer size.toNat size offset 0

/-- `file_read`. -/
def fileRead (m : Mem) (file : ℕ) (buffer : BitVec 32) (size : ℤ) : ReadM ℕ := do
  let s ← get
  let f ← onFs (deref (s.fs.files.get? file))
  let bytesRead ← inodeReadAt m f.inode buffer size f.pos
  onFs (advance file bytesRead)
  return bytesRead

/-- The loop of `read`, for standard input: `usp[i]` is an `unsigned`. -/
def keyLoop (buffer : BitVec 32) : ℕ → ℕ → ReadM Unit
  | 0, _ => pure ()
  | turns + 1, i => do
    let key ← inputGetc
    put buffer (4 * i) ((List.range 4).map (leByte key.toNat))
    keyLoop buffer turns (i + 1)

/-- `read`. -/
def read (m : Mem) (fd : ℤ) (buffer length : BitVec 32) : ReadM ℤ :=
  if fd = 0 then do
    keyLoop buffer length.toNat 0
    return toInt32 length.toNat
  else do
    let s ← get
    match fdToFilePtr s.fileDescriptors fd with
    | none => return -1
    | some file => do
      let size ← fileRead m file buffer (toInt32 length.toNat)
      return size

/-! ## What it should do -/

/-- A byte of a file, wherever it is on the device. -/
def fileByte (disk : Block) (d : InodeDisk) (p : ℕ) : UInt8 :=
  disk.sector (byteToSector d p) (Block.inSector p)

/-- `k` bytes of a file from `p` on. -/
def fileSlice (disk : Block) (d : InodeDisk) (p k : ℕ) : List UInt8 :=
  (List.range k).map fun i => fileByte disk d (p + i)

/-- The bytes that there are: the keys, or those of the file behind its position. -/
def Machine.source (s : Machine) (fd : ℤ) (i : ℕ) : UInt8 :=
  if fd = 0 then s.keys i
  else
    match (fdToFilePtr s.fileDescriptors fd).bind s.fs.files.get? with
    | none => 0
    | some f =>
      match s.fs.inodes.get? f.inode with
      | none => 0
      | some inode => fileByte s.fs.disk inode.data (f.pos + i)

/-- A call stays inside the buffer; and if it returns `n`, the first `n` bytes are in their
places. -/
structure StaysInside (m : Mem) (fd : ℤ) (buffer length : BitVec 32) (s : Machine) : Prop where
  stays : s.memory.Within (final ((read m fd buffer length).run s)).memory buffer length.toNat
  stored : ∀ n s', (read m fd buffer length).run s = .ok n s' → 0 ≤ n →
    s.memory.Within s'.memory buffer n.toNat ∧
      ∀ i < n.toNat, s'.memory.byte (buffer + BitVec.ofNat 32 i) = s.source fd i

/-! ## Files -/

variable {s : Machine} {fd : ℤ} {disk : Block} {d : InodeDisk} {p k chunk : ℕ}

@[simp] lemma length_fileSlice : (fileSlice disk d p k).length = k := by
  rw [fileSlice, length_map, length_range]

lemma fileSlice_append (k' : ℕ) :
    fileSlice disk d p k ++ fileSlice disk d (p + k) k' = fileSlice disk d p (k + k') := by
  simp only [fileSlice, range_add, map_append, map_map, add_assoc, Function.comp_def]

lemma slice_eq_fileSlice (hfile : p + chunk ≤ d.length)
    (hsector : p % blockSectorSize + chunk ≤ blockSectorSize) :
    disk.slice (blockSectorSize * byteToSector d p + p % blockSectorSize) chunk =
      fileSlice disk d p chunk := by
  refine map_congr_left fun i hi => ?_
  have hi : i < chunk := mem_range.mp hi
  have hplace : Block.inSector (p + i) = ⟨p % blockSectorSize + i, by omega⟩ := by
    simp only [Block.inSector, blockSectorSize] at hsector ⊢
    refine Fin.ext ?_
    show (p + i) % 512 = p % 512 + i
    omega
  have hidx : byteToSector d (p + i) = byteToSector d p := by
    simp only [blockSectorSize] at hsector
    have hdiv : (p + i) / 512 = p / 512 := by omega
    rw [byteToSector, if_pos (by omega), byteToSector, if_pos (by omega), blockSectorSize, hdiv]
  rw [fileByte, hplace, hidx, add_assoc]
  exact disk.byte_sector (byteToSector d p) ⟨p % blockSectorSize + i, by omega⟩

/-- One sector: its bytes, or nothing for want of a bounce buffer, or a panic. -/
lemma readChunk_cases {fs : Fs} {bounce : Bool} {r : EStateM.Result FsStop Fs (Option (List UInt8))}
    (hrun : (readChunk bounce (byteToSector d p) (p % blockSectorSize) chunk).run fs = r)
    (hfile : p + chunk ≤ d.length) (hsector : p % blockSectorSize + chunk ≤ blockSectorSize) :
    r = .ok (some (fileSlice fs.disk d p chunk)) fs ∨ r = .ok none fs ∨ r = .error .panic fs := by
  rw [← hrun]
  by_cases hlt : byteToSector d p < fs.disk.size
  · obtain hread | ⟨-, hread⟩ := readChunk_run bounce hlt hsector
    · rw [slice_eq_fileSlice hfile hsector] at hread
      exact .inl hread
    · exact .inr (.inl hread)
  · have hread : (blockRead (byteToSector d p)).run fs = .error .panic fs := by
      simp only [blockRead, run_bind, run_get, Block.read, if_neg hlt]
      rfl
    rw [readChunk]
    split
    · simp only [run_bind, hread, or_true]
    · split
      · simp only [run_bind, hread, or_true]
      · exact .inr (.inl rfl)

/-- The loop stores what the loop of the file system reads. -/
lemma readLoop_run (bounce : Bool) (buffer : BitVec 32) (turns : ℕ) (size : ℤ) (bytesRead : ℕ)
    (s : Machine) : ∃ k ≤ size.toNat,
      ((readLoop bounce d buffer turns size p bytesRead).run s =
          .ok (bytesRead + k) (s.put buffer bytesRead (fileSlice s.fs.disk d p k)) ∧
        (Fs.readLoop bounce d turns size p).run s.fs = .ok (fileSlice s.fs.disk d p k) s.fs) ∨
      ∃ e, (readLoop bounce d buffer turns size p bytesRead).run s =
          .error e (s.put buffer bytesRead (fileSlice s.fs.disk d p k)) ∧
        (Fs.readLoop bounce d turns size p).run s.fs = .error e s.fs := by
  induction turns generalizing size p bytesRead s with
  | zero => exact ⟨0, zero_le _, .inl ⟨rfl, rfl⟩⟩
  | succ turns ih =>
    rw [readLoop, Fs.readLoop]
    generalize hchunk : (Fs.chunkSize d size p).toNat = chunk
    split
    · exact ⟨0, zero_le _, .inl ⟨rfl, rfl⟩⟩
    · rename_i hgo
      obtain ⟨hfile, hsector, hsize, -, -⟩ := chunk_spec hchunk hgo
      generalize hread : (readChunk bounce (byteToSector d p) (p % blockSectorSize) chunk).run s.fs = r
      obtain rfl | rfl | rfl := readChunk_cases hread hfile hsector
      · obtain ⟨k, hk, hrest⟩ := ih (size - chunk) (bytesRead + chunk)
          (s.put buffer bytesRead (fileSlice s.fs.disk d p chunk))
        refine ⟨chunk + k, by omega, ?_⟩
        have hput : (s.put buffer bytesRead (fileSlice s.fs.disk d p chunk)).put buffer
            (bytesRead + chunk) (fileSlice s.fs.disk d (p + chunk) k) =
              s.put buffer bytesRead (fileSlice s.fs.disk d p (chunk + k)) := by
          rw [← fileSlice_append, put_append, length_fileSlice]
        rw [fs_put, hput, add_assoc] at hrest
        rw [run_bind, run_onPart_ok hread, run_bind, hread]
        obtain ⟨hok, hfs⟩ | ⟨e, herror, hfs⟩ := hrest
        · refine .inl ⟨hok, ?_⟩
          simp only [run_bind, hfs, ← fileSlice_append]
          rfl
        · refine .inr ⟨e, herror, ?_⟩
          simp only [run_bind, hfs]
      · refine ⟨0, zero_le _, .inl ?_⟩
        rw [run_bind, run_onPart_ok hread, run_bind, hread]
        exact ⟨rfl, rfl⟩
      · refine ⟨0, zero_le _, .inr ⟨.panic, ?_⟩⟩
        rw [run_bind, run_onPart_error hread, run_bind, hread]
        exact ⟨rfl, rfl⟩

/-- How a call fills a buffer: with the first bytes there are. It returns their number; and they are
what the file system reads, with `r'`. -/
def Fills (s : Machine) (buffer : BitVec 32) (limit : ℕ) (source : ℕ → UInt8)
    (r' : EStateM.Result FsStop Fs (List UInt8)) (r : EStateM.Result FsStop Machine ℕ) : Prop :=
  ∃ k ≤ limit, (final r).memory = s.memory.storeAll buffer 0 ((List.range k).map source) ∧
    ∀ n s', r = .ok n s' → n = k ∧ r' = .ok ((List.range k).map source) s'.fs

variable {buffer length : BitVec 32} {limit : ℕ} {source : ℕ → UInt8}
  {r' : EStateM.Result FsStop Fs (List UInt8)}

lemma fills_error (e : FsStop) : Fills s buffer limit source r' (.error e s) :=
  ⟨0, Nat.zero_le _, rfl, fun _ _ h => by cases h⟩

lemma fills_inodeReadAt {inode : ℕ} {i : Fs.Inode} (m : Mem) (hi : s.fs.inodes.get? inode = some i)
    (buffer : BitVec 32) (size : ℤ) (offset : ℕ) :
    Fills s buffer size.toNat (fun j => fileByte s.fs.disk i.data (offset + j))
      ((Fs.inodeReadAt m inode size offset).run s.fs)
      ((inodeReadAt m inode buffer size offset).run s) := by
  have hderef : (deref (s.fs.inodes.get? inode)).run s.fs = .ok i s.fs := by rw [hi]; rfl
  have hstart : (inodeReadAt m inode buffer size offset).run s =
      (readLoop m.answer i.data buffer size.toNat size offset 0).run s := by
    rw [inodeReadAt, run_bind, run_get]
    dsimp only
    rw [run_bind, run_onPart_ok hderef]
  have hfs : (Fs.inodeReadAt m inode size offset).run s.fs =
      (Fs.readLoop m.answer i.data size.toNat size offset).run s.fs := by
    rw [Fs.inodeReadAt, run_bind, run_get]
    dsimp only
    rw [run_bind, hderef]
  rw [hstart, hfs]
  obtain ⟨k, hk, ⟨hok, hread⟩ | ⟨e, herror, -⟩⟩ := readLoop_run m.answer buffer size.toNat size 0 s
  · rw [hok, hread, zero_add]
    exact ⟨k, hk, rfl, fun n s' h => by cases h; exact ⟨rfl, rfl⟩⟩
  · rw [herror]
    exact ⟨k, hk, rfl, fun n s' h => by cases h⟩

lemma Fills.bind {x : ReadM ℕ} {y : FsM (List UInt8)} {f : ℕ → ReadM ℕ}
    {g : List UInt8 → FsM (List UInt8)}
    (h : Fills s buffer limit source (y.run s.fs) (x.run s))
    (hf : ∀ bytes s', ∃ s'', (f bytes.length).run s' = .ok bytes.length s'' ∧
      s''.memory = s'.memory ∧ (g bytes).run s'.fs = .ok bytes s''.fs) :
    Fills s buffer limit source ((y >>= g).run s.fs) ((x >>= f).run s) := by
  obtain ⟨k, hk, hmemory, hcount⟩ := h
  rw [run_bind, run_bind]
  cases hx : x.run s with
  | error e s' =>
    rw [hx] at hmemory
    exact ⟨k, hk, hmemory, fun _ _ h => by cases h⟩
  | ok n s' =>
    obtain ⟨rfl, hy⟩ := hcount n s' hx
    obtain ⟨s'', hrun, hsame, hg⟩ := hf ((List.range n).map source) s'
    rw [length_map, length_range] at hrun
    rw [hx] at hmemory
    dsimp only
    rw [hrun, hy]
    refine ⟨n, hk, hsame.trans hmemory, fun n' t h => ?_⟩
    cases h
    exact ⟨rfl, hg⟩

/-- What `file_read` stores is what the `file_read` of the file system reads. -/
lemma fills_fileRead (hfd : fd ≠ 0) {file : ℕ}
    (hfile : fdToFilePtr s.fileDescriptors fd = some file) (m : Mem) (buffer : BitVec 32)
    (size : ℤ) : Fills s buffer size.toNat (s.source fd) ((Fs.fileRead m file size).run s.fs)
      ((fileRead m file buffer size).run s) := by
  have hsource : ∀ f i, s.fs.files.get? file = some f → s.fs.inodes.get? f.inode = some i →
      s.source fd = fun j => fileByte s.fs.disk i.data (f.pos + j) := by
    intro f i hf hi
    funext j
    rw [Machine.source, if_neg hfd, hfile, Option.bind_some, hf]
    dsimp only
    rw [hi]
  rw [fileRead, Fs.fileRead, run_bind, run_get, run_bind, run_get]
  dsimp only
  cases hf : s.fs.files.get? file with
  | none => exact fills_error .wild
  | some f =>
    show Fills s buffer size.toNat (s.source fd) ((Fs.inodeReadAt m f.inode size f.pos >>= _).run s.fs)
      ((inodeReadAt m f.inode buffer size f.pos >>= _).run s)
    refine Fills.bind ?_ fun bytes s' => ⟨_, rfl, rfl, rfl⟩
    cases hi : s.fs.inodes.get? f.inode with
    | none =>
      have hwild : (deref (s.fs.inodes.get? f.inode)).run s.fs = .error .wild s.fs := by rw [hi]; rfl
      rw [inodeReadAt, run_bind, run_get]
      dsimp only
      rw [run_bind, run_onPart_error hwild]
      exact fills_error .wild
    | some i =>
      rw [hsource f i hf hi]
      exact fills_inodeReadAt m hi buffer size f.pos

/-! ## The keyboard -/

lemma does_keyLoop (buffer : BitVec 32) (turns i : ℕ) (s : Machine) :
    Does (keyLoop buffer turns i) s fun _ s' => ∃ l, s'.memory.log = s.memory.log ++ l ∧
      ∀ n, 4 * i ≤ n → n < 4 * (i + turns) → buffer + BitVec.ofNat 32 n ∈ l := by
  induction turns generalizing i s with
  | zero =>
    refine (does_pure _).mpr ⟨[], (append_nil _).symm, fun n hlow hhigh => ?_⟩
    omega
  | succ turns ih =>
    rw [keyLoop]
    simp only [inputGetc, put, does_bind, does_get, does_set, does_pure, does_modify]
    refine (ih (i + 1) _).mono ?_
    rintro - s' ⟨l, hl, hmem⟩
    rw [Machine.put, Memory.log_storeAll] at hl
    refine ⟨_, hl.trans (append_assoc _ _ _), fun n hlow hhigh => ?_⟩
    by_cases hn : n < 4 * (i + 1)
    · refine mem_append_left l (mem_map.mpr ⟨n, ?_, rfl⟩)
      rw [length_map, length_range, mem_range'_1]
      omega
    · exact mem_append_right _ (hmem n (by omega) (by omega))

lemma not_within_keyLoop (hlength : length ≠ 0) {s s' : Machine}
    (hrun : (keyLoop buffer length.toNat 0).run s = .ok () s') :
    ¬ s.memory.Within s'.memory buffer length.toNat := by
  intro hwithin
  obtain ⟨l, hl, hmem⟩ := (does_keyLoop buffer length.toNat 0 s).of_run hrun
  obtain ⟨l', hl', hin⟩ := hwithin.log
  obtain rfl : l = l' := append_cancel_left (hl.symm.trans hl')
  have hpos : length.toNat ≠ 0 := fun h => hlength (BitVec.eq_of_toNat_eq h)
  have hlt := hin _ (hmem length.toNat (by omega) (by omega))
  rw [Memory.offset_add_ofNat length.isLt] at hlt
  exact Nat.lt_irrefl _ hlt

/-! ## The call -/

lemma read_stdin (m : Mem) (buffer length : BitVec 32) (s : Machine) :
    ∃ s', (keyLoop buffer length.toNat 0).run s = .ok () s' ∧
      (read m 0 buffer length).run s = .ok (toInt32 length.toNat) s' := by
  obtain ⟨_, s', hrun, -⟩ := does_keyLoop buffer length.toNat 0 s
  refine ⟨s', hrun, ?_⟩
  rw [read, if_pos rfl, run_bind, hrun]
  rfl

lemma Fills.staysInside {m : Mem} {x : ReadM ℕ}
    (hx : Fills s buffer limit (s.source fd) r' (x.run s)) (hlimit : limit ≤ length.toNat)
    (hrun : (read m fd buffer length).run s = (x >>= fun size => return (size : ℤ)).run s) :
    StaysInside m fd buffer length s := by
  obtain ⟨k, hk, hmemory, hcount⟩ := hx
  have hlen : ((range k).map (s.source fd)).length = k := by rw [length_map, length_range]
  have hwithin := Memory.within_storeAll (l := (range k).map (s.source fd)) s.memory buffer
    (by omega)
  rw [hlen, ← hmemory] at hwithin
  rw [run_bind] at hrun
  cases hend : x.run s with
  | error e s' =>
    rw [hend] at hrun hwithin
    refine ⟨?_, fun n t hok => ?_⟩
    · rw [hrun]
      exact hwithin.mono (Nat.le_trans hk hlimit)
    · rw [hrun] at hok
      cases hok
  | ok n s' =>
    obtain ⟨rfl, -⟩ := hcount n s' hend
    rw [hend] at hrun hwithin hmemory
    refine ⟨?_, fun n t hok _ => ?_⟩
    · rw [hrun]
      exact hwithin.mono (Nat.le_trans hk hlimit)
    · rw [hrun] at hok
      cases hok
      refine ⟨hwithin, fun i hi => ?_⟩
      have hi : i < n := hi
      have hget : ((range n).map (s.source fd))[i]? = some (s.source fd i) := by
        rw [getElem?_map, getElem?_range hi]
        rfl
      have hbyte : (s.memory.storeAll buffer 0 ((range n).map (s.source fd))).byte
          (buffer + BitVec.ofNat 32 (0 + i)) = s.source fd i := Memory.byte_storeAll (by omega) hget
      rwa [Nat.zero_add, ← hmemory] at hbyte

/-- **When `read` stays inside the buffer**: for files; and with standard input, if no key is asked
for. -/
theorem read_stays_inside_iff (m : Mem) (fd : ℤ) (buffer length : BitVec 32) (s : Machine) :
    StaysInside m fd buffer length s ↔ fd ≠ 0 ∨ length = 0 := by
  constructor
  · rintro hinside
    by_contra hnot
    rw [not_or, not_not] at hnot
    obtain ⟨rfl, hlength⟩ := hnot
    obtain ⟨s', hkeys, hread⟩ := read_stdin m buffer length s
    have hstays := hinside.stays
    rw [hread] at hstays
    exact not_within_keyLoop hlength hkeys hstays
  · intro hcond
    by_cases hfd : fd = 0
    · have hlength : length.toNat = 0 := congrArg BitVec.toNat (hcond.resolve_left (not_not.mpr hfd))
      subst hfd
      obtain ⟨s', hkeys, hread⟩ := read_stdin m buffer length s
      rw [hlength] at hkeys hread
      cases hkeys
      refine ⟨?_, fun n s' hok _ => ?_⟩
      · rw [hread]
        exact .refl _ _ _
      · cases hread.symm.trans hok
        exact ⟨.refl _ _ _, fun i hi => absurd hi (Nat.not_lt_zero i)⟩
    · cases hfile : fdToFilePtr s.fileDescriptors fd with
      | none =>
        have hread : (read m fd buffer length).run s = .ok (-1) s := by
          rw [read, if_neg hfd, run_bind, run_get]
          dsimp only
          rw [hfile]
          rfl
        refine ⟨?_, fun n s' hok hn => ?_⟩
        · rw [hread]
          exact .refl _ _ _
        · cases hread.symm.trans hok
          exact absurd hn (by decide)
      | some file =>
        have hlimit : (toInt32 length.toNat).toNat ≤ length.toNat := by
          rw [toInt32]
          omega
        refine (fills_fileRead hfd hfile m buffer _).staysInside hlimit ?_
        rw [read, if_neg hfd, run_bind, run_get]
        dsimp only
        rw [hfile]

/-- Somebody keeps pressing a key, and no byte of memory is 0. -/
def keyPressed : Machine where
  memory := ⟨fun _ => 0xff, []⟩
  keys _ := 0x41
  fileDescriptors _ := none
  fs := ⟨⟨0, fun _ _ => 0, by decide⟩, .empty, .empty, .empty, ⟨0, fun _ => 0⟩, none⟩

/-- One key, and the byte behind a buffer of one byte is 0. -/
theorem read_overruns : ¬ StaysInside .plenty 0 0x1000 1 keyPressed := by
  intro hinside
  have hsame := hinside.stays.byte 0x1001 (by decide)
  exact absurd hsame (by decide)

end Pintos.Reading
