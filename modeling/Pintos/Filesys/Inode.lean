import Pintos.Devices.Block
import Pintos.Lib.Bitmap
import Pintos.Machinery.Heap
import Pintos.Machinery.Stopping
import Pintos.Threads.Vaddr

/-!
# Filesys/Inode — inodes on disk and in memory

An inode on disk is a sector that says where the file's data start and how long the file is. In
memory there is one `struct inode` for as long as somebody has the file open, on the list
`open_inodes`, newest first. What needs the free map is in `Filesys/FreeMap`.
-/

namespace Pintos

open Machinery

/-! ## Allocation -/

/-- What `malloc` answers, to a call known by its path of calls. -/
def Mem : Type := List ℕ → Bool

/-- The answer here… -/
def Mem.answer (m : Mem) : Bool := m []

/-- …and the answers in the `i`-th call from here. -/
def Mem.sub (m : Mem) (i : ℕ) : Mem := fun path => m (i :: path)

/-- There is always memory. -/
def Mem.plenty : Mem := fun _ => true

@[simp] lemma Mem.answer_plenty : Mem.plenty.answer = true := rfl

@[simp] lemma Mem.sub_plenty (i : ℕ) : Mem.plenty.sub i = Mem.plenty := rfl

lemma Mem.sub_of_plenty {m : Mem} (h : m = .plenty) (i : ℕ) : m.sub i = .plenty := by
  rw [h, sub_plenty]

/-! ## The state -/

/-- `struct inode_disk`, but for its unused words. -/
structure InodeDisk where
  start : ℕ
  length : ℤ
  magic : ℕ
  deriving DecidableEq, Repr

/-- `INODE_MAGIC`. -/
def inodeMagic : ℕ := 0x494e4f44

namespace InodeDisk

def word (s : Sector) (k : ℕ) : ℕ := leWord fun j => s (Block.inSector (4 * k + j))

/-- The inode in a sector… -/
def ofSector (s : Sector) : InodeDisk := ⟨word s 0, toInt32 (word s 1), word s 2⟩

/-- …and the sector of an inode. -/
def toSector (d : InodeDisk) : Sector := fun i =>
  match i.val / 4 with
  | 0 => leByte d.start (i.val % 4)
  | 1 => leByte (d.length % 2 ^ 32).toNat (i.val % 4)
  | 2 => leByte d.magic (i.val % 4)
  | _ => 0

end InodeDisk

namespace Fs

/-- `struct inode`. -/
structure Inode where
  sector : ℕ
  openCnt : ℤ
  removed : Bool
  denyWriteCnt : ℤ
  data : InodeDisk
  deriving DecidableEq, Repr

/-- `struct file`; `inode` is an address. -/
structure File where
  inode : ℕ
  pos : ℕ
  denyWrite : Bool
  deriving DecidableEq, Repr

/-- `struct dir`. -/
structure Dir where
  inode : ℕ
  pos : ℕ
  deriving DecidableEq, Repr

end Fs

/-- The device, `open_inodes`, the open files and directories, the free map and its file. -/
structure Fs where
  disk : Block
  inodes : Heap Fs.Inode
  files : Heap Fs.File
  dirs : Heap Fs.Dir
  freeMap : Bitmap
  freeMapFile : Option ℕ

/-- How a call does not return. -/
inductive FsStop where
  /-- a failing `ASSERT`, or a `PANIC` -/
  | panic
  /-- a pointer is followed that points to nothing -/
  | wild
  deriving DecidableEq, Repr

abbrev FsM := EStateM FsStop Fs

namespace Fs

def setDisk (s : Fs) (d : Block) : Fs := { s with disk := d }

def setInodes (s : Fs) (h : Heap Inode) : Fs := { s with inodes := h }

/-- `ASSERT`. -/
abbrev assert (c : Prop) [Decidable c] : FsM Unit := require .panic c

/-- What an option holds, and a panic if it holds nothing. -/
abbrev orPanic {α : Type} : Option α → FsM α := orThrow .panic

/-- What a pointer points to. -/
abbrev deref {α : Type} : Option α → FsM α := orThrow .wild

def blockRead (n : ℕ) : FsM Sector := do
  let s ← get
  orPanic (s.disk.read n)

def blockWrite (n : ℕ) (data : Sector) : FsM Unit := do
  let s ← get
  let d ← orPanic (s.disk.write n data)
  set (s.setDisk d)

/-! ## Reading and writing -/

/-- `byte_to_sector`, with -1 past the end. -/
def byteToSector (d : InodeDisk) (pos : ℕ) : ℕ :=
  if pos < d.length then (d.start + pos / blockSectorSize) % 2 ^ 32 else 2 ^ 32 - 1

/-- `min_left`: what is left of the file, and of the sector. -/
def minLeft (d : InodeDisk) (offset : ℕ) : ℤ :=
  let inodeLeft : ℤ := d.length - offset
  let sectorLeft : ℤ := blockSectorSize - (offset % blockSectorSize : ℕ)
  if inodeLeft < sectorLeft then inodeLeft else sectorLeft

/-- `chunk_size` in the loops of `inode_read_at` and `inode_write_at`. -/
def chunkSize (d : InodeDisk) (size : ℤ) (offset : ℕ) : ℤ :=
  if size < minLeft d offset then size else minLeft d offset

/-- One sector's bytes of `inode_read_at`; `none` for want of a bounce buffer. -/
def readChunk (bounce : Bool) (sectorIdx sectorOfs chunk : ℕ) : FsM (Option (List UInt8)) :=
  if sectorOfs = 0 ∧ chunk = blockSectorSize then do
    let b ← blockRead sectorIdx
    return some (List.ofFn b)
  else if bounce then do
    let b ← blockRead sectorIdx
    return some (((List.ofFn b).drop sectorOfs).take chunk)
  else return none

/-- The loop of `inode_read_at`. A turn moves at least a byte. -/
def readLoop (bounce : Bool) (d : InodeDisk) : ℕ → ℤ → ℕ → FsM (List UInt8)
  | 0, _, _ => return []
  | turns + 1, size, offset =>
    let chunk := (chunkSize d size offset).toNat
    if size ≤ 0 ∨ chunk = 0 then return []
    else do
      let bytes ← readChunk bounce (byteToSector d offset) (offset % blockSectorSize) chunk
      match bytes with
      | none => return []
      | some bytes =>
        let rest ← readLoop bounce d turns (size - chunk) (offset + chunk)
        return bytes ++ rest

/-- `inode_read_at`: the bytes that were read. -/
def inodeReadAt (m : Mem) (inode : ℕ) (size : ℤ) (offset : ℕ) : FsM (List UInt8) := do
  let s ← get
  let i ← deref (s.inodes.get? inode)
  readLoop m.answer i.data size.toNat size offset

/-- A bounce buffer with some of its bytes replaced. -/
def patchSector (b : Sector) (sectorOfs chunk : ℕ) (bytes : ℕ → UInt8) : Sector := fun i =>
  if sectorOfs ≤ i.val ∧ i.val < sectorOfs + chunk then bytes (i.val - sectorOfs) else b i

/-- One sector's bytes of `inode_write_at`; `false` for want of a bounce buffer. -/
def writeChunk (bounce : Bool) (sectorIdx sectorOfs chunk : ℕ) (bytes : ℕ → UInt8) : FsM Bool :=
  if sectorOfs = 0 ∧ chunk = blockSectorSize then do
    blockWrite sectorIdx fun i => bytes i
    return true
  else if bounce then do
    let b ← if 0 < sectorOfs ∨ chunk < blockSectorSize - sectorOfs then blockRead sectorIdx
      else pure fun _ => 0
    blockWrite sectorIdx (patchSector b sectorOfs chunk bytes)
    return true
  else return false

/-- The loop of `inode_write_at`. -/
def writeLoop (bounce : Bool) (d : InodeDisk) : ℕ → (ℕ → UInt8) → ℤ → ℕ → FsM ℕ
  | 0, _, _, _ => return 0
  | turns + 1, bytes, size, offset =>
    let chunk := (chunkSize d size offset).toNat
    if size ≤ 0 ∨ chunk = 0 then return 0
    else do
      let written ← writeChunk bounce (byteToSector d offset) (offset % blockSectorSize) chunk bytes
      if written then do
        let rest ← writeLoop bounce d turns (fun i => bytes (chunk + i)) (size - chunk) (offset + chunk)
        return chunk + rest
      else return 0

/-- `inode_write_at`: how many bytes were written. -/
def inodeWriteAt (m : Mem) (inode : ℕ) (bytes : ℕ → UInt8) (size : ℤ) (offset : ℕ) : FsM ℕ := do
  let s ← get
  let i ← deref (s.inodes.get? inode)
  if i.denyWriteCnt ≠ 0 then return 0
  else writeLoop m.answer i.data size.toNat bytes size offset

/-! ## Opening -/

/-- `inode_reopen`, of an inode that is there. -/
def inodeReopen (inode : ℕ) : FsM ℕ := do
  let s ← get
  let _ ← deref (s.inodes.get? inode)
  set (s.setInodes (s.inodes.modify inode fun i => { i with openCnt := i.openCnt + 1 }))
  return inode

/-- `inode_open`: an inode that is open already is shared. -/
def inodeOpen (m : Mem) (sector : ℕ) : FsM (Option ℕ) := do
  let s ← get
  match s.inodes.search fun i => i.sector = sector with
  | some (a, _) =>
    let a ← inodeReopen a
    return some a
  | none =>
    if m.answer then do
      let data ← blockRead sector
      set (s.setInodes (s.inodes.alloc ⟨sector, 1, false, 0, .ofSector data⟩))
      return some s.inodes.next
    else return none

/-- `inode_remove`. -/
def inodeRemove (inode : ℕ) : FsM Unit := do
  let s ← get
  let _ ← deref (s.inodes.get? inode)
  set (s.setInodes (s.inodes.modify inode fun i => { i with removed := true }))

/-- `inode_length`. -/
def inodeLength (inode : ℕ) : FsM ℤ := do
  let s ← get
  let i ← deref (s.inodes.get? inode)
  return i.data.length

/-! ## Denying writes -/

/-- `inode_deny_write`. -/
def inodeDenyWrite (inode : ℕ) : FsM Unit := do
  let s ← get
  let i ← deref (s.inodes.get? inode)
  set (s.setInodes (s.inodes.modify inode fun i => { i with denyWriteCnt := i.denyWriteCnt + 1 }))
  assert (i.denyWriteCnt + 1 ≤ i.openCnt)

/-- `inode_allow_write`. -/
def inodeAllowWrite (inode : ℕ) : FsM Unit := do
  let s ← get
  let i ← deref (s.inodes.get? inode)
  assert (0 < i.denyWriteCnt)
  assert (i.denyWriteCnt ≤ i.openCnt)
  set (s.setInodes (s.inodes.modify inode fun i => { i with denyWriteCnt := i.denyWriteCnt - 1 }))

end Fs

end Pintos
