import Pintos.Filesys.Inode

/-!
# Filesys/FreeMap — files, the free map, and the inodes that come and go

The free map has a bit for every sector and is kept in a file of its own, which is rewritten after
every change. Creating an inode takes sectors, and closing the last opener of a removed one gives
them back.
-/

namespace Pintos

open Machinery

namespace Fs

def setFreeMap (s : Fs) (b : Bitmap) : Fs := { s with freeMap := b }

def setFiles (s : Fs) (h : Heap File) : Fs := { s with files := h }

def setDirs (s : Fs) (h : Heap Dir) : Fs := { s with dirs := h }

/-! ## Reading and writing files -/

/-- `file_read_at`. -/
def fileReadAt (m : Mem) (file : ℕ) (size : ℤ) (ofs : ℕ) : FsM (List UInt8) := do
  let s ← get
  let f ← deref (s.files.get? file)
  inodeReadAt m f.inode size ofs

/-- `file_write_at`. -/
def fileWriteAt (m : Mem) (file : ℕ) (bytes : ℕ → UInt8) (size : ℤ) (ofs : ℕ) : FsM ℕ := do
  let s ← get
  let f ← deref (s.files.get? file)
  inodeWriteAt m f.inode bytes size ofs

/-- The position of a file is moved on. -/
def advance (file n : ℕ) : FsM Unit :=
  modify fun s => s.setFiles (s.files.modify file fun f => { f with pos := f.pos + n })

/-- `file_read`. -/
def fileRead (m : Mem) (file : ℕ) (size : ℤ) : FsM (List UInt8) := do
  let s ← get
  let f ← deref (s.files.get? file)
  let bytes ← inodeReadAt m f.inode size f.pos
  advance file bytes.length
  return bytes

/-- `file_write`. -/
def fileWrite (m : Mem) (file : ℕ) (bytes : ℕ → UInt8) (size : ℤ) : FsM ℕ := do
  let s ← get
  let f ← deref (s.files.get? file)
  let n ← inodeWriteAt m f.inode bytes size f.pos
  advance file n
  return n

/-- `file_length`. -/
def fileLength (file : ℕ) : FsM ℤ := do
  let s ← get
  let f ← deref (s.files.get? file)
  inodeLength f.inode

/-! ## The free map -/

/-- `bitmap_write`, of the free map. -/
def bitmapWrite (m : Mem) (file : ℕ) : FsM Bool := do
  let s ← get
  let size := Bitmap.byteCnt s.freeMap.bitCnt
  let n ← fileWriteAt m file s.freeMap.byte size 0
  return n = size

/-- `bitmap_read`, of a bitmap; is it all there? -/
def bitmapRead (m : Mem) (b : Bitmap) (file : ℕ) : FsM (Bool × Bitmap) :=
  if 0 < b.bitCnt then do
    let size := Bitmap.byteCnt b.bitCnt
    let bytes ← fileReadAt m file size 0
    return (bytes.length = size, b.load bytes)
  else return (true, b)

/-- The end of `free_map_allocate`: the map is written, or the sectors are given back. -/
def commit (m : Mem) (file sector cnt : ℕ) : FsM (Option ℕ) := do
  let written ← bitmapWrite m file
  if written then return some sector
  else do
    let s ← get
    let map ← orPanic (s.freeMap.setMultiple sector cnt false)
    set (s.setFreeMap map)
    return none

/-- `free_map_allocate`: the first of the sectors. -/
def freeMapAllocate (m : Mem) (cnt : ℕ) : FsM (Option ℕ) := do
  let s ← get
  let (found, map) ← orPanic (s.freeMap.scanAndFlip 0 cnt false)
  set (s.setFreeMap map)
  match found, s.freeMapFile with
  | none, _ => return none
  | some sector, none => return some sector
  | some sector, some file => commit m file sector cnt

/-- `free_map_release`: the sectors must be taken. -/
def freeMapRelease (m : Mem) (sector cnt : ℕ) : FsM Unit := do
  let s ← get
  let all ← orPanic (s.freeMap.all sector cnt)
  assert (all = true)
  let map ← orPanic (s.freeMap.setMultiple sector cnt false)
  set (s.setFreeMap map)
  let file ← deref s.freeMapFile
  let _ ← bitmapWrite m file

/-! ## Inodes come and go -/

/-- `bytes_to_sectors`, computed in `int` and returned as a `size_t`. -/
def bytesToSectors (size : ℤ) : ℕ :=
  ((toInt32 (size + blockSectorSize - 1)).tdiv blockSectorSize % 2 ^ 32).toNat

/-- The loop of `inode_create`, from `i` on. -/
def zeroSectors (start : ℕ) : ℕ → ℕ → FsM Unit
  | 0, _ => return ()
  | left + 1, i => do
    blockWrite ((start + i) % 2 ^ 32) fun _ => 0
    zeroSectors start left (i + 1)

/-- `inode_create`: the data is one run of sectors, cleared. -/
def inodeCreate (m : Mem) (sector : ℕ) (length : ℤ) : FsM Bool := do
  assert (0 ≤ length)
  if m.answer then do
    let found ← freeMapAllocate (m.sub 0) (bytesToSectors length)
    match found with
    | some start =>
      blockWrite sector (InodeDisk.toSector ⟨start, length, inodeMagic⟩)
      zeroSectors start (bytesToSectors length) 0
      return true
    | none => return false
  else return false

/-- The blocks of a removed inode are given back. -/
def releaseInode (m : Mem) (i : Inode) : FsM Unit := do
  freeMapRelease (m.sub 0) i.sector 1
  freeMapRelease (m.sub 1) i.data.start (bytesToSectors i.data.length)

/-- `inode_close`. With the last reference a removed file goes. -/
def inodeClose (m : Mem) (inode : ℕ) : FsM Unit := do
  let s ← get
  let i ← deref (s.inodes.get? inode)
  if i.openCnt - 1 = 0 then do
    set (s.setInodes (s.inodes.free inode))
    if i.removed then releaseInode m i else return ()
  else set (s.setInodes (s.inodes.modify inode fun i => { i with openCnt := i.openCnt - 1 }))

/-! ## Files come and go -/

/-- `file_open` takes the inode over, and closes it if it fails. -/
def fileOpen (m : Mem) : Option ℕ → FsM (Option ℕ)
  | some inode =>
    if m.answer then do
      let s ← get
      set (s.setFiles (s.files.alloc ⟨inode, 0, false⟩))
      return some s.files.next
    else do
      inodeClose (m.sub 0) inode
      return none
  | none => return none

/-- `file_reopen`. -/
def fileReopen (m : Mem) (file : ℕ) : FsM (Option ℕ) := do
  let s ← get
  let f ← deref (s.files.get? file)
  let inode ← inodeReopen f.inode
  fileOpen m (some inode)

/-- `file->deny_write = value`. -/
def setDenyWrite (file : ℕ) (value : Bool) : FsM Unit :=
  modify fun s => s.setFiles (s.files.modify file fun f => { f with denyWrite := value })

/-- `file_deny_write`. -/
def fileDenyWrite (file : ℕ) : FsM Unit := do
  let s ← get
  let f ← deref (s.files.get? file)
  if f.denyWrite then return ()
  else do
    setDenyWrite file true
    inodeDenyWrite f.inode

/-- `file_allow_write`. -/
def fileAllowWrite (file : ℕ) : FsM Unit := do
  let s ← get
  let f ← deref (s.files.get? file)
  if f.denyWrite then do
    setDenyWrite file false
    inodeAllowWrite f.inode
  else return ()

/-- `file_close`. -/
def fileClose (m : Mem) (file : ℕ) : FsM Unit := do
  let s ← get
  let f ← deref (s.files.get? file)
  fileAllowWrite file
  inodeClose m f.inode
  modify fun s => s.setFiles (s.files.free file)

/-! ## The file of the free map -/

/-- `FREE_MAP_SECTOR`. -/
def freeMapSector : ℕ := 0

/-- `ROOT_DIR_SECTOR`. -/
def rootDirSector : ℕ := 1

/-- `free_map_init`; the elements of the map are what `malloc` finds. -/
def freeMapInit (m : Mem) (junk : ℕ → BitVec 32) : FsM Unit := do
  let s ← get
  if m.answer then do
    let b ← orPanic (Bitmap.create s.disk.size junk)
    if b.bitCnt = 0 then throw .wild
    else set (s.setFreeMap ((b.mark freeMapSector).mark rootDirSector))
  else throw .panic

def openFreeMapFile (m : Mem) : FsM ℕ := do
  let inode ← inodeOpen (m.sub 0) freeMapSector
  let file ← fileOpen (m.sub 1) inode
  modify fun s => { s with freeMapFile := file }
  orPanic file

/-- `free_map_create`. -/
def freeMapCreate (m : Mem) : FsM Unit := do
  let s ← get
  let created ← inodeCreate (m.sub 0) freeMapSector (toInt32 (Bitmap.byteCnt s.freeMap.bitCnt))
  assert (created = true)
  let file ← openFreeMapFile (m.sub 1)
  let written ← bitmapWrite (m.sub 2) file
  assert (written = true)

/-- `free_map_open`. -/
def freeMapOpen (m : Mem) : FsM Unit := do
  let file ← openFreeMapFile (m.sub 0)
  let s ← get
  let (read, b) ← bitmapRead (m.sub 1) s.freeMap file
  modify fun s => s.setFreeMap b
  assert (read = true)

/-- `free_map_close`; the pointer stays. -/
def freeMapClose (m : Mem) : FsM Unit := do
  let s ← get
  match s.freeMapFile with
  | some file => fileClose m file
  | none => return ()

end Fs

end Pintos
