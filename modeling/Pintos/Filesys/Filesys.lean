import Pintos.Userprog.UserMemory

/-!
# Filesys/Filesys — files, the root directory, and the table of descriptors

An open file is an inode and a position; an inode is its contents, which never change length.
`lookup` compares the name, in the caller's memory, with the slots of the root directory until one
agrees. `file_descriptors` is a single table for all processes. A part of a sector goes through a
bounce buffer, and if there is none a transfer ends there.
-/

namespace Pintos

open Machinery Function

/-- `struct inode`, with the contents on disk. -/
structure Inode where
  data : List UInt8
  denyWriteCnt : ℕ
  deriving DecidableEq, Repr

/-- `struct file`; nobody denies writes here. -/
structure File where
  inode : ℕ
  pos : ℕ
  deriving DecidableEq, Repr

/-- `struct dir_entry`. -/
structure DirEntry where
  inodeSector : ℕ
  name : List UInt8
  inUse : Bool
  deriving DecidableEq, Repr

/-- What the system calls share: the semaphore's value, the table of descriptors, the `struct file`s
by address, the inodes and the slots of the root directory. The next file is at `nextFile`, the next
inode in sector `nextInode`. -/
structure Kernel where
  filesysSema : ℕ
  fileDescriptors : ℕ → Option ℕ
  file : ℕ → Option File
  nextFile : ℕ
  inode : ℕ → Inode
  nextInode : ℕ
  root : List DirEntry

/-- Kernel code in a system call. -/
abbrev Sys := Traced SysStop ℕ Kernel

/-! ## Inodes -/

/-- `BLOCK_SECTOR_SIZE`, of the file system's device. -/
def sectorSize : ℕ := 512

/-- The bytes one turn of `inode_read_at` and `inode_write_at` moves. -/
def chunkSize (size offset length : ℕ) : ℕ :=
  min size (min (length - offset) (sectorSize - offset % sectorSize))

/-- The loop of `inode_read_at` and `inode_write_at`: `move` moves the bytes of one sector. -/
def transfer (bounce : Bool) (length : ℕ) (move : ℕ → ℕ → ℕ → Sys Unit) :
    ℕ → ℕ → ℕ → ℕ → Sys ℕ
  | 0, _, _, _ => return 0
  | turns + 1, buffer, size, offset =>
    let chunk := chunkSize size offset length
    if chunk = 0 then return 0
    else if chunk < sectorSize ∧ bounce = false then return 0
    else do
      move buffer chunk offset
      let n ← transfer bounce length move turns (buffer + chunk) (size - chunk) (offset + chunk)
      return chunk + n

/-- `inode_read_at`, into the caller's memory. -/
def inodeReadAt (e : Env) (inode buffer size offset : ℕ) : Sys ℕ := do
  let k ← Traced.read
  transfer e.bounce (k.inode inode).data.length (fun b n _ => putBytes e b n) size buffer size offset

/-- Bytes of a file overwritten. -/
def splice (data : List UInt8) (offset : ℕ) (bytes : List UInt8) : List UInt8 :=
  data.take offset ++ bytes ++ data.drop (offset + bytes.length)

def Kernel.writeInode (k : Kernel) (inode offset : ℕ) (bytes : List UInt8) : Kernel :=
  let data := splice (k.inode inode).data offset bytes
  { k with inode := update k.inode inode { k.inode inode with data := data } }

/-- One sector's bytes of `inode_write_at`: all of them are loaded before any is written. -/
def writeChunk (e : Env) (inode buffer n offset : ℕ) : Sys Unit := do
  let bytes ← getBytes e buffer n
  Traced.update fun k => k.writeInode inode offset bytes

/-- `inode_write_at`, out of the caller's memory. -/
def inodeWriteAt (e : Env) (inode buffer size offset : ℕ) : Sys ℕ := do
  let k ← Traced.read
  if (k.inode inode).denyWriteCnt ≠ 0 then return 0
  else
    transfer e.bounce (k.inode inode).data.length (writeChunk e inode) size buffer size offset

/-! ## Files -/

/-- Following a `struct file *`. -/
def derefFile (ptr : ℕ) : Sys File := do
  let k ← Traced.read
  match k.file ptr with
  | some f => return f
  | none => Traced.stop .wild

def Kernel.setPos (k : Kernel) (ptr pos : ℕ) : Kernel :=
  { k with file := update k.file ptr ((k.file ptr).map fun f => { f with pos := pos }) }

/-- `file_open` of an inode that is there. -/
def fileOpen (e : Env) (inode : ℕ) : Sys (Option ℕ) := do
  let k ← Traced.read
  if e.fileAlloc then do
    Traced.update fun k => { k with
      file := update k.file k.nextFile (some ⟨inode, 0⟩), nextFile := k.nextFile + 1 }
    return some k.nextFile
  else return none

/-- `file_read`; a negative size moves nothing. -/
def fileRead (e : Env) (ptr buffer : ℕ) (size : ℤ) : Sys ℤ := do
  let f ← derefFile ptr
  let n ← inodeReadAt e f.inode buffer size.toNat f.pos
  Traced.update fun k => k.setPos ptr (f.pos + n)
  return n

/-- `file_write`. -/
def fileWrite (e : Env) (ptr buffer : ℕ) (size : ℤ) : Sys ℤ := do
  let f ← derefFile ptr
  let n ← inodeWriteAt e f.inode buffer size.toNat f.pos
  Traced.update fun k => k.setPos ptr (f.pos + n)
  return n

/-- `file_length`. -/
def fileLength (ptr : ℕ) : Sys ℤ := do
  let f ← derefFile ptr
  let k ← Traced.read
  return (k.inode f.inode).data.length

/-- `file_seek`. -/
def fileSeek (ptr : ℕ) (newPos : ℤ) : Sys Unit :=
  if newPos < 0 then Traced.stop .panic
  else do
    let _ ← derefFile ptr
    Traced.update fun k => k.setPos ptr newPos.toNat

/-- `file_tell`. -/
def fileTell (ptr : ℕ) : Sys ℤ := do
  let f ← derefFile ptr
  return f.pos

/-! ## The root directory -/

/-- `NAME_MAX`. -/
def nameMax : ℕ := 14

/-- The slots `lookup` gets to see: it reads them through a bounce buffer. -/
def Env.entries (e : Env) (k : Kernel) : List DirEntry := if e.bounce then k.root else []

/-- The loop of `lookup`: the slot, counted from `i`, that has the name at `name`. -/
def lookup (e : Env) (name : ℕ) : ℕ → List DirEntry → Sys (Option ℕ)
  | _, [] => return none
  | i, d :: l =>
    if d.inUse then do
      let same ← strcmp e name d.name
      if same then return some i else lookup e name (i + 1) l
    else lookup e name (i + 1) l

/-- `filesys_open`. -/
def filesysOpen (e : Env) (name : ℕ) : Sys (Option ℕ) :=
  if e.dirOpens then do
    let k ← Traced.read
    let slot ← lookup e name 0 (e.entries k)
    match slot.bind (k.root[·]?) with
    | some d => if e.inodeOpens then fileOpen e d.inodeSector else return none
    | none => return none
  else return none

/-- `dir_add`, once the new inode is there. -/
def dirAdd (e : Env) (name inode : ℕ) : Sys Bool := do
  let s ← getString e name (2 ^ 32 - name)
  if s = [] ∨ nameMax < s.length then return false
  else do
    let k ← Traced.read
    let slot ← lookup e name 0 (e.entries k)
    match slot, (e.entries k).findIdx? fun d => !d.inUse with
    | none, some i =>
      Traced.update fun k => { k with root := k.root.set i ⟨inode, s, true⟩ }
      return true
    | _, _ => return false

/-- `filesys_create`, with the assertion of `inode_create`. -/
def filesysCreate (e : Env) (name : ℕ) (initialSize : ℤ) : Sys Bool :=
  if e.dirOpens ∧ e.inodeSector then
    if initialSize < 0 then Traced.stop .panic
    else if e.dataSectors then do
      let k ← Traced.read
      Traced.update fun k => { k with
        inode := update k.inode k.nextInode ⟨List.replicate initialSize.toNat 0, 0⟩
        nextInode := k.nextInode + 1 }
      dirAdd e name k.nextInode
    else return false
  else return false

/-- `filesys_remove`, with the assertion of `dir_remove`. -/
def filesysRemove (e : Env) (name : ℕ) : Sys Bool :=
  if e.dirOpens then
    if name = null then Traced.stop .panic
    else do
      let k ← Traced.read
      let slot ← lookup e name 0 (e.entries k)
      match slot with
      | some i =>
        if e.inodeOpens then do
          Traced.update fun k => { k with root := k.root.modify i fun d => { d with inUse := false } }
          return true
        else return false
      | none => return false
  else return false

end Pintos
