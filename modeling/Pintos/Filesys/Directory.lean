import Pintos.Filesys.Filesys
import Pintos.Filesys.FreeMap
import Pintos.Lib.Text

/-!
# Filesys/Directory — directories, and the calls by name

A directory is a file of records of 20 bytes: the sector of an inode, a name, and whether the record
is in use. It is read record by record until its end, or until a read comes back short. The root
directory, the only one, is in sector 1.
-/

namespace Pintos

open Machinery

namespace Fs

/-- `struct dir_entry`, with `char name[NAME_MAX + 1]`. -/
structure DirEntry where
  inodeSector : ℕ
  name : Fin 15 → UInt8
  inUse : Bool

/-- `sizeof (struct dir_entry)`. -/
def entrySize : ℕ := 20

namespace DirEntry

/-- The name, up to its null character. -/
def str (e : DirEntry) : List UInt8 := (List.ofFn e.name).takeWhile (· ≠ 0)

/-- Byte `n` of a record… -/
def byte (e : DirEntry) (n : ℕ) : UInt8 :=
  if n < 4 then leByte e.inodeSector n
  else if h : n < 19 then e.name ⟨n - 4, by omega⟩
  else if e.inUse then 1 else 0

/-- …and the record with the given bytes. -/
def ofBytes (b : ℕ → UInt8) : DirEntry where
  inodeSector := leWord b
  name i := b (4 + i)
  inUse := b 19 ≠ 0

end DirEntry

/-- `strlcpy (e.name, name, sizeof e.name)`; what follows the null character stays. -/
def strlcpy (old : Fin 15 → UInt8) (name : CString) : Fin 15 → UInt8 := fun i =>
  if i.val = min name.bytes.length 14 then 0 else (name.bytes.take 14).getD i (old i)

/-! ## Opening -/

/-- `dir_open` takes the inode over, and closes it if it fails. -/
def dirOpen (m : Mem) : Option ℕ → FsM (Option ℕ)
  | some inode =>
    if m.answer then do
      let s ← get
      set (s.setDirs (s.dirs.alloc ⟨inode, 0⟩))
      return some s.dirs.next
    else do
      inodeClose (m.sub 0) inode
      return none
  | none => return none

/-- `dir_open_root`. -/
def dirOpenRoot (m : Mem) : FsM (Option ℕ) := do
  let inode ← inodeOpen (m.sub 0) rootDirSector
  dirOpen (m.sub 1) inode

/-- `dir_reopen`. -/
def dirReopen (m : Mem) (dir : ℕ) : FsM (Option ℕ) := do
  let s ← get
  let d ← deref (s.dirs.get? dir)
  let inode ← inodeReopen d.inode
  dirOpen m (some inode)

/-- `dir_close`, of a directory that is there. -/
def dirClose (m : Mem) (dir : ℕ) : FsM Unit := do
  let s ← get
  let d ← deref (s.dirs.get? dir)
  inodeClose m d.inode
  modify fun s => s.setDirs (s.dirs.free dir)

/-- `dir_create`. -/
def dirCreate (m : Mem) (sector entryCnt : ℕ) : FsM Bool :=
  inodeCreate m sector (toInt32 (entryCnt * entrySize))

/-! ## Records -/

/-- The record at `ofs`, unless the read comes back short. -/
def readEntry (m : Mem) (inode ofs : ℕ) : FsM (Option DirEntry) := do
  let bytes ← inodeReadAt m inode entrySize ofs
  return if bytes.length = entrySize then some (.ofBytes fun n => bytes.getD n 0) else none

/-- A record is written; is it all there? -/
def writeEntry (m : Mem) (inode ofs : ℕ) (e : DirEntry) : FsM Bool := do
  let n ← inodeWriteAt m inode e.byte entrySize ofs
  return n = entrySize

/-- The loops over the records, from `ofs` on: the first with `p`, and where it ends. -/
def findEntry (m : Mem) (inode : ℕ) (p : DirEntry → Bool) :
    ℕ → ℕ → FsM (Option DirEntry × ℕ)
  | 0, ofs => return (none, ofs)
  | turns + 1, ofs => do
    let entry ← readEntry (m.sub ofs) inode ofs
    match entry with
    | none => return (none, ofs)
    | some e => if p e then return (some e, ofs) else findEntry m inode p turns (ofs + entrySize)

def turns (inode : ℕ) : FsM ℕ := do
  let length ← inodeLength inode
  return length.toNat / entrySize + 1

/-- `lookup`: the record with the name, and its offset. -/
def lookup (m : Mem) (inode : ℕ) (name : CString) : FsM (Option (DirEntry × ℕ)) := do
  let n ← turns inode
  let (entry, ofs) ← findEntry m inode (fun e => e.inUse && e.str = name.bytes) n 0
  return entry.map fun e => (e, ofs)

/-- `dir_get_inode`. -/
def dirInode (dir : ℕ) : FsM ℕ := do
  let s ← get
  let d ← deref (s.dirs.get? dir)
  return d.inode

/-- `dir_lookup`: the inode, opened. -/
def dirLookup (m : Mem) (dir : ℕ) (name : CString) : FsM (Option ℕ) := do
  let inode ← dirInode dir
  let found ← lookup (m.sub 0) inode name
  match found with
  | some (e, _) => inodeOpen (m.sub 1) e.inodeSector
  | none => return none

/-- `dir_add`. `junk` is what is in `e.name` when the name is copied there. -/
def dirAdd (m : Mem) (junk : Fin 15 → UInt8) (dir : ℕ) (name : CString) (inodeSector : ℕ) :
    FsM Bool := do
  let inode ← dirInode dir
  if name.bytes = [] ∨ nameMax < name.bytes.length then return false
  else do
    let found ← lookup (m.sub 0) inode name
    match found with
    | some _ => return false
    | none =>
      let n ← turns inode
      let (_, ofs) ← findEntry (m.sub 1) inode (fun e => !e.inUse) n 0
      writeEntry (m.sub 2) inode ofs ⟨inodeSector, strlcpy junk name, true⟩

/-- The end of `dir_remove`, with the record found and the inode open. -/
def eraseEntry (m : Mem) (dirInode ofs : ℕ) (e : DirEntry) (inode : ℕ) : FsM Bool := do
  let erased ← writeEntry (m.sub 0) dirInode ofs { e with inUse := false }
  if erased then inodeRemove inode else pure ()
  inodeClose (m.sub 1) inode
  return erased

/-- `dir_remove`. -/
def dirRemove (m : Mem) (dir : ℕ) (name : CString) : FsM Bool := do
  let inode ← dirInode dir
  let found ← lookup (m.sub 0) inode name
  match found with
  | none => return false
  | some (e, ofs) =>
    let target ← inodeOpen (m.sub 1) e.inodeSector
    match target with
    | none => return false
    | some target => eraseEntry (m.sub 2) inode ofs e target

/-- `dir_readdir`: the next name. -/
def dirReaddir (m : Mem) (dir : ℕ) : FsM (Option (List UInt8)) := do
  let s ← get
  let d ← deref (s.dirs.get? dir)
  let n ← turns d.inode
  let (entry, ofs) ← findEntry m d.inode (fun e => e.inUse) n d.pos
  let pos := if entry.isSome then ofs + entrySize else ofs
  modify fun s => s.setDirs (s.dirs.modify dir fun d => { d with pos := pos })
  return entry.map DirEntry.str

/-! ## By name -/

/-- `filesys_create`. A sector that was taken is given back if the rest fails; the data is not. -/
def filesysCreate (m : Mem) (junk : Fin 15 → UInt8) (name : CString) (initialSize : ℤ) :
    FsM Bool := do
  let root ← dirOpenRoot (m.sub 0)
  match root with
  | none => return false
  | some dir =>
    let sector ← freeMapAllocate (m.sub 1) 1
    match sector with
    | none =>
      dirClose (m.sub 5) dir
      return false
    | some sector =>
      let created ← inodeCreate (m.sub 2) sector initialSize
      let success ← if created then dirAdd (m.sub 3) junk dir name sector else pure false
      if !success && sector ≠ 0 then freeMapRelease (m.sub 4) sector 1 else pure ()
      dirClose (m.sub 5) dir
      return success

/-- `filesys_open`. -/
def filesysOpen (m : Mem) (name : CString) : FsM (Option ℕ) := do
  let root ← dirOpenRoot (m.sub 0)
  match root with
  | none => return none
  | some dir =>
    let inode ← dirLookup (m.sub 1) dir name
    dirClose (m.sub 2) dir
    fileOpen (m.sub 3) inode

/-- `filesys_remove`. -/
def filesysRemove (m : Mem) (name : CString) : FsM Bool := do
  let root ← dirOpenRoot (m.sub 0)
  match root with
  | none => return false
  | some dir =>
    let success ← dirRemove (m.sub 1) dir name
    dirClose (m.sub 2) dir
    return success

/-- `do_format`. -/
def doFormat (m : Mem) : FsM Unit := do
  freeMapCreate (m.sub 0)
  let created ← dirCreate (m.sub 1) rootDirSector 16
  assert (created = true)
  freeMapClose (m.sub 2)

/-- `filesys_init`, for a machine that has just started. -/
def filesysInit (m : Mem) (junk : ℕ → BitVec 32) (format : Bool) : FsM Unit := do
  modify fun s => { s with inodes := Heap.empty }
  freeMapInit (m.sub 0) junk
  if format then doFormat (m.sub 1) else pure ()
  freeMapOpen (m.sub 2)

end Fs

end Pintos
