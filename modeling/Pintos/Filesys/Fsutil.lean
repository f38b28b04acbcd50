import Pintos.Filesys.Directory
import Pintos.Lib.Ustar

/-!
# Filesys/Fsutil — files into an archive, and out of one

`fsutil_append` copies a file to the scratch device, behind the files it has copied there before,
and `fsutil_extract` copies the files of an archive on the scratch device into the file system.

    │ header │ data … 0 0 │ header │ data … 0 0 │ marker │   ?    │

The marker is two sectors of zeroes. `fsutil_append` writes the first of them *twice*, the second
time from one byte too far on in its buffer, and the other not at all.
-/

namespace Pintos

open Machinery Ustar

/-- What `fsutil.c` works on: the file system, the scratch device, and the two positions. -/
structure Fsutil where
  fs : Fs
  scratch : Block
  appendSector : ℕ
  extractSector : ℕ

abbrev FsutilM := EStateM FsStop Fsutil

namespace Fsutil

/-- A call into the file system. -/
abbrev onFs {α : Type} : FsM α → FsutilM α := onPart fs fun u s => { u with fs := s }

/-- What an option holds, and a panic if it holds nothing. -/
abbrev orPanic {α : Type} : Option α → FsutilM α := orThrow .panic

/-- `block_write (dst, n, data)`, of the scratch device. -/
def write (n : ℕ) (data : Sector) : FsutilM Unit := do
  let u ← get
  let d ← orPanic (u.scratch.write n data)
  set { u with scratch := d }

/-- The bytes of a buffer of one sector. -/
def bytesOf (data : Sector) : ℕ → UInt8 := fun i => data (Block.inSector i)

/-- `chunk_size`: a sector at most. -/
def chunkSize (size : ℤ) : ℤ := if size > blockSectorSize then blockSectorSize else size

/-! ## `fsutil_append` -/

def writeNext (data : Sector) : FsutilM Unit := do
  let u ← get
  write u.appendSector data
  modify fun u => { u with appendSector := u.appendSector + 1 }

/-- The loop of `fsutil_append`, with `size` bytes to go. A turn moves at least a byte. -/
def appendLoop (m : Mem) (src : ℕ) : ℕ → ℤ → FsutilM Unit
  | 0, _ => return ()
  | turns + 1, size =>
    if size > 0 then do
      let u ← get
      require .panic (u.appendSector < u.scratch.size)
      let bytes ← onFs (Fs.fileRead (m.sub turns) src (chunkSize size))
      require .panic ((bytes.length : ℤ) = chunkSize size)
      writeNext fun i => bytes.getD i 0
      appendLoop m src turns (size - chunkSize size)
    else return ()

/-- The end of `fsutil_append`. The last byte it writes is the one behind the buffer. -/
def writeMarker (behind : UInt8) : FsutilM Unit := do
  let u ← get
  write u.appendSector fun _ => 0
  write u.appendSector fun i => if i.val = blockSectorSize - 1 then behind else 0

/-- `fsutil_append`, with what `malloc` finds in the `buffer`, and the byte `behind` it. -/
def fsutilAppend (m : Mem) (buffer : ℕ → UInt8) (behind : UInt8) (fileName : CString) :
    FsutilM Unit := do
  require .panic (m.answer = true)
  let file ← onFs (Fs.filesysOpen (m.sub 0) fileName)
  let src ← orPanic file
  let size ← onFs (Fs.fileLength src)
  let header ← orPanic (ustarMakeHeader fileName .regular size buffer)
  require .panic (header.1 = true)
  writeNext fun i => header.2 i
  appendLoop (m.sub 1) src size.toNat size
  writeMarker behind
  onFs (Fs.fileClose (m.sub 2) src)

/-! ## `fsutil_extract` -/

def readNext : FsutilM Sector := do
  let u ← get
  let data ← orPanic (u.scratch.read u.extractSector)
  set { u with extractSector := u.extractSector + 1 }
  return data

def copyLoop (m : Mem) (dst : ℕ) : ℕ → ℤ → FsutilM Unit
  | 0, _ => return ()
  | turns + 1, size =>
    if size > 0 then do
      let data ← readNext
      let n ← onFs (Fs.fileWrite (m.sub turns) dst (bytesOf data) (chunkSize size))
      require .panic ((n : ℤ) = chunkSize size)
      copyLoop m dst turns (size - chunkSize size)
    else return ()

/-- The string that starts here. -/
def cString (l : List UInt8) : CString where
  bytes := l.takeWhile (· ≠ 0)
  noNul hmem := by simpa using List.mem_takeWhile_imp hmem

/-- A regular file. -/
def extractFile (m : Mem) (junk : Fin 15 → UInt8) (fileName : CString) (size : ℤ) :
    FsutilM Unit := do
  let created ← onFs (Fs.filesysCreate (m.sub 0) junk fileName size)
  require .panic (created = true)
  let file ← onFs (Fs.filesysOpen (m.sub 1) fileName)
  let dst ← orPanic file
  copyLoop (m.sub 2) dst size.toNat size
  onFs (Fs.fileClose (m.sub 3) dst)

/-- A turn of the outer loop, once the header is parsed, and then the `next` ones. -/
def extractEntry (m : Mem) (junk : Fin 15 → UInt8) (next : FsutilM Unit) :
    Except String Entry → FsutilM Unit
  | .error _ => throw .panic
  | .ok ⟨_, .eof, _⟩ => return ()
  | .ok ⟨_, .directory, _⟩ => next
  | .ok ⟨fileName, .regular, size⟩ => do
    extractFile m junk (cString (fileName.getD [])) size
    next

/-- The outer loop. Every turn reads a sector, and where there is none `block_read` panics. -/
def extractLoop (m : Mem) (junk : ℕ → Fin 15 → UInt8) : ℕ → FsutilM Unit
  | 0 => throw .panic
  | turns + 1 => do
    let header ← readNext
    extractEntry (m.sub turns) (junk turns) (extractLoop m junk turns)
      (ustarParseHeader (bytesOf header))

/-- `fsutil_extract`, with `junk` in the directory's records before they are written. -/
def fsutilExtract (m : Mem) (junk : ℕ → Fin 15 → UInt8) : FsutilM Unit := do
  require .panic ((m.sub 0).answer = true ∧ (m.sub 1).answer = true)
  let u ← get
  extractLoop (m.sub 2) junk (u.scratch.size + 1)
  write 0 fun _ => 0
  write 1 fun _ => 0

end Fsutil

end Pintos
