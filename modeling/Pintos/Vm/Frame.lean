import Pintos.Machinery.Clock
import Pintos.Machinery.Stopping
import Pintos.Userprog.Pagedir
import Pintos.Vm.Page
import Pintos.Vm.Swap

/-!
# Vm/Frame — the frame table, and how a page gets a frame

`get_user_page` looks for an `FT_EMPTY` frame, starting at the clock hand; when a whole turn finds
none, `evict_page` runs the second-chance clock over the accessed bits of the *current* page
directory, throws the page under the hand out and returns its frame. The kernel reads the page it
swaps out through its user address: `nestedFault` is the fault if it is not mapped there.
-/

namespace Pintos

open Machinery Function

/-! ## The frame table -/

/-- `enum FT_STATUS`. -/
inductive FtStatus where
  /-- `FT_EMPTY` -/
  | empty
  /-- `FT_FULL` -/
  | full
  deriving DecidableEq, Repr

/-- `struct FrameTableEntry`. The frame's address is its index. -/
structure FrameTableEntry where
  status : FtStatus
  vaddr : ℕ
  deriving DecidableEq, Repr

/-- `frame_table`, `max_frame` and the clock hand, which always points into the table. -/
structure FrameTable where
  maxFrame : ℕ
  entry : ℕ → FrameTableEntry
  bumpPtr : ℕ
  bump_lt : bumpPtr < maxFrame

namespace FrameTable

def cur (ft : FrameTable) : FrameTableEntry := ft.entry ft.bumpPtr

def setCur (ft : FrameTable) (e : FrameTableEntry) : FrameTable :=
  { ft with entry := update ft.entry ft.bumpPtr e }

/-- The hand, moved to a position of the table. -/
def moveTo (ft : FrameTable) (i : ℕ) (h : i < ft.maxFrame) : FrameTable :=
  { ft with bumpPtr := i, bump_lt := h }

/-- `++bump_ptr`, wrapping at `max_frame`. -/
def advance (ft : FrameTable) : FrameTable :=
  ft.moveTo (Clock.next ft.maxFrame ft.bumpPtr) (Clock.next_lt ft.bump_lt)

/-- The loop of `get_user_page`, with `fuel` frames to look at: the table with the hand on an empty
frame, or `none`. -/
def findEmpty : ℕ → FrameTable → Option FrameTable
  | 0, _ => none
  | fuel + 1, ft => if ft.cur.status = .full then findEmpty fuel ft.advance else some ft

end FrameTable

/-! ## The state -/

/-- What paging reads and writes of a `struct thread`. -/
structure Process where
  pagedir : PageDir
  spTable : SpTable
  executable : List UInt8
  /-- `t->esp`: the user stack pointer during a system call, `NULL` outside. -/
  esp : ℕ

/-- The paging state: the frame table, the frames' bytes, the processes by `tid`, the swap; and the
bits of the user pool's `used_map`, all set by `init_frame_table`. -/
structure Vm where
  ft : FrameTable
  frames : ℕ → Page
  procs : ℕ → Process
  swap : Swap
  used : ℕ → Bool := fun _ => true

namespace Vm

/-- The page table entry of page `n` of process `t`. -/
def pte (s : Vm) (t n : ℕ) : Pte := pteAt (s.procs t).pagedir n

/-- The SPT entry of page `n` of process `t`. -/
def spte (s : Vm) (t n : ℕ) : Option SptEntry := (s.procs t).spTable n

def setPagedir (s : Vm) (t : ℕ) (pd : PageDir) : Vm :=
  { s with procs := update s.procs t { s.procs t with pagedir := pd } }

def setSpTable (s : Vm) (t : ℕ) (spt : SpTable) : Vm :=
  { s with procs := update s.procs t { s.procs t with spTable := spt } }

/-- Writing a field of the SPT entry of the page of `va`. -/
def modifySpte (s : Vm) (t va : ℕ) (f : SptEntry → SptEntry) : Vm :=
  s.setSpTable t ((s.procs t).spTable.modify (pgNo va) f)

end Vm

/-- Why a kernel function does not return to its caller. -/
inductive Stop where
  /-- `exit (status)`: the process ends, the kernel goes on. -/
  | exit (status : ℤ)
  /-- A null pointer is dereferenced. -/
  | nullDeref
  /-- An array is read outside its bounds. -/
  | outOfBounds
  deriving DecidableEq, Repr

/-- Kernel code over the paging state. -/
abbrev Kern := EStateM Stop Vm

/-! ## SPT entries -/

/-- `vaddr_to_page_num`. -/
def vaddrToPageNum (va : ℕ) : Kern ℕ :=
  if isUserVaddr va then pure (pgNo va) else throw (.exit (-1))

/-- `get_SPT_entry` of the current thread `t`. -/
def getSPTEntry (t va : ℕ) : Kern (Option SptEntry) := do
  let n ← vaddrToPageNum va
  return (← get).spte t n

/-- `create_SPT_entry`, for an entry already filled in: is it the one in the table afterwards? -/
def createSPTEntry (t va : ℕ) (e : SptEntry) : Kern Bool := do
  let n ← vaddrToPageNum va
  let s ← get
  set (s.setSpTable t ((s.procs t).spTable.insert n e))
  return (s.spte t n).isNone

/-! ## Bringing a page into a frame

`alloc d` is the answer of `palloc_get_page` to the page table directory index `d` asks for. -/

/-- Slot `i` moves into frame `kpage`, and the entry of `va` forgets it. -/
def Vm.swapIn (s : Vm) (t va kpage i : ℕ) : Vm :=
  { s with
    frames := update s.frames kpage (s.swap.fetch i)
    swap := s.swap.release i }.modifySpte t va fun e => { e with swapIndex := -1 }

/-- `remove_swap_entry` for the page at `va`. -/
def removeSwapEntry (t : ℕ) (index : ℤ) (kpage va : ℕ) : Kern Unit := do
  let s ← get
  if index < 0 ∨ (s.swap.entries : ℤ) ≤ index then
    throw .outOfBounds
  else if (s.swap.table index.toNat).tid = 0 then
    throw (.exit (-1))
  else
    set (s.swapIn t va kpage index.toNat)

/-- The file branch of `page_fault`: `file_seek`, `file_read` and `memset` into frame `kpage`. -/
def Vm.readExecutable (s : Vm) (t kpage : ℕ) (e : SptEntry) : Vm :=
  { s with
    frames := update s.frames kpage
      (e.fileImage (s.procs t).executable (s.frames kpage)) }

/-- `install_page` of the current thread `t`. -/
def installPage (alloc : ℕ → Bool) (t upage kpage : ℕ) (writable : Bool) : Kern Bool := do
  let s ← get
  match pagedirGetPage (s.procs t).pagedir upage with
  | some _ => return false
  | none =>
    match pagedirSetPage (s.procs t).pagedir upage kpage writable (alloc (pdNo upage)) with
    | some pd => set (s.setPagedir t pd); return true
    | none => return false

/-- The bytes of the page come from swap or from the executable… -/
def fetchPage (t pageStart kpage : ℕ) (e : SptEntry) : Kern Unit :=
  if e.fromSwap then removeSwapEntry t e.swapIndex kpage pageStart
  else modify fun s => s.readExecutable t kpage e

/-- …and the page is mapped and marked resident, or the process exits. -/
def mapPage (alloc : ℕ → Bool) (t pageStart kpage : ℕ) (writable : Bool) : Kern Unit := do
  if ← installPage alloc t pageStart kpage writable then
    modify fun s => s.modifySpte t pageStart fun e => { e with residentBit := true }
  else
    throw (.exit (-1))

/-- `page_fault` with an SPT entry, once `get_user_page` has returned `kpage`. -/
def loadPage (alloc : ℕ → Bool) (t pageStart kpage : ℕ) : Kern Unit := do
  match (← get).spte t (pgNo pageStart) with
  | none => throw .nullDeref
  | some e =>
    fetchPage t pageStart kpage e
    mapPage alloc t pageStart kpage e.writable

/-- The end of `get_user_page`: the empty frame under the hand is taken for `va`. -/
def takeFrame (va : ℕ) : Kern ℕ := do
  modify fun s => { s with ft := s.ft.setCur ⟨.full, va⟩ }
  return (← get).ft.bumpPtr

/-! ## Throwing a page out -/

/-- The page fault the kernel takes on a page it is swapping out through an address that is not
mapped. -/
def nestedFault (alloc : ℕ → Bool) (t va : ℕ) : Kern Unit :=
  if va = null then throw (.exit (-1)) else do
    let kpage ← takeFrame va
    loadPage alloc t (pgRoundDown va) kpage

/-- The kernel's first access to the user address `va`. -/
def faultIn (alloc : ℕ → Bool) (t va : ℕ) : Kern Unit := do
  if (pagedirGetPage ((← get).procs t).pagedir va).isNone then nestedFault alloc t va else pure ()

/-- The bytes at the user address `va`, as the kernel reads them; the hardware marks the page. -/
def readUserPage (alloc : ℕ → Bool) (t va : ℕ) : Kern Page := do
  faultIn alloc t va
  let s ← get
  set (s.setPagedir t (pagedirSetAccessed (s.procs t).pagedir va true))
  return s.frames (s.pte t (pgNo va)).page

/-- `add_swap_entry`. -/
def addSwapEntry (alloc : ℕ → Bool) (t va : ℕ) : Kern ℤ := do
  match (← get).swap.freeSlot with
  | none => return -1
  | some i =>
    modify fun s => { s with swap := s.swap.claim i t va }
    let p ← readUserPage alloc t va
    modify fun s => { s with swap := s.swap.store i p }
    return i

/-- `spte->dirty_bit = true` for a page that is dirty; it is never reset. -/
def Vm.keepDirty (s : Vm) (t va : ℕ) : Vm :=
  if pagedirIsDirty (s.procs t).pagedir va then
    s.modifySpte t va fun e => { e with dirtyBit := true }
  else s

/-- The swapping branch of `evict_page`, for the page at `va`. -/
def swapOut (alloc : ℕ → Bool) (t va : ℕ) : Kern Unit := do
  modify fun s => s.keepDirty t va
  let i ← addSwapEntry alloc t va
  modify fun s => s.modifySpte t va fun e => { e with swapIndex := i }
  if i = -1 then throw (.exit (-1)) else pure ()

/-- A page that is dirty, or a stack page, goes to swap; any other is dropped. -/
def savePage (alloc : ℕ → Bool) (t va : ℕ) (isStackPage : Bool) : Kern Unit := do
  if pagedirIsDirty ((← get).procs t).pagedir va || isStackPage then swapOut alloc t va else pure ()

/-- `evict_page` after its loop: the page under the hand goes. -/
def evictFrame (alloc : ℕ → Bool) (t : ℕ) : Kern ℕ := do
  modify fun s => { s with ft := s.ft.setCur { s.ft.cur with status := .empty } }
  let va := (← get).ft.cur.vaddr
  match ← getSPTEntry t va with
  | none => throw .nullDeref
  | some e =>
    modify fun s => s.modifySpte t va fun e => { e with residentBit := false }
    savePage alloc t va e.isStackPage
    modify fun s => s.setPagedir t (pagedirClearPage (s.procs t).pagedir va)
    return (← get).ft.bumpPtr

/-- The loop of `evict_page`: where the clock stops, and the page directory it leaves. -/
def clockScan (ft : FrameTable) (pd : PageDir) : PageDir × ℕ :=
  Clock.scan ft.maxFrame (fun pd i => pagedirIsAccessed pd (ft.entry i).vaddr)
    (fun pd i => pagedirSetAccessed pd (ft.entry i).vaddr false) (ft.maxFrame + 1) pd ft.bumpPtr

lemma clockScan_lt (ft : FrameTable) (pd : PageDir) : (clockScan ft pd).2 < ft.maxFrame :=
  Clock.scan_lt ft.bump_lt

/-- …as an operation of the current thread `t`. -/
def Vm.runClock (s : Vm) (t : ℕ) : Vm :=
  { s.setPagedir t (clockScan s.ft (s.procs t).pagedir).1 with
    ft := s.ft.moveTo (clockScan s.ft (s.procs t).pagedir).2 (clockScan_lt _ _) }

/-- `evict_page`, run by the current thread `t`. -/
def evictPage (alloc : ℕ → Bool) (t : ℕ) : Kern ℕ := do
  modify fun s => s.runClock t
  evictFrame alloc t

/-- `get_user_page`, run by the current thread `t`. -/
def getUserPage (alloc : ℕ → Bool) (t va : ℕ) : Kern ℕ := do
  let s ← get
  match FrameTable.findEmpty s.ft.maxFrame s.ft with
  | some ft => set { s with ft := ft }; takeFrame va
  | none => evictPage alloc t

end Pintos
