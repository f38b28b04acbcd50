import Pintos.Machinery.Slab
import Pintos.Threads.Palloc

/-!
# Threads/Malloc — `malloc` and `free`

A request is rounded up to the block size of a descriptor. Its blocks are cut from arenas,
and the free blocks of all its arenas are on one list:

    page   │ magic │ desc │ free_cnt │ block 0 │ block 1 │ …

A request that is too big gets pages of its own, behind the same header; `desc` is null there, and
`free_cnt` is the number of pages. The page allocator gives any run of pages it likes that meets no
other, or none. Addresses are natural numbers; what the code computes in 32 bits wraps.
-/

namespace Pintos

open Machinery

namespace Malloc

/-- `ARENA_MAGIC`. -/
def arenaMagic : ℕ := 0x9a548eed

/-- `sizeof (struct arena)`. -/
def arenaSize : ℕ := 12

/-- `struct desc`, its lock left out. -/
structure Desc where
  blockSize : ℕ
  blocksPerArena : ℕ
  freeList : List ℕ
  deriving DecidableEq, Repr

/-- `struct arena`; the descriptor is an index into `descs`. -/
structure Arena where
  magic : ℕ
  desc : Option ℕ
  freeCnt : ℕ
  deriving DecidableEq, Repr

/-- A run of pages. -/
structure Run where
  page : ℕ
  cnt : ℕ
  deriving DecidableEq, Repr

/-- The end of the run. -/
def Run.stop (r : Run) : ℕ := r.page + pgSize * r.cnt

/-- `descs` and `desc_cnt`; the memory, as far as it is read as a `struct arena`; and the runs of
pages that are out. -/
structure State where
  descs : ℕ → Desc
  descCnt : ℕ
  arena : ℕ → Arena
  held : List Run

/-- How a call does not return. -/
inductive Fault where
  /-- a failing `ASSERT`, here or in the page allocator -/
  | assertion
  /-- a null or wild pointer is followed -/
  | wild
  deriving DecidableEq, Repr

/-- A call of the allocator. -/
abbrev MallocM := EStateM Fault State

/-! ## Setting up -/

/-- The loop of `malloc_init`; `none` is the failing assertion. -/
def initLoop : ℕ → ℕ → State → Option State
  | 0, _, _ => none
  | turns + 1, blockSize, s =>
    if blockSize < pgSize / 2 then
      if s.descCnt + 1 ≤ 10 then
        initLoop turns (blockSize * 2 % 2 ^ 32) { s with
          descs := Function.update s.descs s.descCnt
            ⟨blockSize, (pgSize - arenaSize) / blockSize, []⟩
          descCnt := s.descCnt + 1 }
      else none
    else some s

/-- `malloc_init`: a block size is doubled 32 times at most. -/
def mallocInit (s : State) : Option State := initLoop 32 16 s

/-! ## The state, changed in one place -/

namespace State

/-- A header is written. -/
def setArena (s : State) (a : ℕ) (x : Arena) : State :=
  { s with arena := Function.update s.arena a x }

/-- A free list is. -/
def setFreeList (s : State) (k : ℕ) (l : List ℕ) : State :=
  { s with descs := Function.update s.descs k { s.descs k with freeList := l } }

/-- `memset (start, 0xcc, …)`; a header that it meets is lost. -/
def fill (s : State) (start stop : ℕ) : State :=
  { s with arena := fun a => if a < stop ∧ start < a + arenaSize
      then ⟨0xcccccccc, some 0xcccccccc, 0xcccccccc⟩ else s.arena a }

end State

/-! ## The page allocator -/

/-- Pages that can be handed out: they are in memory, and meet no run that is out. -/
def State.Available (s : State) (r : Run) : Prop :=
  r.page ≠ null ∧ pgOfs r.page = 0 ∧ r.stop ≤ 2 ^ 32 ∧
    ∀ r' ∈ s.held, Palloc.Apart r.page r.stop r'.page r'.stop

instance (s : State) (r : Run) : Decidable (s.Available r) :=
  have (a b c d : ℕ) : Decidable (Palloc.Apart a b c d) := inferInstanceAs (Decidable (_ ∨ _))
  inferInstanceAs (Decidable (_ ∧ _ ∧ _ ∧ _))

/-- `palloc_get_multiple`, which would give the pages at `choice`. -/
def pallocGetMultiple (choice pageCnt : ℕ) : MallocM ℕ :=
  if pageCnt = 0 then return null
  else do
    let s ← get
    if s.Available ⟨choice, pageCnt⟩ then do
      set { s with held := ⟨choice, pageCnt⟩ :: s.held }
      return choice
    else return null

/-- The pages the heap has are pages of the kernel's pool that are out. -/
def State.Within (s : State) (w : Palloc.World) : Prop :=
  ∀ r ∈ s.held, ⟨false, r.page, r.cnt⟩ ∈ w.runs

/-- The page allocator proper makes such a choice: the heap gets the pages that it hands out. -/
lemma State.Within.get {s : State} {w : Palloc.World} {pools : Palloc.Pools}
    {ramPages userPageLimit pageCnt pages : ℕ} (hs : s.Within w)
    (hw : w.Owned ramPages userPageLimit)
    (hrun : (Palloc.pallocGetMultiple false false pageCnt).run w.pools = .ok pages pools) :
    Does (pallocGetMultiple pages pageCnt) s fun p s' => p = pages ∧
      s'.Within ⟨pools, if pages = null then w.runs else ⟨false, pages, pageCnt⟩ :: w.runs⟩ := by
  obtain hget | ⟨hassert, -⟩ := hw.get false false pageCnt
  swap
  · exact absurd hassert Bool.false_ne_true
  have hw' := hget.of_run hrun
  by_cases hnull : pages = null
  · have hnone : ¬ s.Available ⟨pages, pageCnt⟩ := fun havailable => havailable.1 hnull
    simp only [pallocGetMultiple, does_ite, does_bind, does_get, hnone, does_pure, if_pos hnull]
    exact ⟨fun _ => ⟨hnull.symm, hs⟩, fun _ => ⟨False.elim, fun _ => ⟨hnull.symm, hs⟩⟩⟩
  · rw [if_neg hnull] at hw' ⊢
    obtain ⟨k, hk⟩ := hw'.held _ List.mem_cons_self
    have hspans := hw'.laid.spans false
    have havailable : s.Available ⟨pages, pageCnt⟩ := by
      refine ⟨hnull, ?_, ?_, fun r hr => (List.pairwise_cons.mp hw'.apart).1 _ (hs r hr) rfl⟩
      · rw [pgOfs, show pages = _ from hk.pages, Nat.add_mul_mod_self_left]
        exact hspans.aligned
      · exact Nat.le_trans hk.within.2.1 (Nat.le_trans (Nat.le_of_eq hspans.stop_eq) hspans.stop_le)
    simp only [pallocGetMultiple, if_neg (Nat.ne_of_gt hk.pos), does_bind, does_get, if_pos havailable,
      does_set, does_pure, true_and]
    intro r hr
    obtain rfl | hr := List.mem_cons.mp hr
    · exact List.mem_cons_self
    · exact List.mem_cons_of_mem _ (hs r hr)

/-- `palloc_free_multiple`. It asserts that the pages are marked; here, that they are a run out. -/
def pallocFreeMultiple (pages pageCnt : ℕ) : MallocM Unit := do
  require .assertion (pgOfs pages = 0)
  if pages = null ∨ pageCnt = 0 then return ()
  else do
    let s ← get
    require .assertion (⟨pages, pageCnt⟩ ∈ s.held)
    set { s.fill pages (pages + pgSize * pageCnt) with held := s.held.erase ⟨pages, pageCnt⟩ }

/-! ## Blocks and arenas -/

/-- The descriptor a pointer points to. -/
def derefDesc : Option ℕ → MallocM Desc
  | none => throw .wild
  | some k => do
    let s ← get
    require .wild (k < s.descCnt)
    return s.descs k

/-- `block_to_arena`, with its assertions. -/
def blockToArena (b : ℕ) : MallocM ℕ := do
  let s ← get
  let a := pgRoundDown b
  require .assertion (a ≠ null)
  require .assertion ((s.arena a).magic = arenaMagic)
  match (s.arena a).desc with
  | none => require .assertion (pgOfs b = arenaSize)
  | some k => do
    let d ← derefDesc (some k)
    require .assertion ((pgOfs b + 2 ^ 32 - arenaSize) % 2 ^ 32 % d.blockSize = 0)
  return a

/-- `arena_to_block`, likewise. -/
def arenaToBlock (a idx : ℕ) : MallocM ℕ := do
  let s ← get
  require .assertion (a ≠ null)
  require .assertion ((s.arena a).magic = arenaMagic)
  let d ← derefDesc (s.arena a).desc
  require .assertion (idx < d.blocksPerArena)
  return (a + arenaSize + idx * d.blockSize) % 2 ^ 32

/-- The loop of `malloc` over the blocks of a new arena. -/
def pushBlocks (a k : ℕ) : ℕ → ℕ → MallocM Unit
  | 0, _ => return ()
  | left + 1, i => do
    let b ← arenaToBlock a i
    modify fun s => s.setFreeList k ((s.descs k).freeList ++ [b])
    pushBlocks a k left (i + 1)

/-- The loop of `free` over the blocks of an unused arena. -/
def removeBlocks (a k : ℕ) : ℕ → ℕ → MallocM Unit
  | 0, _ => return ()
  | left + 1, i => do
    let b ← arenaToBlock a i
    let s ← get
    require .wild (b ∈ (s.descs k).freeList)
    set (s.setFreeList k ((s.descs k).freeList.erase b))
    removeBlocks a k left (i + 1)

/-- `block_size`, once `block_to_arena` has found the arena. -/
def blockSize (s : State) (block : ℕ) : ℕ :=
  match (s.arena (pgRoundDown block)).desc with
  | some k => (s.descs k).blockSize
  | none => (pgSize * (s.arena (pgRoundDown block)).freeCnt + 2 ^ 32 - pgOfs block) % 2 ^ 32

/-! ## `malloc` and `free` -/

/-- The first descriptor from `k` on that satisfies the request. -/
def findDesc (s : State) (size : ℕ) : ℕ → ℕ → Option ℕ
  | 0, _ => none
  | left + 1, k => if size ≤ (s.descs k).blockSize then some k else findDesc s size left (k + 1)

/-- The end of `malloc`: a block is taken from the free list. -/
def takeBlock (k : ℕ) : MallocM ℕ := do
  let s ← get
  match (s.descs k).freeList with
  | [] => throw .assertion
  | b :: rest => do
    set (s.setFreeList k rest)
    let a ← blockToArena b
    modify fun s => s.setArena a
      { s.arena a with freeCnt := ((s.arena a).freeCnt + 2 ^ 32 - 1) % 2 ^ 32 }
    return b

/-- `malloc`, for which the page allocator would give the pages at `choice`. -/
def malloc (choice size : ℕ) : MallocM ℕ :=
  if size = 0 then return null
  else do
    let s ← get
    match findDesc s size s.descCnt 0 with
    | none => do
      let pageCnt := divRoundUp ((size + arenaSize) % 2 ^ 32) pgSize
      let a ← pallocGetMultiple choice pageCnt
      if a = null then return null
      else do
        modify fun s => s.setArena a ⟨arenaMagic, none, pageCnt⟩
        return (a + arenaSize) % 2 ^ 32
    | some k =>
      if (s.descs k).freeList = [] then do
        let a ← pallocGetMultiple choice 1
        if a = null then return null
        else do
          modify fun s => s.setArena a ⟨arenaMagic, some k, (s.descs k).blocksPerArena⟩
          pushBlocks a k (s.descs k).blocksPerArena 0
          takeBlock k
      else takeBlock k

/-- `free`; the memory is overwritten, and an unused arena returned. -/
def free (p : ℕ) : MallocM Unit :=
  if p = null then return ()
  else do
    let a ← blockToArena p
    let s ← get
    match (s.arena a).desc with
    | none => pallocFreeMultiple a (s.arena a).freeCnt
    | some k => do
      let d ← derefDesc (some k)
      modify fun s => s.fill p (p + d.blockSize)
      modify fun s => s.setFreeList k (p :: (s.descs k).freeList)
      modify fun s => s.setArena a { s.arena a with freeCnt := ((s.arena a).freeCnt + 1) % 2 ^ 32 }
      let s ← get
      if d.blocksPerArena ≤ (s.arena a).freeCnt then do
        require .assertion ((s.arena a).freeCnt = d.blocksPerArena)
        removeBlocks a k d.blocksPerArena 0
        pallocFreeMultiple a 1
      else return ()

/-! ## The calls -/

/-- A block that was asked for and not freed. -/
structure Block where
  addr : ℕ
  size : ℕ
  deriving DecidableEq, Repr

/-- The heap, and the blocks that are live. -/
structure World where
  heap : State
  live : List Block

/-- Memory is asked for, and freed. -/
inductive Call where
  | malloc (choice size : ℕ)
  | free (block : Block)
  deriving DecidableEq, Repr

/-- Only live blocks are freed, and no more than 2 GB asked for. -/
def World.Allows (w : World) : Call → Prop
  | .malloc _ size => size ≤ 2 ^ 31
  | .free block => block ∈ w.live

instance (w : World) : ∀ call, Decidable (w.Allows call)
  | .malloc _ size => inferInstanceAs (Decidable (size ≤ _))
  | .free block => inferInstanceAs (Decidable (block ∈ w.live))

/-- One call, or the fault in it. -/
def World.act (w : World) : Call → Except Fault World
  | .malloc choice size => match (Malloc.malloc choice size).run w.heap with
    | .ok p heap => .ok ⟨heap, if p = null then w.live else ⟨p, size⟩ :: w.live⟩
    | .error e _ => .error e
  | .free block => match (Malloc.free block.addr).run w.heap with
    | .ok _ heap => .ok ⟨heap, w.live.erase block⟩
    | .error e _ => .error e

/-- The system of the heap, from `malloc_init` on, whatever is in memory then. -/
def system : System World Call where
  init w := (∃ s, s.descCnt = 0 ∧ s.held = [] ∧ mallocInit s = some w.heap) ∧ w.live = []
  step w call w' := w.act call = .ok w'

end Malloc

end Pintos
