import Pintos.Machinery.Overwrite
import Pintos.Threads.Blocks

/-!
# Threads/Realloc — `calloc`, `realloc` and the bytes of the blocks

The heap, with the bytes in it. `malloc` and `free` write to their own bytes only: the headers, the
free blocks, the block that comes or goes, and the pages given back. What they write there is left
open; it is the `junk` of a call. `calloc` and `realloc` write to a block byte by byte, and a header
that is hit is lost.
-/

namespace Pintos

open Machinery Function List Nat

namespace Malloc

/-- The heap and memory. -/
structure Store where
  heap : State
  byte : ℕ → UInt8

/-- A call with its bytes. -/
abbrev StoreM := EStateM Fault Store

/-- The allocator's own bytes, when it deals with the block `p`. -/
def State.Private (s : State) (p a : ℕ) : Prop :=
  (p ≠ null ∧ p ≤ a ∧ a < p + blockSize s p) ∨
    (∃ r ∈ s.held, r.page ≤ a ∧ a < r.page + arenaSize) ∨
    ∃ k < s.descCnt, ∃ c ∈ (s.descs k).freeList, c ≤ a ∧ a < c + (s.descs k).blockSize

/-- The bytes of the pages given back. -/
def State.GivenBack (s s' : State) (a : ℕ) : Prop :=
  ∃ r ∈ s.held, r ∉ s'.held ∧ r.page ≤ a ∧ a < r.stop

instance (s : State) (p : ℕ) : DecidablePred (s.Private p) :=
  fun _ => inferInstanceAs (Decidable (_ ∨ _ ∨ _))

instance (s s' : State) : DecidablePred (s.GivenBack s') :=
  fun _ => inferInstanceAs (Decidable (∃ r ∈ s.held, _))

namespace Store

/-- The bytes in `W` become junk. -/
def scribble (m : Store) (W : ℕ → Prop) [DecidablePred W] (junk : ℕ → UInt8) : Store :=
  { m with byte := fun a => if W a then junk a else m.byte a }

/-- A byte is written. -/
def put (m : Store) (a : ℕ) (x : UInt8) : Store := ⟨m.heap.fill a (a + 1), update m.byte a x⟩

/-- `while (size-- > 0) *dst++ = …`, from the `i`-th byte on. -/
def putLoop (value : Store → ℕ → UInt8) (dst : ℕ) : ℕ → ℕ → Store → Store
  | 0, _, m => m
  | left + 1, i, m => putLoop value dst left (i + 1) (m.put ((dst + i) % 2 ^ 32) (value m i))

/-- The allocator's code works on the heap. -/
abbrev onHeap {α : Type} : MallocM α → StoreM α := onPart heap fun m heap => { m with heap }

/-- `memset`. -/
def memset (dst : ℕ) (x : UInt8) (size : ℕ) : StoreM Unit := do
  require .assertion (dst ≠ null ∨ size = 0)
  modify (putLoop (fun _ _ => x) dst size 0)

/-- `memcpy`. -/
def memcpy (dst src size : ℕ) : StoreM Unit := do
  require .assertion (dst ≠ null ∨ size = 0)
  require .assertion (src ≠ null ∨ size = 0)
  modify (putLoop (fun m i => m.byte ((src + i) % 2 ^ 32)) dst size 0)

/-- `malloc`, which leaves junk in its own bytes. -/
def malloc (junk : ℕ → UInt8) (choice size : ℕ) : StoreM ℕ := do
  let p ← onHeap (Malloc.malloc choice size)
  modify fun m => m.scribble (m.heap.Private p) junk
  return p

/-- `free`, which leaves junk there and in the pages given back. -/
def free (junk : ℕ → UInt8) (p : ℕ) : StoreM Unit := do
  let old ← get
  onHeap (Malloc.free p)
  modify fun m => m.scribble (fun a => old.heap.Private p a ∨ old.heap.GivenBack m.heap a) junk

/-- `calloc`, with its test for overflow. -/
def calloc (junk : ℕ → UInt8) (choice a b : ℕ) : StoreM ℕ := do
  let size := a * b % 2 ^ 32
  if size < a ∨ size < b then return null
  else do
    let p ← malloc junk choice size
    if p ≠ null then memset p 0 size
    return p

/-- `block_size`. -/
def blockSize (block : ℕ) : StoreM ℕ := do
  let _ ← onHeap (blockToArena block)
  let m ← get
  return Malloc.blockSize m.heap block

/-- `realloc`. -/
def realloc (junk junk' : ℕ → UInt8) (choice oldBlock newSize : ℕ) : StoreM ℕ :=
  if newSize = 0 then do
    free junk' oldBlock
    return null
  else do
    let newBlock ← malloc junk choice newSize
    if oldBlock ≠ null ∧ newBlock ≠ null then do
      let oldSize ← blockSize oldBlock
      let minSize := if newSize < oldSize then newSize else oldSize
      memcpy newBlock oldBlock minSize
      free junk' oldBlock
    return newBlock

end Store

variable {s s' : State} {m m' : Store} {live : List Block} {b c : Block} {p n a k i : ℕ}
  {junk junk' : ℕ → UInt8}

open Store

/-! ## Loops over bytes -/

variable {value : Store → ℕ → UInt8}

lemma held_putLoop {dst left : ℕ} : (putLoop value dst left i m).heap.held = m.heap.held := by
  induction left generalizing i m with
  | zero => rfl
  | succ left ih => exact ih

lemma fill_fill {start mid stop : ℕ} (h : start ≤ mid) (h' : mid ≤ stop) :
    (s.fill start mid).fill mid stop = s.fill start stop := by
  rw [State.fill, State.mk.injEq]
  refine ⟨rfl, rfl, funext fun a => ?_, rfl⟩
  have hsize : arenaSize = 12 := rfl
  show (if _ then _ else if _ then _ else _) = if _ then _ else _
  split_ifs <;> first | rfl | (exfalso; omega)

/-- A loop writes what it would from the start, as long as the bytes it reads are not in what it
writes. -/
lemma putLoop_eq {dst : ℕ} {v : ℕ → UInt8} (hn : 0 < n) (hdst : dst + n ≤ 2 ^ 32)
    (hvalue : ∀ m' : Store, (∀ a, a < dst ∨ dst + n ≤ a → m'.byte a = m.byte a) → ∀ j < n, value m' j = v j) :
    putLoop value dst n 0 m = ⟨m.heap.fill dst (dst + n), overwrite m.byte dst n v⟩ := by
  -- the invariant: `i` bytes are written, and `left + 1` are to come
  have hloop : ∀ left i m', i + (left + 1) = n →
      (∀ a, a < dst ∨ dst + n ≤ a → m'.byte a = m.byte a) → putLoop value dst (left + 1) i m' =
        ⟨m'.heap.fill (dst + i) (dst + n), overwrite m'.byte (dst + i) (left + 1) fun j => v (i + j)⟩ := by
    intro left
    induction left with
    | zero =>
      rintro i m' rfl hm'
      rw [putLoop, mod_eq_of_lt (by omega), hvalue m' hm' i (by omega), overwrite_one]
      rfl
    | succ left ih =>
      intro i m' hi hm'
      rw [putLoop, mod_eq_of_lt (by omega), hvalue m' hm' i (by omega), ih (i + 1) _ (by omega) ?_]
      · have hrest := overwrite_append m'.byte (dst + i) 1 (left + 1) fun j => v (i + j)
        rw [overwrite_one, add_comm 1] at hrest
        simp only [← add_assoc, add_zero] at hrest ⊢
        rw [put, fill_fill (by omega) (by omega), hrest]
      · intro a ha
        refine (update_of_ne ?_ _ _).trans (hm' a ha)
        omega
  obtain ⟨left, rfl⟩ := succ_of_lt hn
  have h := hloop left 0 m (zero_add _) fun _ _ => rfl
  simp only [zero_add, add_zero] at h
  exact h

/-! ## The bytes of the live blocks -/

/-- The allocator does not touch a live block, other than the one it deals with. -/
lemma Ok.not_private (h : Ok s live) (hp : p ≠ null → ∃ b ∈ live, b.addr = p) (hc : c ∈ live)
    (hne : c.addr ≠ p) (hi : i < blockSize s c.addr) : ¬ s.Private p (c.addr + i) := by
  have hcell := h.cell_live hc
  have hout : ∀ start stop, Palloc.Apart c.addr (c.addr + blockSize s c.addr) start stop →
      ¬ (start ≤ c.addr + i ∧ c.addr + i < stop) := by
    intro start stop hapart
    rw [Palloc.Apart] at hapart
    omega
  rintro (⟨hnull, hin⟩ | ⟨r, hr, hin⟩ | ⟨k, hk, a, ha, hin⟩)
  · obtain ⟨b, hb, rfl⟩ := hp hnull
    exact hout _ _ (hcell.apart h.toPaged (h.cell_live hb) hne) hin
  · exact hout _ _ (hcell.apart_header h.toPaged hr) hin
  · obtain ⟨hsmall, hfree⟩ := h.cell_free hk ha
    rw [← blockSize_small hsmall] at hin
    refine hout _ _ (hcell.apart h.toPaged hfree ?_) hin
    rintro rfl
    exact (h.shelf k hk).slab.apart _ ha ⟨mem_map_of_mem hc, hsmall⟩

/-- The blocks keep their sizes and their bytes. -/
def Keeps (m m' : Store) (live : List Block) : Prop :=
  SameSizes m.heap m'.heap live ∧
    ∀ c ∈ live, ∀ i < blockSize m.heap c.addr, m'.byte (c.addr + i) = m.byte (c.addr + i)

lemma Keeps.trans {m'' : Store} {live' : List Block} (h : Keeps m m' live) (h' : Keeps m' m'' live')
    (hsub : ∀ c ∈ live', c ∈ live) : Keeps m m'' live' := by
  refine ⟨fun c hc => (h'.1 c hc).trans (h.1 c (hsub c hc)), fun c hc i hi => ?_⟩
  rw [h'.2 c hc i (h.1 c (hsub c hc) ▸ hi)]
  exact h.2 c (hsub c hc) i hi

lemma Ok.addr_ne (h : Ok s live) (hb : b ∈ live) (hc : c ∈ live.erase b) : c.addr ≠ b.addr :=
  ((mem_map_erase h.nodup hb).mp (mem_map_of_mem hc)).2

lemma Ok.addr_ne_head (h : Ok s (b :: live)) (hc : c ∈ live) : c.addr ≠ b.addr := by
  refine h.addr_ne mem_cons_self ?_
  rwa [erase_cons_head]

lemma Ok.does_storeMalloc (h : Ok m.heap live) (hn : n + 12 ≤ 2 ^ 32) (choice : ℕ) :
    Does (Store.malloc junk choice n) m fun p m' =>
      Served m.heap live n p m'.heap ∧ Keeps m m' live ∧ (p = null → Refused m.heap choice n) := by
  simp only [Store.malloc, does_bind, does_onPart, does_modify, does_pure]
  refine (h.does_malloc_sized hn choice).mono ?_
  rintro p s' ⟨hserved, hsizes, hwhy⟩
  refine ⟨hserved, ⟨hsizes, fun c hc i hi => if_neg ?_⟩, hwhy⟩
  rw [← hsizes c hc] at hi
  obtain ⟨rfl, rfl⟩ | ⟨hne, hok, -, -⟩ := hserved
  · exact h.not_private (fun hnull => absurd rfl hnull) hc ((h.cell_live hc).ne_null h.toPaged) hi
  · exact hok.not_private (fun _ => ⟨_, mem_cons_self, rfl⟩) (mem_cons_of_mem _ hc) (hok.addr_ne_head hc) hi

lemma Ok.does_storeFree (h : Ok m.heap live) (hb : b ∈ live) :
    Does (Store.free junk b.addr) m fun _ m' => Freed m.heap live b m'.heap ∧ Keeps m m' (live.erase b) := by
  simp only [Store.free, does_bind, does_get, does_onPart, does_modify]
  refine (h.does_free_sized hb).mono ?_
  rintro _ s' ⟨hfreed, hsizes⟩
  refine ⟨hfreed, hsizes, fun c hc i hi => if_neg ?_⟩
  have hc' := mem_of_mem_erase hc
  rintro (hmine | ⟨r, hr, hgone, hfrom, hto⟩)
  · exact h.not_private (fun _ => ⟨b, hb, rfl⟩) hc' (h.addr_ne hb hc) hi hmine
  · -- the pages of `c` are not given back
    obtain ⟨r', hr', hpage, hfrom', hto'⟩ := (h.cell_live hc').within h.toPaged
    have hrr : r ≠ r' := by
      rintro rfl
      exact hgone ((hfreed.2 r).mpr ⟨hr, fun _ => ⟨c, hc, hpage.symm⟩⟩)
    have hapart := h.apart_of_ne hr hr' hrr
    rw [Run.Apart, Palloc.Apart] at hapart
    omega

/-! ## A first block -/

lemma ok_boot : Ok boot.heap [] := by
  have hinit : system.init boot := ⟨⟨emptyHeap, rfl, rfl, rfl⟩, rfl⟩
  exact (World.InOrder.init hinit).ok

/-- After `malloc_init`, there is a block for every request but the largest. -/
lemma does_malloc_boot (hpos : n ≠ 0) (hn : n + 4107 < 2 ^ 32) :
    Does (Malloc.malloc 4096 n) boot.heap fun p s' => p ≠ null ∧ Ok s' [⟨p, n⟩] := by
  refine (ok_boot.does_malloc_sized (by omega) 4096).mono ?_
  rintro p s' ⟨⟨rfl, -⟩ | ⟨hne, hok, -, -⟩, -, hwhy⟩
  · obtain hzero | ⟨cnt, hcnt, hnone⟩ := hwhy rfl
    · exact absurd hzero hpos
    · have hle : 0 < cnt ∧ cnt < 2 ^ 20 := by
        obtain rfl | hcnt := mem_cons.mp hcnt
        · decide
        · rw [mem_singleton.mp hcnt, pagesFor, divRoundUp, pgSize, arenaSize]
          omega
      have haligned : pgOfs 4096 = 0 := by decide
      have hstop : 4096 + 4096 * cnt ≤ 2 ^ 32 := by omega
      obtain rfl | hnot := hnone
      · exact absurd hle.1 (Nat.lt_irrefl 0)
      · exact absurd ⟨Nat.succ_ne_zero 4095, haligned, hstop, fun _ hr => absurd hr not_mem_nil⟩ hnot
  · exact ⟨hne, hok⟩

/-! ## `realloc` -/

lemma Cell.blockSize_pos (h : Paged s) (ha : Cell s a) : 0 < blockSize s a := by
  cases ha with
  | small k i hsmall hi heq =>
    rw [blockSize_small hsmall]
    exact (h.descs k (h.lt_descCnt hsmall)).blockSize_pos
  | big cnt hheld hdesc hofs =>
    have hsize : 12 + blockSize s a = 4096 * cnt := blockSize_big h hheld rfl hdesc hofs
    omega

lemma Ok.within (h : Ok s live) (hb : b ∈ live) : ∃ r ∈ s.held, r.page + arenaSize ≤ b.addr ∧
    b.addr + blockSize s b.addr ≤ r.stop ∧ r.stop ≤ 2 ^ 32 := by
  obtain ⟨r, hr, -, hfrom, hto⟩ := (h.cell_live hb).within h.toPaged
  exact ⟨r, hr, hfrom, hto, (h.fits r hr).stop_le⟩

/-- Writing into a live block leaves the heap in order, and the other blocks alone. -/
lemma Ok.write (h : Ok m.heap (b :: live)) {v : ℕ → UInt8} (hn : n ≤ blockSize m.heap b.addr) :
    Ok (m.heap.fill b.addr (b.addr + n)) (b :: live) ∧
      SameSizes m.heap (m.heap.fill b.addr (b.addr + n)) (b :: live) ∧
      Keeps m ⟨m.heap.fill b.addr (b.addr + n), overwrite m.byte b.addr n v⟩ live := by
  have hb : b ∈ b :: live := mem_cons_self
  have hapart : ∀ r ∈ m.heap.held, Palloc.Apart b.addr (b.addr + n) r.page (r.page + arenaSize) := by
    intro r hr
    have hapart := (h.cell_live hb).apart_header h.toPaged hr
    rw [Palloc.Apart] at hapart ⊢
    omega
  have hsizes : SameSizes m.heap (m.heap.fill b.addr (b.addr + n)) (b :: live) := by
    intro c hc
    obtain ⟨r, hr, hpage⟩ := (h.lies c hc).exists_held
    exact blockSize_congr hpage (fill_arena (hapart r hr)) rfl
  refine ⟨h.fill hapart, hsizes, fun c hc => hsizes c (mem_cons_of_mem _ hc), fun c hc i hi => ?_⟩
  have hcell := h.cell_live (mem_cons_of_mem b hc)
  have hcells := hcell.apart h.toPaged (h.cell_live hb) (h.addr_ne_head hc)
  rw [Palloc.Apart] at hcells
  exact overwrite_of_notMem (by omega)

variable {Q : Unit → Store → Prop}

lemma Ok.does_memcpy (h : Ok m.heap (b :: live)) (hc : c ∈ live) (hpos : 0 < n)
    (hb : n ≤ blockSize m.heap b.addr) (hsrc : n ≤ blockSize m.heap c.addr)
    (hQ : Q () ⟨m.heap.fill b.addr (b.addr + n), overwrite m.byte b.addr n fun i => m.byte (c.addr + i)⟩) :
    Does (memcpy b.addr c.addr n) m Q := by
  have hc' := mem_cons_of_mem b hc
  have hb' : b ∈ b :: live := mem_cons_self
  have hcells := (h.cell_live hc').apart h.toPaged (h.cell_live hb') (h.addr_ne_head hc)
  rw [Palloc.Apart] at hcells
  obtain ⟨r, -, -, hto, hstop⟩ := h.within hb'
  obtain ⟨r', -, -, hto', hstop'⟩ := h.within hc'
  simp only [memcpy, does_bind, does_require, does_modify]
  refine ⟨.inl ((h.cell_live hb').ne_null h.toPaged), .inl ((h.cell_live hc').ne_null h.toPaged), ?_⟩
  rw [putLoop_eq hpos (by omega)]
  · exact hQ
  · intro m' hm' i hi
    rw [mod_eq_of_lt (by omega)]
    exact hm' _ (by omega)

lemma does_storeBlockSize (h : Paged m.heap) (ha : Cell m.heap a) {Q : ℕ → Store → Prop}
    (hQ : Q (blockSize m.heap a) m) : Does (Store.blockSize a) m Q := by
  simp only [Store.blockSize, does_bind, does_onPart, does_get, does_pure]
  exact does_blockToArena h ha hQ

/-- The block `b`, when it has been copied to `c` and freed. -/
structure Moved (m : Store) (live : List Block) (b c : Block) (m' : Store) : Prop where
  ok : Ok m'.heap (c :: live.erase b)
  large : c.size ≤ blockSize m'.heap c.addr
  copied : ∀ i < min (blockSize m.heap b.addr) c.size, m'.byte (c.addr + i) = m.byte (b.addr + i)
  keeps : Keeps m m' (live.erase b)
  /-- the pages of `b` are given back, unless a live block is on them; all others stay -/
  freed : ∀ r ∈ m.heap.held, (r ∈ m'.heap.held ↔
    (r.page = pgRoundDown b.addr → ∃ d ∈ c :: live.erase b, pgRoundDown d.addr = r.page))
  fresh : ∀ r ∈ m'.heap.held, r ∈ m.heap.held ∨ r.page = pgRoundDown c.addr

lemma Ok.does_move (h : Ok m.heap (c :: live)) (hb : b ∈ live) (hpos : 1 ≤ c.size) :
    Does (do
      memcpy c.addr b.addr (min (blockSize m.heap b.addr) c.size)
      Store.free junk b.addr) m fun _ m' => Moved m live b c m' := by
  have hb' : b ∈ c :: live := mem_cons_of_mem _ hb
  have hold := (h.cell_live hb').blockSize_pos h.toPaged
  have hnew := h.size_le mem_cons_self
  have herase : (c :: live).erase b = c :: live.erase b := by
    refine erase_cons_tail fun heq => ?_
    exact h.addr_ne_head hb (congrArg Block.addr (eq_of_beq heq)).symm
  rw [does_bind]
  generalize hk : min (blockSize m.heap b.addr) c.size = k
  have hin : k ≤ blockSize m.heap c.addr := by omega
  refine h.does_memcpy hb (by omega) hin (by omega) ?_
  obtain ⟨hok, hsizes, hkeeps⟩ := h.write hin
  refine (hok.does_storeFree hb').mono ?_
  rintro _ m' ⟨hfreed, hkeeps'⟩
  rw [herase] at hkeeps'
  obtain ⟨hok', hheld⟩ := hfreed
  rw [herase] at hok' hheld
  refine ⟨hok', hok'.size_le mem_cons_self, fun i hi => ?_, ?_, fun r hr => ?_, fun r hr => ?_⟩
  · rw [hk] at hi
    have hi' : i < blockSize (m.heap.fill c.addr (c.addr + k)) c.addr := by
      rw [hsizes c mem_cons_self]
      exact Nat.lt_of_lt_of_le hi hin
    have hwritten := overwrite_of_mem (f := m.byte) (b := fun i => m.byte (b.addr + i))
      (Nat.le_add_right c.addr i) (Nat.add_lt_add_left hi _)
    rw [Nat.add_sub_cancel_left] at hwritten
    exact (hkeeps'.2 c mem_cons_self i hi').trans hwritten
  · refine hkeeps.trans ⟨fun d hd => ?_, fun d hd => ?_⟩ fun d => mem_of_mem_erase
    · exact hkeeps'.1 d (mem_cons_of_mem _ hd)
    · exact hkeeps'.2 d (mem_cons_of_mem _ hd)
  · exact (hheld r).trans (and_iff_right hr)
  · exact .inl ((hheld r).mp hr).1

/-- `realloc` fails and nothing is different, or the block has moved, with its bytes. -/
def Reallocated (m : Store) (live : List Block) (b : Block) (n p : ℕ) (m' : Store) : Prop :=
  (p = null ∧ Ok m'.heap live ∧ Keeps m m' live) ∨ (p ≠ null ∧ Moved m live b ⟨p, n⟩ m')

/-- **`realloc` preserves data**; and the size it reads off the header is within the block's pages.
-/
theorem realloc_preserves (h : Ok m.heap live) (hb : b ∈ live) (hpos : 1 ≤ n) (hn : n ≤ 2 ^ 31)
    (junk junk' : ℕ → UInt8) (choice : ℕ) :
    Does (realloc junk junk' choice b.addr n) m (Reallocated m live b n) ∧
      ∃ r ∈ m.heap.held, r.page + arenaSize ≤ b.addr ∧ b.addr + blockSize m.heap b.addr ≤ r.stop := by
  constructor
  · rw [realloc, if_neg (Nat.ne_of_gt hpos), does_bind]
    refine (h.does_storeMalloc (by omega) choice).mono ?_
    rintro p m₁ ⟨hserved, hkeeps, _⟩
    obtain ⟨rfl, hsame⟩ | ⟨hne, hok, hstay, hnew⟩ := hserved
    · rw [if_neg fun hboth => hboth.2 rfl, does_pure]
      exact .inl ⟨rfl, hsame ▸ h, hkeeps⟩
    · have hcell := hok.cell_live (mem_cons_of_mem _ hb)
      have hmin : (if n < blockSize m₁.heap b.addr then n else blockSize m₁.heap b.addr) =
          min (blockSize m₁.heap b.addr) n := by
        split_ifs <;> omega
      rw [if_pos ⟨hcell.ne_null hok.toPaged, hne⟩, does_bind]
      refine does_storeBlockSize hok.toPaged hcell ?_
      show Does (do _) m₁ _
      rw [hmin, ← bind_assoc, does_bind]
      refine (hok.does_move hb hpos).mono fun _ m' hmoved => (does_pure _).mpr (.inr ⟨hne, ?_⟩)
      have hcopied := hmoved.copied
      rw [hkeeps.1 b hb] at hcopied
      refine ⟨hmoved.ok, hmoved.large, fun i hi => ?_, hkeeps.trans hmoved.keeps fun c => mem_of_mem_erase,
        fun r hr => hmoved.freed r (hstay r hr), fun r hr => (hmoved.fresh r hr).elim (hnew r) .inr⟩
      rw [hcopied i hi]
      exact hkeeps.2 b hb i (Nat.lt_of_lt_of_le hi (Nat.min_le_left ..))
  · obtain ⟨r, hr, hfrom, hto, -⟩ := h.within hb
    exact ⟨r, hr, hfrom, hto⟩

/-- A first block grows from 100 bytes to 3000. -/
theorem realloc_preserves_first : ∃ m b, Ok m.heap [b] ∧ b.size = 100 ∧
    Does (realloc (fun _ => 0) (fun _ => 0) 8192 b.addr 3000) m (Reallocated m [b] b 3000) := by
  obtain ⟨p, s', -, -, hok⟩ := does_malloc_boot (n := 100) (by decide) (by decide)
  refine ⟨⟨s', fun _ => 0⟩, ⟨p, 100⟩, hok, rfl, ?_⟩
  exact (realloc_preserves hok mem_cons_self (by decide) (by decide) _ _ 8192).1

/-! ## Sizes that wrap -/

/-- A block holds so many bytes: its header says so, and the pages are out. -/
def Holds (s : State) (p n : ℕ) : Prop :=
  n ≤ blockSize s p ∧ ∃ r ∈ s.held, r.page + arenaSize ≤ p ∧ p + n ≤ r.stop

lemma Ok.holds (h : Ok s live) (hb : b ∈ live) : Holds s b.addr b.size := by
  obtain ⟨r, hr, hfrom, hto, -⟩ := h.within hb
  have hsize := h.size_le hb
  exact ⟨hsize, r, hr, hfrom, by omega⟩

lemma Holds.le (h : Holds s p n) (hheld : ∀ r ∈ s.held, r.Fits) : n + 4108 ≤ 2 ^ 32 := by
  obtain ⟨-, r, hr, hfrom, hto⟩ := h
  obtain ⟨hne, haligned, -, hstop⟩ := hheld r hr
  have hnull : r.page ≠ 0 := hne
  have hofs : r.page % 4096 = 0 := haligned
  have hsize : arenaSize = 12 := rfl
  omega

lemma findDesc_eq_none {left : ℕ} (h : ∀ k < i + left, (s.descs k).blockSize < n) :
    findDesc s n left i = none := by
  induction left generalizing i with
  | zero => rfl
  | succ left ih =>
    rw [findDesc, if_neg (Nat.not_le.mpr (h i (by omega)))]
    exact ih fun k hk => h k (by omega)

lemma malloc_congr {choice n' : ℕ} (hn : n ≠ 0) (hn' : n' ≠ 0)
    (hfind : findDesc s n s.descCnt 0 = findDesc s n' s.descCnt 0) (hpages : pagesFor n = pagesFor n') :
    Malloc.malloc choice n s = Malloc.malloc choice n' s := by
  rw [Malloc.malloc, if_neg hn, Malloc.malloc, if_neg hn', ← pagesFor, ← pagesFor, hpages]
  have hget (f : State → MallocM ℕ) : (get >>= f) s = f s s := rfl
  rw [hget, hget, hfind]

lemma malloc_boot_wrap (hn : n < 2 ^ 32) (hwrap : 2 ^ 32 < n + 12) :
    Malloc.malloc 4096 n boot.heap = Malloc.malloc 4096 1025 boot.heap := by
  have hdescs : ∀ k < 7, (boot.heap.descs k).blockSize < 1025 := by decide
  have hnone : ∀ n, 1025 ≤ n → findDesc boot.heap n 7 0 = none :=
    fun n hn => findDesc_eq_none fun k hk => Nat.lt_of_lt_of_le (hdescs k (by omega)) hn
  refine malloc_congr (by omega) (by decide) ((hnone n (by omega)).trans (hnone 1025 (Nat.le_refl _)).symm) ?_
  rw [pagesFor, pagesFor, divRoundUp, divRoundUp, pgSize, arenaSize]
  omega

lemma does_malloc_boot_any (hpos : n ≠ 0) (hn : n < 2 ^ 32)
    (h : n + 4107 < 2 ^ 32 ∨ 2 ^ 32 < n + 12) {byte : ℕ → UInt8} :
    Does (Store.malloc junk 4096 n) ⟨boot.heap, byte⟩ fun p m' => p ≠ null ∧ ∀ r ∈ m'.heap.held, r.Fits := by
  simp only [Store.malloc, does_bind, does_onPart, does_modify, does_pure]
  obtain hsmall | hwrap := h
  · exact (does_malloc_boot hpos hsmall).mono fun p s' h => ⟨h.1, h.2.fits⟩
  · have hrun := malloc_boot_wrap hn hwrap
    obtain ⟨p, s', hrun', hne, hok⟩ := does_malloc_boot (n := 1025) (by decide) (by decide)
    exact ⟨p, s', hrun.trans hrun', hne, hok.fits⟩

/-- The block holds what was asked for. -/
def Mallocs (size : ℕ) : Prop := ∀ m live junk choice, Ok m.heap live →
  Does (Store.malloc junk choice size) m fun p m' => p ≠ null → Holds m'.heap p size

/-- The block holds what was asked for, and that is zero. -/
def Callocs (a b : ℕ) : Prop := ∀ m live junk choice, Ok m.heap live →
  Does (calloc junk choice a b) m fun p m' =>
    p ≠ null → Holds m'.heap p (a * b) ∧ ∀ i < a * b, m'.byte (p + i) = 0

lemma Ok.does_memset (h : Ok m.heap (b :: live)) (hpos : 0 < b.size) (x : UInt8)
    (hQ : Q () ⟨m.heap.fill b.addr (b.addr + b.size), overwrite m.byte b.addr b.size fun _ => x⟩) :
    Does (memset b.addr x b.size) m Q := by
  obtain ⟨r, -, -, hto, hstop⟩ := h.within mem_cons_self
  have hsize := h.size_le mem_cons_self
  simp only [memset, does_bind, does_require, does_modify]
  refine ⟨.inl ((h.cell_live mem_cons_self).ne_null h.toPaged), ?_⟩
  rwa [putLoop_eq hpos (by omega) fun _ _ _ _ => rfl]

lemma mallocs_iff (hn : n < 2 ^ 32) : Mallocs n ↔ n + 12 ≤ 2 ^ 32 := by
  constructor
  · intro h
    by_contra hwrap
    obtain ⟨p, m', hrun, hholds⟩ := h ⟨boot.heap, fun _ => 0⟩ [] (fun _ => 0) 4096 ok_boot
    obtain ⟨hne, hfits⟩ := (does_malloc_boot_any (by omega) hn (.inr (by omega))).of_run hrun
    have hle := (hholds hne).le hfits
    omega
  · intro hle m live junk choice hok
    refine (hok.does_storeMalloc hle choice).mono ?_
    rintro p m' ⟨hserved, _, _⟩ hne
    obtain ⟨rfl, -⟩ | ⟨-, hok', -, -⟩ := hserved
    · exact absurd rfl hne
    · exact hok'.holds mem_cons_self

/-- The product is small enough, or its wrapping is noticed. -/
def Noticed (a b : ℕ) : Prop :=
  a * b + 12 ≤ 2 ^ 32 ∨ a * b % 2 ^ 32 < a ∨ a * b % 2 ^ 32 < b ∨
    (2 ^ 32 ≤ a * b % 2 ^ 32 + 4107 ∧ a * b % 2 ^ 32 + 12 ≤ 2 ^ 32)

lemma does_calloc_boot {b : ℕ} (h : ¬ Noticed a b) {byte : ℕ → UInt8} :
    Does (calloc junk 4096 a b) ⟨boot.heap, byte⟩ fun p m' => p ≠ null ∧ ∀ r ∈ m'.heap.held, r.Fits := by
  obtain ⟨hbig, ha, hb, hlarge⟩ : 2 ^ 32 < a * b + 12 ∧ a ≤ a * b % 2 ^ 32 ∧ b ≤ a * b % 2 ^ 32 ∧
      ¬ (2 ^ 32 ≤ a * b % 2 ^ 32 + 4107 ∧ a * b % 2 ^ 32 + 12 ≤ 2 ^ 32) := by
    rw [Noticed] at h
    omega
  have hlt : a * b % 2 ^ 32 < 2 ^ 32 := mod_lt _ (by decide)
  have hpos : a * b % 2 ^ 32 ≠ 0 := by
    intro hzero
    rw [hzero, le_zero] at ha
    rw [ha] at hbig
    omega
  rw [calloc, if_neg (by omega), does_bind]
  refine (does_malloc_boot_any hpos hlt (by omega)).mono ?_
  rintro p m' ⟨hne, hfits⟩
  rw [if_pos hne]
  simp only [memset, does_bind, does_require, does_modify, does_pure]
  refine ⟨.inl hne, hne, ?_⟩
  rwa [held_putLoop]

lemma callocs_iff {b : ℕ} : Callocs a b ↔ Noticed a b := by
  constructor
  · intro h
    by_contra hnot
    obtain ⟨p, m', hrun, hholds⟩ := h ⟨boot.heap, fun _ => 0⟩ [] (fun _ => 0) 4096 ok_boot
    obtain ⟨hne, hfits⟩ := (does_calloc_boot hnot).of_run hrun
    have hle := (hholds hne).1.le hfits
    exact hnot (.inl (by omega))
  · intro h m live junk choice hok
    rw [calloc, does_ite]
    refine ⟨fun _ => (does_pure _).mpr fun hne => absurd rfl hne, fun hfits => ?_⟩
    have hsize : a * b % 2 ^ 32 + 12 ≤ 2 ^ 32 := by
      rw [Noticed] at h
      omega
    rw [does_bind]
    obtain hzero | hpos := Nat.eq_zero_or_pos (a * b % 2 ^ 32)
    · rw [hzero]
      simp only [Store.malloc, Malloc.malloc, if_pos, does_bind, does_onPart, does_pure, does_modify]
      rw [if_neg fun hne => hne rfl, does_pure]
      exact fun hne => absurd rfl hne
    refine (hok.does_storeMalloc hsize choice).mono ?_
    rintro p m' ⟨hserved, _, _⟩
    obtain ⟨rfl, -⟩ | ⟨hne, hok', -, -⟩ := hserved
    · rw [if_neg fun hne => hne rfl, does_pure]
      exact fun hne => absurd rfl hne
    · have hle : a * b % 2 ^ 32 + 4108 ≤ 2 ^ 32 := (hok'.holds mem_cons_self).le hok'.fits
      have hprod : a * b % 2 ^ 32 = a * b := by
        rw [Noticed] at h
        exact Nat.mod_eq_of_lt (by omega)
      rw [hprod] at hok' hpos ⊢
      rw [if_pos hne, does_bind]
      refine hok'.does_memset hpos 0 ?_
      obtain ⟨hok'', -, -⟩ := hok'.write (v := fun _ => 0) (hok'.size_le mem_cons_self)
      rw [does_pure]
      refine fun _ => ⟨hok''.holds mem_cons_self, fun i hi => ?_⟩
      exact overwrite_of_mem (b := fun _ => 0) (Nat.le_add_right p i) (Nat.add_lt_add_left hi _)

/-- **Sizes wrap, and it is not always noticed.** -/
theorem sizes_never_wrap_iff (size a b : BitVec 32) :
    (Mallocs size.toNat ↔ size.toNat + 12 ≤ 2 ^ 32) ∧ (Callocs a.toNat b.toNat ↔ Noticed a.toNat b.toNat) :=
  ⟨mallocs_iff size.isLt, callocs_iff⟩

/-- 4 GB less a byte are a page; and 65537 × 65537 bytes are no more than 131073. -/
theorem sizes_wrap :
    (∃ m', (Store.malloc (fun _ => 0) 4096 0xffffffff).run ⟨boot.heap, fun _ => 0⟩ = .ok 4108 m' ∧
      blockSize m'.heap 4108 = 4084) ∧
    ∃ p m', (calloc (fun _ => 0) 4096 65537 65537).run ⟨boot.heap, fun _ => 0⟩ = .ok p m' ∧
      p ≠ null ∧ ¬ Holds m'.heap p (65537 * 65537) := by
  constructor
  · exact ⟨_, rfl, by decide⟩
  · obtain ⟨p, m', hrun, hne, hfits⟩ := does_calloc_boot (a := 65537) (b := 65537) (by unfold Noticed; decide)
    exact ⟨p, m', hrun, hne, fun hholds => absurd (hholds.le hfits) (by decide)⟩

end Malloc

end Pintos
