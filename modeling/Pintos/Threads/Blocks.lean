import Pintos.Threads.Arenas

/-!
# Threads/Blocks — the blocks of the heap do not meet

A block is a cell of its arena, free or live. Two cells do not meet, and none meets a header.
`malloc` and `free` go through from any heap in order to a heap in order; a page that comes gets a
live block at once, and goes just when no other block on it is live.
-/

namespace Pintos

open Machinery Function List Nat

namespace Malloc

variable {s s' : State} {live : List Block} {k j page a n i : ℕ} {r : Run} {b : Block}

/-! ## Cells -/

/-- A block of the heap, free or live. -/
inductive Cell (s : State) (a : ℕ) : Prop
  | small (k i : ℕ) : s.Small k (pgRoundDown a) → i < (s.descs k).blocksPerArena →
      pgRoundDown a + arenaSize + i * (s.descs k).blockSize = a → Cell s a
  | big (cnt : ℕ) : ⟨pgRoundDown a, cnt⟩ ∈ s.held → (s.arena (pgRoundDown a)).desc = none →
      pgOfs a = arenaSize → Cell s a

lemma blockSize_small (h : s.Small k (pgRoundDown a)) : blockSize s a = (s.descs k).blockSize := by
  rw [blockSize, h.2]

lemma blockSize_big (h : Paged s) (hr : r ∈ s.held) (hpage : r.page = pgRoundDown a)
    (hdesc : (s.arena (pgRoundDown a)).desc = none) (hofs : pgOfs a = arenaSize) :
    arenaSize + blockSize s a = pgSize * r.cnt := by
  have hcnt : (s.arena (pgRoundDown a)).freeCnt = r.cnt := by
    rw [← hpage] at hdesc ⊢
    exact (h.heads r hr).big hdesc
  have hstop := (h.fits r hr).stop_le
  have hpos : pgSize ≤ pgSize * r.cnt := Nat.le_mul_of_pos_right pgSize (h.fits r hr).cnt_pos
  rw [blockSize, hdesc]
  show arenaSize + (pgSize * (s.arena (pgRoundDown a)).freeCnt + 2 ^ 32 - pgOfs a) % 2 ^ 32 = _
  rw [hcnt]
  have hpg : pgSize = 4096 := rfl
  have hsize : arenaSize = 12 := rfl
  rw [Run.stop] at hstop
  generalize pgSize * r.cnt = m at *
  omega

section

variable {l : List ℕ}

lemma blockSize_adjust (h : s.Small k page) (a : ℕ) : blockSize (s.adjust k l page n) a = blockSize s a := by
  rw [blockSize, blockSize, adjust_desc]
  cases hdesc : (s.arena (pgRoundDown a)).desc with
  | some j => exact adjust_blockSize
  | none =>
    have hne : pgRoundDown a ≠ page := by
      rintro rfl
      cases hdesc.symm.trans h.2
    rw [adjust_arena_of_ne hne]

lemma blockSize_setFreeList (h : s.Small k page) (a : ℕ) : blockSize (s.setFreeList k l) a = blockSize s a := by
  rw [← adjust_self page, blockSize_adjust h]

end

lemma blockSize_congr (hpage : r.page = pgRoundDown a) (harena : s'.arena r.page = s.arena r.page)
    (hdescs : s'.descs = s.descs) : blockSize s' a = blockSize s a := by
  rw [blockSize, blockSize, ← hpage, harena, hdescs]

/-- The live blocks keep their sizes. -/
def SameSizes (s s' : State) (live : List Block) : Prop := ∀ c ∈ live, blockSize s' c.addr = blockSize s c.addr

section

variable (h : Paged s) (ha : Cell s a)

include h ha

lemma Cell.within :
    ∃ r ∈ s.held, r.page = pgRoundDown a ∧ r.page + arenaSize ≤ a ∧ a + blockSize s a ≤ r.stop := by
  cases ha with
  | small k i hsmall hi heq =>
    have hle := (h.descs k (h.lt_descCnt hsmall)).block_le hi
    refine ⟨_, hsmall.1, rfl, ?_, ?_⟩
    · show pgRoundDown a + arenaSize ≤ a
      omega
    · rw [blockSize_small hsmall]
      show a + (s.descs k).blockSize ≤ pgRoundDown a + pgSize * 1
      omega
  | big cnt hheld hdesc hofs =>
    have hsize : arenaSize + blockSize s a = pgSize * cnt := blockSize_big h hheld rfl hdesc hofs
    have ha := pgRoundDown_add_pgOfs a
    refine ⟨_, hheld, rfl, ?_, ?_⟩
    · show pgRoundDown a + arenaSize ≤ a
      omega
    · show a + blockSize s a ≤ pgRoundDown a + pgSize * cnt
      omega

lemma Cell.apart {c : ℕ} (hc : Cell s c) (hne : a ≠ c) :
    Palloc.Apart a (a + blockSize s a) c (c + blockSize s c) := by
  obtain ⟨r, hr, hpage, hfrom, hto⟩ := ha.within h
  obtain ⟨r', hr', hpage', hfrom', hto'⟩ := hc.within h
  obtain rfl | hrr := eq_or_ne r r'
  · -- on one page, two cells are pieces of different number
    rw [hpage] at hpage'
    cases ha with
    | small k i hsmall hi heq =>
      cases hc with
      | small j i' hsmall' hi' heq' =>
        rw [← hpage'] at hsmall' heq'
        obtain rfl := hsmall.unique hsmall'
        have hii : i ≠ i' := by
          rintro rfl
          exact hne (heq.symm.trans heq')
        rw [blockSize_small hsmall, blockSize_small (hpage' ▸ hsmall)]
        obtain hlt | hlt := Nat.lt_or_gt_of_ne hii
        · have hle := Nat.mul_le_mul_right (s.descs k).blockSize hlt
          rw [Nat.succ_mul] at hle
          exact .inl (by omega)
        · have hle := Nat.mul_le_mul_right (s.descs k).blockSize hlt
          rw [Nat.succ_mul] at hle
          exact .inr (by omega)
      | big cnt _ hdesc _ =>
        rw [← hpage'] at hdesc
        cases hsmall.2.symm.trans hdesc
    | big cnt _ hdesc hofs =>
      cases hc with
      | small j i' hsmall' _ _ =>
        rw [← hpage'] at hsmall'
        cases hsmall'.2.symm.trans hdesc
      | big cnt' _ _ hofs' =>
        refine absurd ?_ hne
        rw [← pgRoundDown_add_pgOfs a, ← pgRoundDown_add_pgOfs c, hpage', hofs, hofs']
  · have hapart := h.apart_of_ne hr hr' hrr
    rw [Run.Apart, Palloc.Apart] at hapart
    rw [Palloc.Apart]
    omega

lemma Cell.apart_header (hr : r ∈ s.held) :
    Palloc.Apart a (a + blockSize s a) r.page (r.page + arenaSize) := by
  obtain ⟨r', hr', -, hfrom, hto⟩ := ha.within h
  obtain rfl | hrr := eq_or_ne r r'
  · exact .inr hfrom
  · have hapart := h.apart_of_ne hr hr' hrr
    have hlt := (h.fits r hr).page_lt
    rw [Run.Apart, Palloc.Apart] at hapart
    rw [Palloc.Apart]
    omega

lemma Cell.ne_null : a ≠ null := by
  obtain ⟨r, -, -, hfrom, -⟩ := ha.within h
  have hpos : 0 < arenaSize := Nat.succ_pos 11
  exact Nat.ne_of_gt (Nat.lt_of_lt_of_le (Nat.add_pos_right r.page hpos) hfrom)

end

namespace Ok

lemma cell_of_mem (hsmall : s.Small k (pgRoundDown a))
    (ha : a ∈ (s.descs k).blocks (pgRoundDown a)) : Cell s a := by
  obtain ⟨i, hi, heq⟩ := Desc.mem_blocks.mp ha
  exact .small k i hsmall hi heq

variable (h : Ok s live)

include h

lemma cell_free (hk : k < s.descCnt) (ha : a ∈ (s.descs k).freeList) :
    s.Small k (pgRoundDown a) ∧ Cell s a := by
  obtain ⟨hsmall, hmem⟩ := (h.shelf k hk).slab.free_mem a ha
  exact ⟨hsmall, cell_of_mem hsmall hmem⟩

lemma cell_live (hb : b ∈ live) : Cell s b.addr := by
  cases h.lies b hb with
  | small k hk hsmall _ =>
    exact cell_of_mem hsmall ((h.shelf k hk).slab.used_mem _ ⟨mem_map_of_mem hb, hsmall⟩).2
  | big cnt hheld hdesc hofs _ => exact .big cnt hheld hdesc hofs

lemma size_le (hb : b ∈ live) : b.size ≤ blockSize s b.addr := by
  cases h.lies b hb with
  | small k hk hsmall hsize =>
    rwa [blockSize_small hsmall]
  | big cnt hheld hdesc hofs hsize =>
    have heq := blockSize_big h.toPaged hheld rfl hdesc hofs
    exact Nat.le_of_add_le_add_left (hsize.trans_eq heq.symm)

lemma freeCnt_le (hsmall : s.Small k page) :
    (s.arena page).freeCnt ≤ (s.descs k).blocksPerArena := by
  obtain ⟨hslab, hcount⟩ := h.shelf k (h.lt_descCnt hsmall)
  rw [hcount page hsmall, ← Desc.length_blocks page]
  exact hslab.count_le

lemma freeCnt_lt (hsmall : s.Small k page) : (s.arena page).freeCnt < 2 ^ 32 - 1 := by
  have hfits := h.descs k (h.lt_descCnt hsmall)
  calc (s.arena page).freeCnt ≤ (s.descs k).blocksPerArena := h.freeCnt_le hsmall
    _ ≤ (s.descs k).blocksPerArena * (s.descs k).blockSize := Nat.le_mul_of_pos_right _ hfits.blockSize_pos
    _ ≤ pgSize := Nat.le_of_add_left_le hfits.le_page
    _ < 2 ^ 32 - 1 := by decide

end Ok

/-! ## From a block to its arena, and back -/

lemma Cell.adjust {l : List ℕ} {q : ℕ} (ha : Cell s a) : Cell (s.adjust k l q n) a := by
  cases ha with
  | small j i hsmall hi heq =>
    refine .small j i (small_adjust.mpr hsmall) ?_ ?_
    · rwa [adjust_blocksPerArena]
    · rwa [adjust_blockSize]
  | big cnt hheld hdesc hofs => exact .big cnt hheld (adjust_desc.trans hdesc) hofs

variable {Q : ℕ → State → Prop}

lemma does_blockToArena (h : Paged s) (ha : Cell s a) (hQ : Q (pgRoundDown a) s) :
    Does (blockToArena a) s Q := by
  obtain ⟨r, hr, hpage, -, -⟩ := ha.within h
  have hne := (h.fits r hr).page_ne
  have hmagic := (h.heads r hr).magic
  rw [hpage] at hne hmagic
  simp only [blockToArena, does_bind, does_get, does_require]
  refine ⟨hne, hmagic, ?_⟩
  cases ha with
  | small k i hsmall hi heq =>
    have hk := h.lt_descCnt hsmall
    have hlt := (h.descs k hk).block_lt hi
    have hofs : pgOfs a = arenaSize + i * (s.descs k).blockSize := by
      have ha := pgRoundDown_add_pgOfs a
      omega
    have hwrap : (pgOfs a + 2 ^ 32 - arenaSize) % 2 ^ 32 = i * (s.descs k).blockSize := by
      have hpg : pgSize = 4096 := rfl
      omega
    rw [hsmall.2]
    simp only [derefDesc, does_bind, does_get, does_require, does_pure]
    refine ⟨hk, ?_, hQ⟩
    rw [hwrap]
    exact mul_mod_left ..
  | big cnt hheld hdesc hofs =>
    rw [hdesc]
    simp only [does_bind, does_require, does_pure]
    exact ⟨hofs, hQ⟩

lemma does_arenaToBlock (h : Paged s) (hsmall : s.Small k page)
    (hi : i < (s.descs k).blocksPerArena)
    (hQ : Q (page + arenaSize + i * (s.descs k).blockSize) s) : Does (arenaToBlock page i) s Q := by
  have hk := h.lt_descCnt hsmall
  have hfits := h.fits _ hsmall.1
  have hstop : page + pgSize * 1 ≤ 2 ^ 32 := hfits.stop_le
  have hlt := (h.descs k hk).block_lt hi
  have hwrap : (page + arenaSize + i * (s.descs k).blockSize) % 2 ^ 32 =
      page + arenaSize + i * (s.descs k).blockSize := mod_eq_of_lt (by omega)
  simp only [arenaToBlock, does_bind, does_get, does_require, hsmall.2, derefDesc, does_pure]
  refine ⟨hfits.page_ne, (h.heads _ hsmall.1).magic, hk, hi, ?_⟩
  rwa [hwrap]

/-- The blocks of an arena from the `i`-th on. -/
def Desc.blocksFrom (d : Desc) (page i left : ℕ) : List ℕ :=
  (List.range' i left).map fun i => page + arenaSize + i * d.blockSize

lemma Desc.blocksFrom_succ (d : Desc) (page i left : ℕ) : d.blocksFrom page i (left + 1) =
    (page + arenaSize + i * d.blockSize) :: d.blocksFrom page (i + 1) left := rfl

lemma Desc.blocksFrom_zero (d : Desc) (page : ℕ) :
    d.blocksFrom page 0 d.blocksPerArena = d.blocks page := by
  rw [Desc.blocksFrom, Desc.blocks, range_eq_range']

section

variable {l l' : List ℕ}

lemma setFreeList_setFreeList :
    (s.setFreeList k l).setFreeList k l' = s.setFreeList k l' := by
  simp only [State.setFreeList, update_self, update_idem]

lemma setFreeList_freeList : ((s.setFreeList k l).descs k).freeList = l := by
  simp only [State.setFreeList, update_self]

lemma setFreeList_self : s.setFreeList k (s.descs k).freeList = s := by
  simp only [State.setFreeList, update_eq_self]

lemma Paged.setFreeList (h : Paged s) (hsmall : s.Small k page) :
    Paged (s.setFreeList k l) ∧ (s.setFreeList k l).Small k page ∧
      ((s.setFreeList k l).descs k).blocksPerArena = (s.descs k).blocksPerArena ∧
      ((s.setFreeList k l).descs k).blockSize = (s.descs k).blockSize := by
  rw [← adjust_self page]
  exact ⟨h.adjust hsmall, small_adjust.mpr hsmall, adjust_blocksPerArena, adjust_blockSize⟩

end

variable {left : ℕ}

/-- The loop over a new arena puts its blocks at the end of the free list. -/
lemma does_pushBlocks (h : Paged s) (hsmall : s.Small k page)
    (hi : i + left = (s.descs k).blocksPerArena) {Q : Unit → State → Prop}
    (hQ : Q () (s.setFreeList k ((s.descs k).freeList ++ (s.descs k).blocksFrom page i left))) :
    Does (pushBlocks page k left i) s Q := by
  induction left generalizing s i with
  | zero =>
    have hnil : (s.descs k).blocksFrom page i 0 = [] := rfl
    rw [hnil, append_nil, setFreeList_self] at hQ
    rwa [pushBlocks, does_pure]
  | succ left ih =>
    rw [pushBlocks, does_bind]
    refine does_arenaToBlock h hsmall (by omega) ?_
    rw [does_bind, does_modify]
    generalize hl : (s.descs k).freeList ++ [page + arenaSize + i * (s.descs k).blockSize] = l
    obtain ⟨hpaged, hsmall', hblocks, hsize⟩ := h.setFreeList hsmall
    refine ih hpaged hsmall' (by omega) ?_
    rw [setFreeList_setFreeList, setFreeList_freeList, ← hl, append_assoc]
    simp only [Desc.blocksFrom, hl, hsize]
    exact hQ

/-- The loop over an unused arena takes its blocks off the free list. -/
lemma does_removeBlocks (h : Paged s) (hsmall : s.Small k page)
    (hi : i + left = (s.descs k).blocksPerArena)
    (hnodup : ((s.descs k).blocksFrom page i left).Nodup)
    (hfree : ∀ a ∈ (s.descs k).blocksFrom page i left, a ∈ (s.descs k).freeList)
    {Q : Unit → State → Prop}
    (hQ : Q () (s.setFreeList k ((s.descs k).freeList.diff ((s.descs k).blocksFrom page i left)))) :
    Does (removeBlocks page k left i) s Q := by
  induction left generalizing s i with
  | zero =>
    have hnil : (s.descs k).blocksFrom page i 0 = [] := rfl
    rw [hnil, diff_nil, setFreeList_self] at hQ
    rwa [removeBlocks, does_pure]
  | succ left ih =>
    rw [Desc.blocksFrom_succ] at hnodup hfree hQ
    obtain ⟨hnot, hnodup⟩ := nodup_cons.mp hnodup
    rw [removeBlocks, does_bind]
    refine does_arenaToBlock h hsmall (by omega) ?_
    simp only [does_bind, does_get, does_require, does_set]
    refine ⟨hfree _ mem_cons_self, ?_⟩
    generalize hl : (s.descs k).freeList.erase (page + arenaSize + i * (s.descs k).blockSize) = l
    obtain ⟨hpaged, hsmall', hblocks, hsize⟩ := h.setFreeList hsmall
    have hfrom : ((s.setFreeList k l).descs k).blocksFrom page (i + 1) left =
        (s.descs k).blocksFrom page (i + 1) left := by
      rw [Desc.blocksFrom, Desc.blocksFrom, hsize]
    refine ih hpaged hsmall' (by omega) (hfrom ▸ hnodup) ?_ ?_
    · intro a ha
      rw [hfrom] at ha
      rw [setFreeList_freeList, ← hl]
      refine (mem_erase_of_ne ?_).mpr (hfree a (mem_cons_of_mem _ ha))
      rintro rfl
      exact hnot ha
    · rw [setFreeList_setFreeList, setFreeList_freeList, hfrom, ← hl]
      rwa [diff_cons] at hQ

/-! ## The page allocator -/

lemma does_pallocGetMultiple {choice cnt : ℕ}
    (hnull : cnt = 0 ∨ ¬ s.Available ⟨choice, cnt⟩ → Q null s)
    (hQ : s.Fresh ⟨choice, cnt⟩ → Q choice { s with held := ⟨choice, cnt⟩ :: s.held }) :
    Does (pallocGetMultiple choice cnt) s Q := by
  rw [pallocGetMultiple]
  simp only [does_bind, does_get, does_ite, does_set, does_pure]
  refine ⟨fun hcnt => hnull (.inl hcnt), fun hcnt => ⟨fun hfresh => ?_, fun hnot => hnull (.inr hnot)⟩⟩
  obtain ⟨hne, haligned, hstop, hapart⟩ := hfresh
  exact hQ ⟨⟨hne, haligned, Nat.pos_of_ne_zero hcnt, hstop⟩, hapart⟩

lemma does_pallocFreeMultiple (h : Paged s) (hr : r ∈ s.held) {Q : Unit → State → Prop}
    (hQ : Q () (s.release r)) : Does (pallocFreeMultiple r.page r.cnt) s Q := by
  obtain ⟨hne, haligned, hcnt, -⟩ := h.fits r hr
  rw [pallocFreeMultiple, does_bind, if_neg (by rintro (h | h) <;> omega)]
  simp only [does_bind, does_get, does_require, does_set]
  exact ⟨haligned, hr, hQ⟩

/-! ## `malloc` -/

lemma findDesc_eq_some (h : findDesc s n left i = some k) :
    k < i + left ∧ n ≤ (s.descs k).blockSize := by
  induction left generalizing i with
  | zero => cases h
  | succ left ih =>
    rw [findDesc] at h
    split_ifs at h with hle
    · cases h
      exact ⟨by omega, hle⟩
    · obtain ⟨hlt, hsize⟩ := ih h
      exact ⟨by omega, hsize⟩

/-- The pages for a request of its own. -/
def pagesFor (n : ℕ) : ℕ := divRoundUp ((n + arenaSize) % 2 ^ 32) pgSize

lemma le_pagesFor (hn : n + 12 ≤ 2 ^ 32) (hpos : 0 < pagesFor n) : arenaSize + n ≤ pgSize * pagesFor n := by
  rw [pagesFor, divRoundUp, pgSize, arenaSize] at hpos ⊢
  omega

lemma Ok.sameSizes_hold (h : Ok s live) (hr : s.Fresh r) {x : Arena} : SameSizes s (s.hold r x) live := by
  intro c hc
  obtain ⟨r', hr', hpage⟩ := (h.lies c hc).exists_held
  exact blockSize_congr hpage (h.toPaged.hold_arena hr hr') rfl

lemma Ok.does_takeBlock (h : Ok s live) (hk : k < s.descCnt) (hfree : (s.descs k).freeList ≠ [])
    (hn : n ≤ (s.descs k).blockSize) :
    Does (takeBlock k) s fun p s' =>
      p ∈ (s.descs k).freeList ∧ p ≠ null ∧ Ok s' (⟨p, n⟩ :: live) ∧ s'.held = s.held ∧
        ∀ a, blockSize s' a = blockSize s a := by
  obtain ⟨a, rest, heq⟩ := exists_cons_of_ne_nil hfree
  obtain ⟨hpos, hok⟩ := h.take hk heq hn
  have hmem : a ∈ (s.descs k).freeList := heq ▸ mem_cons_self
  obtain ⟨hsmall, hcell⟩ := h.cell_free hk hmem
  have hcnt : ((s.arena (pgRoundDown a)).freeCnt + 2 ^ 32 - 1) % 2 ^ 32 =
      (s.arena (pgRoundDown a)).freeCnt - 1 := by
    have hlt := h.freeCnt_lt hsmall
    omega
  have hcell' : Cell (s.setFreeList k rest) a := by
    rw [← adjust_self (pgRoundDown a)]
    exact hcell.adjust
  simp only [takeBlock, does_bind, does_get, heq, does_set]
  refine does_blockToArena (h.setFreeList hsmall).1 hcell' ?_
  rw [does_modify, does_pure]
  have hstate : (s.setFreeList k rest).setArena (pgRoundDown a)
      { (s.setFreeList k rest).arena (pgRoundDown a) with
        freeCnt := (((s.setFreeList k rest).arena (pgRoundDown a)).freeCnt + 2 ^ 32 - 1) % 2 ^ 32 } =
      s.adjust k rest (pgRoundDown a) ((s.arena (pgRoundDown a)).freeCnt - 1) := by
    rw [← hcnt]
    rfl
  rw [hstate]
  exact ⟨mem_cons_self, hcell.ne_null h.toPaged, hok, rfl, blockSize_adjust hsmall⟩

/-- `malloc` does nothing, or a new live block comes; and pages that come are for it. -/
def Served (s : State) (live : List Block) (n p : ℕ) (s' : State) : Prop :=
  (p = null ∧ s' = s) ∨ (p ≠ null ∧ Ok s' (⟨p, n⟩ :: live) ∧ (∀ r ∈ s.held, r ∈ s'.held) ∧
    ∀ r ∈ s'.held, r ∈ s.held ∨ r.page = pgRoundDown p)

/-- Why `malloc` gives no block. -/
def Refused (s : State) (choice n : ℕ) : Prop :=
  n = 0 ∨ ∃ cnt ∈ [1, pagesFor n], cnt = 0 ∨ ¬ s.Available ⟨choice, cnt⟩

lemma Ok.does_malloc_sized (h : Ok s live) (hn : n + 12 ≤ 2 ^ 32) (choice : ℕ) :
    Does (malloc choice n) s fun p s' =>
      Served s live n p s' ∧ SameSizes s s' live ∧ (p = null → Refused s choice n) := by
  have hnull : Refused s choice n →
      Served s live n null s ∧ SameSizes s s live ∧ (null = null → Refused s choice n) :=
    fun hwhy => ⟨.inl ⟨rfl, rfl⟩, fun _ _ => rfl, fun _ => hwhy⟩
  rw [malloc, does_ite]
  refine ⟨fun hzero => (does_pure _).mpr (hnull (.inl hzero)), fun hpos => ?_⟩
  rw [does_bind, does_get]
  cases hfind : findDesc s n s.descCnt 0 with
  | none =>
    have hpages := le_pagesFor hn
    have hwhy := fun hnone => hnull (.inr ⟨pagesFor n, mem_cons_of_mem _ mem_cons_self, hnone⟩)
    rw [← pagesFor]
    generalize pagesFor n = cnt at *
    show Does (do _) s _
    rw [does_bind]
    refine does_pallocGetMultiple (fun hnone => ?_) fun hfresh => ?_
    · rw [if_pos rfl, does_pure]
      exact hwhy hnone
    · have hsize := hpages hfresh.fits.cnt_pos
      have hok := h.addBig hfresh hsize
      have hstop : choice + pgSize * cnt ≤ 2 ^ 32 := hfresh.fits.stop_le
      have hwrap : (choice + arenaSize) % 2 ^ 32 = choice + arenaSize := by
        refine mod_eq_of_lt ?_
        omega
      rw [if_neg hfresh.fits.page_ne, does_bind, does_modify, does_pure, hwrap]
      have hne := (hok.cell_live mem_cons_self).ne_null hok.toPaged
      refine ⟨.inr ⟨hne, hok, ?_, ?_⟩, h.sameSizes_hold hfresh, fun hnone => absurd hnone hne⟩
      · exact fun r hr => mem_cons_of_mem _ hr
      · intro r hr
        obtain rfl | hr := mem_cons.mp hr
        · exact .inr (pgRoundDown_add hfresh.fits.aligned (by decide)).symm
        · exact .inl hr
  | some k =>
    obtain ⟨hk, hsize⟩ := findDesc_eq_some hfind
    rw [zero_add] at hk
    show Does (if _ then _ else _) s _
    rw [does_ite]
    refine ⟨fun hnil => ?_, fun hfree => ?_⟩
    · rw [does_bind]
      refine does_pallocGetMultiple (fun hnone => ?_) fun hfresh => ?_
      · rw [if_pos rfl, does_pure]
        exact hnull (.inr ⟨1, mem_cons_self, hnone⟩)
      · have hok := h.addArena hk hfresh
        obtain ⟨hpaged, hnew⟩ := h.toPaged.newArena hk hfresh
        have hlisted := (h.descs k hk).listed hfresh.fits.aligned
        rw [if_neg hfresh.fits.page_ne, does_bind, does_modify, does_bind]
        refine does_pushBlocks hpaged hnew (zero_add _) ?_
        rw [Desc.blocksFrom_zero]
        generalize ht : ((s.hold ⟨choice, 1⟩ ⟨arenaMagic, some k, (s.descs k).blocksPerArena⟩).setFreeList k
          ((s.descs k).freeList ++ (s.descs k).blocks choice)) = t at hok
        have hlist : (t.descs k).freeList = (s.descs k).blocks choice := by
          rw [← ht, setFreeList_freeList, hnil, nil_append]
        have hsize' : n ≤ (t.descs k).blockSize := by
          rwa [← ht, (hpaged.setFreeList hnew).2.2.2]
        have hheld : t.held = ⟨choice, 1⟩ :: s.held := ht ▸ rfl
        have hcnt : t.descCnt = s.descCnt := ht ▸ rfl
        have hne : (t.descs k).freeList ≠ [] := by
          rw [hlist, ← length_pos_iff, Desc.length_blocks]
          exact (h.descs k hk).blocks_pos
        have hsizes : SameSizes s t live := fun c hc => by
          rw [← ht, blockSize_setFreeList hnew, h.sameSizes_hold hfresh c hc]
        suffices hdone : Does (takeBlock k) t fun p s' =>
            Served s live n p s' ∧ SameSizes s s' live ∧ (p = null → Refused s choice n) from ht ▸ hdone
        refine (hok.does_takeBlock (hcnt ▸ hk) hne hsize').mono ?_
        rintro p s' ⟨hp, hpnull, hok', hheld', hsame⟩
        rw [hlist] at hp
        rw [hheld] at hheld'
        refine ⟨.inr ⟨hpnull, hok', fun r hr => ?_, fun r hr => ?_⟩,
          fun c hc => (hsame _).trans (hsizes c hc), fun hnone => absurd hnone hpnull⟩
        · rw [hheld']
          exact mem_cons_of_mem _ hr
        · rw [hheld'] at hr
          obtain rfl | hr := mem_cons.mp hr
          · exact .inr (hlisted.2 p hp).symm
          · exact .inl hr
    · refine (h.does_takeBlock hk hfree hsize).mono ?_
      rintro p s' ⟨_, hne, hok, hheld, hsame⟩
      rw [Served, hheld]
      exact ⟨.inr ⟨hne, hok, fun _ => id, fun _ => .inl⟩, fun c _ => hsame _, fun hnone => absurd hnone hne⟩

/-! ## `free` -/

/-- The count says whether an arena is in use. -/
lemma Ok.freeCnt_eq_iff (h : Ok s live) (hsmall : s.Small k page) :
    (s.arena page).freeCnt = (s.descs k).blocksPerArena ↔
      ∀ c ∈ live, pgRoundDown c.addr ≠ page := by
  obtain ⟨hslab, hcount⟩ := h.shelf k (h.lt_descCnt hsmall)
  rw [hcount page hsmall, ← Desc.length_blocks page, hslab.count_eq_iff hsmall]
  constructor
  · rintro hnone c hc rfl
    exact hnone c.addr ⟨mem_map_of_mem hc, hsmall⟩ rfl
  · rintro hnone a ⟨ha, -⟩
    obtain ⟨c, hc, rfl⟩ := List.mem_map.mp ha
    exact hnone c hc

lemma Ok.mem_freeList (h : Ok s live) (hsmall : s.Small k page)
    (hnone : ∀ c ∈ live, pgRoundDown c.addr ≠ page) (ha : a ∈ (s.descs k).blocks page) :
    a ∈ (s.descs k).freeList := by
  have hk := h.lt_descCnt hsmall
  obtain hfree | ⟨hlive, -⟩ := (h.shelf k hk).slab.cover page hsmall a ha
  · exact hfree
  · obtain ⟨c, hc, rfl⟩ := List.mem_map.mp hlive
    exact absurd ((h.listed hk hsmall).2 _ ha) (hnone c hc)

/-- After `free` the block is not live, and its pages are gone if no block on them is. -/
def Freed (s : State) (live : List Block) (b : Block) (s' : State) : Prop :=
  Ok s' (live.erase b) ∧ ∀ r, r ∈ s'.held ↔
    r ∈ s.held ∧ (r.page = pgRoundDown b.addr → ∃ c ∈ live.erase b, pgRoundDown c.addr = r.page)

lemma Paged.freed_release (h : Paged s) (hr : r ∈ s.held) {live' : List Block}
    (hnone : ∀ c ∈ live', pgRoundDown c.addr ≠ r.page) {r' : Run} : r' ∈ (s.release r).held ↔
      r' ∈ s.held ∧ (r'.page = r.page → ∃ c ∈ live', pgRoundDown c.addr = r'.page) := by
  rw [h.mem_release, and_comm, and_congr_right_iff]
  intro hr'
  constructor
  · exact fun hne hpage => absurd (h.eq_of_page hr' hr hpage) hne
  · rintro hlive rfl
    obtain ⟨c, hc, hpage⟩ := hlive rfl
    exact hnone c hc hpage

/-- The end of `free`, with the block back on the list: the arena goes if it is not in use. -/
lemma Ok.does_giveBack (h : Ok s live) (hsmall : s.Small k page)
    (hm : (s.descs k).blocksPerArena = n) {Q : Unit → State → Prop}
    (hkeep : (∃ c ∈ live, pgRoundDown c.addr = page) → Q () s)
    (hgive : (∀ c ∈ live, pgRoundDown c.addr ≠ page) →
      ∀ t, Ok (t.release ⟨page, 1⟩) live → Paged t → t.held = s.held →
        (∀ a, blockSize t a = blockSize s a) → Q () (t.release ⟨page, 1⟩)) :
    Does (if n ≤ (s.arena page).freeCnt then do
        require .assertion ((s.arena page).freeCnt = n)
        removeBlocks page k n 0
        pallocFreeMultiple page 1
      else return ()) s Q := by
  subst hm
  have hk := h.lt_descCnt hsmall
  have hiff := h.freeCnt_eq_iff hsmall
  rw [does_ite]
  constructor
  · intro hle
    have heq := Nat.le_antisymm (h.freeCnt_le hsmall) hle
    have hnone := hiff.mp heq
    have hdrop := h.dropArena hsmall hnone
    rw [does_bind, does_require, does_bind]
    refine ⟨heq, does_removeBlocks h.toPaged hsmall (Nat.zero_add _) ?_ ?_ ?_⟩
    · rw [Desc.blocksFrom_zero]
      exact (h.listed hk hsmall).1
    · rw [Desc.blocksFrom_zero]
      exact fun a => h.mem_freeList hsmall hnone
    · rw [Desc.blocksFrom_zero]
      obtain ⟨hpaged, hsmall', -, -⟩ := h.setFreeList hsmall
      refine does_pallocFreeMultiple hpaged hsmall'.1 (hgive hnone _ hdrop hpaged rfl ?_)
      exact blockSize_setFreeList hsmall
  · intro hlt
    rw [does_pure]
    refine hkeep ?_
    by_contra hnone
    refine hlt (Nat.le_of_eq (hiff.mpr fun c hc hpage => hnone ⟨c, hc, hpage⟩).symm)

lemma Paged.sameSizes_release (h : Paged s) (hr : r ∈ s.held) {live' : List Block} (hok : Ok (s.release r) live') :
    SameSizes s (s.release r) live' := by
  intro c hc
  obtain ⟨r', hr', hpage⟩ := (hok.lies c hc).exists_held
  exact blockSize_congr hpage (release_arena h hr hr') rfl

lemma Ok.does_free_sized (h : Ok s live) (hb : b ∈ live) :
    Does (free b.addr) s fun _ s' => Freed s live b s' ∧ SameSizes s s' (live.erase b) := by
  have hcell := h.cell_live hb
  rw [free, if_neg (hcell.ne_null h.toPaged), does_bind]
  refine does_blockToArena h.toPaged hcell ?_
  rw [does_bind, does_get]
  cases h.lies b hb with
  | big cnt hheld hdesc hofs _ =>
    have hcnt := (h.heads _ hheld).big hdesc
    have hok := h.dropBig hb hheld rfl hdesc hofs
    rw [hdesc, hcnt]
    refine does_pallocFreeMultiple h.toPaged hheld ⟨⟨hok, fun r => ?_⟩, h.toPaged.sameSizes_release hheld hok⟩
    exact h.freed_release hheld fun c hc => h.page_ne_of_big hb hdesc hofs hc
  | small k hk hsmall _ =>
    rw [hsmall.2]
    simp only [derefDesc, does_bind, does_get, does_require, does_pure, does_modify]
    refine ⟨hk, ?_⟩
    rw [← blockSize_small hsmall]
    have hapart := fun r hr => hcell.apart_header h.toPaged (r := r) hr
    have hfill := h.fill hapart
    have hsmall' := (small_fill hapart).mpr hsmall
    have hsizes : SameSizes s (s.fill b.addr (b.addr + blockSize s b.addr)) live := by
      intro c hc
      obtain ⟨r, hr, hpage⟩ := (h.lies c hc).exists_held
      exact blockSize_congr hpage (fill_arena (hapart r hr)) rfl
    generalize ht : s.fill b.addr (b.addr + blockSize s b.addr) = t at *
    have hheld : t.held = s.held := ht ▸ rfl
    have hdescs : t.descs = s.descs := ht ▸ rfl
    have hput := hfill.put hb hsmall'
    have hwrap := mod_eq_of_lt (add_lt_of_lt_sub (hfill.freeCnt_lt hsmall'))
    rw [← hwrap] at hput
    have hback : ∀ l n, SameSizes s (t.adjust k l (pgRoundDown b.addr) n) (live.erase b) :=
      fun l n c hc => (blockSize_adjust hsmall' _).trans (hsizes c (mem_of_mem_erase hc))
    refine hput.does_giveBack (small_adjust.mpr hsmall') ?_ ?_ ?_
    · rw [adjust_blocksPerArena, hdescs]
    · rintro ⟨c, hc, hpage⟩
      refine ⟨⟨hput, fun r => ?_⟩, hback _ _⟩
      rw [adjust_held, hheld]
      exact (and_iff_left_of_imp fun _ hr => ⟨c, hc, hpage.trans hr.symm⟩).symm
    · intro hnone u hok hpaged hu hsame
      rw [adjust_held, hheld] at hu
      refine ⟨⟨hok, fun r => ?_⟩, fun c hc => ?_⟩
      · rw [← hu]
        exact hpaged.freed_release (hu ▸ hsmall.1) hnone
      · rw [hpaged.sameSizes_release (hu ▸ hsmall.1) hok c hc, hsame]
        exact hback _ _ c hc

/-! ## Setting up -/

/-- Nothing is out, and nothing is free. -/
structure Blank (s : State) : Prop where
  held : s.held = []
  descs : ∀ k < s.descCnt, (s.descs k).Fits ∧ (s.descs k).freeList = []

lemma Blank.initLoop {turns size : ℕ} (h : Blank s) (hsize : 0 < size)
    (hs : initLoop turns size s = some s') : Blank s' := by
  induction turns generalizing size s with
  | zero => cases hs
  | succ turns ih =>
    rw [Malloc.initLoop] at hs
    split_ifs at hs with hlt hroom
    · have hbig : size < 2048 := hlt
      refine ih ?_ (by omega) hs
      refine ⟨h.held, fun k hk => ?_⟩
      show (update s.descs s.descCnt _ k).Fits ∧
        (update s.descs s.descCnt _ k).freeList = []
      obtain rfl | hne := eq_or_ne k s.descCnt
      · rw [update_self]
        refine ⟨⟨hsize, ?_, ?_⟩, rfl⟩
        · have hle : size ≤ pgSize - arenaSize := Nat.le_of_lt (Nat.lt_of_lt_of_le hbig (by decide))
          exact Nat.div_pos hle hsize
        · have hle : (pgSize - arenaSize) / size * size ≤ pgSize - arenaSize := Nat.div_mul_le_self ..
          have hpg : arenaSize ≤ pgSize := by decide
          show arenaSize + (pgSize - arenaSize) / size * size ≤ pgSize
          omega
      · rw [update_of_ne hne]
        have hk' : k < s.descCnt + 1 := hk
        exact h.descs k (by omega)
    · cases hs
      exact h

lemma Blank.ok (h : Blank s) : Ok s [] := by
  have hsmall : ∀ k page, ¬ s.Small k page := by
    rintro k page ⟨hheld, -⟩
    rw [h.held] at hheld
    cases hheld
  refine ⟨⟨fun k hk => (h.descs k hk).1, ?_, ?_, ?_⟩, fun k hk => ⟨?_, ?_⟩, nodup_nil, nofun⟩
  · rw [h.held]
    exact nofun
  · rw [h.held]
    exact .nil
  · rw [h.held]
    exact nofun
  · rw [(h.descs k hk).2]
    exact ⟨fun q hq => absurd hq (hsmall k q), nodup_nil, nofun, fun a ha => absurd ha.2 (hsmall k _),
      nofun, fun q hq => absurd hq (hsmall k q)⟩
  · exact fun q hq => absurd hq (hsmall k q)

/-! ## Every sequence of calls -/

namespace World

/-- The heap is in order, and every arena has a live block. -/
structure InOrder (w : World) : Prop where
  ok : Ok w.heap w.live
  occupied : ∀ r ∈ w.heap.held, ∃ b ∈ w.live, pgRoundDown b.addr = r.page

/-- The live blocks are apart, large enough, and away from headers and free blocks; the counts are
right, and no arena is kept for nothing. -/
structure Sound (w : World) : Prop where
  disjoint : w.live.Pairwise fun b c =>
    Palloc.Apart b.addr (b.addr + blockSize w.heap b.addr) c.addr (c.addr + blockSize w.heap c.addr)
  large : ∀ b ∈ w.live, b.size ≤ blockSize w.heap b.addr
  off_header : ∀ b ∈ w.live, ∀ r ∈ w.heap.held,
    Palloc.Apart b.addr (b.addr + blockSize w.heap b.addr) r.page (r.page + arenaSize)
  off_free : ∀ b ∈ w.live, ∀ k < w.heap.descCnt, ∀ a ∈ (w.heap.descs k).freeList,
    Palloc.Apart b.addr (b.addr + blockSize w.heap b.addr) a (a + (w.heap.descs k).blockSize)
  counted : ∀ k page, w.heap.Small k page → (w.heap.arena page).freeCnt =
    (w.heap.descs k).freeList.countP fun a => pgRoundDown a = page
  occupied : ∀ k page, w.heap.Small k page → ∃ b ∈ w.live, pgRoundDown b.addr = page

/-- The page of a small arena is returned when its last live block is freed and only then. -/
def Returns (w : World) (call : Call) (w' : World) : Prop :=
  ∀ k page, w.heap.Small k page →
    (⟨page, 1⟩ ∉ w'.heap.held ↔ ∃ b, call = .free b ∧ pgRoundDown b.addr = page ∧
      ∀ c ∈ w'.live, pgRoundDown c.addr ≠ page) ∧
    (⟨page, 1⟩ ∉ w'.heap.held →
      ∀ j < w'.heap.descCnt, ∀ a ∈ (w'.heap.descs j).freeList, pgRoundDown a ≠ page)

namespace InOrder

variable {w w' : World} {call : Call}

lemma sound (h : w.InOrder) : w.Sound where
  disjoint := by
    have hpairs := pairwise_map.mp h.ok.nodup
    refine hpairs.imp_of_mem fun hb hc hne => ?_
    exact (h.ok.cell_live hb).apart h.ok.toPaged (h.ok.cell_live hc) hne
  large b hb := h.ok.size_le hb
  off_header b hb r hr := (h.ok.cell_live hb).apart_header h.ok.toPaged hr
  off_free b hb k hk a ha := by
    obtain ⟨hsmall, hcell⟩ := h.ok.cell_free hk ha
    rw [← blockSize_small hsmall]
    refine (h.ok.cell_live hb).apart h.ok.toPaged hcell ?_
    rintro rfl
    exact (h.ok.shelf k hk).slab.apart _ ha ⟨mem_map_of_mem hb, hsmall⟩
  counted k page hsmall := (h.ok.shelf k (h.ok.lt_descCnt hsmall)).count page hsmall
  occupied k page hsmall := h.occupied _ hsmall.1

lemma init (h : system.init w) : w.InOrder := by
  obtain ⟨⟨s, hcnt, hheld, hs⟩, hlive⟩ := h
  have hblank : Blank s := ⟨hheld, fun k hk => absurd hk (hcnt ▸ not_lt_zero k)⟩
  have hblank' := hblank.initLoop (succ_pos 15) hs
  refine ⟨hlive ▸ hblank'.ok, ?_⟩
  rw [hblank'.held]
  exact nofun

/-- One call: it goes through, and leaves the heap in order. -/
lemma act (h : w.InOrder) (hallows : w.Allows call) :
    ∃ w', w.act call = .ok w' ∧ w'.InOrder ∧ w.Returns call w' := by
  cases call with
  | malloc choice n =>
    have hn : n ≤ 2 ^ 31 := hallows
    obtain ⟨p, s', hrun, hserved, -⟩ := h.ok.does_malloc_sized (n := n) (by omega) choice
    have hreturns (live : List Block) (hkeep : ∀ r ∈ w.heap.held, r ∈ s'.held) :
        w.Returns (.malloc choice n) ⟨s', live⟩ := by
      intro k page hsmall
      have hheld := hkeep _ hsmall.1
      refine ⟨iff_of_false (fun hgone => hgone hheld) ?_, fun hgone => absurd hheld hgone⟩
      rintro ⟨b, hcall, -⟩
      cases hcall
    refine ⟨⟨s', if p = null then w.live else ⟨p, n⟩ :: w.live⟩, ?_, ?_⟩
    · rw [World.act, hrun]
    · obtain ⟨rfl, rfl⟩ | ⟨hne, hok, hkeep, hnew⟩ := hserved
      · exact ⟨h, hreturns _ fun _ => id⟩
      · rw [if_neg hne]
        refine ⟨⟨hok, fun r hr => ?_⟩, hreturns _ hkeep⟩
        obtain hr | hr := hnew r hr
        · obtain ⟨b, hb, hpage⟩ := h.occupied r hr
          exact ⟨b, mem_cons_of_mem _ hb, hpage⟩
        · exact ⟨_, mem_cons_self, hr.symm⟩
  | free b =>
    obtain ⟨u, s', hrun, ⟨hok, hheld⟩, -⟩ := h.ok.does_free_sized hallows
    have horder : InOrder ⟨s', w.live.erase b⟩ := by
      refine ⟨hok, fun r hr => ?_⟩
      obtain ⟨hr, hstays⟩ := (hheld r).mp hr
      by_cases hpage : r.page = pgRoundDown b.addr
      · exact hstays hpage
      · obtain ⟨c, hc, hc'⟩ := h.occupied r hr
        refine ⟨c, (mem_erase_of_ne ?_).mpr hc, hc'⟩
        rintro rfl
        exact hpage hc'.symm
    refine ⟨⟨s', w.live.erase b⟩, ?_, horder, fun k page hsmall => ⟨?_, ?_⟩⟩
    · rw [World.act, hrun]
    · rw [hheld]
      constructor
      · intro hgone
        by_contra hnot
        refine hgone ⟨hsmall.1, fun hpage => ?_⟩
        by_contra hnone
        refine hnot ⟨b, rfl, hpage.symm, fun c hc hc' => hnone ⟨c, hc, hc'⟩⟩
      · rintro ⟨c, hcall, hpage, hnone⟩ ⟨-, hstays⟩
        obtain rfl := Call.free.inj hcall
        obtain ⟨c, hc, hc'⟩ := hstays hpage.symm
        exact hnone c hc hc'
    · rintro hgone j hj a ha rfl
      exact hgone (horder.ok.cell_free hj ha).1.1

end InOrder

end World

lemma inOrder_of_reach {w : World} (h : system.Reach World.Allows w) : w.InOrder := by
  refine h.invariant (fun w => World.InOrder.init) ?_
  intro w call w' hw hallows hact
  obtain ⟨w'', hact', horder, -⟩ := hw.act hallows
  obtain rfl := Except.ok.inj (hact.symm.trans hact')
  exact horder

/-- **The heap is sound**, whatever is asked for and freed; the next call goes through and returns
an arena's page just when it frees the last live block there. -/
theorem heap_sound {w : World} (h : system.Reach World.Allows w) :
    w.Sound ∧ ∀ call, w.Allows call → ∃ w', w.act call = .ok w' ∧ w.Returns call w' := by
  have horder := inOrder_of_reach h
  refine ⟨horder.sound, fun call hallows => ?_⟩
  obtain ⟨w', hact, -, hreturns⟩ := horder.act hallows
  exact ⟨w', hact, hreturns⟩

/-- Memory before `malloc_init`. -/
def emptyHeap : State := ⟨fun _ => ⟨0, 0, []⟩, 0, fun _ => ⟨0, none, 0⟩, []⟩

/-- …and after it. -/
def boot : World := ⟨(mallocInit emptyHeap).getD emptyHeap, []⟩

/-- A small block and a big one. -/
theorem heap_sound_two : ∃ w, system.Reach World.Allows w ∧ w.live = [⟨8204, 3000⟩, ⟨4108, 100⟩] ∧
    w.Sound ∧ ∃ w', w.act (.free ⟨4108, 100⟩) = .ok w' ∧ w.Returns (.free ⟨4108, 100⟩) w' := by
  have hinit : system.init boot := ⟨⟨emptyHeap, rfl, rfl, rfl⟩, rfl⟩
  have hact : ∀ (w : World) call w', (w.act call).toOption = some w' → system.step w call w' := by
    intro w call w' h
    cases hres : w.act call with
    | error e =>
      rw [hres] at h
      cases h
    | ok w'' =>
      rw [hres] at h
      obtain rfl := Option.some.inj h
      exact hres
  obtain ⟨w, -, hreach, hlive⟩ := System.exists_of_run (G := World.Allows)
    (l := [.malloc 4096 100, .malloc 8192 3000])
    (P := fun w => w.live = [⟨8204, 3000⟩, ⟨4108, 100⟩]) hact hinit (by decide +kernel)
  obtain ⟨hsound, hnext⟩ := heap_sound hreach
  refine ⟨w, hreach, hlive, hsound, hnext _ ?_⟩
  show (⟨4108, 100⟩ : Block) ∈ w.live
  rw [hlive]
  decide

end Malloc

end Pintos
