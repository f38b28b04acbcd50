import Pintos.Threads.Malloc

/-!
# Threads/Arenas — what the heap keeps

The header of each run of pages that is out says what it is:

    desc = some k    one page, cut into blocks of descriptor k
    desc = none      free_cnt pages, all of them one block

For each descriptor the blocks of its arenas form a slab. `Ok` holds of a heap and its live
blocks whenever no call is under way, and each way of changing the two is shown to keep it.
-/

namespace Pintos

open Machinery Function List Nat

namespace Malloc

/-! ## The blocks of an arena -/

/-- A descriptor whose blocks fit in a page, behind the header. -/
structure Desc.Fits (d : Desc) : Prop where
  blockSize_pos : 0 < d.blockSize
  blocks_pos : 0 < d.blocksPerArena
  le_page : arenaSize + d.blocksPerArena * d.blockSize ≤ pgSize

/-- The blocks of the arena on a page. -/
def Desc.blocks (d : Desc) (page : ℕ) : List ℕ :=
  (List.range d.blocksPerArena).map fun i => page + arenaSize + i * d.blockSize

section

variable {d : Desc} {page a i : ℕ}

lemma Desc.mem_blocks :
    a ∈ d.blocks page ↔ ∃ i < d.blocksPerArena, page + arenaSize + i * d.blockSize = a := by
  simp only [Desc.blocks, mem_map, mem_range]

lemma Desc.length_blocks (page : ℕ) : (d.blocks page).length = d.blocksPerArena := by
  rw [Desc.blocks, length_map, length_range]

lemma Desc.Fits.block_le (h : d.Fits) (hi : i < d.blocksPerArena) :
    arenaSize + i * d.blockSize + d.blockSize ≤ pgSize := by
  have hle := mul_le_mul_right d.blockSize hi
  have hpage := h.le_page
  rw [succ_mul] at hle
  omega

lemma Desc.Fits.block_lt (h : d.Fits) (hi : i < d.blocksPerArena) :
    arenaSize + i * d.blockSize < pgSize := by
  have hle := h.block_le hi
  have hpos := h.blockSize_pos
  omega

/-- Rounding down leads from a block to its arena, and no block is met twice. -/
lemma Desc.Fits.listed (h : d.Fits) (hpage : pgOfs page = 0) :
    (d.blocks page).Nodup ∧ ∀ a ∈ d.blocks page, pgRoundDown a = page := by
  constructor
  · refine List.Nodup.map ?_ nodup_range
    intro i j hij
    exact eq_of_mul_eq_mul_right h.blockSize_pos (add_left_cancel hij)
  · intro a ha
    obtain ⟨i, hi, rfl⟩ := Desc.mem_blocks.mp ha
    rw [add_assoc]
    exact pgRoundDown_add hpage (h.block_lt hi)

end

/-! ## The runs that are out -/

/-- A run in memory. -/
structure Run.Fits (r : Run) : Prop where
  page_ne : r.page ≠ null
  aligned : pgOfs r.page = 0
  cnt_pos : 0 < r.cnt
  stop_le : r.stop ≤ 2 ^ 32

/-- Two runs do not meet. -/
def Run.Apart (r r' : Run) : Prop := Palloc.Apart r.page r.stop r'.page r'.stop

instance : Std.Symm Run.Apart := ⟨fun _ _ => Or.symm⟩

lemma Run.Fits.page_lt {r : Run} (h : r.Fits) : r.page + pgSize ≤ r.stop :=
  Nat.add_le_add_left (Nat.le_mul_of_pos_right pgSize h.cnt_pos) r.page

lemma Run.Apart.page_ne {r r' : Run} (h : r.Apart r') (hr : r.Fits) (hr' : r'.Fits) :
    r.page ≠ r'.page := by
  have hlt := hr.page_lt
  have hlt' := hr'.page_lt
  have hpg : pgSize = 4096 := rfl
  rw [Run.Apart, Palloc.Apart] at h
  omega

/-- A header for the run, when there are so many descriptors. -/
structure Arena.Heads (x : Arena) (r : Run) (descCnt : ℕ) : Prop where
  magic : x.magic = arenaMagic
  small : ∀ k, x.desc = some k → k < descCnt ∧ r.cnt = 1
  big : x.desc = none → x.freeCnt = r.cnt

/-- The runs that are out are arenas. -/
structure Paged (s : State) : Prop where
  descs : ∀ k < s.descCnt, (s.descs k).Fits
  fits : ∀ r ∈ s.held, r.Fits
  apart : s.held.Pairwise Run.Apart
  heads : ∀ r ∈ s.held, (s.arena r.page).Heads r s.descCnt

/-- The page is an arena of the descriptor. -/
def State.Small (s : State) (k page : ℕ) : Prop := ⟨page, 1⟩ ∈ s.held ∧ (s.arena page).desc = some k

variable {s s' : State} {live : List Block} {k j page a n : ℕ} {r : Run} {b : Block} {x : Arena}

lemma State.Small.unique (h : s.Small k page) (h' : s.Small j page) : k = j :=
  Option.some.inj (h.2.symm.trans h'.2)

variable {r' : Run}

namespace Paged

variable (h : Paged s)

include h

lemma apart_of_ne (hr : r ∈ s.held) (hr' : r' ∈ s.held) (hne : r ≠ r') : r.Apart r' :=
  h.apart.forall hr hr' hne

lemma eq_of_page (hr : r ∈ s.held) (hr' : r' ∈ s.held) (hpage : r.page = r'.page) : r = r' := by
  by_contra hne
  exact (h.apart_of_ne hr hr' hne).page_ne (h.fits r hr) (h.fits r' hr') hpage

lemma lt_descCnt (hsmall : s.Small k page) : k < s.descCnt :=
  ((h.heads _ hsmall.1).small k hsmall.2).1

lemma listed (hk : k < s.descCnt) (hsmall : s.Small k page) :
    ((s.descs k).blocks page).Nodup ∧ ∀ a ∈ (s.descs k).blocks page, pgRoundDown a = page :=
  (h.descs k hk).listed (h.fits _ hsmall.1).aligned

end Paged

/-! ## The heap -/

/-- An address is that of a live block of the descriptor. -/
def Used (s : State) (live : List Block) (k a : ℕ) : Prop :=
  a ∈ live.map Block.addr ∧ s.Small k (pgRoundDown a)

/-- The blocks of a descriptor: free or live, and counted. -/
structure Shelf (s : State) (live : List Block) (k : ℕ) : Prop where
  slab : Slab pgRoundDown (s.descs k).blocks (s.Small k) (s.descs k).freeList (Used s live k)
  count : ∀ page, s.Small k page →
    (s.arena page).freeCnt = Slab.count pgRoundDown (s.descs k).freeList page

/-- A live block is in an arena of blocks large enough, or has pages of its own. -/
inductive Lies (s : State) (b : Block) : Prop
  | small (k : ℕ) : k < s.descCnt → s.Small k (pgRoundDown b.addr) → b.size ≤ (s.descs k).blockSize →
      Lies s b
  | big (cnt : ℕ) : ⟨pgRoundDown b.addr, cnt⟩ ∈ s.held → (s.arena (pgRoundDown b.addr)).desc = none →
      pgOfs b.addr = arenaSize → arenaSize + b.size ≤ pgSize * cnt → Lies s b

/-- The heap is in order, with these blocks live. -/
structure Ok (s : State) (live : List Block) : Prop extends Paged s where
  shelf : ∀ k < s.descCnt, Shelf s live k
  nodup : (live.map Block.addr).Nodup
  lies : ∀ b ∈ live, Lies s b

lemma Shelf.congr {live' : List Block} (h : Shelf s live k) (hdesc : s'.descs k = s.descs k)
    (hsmall : ∀ page, s'.Small k page ↔ s.Small k page)
    (hcnt : ∀ page, s.Small k page → (s'.arena page).freeCnt = (s.arena page).freeCnt)
    (hused : ∀ a, s.Small k (pgRoundDown a) → (a ∈ live'.map Block.addr ↔ a ∈ live.map Block.addr)) :
    Shelf s' live' k where
  slab := by
    rw [hdesc]
    refine h.slab.congr hsmall fun a => ?_
    rw [Used, hsmall]
    exact and_congr_left (hused a)
  count page hpage := by
    have hold := (hsmall page).mp hpage
    rw [hdesc, hcnt page hold]
    exact h.count page hold

/-! ## A block is taken or put back -/

/-- A free list and a count change, for the same descriptor. -/
def State.adjust (s : State) (k : ℕ) (l : List ℕ) (page n : ℕ) : State :=
  (s.setFreeList k l).setArena page { s.arena page with freeCnt := n }

variable {live' : List Block}

section

variable {l : List ℕ} {q : ℕ}

@[simp] lemma adjust_held : (s.adjust k l page n).held = s.held := rfl

@[simp] lemma adjust_magic : ((s.adjust k l page n).arena q).magic = (s.arena q).magic := by
  simp only [State.adjust, State.setArena, State.setFreeList, update_apply]
  split_ifs with h
  · rw [h]
  · rfl

@[simp] lemma adjust_desc : ((s.adjust k l page n).arena q).desc = (s.arena q).desc := by
  simp only [State.adjust, State.setArena, State.setFreeList, update_apply]
  split_ifs with h
  · rw [h]
  · rfl

@[simp] lemma adjust_freeCnt : ((s.adjust k l page n).arena page).freeCnt = n := by
  simp only [State.adjust, State.setArena, update_self]

lemma adjust_arena_of_ne (h : q ≠ page) : (s.adjust k l page n).arena q = s.arena q := by
  simp only [State.adjust, State.setArena, State.setFreeList, update_of_ne h]

@[simp] lemma adjust_freeList : ((s.adjust k l page n).descs k).freeList = l := by
  simp only [State.adjust, State.setArena, State.setFreeList, update_self]

lemma adjust_descs_of_ne (h : j ≠ k) : (s.adjust k l page n).descs j = s.descs j := by
  simp only [State.adjust, State.setArena, State.setFreeList, update_of_ne h]

@[simp] lemma adjust_blockSize :
    ((s.adjust k l page n).descs j).blockSize = (s.descs j).blockSize := by
  simp only [State.adjust, State.setArena, State.setFreeList, update_apply]
  split_ifs with h
  · rw [h]
  · rfl

@[simp] lemma adjust_blocksPerArena :
    ((s.adjust k l page n).descs j).blocksPerArena = (s.descs j).blocksPerArena := by
  simp only [State.adjust, State.setArena, State.setFreeList, update_apply]
  split_ifs with h
  · rw [h]
  · rfl

lemma adjust_blocks : ((s.adjust k l page n).descs j).blocks = (s.descs j).blocks := by
  funext p
  rw [Desc.blocks, Desc.blocks, adjust_blockSize, adjust_blocksPerArena]

lemma small_adjust : (s.adjust k l page n).Small j q ↔ s.Small j q := by
  rw [State.Small, State.Small, adjust_held, adjust_desc]

lemma Desc.Fits.congr {d d' : Desc} (h : d.Fits) (hsize : d'.blockSize = d.blockSize)
    (hblocks : d'.blocksPerArena = d.blocksPerArena) : d'.Fits := by
  refine ⟨?_, ?_, ?_⟩
  · rw [hsize]
    exact h.blockSize_pos
  · rw [hblocks]
    exact h.blocks_pos
  · rw [hsize, hblocks]
    exact h.le_page

lemma Paged.adjust (h : Paged s) (hsmall : s.Small k page) : Paged (s.adjust k l page n) where
  descs j hj := (h.descs j hj).congr adjust_blockSize adjust_blocksPerArena
  fits := h.fits
  apart := h.apart
  heads r hr := by
    obtain ⟨hmagic, hdesc, hbig⟩ := h.heads r hr
    refine ⟨adjust_magic.trans hmagic, fun j hj => hdesc j (adjust_desc.symm.trans hj), fun hnone => ?_⟩
    rw [adjust_desc] at hnone
    rw [adjust_arena_of_ne]
    · exact hbig hnone
    · rintro rfl
      cases hsmall.2.symm.trans hnone

/-- A live block stays one if its header does. -/
lemma Lies.of_kept (h : Lies s b) (hcnt : s'.descCnt = s.descCnt)
    (hsize : ∀ k, (s'.descs k).blockSize = (s.descs k).blockSize)
    (hkept : ∀ r ∈ s.held, r.page = pgRoundDown b.addr →
      r ∈ s'.held ∧ (s'.arena r.page).desc = (s.arena r.page).desc) : Lies s' b := by
  cases h with
  | small k hk hsmall hle =>
    obtain ⟨hheld, hdesc⟩ := hkept _ hsmall.1 rfl
    exact .small k (hcnt ▸ hk) ⟨hheld, hdesc.trans hsmall.2⟩ (hsize k ▸ hle)
  | big cnt hheld hdesc hofs hle =>
    obtain ⟨hheld', hdesc'⟩ := hkept _ hheld rfl
    exact .big cnt hheld' (hdesc'.trans hdesc) hofs hle

lemma Lies.adjust (h : Lies s b) : Lies (s.adjust k l page n) b :=
  h.of_kept rfl (fun _ => adjust_blockSize) fun _ hr _ => ⟨hr, adjust_desc⟩

lemma Shelf.adjust (h : Shelf s live j) (hne : j ≠ k) (hsmall : s.Small k page)
    (hlive : ∀ a, pgRoundDown a ≠ page → (a ∈ live'.map Block.addr ↔ a ∈ live.map Block.addr)) :
    Shelf (s.adjust k l page n) live' j := by
  have hpage : ∀ q, s.Small j q → q ≠ page := by
    rintro q hq rfl
    exact hne (hq.unique hsmall)
  refine h.congr (adjust_descs_of_ne hne) (fun q => small_adjust) ?_ ?_
  · intro q hq
    rw [adjust_arena_of_ne (hpage q hq)]
  · intro a ha
    exact hlive a (hpage _ ha)

end

lemma Ok.take (h : Ok s live) (hk : k < s.descCnt) {rest : List ℕ}
    (hfree : (s.descs k).freeList = a :: rest) (hsize : n ≤ (s.descs k).blockSize) :
    0 < (s.arena (pgRoundDown a)).freeCnt ∧
      Ok (s.adjust k rest (pgRoundDown a) ((s.arena (pgRoundDown a)).freeCnt - 1))
        (⟨a, n⟩ :: live) := by
  have hslab := (h.shelf k hk).slab
  have hcount := (h.shelf k hk).count
  rw [hfree] at hslab hcount
  have hsmall : s.Small k (pgRoundDown a) := (hslab.free_mem a mem_cons_self).1
  have hfresh : a ∉ live.map Block.addr := fun ha =>
    hslab.apart a mem_cons_self ⟨ha, hsmall⟩
  have hcnt : (s.arena (pgRoundDown a)).freeCnt =
      Slab.count pgRoundDown rest (pgRoundDown a) + 1 := by
    rw [hcount _ hsmall, Slab.count_cons, if_pos rfl]
  refine ⟨by omega, { h.toPaged.adjust hsmall with shelf := ?_, nodup := ?_, lies := ?_ }⟩
  · intro j hj
    obtain rfl | hne := eq_or_ne j k
    · refine ⟨?_, fun q hq => ?_⟩
      · rw [adjust_blocks, adjust_freeList]
        refine hslab.take.congr (fun q => small_adjust) fun c => ?_
        rw [Used, map_cons, mem_cons, small_adjust]
        constructor
        · rintro ⟨rfl | hc, hpage⟩
          · exact .inl rfl
          · exact .inr ⟨hc, hpage⟩
        · rintro (rfl | ⟨hc, hpage⟩)
          · exact ⟨.inl rfl, hsmall⟩
          · exact ⟨.inr hc, hpage⟩
      · rw [adjust_freeList]
        obtain rfl | hq' := eq_or_ne q (pgRoundDown a)
        · rw [adjust_freeCnt, hcnt, Nat.add_sub_cancel]
        · rw [adjust_arena_of_ne hq', hcount q (small_adjust.mp hq), Slab.count_cons,
            if_neg hq'.symm, Nat.add_zero]
    · refine (h.shelf j hj).adjust hne hsmall fun c hc => ?_
      rw [map_cons, mem_cons, or_iff_right]
      rintro rfl
      exact hc rfl
  · exact nodup_cons.mpr ⟨hfresh, h.nodup⟩
  · intro c hc
    obtain rfl | hc := mem_cons.mp hc
    · refine .small k hk (small_adjust.mpr hsmall) ?_
      rwa [adjust_blockSize]
    · exact (h.lies c hc).adjust

lemma mem_map_erase (hnodup : (live.map Block.addr).Nodup) (hb : b ∈ live) :
    a ∈ (live.erase b).map Block.addr ↔ a ∈ live.map Block.addr ∧ a ≠ b.addr := by
  have hlive : live.Nodup := hnodup.of_map _
  rw [mem_map, mem_map]
  constructor
  · rintro ⟨c, hc, rfl⟩
    obtain ⟨hne, hc⟩ := hlive.mem_erase_iff.mp hc
    exact ⟨⟨c, hc, rfl⟩, fun heq => hne (inj_on_of_nodup_map hnodup hc hb heq)⟩
  · rintro ⟨⟨c, hc, rfl⟩, hne⟩
    exact ⟨c, hlive.mem_erase_iff.mpr ⟨fun heq => hne (congrArg Block.addr heq), hc⟩, rfl⟩

lemma Ok.put (h : Ok s live) (hb : b ∈ live) (hsmall : s.Small k (pgRoundDown b.addr)) :
    Ok (s.adjust k (b.addr :: (s.descs k).freeList) (pgRoundDown b.addr)
      ((s.arena (pgRoundDown b.addr)).freeCnt + 1)) (live.erase b) := by
  have hk := h.lt_descCnt hsmall
  have hslab := (h.shelf k hk).slab
  have hcount := (h.shelf k hk).count
  have hused : Used s live k b.addr := ⟨mem_map_of_mem hb, hsmall⟩
  refine { h.toPaged.adjust hsmall with shelf := ?_, nodup := ?_, lies := ?_ }
  · intro j hj
    obtain rfl | hne := eq_or_ne j k
    · refine ⟨?_, fun q hq => ?_⟩
      · rw [adjust_blocks, adjust_freeList]
        refine (hslab.put hused).congr (fun q => small_adjust) fun c => ?_
        rw [Used, mem_map_erase h.nodup hb, small_adjust]
        exact and_right_comm
      · have hq' := hcount q (small_adjust.mp hq)
        rw [adjust_freeList, Slab.count_cons, ← hq']
        obtain rfl | hne := eq_or_ne q (pgRoundDown b.addr)
        · rw [adjust_freeCnt, if_pos rfl]
        · rw [adjust_arena_of_ne hne, if_neg hne.symm, add_zero]
    · refine (h.shelf j hj).adjust hne hsmall fun c hc => ?_
      rw [mem_map_erase h.nodup hb, and_iff_left]
      rintro rfl
      exact hc rfl
  · exact h.nodup.sublist (erase_sublist.map _)
  · exact fun c hc => (h.lies c (mem_of_mem_erase hc)).adjust

lemma adjust_self (page : ℕ) {l : List ℕ} :
    s.adjust k l page (s.arena page).freeCnt = s.setFreeList k l := by
  rw [State.adjust, State.setArena]
  congr 1
  exact update_eq_self page s.arena

/-! ## Arenas come -/

/-- A run is taken, and its header written. -/
def State.hold (s : State) (r : Run) (x : Arena) : State :=
  { s with held := r :: s.held, arena := update s.arena r.page x }

/-- A run that meets none that is out. -/
structure State.Fresh (s : State) (r : Run) : Prop where
  fits : r.Fits
  apart : ∀ r' ∈ s.held, r.Apart r'

lemma Lies.exists_held (h : Lies s b) : ∃ r ∈ s.held, r.page = pgRoundDown b.addr := by
  cases h with
  | small k _ hsmall _ => exact ⟨_, hsmall.1, rfl⟩
  | big cnt hheld _ _ _ => exact ⟨_, hheld, rfl⟩

namespace Paged

variable (h : Paged s)

include h

lemma page_ne (hr : s.Fresh r) (hr' : r' ∈ s.held) : r'.page ≠ r.page :=
  ((hr.apart r' hr').page_ne hr.fits (h.fits r' hr')).symm

lemma hold_arena (hr : s.Fresh r) (hr' : r' ∈ s.held) :
    (s.hold r x).arena r'.page = s.arena r'.page :=
  update_of_ne (h.page_ne hr hr') ..

lemma small_hold (hr : s.Fresh r) :
    (s.hold r x).Small j page ↔ (r = ⟨page, 1⟩ ∧ x.desc = some j) ∨ s.Small j page := by
  have hself : (s.hold r x).arena r.page = x := update_self ..
  constructor
  · rintro ⟨hheld, hdesc⟩
    obtain heq | hheld := mem_cons.mp hheld
    · subst heq
      exact .inl ⟨rfl, hself ▸ hdesc⟩
    · exact .inr ⟨hheld, h.hold_arena hr hheld ▸ hdesc⟩
  · rintro (⟨rfl, hdesc⟩ | hsmall)
    · exact ⟨mem_cons_self, hself.symm ▸ hdesc⟩
    · refine ⟨mem_cons_of_mem r hsmall.1, ?_⟩
      have hkeep : (s.hold r x).arena page = s.arena page := h.hold_arena hr hsmall.1
      rw [hkeep]
      exact hsmall.2

lemma hold (hr : s.Fresh r) (hx : x.Heads r s.descCnt) : Paged (s.hold r x) where
  descs := h.descs
  fits r' hr' := by
    obtain rfl | hr' := mem_cons.mp hr'
    · exact hr.fits
    · exact h.fits r' hr'
  apart := pairwise_cons.mpr ⟨hr.apart, h.apart⟩
  heads r' hr' := by
    obtain rfl | hr' := mem_cons.mp hr'
    · have hself : (s.hold r' x).arena r'.page = x := update_self ..
      rwa [hself]
    · rw [h.hold_arena hr hr']
      exact h.heads r' hr'

end Paged

lemma Lies.hold (h : Lies s b) (hp : Paged s) (hr : s.Fresh r) : Lies (s.hold r x) b :=
  h.of_kept rfl (fun _ => rfl) fun _ hr' _ =>
    ⟨mem_cons_of_mem r hr', congrArg Arena.desc (hp.hold_arena hr hr')⟩

lemma Shelf.hold (h : Shelf s live j) (hp : Paged s) (hr : s.Fresh r) (hx : x.desc ≠ some j)
    (hlive : ∀ a, pgRoundDown a ≠ r.page → (a ∈ live'.map Block.addr ↔ a ∈ live.map Block.addr)) :
    Shelf (s.hold r x) live' j := by
  refine h.congr rfl (fun q => ?_) (fun q hq => ?_) fun a ha => ?_
  · rw [hp.small_hold hr]
    exact or_iff_right fun hnew => hx hnew.2
  · exact congrArg Arena.freeCnt (hp.hold_arena hr hq.1)
  · exact hlive a (hp.page_ne hr ha.1)

/-- A big block comes, on pages of its own. -/
lemma Ok.addBig (h : Ok s live) (hr : s.Fresh r) (hsize : arenaSize + n ≤ pgSize * r.cnt) :
    Ok (s.hold r ⟨arenaMagic, none, r.cnt⟩) (⟨r.page + arenaSize, n⟩ :: live) := by
  have hpage : pgRoundDown (r.page + arenaSize) = r.page := pgRoundDown_add hr.fits.aligned (by decide)
  have hofs : pgOfs (r.page + arenaSize) = arenaSize := pgOfs_add hr.fits.aligned (by decide)
  have hheads : Arena.Heads ⟨arenaMagic, none, r.cnt⟩ r s.descCnt := ⟨rfl, nofun, fun _ => rfl⟩
  have hself : (s.hold r ⟨arenaMagic, none, r.cnt⟩).arena r.page = ⟨arenaMagic, none, r.cnt⟩ :=
    update_self ..
  refine { h.toPaged.hold hr hheads with shelf := ?_, nodup := ?_, lies := ?_ }
  · intro j hj
    refine (h.shelf j hj).hold h.toPaged hr nofun fun a ha => ?_
    rw [map_cons, mem_cons, or_iff_right]
    rintro rfl
    exact ha hpage
  · refine nodup_cons.mpr ⟨fun hmem => ?_, h.nodup⟩
    obtain ⟨c, hc, heq⟩ := mem_map.mp hmem
    obtain ⟨r', hr', hc'⟩ := (h.lies c hc).exists_held
    rw [heq, hpage] at hc'
    exact h.page_ne hr hr' hc'
  · intro c hc
    obtain rfl | hc := mem_cons.mp hc
    · refine .big r.cnt ?_ ?_ hofs hsize
      · rw [hpage]
        exact mem_cons_self
      · rw [hpage]
        exact congrArg Arena.desc hself
    · exact (h.lies c hc).hold h.toPaged hr

lemma Paged.newArena (h : Paged s) (hk : k < s.descCnt) (hr : s.Fresh ⟨page, 1⟩) :
    Paged (s.hold ⟨page, 1⟩ ⟨arenaMagic, some k, n⟩) ∧
      (s.hold ⟨page, 1⟩ ⟨arenaMagic, some k, n⟩).Small k page := by
  have hheads : Arena.Heads ⟨arenaMagic, some k, n⟩ ⟨page, 1⟩ s.descCnt := by
    refine ⟨rfl, ?_, nofun⟩
    rintro j ⟨⟩
    exact ⟨hk, rfl⟩
  exact ⟨h.hold hr hheads, (h.small_hold hr).mpr (.inl ⟨rfl, rfl⟩)⟩

lemma Ok.addArena (h : Ok s live) (hk : k < s.descCnt) (hr : s.Fresh ⟨page, 1⟩) :
    Ok ((s.hold ⟨page, 1⟩ ⟨arenaMagic, some k, (s.descs k).blocksPerArena⟩).setFreeList k
      ((s.descs k).freeList ++ (s.descs k).blocks page)) live := by
  have hlisted := (h.descs k hk).listed hr.fits.aligned
  obtain ⟨hold, hnew⟩ := h.toPaged.newArena hk hr
  generalize hx : Arena.mk arenaMagic (some k) (s.descs k).blocksPerArena = x at *
  have hdesc : x.desc = some k := hx ▸ rfl
  have hself : (s.hold ⟨page, 1⟩ x).arena page = x := update_self ..
  have hnot : ¬ s.Small k page := fun hsmall => h.page_ne hr hsmall.1 rfl
  rw [← adjust_self page]
  refine { hold.adjust hnew with shelf := ?_, nodup := h.nodup, lies := ?_ }
  · intro j hj
    obtain rfl | hne := eq_or_ne j k
    · obtain ⟨hslab, hcount⟩ := h.shelf j hj
      refine ⟨?_, fun q hq => ?_⟩
      · rw [adjust_blocks, adjust_freeList]
        refine (hslab.add hnot hlisted).congr (fun q => ?_) fun a => ?_
        · rw [small_adjust, h.small_hold hr, Run.mk.injEq]
          simp only [hdesc, and_true, eq_comm]
        · rw [Used, small_adjust, h.small_hold hr]
          refine and_congr_right fun ha => or_iff_right ?_
          rintro ⟨heq, -⟩
          obtain ⟨c, hc, rfl⟩ := mem_map.mp ha
          obtain ⟨r', hr', hc'⟩ := (h.lies c hc).exists_held
          exact h.page_ne hr hr' (hc'.trans (congrArg Run.page heq).symm)
      · rw [adjust_freeList, Slab.count_append]
        obtain rfl | hne := eq_or_ne q page
        · rw [adjust_freeCnt, hself, hslab.count_eq_zero hnot, Slab.count_members hlisted.2,
            Desc.length_blocks, zero_add, ← hx]
        · have hq : s.Small j q := by
            obtain ⟨heq, -⟩ | hq := (h.small_hold hr).mp (small_adjust.mp hq)
            · exact absurd (congrArg Run.page heq).symm hne
            · exact hq
          have hkeep : (s.hold ⟨page, 1⟩ x).arena q = s.arena q := h.hold_arena hr hq.1
          have hnone : Slab.count pgRoundDown ((s.descs j).blocks page) q = 0 := by
            rw [Slab.count, countP_eq_zero]
            intro a ha haq
            exact hne ((of_decide_eq_true haq).symm.trans (hlisted.2 a ha))
          rw [adjust_arena_of_ne hne, hkeep, hcount q hq, hnone, add_zero]
    · have hother : x.desc ≠ some j := by
        rw [hdesc]
        exact fun heq => hne (Option.some.inj heq).symm
      have hshelf : Shelf (s.hold ⟨page, 1⟩ x) live j :=
        (h.shelf j hj).hold h.toPaged hr hother fun _ _ => Iff.rfl
      exact hshelf.adjust hne hnew fun _ _ => Iff.rfl
  · exact fun c hc => ((h.lies c hc).hold h.toPaged hr).adjust

/-! ## Arenas go -/

lemma fill_arena {start stop : ℕ} (h : Palloc.Apart start stop page (page + arenaSize)) :
    (s.fill start stop).arena page = s.arena page := by
  rw [Palloc.Apart] at h
  exact if_neg (by omega)

/-- A run is returned, and overwritten. -/
def State.release (s : State) (r : Run) : State :=
  { s.fill r.page r.stop with held := s.held.erase r }

namespace Paged

variable (h : Paged s)

include h

lemma nodup_held : s.held.Nodup := by
  refine h.apart.imp_of_mem fun hr hr' hapart => ?_
  rintro rfl
  exact hapart.page_ne (h.fits _ hr) (h.fits _ hr) rfl

lemma mem_release : r' ∈ (s.release r).held ↔ r' ≠ r ∧ r' ∈ s.held := h.nodup_held.mem_erase_iff

variable (hr : r ∈ s.held)

include hr

lemma release_arena (hr' : r' ∈ (s.release r).held) :
    (s.release r).arena r'.page = s.arena r'.page := by
  obtain ⟨hne, hr'⟩ := h.mem_release.mp hr'
  have hapart := h.apart_of_ne hr' hr hne
  have hlt := (h.fits r' hr').page_lt
  have hpg : pgSize = 4096 := rfl
  have hsize : arenaSize = 12 := rfl
  refine fill_arena ?_
  rw [Run.Apart, Palloc.Apart] at hapart
  rw [Palloc.Apart]
  omega

lemma small_release : (s.release r).Small j page ↔ s.Small j page ∧ page ≠ r.page := by
  constructor
  · rintro ⟨hheld, hdesc⟩
    have hkeep := h.release_arena hr hheld
    obtain ⟨hne, hheld⟩ := h.mem_release.mp hheld
    refine ⟨⟨hheld, hkeep ▸ hdesc⟩, fun heq => hne (h.eq_of_page hheld hr heq)⟩
  · rintro ⟨⟨hheld, hdesc⟩, hne⟩
    have hheld' : ⟨page, 1⟩ ∈ (s.release r).held :=
      h.mem_release.mpr ⟨fun heq => hne (congrArg Run.page heq), hheld⟩
    have hkeep := h.release_arena hr hheld'
    exact ⟨hheld', hkeep.symm ▸ hdesc⟩

lemma release : Paged (s.release r) where
  descs := h.descs
  fits r' hr' := h.fits r' (h.mem_release.mp hr').2
  apart := h.apart.sublist erase_sublist
  heads r' hr' := by
    rw [h.release_arena hr hr']
    exact h.heads r' (h.mem_release.mp hr').2

end Paged

lemma Lies.release (h : Lies s b) (hp : Paged s) (hr : r ∈ s.held)
    (hne : pgRoundDown b.addr ≠ r.page) : Lies (s.release r) b := by
  refine h.of_kept rfl (fun _ => rfl) fun r' hr' hpage => ?_
  have hkept := hp.mem_release.mpr ⟨fun heq => hne (hpage.symm.trans (congrArg Run.page heq)), hr'⟩
  exact ⟨hkept, congrArg Arena.desc (hp.release_arena hr hkept)⟩

lemma Shelf.release (h : Shelf s live j) (hp : Paged s) (hr : r ∈ s.held)
    (hnot : ¬ s.Small j r.page)
    (hlive : ∀ a, pgRoundDown a ≠ r.page → (a ∈ live'.map Block.addr ↔ a ∈ live.map Block.addr)) :
    Shelf (s.release r) live' j := by
  have hne : ∀ q, s.Small j q → q ≠ r.page := by
    rintro q hq rfl
    exact hnot hq
  have hsmall : ∀ q, (s.release r).Small j q ↔ s.Small j q := fun q => by
    rw [hp.small_release hr]
    exact and_iff_left_of_imp (hne q)
  refine h.congr rfl hsmall (fun q hq => ?_) fun a ha => hlive a (hne _ ha)
  exact congrArg Arena.freeCnt (hp.release_arena hr ((hsmall q).mpr hq).1)

lemma Ok.page_ne_of_big (h : Ok s live) (hb : b ∈ live)
    (hdesc : (s.arena (pgRoundDown b.addr)).desc = none) (hofs : pgOfs b.addr = arenaSize) {c : Block}
    (hc : c ∈ live.erase b) : pgRoundDown c.addr ≠ pgRoundDown b.addr := by
  intro hpage
  obtain ⟨hne, hc⟩ := (h.nodup.of_map _).mem_erase_iff.mp hc
  refine hne (inj_on_of_nodup_map h.nodup hc hb ?_)
  cases h.lies c hc with
  | small k _ hsmall _ =>
    rw [hpage] at hsmall
    cases hsmall.2.symm.trans hdesc
  | big cnt _ _ hofs' _ =>
    rw [← pgRoundDown_add_pgOfs c.addr, ← pgRoundDown_add_pgOfs b.addr, hpage, hofs', hofs]

lemma Ok.dropBig (h : Ok s live) (hb : b ∈ live) (hr : r ∈ s.held)
    (hpage : r.page = pgRoundDown b.addr) (hdesc : (s.arena (pgRoundDown b.addr)).desc = none)
    (hofs : pgOfs b.addr = arenaSize) : Ok (s.release r) (live.erase b) := by
  refine { h.toPaged.release hr with shelf := ?_, nodup := ?_, lies := ?_ }
  · intro j hj
    refine (h.shelf j hj).release h.toPaged hr ?_ fun a ha => ?_
    · rintro ⟨-, hsome⟩
      rw [hpage] at hsome
      cases hsome.symm.trans hdesc
    · rw [mem_map_erase h.nodup hb, and_iff_left]
      rintro rfl
      exact ha hpage.symm
  · exact h.nodup.sublist (erase_sublist.map _)
  · intro c hc
    refine (h.lies c (mem_of_mem_erase hc)).release h.toPaged hr ?_
    rw [hpage]
    exact h.page_ne_of_big hb hdesc hofs hc

/-- An arena goes in which no block is live, and its blocks leave the free list. -/
lemma Ok.dropArena (h : Ok s live) (hsmall : s.Small k page)
    (hnone : ∀ c ∈ live, pgRoundDown c.addr ≠ page) :
    Ok ((s.setFreeList k ((s.descs k).freeList.diff ((s.descs k).blocks page))).release ⟨page, 1⟩)
      live := by
  rw [← adjust_self page]
  generalize hl : (s.descs k).freeList.diff ((s.descs k).blocks page) = l
  generalize (s.arena page).freeCnt = n
  have hpaged : Paged (s.adjust k l page n) := h.toPaged.adjust hsmall
  have hheld := hsmall.1
  refine { hpaged.release hheld with shelf := ?_, nodup := h.nodup, lies := ?_ }
  · intro j hj
    obtain rfl | hne := eq_or_ne j k
    · obtain ⟨hslab, hcount⟩ := h.shelf j hj
      have hunused : ∀ a, Used s live j a → pgRoundDown a ≠ page := by
        rintro a ⟨ha, -⟩
        obtain ⟨c, hc, rfl⟩ := mem_map.mp ha
        exact hnone c hc
      have hsame : ∀ q, ((s.adjust j l page n).release ⟨page, 1⟩).Small j q ↔ s.Small j q ∧ q ≠ page := by
        intro q
        rw [hpaged.small_release hheld, small_adjust]
      have hdescs : ((s.adjust j l page n).release ⟨page, 1⟩).descs = (s.adjust j l page n).descs := rfl
      refine ⟨?_, fun q hq => ?_⟩
      · have hdrop := hslab.drop hsmall hunused
        rw [hl] at hdrop
        rw [hdescs, adjust_blocks, adjust_freeList]
        refine hdrop.congr hsame fun a => ?_
        rw [Used, hsame, ← and_assoc]
        exact and_iff_left_of_imp (hunused a)
      · obtain ⟨hq', hne⟩ := (hsame q).mp hq
        have hkeep := hpaged.release_arena hheld hq.1
        rw [hkeep, hdescs, adjust_arena_of_ne hne, adjust_freeList, ← hl, hcount q hq',
          hslab.count_diff hsmall hne]
    · have hshelf : Shelf (s.adjust k l page n) live j :=
        (h.shelf j hj).adjust hne hsmall fun _ _ => Iff.rfl
      have hother : ¬ (s.adjust k l page n).Small j page :=
        fun hj => hne ((small_adjust.mp hj).unique hsmall)
      exact hshelf.release hpaged hheld hother fun _ _ => Iff.rfl
  · exact fun c hc => (h.lies c hc).adjust.release hpaged hheld (hnone c hc)

section

variable {start stop : ℕ}
  (hapart : ∀ r ∈ s.held, Palloc.Apart start stop r.page (r.page + arenaSize))

include hapart

lemma small_fill : (s.fill start stop).Small k page ↔ s.Small k page := by
  refine and_congr_right fun hheld => ?_
  have heq : (s.fill start stop).arena page = s.arena page := fill_arena (hapart _ hheld)
  rw [heq]

/-- What is written between the headers is not noticed. -/
lemma Ok.fill (h : Ok s live) : Ok (s.fill start stop) live := by
  have hkeep : ∀ r ∈ s.held, (s.fill start stop).arena r.page = s.arena r.page :=
    fun r hr => fill_arena (hapart r hr)
  refine ⟨⟨h.descs, h.fits, h.apart, fun r hr => ?_⟩, fun k hk => ?_, h.nodup, fun c hc => ?_⟩
  · rw [hkeep r hr]
    exact h.heads r hr
  · exact (h.shelf k hk).congr rfl (fun q => small_fill hapart)
      (fun q hq => congrArg Arena.freeCnt (hkeep _ hq.1)) fun _ _ => Iff.rfl
  · exact (h.lies c hc).of_kept rfl (fun _ => rfl) fun r hr _ =>
      ⟨hr, congrArg Arena.desc (hkeep r hr)⟩

end

end Malloc

end Pintos
