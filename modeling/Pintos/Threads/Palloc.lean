import Pintos.Lib.Bitmap
import Pintos.Machinery.Runs
import Pintos.Machinery.Stopping
import Pintos.Threads.Vaddr
import Mathlib.Data.List.Pairwise
import Mathlib.Data.List.Perm.Basic

/-!
# Threads/Palloc — the page allocator

Memory above the first megabyte is two pools, one for the kernel and one for user pages. Each keeps
a bitmap of its pages, in pages of its own:

     │ bitmap │ pages of the kernel pool … │ bitmap │ pages of the user pool …          │

Runs of pages that are handed out are marked in the bitmap of their pool, and no page is marked
for two. Addresses are natural numbers; what the code computes in 32 bits wraps.
-/

namespace Pintos

open Machinery EStateM Bitmap

/-! ## Bitmaps in a buffer -/

/-- `bitmap_buf_size`; a `struct bitmap` is two words. -/
def Bitmap.bufSize (bitCnt : ℕ) : ℕ := (8 + byteCnt bitCnt) % 2 ^ 32

/-- `bitmap_create_in_buf`, over what is in the buffer. -/
def Bitmap.createInBuf (bitCnt blockSize : ℕ) (junk : ℕ → BitVec 32) : Option Bitmap :=
  if bufSize bitCnt ≤ blockSize then (Bitmap.mk bitCnt junk).setMultiple 0 bitCnt false else none

/-- `DIV_ROUND_UP`. -/
def divRoundUp (x step : ℕ) : ℕ := (x + step - 1) % 2 ^ 32 / step

namespace Palloc

/-- `struct pool`, its lock left out. -/
structure Pool where
  usedMap : Bitmap
  base : ℕ

/-- `kernel_pool` and `user_pool`. -/
structure Pools where
  kernelPool : Pool
  userPool : Pool

/-- How a call does not return. -/
inductive Halt where
  /-- a failing `ASSERT` -/
  | assertion
  /-- `NOT_REACHED` -/
  | notReached
  /-- `PANIC`, for want of pages -/
  | outOfPages
  deriving DecidableEq, Repr

abbrev PallocM := EStateM Halt Pools

/-! ## Setting up -/

/-- `init_ram_pages`, from what the BIOS says of the memory above 1 MB, in kB: there are 64 MB at
most. -/
def initRamPages (biosKb : ℕ) : ℕ := min (biosKb + 1024) 0x10000 / 4

/-- The pages that a bitmap takes up. -/
def bmPages (pageCnt : ℕ) : ℕ := divRoundUp (Bitmap.bufSize pageCnt) pgSize

/-- `init_pool`; `none` is a panic. -/
def initPool (base pageCnt : ℕ) (junk : ℕ → BitVec 32) : Option Pool :=
  if bmPages pageCnt > pageCnt then none
  else (Bitmap.createInBuf (pageCnt - bmPages pageCnt) (bmPages pageCnt * pgSize % 2 ^ 32) junk).map
    fun map => ⟨map, (base + bmPages pageCnt * pgSize) % 2 ^ 32⟩

/-- `ptov`, its assertion left out. -/
def ptov (paddr : ℕ) : ℕ := (paddr + physBase) % 2 ^ 32

/-- `free_start`. -/
def freeStart : ℕ := ptov (1024 * 1024)

/-- `free_pages`: a difference of pointers is a signed word. -/
def freePages (ramPages : ℕ) : ℕ :=
  ((toInt32 (ptov (ramPages * pgSize % 2 ^ 32) - freeStart)).tdiv pgSize % 2 ^ 32).toNat

/-- `user_pages`. -/
def userPages (ramPages userPageLimit : ℕ) : ℕ :=
  if freePages ramPages / 2 > userPageLimit then userPageLimit else freePages ramPages / 2

/-- `kernel_pages`. -/
def kernelPages (ramPages userPageLimit : ℕ) : ℕ :=
  freePages ramPages - userPages ramPages userPageLimit

/-- Where the user pool begins. -/
def userStart (ramPages userPageLimit : ℕ) : ℕ :=
  (freeStart + kernelPages ramPages userPageLimit * pgSize) % 2 ^ 32

/-- `palloc_init`; `none` is a panic, or the failing assertion of `ptov`. -/
def pallocInit (ramPages userPageLimit : ℕ) (junk : Bool → ℕ → BitVec 32) : Option Pools :=
  if ramPages * pgSize % 2 ^ 32 < physBase then
    (initPool freeStart (kernelPages ramPages userPageLimit) (junk false)).bind fun kernelPool =>
      (initPool (userStart ramPages userPageLimit) (userPages ramPages userPageLimit)
        (junk true)).map fun userPool => ⟨kernelPool, userPool⟩
  else none

/-! ## Getting and freeing pages -/

def Pools.pool (s : Pools) : Bool → Pool
  | false => s.kernelPool
  | true => s.userPool

def Pools.setMap (s : Pools) : Bool → Bitmap → Pools
  | false, map => { s with kernelPool := { s.kernelPool with usedMap := map } }
  | true, map => { s with userPool := { s.userPool with usedMap := map } }

def orFail {α : Type} : Option α → PallocM α
  | some a => pure a
  | none => throw .assertion

/-- `palloc_get_multiple`, with `PAL_USER` and `PAL_ASSERT`; the filling of `PAL_ZERO` is left out.
-/
def pallocGetMultiple (user assert : Bool) (pageCnt : ℕ) : PallocM ℕ :=
  if pageCnt = 0 then return null
  else do
    let s ← get
    let (pageIdx, map) ← orFail ((s.pool user).usedMap.scanAndFlip 0 pageCnt false)
    set (s.setMap user map)
    let pages := match pageIdx with
      | some i => ((s.pool user).base + pgSize * i) % 2 ^ 32
      | none => null
    if pages = null ∧ assert then throw .outOfPages
    else return pages

/-- `page_from_pool`. -/
def pageFromPool (pool : Pool) (page : ℕ) : Bool :=
  pgNo pool.base ≤ pgNo page ∧ pgNo page < (pgNo pool.base + pool.usedMap.bitCnt) % 2 ^ 32

/-- Which pool pages are from, for `palloc_free_multiple`. -/
def poolOf (pages : ℕ) : PallocM Bool := do
  let s ← get
  if pageFromPool s.kernelPool pages then return false
  else if pageFromPool s.userPool pages then return true
  else throw .notReached

/-- `palloc_free_multiple`; the pages are also filled with 0xcc, which is left out. -/
def pallocFreeMultiple (pages pageCnt : ℕ) : PallocM Unit := do
  require .assertion (pgOfs pages = 0)
  if pages = null ∨ pageCnt = 0 then return ()
  else do
    let user ← poolOf pages
    let s ← get
    let pageIdx := (pgNo pages + 2 ^ 32 - pgNo (s.pool user).base) % 2 ^ 32
    let all ← orFail ((s.pool user).usedMap.all pageIdx pageCnt)
    require .assertion (all = true)
    let map ← orFail ((s.pool user).usedMap.setMultiple pageIdx pageCnt false)
    set (s.setMap user map)

/-! ## Runs of pages -/

/-- Pages that were handed out, and from which pool. -/
structure PageRun where
  user : Bool
  pages : ℕ
  cnt : ℕ
  deriving DecidableEq, Repr

def PageRun.stop (r : PageRun) : ℕ := r.pages + pgSize * r.cnt

def Pool.stop (p : Pool) : ℕ := p.base + pgSize * p.usedMap.bitCnt

/-- Two ranges of addresses do not meet. -/
def Apart (start stop start' stop' : ℕ) : Prop := stop ≤ start' ∨ stop' ≤ start

/-- The allocator, and the runs that are not freed. -/
structure World where
  pools : Pools
  runs : List PageRun

/-- Pages are gotten and freed. -/
inductive PageCall where
  | get (user assert : Bool) (pageCnt : ℕ)
  | free (run : PageRun)

def step (w : World) : PageCall → World → Prop
  | .get user assert pageCnt, w' => pageCnt < 2 ^ 32 ∧ ∃ pages,
      (pallocGetMultiple user assert pageCnt).run w.pools = .ok pages w'.pools ∧
        w'.runs = if pages = null then w.runs else ⟨user, pages, pageCnt⟩ :: w.runs
  | .free r, w' => r ∈ w.runs ∧ (pallocFreeMultiple r.pages r.cnt).run w.pools = .ok () w'.pools ∧
      w'.runs = w.runs.erase r

/-- The system of the page allocator, in a machine with `ramPages` pages. -/
def system (ramPages userPageLimit : ℕ) : System World PageCall where
  init w := ∃ junk, pallocInit ramPages userPageLimit junk = some w.pools ∧ w.runs = []
  step := step

/-! ## The pools are laid out -/

/-- A pool in its place: the bitmap between `start` and the pages, and the pages up to
`stop`. -/
structure Pool.Spans (p : Pool) (start stop : ℕ) : Prop where
  aligned : p.base % pgSize = 0
  start_le : start ≤ p.base
  fits : Bitmap.bufSize p.usedMap.bitCnt ≤ p.base - start
  stop_eq : p.stop = stop
  stop_le : stop ≤ 2 ^ 32

section

variable {p : Pool} {start stop base pageCnt : ℕ} {junk : ℕ → BitVec 32}

lemma bufSize_of_lt {bitCnt : ℕ} (h : bitCnt < 2 ^ 20) :
    Bitmap.bufSize bitCnt = 8 + 4 * ((bitCnt + 31) / 32) := by
  rw [bufSize, byteCnt, elemCnt, elemBits]
  omega

lemma bmPages_of_lt (h : pageCnt < 2 ^ 20) :
    bmPages pageCnt = (8 + 4 * ((pageCnt + 31) / 32) + 4095) / 4096 := by
  rw [bmPages, divRoundUp, bufSize_of_lt h, pgSize]
  omega

lemma initPool_spans (haligned : base % pgSize = 0) (hcnt : pageCnt < 2 ^ 20)
    (hstop : base + pgSize * pageCnt < 2 ^ 32) (h : initPool base pageCnt junk = some p) :
    p.Spans base (base + pgSize * pageCnt) := by
  rw [initPool] at h
  split_ifs at h with hfew
  obtain ⟨map, hmap, rfl⟩ := Option.map_eq_some_iff.mp h
  have hbm := bmPages_of_lt hcnt
  have hleft : pageCnt - bmPages pageCnt < 2 ^ 20 := by omega
  have hcreated : map.bitCnt = pageCnt - bmPages pageCnt := by
    rw [createInBuf] at hmap
    split_ifs at hmap
    have hall : 0 + (pageCnt - bmPages pageCnt) ≤ (mk (pageCnt - bmPages pageCnt) junk).bitCnt :=
      Nat.le_of_eq (Nat.zero_add _)
    have hsize : (mk (pageCnt - bmPages pageCnt) junk).bitCnt < 2 ^ 32 :=
      Nat.lt_of_lt_of_le hleft (by decide)
    obtain ⟨map', hmap', hset⟩ := setTo_setMultiple hall hsize false
    cases hmap.symm.trans hmap'
    exact hset.bitCnt
  have hpg : pgSize = 4096 := rfl
  have hbase : (base + bmPages pageCnt * pgSize) % 2 ^ 32 = base + bmPages pageCnt * 4096 := by
    rw [hpg] at hstop ⊢
    exact Nat.mod_eq_of_lt (by omega)
  refine ⟨?_, ?_, ?_, ?_, Nat.le_of_lt hstop⟩
  · show (base + bmPages pageCnt * pgSize) % 2 ^ 32 % pgSize = 0
    rwa [hbase, hpg, Nat.add_mul_mod_self_right]
  · show base ≤ (base + bmPages pageCnt * pgSize) % 2 ^ 32
    rw [hbase]
    exact Nat.le_add_right ..
  · show bufSize map.bitCnt ≤ (base + bmPages pageCnt * pgSize) % 2 ^ 32 - base
    rw [hcreated, bufSize_of_lt hleft]
    omega
  · show (base + bmPages pageCnt * pgSize) % 2 ^ 32 + pgSize * map.bitCnt = base + pgSize * pageCnt
    rw [hcreated, hpg]
    omega

end

section

variable {biosKb ramPages userPageLimit : ℕ}

lemma initRamPages_le (biosKb : ℕ) : 256 ≤ initRamPages biosKb ∧ initRamPages biosKb ≤ 2 ^ 14 := by
  rw [initRamPages]
  omega

lemma freePages_eq (hmin : 256 ≤ ramPages) (hmax : ramPages ≤ 2 ^ 14) :
    freePages ramPages = ramPages - 256 := by
  have hend : ptov (ramPages * pgSize % 2 ^ 32) = 0xc0000000 + ramPages * 4096 := by
    rw [ptov, physBase, pgSize]
    omega
  have hstart : freeStart = 0xc0100000 := rfl
  have hsub : ((0xc0000000 + ramPages * 4096 : ℕ) : ℤ) - (0xc0100000 : ℕ) =
      ((ramPages : ℤ) - 256) * 4096 := by omega
  have hdiff : toInt32 (((ramPages : ℤ) - 256) * 4096) = ((ramPages : ℤ) - 256) * 4096 := by
    rw [toInt32]
    omega
  have hpg : (pgSize : ℤ) = 4096 := rfl
  rw [freePages, hend, hstart, hsub, hdiff, hpg, Int.mul_tdiv_cancel _ (by decide)]
  omega

lemma userPages_le (ramPages userPageLimit : ℕ) :
    userPages ramPages userPageLimit ≤ freePages ramPages := by
  rw [userPages]
  split_ifs <;> omega

end

/-- The pools are in their places, one after the other. -/
structure Pools.Laid (s : Pools) (ramPages userPageLimit : ℕ) : Prop where
  kernel : s.kernelPool.Spans freeStart (userStart ramPages userPageLimit)
  user : s.userPool.Spans (userStart ramPages userPageLimit) (physBase + pgSize * ramPages)

variable {biosKb userPageLimit : ℕ}

lemma pallocInit_laid {junk : Bool → ℕ → BitVec 32} {s : Pools}
    (h : pallocInit (initRamPages biosKb) userPageLimit junk = some s) :
    s.Laid (initRamPages biosKb) userPageLimit := by
  obtain ⟨hmin, hmax⟩ := initRamPages_le biosKb
  generalize initRamPages biosKb = ramPages at *
  have hfree := freePages_eq hmin hmax
  have huser := userPages_le ramPages userPageLimit
  have hkernel : kernelPages ramPages userPageLimit =
    freePages ramPages - userPages ramPages userPageLimit := rfl
  have hstart : freeStart = 0xc0100000 := rfl
  have hmiddle : userStart ramPages userPageLimit =
      freeStart + pgSize * kernelPages ramPages userPageLimit := by
    rw [Nat.mul_comm]
    refine Nat.mod_eq_of_lt ?_
    rw [pgSize]
    omega
  have hstop : userStart ramPages userPageLimit + pgSize * userPages ramPages userPageLimit =
      physBase + pgSize * ramPages := by
    rw [hmiddle, physBase, pgSize]
    omega
  rw [pallocInit] at h
  split_ifs at h
  obtain ⟨kernelPool, hpool, h⟩ := Option.bind_eq_some_iff.mp h
  obtain ⟨userPool, hpool', rfl⟩ := Option.map_eq_some_iff.mp h
  have hlimit : physBase + pgSize * ramPages < 2 ^ 32 := by
    rw [physBase, pgSize]
    omega
  refine ⟨?_, ?_⟩
  · rw [hmiddle]
    refine initPool_spans (by decide) (by omega) ?_ hpool
    omega
  · rw [← hstop]
    refine initPool_spans ?_ (by omega) (by omega) hpool'
    rw [hmiddle, Nat.add_mul_mod_self_left]
    rfl

/-! ## Runs in their pool -/

/-- A run is marked in its pool, from page `k` on. -/
structure Pool.Holds (p : Pool) (r : PageRun) (k : ℕ) : Prop where
  pages : r.pages = p.base + pgSize * k
  le : k + r.cnt ≤ p.usedMap.bitCnt
  pos : 0 < r.cnt
  marked : ∀ j, k ≤ j → j < k + r.cnt → p.usedMap.get j = true

section

variable {s : Pools} {p : Pool} {start stop k k' ramPages userPageLimit : ℕ} {r r' : PageRun}

lemma Pool.Spans.bitCnt_lt (h : p.Spans start stop) : p.usedMap.bitCnt < 2 ^ 32 := by
  have hstop := h.stop_eq
  have hle := h.stop_le
  rw [Pool.stop, pgSize] at hstop
  omega

variable {P : ℕ → Prop} {map : Bitmap}

lemma Pool.Spans.of_setTo {value : Bool} (h : p.Spans start stop)
    (hset : p.usedMap.SetTo P value map) : Pool.Spans { p with usedMap := map } start stop := by
  have hcnt := hset.bitCnt
  refine ⟨h.aligned, h.start_le, ?_, ?_, h.stop_le⟩
  · rw [hcnt]
    exact h.fits
  · rw [← h.stop_eq, Pool.stop, Pool.stop, hcnt]

lemma Pool.Spans.pageFromPool_iff (h : p.Spans start stop) {page : ℕ} :
    pageFromPool p page = true ↔ p.base ≤ page ∧ page < p.stop := by
  have haligned := h.aligned
  have hstop := h.stop_eq
  have hle := h.stop_le
  rw [Pool.stop] at hstop
  rw [pageFromPool, decide_eq_true_iff, Pool.stop]
  rw [pgNo, pgNo, pgSize] at *
  omega

lemma Pool.Holds.within (h : p.Holds r k) : p.base ≤ r.pages ∧ r.stop ≤ p.stop ∧ r.pages < r.stop := by
  have hpages := h.pages
  have hle := h.le
  have hpos := h.pos
  rw [PageRun.stop, Pool.stop]
  rw [pgSize] at *
  omega

lemma Pool.Holds.apart (h : p.Holds r k) (h' : p.Holds r' k') :
    Apart r.pages r.stop r'.pages r'.stop ↔ k + r.cnt ≤ k' ∨ k' + r'.cnt ≤ k := by
  have hpages := h.pages
  have hpages' := h'.pages
  rw [Apart, PageRun.stop, PageRun.stop]
  rw [pgSize] at *
  omega

lemma Pool.Holds.of_setTo {value : Bool} (h : p.Holds r k) (hset : p.usedMap.SetTo P value map)
    (hkept : value = true ∨ ∀ j, k ≤ j → j < k + r.cnt → ¬ P j) :
    Pool.Holds { p with usedMap := map } r k := by
  refine ⟨h.pages, hset.bitCnt ▸ h.le, h.pos, fun j hj hj' => ?_⟩
  by_cases hP : P j
  · obtain rfl | hkept := hkept
    · exact hset.mem j hP
    · exact absurd hP (hkept j hj hj')
  · exact (hset.notMem j hP).trans (h.marked j hj hj')

/-! ## The pools, by the flag -/

/-- Where a pool begins, and where it ends. -/
def startOf (ramPages userPageLimit : ℕ) : Bool → ℕ
  | false => freeStart
  | true => userStart ramPages userPageLimit

@[inherit_doc startOf]
def stopOf (ramPages userPageLimit : ℕ) : Bool → ℕ
  | false => userStart ramPages userPageLimit
  | true => physBase + pgSize * ramPages

lemma Pools.Laid.spans (h : s.Laid ramPages userPageLimit) (user : Bool) :
    (s.pool user).Spans (startOf ramPages userPageLimit user) (stopOf ramPages userPageLimit user) :=
  match user with
  | false => h.kernel
  | true => h.user

lemma Pools.pool_setMap_self (s : Pools) (user : Bool) (map : Bitmap) :
    (s.setMap user map).pool user = { s.pool user with usedMap := map } := by
  cases user <;> rfl

lemma Pools.pool_setMap_of_ne {user user' : Bool} (h : user' ≠ user) (map : Bitmap) :
    (s.setMap user map).pool user' = s.pool user' := by
  cases user <;> cases user' <;> first | rfl | exact absurd rfl h

lemma Pools.setMap_usedMap (s : Pools) (user : Bool) : s.setMap user (s.pool user).usedMap = s := by
  cases user <;> rfl

lemma Pools.Laid.setMap (h : s.Laid ramPages userPageLimit) {user value : Bool}
    (hset : (s.pool user).usedMap.SetTo P value map) :
    (s.setMap user map).Laid ramPages userPageLimit := by
  cases user
  · exact ⟨h.kernel.of_setTo hset, h.user⟩
  · exact ⟨h.kernel, h.user.of_setTo hset⟩

lemma Pools.Laid.base_pos (h : s.Laid ramPages userPageLimit) (user : Bool) :
    0 < (s.pool user).base := by
  have hstart : 0 < freeStart := by decide
  have hkernel := h.kernel.start_le
  have hstop := h.kernel.stop_eq
  have huser := h.user.start_le
  rw [Pool.stop] at hstop
  cases user
  · exact Nat.lt_of_lt_of_le hstart hkernel
  · show 0 < s.userPool.base
    omega

end

/-! ## Every run of the allocator -/

/-- Every run is in its pool, and no two meet. -/
structure World.Owned (w : World) (ramPages userPageLimit : ℕ) : Prop where
  laid : w.pools.Laid ramPages userPageLimit
  held : ∀ r ∈ w.runs, ∃ k, (w.pools.pool r.user).Holds r k
  apart : w.runs.Pairwise fun r r' => r.user = r'.user → Apart r.pages r.stop r'.pages r'.stop

section

variable {w : World} {ramPages userPageLimit : ℕ}

lemma does_orFail {α : Type} {s : Pools} {o : Option α} {a : α} (h : o = some a)
    {Q : α → Pools → Prop} (hQ : Q a s) : Does (orFail o) s Q := by
  rw [h]
  exact (does_pure a).mpr hQ

section

variable (h : w.Owned ramPages userPageLimit)

include h

/-- `palloc_get_multiple` hands out pages that nobody has, or none. -/
lemma World.Owned.get (user assert : Bool) (pageCnt : ℕ) :
    Does (pallocGetMultiple user assert pageCnt) w.pools (fun pages s =>
      World.Owned ⟨s, if pages = null then w.runs else ⟨user, pages, pageCnt⟩ :: w.runs⟩
        ramPages userPageLimit) ∨
    assert = true ∧ (pallocGetMultiple user assert pageCnt).run w.pools =
      .error .outOfPages w.pools := by
  have hspans := h.laid.spans user
  by_cases hzero : pageCnt = 0
  · rw [pallocGetMultiple, if_pos hzero]
    exact .inl ((does_pure null).mpr h)
  rw [pallocGetMultiple, if_neg hzero]
  simp only [does_bind, does_get, does_set]
  obtain ⟨hscan, -⟩ | ⟨k, map, hscan, -, ⟨hle, hfree⟩, -, hset⟩ :=
    scanAndFlip_run hspans.bitCnt_lt (Nat.zero_le _) pageCnt false
  · cases assert
    · refine .inl (does_orFail hscan ?_)
      simp only [Pools.setMap_usedMap, does_ite, Bool.false_eq_true, and_false]
      exact ⟨False.elim, fun _ => (does_pure null).mpr h⟩
    · refine .inr ⟨rfl, ?_⟩
      simp only [run_bind, run_get, hscan, orFail, run_pure, run_set,
        Pools.setMap_usedMap, and_self, if_true, Machinery.run_throw]
  · refine .inl (does_orFail hscan ?_)
    have hstop := hspans.stop_eq
    have hstople := hspans.stop_le
    have hbase := h.laid.base_pos user
    have hpages : ((w.pools.pool user).base + pgSize * k) % 2 ^ 32 =
        (w.pools.pool user).base + pgSize * k := by
      refine Nat.mod_eq_of_lt ?_
      rw [Pool.stop, pgSize] at hstop
      rw [pgSize]
      omega
    have hne : (w.pools.pool user).base + pgSize * k ≠ null :=
      Nat.ne_of_gt (Nat.lt_of_lt_of_le hbase (Nat.le_add_right ..))
    have hnew : ((w.pools.setMap user map).pool user).Holds
        ⟨user, (w.pools.pool user).base + pgSize * k, pageCnt⟩ k := by
      rw [Pools.pool_setMap_self]
      refine ⟨rfl, hset.bitCnt ▸ hle, Nat.pos_of_ne_zero hzero, fun j hj hj' => ?_⟩
      exact hset.mem j ⟨hj, hj'⟩
    have hold (r : PageRun) (hr : r ∈ w.runs) :
        ∃ k', ((w.pools.setMap user map).pool r.user).Holds r k' ∧
          (r.user = user → k + pageCnt ≤ k' ∨ k' + r.cnt ≤ k) := by
      obtain ⟨k', hk'⟩ := h.held r hr
      obtain rfl | hother := eq_or_ne r.user user
      · refine ⟨k', ?_, fun _ => ?_⟩
        · rw [Pools.pool_setMap_self]
          exact hk'.of_setTo hset (.inl rfl)
        · -- a page that both had would be marked and free
          by_contra hmeet
          have hpos' := hk'.pos
          have hmarked := hk'.marked (max k k') (by omega) (by omega)
          rw [hfree (max k k') (by omega) (by omega)] at hmarked
          cases hmarked
      · exact ⟨k', by rwa [Pools.pool_setMap_of_ne hother], fun huser => absurd huser hother⟩
    simp only [hpages, does_ite]
    refine ⟨fun hnull => absurd hnull.1 hne, fun _ => (does_pure _).mpr ?_⟩
    rw [if_neg hne]
    refine ⟨h.laid.setMap hset, fun r hr => ?_, List.pairwise_cons.mpr ⟨fun r hr huser => ?_, h.apart⟩⟩
    · obtain rfl | hr := List.mem_cons.mp hr
      · exact ⟨k, hnew⟩
      · obtain ⟨k', hk', -⟩ := hold r hr
        exact ⟨k', hk'⟩
    · obtain ⟨k', hk', hapart⟩ := hold r hr
      rw [← huser] at hk'
      exact (hnew.apart hk').mpr (hapart huser.symm)

lemma World.Owned.pageFromPool {r : PageRun} (hr : r ∈ w.runs) {page : ℕ}
    (hpage : r.pages ≤ page) (hstop : page < r.stop) (user : Bool) :
    Palloc.pageFromPool (w.pools.pool user) page = decide (user = r.user) := by
  obtain ⟨k, hk⟩ := h.held r hr
  obtain ⟨hbase, hend, -⟩ := hk.within
  have hmiddle := h.laid.kernel.stop_eq
  have huser := h.laid.user.start_le
  rw [Bool.eq_iff_iff, (h.laid.spans user).pageFromPool_iff, decide_eq_true_iff]
  obtain rfl | hne := eq_or_ne user r.user
  · exact iff_of_true ⟨by omega, by omega⟩ rfl
  · refine iff_of_false (fun hin => ?_) hne
    match hru : r.user, user with
    | false, false | true, true => exact hne hru.symm
    | false, true =>
      rw [hru] at hend
      have hle : w.pools.userPool.base ≤ page := hin.1
      have hlt : page < w.pools.kernelPool.stop := Nat.lt_of_lt_of_le hstop hend
      omega
    | true, false =>
      rw [hru] at hbase
      have hle : w.pools.userPool.base ≤ page := Nat.le_trans hbase hpage
      have hlt : page < w.pools.kernelPool.stop := hin.2
      omega

lemma World.Owned.free {r : PageRun} (hr : r ∈ w.runs) :
    Does (pallocFreeMultiple r.pages r.cnt) w.pools fun _ s =>
      World.Owned ⟨s, w.runs.erase r⟩ ramPages userPageLimit := by
  obtain ⟨k, hk⟩ := h.held r hr
  obtain ⟨hbase, hend, hlt⟩ := hk.within
  have hspans := h.laid.spans r.user
  have hpos := h.laid.base_pos r.user
  have haligned : pgOfs r.pages = 0 := by
    rw [hk.pages, pgOfs, Nat.add_mul_mod_self_left]
    exact hspans.aligned
  have hidx : (pgNo r.pages + 2 ^ 32 - pgNo (w.pools.pool r.user).base) % 2 ^ 32 = k := by
    have hle := hk.le
    have hcnt := hspans.bitCnt_lt
    rw [hk.pages, pgNo, pgNo]
    rw [pgSize] at *
    omega
  have hpool (user : Bool) := h.pageFromPool hr (Nat.le_refl _) hlt user
  obtain ⟨map, hmap, hset⟩ := setTo_setMultiple hk.le hspans.bitCnt_lt false
  have hchoice : Does (poolOf r.pages) w.pools fun user s => user = r.user ∧ s = w.pools := by
    have hkernel : Palloc.pageFromPool w.pools.kernelPool r.pages = _ := hpool false
    have huser : Palloc.pageFromPool w.pools.userPool r.pages = _ := hpool true
    rw [poolOf, does_bind, does_get, hkernel, huser]
    cases r.user
    · exact (does_pure false).mpr ⟨rfl, rfl⟩
    · exact (does_pure true).mpr ⟨rfl, rfl⟩
  rw [pallocFreeMultiple, does_bind, does_require, does_ite]
  refine ⟨haligned, fun hnull => ?_, fun _ => ?_⟩
  · have hcnt := hk.pos
    obtain hnull | hzero := hnull
    · rw [hnull] at hbase
      exact absurd hbase (Nat.not_le.mpr hpos)
    · omega
  · rw [does_bind]
    refine hchoice.mono ?_
    rintro _ _ ⟨rfl, rfl⟩
    simp only [hidx, does_bind, does_get, does_require, does_set]
    refine does_orFail (all_eq_true hk.le hspans.bitCnt_lt hk.marked)
      ⟨rfl, does_orFail hmap ?_⟩
    have hperm := List.perm_cons_erase hr
    have hpairwise := (hperm.pairwise_iff fun {a b} hab hba => (hab hba.symm).symm).mp h.apart
    obtain ⟨hothers, hrest⟩ := List.pairwise_cons.mp hpairwise
    refine ⟨h.laid.setMap hset, fun r' hr' => ?_, hrest⟩
    obtain ⟨k', hk'⟩ := h.held r' (List.mem_of_mem_erase hr')
    refine ⟨k', ?_⟩
    obtain huser | hother := eq_or_ne r'.user r.user
    · rw [huser] at hk' ⊢
      rw [Pools.pool_setMap_self]
      have hapart := (hk.apart hk').mp (hothers r' hr' huser.symm)
      exact hk'.of_setTo hset (.inr fun j hj hj' hin => by omega)
    · rwa [Pools.pool_setMap_of_ne hother]

lemma World.Owned.step {w' : World} {c : PageCall} (hstep : step w c w') :
    w'.Owned ramPages userPageLimit := by
  match c with
  | .get user assert pageCnt =>
    obtain ⟨-, pages, hrun, hruns⟩ := hstep
    obtain hget | ⟨-, hstop⟩ := h.get user assert pageCnt
    · have howned := hget.of_run hrun
      rwa [← hruns] at howned
    · rw [hstop] at hrun
      cases hrun
  | .free r =>
    obtain ⟨hr, hrun, hruns⟩ := hstep
    have hfree := (h.free hr).of_run hrun
    rwa [← hruns] at hfree

end

lemma owned_of_reachable {w : World}
    (hw : (system (initRamPages biosKb) userPageLimit).Reachable w) :
    w.Owned (initRamPages biosKb) userPageLimit := by
  refine hw.invariant (I := fun w => w.Owned (initRamPages biosKb) userPageLimit) ?_
    fun _ _ _ h _ hstep => h.step hstep
  rintro w ⟨junk, hinit, hruns⟩
  refine ⟨pallocInit_laid hinit, ?_, ?_⟩
  · rw [hruns]
    exact nofun
  · rw [hruns]
    exact .nil

end

/-- **Pages are handed out once.** The runs not freed do not meet; they are page-aligned, in the
pool they were asked from, and clear of both bitmaps, which fit in their pages. Freeing a run never
stops, and getting one only for want of pages. -/
theorem pages_exclusive {biosKb userPageLimit : ℕ} {w : World}
    (hw : (system (initRamPages biosKb) userPageLimit).Reachable w) :
    (w.runs.Pairwise fun r r' => Apart r.pages r.stop r'.pages r'.stop) ∧
    (∀ r ∈ w.runs, pgOfs r.pages = 0 ∧
      (w.pools.pool r.user).base ≤ r.pages ∧ r.stop ≤ (w.pools.pool r.user).stop ∧
      Apart r.pages r.stop freeStart w.pools.kernelPool.base ∧
      Apart r.pages r.stop (userStart (initRamPages biosKb) userPageLimit) w.pools.userPool.base ∧
      Apart r.pages r.stop (w.pools.pool (!r.user)).base (w.pools.pool (!r.user)).stop ∧
      ∀ i < r.cnt, pageFromPool (w.pools.pool r.user) (r.pages + pgSize * i) = true ∧
        pageFromPool (w.pools.pool (!r.user)) (r.pages + pgSize * i) = false) ∧
    (freeStart + Bitmap.bufSize w.pools.kernelPool.usedMap.bitCnt ≤ w.pools.kernelPool.base ∧
      userStart (initRamPages biosKb) userPageLimit +
        Bitmap.bufSize w.pools.userPool.usedMap.bitCnt ≤ w.pools.userPool.base) ∧
    (∀ r ∈ w.runs, Does (pallocFreeMultiple r.pages r.cnt) w.pools fun _ _ => True) ∧
    ∀ user assert pageCnt, Does (pallocGetMultiple user assert pageCnt) w.pools (fun _ _ => True) ∨
      assert = true ∧ (pallocGetMultiple user assert pageCnt).run w.pools =
        .error .outOfPages w.pools := by
  have h := owned_of_reachable hw
  have hkernel := h.laid.kernel
  have huser := h.laid.user
  have hmiddle := hkernel.stop_eq
  have hbases : w.pools.kernelPool.base ≤ w.pools.kernelPool.stop := Nat.le_add_right ..
  have hstart := huser.start_le
  have hwithin (r : PageRun) (hr : r ∈ w.runs) : (w.pools.pool r.user).base ≤ r.pages ∧
      r.stop ≤ (w.pools.pool r.user).stop ∧ r.pages < r.stop := by
    obtain ⟨k, hk⟩ := h.held r hr
    exact hk.within
  -- a run of the kernel's pool ends before the user's begins
  have hside (r : PageRun) (hr : r ∈ w.runs) :
      (r.user = false ∧ w.pools.kernelPool.base ≤ r.pages ∧ r.stop ≤ w.pools.kernelPool.stop) ∨
        r.user = true ∧ w.pools.userPool.base ≤ r.pages := by
    obtain ⟨hbase, hstop, -⟩ := hwithin r hr
    match hru : r.user with
    | false =>
      rw [hru] at hbase hstop
      exact .inl ⟨rfl, hbase, hstop⟩
    | true =>
      rw [hru] at hbase
      exact .inr ⟨rfl, hbase⟩
  refine ⟨h.apart.imp_of_mem fun {r r'} hr hr' hapart => ?_, fun r hr => ?_, ⟨?_, ?_⟩, fun r hr => ?_,
    fun user assert pageCnt => ?_⟩
  · obtain ⟨hru, hle, hlt⟩ | ⟨hru, hle⟩ := hside r hr
    · obtain ⟨hru', -⟩ | ⟨-, hle'⟩ := hside r' hr'
      · exact hapart (hru.trans hru'.symm)
      · exact .inl (by omega)
    · obtain ⟨-, -, hlt'⟩ | ⟨hru', -⟩ := hside r' hr'
      · exact .inr (by omega)
      · exact hapart (hru.trans hru'.symm)
  · obtain ⟨hbase, hstop, hlt⟩ := hwithin r hr
    obtain ⟨k, hk⟩ := h.held r hr
    refine ⟨?_, hbase, hstop, ?_, ?_, ?_, fun i hi => ?_⟩
    · rw [hk.pages, pgOfs, Nat.add_mul_mod_self_left]
      exact (h.laid.spans r.user).aligned
    · obtain ⟨-, hle, -⟩ | ⟨-, hle⟩ := hside r hr
      · exact .inr hle
      · exact .inr (by omega)
    · obtain ⟨-, -, hlt⟩ | ⟨-, hle⟩ := hside r hr
      · exact .inl (by omega)
      · exact .inr hle
    · obtain ⟨hru, -, hlt⟩ | ⟨hru, hle⟩ := hside r hr
      · rw [hru]
        exact .inl (show r.stop ≤ w.pools.userPool.base by omega)
      · rw [hru]
        exact .inr (show w.pools.kernelPool.stop ≤ r.pages by omega)
    · have hin : r.pages + pgSize * i < r.stop := by
        rw [PageRun.stop, pgSize]
        omega
      refine ⟨?_, ?_⟩
      · rw [h.pageFromPool hr (Nat.le_add_right ..) hin, decide_eq_true rfl]
      · rw [h.pageFromPool hr (Nat.le_add_right ..) hin]
        simp
  · have hfits := hkernel.fits
    have hle := hkernel.start_le
    omega
  · have hfits := huser.fits
    omega
  · exact (h.free hr).mono fun _ _ _ => trivial
  · exact (h.get user assert pageCnt).imp_left fun hget => hget.mono fun _ _ _ => trivial

/-- Four pages above the first megabyte: a page is handed out of each pool. -/
theorem pages_exclusive_two : ∃ w : World, (system (initRamPages 16) 1000).Reachable w ∧
    (∃ pages pages', w.runs = [⟨true, pages', 1⟩, ⟨false, pages, 1⟩]) ∧
    w.runs.Pairwise fun r r' => Apart r.pages r.stop r'.pages r'.stop := by
  have hrun : ((pallocInit (initRamPages 16) 1000 fun _ _ => 7).any fun s =>
      endsWith (fun pages s => pages ≠ null ∧
        endsWith (fun pages' _ => pages' ≠ null) ((pallocGetMultiple true false 1).run s))
        ((pallocGetMultiple false false 1).run s)) = true := by decide +kernel
  simp only [Option.any_eq_true, endsWith_iff, decide_eq_true_eq] at hrun
  obtain ⟨s₀, hinit, pages, s₁, h₁, hne, pages', s₂, h₂, hne'⟩ := hrun
  have hw : (system (initRamPages 16) 1000).Reachable
      ⟨s₂, [⟨true, pages', 1⟩, ⟨false, pages, 1⟩]⟩ := by
    refine .next (s := ⟨s₁, [⟨false, pages, 1⟩]⟩) (a := .get true false 1) (.next (s := ⟨s₀, []⟩)
      (a := .get false false 1) (.start ⟨_, hinit, rfl⟩) trivial ?_) trivial ?_
    · exact ⟨by decide, pages, h₁, (if_neg hne).symm⟩
    · exact ⟨by decide, pages', h₂, (if_neg hne').symm⟩
  exact ⟨_, hw, ⟨pages, pages', rfl⟩, (pages_exclusive hw).1⟩

end Palloc

end Pintos
