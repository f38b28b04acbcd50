import Pintos.Machinery.Runs
import Pintos.Vm.Swap

/-!
# Vm/SwapSpace — the swap table over a device that ends

`SECTORS_PER_PAGE` stands without parentheses for `PGSIZE/BLOCK_SECTOR_SIZE`, so `offset *
SECTORS_PER_PAGE + i` is `offset * PGSIZE / BLOCK_SECTOR_SIZE + i`, a product of `int`s and a sum of
`uint32_t`s. On a device that `identify_ata_device` accepts it comes to the same as in `Vm/Swap`,
and nothing is out of range.
-/

namespace Pintos

open Machinery Function List

def swapSector (offset : ℤ) (i : ℕ) : ℕ :=
  (((toInt32 (offset * pgSize)).tdiv blockSectorSize + i) % 2 ^ 32).toNat

/-- `swap_table`, `entries` and `swap_block`. -/
structure SwapSpace where
  entries : ℕ
  table : ℕ → SwapEntry
  block : Block

/-- How a call does not return. -/
inductive SwapStop where
  /-- `exit (status)` -/
  | exit (status : ℤ)
  /-- an access past the end of the device -/
  | panic
  /-- `swap_table` is read outside its bounds -/
  | outOfBounds
  deriving DecidableEq, Repr

/-- A sector's worth of a page replaced. -/
def setPageSector (p : Page) (i : Fin sectorsPerPage) (data : Sector) : Page :=
  fun b => if b.val / blockSectorSize = i then data (Block.inSector b) else p b

/-- `add_swap_entry_helper`, for the page at `vaddr`. -/
def addSwapEntryHelper (d : Block) (offset : ℤ) (p : Page) : Option Block :=
  (List.finRange sectorsPerPage).foldlM
    (fun (d : Block) (i : Fin sectorsPerPage) => d.write (swapSector offset i) (pageSector p i)) d

/-- The loop of `remove_swap_entry`, into the frame at `paddr`. -/
def readSwapEntry (d : Block) (index : ℤ) (frame : Page) : Option Page :=
  (List.finRange sectorsPerPage).foldlM
    (fun (p : Page) (i : Fin sectorsPerPage) =>
      (d.read (swapSector index i)).map (setPageSector p i)) frame

namespace SwapSpace

/-- `init_swap_table`; the table comes from `calloc`. -/
def init (d : Block) : SwapSpace := ⟨d.size / (pgSize / blockSectorSize), fun _ => ⟨0, 0⟩, d⟩

/-- The same without the size. -/
def toSwap (w : SwapSpace) : Swap := ⟨w.entries, w.table, w.block.sector⟩

/-- The end of `add_swap_entry`, once the sectors are written. -/
def stored (w : SwapSpace) (i : ℕ) (e : SwapEntry) : Option Block → Except SwapStop (ℤ × SwapSpace)
  | none => .error .panic
  | some d => .ok (i, { w with table := update w.table i e, block := d })

/-- `add_swap_entry`, by thread `tid`, of the page `p` at `vaddr`. -/
def addSwapEntry (w : SwapSpace) (tid vaddr : ℕ) (p : Page) : Except SwapStop (ℤ × SwapSpace) :=
  w.toSwap.freeSlot.elim (.ok (-1, w))
    fun i => w.stored i ⟨tid, vaddr⟩ (addSwapEntryHelper w.block i p)

/-- `remove_swap_entry`, into a frame. -/
def removeSwapEntry (w : SwapSpace) (index : ℤ) (frame : Page) : Except SwapStop (Page × SwapSpace) :=
  if index < 0 ∨ (w.entries : ℤ) ≤ index then .error .outOfBounds
  else if (w.table index.toNat).tid = 0 then .error (.exit (-1))
  else
    match readSwapEntry w.block index frame with
    | none => .error .panic
    | some p => .ok (p, { w with table := update w.table index.toNat ⟨0, 0⟩ })

/-- A slot that holds a page. -/
def Occupied (w : SwapSpace) (index : ℤ) : Prop :=
  0 ≤ index ∧ index < w.entries ∧ (w.table index.toNat).tid ≠ 0

end SwapSpace

/-! ## Sectors -/

/-- The macro does no harm below 2¹⁸ slots. -/
lemma swapSector_eq {offset i : ℕ} (ho : offset < 2 ^ 18) (hi : i < sectorsPerPage) :
    swapSector offset i = offset * sectorsPerPage + i := by
  have hi : i < 8 := hi
  have hint : toInt32 ((offset : ℤ) * (pgSize : ℕ)) = offset * 4096 := by
    rw [toInt32, if_pos]
    · show (offset : ℤ) * 4096 % 2 ^ 32 = _
      omega
    · show (offset : ℤ) * 4096 % 2 ^ 32 < 2 ^ 31
      omega
  have hdiv : ((offset : ℤ) * 4096).tdiv (blockSectorSize : ℕ) = offset * 8 := by
    show (offset : ℤ) * 4096 / 512 = _
    omega
  rw [swapSector, hint, hdiv]
  show (((offset : ℤ) * 8 + i) % 2 ^ 32).toNat = offset * 8 + i
  omega

lemma foldlM_write {ι : Type} (place : ι → ℕ) (data : ι → Sector) (l : List ι) (d : Block)
    (h : ∀ i ∈ l, place i < d.size) :
    l.foldlM (fun (d : Block) i => d.write (place i) (data i)) d = some { d with
      sector := l.foldl (fun block i => update block (place i) (data i)) d.sector } := by
  induction l generalizing d with
  | nil => rfl
  | cons i l ih =>
    rw [foldlM_cons, Block.write, if_pos (h i mem_cons_self)]
    exact ih _ fun j hj => h j (mem_cons_of_mem i hj)

lemma foldlM_read (place : Fin sectorsPerPage → ℕ) (l : List (Fin sectorsPerPage)) (d : Block)
    (p : Page) (h : ∀ i ∈ l, place i < d.size) :
    l.foldlM (fun p i => (d.read (place i)).map (setPageSector p i)) p =
      some (l.foldl (fun p i => setPageSector p i (d.sector (place i))) p) := by
  induction l generalizing p with
  | nil => rfl
  | cons i l ih =>
    rw [foldlM_cons, Block.read, if_pos (h i mem_cons_self)]
    exact ih _ fun j hj => h j (mem_cons_of_mem i hj)

lemma foldl_setPageSector (data : Fin sectorsPerPage → Sector) (l : List (Fin sectorsPerPage))
    (p : Page) {b : Fin pgSize} {i : Fin sectorsPerPage} (hi : i ∈ l)
    (hb : b.val / blockSectorSize = i) :
    l.foldl (fun p i => setPageSector p i (data i)) p b = data i (Block.inSector b) := by
  induction l using List.reverseRecOn with
  | nil => cases hi
  | append_singleton l j ih =>
    rw [foldl_append, foldl_cons, foldl_nil, setPageSector]
    by_cases hij : i = j
    · rw [if_pos (hij ▸ hb), hij]
    · rw [if_neg fun hj => hij (Fin.ext (hb.symm.trans hj))]
      exact ih ((mem_append.mp hi).resolve_right (by simpa using hij))

section

variable {d : Block} {i : ℕ}

section

variable (hsize : d.size < 2 ^ 21) (hi : i < d.size / sectorsPerPage)

include hsize hi

lemma swapSector_lt {j : ℕ} (hj : j < sectorsPerPage) : swapSector i j < d.size := by
  have hi' : i < d.size / 8 := hi
  have hj' : j < 8 := hj
  rw [swapSector_eq (by omega) hj]
  show i * 8 + j < d.size
  omega

lemma addSwapEntryHelper_eq (entries : ℕ) (table : ℕ → SwapEntry) (p : Page) :
    ∃ d', addSwapEntryHelper d i p = some d' ∧ d'.size = d.size ∧
      d'.sector = (Swap.store ⟨entries, table, d.sector⟩ i p).block := by
  have hi' : i < d.size / 8 := hi
  have hsector (j : Fin sectorsPerPage) : swapSector i j = i * sectorsPerPage + j :=
    swapSector_eq (by omega) j.isLt
  refine ⟨_, foldlM_write _ _ _ _ fun j _ => swapSector_lt hsize hi j.isLt, rfl, ?_⟩
  simp only [hsector]
  rfl

lemma readSwapEntry_eq (entries : ℕ) (table : ℕ → SwapEntry) (frame : Page) :
    readSwapEntry d i frame = some (Swap.fetch ⟨entries, table, d.sector⟩ i) := by
  have hi' : i < d.size / 8 := hi
  rw [readSwapEntry, foldlM_read _ _ _ _ fun j _ => swapSector_lt hsize hi j.isLt]
  refine congrArg some (funext fun b => ?_)
  have hb : b.val < 4096 := b.isLt
  have hq : b.val / blockSectorSize < sectorsPerPage := by
    show b.val / 512 < 8
    omega
  rw [foldl_setPageSector (fun j => d.sector (swapSector i j)) _ frame
    (mem_finRange ⟨b.val / blockSectorSize, hq⟩) rfl, swapSector_eq (by omega) hq]
  rfl

end

end

/-! ## Over `Swap` -/

namespace SwapSpace

/-- A device that `identify_ata_device` accepts, and a table for all of it. -/
structure Fits (w : SwapSpace) : Prop where
  small : w.block.size < 2 ^ 21
  entries : w.entries = w.block.size / sectorsPerPage

variable {w : SwapSpace}

/-- The page in slot `i`. -/
def page (w : SwapSpace) (i : ℕ) : Page := w.toSwap.fetch i

lemma Fits.addSwapEntry_some (h : w.Fits) {i : ℕ} (hi : w.toSwap.freeSlot = some i)
    (tid vaddr : ℕ) (p : Page) : ∃ w', w.addSwapEntry tid vaddr p = .ok ((i : ℤ), w') ∧
      w'.Fits ∧ w'.block.size = w.block.size ∧
      w'.toSwap = (w.toSwap.claim i tid vaddr).store i p := by
  have hlt : i < w.block.size / sectorsPerPage := by
    rw [← h.entries]
    exact (Swap.freeSlot_eq_some hi).1
  obtain ⟨d, hd, hsize, hsector⟩ := addSwapEntryHelper_eq h.small hlt w.entries w.table p
  refine ⟨⟨w.entries, update w.table i ⟨tid, vaddr⟩, d⟩, ?_, ⟨?_, ?_⟩, hsize, ?_⟩
  · rw [addSwapEntry, hi, Option.elim_some, hd, stored]
  · rw [hsize]
    exact h.small
  · rw [hsize]
    exact h.entries
  · rw [toSwap, hsector]
    rfl

lemma addSwapEntry_none (hi : w.toSwap.freeSlot = none) (tid vaddr : ℕ) (p : Page) :
    w.addSwapEntry tid vaddr p = .ok (-1, w) := by
  rw [addSwapEntry, hi, Option.elim_none]

section

variable {w' : SwapSpace} {i tid vaddr : ℕ} {p : Page}
  (hswap : w'.toSwap = (w.toSwap.claim i tid vaddr).store i p)

include hswap

lemma table_of_stored (j : ℕ) : w'.table j = if j = i then ⟨tid, vaddr⟩ else w.table j :=
  (congrFun (congrArg Swap.table hswap) j).trans (Swap.claim_table ..)

lemma page_of_stored (j : ℕ) : w'.page j = if j = i then p else w.page j := by
  rw [page, hswap]
  by_cases hji : j = i
  · rw [if_pos hji, hji, Swap.fetch_store]
  · rw [if_neg hji, Swap.fetch_store_ne _ hji]
    rfl

end

lemma Fits.removeSwapEntry_eq (h : w.Fits) {i : ℕ} (hocc : w.Occupied i) (frame : Page) :
    w.removeSwapEntry i frame =
      .ok (w.page i, { w with table := update w.table i ⟨0, 0⟩ }) := by
  obtain ⟨-, hlt, htid⟩ := hocc
  have hlt : i < w.block.size / sectorsPerPage := by
    rw [← h.entries]
    exact Int.ofNat_lt.mp hlt
  rw [removeSwapEntry, if_neg (by omega), if_neg htid,
    readSwapEntry_eq h.small hlt w.entries w.table frame]
  rfl

lemma freeSlot_eq_none_iff : w.toSwap.freeSlot = none ↔ ∀ i < w.entries, (w.table i).tid ≠ 0 := by
  rw [Swap.freeSlot, find?_eq_none]
  exact forall_congr' fun i => imp_congr mem_range (not_congr decide_eq_true_iff)

end SwapSpace

/-! ## Runs -/

/-- The swap space, and a note of what was stored last in each slot that is not free. -/
structure SwapRun where
  space : SwapSpace
  held : ℕ → Option Page

/-- The calls. -/
inductive SwapAct where
  | add (tid vaddr : ℕ) (p : Page)
  | remove (index : ℤ) (frame : Page)

namespace SwapRun

/-- What a call does, if it returns. -/
def act (r : SwapRun) : SwapAct → Option SwapRun
  | .add tid vaddr p =>
    match r.space.addSwapEntry tid vaddr p with
    | .ok (i, w) => some ⟨w, if i = -1 then r.held else update r.held i.toNat (some p)⟩
    | .error _ => none
  | .remove index frame =>
    match r.space.removeSwapEntry index frame with
    | .ok (_, w) => some ⟨w, update r.held index.toNat none⟩
    | .error _ => none

/-- The calls that are made: by threads, whose `tid` is not zero, and for slots that are not
free. -/
def Call (r : SwapRun) : SwapAct → Prop
  | .add tid _ _ => tid ≠ 0
  | .remove index _ => r.space.Occupied index

instance (r : SwapRun) : (a : SwapAct) → Decidable (r.Call a)
  | .add tid _ _ => inferInstanceAs (Decidable (tid ≠ 0))
  | .remove index _ => inferInstanceAs (Decidable (0 ≤ index ∧ index < r.space.entries ∧
      (r.space.table index.toNat).tid ≠ 0))

end SwapRun

/-- Swapping, on any device that `identify_ata_device` accepts. -/
def swapSystem : System SwapRun SwapAct where
  init r := ∃ d : Block, d.size < 2 ^ 21 ∧ r = ⟨SwapSpace.init d, fun _ => none⟩
  step r a r' := r.act a = some r'

namespace SwapRun

/-- The slots hold what was stored in them, and the free ones nothing. -/
structure Faithful (r : SwapRun) : Prop where
  fits : r.space.Fits
  held : ∀ i < r.space.entries, r.held i = none ↔ (r.space.table i).tid = 0
  page : ∀ i p, r.held i = some p → r.space.page i = p

variable {r r' : SwapRun}

lemma Faithful.add (h : r.Faithful) {tid vaddr : ℕ} {p : Page} (htid : tid ≠ 0)
    (hstep : r.act (.add tid vaddr p) = some r') : r'.Faithful := by
  rw [act] at hstep
  cases hfree : r.space.toSwap.freeSlot with
  | none =>
    rw [SwapSpace.addSwapEntry_none hfree] at hstep
    cases hstep
    exact h
  | some i =>
    obtain ⟨w', hadd, hfits, -, hswap⟩ := h.fits.addSwapEntry_some hfree tid vaddr p
    rw [hadd] at hstep
    cases hstep
    have hentries : w'.entries = r.space.entries := congrArg Swap.entries hswap
    have htable := SwapSpace.table_of_stored hswap
    have hpage := SwapSpace.page_of_stored hswap
    have hi : (i : ℤ) ≠ -1 := by omega
    simp only [if_neg hi, Int.toNat_natCast]
    refine ⟨hfits, fun j hj => ?_, fun j q hq => ?_⟩
    · by_cases hji : j = i
      · simp [hji, htable, htid]
      · dsimp only
        rw [update_of_ne hji, htable, if_neg hji]
        exact h.held j (hentries ▸ hj)
    · dsimp only at hq
      rw [hpage]
      by_cases hji : j = i
      · rw [hji, update_self] at hq
        rw [if_pos hji]
        exact Option.some.inj hq
      · rw [update_of_ne hji] at hq
        rw [if_neg hji]
        exact h.page j q hq

lemma Faithful.remove (h : r.Faithful) {index : ℤ} {frame : Page} (hocc : r.space.Occupied index)
    (hstep : r.act (.remove index frame) = some r') : r'.Faithful := by
  obtain ⟨i, rfl⟩ := Int.eq_ofNat_of_zero_le hocc.1
  rw [act, h.fits.removeSwapEntry_eq hocc] at hstep
  cases hstep
  refine ⟨⟨h.fits.small, h.fits.entries⟩, fun j hj => ?_, fun j p hp => ?_⟩
  · by_cases hji : j = i
    · simp [hji]
    · have hne : j ≠ (i : ℤ).toNat := hji
      simp only [update_of_ne hne, update_of_ne hji]
      exact h.held j hj
  · by_cases hji : j = i
    · simp [hji] at hp
    · have hne : j ≠ (i : ℤ).toNat := hji
      dsimp only at hp
      rw [update_of_ne hne] at hp
      exact h.page j p hp

end SwapRun

variable {r : SwapRun}

lemma faithful_of_reach (h : swapSystem.Reach SwapRun.Call r) : r.Faithful := by
  refine h.invariant ?_ fun r a r' hI hcall hstep => ?_
  · rintro _ ⟨d, hd, rfl⟩
    exact ⟨⟨hd, rfl⟩, fun _ _ => by simp [SwapSpace.init], nofun⟩
  · cases a with
    | add => exact hI.add hcall hstep
    | remove => exact hI.remove hcall hstep

/-! ## A faithful page store -/

/-- Without a free slot nothing changes, and else one free slot gets the page. -/
lemma SwapRun.Faithful.addSwapEntry (h : r.Faithful) (tid vaddr : ℕ) (p : Page) :
    ∃ v w, r.space.addSwapEntry tid vaddr p = .ok (v, w) ∧
      (v = -1 ↔ ∀ i < r.space.block.size / sectorsPerPage, (r.space.table i).tid ≠ 0) ∧
      (v = -1 → w = r.space) ∧
      (v ≠ -1 → ∃ i < r.space.block.size / sectorsPerPage, v = i ∧ (r.space.table i).tid = 0 ∧
        w.table i = ⟨tid, vaddr⟩ ∧ w.page i = p ∧
        ∀ j, j ≠ i → w.table j = r.space.table j ∧ w.page j = r.space.page j) := by
  rw [← h.fits.entries]
  cases hfree : r.space.toSwap.freeSlot with
  | none =>
    refine ⟨-1, r.space, SwapSpace.addSwapEntry_none hfree tid vaddr p, ?_, fun _ => rfl, nofun⟩
    exact iff_of_true rfl (SwapSpace.freeSlot_eq_none_iff.mp hfree)
  | some i =>
    obtain ⟨w, hadd, -, -, hswap⟩ := h.fits.addSwapEntry_some hfree tid vaddr p
    obtain ⟨hi, hzero⟩ := Swap.freeSlot_eq_some hfree
    have htable := SwapSpace.table_of_stored hswap
    have hpage := SwapSpace.page_of_stored hswap
    refine ⟨i, w, hadd, iff_of_false (by omega) fun hfull => hfull i hi hzero, by omega, fun _ => ?_⟩
    refine ⟨i, hi, rfl, hzero, ?_, ?_, fun j hj => ⟨?_, ?_⟩⟩
    · rw [htable, if_pos rfl]
    · rw [hpage, if_pos rfl]
    · rw [htable, if_neg hj]
    · rw [hpage, if_neg hj]

/-- The page that was stored last comes out, and its slot is free. -/
lemma SwapRun.Faithful.removeSwapEntry (h : r.Faithful) {i : ℕ} (hocc : r.space.Occupied i)
    (frame : Page) : ∃ p w, r.space.removeSwapEntry i frame = .ok (p, w) ∧ r.held i = some p ∧
      (w.table i).tid = 0 ∧
      ∀ j, w.page j = r.space.page j ∧ (j ≠ i → w.table j = r.space.table j) := by
  refine ⟨_, _, h.fits.removeSwapEntry_eq hocc frame, ?_, ?_, fun j => ⟨rfl, fun hj => ?_⟩⟩
  · obtain ⟨-, hlt, htid⟩ := hocc
    obtain ⟨p, hp⟩ := Option.ne_none_iff_exists'.mp
      (mt (h.held i (Int.ofNat_lt.mp hlt)).mp htid)
    rw [hp, h.page i p hp]
  · simp
  · exact update_of_ne hj ..

/-- **Swap is a faithful page store.** `add_swap_entry` returns -1 just when every slot is occupied;
otherwise a free slot gets the page. `remove_swap_entry` delivers the page stored there last and
frees the slot. All sectors are on the device, and no two slots share one. -/
theorem swap_faithful {r : SwapRun} (h : swapSystem.Reach SwapRun.Call r) :
    (∀ tid vaddr p, ∃ v w, r.space.addSwapEntry tid vaddr p = .ok (v, w) ∧
      (v = -1 ↔ ∀ i < r.space.block.size / sectorsPerPage, (r.space.table i).tid ≠ 0) ∧
      (v = -1 → w = r.space) ∧
      (v ≠ -1 → ∃ i < r.space.block.size / sectorsPerPage, v = i ∧ (r.space.table i).tid = 0 ∧
        w.table i = ⟨tid, vaddr⟩ ∧ w.page i = p ∧
        ∀ j, j ≠ i → w.table j = r.space.table j ∧ w.page j = r.space.page j)) ∧
    (∀ (i : ℕ) frame, r.space.Occupied i → ∃ p w, r.space.removeSwapEntry i frame = .ok (p, w) ∧
      r.held i = some p ∧ (w.table i).tid = 0 ∧
      ∀ j, w.page j = r.space.page j ∧ (j ≠ i → w.table j = r.space.table j)) ∧
    ∀ i < r.space.block.size / sectorsPerPage, ∀ a < sectorsPerPage,
      swapSector i a < r.space.block.size ∧
      ∀ j < r.space.block.size / sectorsPerPage, ∀ b < sectorsPerPage,
        swapSector i a = swapSector j b → i = j ∧ a = b := by
  have hf := faithful_of_reach h
  refine ⟨hf.addSwapEntry, fun i frame hocc => hf.removeSwapEntry hocc frame, fun i hi a ha => ?_⟩
  refine ⟨swapSector_lt hf.fits.small hi ha, fun j hj b hb hab => ?_⟩
  have hsize := hf.fits.small
  have hi' : i < r.space.block.size / 8 := hi
  have hj' : j < r.space.block.size / 8 := hj
  rw [swapSector_eq (by omega) ha, swapSector_eq (by omega) hb] at hab
  have ha' : a < 8 := ha
  have hb' : b < 8 := hb
  have hab' : i * 8 + a = j * 8 + b := hab
  omega

/-- A device of two slots, at boot. -/
def twoSlots : SwapRun := ⟨SwapSpace.init ⟨16, fun _ _ => 0, by decide⟩, fun _ => none⟩

/-- One of them is taken, and given back. -/
theorem swap_faithful_twoSlots : ∃ r, twoSlots.act (.add 1 0x8048000 fun _ => 7) = some r ∧
    swapSystem.Reach SwapRun.Call r ∧ r.space.Occupied (0 : ℕ) ∧
    ∃ p w, r.space.removeSwapEntry (0 : ℕ) (fun _ => 0) = .ok (p, w) ∧ r.held 0 = some p := by
  have hany : (twoSlots.act (.add 1 0x8048000 fun _ => 7)).any
      (fun r => decide (r.Call (.remove (0 : ℕ) fun _ => 0))) = true := by decide +kernel
  obtain ⟨r, hr, hocc⟩ := (Option.any_eq_true ..).mp hany
  have hstart : swapSystem.Reach SwapRun.Call twoSlots := .start ⟨_, by decide, rfl⟩
  have hreach : swapSystem.Reach SwapRun.Call r := hstart.next (by decide) hr
  have hocc : r.Call (.remove (0 : ℕ) fun _ => 0) := of_decide_eq_true hocc
  obtain ⟨p, w, hrem, hheld, -⟩ := (swap_faithful hreach).2.1 0 (fun _ => 0) hocc
  exact ⟨r, hr, hreach, hocc, p, w, hrem, hheld⟩

end Pintos
