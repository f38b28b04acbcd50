import Pintos.Threads.Pte
import Pintos.Machinery.Runs

/-!
# Userprog/PageTables — page directories in memory

A directory is a page of 1024 words; a word that is not zero points to a page table. `pageDirOf`
reads memory as a directory of records, and as long as directory and tables are different pages
(`Laid`), every function is followed by the lemma that says what it does to that.
-/

namespace Pintos

open Machinery Function Option

namespace Paging

/-! ## The functions -/

/-- `&page[i]`, of a page of words. -/
def slot (page : Word) (i : ℕ) : Word := page + BitVec.ofNat 32 (4 * i)

def store (a w : Word) : PagingM Unit := modify fun mem => update mem a w

def zeroPage (page : Word) (mem : Words) : Words := fun a => if (a - page).toNat < 4096 then 0 else mem a

/-- `palloc_get_page (PAL_ZERO)`, with the page that it finds. -/
def pallocGetPage (found : Option Word) : PagingM (Option Word) :=
  match found with
  | none => return none
  | some page => do
    modify (zeroPage page)
    return some page

/-- The last part of `lookup_page`. -/
def lookupTable (pde vaddr : Word) : PagingM (Option Word) := do
  let mem ← get
  let pt ← pdeGetPt (mem pde)
  return some (slot pt (ptNo vaddr).toNat)

/-- `lookup_page`; `found` is the page that `palloc_get_page` finds, if it is asked. -/
def lookupPage (found : Option Word) (pd vaddr : Word) (create : Bool) : PagingM (Option Word) := do
  assert (pd ≠ 0)
  assert (create = false ∨ isUserVaddr vaddr)
  let pde := slot pd (pdNo vaddr).toNat
  let mem ← get
  if mem pde = 0 then
    if create then
      match ← pallocGetPage found with
      | none => return none
      | some pt =>
        store pde (← pdeCreate pt)
        lookupTable pde vaddr
    else return none
  else lookupTable pde vaddr

/-- `pagedir_set_page`, in a machine with `ramPages` pages and the kernel's directory at
`initPageDir`. -/
def pagedirSetPage (initPageDir : Word) (ramPages : ℕ) (found : Option Word) (pd upage kpage : Word)
    (writable : Bool) : PagingM Bool := do
  assert (pgOfs upage = 0)
  assert (pgOfs kpage = 0)
  assert (isUserVaddr upage)
  assert (((← vtop kpage) >>> 12).toNat < ramPages)
  assert (pd ≠ initPageDir)
  match ← lookupPage found pd upage true with
  | some pte =>
    assert ((← get) pte &&& pteP = 0)
    store pte (← pteCreateUser kpage writable)
    return true
  | none => return false

/-- `pagedir_get_page`. -/
def pagedirGetPage (pd uaddr : Word) : PagingM Word := do
  assert (isUserVaddr uaddr)
  match ← lookupPage none pd uaddr false with
  | some pte =>
    let mem ← get
    if mem pte &&& pteP ≠ 0 then return (← pteGetPage (mem pte)) + pgOfs uaddr
    else return 0
  | none => return 0

/-- `pagedir_clear_page`; it also flushes the TLB, which is not modelled. -/
def pagedirClearPage (pd upage : Word) : PagingM Unit := do
  assert (pgOfs upage = 0)
  assert (isUserVaddr upage)
  match ← lookupPage none pd upage false with
  | some pte =>
    let mem ← get
    if mem pte &&& pteP ≠ 0 then store pte (mem pte &&& ~~~pteP)
    else return ()
  | none => return ()

/-- `pagedir_is_dirty` and `pagedir_is_accessed`, by the bit they look at. -/
def pagedirIsFlag (flag pd vpage : Word) : PagingM Bool := do
  match ← lookupPage none pd vpage false with
  | some pte => return (← get) pte &&& flag ≠ 0
  | none => return false

/-- `pagedir_set_dirty` and `pagedir_set_accessed`, by the bit they set. -/
def pagedirSetFlag (flag pd vpage : Word) (value : Bool) : PagingM Unit := do
  match ← lookupPage none pd vpage false with
  | some pte =>
    let mem ← get
    if value then store pte (mem pte ||| flag)
    else store pte (mem pte &&& ~~~flag)
  | none => return ()

/-- `pagedir_is_dirty`. -/
def pagedirIsDirty (pd vpage : Word) : PagingM Bool := pagedirIsFlag pteD pd vpage

/-- `pagedir_set_dirty`. -/
def pagedirSetDirty (pd vpage : Word) (dirty : Bool) : PagingM Unit := pagedirSetFlag pteD pd vpage dirty

/-- `pagedir_is_accessed`. -/
def pagedirIsAccessed (pd vpage : Word) : PagingM Bool := pagedirIsFlag pteA pd vpage

/-- `pagedir_set_accessed`. -/
def pagedirSetAccessed (pd vpage : Word) (accessed : Bool) : PagingM Unit :=
  pagedirSetFlag pteA pd vpage accessed

/-! ## The directory in memory -/

/-- The table that entry `i` of the directory points to. -/
def tableAt (mem : Words) (pd : Word) (i : ℕ) : Word := frameAt (ofWord (mem (slot pd i))).page

/-- A directory and its tables: entries that are not zero point to different pages. -/
structure Laid (mem : Words) (pd : Word) : Prop where
  page : IsPage pd
  present : ∀ i < 1024, mem (slot pd i) ≠ 0 → (ofWord (mem (slot pd i))).present = true
  frame : ∀ i < 1024, mem (slot pd i) ≠ 0 → (ofWord (mem (slot pd i))).page < 2 ^ 18
  ne : ∀ i < 1024, mem (slot pd i) ≠ 0 → tableAt mem pd i ≠ pd
  inj : ∀ i < 1024, ∀ j < 1024, mem (slot pd i) ≠ 0 → mem (slot pd j) ≠ 0 →
    tableAt mem pd i = tableAt mem pd j → i = j

def pageTableOf (mem : Words) (pt : Word) : PageTable := fun j =>
  if j < 1024 then ofWord (mem (slot pt j)) else Pte.zero

/-- The directory in memory, as a directory of records. -/
def pageDirOf (mem : Words) (pd : Word) : PageDir := fun i =>
  if i < 1024 ∧ mem (slot pd i) ≠ 0 then some (pageTableOf mem (tableAt mem pd i)) else none

section

variable {mem mem' : Words} {pd page p q va w : Word} {i j : ℕ}

lemma isPage_frameAt {n : ℕ} (hn : n < 2 ^ 18) : IsPage (frameAt n) := by
  have hnat : (frameAt n).toNat = Pintos.physBase + 4096 * n := by
    rw [frameAt, BitVec.toNat_ofNat]
    rw [Pintos.physBase]
    omega
  refine ⟨BitVec.eq_of_toNat_eq ?_, ?_⟩
  · rw [toNat_pgOfs, hnat, Pintos.pgOfs, Pintos.physBase, pgSize]
    show _ = 0
    omega
  · rw [hnat]
    exact Nat.le_add_right ..

lemma toNat_slot (h : IsPage page) (hi : i < 1024) : (slot page i).toNat = page.toNat + 4 * i := by
  have hdvd := h.dvd
  rw [slot, BitVec.toNat_add, BitVec.toNat_ofNat]
  omega

lemma slot_inj (hp : IsPage p) (hq : IsPage q) (hi : i < 1024) (hj : j < 1024)
    (h : slot p i = slot q j) : p = q ∧ i = j := by
  have hnat := congrArg BitVec.toNat h
  rw [toNat_slot hp hi, toNat_slot hq hj] at hnat
  have hdp := hp.dvd
  have hdq := hq.dvd
  refine ⟨BitVec.eq_of_toNat_eq ?_, ?_⟩
  · omega
  · omega

lemma pdNo_lt (va : Word) : Pintos.pdNo va.toNat < 1024 := by
  rw [Pintos.pdNo]
  omega

lemma ptNo_lt (va : Word) : Pintos.ptNo va.toNat < 1024 := by
  rw [Pintos.ptNo]
  omega

lemma Laid.isPage_table (h : Laid mem pd) (hi : i < 1024) (hne : mem (slot pd i) ≠ 0) :
    IsPage (tableAt mem pd i) := isPage_frameAt (h.frame i hi hne)

lemma pageDirOf_of_ne (hi : i < 1024) (hne : mem (slot pd i) ≠ 0) :
    pageDirOf mem pd i = some (pageTableOf mem (tableAt mem pd i)) := if_pos ⟨hi, hne⟩

lemma pageDirOf_of_eq (hzero : mem (slot pd i) = 0) : pageDirOf mem pd i = none :=
  if_neg fun h => h.2 hzero

/-! ## Changes of memory -/

lemma Laid.of_eq (h : Laid mem pd) (heq : ∀ i < 1024, mem' (slot pd i) = mem (slot pd i)) :
    Laid mem' pd where
  page := h.page
  present i hi hne := by
    rw [heq i hi] at hne ⊢
    exact h.present i hi hne
  frame i hi hne := by
    rw [heq i hi] at hne ⊢
    exact h.frame i hi hne
  ne i hi hne := by
    rw [tableAt, heq i hi] at *
    exact h.ne i hi hne
  inj i hi j hj hnei hnej := by
    rw [tableAt, tableAt, heq i hi, heq j hj] at *
    exact h.inj i hi j hj hnei hnej

lemma pageDirOf_congr (hentry : i < 1024 → mem' (slot pd i) = mem (slot pd i))
    (htable : i < 1024 → mem (slot pd i) ≠ 0 → ∀ j < 1024,
      mem' (slot (tableAt mem pd i) j) = mem (slot (tableAt mem pd i) j)) :
    pageDirOf mem' pd i = pageDirOf mem pd i := by
  by_cases hi : i < 1024
  · have hat : tableAt mem' pd i = tableAt mem pd i := by rw [tableAt, tableAt, hentry hi]
    by_cases hne : mem (slot pd i) = 0
    · rw [pageDirOf_of_eq hne, pageDirOf_of_eq ((hentry hi).trans hne)]
    · have hne' : mem' (slot pd i) ≠ 0 := by rwa [hentry hi]
      rw [pageDirOf_of_ne hi hne, pageDirOf_of_ne hi hne', hat]
      refine congrArg some (funext fun j => ?_)
      rw [pageTableOf, pageTableOf]
      split_ifs with hj
      · rw [htable hi hne j hj]
      · rfl
  · rw [pageDirOf, pageDirOf, if_neg fun h => hi h.1, if_neg fun h => hi h.1]

/-- An entry of a table is written, and the directory is as if one of its records was. -/
lemma Laid.store (h : Laid mem pd) (hne : mem (slot pd (Pintos.pdNo va.toNat)) ≠ 0) {f : Pte → Pte}
    (hf : f (ofWord (mem (slot (tableAt mem pd (Pintos.pdNo va.toNat)) (Pintos.ptNo va.toNat)))) =
      ofWord w) (hmem : mem' = update mem
        (slot (tableAt mem pd (Pintos.pdNo va.toNat)) (Pintos.ptNo va.toNat)) w) :
    Laid mem' pd ∧ pageDirOf mem' pd = updatePte (pageDirOf mem pd) va.toNat f := by
  have hd := pdNo_lt va
  have ht := ptNo_lt va
  have hpage := h.isPage_table hd hne
  have hsame (i : ℕ) (hi : i < 1024) : mem' (slot pd i) = mem (slot pd i) := by
    rw [hmem]
    refine update_of_ne (fun heq => ?_) ..
    exact h.ne _ hd hne (slot_inj h.page hpage hi ht heq).1.symm
  refine ⟨h.of_eq hsame, funext fun i => ?_⟩
  simp only [updatePte, pageDirOf_of_ne hd hne]
  obtain rfl | hid := eq_or_ne i (Pintos.pdNo va.toNat)
  · have hne' : mem' (slot pd (Pintos.pdNo va.toNat)) ≠ 0 := by rwa [hsame _ hd]
    have hat : tableAt mem' pd (Pintos.pdNo va.toNat) = tableAt mem pd (Pintos.pdNo va.toNat) := by
      rw [tableAt, tableAt, hsame _ hd]
    rw [update_self, pageDirOf_of_ne hd hne', hat]
    refine congrArg some (funext fun j => ?_)
    obtain rfl | hjt := eq_or_ne j (Pintos.ptNo va.toNat)
    · rw [update_self, pageTableOf, if_pos ht, pageTableOf, if_pos ht, hf, hmem,
        update_self]
    · rw [update_of_ne hjt, pageTableOf, pageTableOf]
      split_ifs with hj
      · rw [hmem, update_of_ne fun heq => hjt (slot_inj hpage hpage hj ht heq).2]
      · rfl
  · rw [update_of_ne hid]
    refine pageDirOf_congr (hsame i) fun hi hnei j hj => ?_
    rw [hmem]
    refine update_of_ne (fun heq => hid ?_) ..
    exact h.inj i hi _ hd hnei hne (slot_inj (h.isPage_table hi hnei) hpage hj ht heq).1

/-- A page that is neither the directory nor one of its tables. -/
structure Fresh (mem : Words) (pd page : Word) : Prop where
  isPage : IsPage page
  ne : page ≠ pd
  table : ∀ i < 1024, mem (slot pd i) ≠ 0 → page ≠ tableAt mem pd i

lemma zeroPage_slot_self (hp : IsPage page) (hi : i < 1024) (mem : Words) :
    zeroPage page mem (slot page i) = 0 := by
  have hnat : (slot page i - page).toNat = 4 * i := by
    have hle : page ≤ slot page i := by
      rw [BitVec.le_def, toNat_slot hp hi]
      exact Nat.le_add_right ..
    rw [BitVec.toNat_sub_of_le hle, toNat_slot hp hi]
    omega
  refine if_pos ?_
  omega

lemma zeroPage_slot_of_ne (hp : IsPage p) (hq : IsPage q) (hne : p ≠ q) (hi : i < 1024)
    (mem : Words) : zeroPage p mem (slot q i) = mem (slot q i) := by
  refine if_neg ?_
  have hnat : p.toNat ≠ q.toNat := fun h => hne (BitVec.eq_of_toNat_eq h)
  have hdp := hp.dvd
  have hdq := hq.dvd
  rw [BitVec.toNat_sub, toNat_slot hq hi]
  omega

/-- A table is added, and nothing is in it. -/
lemma Laid.create (h : Laid mem pd) (hd : i < 1024) (hzero : mem (slot pd i) = 0)
    (hfresh : Fresh mem pd page) (hw : ofWord w = ⟨frameNo page, true, true, false, false⟩)
    (hmem : mem' = update (zeroPage page mem) (slot pd i) w) :
    Laid mem' pd ∧ mem' (slot pd i) ≠ 0 ∧
      pageDirOf mem' pd = update (pageDirOf mem pd) i (some fun _ => Pte.zero) := by
  have hself : mem' (slot pd i) = w := by rw [hmem, update_self]
  have hne : w ≠ 0 := by
    rintro rfl
    exact Bool.false_ne_true (congrArg Pte.present hw)
  have hat : tableAt mem' pd i = page := by rw [tableAt, hself, hw, hfresh.isPage.frameAt]
  have hsame (j : ℕ) (hj : j < 1024) (hji : j ≠ i) : mem' (slot pd j) = mem (slot pd j) := by
    rw [hmem, update_of_ne fun heq => hji (slot_inj h.page h.page hj hd heq).2,
      zeroPage_slot_of_ne hfresh.isPage h.page hfresh.ne hj]
  have hatsame (j : ℕ) (hj : j < 1024) (hji : j ≠ i) : tableAt mem' pd j = tableAt mem pd j := by
    rw [tableAt, tableAt, hsame j hj hji]
  refine ⟨⟨h.page, fun j hj hnej => ?_, fun j hj hnej => ?_, fun j hj hnej => ?_,
    fun j hj k hk hnej hnek heq => ?_⟩, hself ▸ hne, funext fun j => ?_⟩
  · obtain rfl | hji := eq_or_ne j i
    · rw [hself, hw]
    · rw [hsame j hj hji] at hnej ⊢
      exact h.present j hj hnej
  · obtain rfl | hji := eq_or_ne j i
    · rw [hself, hw]
      exact hfresh.isPage.frameNo_lt
    · rw [hsame j hj hji] at hnej ⊢
      exact h.frame j hj hnej
  · obtain rfl | hji := eq_or_ne j i
    · rw [hat]
      exact hfresh.ne
    · rw [hsame j hj hji] at hnej
      rw [hatsame j hj hji]
      exact h.ne j hj hnej
  · obtain rfl | hji := eq_or_ne j i
    · obtain rfl | hki := eq_or_ne k j
      · rfl
      · rw [hsame k hk hki] at hnek
        rw [hat, hatsame k hk hki] at heq
        exact absurd heq (hfresh.table k hk hnek)
    · rw [hsame j hj hji] at hnej
      obtain rfl | hki := eq_or_ne k i
      · rw [hat, hatsame j hj hji] at heq
        exact absurd heq.symm (hfresh.table j hj hnej)
      · rw [hsame k hk hki] at hnek
        rw [hatsame j hj hji, hatsame k hk hki] at heq
        exact h.inj j hj k hk hnej hnek heq
  · obtain rfl | hji := eq_or_ne j i
    · rw [update_self, pageDirOf_of_ne hd (hself ▸ hne), hat]
      refine congrArg some (funext fun k => ?_)
      rw [pageTableOf]
      split_ifs with hk
      · rw [hmem, update_of_ne, zeroPage_slot_self hfresh.isPage hk, ofWord_zero]
        exact fun heq => hfresh.ne (slot_inj hfresh.isPage h.page hk hd heq).1
      · rfl
    · rw [update_of_ne hji]
      refine pageDirOf_congr (fun hj => hsame j hj hji) fun hj hnej k hk => ?_
      have hpage := h.isPage_table hj hnej
      rw [hmem, update_of_ne, zeroPage_slot_of_ne hfresh.isPage hpage (hfresh.table j hj hnej) hk]
      exact fun heq => h.ne j hj hnej (slot_inj hpage h.page hk hd heq).1

/-! ## The functions on memory and on records -/

lemma Laid.ne_zero (h : Laid mem pd) : pd ≠ 0 := by
  rintro rfl
  exact absurd h.page.kernel (by decide)

lemma Laid.lookupPage (h : Laid mem pd) (va : Word) :
    Does (lookupPage none pd va false) mem fun r s => s = mem ∧
      (r = none ∧ pageDirOf mem pd (Pintos.pdNo va.toNat) = none ∨
        mem (slot pd (Pintos.pdNo va.toNat)) ≠ 0 ∧
          r = some (slot (tableAt mem pd (Pintos.pdNo va.toNat)) (Pintos.ptNo va.toNat))) := by
  simp only [Paging.lookupPage, assert, does_bind, does_require, does_get, does_ite, toNat_pdNo]
  refine ⟨h.ne_zero, .inl trivial, fun hzero => ⟨Bool.noConfusion, fun _ => ?_⟩, fun hne => ?_⟩
  · exact (does_pure none).mpr ⟨rfl, .inl ⟨rfl, pageDirOf_of_eq hzero⟩⟩
  · have hd := pdNo_lt va
    have hframe := h.frame _ hd hne
    simp only [lookupTable, does_bind, does_get, does_pure, toNat_ptNo]
    exact does_pdeGetPt (h.present _ hd hne) (by omega) ⟨rfl, .inr ⟨hne, rfl⟩⟩

lemma lookupPage_of_ne (hne : mem (slot pd (Pintos.pdNo va.toNat)) ≠ 0) :
    Pintos.lookupPage (pageDirOf mem pd) va.toNat =
      some (ofWord (mem (slot (tableAt mem pd (Pintos.pdNo va.toNat)) (Pintos.ptNo va.toNat)))) := by
  rw [Pintos.lookupPage, pageDirOf_of_ne (pdNo_lt va) hne, map_some, pageTableOf,
    if_pos (ptNo_lt va)]

lemma lookupPage_of_none (hnone : pageDirOf mem pd (Pintos.pdNo va.toNat) = none) :
    Pintos.lookupPage (pageDirOf mem pd) va.toNat = none := by
  rw [Pintos.lookupPage, hnone, map_none]

lemma updatePte_of_none {f : Pte → Pte} (hnone : pageDirOf mem pd (Pintos.pdNo va.toNat) = none) :
    updatePte (pageDirOf mem pd) va.toNat f = pageDirOf mem pd := by
  rw [updatePte, hnone]

section

variable (h : Laid mem pd)

include h

lemma Laid.lookupPage_create (huser : isUserVaddr va = true) {found : Option Word}
    (hfound : ∀ pt, found = some pt → Fresh mem pd pt) :
    Does (Paging.lookupPage found pd va true) mem fun r s =>
      (r = none ∧ s = mem ∧ createTable (pageDirOf mem pd) va.toNat found.isSome = none) ∨
      ∃ dir, createTable (pageDirOf mem pd) va.toNat found.isSome = some dir ∧ Laid s pd ∧
        pageDirOf s pd = dir ∧ s (slot pd (Pintos.pdNo va.toNat)) ≠ 0 ∧
        r = some (slot (tableAt s pd (Pintos.pdNo va.toNat)) (Pintos.ptNo va.toNat)) := by
  have hd := pdNo_lt va
  have htable (s : Words) (hs : Laid s pd) (hne : s (slot pd (Pintos.pdNo va.toNat)) ≠ 0) :
      Does (lookupTable (slot pd (Pintos.pdNo va.toNat)) va) s fun r s' => s' = s ∧
        r = some (slot (tableAt s pd (Pintos.pdNo va.toNat)) (Pintos.ptNo va.toNat)) := by
    have hframe := hs.frame _ hd hne
    simp only [lookupTable, does_bind, does_get, does_pure, toNat_ptNo]
    exact does_pdeGetPt (hs.present _ hd hne) (by omega) ⟨rfl, rfl⟩
  simp only [Paging.lookupPage, assert, does_bind, does_require, does_get, does_ite, toNat_pdNo]
  refine ⟨h.ne_zero, .inr huser, fun hzero => ⟨fun _ => ?_, fun h => absurd trivial h⟩, fun hne => ?_⟩
  · cases found with
    | none =>
      simp only [pallocGetPage, does_pure]
      refine .inl ⟨trivial, trivial, ?_⟩
      simp only [createTable, pageDirOf_of_eq hzero, isSome_none]
    | some pt =>
      have hfresh := hfound pt rfl
      simp only [pallocGetPage, does_bind, does_modify, does_pure]
      refine (does_pdeCreate hfresh.isPage).mono ?_
      rintro w _ ⟨rfl, hw⟩
      simp only [Paging.store, does_modify]
      obtain ⟨hlaid, hne, hdir⟩ := h.create hd hzero hfresh hw rfl
      refine (htable _ hlaid hne).mono ?_
      rintro r s ⟨rfl, hr⟩
      refine .inr ⟨_, ?_, hlaid, hdir, hne, hr⟩
      simp only [createTable, pageDirOf_of_eq hzero, isSome_some]
  · refine (htable mem h hne).mono ?_
    rintro r s ⟨rfl, hr⟩
    refine .inr ⟨_, ?_, h, rfl, hne, hr⟩
    simp only [createTable, pageDirOf_of_ne hd hne]

lemma Laid.pagedirSetPage {initPageDir upage kpage : Word} {ramPages : ℕ}
    (haligned : pgOfs upage = 0) (huser : isUserVaddr upage = true) (hkpage : IsPage kpage)
    (hram : frameNo kpage < ramPages) (hinit : pd ≠ initPageDir) {found : Option Word}
    (hfound : ∀ pt, found = some pt → Fresh mem pd pt)
    (hfree : (pteAt (pageDirOf mem pd) (pgNo upage.toNat)).present = false) (writable : Bool) :
    Does (Paging.pagedirSetPage initPageDir ramPages found pd upage kpage writable) mem fun r s =>
      (r = false ∧ s = mem ∧ Pintos.pagedirSetPage (pageDirOf mem pd) upage.toNat (frameNo kpage)
        writable found.isSome = none) ∨
      r = true ∧ Laid s pd ∧ Pintos.pagedirSetPage (pageDirOf mem pd) upage.toNat (frameNo kpage)
        writable found.isSome = some (pageDirOf s pd) := by
  have hpages : ((kpage - physBase) >>> 12).toNat = frameNo kpage := by
    rw [BitVec.toNat_ushiftRight, hkpage.toNat_sub, Nat.shiftRight_eq_div_pow]
    rfl
  simp only [Paging.pagedirSetPage, assert, does_bind, does_require]
  refine ⟨haligned, hkpage.aligned, huser, does_vtop hkpage ⟨hpages ▸ hram, hinit, ?_⟩⟩
  refine (h.lookupPage_create huser hfound).mono ?_
  rintro r s (⟨rfl, rfl, hcreate⟩ | ⟨dir, hcreate, hlaid, rfl, hne, rfl⟩)
  · refine (does_pure false).mpr (.inl ⟨rfl, rfl, ?_⟩)
    rw [Pintos.pagedirSetPage, hcreate, map_none]
  · have hpte := pteAt_createTable hcreate (pgNo upage.toNat)
    rw [pteAt_pgNo, lookupPage_of_ne hne, getD_some] at hpte
    simp only [does_bind, does_get, does_require]
    refine ⟨?_, ?_⟩
    · refine Decidable.byContradiction fun hpresent => ?_
      rw [← Ne, pteP_ne_zero, hpte, hfree] at hpresent
      cases hpresent
    · refine (does_pteCreateUser hkpage writable).mono ?_
      rintro w _ ⟨rfl, hw⟩
      simp only [Paging.store, does_modify, does_pure]
      obtain ⟨hstored, hdir⟩ := hlaid.store hne (f := fun _ => Pintos.pteCreateUser _ _) hw.symm rfl
      refine .inr ⟨trivial, hstored, ?_⟩
      rw [Pintos.pagedirSetPage, hcreate, map_some, hdir]

lemma Laid.pagedirClearPage {upage : Word} (haligned : pgOfs upage = 0)
    (huser : isUserVaddr upage = true) : Does (Paging.pagedirClearPage pd upage) mem fun _ s =>
      Laid s pd ∧ pageDirOf s pd = Pintos.pagedirClearPage (pageDirOf mem pd) upage.toNat := by
  simp only [Paging.pagedirClearPage, assert, does_bind, does_require]
  refine ⟨haligned, huser, (h.lookupPage upage).mono ?_⟩
  rintro r _ ⟨rfl, ⟨rfl, hnone⟩ | ⟨hne, rfl⟩⟩
  · exact (does_pure ()).mpr ⟨h, (updatePte_of_none hnone).symm⟩
  · simp only [does_bind, does_get, does_ite, Paging.store, does_modify, does_pure]
    refine ⟨fun _ => ?_, fun hpresent => ?_⟩
    · exact h.store hne (ofWord_and_not_pteP _).symm rfl
    · -- the entry is not present, so that clearing it changes nothing
      have hstored := h.store hne (f := fun pte => { pte with present := false }) ?_
        (update_eq_self _ _).symm
      · exact hstored
      · rw [not_not, ← not_ne_iff, pteP_ne_zero, Bool.not_eq_true] at hpresent
        rw [← hpresent]

lemma Laid.pagedirSetFlag {flag : Word} {f : Bool → Pte → Pte}
    (hset : ∀ w, ofWord (w ||| flag) = f true (ofWord w))
    (hclear : ∀ w, ofWord (w &&& ~~~flag) = f false (ofWord w)) (vpage : Word) (value : Bool) :
    Does (Paging.pagedirSetFlag flag pd vpage value) mem fun _ s =>
      Laid s pd ∧ pageDirOf s pd = updatePte (pageDirOf mem pd) vpage.toNat (f value) := by
  simp only [Paging.pagedirSetFlag, does_bind]
  refine (h.lookupPage vpage).mono ?_
  rintro r _ ⟨rfl, ⟨rfl, hnone⟩ | ⟨hne, rfl⟩⟩
  · exact (does_pure ()).mpr ⟨h, (updatePte_of_none hnone).symm⟩
  · cases value
    · simp only [does_bind, does_get, Paging.store, does_modify, Bool.false_eq_true, if_false]
      exact h.store hne (hclear _).symm rfl
    · simp only [does_bind, does_get, Paging.store, does_modify, if_true]
      exact h.store hne (hset _).symm rfl

lemma Laid.pagedirGetPage {uaddr : Word} (huser : isUserVaddr uaddr = true)
    (hframe : ∀ n, Pintos.pagedirGetPage (pageDirOf mem pd) uaddr.toNat = some n → n < 2 ^ 18) :
    Does (Paging.pagedirGetPage pd uaddr) mem fun r s => s = mem ∧
      r = ((Pintos.pagedirGetPage (pageDirOf mem pd) uaddr.toNat).elim 0
        fun n => frameAt n + pgOfs uaddr) := by
  simp only [Paging.pagedirGetPage, assert, does_bind, does_require]
  refine ⟨huser, (h.lookupPage uaddr).mono ?_⟩
  rintro r _ ⟨rfl, ⟨rfl, hnone⟩ | ⟨hne, rfl⟩⟩
  · refine (does_pure 0).mpr ⟨rfl, ?_⟩
    rw [Pintos.pagedirGetPage, lookupPage_of_none hnone]
    rfl
  · simp only [Pintos.pagedirGetPage, lookupPage_of_ne hne] at hframe ⊢
    simp only [does_bind, does_get, does_ite, does_pure, pteP_ne_zero]
    refine ⟨fun hpresent => ?_, fun hpresent => ⟨trivial, ?_⟩⟩
    · rw [if_pos hpresent] at hframe ⊢
      have hlt := hframe _ rfl
      exact does_ptov _ (by omega) ⟨rfl, rfl⟩
    · rw [if_neg hpresent]
      rfl

lemma Laid.pagedirIsFlag {flag : Word} {f : Pte → Bool}
    (hflag : ∀ w, w &&& flag ≠ 0 ↔ f (ofWord w) = true) (vpage : Word) :
    Does (Paging.pagedirIsFlag flag pd vpage) mem fun r s => s = mem ∧
      r = (Pintos.lookupPage (pageDirOf mem pd) vpage.toNat).any f := by
  simp only [Paging.pagedirIsFlag, does_bind]
  refine (h.lookupPage vpage).mono ?_
  rintro r _ ⟨rfl, ⟨rfl, hnone⟩ | ⟨hne, rfl⟩⟩
  · refine (does_pure false).mpr ⟨rfl, ?_⟩
    rw [lookupPage_of_none hnone]
    rfl
  · simp only [does_bind, does_get, does_pure]
    refine ⟨trivial, ?_⟩
    rw [lookupPage_of_ne hne, Bool.eq_iff_iff, decide_eq_true_iff]
    exact hflag _

end

end

end Paging

end Pintos
