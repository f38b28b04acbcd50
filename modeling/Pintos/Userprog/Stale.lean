import Pintos.Userprog.Arguments
import Pintos.Vm.Effects

/-!
# Userprog/Stale — what was in a frame before

`get_user_page` returns a frame as it finds it. `setup_stack` writes the arguments at its end;
`page_fault` reads as much as the SPT entry says and the file has, and without an entry nothing. Two
runs that differ in the frame's old bytes only show the same page just when an SPT entry accounts
for every byte of it and the file is long enough.
-/

namespace Pintos

open Machinery Function EStateM Vm Nat

/-! ## After `get_user_page` -/

/-- `setup_stack` from there on, up to the arguments. -/
def mapStackPage (alloc : ℕ → Bool) (t kpage : ℕ) : Kern Bool := do
  let inserted ← createSPTEntry t stackPage
    (SptEntry.create stackPage true 0 0 0 true (Nat.zero_le _))
  if inserted then modify fun s => s.modifySpte t stackPage fun e => { e with isStackPage := true }
  installPage alloc t stackPage kpage true

lemma setupStackPage_eq (alloc : ℕ → Bool) (t : ℕ) :
    setupStackPage alloc t = getUserPage alloc t stackPage >>= mapStackPage alloc t := rfl

/-- The stack growth branch of `page_fault` from there on. -/
def mapGrown (alloc : ℕ → Bool) (t pageStart kpage : ℕ) : Kern Unit := do
  if ← installPage alloc t pageStart kpage true then pure () else throw (.exit (-1))

namespace Vm

def setFrame (s : Vm) (kpage : ℕ) (p : Page) : Vm :=
  { s with frames := update s.frames kpage p }

/-- The page that process `t` sees at `va`. -/
def pageAt (s : Vm) (t va : ℕ) : Page := s.frames (s.pte t (pgNo va)).page

/-- …after a call that went well. -/
def pageAfter {α : Type} (t va : ℕ) : EStateM.Result Stop Vm α → Option Page
  | .ok _ s => some (s.pageAt t va)
  | .error _ _ => none

end Vm

/-- A page in memory, and what is around it. -/
def pageInMemory (va : ℕ) (p : Page) (rest : ℕ → UInt8) (a : ℕ) : UInt8 :=
  if h : va ≤ a ∧ a - va < pgSize then p ⟨a - va, h.2⟩ else rest a

/-- How a page comes to a process, once `get_user_page` has returned. -/
inductive Arrival where
  /-- `setup_stack`, with its `arg_array`; `rest` is the memory around the page. -/
  | setupStack (argArray rest : ℕ → UInt8)
  /-- `page_fault` on a page with an SPT entry, and not in swap -/
  | file (va : ℕ)
  /-- `page_fault` on a page of the growing stack -/
  | growth (va : ℕ)

namespace Arrival

/-- The page that the process then sees, if it sees one, with `stale` in the frame `kpage`
before. -/
def shown (alloc : ℕ → Bool) (t kpage : ℕ) (s : Vm) (stale : Page) : Arrival → Option Page
  | .setupStack argArray rest =>
    match (mapStackPage alloc t kpage).run (s.setFrame kpage stale) with
    | .ok installed s' =>
      let r := Arguments.setupStack installed physBase argArray
        (pageInMemory stackPage (s'.pageAt t stackPage) rest)
      if r.success then some fun i => r.stack.mem (stackPage + i) else none
    | .error _ _ => none
  | .file va => match s.spte t (pgNo va) with
    | some e => if e.fromSwap then none
      else Vm.pageAfter t va ((loadPage alloc t va kpage).run (s.setFrame kpage stale))
    | none => none
  | .growth va => Vm.pageAfter t va ((mapGrown alloc t va kpage).run (s.setFrame kpage stale))

/-- What the page should be: bytes of the file and then zeros, or zeros but for the arguments, or
zeros. -/
def Clean (t : ℕ) (s : Vm) : Arrival → Page → Prop
  | .setupStack argArray _, page => ∀ i : Fin pgSize,
      stackPage + i ∉ (Arguments.setupStack true physBase argArray fun _ => 0).stack.written → page i = 0
  | .file va, page => ∃ e, s.spte t (pgNo va) = some e ∧ ∀ i : Fin pgSize,
      (i < e.pageReadBytes → (s.procs t).executable[e.ofs + i]? = some (page i)) ∧
        (e.pageReadBytes ≤ i → page i = 0)
  | .growth _, page => ∀ i, page i = 0

/-- No stale byte is seen: the page is what it should be, whatever was in the frame. -/
def Fresh (alloc : ℕ → Bool) (t kpage : ℕ) (s : Vm) (a : Arrival) : Prop :=
  ∀ stale page, a.shown alloc t kpage s stale = some page →
    a.Clean t s page ∧ ∀ stale', a.shown alloc t kpage s stale' = some page

/-- The page has an SPT entry that accounts for all of it, and the file has the bytes to be read. -/
def Covered (t : ℕ) (s : Vm) : Arrival → Prop
  | .setupStack _ _ => False
  | .file va => ∃ e, s.spte t (pgNo va) = some e ∧ e.pageReadBytes + e.pageZeroBytes = pgSize ∧
      (e.pageReadBytes = 0 ∨ e.ofs + e.pageReadBytes ≤ (s.procs t).executable.length)
  | .growth _ => False

end Arrival

/-! ## Mapping the page -/

/-- The page directory with the page in it, if it can be mapped. -/
def mapping (alloc : ℕ → Bool) (pd : PageDir) (va kpage : ℕ) (writable : Bool) : Option PageDir :=
  match pagedirGetPage pd va with
  | some _ => none
  | none => pagedirSetPage pd va kpage writable (alloc (pdNo va))

variable {alloc : ℕ → Bool} {s : Vm} {t va kpage : ℕ} {stale : Page} {e : SptEntry}

lemma installPage_mapping (s : Vm) (writable : Bool) :
    (installPage alloc t va kpage writable).run s =
      match mapping alloc (s.procs t).pagedir va kpage writable with
      | some pd => .ok true (s.setPagedir t pd)
      | none => .ok false s := by
  simp only [installPage, mapping, run_bind, run_get]
  cases pagedirGetPage (s.procs t).pagedir va with
  | some _ => rfl
  | none =>
    cases pagedirSetPage (s.procs t).pagedir va kpage writable (alloc (pdNo va)) with
    | some pd => rfl
    | none => rfl

lemma pageAt_of_mapping {writable : Bool} {pd : PageDir}
    (h : mapping alloc (s.procs t).pagedir va kpage writable = some pd) :
    (s.setPagedir t pd).pageAt t va = s.frames kpage := by
  rw [mapping] at h
  cases hget : pagedirGetPage (s.procs t).pagedir va with
  | some _ =>
    rw [hget] at h
    cases h
  | none =>
    rw [hget] at h
    rw [pageAt, pte_of_set h, if_pos ⟨rfl, rfl⟩]
    rfl

lemma pageAt_modifySpte {p v : ℕ} (f : SptEntry → SptEntry) :
    (s.modifySpte t va f).pageAt p v = s.pageAt p v := by
  rw [pageAt, frames_modifySpte, pte_modifySpte, pageAt]

lemma mapStackPage_run (alloc : ℕ → Bool) (t kpage : ℕ) (s : Vm) : ∃ s₁ : Vm, s₁.frames = s.frames ∧
    (s₁.procs t).pagedir = (s.procs t).pagedir ∧ s₁.ft = s.ft ∧ s₁.swap = s.swap ∧
    (mapStackPage alloc t kpage).run s = (installPage alloc t stackPage kpage true).run s₁ := by
  have huser : isUserVaddr stackPage = true := by decide
  rw [mapStackPage, run_bind, createSPTEntry_run]
  cases (s.spte t (pgNo stackPage)).isNone with
  | false => exact ⟨s.setSpTable t _, rfl, pagedir_setSpTable .., rfl, rfl, rfl⟩
  | true =>
    refine ⟨(s.setSpTable t _).modifySpte t stackPage _, rfl, ?_, rfl, rfl, rfl⟩
    rw [pagedir_modifySpte, pagedir_setSpTable]

/-! ## What is shown -/

namespace Arrival

lemma shown_file (he : s.spte t (pgNo va) = some e) (hfile : e.fromSwap = false) :
    (Arrival.file va).shown alloc t kpage s stale =
      (mapping alloc (s.procs t).pagedir va kpage e.writable).map fun _ =>
        e.fileImage (s.procs t).executable stale := by
  have hfetch : (fetchPage t va kpage e).run (s.setFrame kpage stale) =
      .ok () ((s.setFrame kpage stale).readExecutable t kpage e) := by
    rw [fetchPage, if_neg (Bool.eq_false_iff.mp hfile)]
    rfl
  have hspte : (s.setFrame kpage stale).spte t (pgNo va) = some e := he
  have hframe : ((s.setFrame kpage stale).readExecutable t kpage e).frames kpage =
      e.fileImage (s.procs t).executable stale := by
    have hstale : (s.setFrame kpage stale).frames kpage = stale := update_self ..
    rw [readExecutable, hstale]
    exact update_self ..
  simp only [shown, he, hfile, Bool.false_eq_true, if_false, loadPage, run_bind, run_get,
    hspte, hfetch, mapPage, installPage_mapping]
  have hpd : (((s.setFrame kpage stale).readExecutable t kpage e).procs t).pagedir =
      (s.procs t).pagedir := rfl
  cases hmap : mapping alloc (s.procs t).pagedir va kpage e.writable with
  | none =>
    rw [hpd, hmap]
    rfl
  | some pd =>
    rw [← hpd] at hmap
    rw [hmap]
    show some (pageAt (modifySpte _ t va _) t va) = some _
    rw [pageAt_modifySpte, pageAt_of_mapping hmap, hframe]

lemma shown_growth : (Arrival.growth va).shown alloc t kpage s stale =
    (mapping alloc (s.procs t).pagedir va kpage true).map fun _ => stale := by
  have hpd : ((s.setFrame kpage stale).procs t).pagedir = (s.procs t).pagedir := rfl
  simp only [shown, mapGrown, run_bind, installPage_mapping]
  cases hmap : mapping alloc (s.procs t).pagedir va kpage true with
  | none =>
    rw [hpd, hmap]
    rfl
  | some pd =>
    rw [← hpd] at hmap
    rw [hmap]
    have hstale : (s.setFrame kpage stale).frames kpage = stale := update_self ..
    show some _ = some _
    rw [pageAt_of_mapping hmap, hstale]

/-- The stack page with the arguments in it. -/
def stackImage (argArray rest : ℕ → UInt8) (stale : Page) : Page := fun i =>
  (Arguments.setupStack true physBase argArray (pageInMemory stackPage stale rest)).stack.mem (stackPage + i)

lemma shown_setupStack {argArray rest : ℕ → UInt8} :
    (Arrival.setupStack argArray rest).shown alloc t kpage s stale =
      if (mapping alloc (s.procs t).pagedir stackPage kpage true).isSome ∧
        Arguments.scan argArray pgSize 0 ≤ pgSize - Arguments.actualThreadSize
      then some (stackImage argArray rest stale) else none := by
  obtain ⟨s₁, hframes, hpd, -, -, hrun⟩ := mapStackPage_run alloc t kpage (s.setFrame kpage stale)
  have hstale : s₁.frames kpage = stale := by
    rw [hframes]
    exact update_self ..
  have hpd' : (s₁.procs t).pagedir = (s.procs t).pagedir := hpd
  have hsuccess := fun installed mem =>
    Arguments.setupStack_success installed physBase argArray mem
  simp only [shown, hrun, installPage_mapping, hpd']
  cases hmap : mapping alloc (s.procs t).pagedir stackPage kpage true with
  | none =>
    show (if _ then _ else none) = _
    rw [if_neg fun h => Bool.false_ne_true ((hsuccess _ _).mp h).1, if_neg fun h => Bool.false_ne_true h.1]
  | some pd =>
    rw [← hpd'] at hmap
    show (if (Arguments.setupStack true physBase argArray (pageInMemory stackPage
      ((s₁.setPagedir t pd).pageAt t stackPage) rest)).success = true then _ else none) = _
    rw [pageAt_of_mapping hmap, hstale]
    exact if_congr (hsuccess _ _) rfl rfl

end Arrival

/-! ## The word that is skipped -/

namespace Arguments

lemma pushAddresses_within (n idx myCpp argc : ℕ) (s : Stack) (hcpp : 4 * n ≤ myCpp)
    (hlt : myCpp < 2 ^ 32) :
    Within (myCpp + 4 - 4 * n) (myCpp + 4) s (pushAddresses n idx myCpp argc s).2.2 ∧
      myCpp - 4 * n ≤ (pushAddresses n idx myCpp argc s).1 ∧
      (pushAddresses n idx myCpp argc s).1 ≤ myCpp := by
  induction n generalizing idx myCpp argc s with
  | zero => exact ⟨.refl _ _ _, sub_le .., le_rfl⟩
  | succ n ih =>
    rw [pushAddresses]
    split_ifs
    · have hput := within_putWord s myCpp (minus physBase idx + 1)
      rw [minus_eq (by omega) hlt]
      obtain ⟨hwithin, hle, hge⟩ := ih (idx + 1) (myCpp - 4) (argc + 1)
        (s.putWord myCpp (minus physBase idx + 1)) (by omega) (by omega)
      exact ⟨(hput.mono (by omega) le_rfl).trans (hwithin.mono (by omega) (by omega)), by omega, by omega⟩
    · obtain ⟨hwithin, hle, hge⟩ := ih (idx + 1) myCpp argc s (by omega) hlt
      exact ⟨hwithin.mono (by omega) le_rfl, by omega, hge⟩

/-- `argv[argc]` is left as it was. -/
lemma setupStack_skips {argArray : ℕ → UInt8} (esp : ℕ)
    (hscan : scan argArray pgSize 0 ≤ pgSize - actualThreadSize) :
    ∃ i : Fin pgSize, ∀ mem,
      (setupStack true esp argArray mem).stack.mem (stackPage + i) = mem (stackPage + i) ∧
      stackPage + i ∉ (setupStack true esp argArray mem).stack.written := by
  have hlimit : pgSize - actualThreadSize = 3924 := rfl
  have hpage : stackPage = physBase - 4096 := rfl
  have hphys : physBase = 3221225472 := rfl
  generalize hlen : scan argArray pgSize 0 = len at hscan
  have hrem : 0 < 4 - len % 4 ∧ 4 - len % 4 ≤ 4 := by omega
  refine ⟨⟨4096 - len - (4 - len % 4) - 4, show _ < 4096 by omega⟩, fun mem => ?_⟩
  show (setupStack true esp argArray mem).stack.mem (stackPage + (4096 - len - (4 - len % 4) - 4)) =
    mem (stackPage + (4096 - len - (4 - len % 4) - 4)) ∧
    stackPage + (4096 - len - (4 - len % 4) - 4) ∉ (setupStack true esp argArray mem).stack.written
  rw [setupStack_eq esp mem hlen hscan]
  generalize 4 - len % 4 = remain at hrem ⊢
  have haddr : stackPage + (4096 - len - remain - 4) = physBase - len - remain - 4 := by omega
  have htop : minus (minus (minus physBase len) remain) 8 = physBase - len - remain - 8 := by
    rw [minus_eq (show len ≤ physBase by omega) (by omega),
      minus_eq (show remain ≤ physBase - len by omega) (by omega), minus_eq (by omega) (by omega)]
  obtain ⟨hstrings, -, -⟩ := pad_copyStrings_spec argArray (show len + remain ≤ physBase by omega)
    ⟨mem, []⟩
  rw [haddr, htop]
  generalize pad _ remain _ = s₁ at hstrings ⊢
  obtain ⟨haddresses, hlow, hhigh⟩ := pushAddresses_within len 2 (physBase - len - remain - 8) 0 s₁
    (by omega) (by omega)
  generalize pushAddresses len 2 (physBase - len - remain - 8) 0 s₁ = pushed at haddresses hlow hhigh ⊢
  obtain ⟨myCpp, argc, s₂⟩ := pushed
  dsimp only at haddresses hlow hhigh
  have hargv := within_putWord s₂ myCpp (myCpp + 4)
  have hargc := within_putWord (s₂.putWord myCpp (myCpp + 4)) (minus myCpp 4) argc
  have hbelow : minus myCpp 4 = myCpp - 4 := minus_eq (by omega) (by omega)
  -- all that is written after the padding is below the word
  have hwithin : Within 0 (physBase - len - remain - 4) s₁
      ((s₂.putWord myCpp (myCpp + 4)).putWord (minus myCpp 4) argc) :=
    ((haddresses.mono (zero_le _) (by omega)).trans (hargv.mono (zero_le _) (by omega))).trans
      (hargc.mono (zero_le _) (by omega))
  constructor
  · exact (hwithin.mem _ (.inr le_rfl)).trans (hstrings.mem _ (.inl (by omega)))
  · intro hwritten
    obtain hbefore | hin := hwithin.written _ hwritten
    · obtain hnone | hin := hstrings.written _ hbefore
      · cases hnone
      · omega
    · omega

end Arguments

/-! ## Two runs -/

lemma pageInMemory_self (va : ℕ) (p : Page) (rest : ℕ → UInt8) (i : Fin pgSize) :
    pageInMemory va p rest (va + i) = p i := by
  have hi : va ≤ va + i ∧ va + i - va < pgSize := by
    rw [Nat.add_sub_cancel_left]
    exact ⟨Nat.le_add_right .., i.isLt⟩
  rw [pageInMemory, dif_pos hi]
  congr 1
  exact Fin.ext (Nat.add_sub_cancel_left ..)

lemma SptEntry.fileImage_of_covered {executable : List UInt8}
    (hall : e.pageReadBytes + e.pageZeroBytes = pgSize)
    (hlen : e.pageReadBytes = 0 ∨ e.ofs + e.pageReadBytes ≤ executable.length) (stale : Page)
    (i : Fin pgSize) : e.fileImage executable stale i =
      if i.val < e.pageReadBytes then executable.getD (e.ofs + i) 0 else 0 := by
  have hi := i.isLt
  rw [SptEntry.fileImage]
  split_ifs with hread hzero hlt hlt
  · rfl
  · omega
  · omega
  · rfl
  · omega
  · omega

namespace Arrival

lemma file_fresh_iff (he : s.spte t (pgNo va) = some e)
    (hshown : ∀ stale, (Arrival.file va).shown alloc t kpage s stale =
      some (e.fileImage (s.procs t).executable stale)) :
    (Arrival.file va).Fresh alloc t kpage s ↔ (Arrival.file va).Covered t s := by
  have hfits := e.fits
  constructor
  · intro hfresh
    obtain ⟨⟨e', he', hclean⟩, -⟩ := hfresh (fun _ => 1) _ (hshown _)
    cases he.symm.trans he'
    refine ⟨e, he, ?_, ?_⟩
    · -- a byte that is neither read nor cleared
      by_contra hne
      have hlt := Nat.lt_of_le_of_ne hfits hne
      have hzero := (hclean ⟨_, hlt⟩).2 (Nat.le_add_right ..)
      rw [SptEntry.fileImage, if_neg fun h => Nat.not_lt.mpr (Nat.le_add_right ..) h.1,
        if_neg fun h => Nat.lt_irrefl _ h.2] at hzero
      exact absurd hzero (by decide)
    · -- a byte that the file does not have
      by_contra hnot
      obtain ⟨hpos, hlong⟩ := not_or.mp hnot
      have hlt : e.pageReadBytes - 1 < pgSize := by omega
      have hget := (hclean ⟨_, hlt⟩).1 (Nat.sub_lt (Nat.pos_of_ne_zero hpos) Nat.one_pos)
      obtain ⟨hin, -⟩ := List.getElem?_eq_some_iff.mp hget
      have hin : e.ofs + (e.pageReadBytes - 1) < (s.procs t).executable.length := hin
      omega
  · rintro ⟨e', he', hall, hlen⟩ stale page hpage
    cases he.symm.trans he'
    cases (hshown stale).symm.trans hpage
    refine ⟨⟨e, he, fun i => ⟨fun hi => ?_, fun hi => ?_⟩⟩, fun stale' => ?_⟩
    · have hin : e.ofs + i < (s.procs t).executable.length := by omega
      rw [SptEntry.fileImage_of_covered hall hlen, if_pos hi, List.getD_eq_getElem _ _ hin]
      exact List.getElem?_eq_getElem hin
    · rw [SptEntry.fileImage_of_covered hall hlen, if_neg (Nat.not_lt.mpr hi)]
    · rw [hshown stale']
      congr 1
      funext i
      rw [SptEntry.fileImage_of_covered hall hlen, SptEntry.fileImage_of_covered hall hlen]

/-- **No stale memory reaches user space** just if an SPT entry accounts for the whole page, and the
file is long enough. -/
theorem no_stale_memory_iff (alloc : ℕ → Bool) (t kpage : ℕ) (s : Vm) (a : Arrival)
    (hshown : ∃ stale page, a.shown alloc t kpage s stale = some page) :
    a.Fresh alloc t kpage s ↔ a.Covered t s := by
  obtain ⟨stale, page, hshown⟩ := hshown
  cases a with
  | setupStack argArray rest =>
    rw [shown_setupStack] at hshown
    split_ifs at hshown with hmap
    refine iff_of_false (fun hfresh => ?_) id
    obtain ⟨i, hskip⟩ := Arguments.setupStack_skips physBase hmap.2
    have hones := (hfresh (fun _ => 1) _ (by rw [shown_setupStack, if_pos hmap])).1 i (hskip _).2
    rw [stackImage, (hskip _).1, pageInMemory_self] at hones
    exact absurd hones (by decide)
  | growth va =>
    rw [shown_growth] at hshown
    obtain ⟨pd, hmap, -⟩ := Option.map_eq_some_iff.mp hshown
    refine iff_of_false (fun hfresh => ?_) id
    have hones := (hfresh (fun _ => 1) (fun _ => 1) (by rw [shown_growth, hmap]; rfl)).1 ⟨0, by decide⟩
    exact absurd hones (by decide)
  | file va =>
    cases he : s.spte t (pgNo va) with
    | none =>
      simp only [shown, he] at hshown
      cases hshown
    | some e =>
      cases hswap : e.fromSwap with
      | true =>
        simp only [shown, he, hswap, if_true] at hshown
        cases hshown
      | false =>
        rw [shown_file he hswap] at hshown
        obtain ⟨pd, hmap, -⟩ := Option.map_eq_some_iff.mp hshown
        refine file_fresh_iff he fun stale => ?_
        rw [shown_file he hswap, hmap]
        rfl

/-- A process with a program of one byte, on the page at 0x1000. -/
def oneProgram : Vm where
  ft := ⟨1, fun _ => ⟨.full, 0x1000⟩, 0, by decide⟩
  frames := fun _ _ => 0
  procs := fun _ =>
    { pagedir := pagedirCreate
      spTable := update (fun _ => none) 1 (some (.create 0x1000 false 0 1 4095 true (by decide)))
      executable := [0x7f]
      esp := null }
  swap := ⟨0, fun _ => ⟨0, 0⟩, fun _ _ => 0⟩

/-- The page of the program. -/
theorem no_stale_memory_program :
    (∃ stale page, (Arrival.file 0x1000).shown (fun _ => true) 1 0 oneProgram stale = some page) ∧
      (Arrival.file 0x1000).Fresh (fun _ => true) 1 0 oneProgram := by
  have hshown : ∃ stale page,
      (Arrival.file 0x1000).shown (fun _ => true) 1 0 oneProgram stale = some page :=
    ⟨fun _ => 0, _, shown_file rfl rfl⟩
  exact ⟨hshown, (no_stale_memory_iff _ 1 0 oneProgram (.file 0x1000) hshown).mpr
    ⟨_, rfl, rfl, .inr (by decide)⟩⟩

/-- A page of the stack shows what was in the frame, and so does `argv[argc]` of a program that
is called `x`. -/
theorem stale_stack_page :
    ((Arrival.growth 0x2000).shown (fun _ => true) 1 0 oneProgram (fun _ => 1) = some (fun _ => 1) ∧
      ¬ (Arrival.growth 0x2000).Fresh (fun _ => true) 1 0 oneProgram) ∧
    (Arrival.setupStack (fun i => if i = 0 then 0x78 else 0) fun _ => 0).shown (fun _ => true) 1 0
      oneProgram (fun _ => 1) ≠ none ∧
    ¬ (Arrival.setupStack (fun i => if i = 0 then 0x78 else 0) fun _ => 0).Fresh (fun _ => true) 1 0
      oneProgram := by
  have hgrown : (Arrival.growth 0x2000).shown (fun _ => true) 1 0 oneProgram (fun _ => 1) =
      some (fun _ => 1) := shown_growth
  have hscan : Arguments.scan (fun i => if i = 0 then 0x78 else 0) pgSize 0 ≤
      pgSize - Arguments.actualThreadSize := by decide +kernel
  have hset : (Arrival.setupStack (fun i => if i = 0 then 0x78 else 0) fun _ => 0).shown (fun _ => true) 1 0
      oneProgram (fun _ => 1) =
      some (stackImage (fun i => if i = 0 then 0x78 else 0) (fun _ => 0) fun _ => 1) := by
    rw [shown_setupStack, if_pos ⟨rfl, hscan⟩]
  refine ⟨⟨hgrown, fun hfresh => ?_⟩, ?_, fun hfresh => ?_⟩
  · exact absurd ((hfresh _ _ hgrown).1 ⟨0, by decide⟩) (by decide)
  · rw [hset]
    exact Option.some_ne_none _
  · obtain ⟨i, hskip⟩ := Arguments.setupStack_skips physBase hscan
    have hones := (hfresh _ _ hset).1 i (hskip _).2
    rw [stackImage, (hskip _).1, pageInMemory_self] at hones
    exact absurd hones (by decide)

end Arrival

end Pintos
