import Pintos.Userprog.Exception
import Mathlib.Order.CompletePartialOrder
import Mathlib.Data.Set.Lattice

/-!
# Vm/Effects — what each paging function does to the state

One lemma per function: the runs that end well are read backwards into what they changed, and those
that stop keep what they were not allowed to change.
-/

namespace Pintos

open Machinery EStateM Relation Vm

/-! ## The views of an updated state -/

namespace Vm

variable (s : Vm) (t p n va : ℕ) (pd : PageDir) (spt : SpTable) (f : SptEntry → SptEntry)

@[simp] lemma ft_setPagedir : (s.setPagedir t pd).ft = s.ft := rfl

@[simp] lemma swap_setPagedir : (s.setPagedir t pd).swap = s.swap := rfl

@[simp] lemma pte_setPagedir :
    (s.setPagedir t pd).pte p n = if p = t then pteAt pd n else s.pte p n := by
  by_cases h : p = t
  · subst h
    simp [pte, setPagedir]
  · simp [pte, setPagedir, h]

@[simp] lemma spte_setPagedir : (s.setPagedir t pd).spte p n = s.spte p n := by
  by_cases h : p = t
  · subst h
    simp [spte, setPagedir]
  · simp [spte, setPagedir, h]

@[simp] lemma executable_setPagedir :
    ((s.setPagedir t pd).procs p).executable = (s.procs p).executable := by
  by_cases h : p = t
  · subst h
    simp [setPagedir]
  · simp [setPagedir, h]

@[simp] lemma ft_modifySpte : (s.modifySpte t va f).ft = s.ft := rfl

@[simp] lemma frames_modifySpte : (s.modifySpte t va f).frames = s.frames := rfl

@[simp] lemma swap_modifySpte : (s.modifySpte t va f).swap = s.swap := rfl

@[simp] lemma pagedir_setSpTable :
    ((s.setSpTable t spt).procs p).pagedir = (s.procs p).pagedir := by
  by_cases h : p = t
  · subst h
    simp [setSpTable]
  · simp [setSpTable, h]

@[simp] lemma executable_setSpTable :
    ((s.setSpTable t spt).procs p).executable = (s.procs p).executable := by
  by_cases h : p = t
  · subst h
    simp [setSpTable]
  · simp [setSpTable, h]

lemma spte_setSpTable :
    (s.setSpTable t spt).spte p n = if p = t then spt n else s.spte p n := by
  by_cases h : p = t
  · subst h
    simp [spte, setSpTable]
  · simp [spte, setSpTable, h]

@[simp] lemma pte_setSpTable : (s.setSpTable t spt).pte p n = s.pte p n := by
  rw [pte, pagedir_setSpTable, pte]

@[simp] lemma pagedir_modifySpte :
    ((s.modifySpte t va f).procs p).pagedir = (s.procs p).pagedir := pagedir_setSpTable ..

@[simp] lemma executable_modifySpte :
    ((s.modifySpte t va f).procs p).executable = (s.procs p).executable := executable_setSpTable ..

@[simp] lemma pte_modifySpte : (s.modifySpte t va f).pte p n = s.pte p n := pte_setSpTable ..

@[simp] lemma spte_modifySpte :
    (s.modifySpte t va f).spte p n
      = if p = t ∧ n = pgNo va then (s.spte p n).map f else s.spte p n := by
  by_cases hp : p = t
  · subst hp
    by_cases hn : n = pgNo va
    · subst hn
      simp [spte, modifySpte, setSpTable]
    · simp [spte, modifySpte, setSpTable, SpTable.modify, hn]
  · simp [spte, modifySpte, setSpTable, hp]

end Vm

/-! ## The frame table -/

/-- Some frame is `FT_EMPTY`. -/
def Vm.HasEmpty (s : Vm) : Prop := ∃ f < s.ft.maxFrame, (s.ft.entry f).status = .empty

namespace FrameTable

@[simp] lemma entry_setCur (ft : FrameTable) (e : FrameTableEntry) (f : ℕ) :
    (ft.setCur e).entry f = if f = ft.bumpPtr then e else ft.entry f := by
  simp [setCur, Function.update_apply]

lemma findEmpty_some {fuel : ℕ} {ft ft' : FrameTable} (h : findEmpty fuel ft = some ft') :
    ft'.cur.status = .empty ∧ ft'.maxFrame = ft.maxFrame ∧ ft'.entry = ft.entry := by
  induction fuel generalizing ft with
  | zero => cases h
  | succ fuel ih =>
    rw [findEmpty] at h
    split at h
    · have hnext := ih h
      exact hnext
    · rename_i hst
      obtain rfl : ft = ft' := Option.some.inj h
      refine ⟨?_, rfl, rfl⟩
      cases hc : ft.cur.status with
      | empty => rfl
      | full => exact absurd hc hst

lemma findEmpty_none {fuel : ℕ} {ft : FrameTable} (h : findEmpty fuel ft = none) :
    ∀ k < fuel, (ft.entry (Clock.pos ft.maxFrame ft.bumpPtr k)).status = .full := by
  induction fuel generalizing ft with
  | zero => exact fun k hk => absurd hk (Nat.not_lt_zero k)
  | succ fuel ih =>
    rw [findEmpty] at h
    split at h
    · rename_i hst
      intro k hk
      cases k with
      | zero =>
        rwa [Clock.pos_zero ft.bump_lt]
      | succ k =>
        have hnext := ih h k (by omega)
        have hpos := Clock.pos_next ft.bump_lt k
        rwa [← hpos]
    · cases h

lemma exists_findEmpty {ft : FrameTable} {f : ℕ} (hf : f < ft.maxFrame)
    (he : (ft.entry f).status = .empty) : ∃ ft', findEmpty ft.maxFrame ft = some ft' := by
  cases h : findEmpty ft.maxFrame ft with
  | some ft' => exact ⟨ft', rfl⟩
  | none =>
    obtain ⟨k, hk, rfl⟩ := Clock.exists_pos ft.bump_lt hf
    have hfull := findEmpty_none h k hk
    rw [he] at hfull
    cases hfull

end FrameTable

/-! ## Getting a frame, and mapping it -/

section

variable {alloc : ℕ → Bool} {s s' : Vm} {t va kpage : ℕ} {e : SptEntry} {pd : PageDir}
  {writable : Bool}

lemma getUserPage_of_empty (h : s.HasEmpty) (alloc : ℕ → Bool) (t va : ℕ) :
    ∃ ft : FrameTable, ft.cur.status = .empty ∧ ft.maxFrame = s.ft.maxFrame ∧
      ft.entry = s.ft.entry ∧
      (getUserPage alloc t va).run s = .ok ft.bumpPtr { s with ft := ft.setCur ⟨.full, va⟩ } := by
  obtain ⟨f, hf, he⟩ := h
  obtain ⟨ft, hft⟩ := FrameTable.exists_findEmpty hf he
  obtain ⟨hcur, hmax, hentry⟩ := FrameTable.findEmpty_some hft
  refine ⟨ft, hcur, hmax, hentry, ?_⟩
  simp only [getUserPage, run_bind, run_get, hft, run_set, takeFrame,
    run_modify, run_pure]
  rfl

lemma Vm.pte_of_set {alloc : Bool}
    (hset : pagedirSetPage (s.procs t).pagedir va kpage writable alloc = some pd) (p n : ℕ) :
    (s.setPagedir t pd).pte p n
      = if p = t ∧ n = pgNo va then pteCreateUser kpage writable else s.pte p n := by
  rw [pte_setPagedir, pteAt_pagedirSetPage hset]
  by_cases hp : p = t
  · subst hp
    simp [pte]
  · simp [hp]

lemma installPage_of_set (hnp : (s.pte t (pgNo va)).present = false)
    (hset : pagedirSetPage (s.procs t).pagedir va kpage writable (alloc (pdNo va)) = some pd) :
    (installPage alloc t va kpage writable).run s = .ok true (s.setPagedir t pd) := by
  have hget : pagedirGetPage (s.procs t).pagedir va = none := by
    rw [pagedirGetPage_eq]
    exact if_neg (by rw [← pte, hnp]; simp)
  simp only [installPage, run_bind, run_get, hget, hset, run_set,
    run_pure]

/-- `install_page` maps a page that was not mapped, or does nothing. -/
lemma installPage_cases (alloc : ℕ → Bool) (s : Vm) (t va kpage : ℕ) (writable : Bool) :
    (installPage alloc t va kpage writable).run s = .ok false s ∨
      (s.pte t (pgNo va)).present = false ∧ ∃ pd,
        pagedirSetPage (s.procs t).pagedir va kpage writable (alloc (pdNo va)) = some pd ∧
        (installPage alloc t va kpage writable).run s = .ok true (s.setPagedir t pd) := by
  by_cases hp : (s.pte t (pgNo va)).present = true
  · left
    have hget : pagedirGetPage (s.procs t).pagedir va = some (s.pte t (pgNo va)).page := by
      rw [pagedirGetPage_eq]
      exact if_pos hp
    simp only [installPage, run_bind, run_get, hget, run_pure]
  · have hnp : (s.pte t (pgNo va)).present = false := by simpa using hp
    cases hset : pagedirSetPage (s.procs t).pagedir va kpage writable (alloc (pdNo va)) with
    | some pd => exact .inr ⟨hnp, pd, rfl, installPage_of_set hnp hset⟩
    | none =>
      left
      have hget : pagedirGetPage (s.procs t).pagedir va = none := by
        rw [pagedirGetPage_eq]
        exact if_neg hp
      simp only [installPage, run_bind, run_get, hget, hset, run_pure]

/-! ## Bringing a page in -/

namespace Vm

/-- The bytes of the page at `va` move into frame `kpage`, from wherever entry `e` has them. -/
def load (s : Vm) (t va kpage : ℕ) (e : SptEntry) : Vm :=
  if e.fromSwap then s.swapIn t va kpage e.swapIndex.toNat else s.readExecutable t kpage e

variable (s : Vm) (t va kpage p n : ℕ) (e : SptEntry)

@[simp] lemma pagedir_load : ((s.load t va kpage e).procs p).pagedir = (s.procs p).pagedir := by
  unfold load
  split
  · exact pagedir_modifySpte ..
  · rfl

@[simp] lemma pte_load : (s.load t va kpage e).pte p n = s.pte p n := by
  rw [pte, pagedir_load, pte]

/-- The state `loadPage` leaves: the bytes are in, `pd` maps them, the entry is resident. -/
def loaded (pd : PageDir) : Vm :=
  ((s.load t va kpage e).setPagedir t pd).modifySpte t va fun e => { e with residentBit := true }

/-- `remove_swap_entry` finds the page: the index is in range and the slot is taken. -/
def SwapOk : Prop :=
  0 ≤ e.swapIndex ∧ e.swapIndex < s.swap.entries ∧ (s.swap.table e.swapIndex.toNat).tid ≠ 0

end Vm

namespace Vm

lemma pte_loaded {alloc : Bool}
    (hset : pagedirSetPage (s.procs t).pagedir va kpage e.writable alloc = some pd) :
    (s.loaded t va kpage e pd).pte t (pgNo va) = pteCreateUser kpage e.writable := by
  rw [← pagedir_load s t va kpage t e] at hset
  rw [loaded, pte_modifySpte, pte_of_set hset, if_pos ⟨rfl, rfl⟩]

lemma spte_loaded (he : s.spte t (pgNo va) = some e) :
    (s.loaded t va kpage e pd).spte t (pgNo va)
      = some { e with
          residentBit := true
          swapIndex := if e.fromSwap then -1 else e.swapIndex } := by
  rw [loaded, spte_modifySpte, if_pos ⟨rfl, rfl⟩, spte_setPagedir, load]
  split_ifs with hf
  · have hin : (s.swapIn t va kpage e.swapIndex.toNat).spte t (pgNo va)
        = (s.spte t (pgNo va)).map fun e => { e with swapIndex := -1 } := by
      rw [swapIn, spte_modifySpte, if_pos ⟨rfl, rfl⟩]
      rfl
    rw [hin, he]
    rfl
  · have hin : (s.readExecutable t kpage e).spte t (pgNo va) = s.spte t (pgNo va) := rfl
    rw [hin, he]
    rfl

lemma frames_loaded : (s.loaded t va kpage e pd).frames kpage
    = if e.fromSwap then s.swap.fetch e.swapIndex.toNat
      else e.fileImage (s.procs t).executable (s.frames kpage) := by
  rw [loaded, frames_modifySpte, load]
  split_ifs
  · exact Function.update_self ..
  · exact Function.update_self ..

lemma executable_loaded :
    ((s.loaded t va kpage e pd).procs t).executable = (s.procs t).executable := by
  rw [loaded, executable_modifySpte, executable_setPagedir, load]
  split_ifs
  · exact executable_modifySpte ..
  · rfl

end Vm

lemma fetchPage_of (t va kpage : ℕ) (hswap : e.fromSwap = true → s.SwapOk e) :
    (fetchPage t va kpage e).run s = .ok () (s.load t va kpage e) := by
  rw [fetchPage, load]
  split_ifs with hf
  · obtain ⟨h0, h1, h2⟩ := hswap hf
    have hidx : ¬ (e.swapIndex < 0 ∨ (s.swap.entries : ℤ) ≤ e.swapIndex) := by omega
    simp only [removeSwapEntry, run_bind, run_get, if_neg hidx, if_neg h2,
      run_set]
  · rfl

lemma fetchPage_ok (h : (fetchPage t va kpage e).run s = .ok () s') : s' = s.load t va kpage e := by
  rw [fetchPage] at h
  rw [load]
  split_ifs at h ⊢
  · simp only [removeSwapEntry, run_bind, run_get] at h
    split_ifs at h
    · cases h
    · cases h
    · cases h
      rfl
  · cases h
    rfl

lemma loadPage_of (he : s.spte t (pgNo va) = some e) (hswap : e.fromSwap = true → s.SwapOk e)
    (hnp : (s.pte t (pgNo va)).present = false)
    (hset : pagedirSetPage (s.procs t).pagedir va kpage e.writable (alloc (pdNo va)) = some pd) :
    (loadPage alloc t va kpage).run s = .ok () (s.loaded t va kpage e pd) := by
  have hfetch := fetchPage_of t va kpage hswap
  have hinst : (installPage alloc t va kpage e.writable).run (s.load t va kpage e)
      = .ok true ((s.load t va kpage e).setPagedir t pd) :=
    installPage_of_set (by rw [pte_load]; exact hnp) (by rw [pagedir_load]; exact hset)
  simp only [loadPage, run_bind, run_get, he, hfetch, mapPage, hinst, if_true,
    run_modify, loaded]

lemma loadPage_ok (h : (loadPage alloc t va kpage).run s = .ok () s') :
    ∃ e pd, s.spte t (pgNo va) = some e ∧
      pagedirSetPage (s.procs t).pagedir va kpage e.writable (alloc (pdNo va)) = some pd := by
  simp only [loadPage, run_bind, run_get] at h
  cases he : s.spte t (pgNo va) with
  | none =>
    rw [he] at h
    cases h
  | some e =>
    rw [he] at h
    obtain ⟨_, s₁, hfetch, hmap⟩ := run_bind_ok.mp h
    obtain ⟨ok, s₂, hinst, hmark⟩ := run_bind_ok.mp hmap
    have hpd : (s₁.procs t).pagedir = (s.procs t).pagedir := by
      rw [fetchPage_ok hfetch, pagedir_load]
    rcases installPage_cases alloc s₁ t va kpage e.writable with hi | ⟨-, pd, hset, -⟩
    · rw [hinst] at hi
      cases hi
      cases hmark
    · rw [hpd] at hset
      exact ⟨e, pd, rfl, hset⟩

/-! ## The handlers -/

lemma createSPTEntry_run (t va : ℕ) (e : SptEntry) (s : Vm) :
    (createSPTEntry t va e).run s
      = if isUserVaddr va then
          .ok (s.spte t (pgNo va)).isNone
            (s.setSpTable t ((s.procs t).spTable.insert (pgNo va) e))
        else .error (.exit (-1)) s := by
  simp only [createSPTEntry, vaddrToPageNum, run_bind]
  split_ifs <;> rfl

lemma pageFault_of_spte {faultAddr fEsp : ℕ} (hnull : faultAddr ≠ null)
    (huser : isUserVaddr (pgRoundDown faultAddr) = true)
    (he : s.spte t (pgNo faultAddr) = some e) :
    (pageFault alloc t faultAddr fEsp).run s
      = (getUserPage alloc t (pgRoundDown faultAddr) >>= fun kpage =>
          loadPage alloc t (pgRoundDown faultAddr) kpage).run s := by
  simp only [pageFault, if_neg hnull, getSPTEntry, vaddrToPageNum, if_pos huser, bind_assoc,
    pure_bind, run_bind, run_get, pgNo_pgRoundDown, he]

/-- The three ends of `page_fault`: out, a page with an SPT entry, a page of a growing stack. -/
lemma pageFault_cases (alloc : ℕ → Bool) (t faultAddr fEsp : ℕ) (s : Vm) :
    (pageFault alloc t faultAddr fEsp).run s = .error (.exit (-1)) s ∨
      (∃ e, s.spte t (pgNo faultAddr) = some e ∧ (pageFault alloc t faultAddr fEsp).run s
        = (getUserPage alloc t (pgRoundDown faultAddr) >>= fun kpage =>
            loadPage alloc t (pgRoundDown faultAddr) kpage).run s) ∨
      s.spte t (pgNo faultAddr) = none ∧
        ∃ pageStart, (pageFault alloc t faultAddr fEsp).run s
          = (growStack alloc t pageStart).run s := by
  by_cases hnull : faultAddr = null
  · left
    simp only [pageFault, if_pos hnull, Machinery.run_throw]
  by_cases huser : isUserVaddr (pgRoundDown faultAddr) = true
  · cases he : s.spte t (pgNo faultAddr) with
    | some e => exact .inr (.inl ⟨e, rfl, pageFault_of_spte hnull huser he⟩)
    | none =>
      by_cases hgrow : growsStack (s.procs t).esp fEsp faultAddr = true
      · refine .inr (.inr ⟨rfl, if fEsp < (s.procs t).esp then pgRoundDown (s.procs t).esp
          else pgRoundDown faultAddr, ?_⟩)
        simp only [pageFault, if_neg hnull, getSPTEntry, vaddrToPageNum, if_pos huser, bind_assoc,
          pure_bind, run_bind, run_get, pgNo_pgRoundDown, he, if_pos hgrow]
      · left
        simp only [pageFault, if_neg hnull, getSPTEntry, vaddrToPageNum, if_pos huser, bind_assoc,
          pure_bind, run_bind, run_get, pgNo_pgRoundDown, he, if_neg hgrow, Machinery.run_throw]
  · left
    simp only [pageFault, if_neg hnull, getSPTEntry, vaddrToPageNum, if_neg huser, run_bind,
      Machinery.run_throw]

end

/-! ## Writes, one by one

All that bringing a page in and throwing one out do to the state is a few kinds of writes. What each
of these respects, the functions respect. -/

/-- A write on the way of page `va` of process `t` into frame `kpage`. -/
inductive Vm.Loads (t va kpage : ℕ) : Vm → Vm → Prop
  | swapIn (s : Vm) (i : ℕ) : Loads t va kpage s (s.swapIn t va kpage i)
  | file (s : Vm) (e : SptEntry) : Loads t va kpage s (s.readExecutable t kpage e)
  | install {s : Vm} {pd : PageDir} {writable a : Bool}
    (h : pagedirSetPage (s.procs t).pagedir va kpage writable a = some pd) :
    Loads t va kpage s (s.setPagedir t pd)
  | entry (s : Vm) (f : SptEntry → SptEntry) : Loads t va kpage s (s.modifySpte t va f)

/-- A write on the way of page `va` of process `t` out of its frame; the page may be brought in for
it, to the frame under the hand. -/
inductive Vm.Evicts (t va : ℕ) : Vm → Vm → Prop
  | load {s s' : Vm} {kpage : ℕ} (h : Loads t (pgRoundDown va) kpage s s') : Evicts t va s s'
  | frame (s : Vm) (e : FrameTableEntry) : Evicts t va s { s with ft := s.ft.setCur e }
  | claim (s : Vm) (i : ℕ) : Evicts t va s { s with swap := s.swap.claim i t va }
  | store (s : Vm) (i : ℕ) (p : Page) : Evicts t va s { s with swap := s.swap.store i p }
  | accessed (s : Vm) :
    Evicts t va s (s.setPagedir t (pagedirSetAccessed (s.procs t).pagedir va true))
  | entry (s : Vm) (f : SptEntry → SptEntry) : Evicts t va s (s.modifySpte t va f)
  | clear (s : Vm) : Evicts t va s (s.setPagedir t (pagedirClearPage (s.procs t).pagedir va))

section Writes

variable (alloc : ℕ → Bool) (t va kpage : ℕ) (s : Vm)

lemma installPage_loads (writable : Bool) : ReflTransGen (Vm.Loads t va kpage) s
    (final ((installPage alloc t va kpage writable).run s)) := by
  obtain h | ⟨-, pd, hset, h⟩ := installPage_cases alloc s t va kpage writable
  · rw [h]
    exact .refl
  · rw [h]
    exact .single (.install hset)

lemma loadPage_loads :
    ReflTransGen (Vm.Loads t va kpage) s (final ((loadPage alloc t va kpage).run s)) := by
  simp only [loadPage, run_bind, run_get]
  cases s.spte t (pgNo va) with
  | none => exact .refl
  | some e =>
    refine trail_bind ?_ fun _ s₁ _ =>
      trail_bind (installPage_loads ..) fun ok s₂ _ => ?_
    · rw [fetchPage]
      split_ifs
      · simp only [removeSwapEntry, run_bind, run_get]
        split_ifs
        exacts [.refl, .refl, .single (.swapIn ..)]
      · exact .single (.file ..)
    · split_ifs
      exacts [.single (.entry ..), .refl]

lemma readUserPage_evicts :
    ReflTransGen (Vm.Evicts t va) s (final ((readUserPage alloc t va).run s)) := by
  refine trail_bind ?_ fun _ s₁ _ => .single (.accessed s₁)
  simp only [faultIn, run_bind, run_get, nestedFault]
  split_ifs
  · exact .refl
  · refine trail_bind (.single (.frame ..)) fun kpage s' _ => ?_
    exact .mono (fun _ _ => .load) _ _ (loadPage_loads ..)
  · exact .refl

lemma savePage_evicts (isStackPage : Bool) :
    ReflTransGen (Vm.Evicts t va) s (final ((savePage alloc t va isStackPage).run s)) := by
  simp only [savePage, run_bind, run_get]
  split_ifs
  · refine trail_bind ?_ fun _ s₁ _ =>
      trail_bind ?_ fun i s₂ _ =>
      trail_bind (.single (.entry ..)) fun _ s₃ _ => ?_
    · show ReflTransGen _ s (s.keepDirty t va)
      rw [keepDirty]
      split_ifs
      exacts [.single (.entry ..), .refl]
    · simp only [addSwapEntry, run_bind, run_get]
      cases s₁.swap.freeSlot with
      | none => exact .refl
      | some i =>
        exact trail_bind (.single (.claim ..)) fun _ _ _ =>
          trail_bind (readUserPage_evicts ..) fun _ _ _ => .single (.store ..)
    · split_ifs <;> exact .refl
  · exact .refl

lemma evictFrame_evicts :
    ∃ va, ReflTransGen (Vm.Evicts t va) s (final ((evictFrame alloc t).run s)) := by
  refine ⟨(s.ft.setCur { s.ft.cur with status := .empty }).cur.vaddr,
    trail_bind (.single (.frame ..)) fun _ s₁ hs₁ => ?_⟩
  cases hs₁
  simp only [run_bind, run_get]
  refine trail_bind ?_ fun e s₂ _ => ?_
  · simp only [getSPTEntry, vaddrToPageNum]
    split_ifs <;> exact .refl
  · cases e with
    | none => exact .refl
    | some e =>
      exact trail_bind (.single (.entry ..)) fun _ s₃ _ =>
        trail_bind (savePage_evicts ..) fun _ s₄ _ => .single (.clear s₄)

end Writes

/-! ## Entries stay

An entry of an SPT is written to, and never taken out. -/

/-- The pages with an SPT entry, of all processes. -/
def Vm.described (s : Vm) : Set (ℕ × ℕ) := {p | (s.spte p.1 p.2).isSome}

section Described

variable (alloc : ℕ → Bool) (t va : ℕ) (s : Vm)

lemma described_modifySpte (f : SptEntry → SptEntry) :
    s.described ⊆ (s.modifySpte t va f).described := by
  intro p hp
  show ((s.modifySpte t va f).spte p.1 p.2).isSome
  rw [spte_modifySpte]
  split_ifs
  · rwa [Option.isSome_map]
  · exact hp

lemma described_setPagedir (pd : PageDir) : (s.setPagedir t pd).described = s.described := by
  ext p
  show ((s.setPagedir t pd).spte p.1 p.2).isSome ↔ _
  rw [spte_setPagedir]
  rfl

lemma Vm.Loads.described {t va kpage : ℕ} {s s' : Vm} (h : Loads t va kpage s s') :
    s.described ⊆ s'.described := by
  cases h with
  | swapIn i => exact described_modifySpte t va _ _
  | file e => exact subset_rfl
  | install h => exact (described_setPagedir ..).ge
  | entry f => exact described_modifySpte t va s f

lemma Vm.Evicts.described {t va : ℕ} {s s' : Vm} (h : Evicts t va s s') :
    s.described ⊆ s'.described := by
  cases h with
  | load h => exact h.described
  | accessed | clear => exact (described_setPagedir ..).ge
  | entry f => exact described_modifySpte t va s f
  | _ => exact subset_rfl

lemma grows_installPage (upage kpage : ℕ) (writable : Bool) :
    Grows Vm.described (installPage alloc t upage kpage writable) s :=
  of_trail (R := fun s s' => s.described ⊆ s'.described) (fun _ => le_rfl) (fun _ _ _ => le_trans)
    (fun _ _ => Vm.Loads.described) (installPage_loads ..)

lemma grows_getUserPage : Grows Vm.described (getUserPage alloc t va) s := by
  refine grows_get_bind ?_
  split
  · exact grows_bind (grows_set subset_rfl) fun _ s' _ =>
      grows_bind (grows_modify subset_rfl) fun _ _ _ => grows_get_bind (grows_pure _)
  · refine grows_bind (grows_modify (described_setPagedir t s _).ge) fun _ s' _ => ?_
    obtain ⟨va, htrail⟩ := evictFrame_evicts alloc t s'
    exact of_trail (R := fun s s' => s.described ⊆ s'.described) (fun _ => le_rfl)
      (fun _ _ _ => le_trans) (fun _ _ => Vm.Evicts.described) htrail

end Described

end Pintos
