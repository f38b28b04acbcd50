import Pintos.Vm.Owner

/-!
# Vm/Transparent — what a page holds when it comes back

One page is followed through reads, writes, evictions and faults. Its bytes are looked for in swap
when `dirty_bit` (or `is_stack_page`) is set, in the executable otherwise. The bit is set by the
first dirty eviction and never reset, while the slot is given back at every return, so that a *clean*
eviction after a dirty one leaves the bit without a slot.
-/

namespace Pintos

open Machinery Vm

variable (t va : ℕ)

/-! ## The page and its surroundings -/

/-- What the rest of the system does leaves the page at `va` of process `t` alone. -/
structure Vm.Undisturbed (s s' : Vm) : Prop where
  spte : s'.spte t (pgNo va) = s.spte t (pgNo va)
  pte : ∃ a, s'.pte t (pgNo va) = { s.pte t (pgNo va) with accessed := a }
  executable : (s'.procs t).executable = (s.procs t).executable
  frame : (s.pte t (pgNo va)).present = true →
    s'.frames (s.pte t (pgNo va)).page = s.frames (s.pte t (pgNo va)).page
  entries : s'.swap.entries = s.swap.entries
  slot : ∀ i, s.swap.table i = ⟨t, va⟩ →
    s'.swap.table i = ⟨t, va⟩ ∧ s'.swap.fetch i = s.swap.fetch i

/-- A page of the executable that has not been touched, or a page of the stack, mapped from the
start. -/
def Vm.Fresh (s : Vm) : Prop :=
  ∃ e, s.spte t (pgNo va) = some e ∧ e.dirtyBit = false ∧
    (e.residentBit = false ∧ e.isStackPage = false ∧ (s.pte t (pgNo va)).present = false ∨
      e.residentBit = true ∧ e.pageReadBytes = 0 ∧ e.pageZeroBytes = 0 ∧
        (s.pte t (pgNo va)).present = true)

/-- What can happen to the page. -/
inductive PageAct where
  | read
  | write (i : Fin pgSize) (b : UInt8)
  | evict (alloc : ℕ → Bool)
  | fault (alloc : ℕ → Bool) (faultAddr fEsp : ℕ)
  | other

/-- A step, on the state and the bytes the page had when it was last evicted. -/
def pageStep (s : Vm × Option Page) : PageAct → Vm × Option Page → Prop
  | .read, s' => (s.1.pte t (pgNo va)).present = true ∧ s' = (s.1.userRead t va, s.2)
  | .write i b, s' =>
    (s.1.pte t (pgNo va)).present = true ∧ (s.1.pte t (pgNo va)).writable = true ∧
      s' = (s.1.userWrite t va i b, s.2)
  | .evict alloc, s' =>
    (s.1.pte t (pgNo va)).present = true ∧ (s.1.ft.entry (s.1.victim t)).vaddr = va ∧
      (∃ F, (evictPage alloc t).run s.1 = .ok F s'.1) ∧
      s'.2 = some (s.1.frames (s.1.pte t (pgNo va)).page)
  | .fault alloc faultAddr fEsp, s' =>
    (s.1.pte t (pgNo va)).present = false ∧ pgRoundDown faultAddr = va ∧
      (∃ kpage s₁, (getUserPage alloc t va).run s.1 = .ok kpage s₁ ∧ s.1.Undisturbed t va s₁) ∧
      (pageFault alloc t faultAddr fEsp).run s.1 = .ok () s'.1 ∧ s'.2 = s.2
  | .other, s' => s.1.Undisturbed t va s'.1 ∧ s'.2 = s.2

/-- The life of a page. -/
def pageSystem : System (Vm × Option Page) PageAct where
  init s := s.1.Fresh t va ∧ s.2 = none
  step := pageStep t va

/-- An eviction is harmless: the page goes to swap, or it never went there before and its entry
describes all of it. -/
def EvictsSafely (s : Vm × Option Page) : PageAct → Prop
  | .evict _ => ∀ e, s.1.spte t (pgNo va) = some e →
    e.isStackPage = true ∨ (s.1.pte t (pgNo va)).dirty = true ∨
      e.dirtyBit = false ∧ e.Covers (s.1.procs t).executable
  | _ => True

/-! ## The invariant -/

/-- A mapped page that is not dirty, and never went to swap, still is what its entry describes. -/
def Vm.InMemory (s : Vm) (e : SptEntry) : Prop :=
  e.residentBit = true ∧ (e.isStackPage = false → e.dirtyBit = false →
    (s.pte t (pgNo va)).dirty = false → e.Covers (s.procs t).executable →
    s.frames (s.pte t (pgNo va)).page
      = e.fileImage (s.procs t).executable (s.frames (s.pte t (pgNo va)).page))

/-- A page that is out is where its entry says, with the bytes `b` it had. -/
structure Vm.Outside (s : Vm) (e : SptEntry) (b : Page) : Prop where
  resident : e.residentBit = false
  swap : e.fromSwap = true → 0 ≤ e.swapIndex ∧ e.swapIndex < s.swap.entries ∧
    s.swap.table e.swapIndex.toNat = ⟨t, va⟩ ∧ s.swap.fetch e.swapIndex.toNat = b
  file : e.fromSwap = false → ∀ stale, e.fileImage (s.procs t).executable stale = b

/-- The page is somewhere: mapped, not yet touched, or out. -/
inductive Kept (s : Vm × Option Page) : Prop
  | inMemory {e : SptEntry} (he : s.1.spte t (pgNo va) = some e)
      (hpres : (s.1.pte t (pgNo va)).present = true) (h : s.1.InMemory t va e)
  | untouched {e : SptEntry} (he : s.1.spte t (pgNo va) = some e)
      (hpres : (s.1.pte t (pgNo va)).present = false) (hnone : s.2 = none)
      (hres : e.residentBit = false) (hfile : e.fromSwap = false)
  | outside {e : SptEntry} {b : Page} (he : s.1.spte t (pgNo va) = some e)
      (hpres : (s.1.pte t (pgNo va)).present = false) (hsome : s.2 = some b)
      (h : s.1.Outside t va e b)

variable {t va}

lemma Vm.Undisturbed.absent {s s' : Vm} (h : s.Undisturbed t va s')
    (hnp : (s.pte t (pgNo va)).present = false) : (s'.pte t (pgNo va)).present = false := by
  obtain ⟨a, hpte⟩ := h.pte
  rwa [hpte]

variable {s : Vm}

lemma Vm.Fresh.kept (h : s.Fresh t va) : Kept t va (s, none) := by
  obtain ⟨e, he, hdirty, ⟨hres, hstack, hpres⟩ | ⟨hres, hr, hz, hpres⟩⟩ := h
  · exact .untouched he hpres rfl hres (by simp [SptEntry.fromSwap, hdirty, hstack])
  · refine .inMemory he hpres ⟨hres, fun _ _ _ hcov => ?_⟩
    have hsize := hcov.1
    rw [hr, hz] at hsize
    exact absurd hsize (by decide)

variable {g : Option Page}

lemma Kept.undisturbed {s s' : Vm} (h : Kept t va (s, g)) (hs : s.Undisturbed t va s') :
    Kept t va (s', g) := by
  obtain ⟨a, hpte⟩ := hs.pte
  rcases h with ⟨he, hpres, hres, himg⟩ | ⟨he, hpres, hnone, hres, hfile⟩ | ⟨he, hpres, hsome, hout⟩
  · refine .inMemory (hs.spte.trans he) (by rw [hpte]; exact hpres) ⟨hres, ?_⟩
    rwa [hs.executable, hpte, hs.frame hpres]
  · exact .untouched (hs.spte.trans he) (by rw [hpte]; exact hpres) hnone hres hfile
  · refine .outside (hs.spte.trans he) (by rw [hpte]; exact hpres) hsome ⟨hout.resident, ?_, ?_⟩
    · intro hf
      obtain ⟨h0, h1, htab, hfetch⟩ := hout.swap hf
      obtain ⟨htab', hfetch'⟩ := hs.slot _ htab
      exact ⟨h0, hs.entries ▸ h1, htab', hfetch'.trans hfetch⟩
    · rw [hs.executable]
      exact hout.file

/-! ## Reads and writes -/

lemma Vm.undisturbed_read {s : Vm} (hpres : (s.pte t (pgNo va)).present = true) :
    s.Undisturbed t va (s.userRead t va) where
  spte := spte_setPagedir ..
  pte := by
    refine ⟨true, ?_⟩
    rw [userRead, pte_setPagedir, if_pos rfl, pteAt_updatePte, if_pos ⟨rfl, isSome_of_present hpres⟩]
    rfl
  executable := executable_setPagedir ..
  frame _ := rfl
  entries := rfl
  slot _ h := ⟨h, rfl⟩

lemma Kept.write (h : Kept t va (s, g)) (hpres : (s.pte t (pgNo va)).present = true)
    (i : Fin pgSize) (b : UInt8) : Kept t va (s.userWrite t va i b, g) := by
  have hpte : (s.userWrite t va i b).pte t (pgNo va)
      = { s.pte t (pgNo va) with accessed := true, dirty := true } := by
    have hview : (s.userWrite t va i b).pte t (pgNo va) = (s.setPagedir t (updatePte
      (s.procs t).pagedir va fun pte => { pte with accessed := true, dirty := true })).pte t (pgNo va) :=
      rfl
    rw [hview, pte_setPagedir, if_pos rfl, pteAt_updatePte,
      if_pos ⟨rfl, isSome_of_present hpres⟩]
    rfl
  have hspte : (s.userWrite t va i b).spte t (pgNo va) = s.spte t (pgNo va) :=
    spte_setPagedir ..
  rcases h with ⟨he, -, hres, -⟩ | ⟨-, hnp, -, -, -⟩ | ⟨-, hnp, -, -⟩
  · refine .inMemory (hspte.trans he) (by rw [hpte]; exact hpres) ⟨hres, fun _ _ hclean => ?_⟩
    rw [hpte] at hclean
    cases hclean
  · exact absurd (hpres.symm.trans hnp) (by decide)
  · exact absurd (hpres.symm.trans hnp) (by decide)

/-! ## Evictions -/

lemma Vm.undisturbed_runClock (s : Vm) : s.Undisturbed t va (s.runClock t) where
  spte := spte_runClock ..
  pte := pte_runClock ..
  executable := executable_setPagedir ..
  frame _ := rfl
  entries := rfl
  slot _ h := ⟨h, rfl⟩

variable {e : SptEntry}

lemma Vm.outside_of_swapped {i : ℕ} (hva : s.ft.cur.vaddr = va)
    (hneeds : ((s.pte t (pgNo va)).dirty || e.isStackPage) = true)
    (hslot : s.swap.freeSlot = some i) :
    (s.evicted t i e).Outside t va (e.leaving (s.pte t (pgNo va)).dirty i)
      (s.frames (s.pte t (pgNo va)).page) := by
  have hswap : (s.evicted t i e).swap
      = (s.swap.claim i t va).store i (s.frames (s.pte t (pgNo va)).page) := by
    rw [swap_evicted, hva, if_pos hneeds]
  have hindex : (e.leaving (s.pte t (pgNo va)).dirty i).swapIndex = i := if_pos hneeds
  refine ⟨rfl, fun _ => ?_, fun hfile => ?_⟩
  · obtain ⟨hi, -⟩ := Swap.freeSlot_eq_some hslot
    rw [hindex, hswap, Int.toNat_natCast]
    refine ⟨Int.natCast_nonneg i, Int.ofNat_lt.mpr hi, ?_, Swap.fetch_store ..⟩
    rw [Swap.store_table, Swap.claim_table, if_pos rfl]
  · rw [Bool.or_eq_true] at hneeds
    rcases hneeds with hn | hn <;> simp [SptEntry.fromSwap, SptEntry.leaving, hn] at hfile

lemma Vm.outside_of_dropped {i : ℕ}
    (hdrop : ((s.pte t (pgNo va)).dirty || e.isStackPage) = false) (hdirty : e.dirtyBit = false)
    (hcov : e.Covers (s.procs t).executable) (hmem : s.InMemory t va e) :
    (s.evicted t i e).Outside t va (e.leaving (s.pte t (pgNo va)).dirty i)
      (s.frames (s.pte t (pgNo va)).page) := by
  obtain ⟨hclean, hstack⟩ := Bool.or_eq_false_iff.mp hdrop
  refine ⟨rfl, fun hf => ?_, fun _ stale => ?_⟩
  · simp [SptEntry.fromSwap, SptEntry.leaving, hclean, hstack, hdirty] at hf
  · rw [executable_evicted, hmem.2 hstack hdirty hclean hcov]
    exact hcov.fileImage_eq ..

variable {alloc : ℕ → Bool}

lemma Kept.evict {s s' : Vm} {F : ℕ} (h : Kept t va (s, g))
    (hpres : (s.pte t (pgNo va)).present = true) (hva : (s.ft.entry (s.victim t)).vaddr = va)
    (hrun : (evictPage alloc t).run s = .ok F s')
    (hsafe : EvictsSafely t va (s, g) (.evict alloc)) :
    Kept t va (s', some (s.frames (s.pte t (pgNo va)).page)) := by
  have hclock : s.Undisturbed t va (s.runClock t) := s.undisturbed_runClock
  have hcur : (s.runClock t).ft.cur.vaddr = va := by
    rw [FrameTable.cur, bumpPtr_runClock, entry_runClock, hva]
  obtain ⟨a, hpte⟩ := s.pte_runClock t t (pgNo va)
  have hpres' : ((s.runClock t).pte t (pgNo va)).present = true := by rw [hpte]; exact hpres
  have hrun' := hrun
  obtain ⟨e, i, he, hslot, rfl⟩ := evictFrame_ok_of_present (by rw [hcur]; exact hpres') hrun'
  have hspte := (s.runClock t).spte_evicted t i t (pgNo va) he
  obtain ⟨a', hpte'⟩ := (s.runClock t).pte_evicted t i t (pgNo va) e
  rw [hcur] at he hslot hspte hpte'
  rw [if_pos ⟨rfl, rfl⟩] at hspte hpte'
  have hbytes : s.frames (s.pte t (pgNo va)).page
      = (s.runClock t).frames ((s.runClock t).pte t (pgNo va)).page := by rw [hpte]; rfl
  rw [hbytes]
  refine .outside hspte (by rw [hpte']) rfl ?_
  cases hneeds : ((s.runClock t).pte t (pgNo va)).dirty || e.isStackPage with
  | true => exact outside_of_swapped hcur hneeds (hslot hneeds)
  | false =>
    obtain ⟨hclean, hstack⟩ := Bool.or_eq_false_iff.mp hneeds
    rcases h.undisturbed hclock with ⟨he', -, hmem⟩ | ⟨-, hnp, -⟩ | ⟨-, hnp, -⟩
    · cases he.symm.trans he'
      rw [spte_runClock] at he
      rw [hpte] at hclean
      rcases hsafe e he with hs | hd | ⟨hdirty, hcov⟩
      · exact absurd (hs.symm.trans hstack) (by decide)
      · exact absurd (hd.symm.trans hclean) (by decide)
      · refine outside_of_dropped hneeds hdirty ?_ hmem
        rwa [hclock.executable]
    · exact absurd (hpres'.symm.trans hnp) (by decide)
    · exact absurd (hpres'.symm.trans hnp) (by decide)

/-! ## Faults -/

lemma Kept.swapOk (ht : t ≠ 0) (h : Kept t va (s, g))
    (hnp : (s.pte t (pgNo va)).present = false) (he : s.spte t (pgNo va) = some e)
    (hf : e.fromSwap = true) : s.SwapOk e ∧ s.swap.table e.swapIndex.toNat = ⟨t, va⟩ := by
  rcases h with ⟨-, hpres, -⟩ | ⟨he', -, -, -, hfile⟩ | ⟨he', -, -, hout⟩
  · exact absurd (hpres.symm.trans hnp) (by decide)
  · cases he.symm.trans he'
    exact absurd (hf.symm.trans hfile) (by decide)
  · cases he.symm.trans he'
    obtain ⟨h0, h1, htab, -⟩ := hout.swap hf
    exact ⟨⟨h0, h1, by rw [htab]; exact ht⟩, htab⟩

/-- The page comes back as it went. -/
lemma Kept.load (ht : t ≠ 0) {pd : PageDir} {kpage : ℕ} (h : Kept t va (s, g))
    (hnp : (s.pte t (pgNo va)).present = false) (he : s.spte t (pgNo va) = some e)
    (hset : pagedirSetPage (s.procs t).pagedir va kpage e.writable (alloc (pdNo va)) = some pd) :
    (loadPage alloc t va kpage).run s = .ok () (s.loaded t va kpage e pd) ∧
      Kept t va (s.loaded t va kpage e pd, g) ∧
      (s.loaded t va kpage e pd).Refers (t, pgNo va) kpage ∧
      ∀ b, g = some b → (s.loaded t va kpage e pd).frames kpage = b := by
  have hpte := pte_loaded hset
  refine ⟨loadPage_of he (fun hf => (h.swapOk ht hnp he hf).1) hnp hset, ?_, ?_, ?_⟩
  · refine .inMemory (spte_loaded he) (by rw [hpte]; rfl) ⟨rfl, ?_⟩
    intro hstack hdirty _ hcov
    have hf : e.fromSwap = false := by
      have hs : e.isStackPage = false := hstack
      have hd : e.dirtyBit = false := hdirty
      simp [SptEntry.fromSwap, hs, hd]
    have hcov' : e.Covers (s.procs t).executable := by
      rwa [executable_loaded] at hcov
    rw [hpte, executable_loaded]
    show (s.loaded t va kpage e pd).frames kpage
      = e.fileImage (s.procs t).executable ((s.loaded t va kpage e pd).frames kpage)
    rw [frames_loaded, hf]
    exact hcov'.fileImage_eq ..
  · rw [Vm.Refers, hpte]
    exact ⟨rfl, rfl⟩
  · intro b hb
    rw [frames_loaded]
    rcases h with ⟨-, hpres, -⟩ | ⟨-, -, hnone, -, -⟩ | ⟨he', -, hsome, hout⟩
    · exact absurd (hpres.symm.trans hnp) (by decide)
    · exact absurd (hb.symm.trans hnone) (by simp)
    · cases he.symm.trans he'
      cases hb.symm.trans hsome
      split_ifs with hf
      · exact (hout.swap hf).2.2.2
      · exact hout.file (by simpa using hf) _

lemma Kept.spte (h : Kept t va (s, g)) : ∃ e, s.spte t (pgNo va) = some e := by
  rcases h with ⟨he, -⟩ | ⟨he, -⟩ | ⟨he, -⟩ <;> exact ⟨_, he⟩

lemma Kept.fault (ht : t ≠ 0) {s s₁ s' : Vm} {faultAddr fEsp kpage : ℕ} (h : Kept t va (s, g))
    (hnp : (s.pte t (pgNo va)).present = false) (hpage : pgRoundDown faultAddr = va)
    (hget : (getUserPage alloc t va).run s = .ok kpage s₁) (hund : s.Undisturbed t va s₁)
    (hrun : (pageFault alloc t faultAddr fEsp).run s = .ok () s') : Kept t va (s', g) := by
  obtain ⟨e, he⟩ := h.spte
  subst hpage
  rcases pageFault_cases alloc t faultAddr fEsp s with hc | ⟨-, -, hc⟩ | ⟨hnone, -⟩
  · rw [hc] at hrun
    cases hrun
  · rw [hc, EStateM.run_bind, hget] at hrun
    have hload : (loadPage alloc t (pgRoundDown faultAddr) kpage).run s₁ = .ok () s' := hrun
    obtain ⟨e₁, pd, he₁, hset⟩ := loadPage_ok hload
    obtain ⟨hload', hkept, -⟩ := (h.undisturbed hund).load ht (hund.absent hnp) he₁ hset
    rw [hload] at hload'
    cases hload'
    exact hkept
  · rw [pgNo_pgRoundDown] at he
    exact absurd (he.symm.trans hnone) (by simp)

/-! ## Whole lives -/

lemma pageStep_kept (ht : t ≠ 0) (s : Vm × Option Page) (a : PageAct) (s' : Vm × Option Page)
    (h : Kept t va s) (hsafe : EvictsSafely t va s a) (hstep : pageStep t va s a s') :
    Kept t va s' := by
  obtain ⟨s, g⟩ := s
  obtain ⟨s', g'⟩ := s'
  cases a with
  | read =>
    obtain ⟨hpres, heq⟩ := hstep
    cases heq
    exact h.undisturbed (undisturbed_read hpres)
  | write i b =>
    obtain ⟨hpres, -, heq⟩ := hstep
    cases heq
    exact h.write hpres i b
  | evict alloc =>
    obtain ⟨hpres, hva, ⟨F, hrun⟩, rfl⟩ := hstep
    exact h.evict hpres hva hrun hsafe
  | fault alloc faultAddr fEsp =>
    obtain ⟨hnp, hpage, ⟨kpage, s₁, hget, hund⟩, hrun, hg⟩ := hstep
    cases hg
    exact h.fault ht hnp hpage hget hund hrun
  | other =>
    obtain ⟨hund, rfl⟩ := hstep
    exact h.undisturbed hund

/-- **Paging is transparent** in every life of a page whose evictions are safe. -/
theorem paging_transparent (ht : t ≠ 0) {s : Vm} {g : Option Page}
    (h : (pageSystem t va).Reach (EvictsSafely t va) (s, g))
    (hnp : (s.pte t (pgNo va)).present = false) :
    ∃ e, s.spte t (pgNo va) = some e ∧ ∀ alloc faultAddr fEsp kpage s₁,
      faultAddr ≠ null → isUserVaddr va = true → pgRoundDown faultAddr = va →
      (getUserPage alloc t va).run s = .ok kpage s₁ → s.Undisturbed t va s₁ →
        (e.fromSwap = true → 0 ≤ e.swapIndex ∧ e.swapIndex < s₁.swap.entries ∧
          s₁.swap.table e.swapIndex.toNat = ⟨t, va⟩) ∧
        ((pagedirSetPage (s₁.procs t).pagedir va kpage e.writable (alloc (pdNo va))).isSome →
          ∃ s', (pageFault alloc t faultAddr fEsp).run s = .ok () s' ∧
            s'.Refers (t, pgNo va) kpage ∧ ∀ b, g = some b → s'.frames kpage = b) := by
  have hkept : Kept t va (s, g) :=
    h.invariant (fun ⟨s, g⟩ ⟨hf, hg⟩ => by cases hg; exact hf.kept)
      (pageStep_kept ht)
  obtain ⟨e, he⟩ := hkept.spte
  refine ⟨e, he, ?_⟩
  rintro alloc faultAddr fEsp kpage s₁ hnull huser rfl hget hund
  have h₁ := hkept.undisturbed hund
  have he₁ := hund.spte.trans he
  have hnp₁ := hund.absent hnp
  refine ⟨fun hf => ?_, fun hset => ?_⟩
  · obtain ⟨⟨h0, h1, -⟩, htab⟩ := h₁.swapOk ht hnp₁ he₁ hf
    exact ⟨h0, h1, htab⟩
  · obtain ⟨pd, hset⟩ := Option.isSome_iff_exists.mp hset
    obtain ⟨hload, -, hrefers, hbytes⟩ := h₁.load ht hnp₁ he₁ hset
    refine ⟨_, ?_, hrefers, hbytes⟩
    rw [pageFault_of_spte hnull huser (by rw [← pgNo_pgRoundDown]; exact he), EStateM.run_bind, hget]
    exact hload

/-! ## A clean eviction after a dirty one -/

lemma Vm.undisturbed_getUserPage (h : s.HasEmpty) (alloc : ℕ → Bool) :
    ∃ kpage s₁, (getUserPage alloc t va).run s = .ok kpage s₁ ∧ s.Undisturbed t va s₁ := by
  obtain ⟨ft, -, -, -, hrun⟩ := getUserPage_of_empty h alloc t va
  exact ⟨_, _, hrun, rfl, ⟨_, rfl⟩, rfl, fun _ => rfl, rfl, fun _ h => ⟨h, rfl⟩⟩

/-- `oneFrame`, with one slot of swap. -/
def oneSlot : Vm := { oneFrame with swap := ⟨1, fun _ => ⟨0, 0⟩, fun _ _ => 0⟩ }

/-- The page of process 1 at `0x1000`, after a fault… -/
def Vm.faulted (s : Vm) : Vm := final ((pageFault (fun _ => true) 1 0x1000 0).run s)

/-- …and after an eviction. -/
def Vm.thrownOut (s : Vm) : Vm := final ((evictPage (fun _ => true) 1).run s)

/-- Read in and written to… -/
def oneSlotDirty : Vm := oneSlot.faulted.userWrite 1 0x1000 ⟨0, by decide⟩ 1

/-- …thrown out and read in again. -/
def oneSlotBack : Vm := oneSlotDirty.thrownOut.faulted

section

variable {G : Vm × Option Page → PageAct → Prop} {s : Vm} {g : Option Page}

lemma reach_faulted (h : (pageSystem 1 0x1000).Reach G (s, g))
    (hG : G (s, g) (.fault (fun _ => true) 0x1000 0))
    (hnp : (s.pte 1 (pgNo 0x1000)).present = false) (hempty : s.HasEmpty)
    (hok : endsWith (fun _ _ => true) ((pageFault (fun _ => true) 1 0x1000 0).run s) = true) :
    (pageSystem 1 0x1000).Reach G (s.faulted, g) := by
  obtain ⟨_, hrun⟩ := ok_of_endsWith hok
  exact .next h hG ⟨hnp, by decide, undisturbed_getUserPage hempty _, hrun, rfl⟩

lemma reach_thrownOut (h : (pageSystem 1 0x1000).Reach G (s, g))
    (hG : G (s, g) (.evict fun _ => true))
    (hpres : (s.pte 1 (pgNo 0x1000)).present = true)
    (hva : (s.ft.entry (s.victim 1)).vaddr = 0x1000)
    (hok : endsWith (fun _ _ => true) ((evictPage (fun _ => true) 1).run s) = true) :
    (pageSystem 1 0x1000).Reach G (s.thrownOut, some (s.frames (s.pte 1 (pgNo 0x1000)).page)) := by
  obtain ⟨F, hrun⟩ := ok_of_endsWith hok
  exact .next h hG ⟨hpres, hva, ⟨F, hrun⟩, rfl⟩

end

lemma oneSlot_fresh : oneSlot.Fresh 1 0x1000 := ⟨_, rfl, rfl, .inl ⟨rfl, rfl, rfl⟩⟩

lemma oneSlotDirty_reach :
    (pageSystem 1 0x1000).Reach (EvictsSafely 1 0x1000) (oneSlotDirty, none) := by
  have h : (pageSystem 1 0x1000).Reach (EvictsSafely 1 0x1000) (oneSlot.faulted, none) :=
    reach_faulted (.start ⟨oneSlot_fresh, rfl⟩) trivial (by decide) ⟨0, by decide, by decide⟩
      (by decide)
  exact .next (a := .write ⟨0, by decide⟩ 1) h trivial ⟨by decide, by decide, rfl⟩

/-- The bytes of the page when it is first thrown out. -/
def oneSlotBytes : Page := oneSlotDirty.frames (oneSlotDirty.pte 1 (pgNo 0x1000)).page

lemma oneSlotOut_reach : (pageSystem 1 0x1000).Reach (EvictsSafely 1 0x1000)
    (oneSlotDirty.thrownOut, some oneSlotBytes) :=
  reach_thrownOut oneSlotDirty_reach (fun _ _ => .inr (.inl (by decide))) (by decide) (by decide)
    (by decide)

/-- The written page comes back from swap. -/
theorem oneSlotOut_transparent : ∃ s' kpage,
    (pageFault (fun _ => true) 1 0x1000 0).run oneSlotDirty.thrownOut = .ok () s' ∧
      s'.Refers (1, pgNo 0x1000) kpage ∧ s'.frames kpage = oneSlotBytes := by
  obtain ⟨e, -, h⟩ := paging_transparent (by decide) oneSlotOut_reach (by decide)
  have hempty : oneSlotDirty.thrownOut.HasEmpty := ⟨0, by decide, by decide⟩
  obtain ⟨kpage, s₁, hget, hund⟩ := Vm.undisturbed_getUserPage hempty fun _ => true
  obtain ⟨-, hload⟩ := h (fun _ => true) 0x1000 0 kpage s₁ (by decide) (by decide) (by decide)
    hget hund
  obtain ⟨s', hrun, hrefers, hbytes⟩ := hload (isSome_pagedirSetPage ..)
  exact ⟨s', kpage, hrun, hrefers, hbytes _ rfl⟩

/-- Thrown out again, clean, it is looked for in slot -1. -/
theorem oneSlotBack_lost :
    (∃ g, (pageSystem 1 0x1000).Reachable (oneSlotBack.thrownOut, g)) ∧
      (∃ e, oneSlotBack.thrownOut.spte 1 (pgNo 0x1000) = some e ∧ e.fromSwap = true ∧
        e.swapIndex = -1) ∧
      ∃ s', (pageFault (fun _ => true) 1 0x1000 0).run oneSlotBack.thrownOut
        = .error .outOfBounds s' := by
  refine ⟨?_, ?_, ?_⟩
  · have hout : (pageSystem 1 0x1000).Reachable (oneSlotDirty.thrownOut, some oneSlotBytes) :=
      oneSlotOut_reach.mono fun _ _ _ => trivial
    have hback : (pageSystem 1 0x1000).Reachable (oneSlotBack, some oneSlotBytes) :=
      reach_faulted hout trivial (by decide) ⟨0, by decide, by decide⟩ (by decide)
    exact ⟨_, reach_thrownOut hback trivial (by decide) (by decide) (by decide)⟩
  · have hany : (oneSlotBack.thrownOut.spte 1 (pgNo 0x1000)).any
        (fun e => decide (e.fromSwap = true ∧ e.swapIndex = -1)) = true := by decide
    obtain ⟨e, he, hbits⟩ := (Option.any_eq_true ..).mp hany
    exact ⟨e, he, of_decide_eq_true hbits⟩
  · exact ⟨_, rfl⟩

end Pintos
