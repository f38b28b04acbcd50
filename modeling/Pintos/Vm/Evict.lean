import Pintos.Vm.Effects

/-!
# Vm/Evict — what `evict_page` does

`victim` is the frame that goes, read off the state before the loop of the clock. What happens next
depends on whether its address is mapped in the current directory; `evictFrame_of` is the case where
it is.
-/

namespace Pintos

open Machinery EStateM Vm

/-! ## The clock -/

/-- A page is accessed: the mark the clock looks at. -/
abbrev FrameTable.accessed (ft : FrameTable) (pd : PageDir) (i : ℕ) : Bool :=
  pagedirIsAccessed pd (ft.entry i).vaddr

/-- The frame the clock stops at: the first from the hand on whose page is not accessed, or is
one it has just passed over under another frame. -/
def Vm.victim (s : Vm) (t : ℕ) : ℕ :=
  Clock.pos s.ft.maxFrame s.ft.bumpPtr
    (Clock.stop s.ft.maxFrame s.ft.accessed (fun i => pgNo (s.ft.entry i).vaddr)
      (s.procs t).pagedir s.ft.bumpPtr)

lemma FrameTable.accessed_clear (ft : FrameTable) (pd : PageDir) (i j : ℕ) :
    ft.accessed (pagedirSetAccessed pd (ft.entry i).vaddr false) j
      = (ft.accessed pd j && decide (pgNo (ft.entry j).vaddr ≠ pgNo (ft.entry i).vaddr)) := by
  rw [accessed, accessed, pagedirIsAccessed_eq, pagedirIsAccessed_eq, pteAt_pagedirSetAccessed_false]
  split_ifs with h <;> simp [h]

lemma clockScan_snd (s : Vm) (t : ℕ) : (clockScan s.ft (s.procs t).pagedir).2 = s.victim t := by
  rw [clockScan, Clock.scan_eq s.ft.accessed_clear _ s.ft.bump_lt (Nat.lt_succ_self _), victim]

/-- How many frames the clock passes over. -/
def FrameTable.passes (ft : FrameTable) (pd : PageDir) : ℕ :=
  Clock.stop ft.maxFrame ft.accessed (fun i => pgNo (ft.entry i).vaddr) pd ft.bumpPtr

lemma FrameTable.passes_spec (ft : FrameTable) (pd : PageDir) : ft.passes pd ≤ ft.maxFrame ∧
    ∀ l < ft.passes pd, ft.accessed pd (Clock.pos ft.maxFrame ft.bumpPtr l) = true := by
  obtain ⟨-, hle, hbefore⟩ : _ ∧ ft.passes pd ≤ ft.maxFrame ∧ ∀ l < ft.passes pd,
      ¬ Clock.Stops ft.maxFrame ft.accessed (fun i => pgNo (ft.entry i).vaddr) pd ft.bumpPtr l :=
    Clock.stop_spec pd ft.bump_lt
  exact ⟨hle, fun l hl => Bool.eq_true_of_not_eq_false fun hno => hbefore l hl (.inl hno)⟩

/-- The directory after the clock has passed over `k` frames. -/
def FrameTable.cleared (ft : FrameTable) (pd : PageDir) (k : ℕ) : PageDir :=
  Clock.passed ft.maxFrame (fun pd i => pagedirSetAccessed pd (ft.entry i).vaddr false) pd ft.bumpPtr k

lemma FrameTable.pteAt_cleared (ft : FrameTable) (pd : PageDir) (k n : ℕ) :
    pteAt (ft.cleared pd k) n =
      if ∃ l < k, n = pgNo (ft.entry (Clock.pos ft.maxFrame ft.bumpPtr l)).vaddr
      then { pteAt pd n with accessed := false } else pteAt pd n := by
  induction k with
  | zero => rfl
  | succ k ih =>
    have hstep : ft.cleared pd (k + 1) = pagedirSetAccessed (ft.cleared pd k)
      (ft.entry (Clock.pos ft.maxFrame ft.bumpPtr k)).vaddr false := rfl
    rw [hstep, pteAt_pagedirSetAccessed_false, ih]
    simp only [Nat.lt_succ_iff_lt_or_eq, or_and_right, exists_or, exists_eq_left]
    by_cases hlast : n = pgNo (ft.entry (Clock.pos ft.maxFrame ft.bumpPtr k)).vaddr
    · have hany : (∃ l < k, n = pgNo (ft.entry (Clock.pos ft.maxFrame ft.bumpPtr l)).vaddr) ∨
        n = pgNo (ft.entry (Clock.pos ft.maxFrame ft.bumpPtr k)).vaddr := .inr hlast
      split_ifs <;> rfl
    · rw [if_neg hlast]
      simp only [hlast, or_false]

lemma clockScan_pte (ft : FrameTable) (pd : PageDir) (n : ℕ) :
    ∃ a, pteAt (clockScan ft pd).1 n = { pteAt pd n with accessed := a } := by
  have hscan : ∀ fuel (pd : PageDir) i, ∃ a,
      pteAt (Clock.scan ft.maxFrame ft.accessed
        (fun pd i => pagedirSetAccessed pd (ft.entry i).vaddr false) fuel pd i).1 n
        = { pteAt pd n with accessed := a } := by
    intro fuel
    induction fuel with
    | zero => exact fun pd i => ⟨(pteAt pd n).accessed, rfl⟩
    | succ fuel ih =>
      intro pd i
      rw [Clock.scan]
      split_ifs
      · obtain ⟨a, ha⟩ := ih (pagedirSetAccessed pd (ft.entry i).vaddr false) (Clock.next _ i)
        refine ⟨a, ha.trans ?_⟩
        rw [pteAt_pagedirSetAccessed_false]
        split_ifs <;> rfl
      · exact ⟨(pteAt pd n).accessed, rfl⟩
  exact hscan _ pd _

namespace Vm

variable (s : Vm) (t p n : ℕ)

@[simp] lemma bumpPtr_runClock : (s.runClock t).ft.bumpPtr = s.victim t := clockScan_snd s t

@[simp] lemma entry_runClock : (s.runClock t).ft.entry = s.ft.entry := rfl

@[simp] lemma spte_runClock : (s.runClock t).spte p n = s.spte p n := spte_setPagedir ..

lemma pte_runClock : ∃ a, (s.runClock t).pte p n = { s.pte p n with accessed := a } := by
  have hpte : (s.runClock t).pte p n
      = (s.setPagedir t (clockScan s.ft (s.procs t).pagedir).1).pte p n := rfl
  rw [hpte, pte_setPagedir]
  split_ifs with hp
  · subst hp
    exact clockScan_pte ..
  · exact ⟨(s.pte p n).accessed, rfl⟩

end Vm

/-- **Clock eviction terminates.** The loop of `evict_page` makes one test more than the frames it
passes over, and passes over none twice. The hand is on a frame whose address is not accessed; and
exactly the frames passed over have lost their bit. -/
theorem clock_eviction_terminates (s : Vm) (alloc : ℕ → Bool) (t va : ℕ) :
    (∃ k ≤ s.ft.maxFrame,
      (∀ fuel, k < fuel → Clock.scan s.ft.maxFrame
        (fun pd i => pagedirIsAccessed pd (s.ft.entry i).vaddr)
        (fun pd i => pagedirSetAccessed pd (s.ft.entry i).vaddr false) fuel (s.procs t).pagedir
        s.ft.bumpPtr = (((s.runClock t).procs t).pagedir, (s.runClock t).ft.bumpPtr)) ∧
      (s.runClock t).ft.bumpPtr = (s.ft.bumpPtr + k) % s.ft.maxFrame ∧
      (s.runClock t).ft.bumpPtr < s.ft.maxFrame ∧
      pagedirIsAccessed ((s.runClock t).procs t).pagedir
        (s.ft.entry (s.runClock t).ft.bumpPtr).vaddr = false ∧
      (∀ l < k, pagedirIsAccessed (s.procs t).pagedir
        (s.ft.entry ((s.ft.bumpPtr + l) % s.ft.maxFrame)).vaddr = true) ∧
      ∀ n, (s.runClock t).pte t n =
        if ∃ l < k, n = pgNo (s.ft.entry ((s.ft.bumpPtr + l) % s.ft.maxFrame)).vaddr
        then { s.pte t n with accessed := false } else s.pte t n) ∧
    (evictPage alloc t).run s = (evictFrame alloc t).run (s.runClock t) ∧
    ((∀ f < s.ft.maxFrame, (s.ft.entry f).status = .full) →
      (getUserPage alloc t va).run s = (evictPage alloc t).run s) ∧
    ((∃ f < s.ft.maxFrame, (s.ft.entry f).status ≠ .full) →
      ∃ ft : FrameTable, ft.cur.status = .empty ∧ ft.maxFrame = s.ft.maxFrame ∧
        ft.entry = s.ft.entry ∧ (getUserPage alloc t va).run s =
          .ok ft.bumpPtr { s with ft := ft.setCur ⟨.full, va⟩ }) := by
  obtain ⟨hle, hpassed⟩ := s.ft.passes_spec (s.procs t).pagedir
  have hscan (fuel : ℕ) (hfuel : s.ft.passes (s.procs t).pagedir < fuel) :
      Clock.scan s.ft.maxFrame (fun pd i => pagedirIsAccessed pd (s.ft.entry i).vaddr)
        (fun pd i => pagedirSetAccessed pd (s.ft.entry i).vaddr false) fuel (s.procs t).pagedir
        s.ft.bumpPtr = (s.ft.cleared (s.procs t).pagedir (s.ft.passes (s.procs t).pagedir),
          Clock.pos s.ft.maxFrame s.ft.bumpPtr (s.ft.passes (s.procs t).pagedir)) :=
    Clock.scan_of_stop_lt s.ft.accessed_clear _ s.ft.bump_lt hfuel
  have hdir : ((s.runClock t).procs t).pagedir =
      s.ft.cleared (s.procs t).pagedir (s.ft.passes (s.procs t).pagedir) := by
    have hself : ((s.runClock t).procs t).pagedir = (clockScan s.ft (s.procs t).pagedir).1 := by
      simp [Vm.runClock, Vm.setPagedir]
    rw [hself, clockScan, hscan _ (Nat.lt_succ_of_le hle)]
  refine ⟨⟨s.ft.passes (s.procs t).pagedir, hle, fun fuel hfuel => ?_, s.bumpPtr_runClock t, ?_, ?_,
    hpassed, fun n => ?_⟩, rfl, fun hfull => ?_, ?_⟩
  · rw [hscan fuel hfuel, hdir, s.bumpPtr_runClock t]
    rfl
  · exact (s.runClock t).ft.bump_lt
  · rw [hdir, s.bumpPtr_runClock t]
    exact Clock.marked_stop s.ft.accessed_clear _ s.ft.bump_lt
  · rw [Vm.pte, hdir]
    exact s.ft.pteAt_cleared ..
  · -- the search finds no empty frame, and is back where it began
    cases hfind : FrameTable.findEmpty s.ft.maxFrame s.ft with
    | none => simp only [getUserPage, run_bind, run_get, hfind]
    | some ft =>
      obtain ⟨hempty, hmax, hentry⟩ := FrameTable.findEmpty_some hfind
      have hcur : ft.cur.status = .full := by
        rw [FrameTable.cur, hentry]
        exact hfull _ (hmax ▸ ft.bump_lt)
      cases hempty.symm.trans hcur
  · rintro ⟨f, hf, hne⟩
    have hempty : (s.ft.entry f).status = .empty := by
      cases hst : (s.ft.entry f).status with
      | empty => rfl
      | full => exact absurd hst hne
    exact getUserPage_of_empty ⟨f, hf, hempty⟩ alloc t va

/-! ## A mapped page goes -/

namespace Vm

variable (s : Vm) (t va i p n : ℕ)

/-- `add_swap_entry` of a mapped page: slot `i` is claimed and its bytes are written there. -/
def copyOut : Vm :=
  { s.setPagedir t (pagedirSetAccessed (s.procs t).pagedir va true) with
    swap := (s.swap.claim i t va).store i (s.frames (s.pte t (pgNo va)).page) }

/-- …and so for the whole of the swapping branch. -/
def swappedOut : Vm :=
  ((s.keepDirty t va).copyOut t va i).modifySpte t va fun e => { e with swapIndex := i }

/-- The frame under the hand is `FT_EMPTY`, and the entry of its page not resident. -/
def vacated : Vm :=
  { s with ft := s.ft.setCur { s.ft.cur with status := .empty } }.modifySpte t s.ft.cur.vaddr
    fun e => { e with residentBit := false }

/-- …and its bytes are in slot `i`, if they have to be kept. -/
def saved (e : SptEntry) : Vm :=
  if (s.pte t (pgNo s.ft.cur.vaddr)).dirty || e.isStackPage then
    (s.vacated t).swappedOut t s.ft.cur.vaddr i
  else s.vacated t

/-- The state `evict_page` leaves when the page under the hand is mapped in the directory of `t`
and has the entry `e`. -/
def evicted (e : SptEntry) : Vm :=
  (s.saved t i e).setPagedir t
    (pagedirClearPage ((s.saved t i e).procs t).pagedir s.ft.cur.vaddr)

end Vm

namespace Vm

variable (s : Vm) (t va i p n : ℕ)

@[simp] lemma swap_keepDirty : (s.keepDirty t va).swap = s.swap := by
  rw [keepDirty]
  split_ifs <;> rfl

@[simp] lemma frames_keepDirty : (s.keepDirty t va).frames = s.frames := by
  rw [keepDirty]
  split_ifs <;> rfl

@[simp] lemma ft_keepDirty : (s.keepDirty t va).ft = s.ft := by
  rw [keepDirty]
  split_ifs <;> rfl

@[simp] lemma pagedir_keepDirty :
    ((s.keepDirty t va).procs p).pagedir = (s.procs p).pagedir := by
  rw [keepDirty]
  split_ifs
  · exact pagedir_modifySpte ..
  · rfl

@[simp] lemma pte_keepDirty : (s.keepDirty t va).pte p n = s.pte p n := by
  rw [pte, pagedir_keepDirty, pte]

@[simp] lemma executable_keepDirty :
    ((s.keepDirty t va).procs p).executable = (s.procs p).executable := by
  rw [keepDirty]
  split_ifs
  · exact executable_modifySpte ..
  · rfl

@[simp] lemma spte_keepDirty :
    (s.keepDirty t va).spte p n = if p = t ∧ n = pgNo va then
      (s.spte p n).map fun e => { e with dirtyBit := e.dirtyBit || (s.pte t (pgNo va)).dirty }
      else s.spte p n := by
  have hdirty : pagedirIsDirty (s.procs t).pagedir va = (s.pte t (pgNo va)).dirty :=
    pagedirIsDirty_eq ..
  rw [keepDirty, hdirty]
  split_ifs with hd hpn hpn
  · simp [hd, hpn]
  · simp [hpn]
  · simp [hd]
  · rfl

@[simp] lemma ft_copyOut : (s.copyOut t va i).ft = s.ft := rfl

@[simp] lemma frames_copyOut : (s.copyOut t va i).frames = s.frames := rfl

@[simp] lemma swap_copyOut : (s.copyOut t va i).swap
    = (s.swap.claim i t va).store i (s.frames (s.pte t (pgNo va)).page) := rfl

@[simp] lemma spte_copyOut : (s.copyOut t va i).spte p n = s.spte p n := spte_setPagedir ..

@[simp] lemma executable_copyOut :
    ((s.copyOut t va i).procs p).executable = (s.procs p).executable := executable_setPagedir ..

lemma pte_copyOut : ∃ a, (s.copyOut t va i).pte p n = { s.pte p n with accessed := a } := by
  have hpte : (s.copyOut t va i).pte p n
      = (s.setPagedir t (pagedirSetAccessed (s.procs t).pagedir va true)).pte p n := rfl
  rw [hpte, pte_setPagedir, pagedirSetAccessed, pteAt_updatePte]
  split_ifs with hp hn
  · subst hp
    exact ⟨true, rfl⟩
  · subst hp
    exact ⟨_, rfl⟩
  · exact ⟨_, rfl⟩

@[simp] lemma ft_swappedOut : (s.swappedOut t va i).ft = s.ft := by simp [swappedOut]

@[simp] lemma swap_swappedOut : (s.swappedOut t va i).swap
    = (s.swap.claim i t va).store i (s.frames (s.pte t (pgNo va)).page) := by simp [swappedOut]

@[simp] lemma executable_swappedOut :
    ((s.swappedOut t va i).procs p).executable = (s.procs p).executable := by simp [swappedOut]

@[simp] lemma spte_swappedOut :
    (s.swappedOut t va i).spte p n = if p = t ∧ n = pgNo va then
      (s.spte p n).map fun e =>
        { e with dirtyBit := e.dirtyBit || (s.pte t (pgNo va)).dirty, swapIndex := i }
      else s.spte p n := by
  simp only [swappedOut, spte_modifySpte, spte_copyOut, spte_keepDirty]
  split_ifs
  · simp [Option.map_map, Function.comp_def]
  · rfl

lemma pte_swappedOut : ∃ a, (s.swappedOut t va i).pte p n = { s.pte p n with accessed := a } := by
  obtain ⟨a, ha⟩ := (s.keepDirty t va).pte_copyOut t va i p n
  refine ⟨a, ?_⟩
  rw [swappedOut, pte_modifySpte, ha, pte_keepDirty]

@[simp] lemma ft_vacated :
    (s.vacated t).ft = s.ft.setCur { s.ft.cur with status := .empty } := rfl

@[simp] lemma frames_vacated : (s.vacated t).frames = s.frames := rfl

@[simp] lemma swap_vacated : (s.vacated t).swap = s.swap := rfl

@[simp] lemma pte_vacated : (s.vacated t).pte p n = s.pte p n := pte_modifySpte ..

@[simp] lemma executable_vacated :
    ((s.vacated t).procs p).executable = (s.procs p).executable := executable_modifySpte ..

@[simp] lemma spte_vacated :
    (s.vacated t).spte p n = if p = t ∧ n = pgNo s.ft.cur.vaddr then
      (s.spte p n).map fun e => { e with residentBit := false } else s.spte p n :=
  spte_modifySpte ..

end Vm

/-- `evict_page` past its first lines: the entry of the address in the frame table is looked up in
the table of the *current* thread. -/
lemma evictFrame_run (alloc : ℕ → Bool) (t : ℕ) (s : Vm) :
    (evictFrame alloc t).run s
      = if isUserVaddr s.ft.cur.vaddr then
          match s.spte t (pgNo s.ft.cur.vaddr) with
          | none => .error .nullDeref { s with ft := s.ft.setCur { s.ft.cur with status := .empty } }
          | some e => (do
              savePage alloc t s.ft.cur.vaddr e.isStackPage
              modify fun s' => s'.setPagedir t
                (pagedirClearPage (s'.procs t).pagedir s.ft.cur.vaddr)
              return (← get).ft.bumpPtr : Kern ℕ).run (s.vacated t)
        else .error (.exit (-1)) { s with ft := s.ft.setCur { s.ft.cur with status := .empty } } := by
  have hcur : (s.ft.setCur { s.ft.cur with status := .empty }).cur.vaddr = s.ft.cur.vaddr := by
    simp [FrameTable.cur, FrameTable.setCur]
  have hspte : ∀ n, spte { s with ft := s.ft.setCur { s.ft.cur with status := .empty } } t n
      = s.spte t n := fun _ => rfl
  simp only [evictFrame, run_bind, run_modify, run_get, hcur, getSPTEntry,
    vaddrToPageNum]
  split_ifs with huser
  · simp only [run_pure, hspte]
    cases s.spte t (pgNo s.ft.cur.vaddr) with
    | none => rfl
    | some e => rfl
  · rfl

variable {alloc : ℕ → Bool} {s : Vm} {t va i : ℕ}

lemma addSwapEntry_of (hpres : (s.pte t (pgNo va)).present = true)
    (hslot : s.swap.freeSlot = some i) :
    (addSwapEntry alloc t va).run s = .ok (i : ℤ) (s.copyOut t va i) := by
  have hget : pagedirGetPage (s.procs t).pagedir va = some (s.pte t (pgNo va)).page := by
    rw [pagedirGetPage_eq]
    exact if_pos hpres
  simp only [addSwapEntry, run_bind, run_get, hslot, run_modify,
    readUserPage, faultIn, hget, Option.isNone_some, Bool.false_eq_true, if_false, run_pure,
    run_set]
  rfl

lemma swapOut_of (hpres : (s.pte t (pgNo va)).present = true) (hslot : s.swap.freeSlot = some i) :
    (swapOut alloc t va).run s = .ok () (s.swappedOut t va i) := by
  have hadd : (addSwapEntry alloc t va).run (s.keepDirty t va)
      = .ok (i : ℤ) ((s.keepDirty t va).copyOut t va i) :=
    addSwapEntry_of (by rw [pte_keepDirty]; exact hpres) (by rw [swap_keepDirty]; exact hslot)
  have hi : (i : ℤ) ≠ -1 := by omega
  simp only [swapOut, run_bind, run_modify, hadd, if_neg hi, run_pure,
    swappedOut]

@[simp] lemma Vm.ft_saved (s : Vm) (t i : ℕ) (e : SptEntry) :
    (s.saved t i e).ft = s.ft.setCur { s.ft.cur with status := .empty } := by
  rw [saved]
  split_ifs
  · rw [ft_swappedOut, ft_vacated]
  · rfl

lemma savePage_of {stack : Bool} (hpres : (s.pte t (pgNo va)).present = true)
    (hslot : ((s.pte t (pgNo va)).dirty || stack) = true → s.swap.freeSlot = some i) :
    (savePage alloc t va stack).run s
      = .ok () (if (s.pte t (pgNo va)).dirty || stack then s.swappedOut t va i else s) := by
  have hdirty : pagedirIsDirty (s.procs t).pagedir va = (s.pte t (pgNo va)).dirty :=
    pagedirIsDirty_eq ..
  simp only [savePage, run_bind, run_get, hdirty]
  split_ifs with hneeds
  · exact swapOut_of hpres (hslot hneeds)
  · rfl

lemma evictFrame_of {t i : ℕ} {e : SptEntry} (huser : isUserVaddr s.ft.cur.vaddr = true)
    (he : s.spte t (pgNo s.ft.cur.vaddr) = some e)
    (hpres : (s.pte t (pgNo s.ft.cur.vaddr)).present = true)
    (hslot : ((s.pte t (pgNo s.ft.cur.vaddr)).dirty || e.isStackPage) = true → s.swap.freeSlot = some i) :
    (evictFrame alloc t).run s = .ok s.ft.bumpPtr (s.evicted t i e) := by
  have hsave : (savePage alloc t s.ft.cur.vaddr e.isStackPage).run (s.vacated t)
      = .ok () (s.saved t i e) := by
    rw [savePage_of (by rw [pte_vacated]; exact hpres)
      (by rw [pte_vacated]; exact hslot), pte_vacated, saved]
  rw [evictFrame_run, if_pos huser, he]
  simp only [run_bind, hsave, run_modify, run_get, run_pure]
  rw [ft_setPagedir, ft_saved]
  rfl

lemma savePage_full (alloc : ℕ → Bool) {t va : ℕ} {stack : Bool}
    (hneeds : ((s.pte t (pgNo va)).dirty || stack) = true) (hslot : s.swap.freeSlot = none) :
    ∃ s', (savePage alloc t va stack).run s = .error (.exit (-1)) s' := by
  have hdirty : pagedirIsDirty (s.procs t).pagedir va = (s.pte t (pgNo va)).dirty :=
    pagedirIsDirty_eq ..
  have hslot' : (s.keepDirty t va).swap.freeSlot = none := by rw [swap_keepDirty, hslot]
  simp only [savePage, run_bind, run_get, hdirty, if_pos hneeds, swapOut,
    run_modify, addSwapEntry, hslot', run_pure, if_true, Machinery.run_throw]
  exact ⟨_, rfl⟩

/-- Backwards: an eviction of a mapped page that returns leaves the state above. -/
lemma evictFrame_ok_of_present {s s' : Vm} {t F : ℕ}
    (hpres : (s.pte t (pgNo s.ft.cur.vaddr)).present = true)
    (h : (evictFrame alloc t).run s = .ok F s') : ∃ e i, s.spte t (pgNo s.ft.cur.vaddr) = some e ∧
      (((s.pte t (pgNo s.ft.cur.vaddr)).dirty || e.isStackPage) = true →
        s.swap.freeSlot = some i) ∧ s' = s.evicted t i e := by
  have hrun := h
  rw [evictFrame_run] at h
  split_ifs at h with huser
  cases he : s.spte t (pgNo s.ft.cur.vaddr) with
  | none =>
    rw [he] at h
    cases h
  | some e =>
    rw [he] at h
    obtain ⟨_, _, hsave, -⟩ := run_bind_ok.mp h
    have hslot : ∃ i, ((s.pte t (pgNo s.ft.cur.vaddr)).dirty || e.isStackPage) = true →
        s.swap.freeSlot = some i := by
      cases hfree : s.swap.freeSlot with
      | some i => exact ⟨i, fun _ => rfl⟩
      | none =>
        refine ⟨0, fun hneeds => ?_⟩
        obtain ⟨s'', hstop⟩ := savePage_full alloc (s := s.vacated t)
          (by rw [pte_vacated]; exact hneeds) hfree
        rw [hsave] at hstop
        cases hstop
    obtain ⟨i, hslot⟩ := hslot
    rw [evictFrame_of huser he hpres hslot] at hrun
    cases hrun
    exact ⟨e, i, rfl, hslot, rfl⟩

/-! ## The state afterwards -/

/-- The entry of a page on its way out, to slot `i` if it goes to swap. -/
def SptEntry.leaving (e : SptEntry) (dirty : Bool) (i : ℕ) : SptEntry :=
  { e with
    residentBit := false
    dirtyBit := e.dirtyBit || dirty
    swapIndex := if dirty || e.isStackPage then (i : ℤ) else e.swapIndex }

namespace Vm

variable (s : Vm) (t i p n : ℕ) (e : SptEntry)

@[simp] lemma executable_evicted :
    ((s.evicted t i e).procs p).executable = (s.procs p).executable := by
  rw [evicted, executable_setPagedir, saved]
  split_ifs
  · rw [executable_swappedOut, executable_vacated]
  · rw [executable_vacated]

lemma swap_evicted :
    (s.evicted t i e).swap = if (s.pte t (pgNo s.ft.cur.vaddr)).dirty || e.isStackPage then
      (s.swap.claim i t s.ft.cur.vaddr).store i (s.frames (s.pte t (pgNo s.ft.cur.vaddr)).page)
      else s.swap := by
  rw [evicted, swap_setPagedir, saved]
  split_ifs
  · rw [swap_swappedOut, swap_vacated, frames_vacated, pte_vacated]
  · rfl

lemma spte_evicted {e : SptEntry} (he : s.spte t (pgNo s.ft.cur.vaddr) = some e) :
    (s.evicted t i e).spte p n = if p = t ∧ n = pgNo s.ft.cur.vaddr then
      some (e.leaving (s.pte t (pgNo s.ft.cur.vaddr)).dirty i) else s.spte p n := by
  rw [evicted, spte_setPagedir, saved]
  by_cases hpn : p = t ∧ n = pgNo s.ft.cur.vaddr
  · rw [if_pos hpn, SptEntry.leaving]
    obtain ⟨rfl, rfl⟩ := hpn
    split_ifs with h
    · simp [he]
    · have hd : (s.pte p (pgNo s.ft.cur.vaddr)).dirty = false := by
        rw [Bool.or_eq_true, not_or] at h
        simpa using h.1
      simp [he, hd]
  · split_ifs
    · rw [spte_swappedOut, if_neg hpn, spte_vacated, if_neg hpn]
    · rw [spte_vacated, if_neg hpn]

lemma pte_saved : ∃ a, (s.saved t i e).pte p n = { s.pte p n with accessed := a } := by
  rw [saved]
  split_ifs
  · obtain ⟨a, ha⟩ := (s.vacated t).pte_swappedOut t s.ft.cur.vaddr i p n
    exact ⟨a, by rw [ha, pte_vacated]⟩
  · exact ⟨_, pte_vacated ..⟩

lemma pte_evicted : ∃ a, (s.evicted t i e).pte p n = if p = t ∧ n = pgNo s.ft.cur.vaddr then
    { s.pte p n with present := false, accessed := a } else { s.pte p n with accessed := a } := by
  obtain ⟨a, ha⟩ := s.pte_saved t i p n e
  refine ⟨a, ?_⟩
  rw [evicted, pte_setPagedir, pteAt_pagedirClearPage]
  by_cases hp : p = t
  · subst hp
    rw [← pte, ha]
    simp
  · rw [if_neg hp, if_neg fun h => hp h.1, ha]

end Vm

end Pintos
