import Pintos.Vm.Evict
import Pintos.Vm.Exclusive

/-!
# Vm/Owner — whose page an eviction takes

A frame table entry has an address and no owner. `evict_page` looks the address up in the page
directory and the SPT of the *current* thread. So the frame is free afterwards exactly when it was
the current thread's, and nobody else's.
-/

namespace Pintos

open Machinery EStateM Relation

/-- The SPT entry of page `i.2` of process `i.1` is there and resident. -/
def Vm.Resident (s : Vm) (i : ℕ × ℕ) : Prop := (s.spte i.1 i.2).any (·.residentBit) = true

instance (s : Vm) (i : ℕ × ℕ) : Decidable (s.Resident i) := inferInstanceAs (Decidable (_ = _))

/-! ## An eviction spares every page but one -/

/-- From `s` to `s'` the hand stays, and no page but `i` is mapped, unmapped or marked. -/
structure Vm.Spares (i : ℕ × ℕ) (s s' : Vm) : Prop where
  bumpPtr : s'.ft.bumpPtr = s.ft.bumpPtr
  refers : ∀ j, j ≠ i → ∀ f, s'.Refers j f ↔ s.Refers j f
  resident : ∀ j, j ≠ i → (s'.Resident j ↔ s.Resident j)

variable {s s' : Vm}

namespace Vm.Spares

variable {i : ℕ × ℕ}

lemma trans (a b c : Vm) (hab : Spares i a b) (hbc : Spares i b c) : Spares i a c where
  bumpPtr := hbc.bumpPtr.trans hab.bumpPtr
  refers j hj f := (hbc.refers j hj f).trans (hab.refers j hj f)
  resident j hj := (hbc.resident j hj).trans (hab.resident j hj)

lemma refl (s : Vm) : Spares i s s := ⟨rfl, fun _ _ _ => Iff.rfl, fun _ _ => Iff.rfl⟩

lemma of_views (hft : s'.ft.bumpPtr = s.ft.bumpPtr)
    (hpte : ∀ j, j ≠ i → (s'.pte j.1 j.2).present = (s.pte j.1 j.2).present ∧ (s'.pte j.1 j.2).page = (s.pte j.1 j.2).page)
    (hspte : ∀ j, j ≠ i → s'.spte j.1 j.2 = s.spte j.1 j.2) : Spares i s s' where
  bumpPtr := hft
  refers j hj f := by rw [Refers, Refers, (hpte j hj).1, (hpte j hj).2]
  resident j hj := by rw [Resident, Resident, hspte j hj]

lemma setPagedir {s : Vm} {t : ℕ} {pd : PageDir} {n : ℕ}
    (hpd : ∀ m, m ≠ n → (pteAt pd m).present = (s.pte t m).present ∧
      (pteAt pd m).page = (s.pte t m).page) : Spares (t, n) s (s.setPagedir t pd) := by
  refine of_views rfl (fun j hj => ?_) fun j _ => spte_setPagedir ..
  rw [pte_setPagedir]
  split_ifs with hp
  · rw [hp]
    exact hpd j.2 fun hn => hj (Prod.ext hp hn)
  · exact ⟨rfl, rfl⟩

lemma modifySpte (s : Vm) (t va : ℕ) (f : SptEntry → SptEntry) :
    Spares (t, pgNo va) s (s.modifySpte t va f) := by
  refine of_views rfl (fun j _ => ?_) fun j hj => ?_
  · rw [pte_modifySpte]
    exact ⟨rfl, rfl⟩
  · rw [spte_modifySpte, if_neg fun h => hj (Prod.ext h.1 h.2)]

end Vm.Spares

lemma Vm.Loads.spares {t va kpage : ℕ} (h : Loads t va kpage s s') :
    Spares (t, pgNo va) s s' := by
  cases h with
  | swapIn i =>
    refine .trans s { s with frames := _, swap := _ } _ ?_ (.modifySpte _ t va _)
    exact .of_views rfl (fun _ _ => ⟨rfl, rfl⟩) fun _ _ => rfl
  | file e => exact .of_views rfl (fun _ _ => ⟨rfl, rfl⟩) fun _ _ => rfl
  | install hset =>
    refine .setPagedir fun m hm => ?_
    rw [pteAt_pagedirSetPage hset, if_neg hm]
    exact ⟨rfl, rfl⟩
  | entry f => exact .modifySpte s t va f

lemma Vm.Evicts.spares {t va : ℕ} (h : Evicts t va s s') : Spares (t, pgNo va) s s' := by
  cases h with
  | load h => exact pgNo_pgRoundDown va ▸ h.spares
  | accessed =>
    refine .setPagedir fun m hm => ?_
    rw [pagedirSetAccessed, pteAt_updatePte, if_neg fun h => hm h.1]
    exact ⟨rfl, rfl⟩
  | entry f => exact .modifySpte s t va f
  | clear =>
    refine .setPagedir fun m hm => ?_
    rw [pteAt_pagedirClearPage, if_neg hm]
    exact ⟨rfl, rfl⟩
  | _ => exact .of_views rfl (fun _ _ => ⟨rfl, rfl⟩) fun _ _ => rfl

/-- `evict_page` past its loop: the page that is not mapped any more is the current thread's. -/
lemma evictFrame_ok {alloc : ℕ → Bool} {t F : ℕ} (h : (evictFrame alloc t).run s = .ok F s') :
    F = s.ft.bumpPtr ∧ Vm.Spares (t, pgNo s.ft.cur.vaddr) s s' ∧
      ∀ f, ¬ s'.Refers (t, pgNo s.ft.cur.vaddr) f := by
  rw [evictFrame_run] at h
  split_ifs at h with huser
  cases he : s.spte t (pgNo s.ft.cur.vaddr) with
  | none => rw [he] at h; cases h
  | some e =>
    rw [he] at h
    obtain ⟨_, s₁, hsave, h⟩ := run_bind_ok.mp h
    obtain ⟨_, s₂, hclear, h⟩ := run_bind_ok.mp h
    cases hclear
    cases h
    have hvac : Vm.Spares (t, pgNo s.ft.cur.vaddr) s (s.vacated t) := by
      refine .trans s { s with ft := _ } _ ?_ (.modifySpte _ t _ _)
      exact .of_views rfl (fun _ _ => ⟨rfl, rfl⟩) fun _ _ => rfl
    have htrail := savePage_evicts alloc t s.ft.cur.vaddr (s.vacated t) e.isStackPage
    rw [hsave] at htrail
    have hkept : Vm.Spares (t, pgNo s.ft.cur.vaddr) _ _ :=
      of_trail Vm.Spares.refl Vm.Spares.trans (fun _ _ => Vm.Evicts.spares) (htrail.tail (.clear s₁))
    have hall := Vm.Spares.trans _ _ _ hvac hkept
    refine ⟨hall.bumpPtr, hall, fun f hf => ?_⟩
    rw [Vm.Refers, Vm.pte_setPagedir, pteAt_pagedirClearPage] at hf
    exact absurd hf.1 (by simp)

lemma Vm.runClock_refers (s : Vm) (t : ℕ) (i : ℕ × ℕ) (f : ℕ) :
    (s.runClock t).Refers i f ↔ s.Refers i f := by
  obtain ⟨a, ha⟩ := s.pte_runClock t i.1 i.2
  rw [Refers, Refers, ha]

/-! ## Full tables -/

/-- Every frame is `FT_FULL` and holds a resident page of some process, at the address the table
has for it. -/
structure Vm.Filled (s : Vm) : Prop where
  full : ∀ f < s.ft.maxFrame, (s.ft.entry f).status = .full
  held : ∀ f < s.ft.maxFrame, ∃ p, s.Refers (p, pgNo (s.ft.entry f).vaddr) f ∧
    s.Resident (p, pgNo (s.ft.entry f).vaddr)

/-- **Eviction takes the page from its owner** exactly when the owner is the current thread, and the
only one. -/
theorem evictPage_takes_iff {alloc : ℕ → Bool} {t F : ℕ} {s s' : Vm} (hfilled : s.Filled)
    (hrun : (evictPage alloc t).run s = .ok F s') :
    ((∀ i, ¬ s'.Refers i F) ∧
        ∀ i, s.Refers i F → ∀ j, s.Resident j ∧ ¬ s'.Resident j ↔ j = i)
      ↔ ∀ i, s.Refers i (s.victim t) → i = (t, pgNo (s.ft.entry (s.victim t)).vaddr) := by
  have hrun' : (evictFrame alloc t).run (s.runClock t) = .ok F s' := hrun
  obtain ⟨hF, hspares, hgone⟩ := evictFrame_ok hrun'
  rw [Vm.bumpPtr_runClock] at hF
  subst hF
  have hcur : (s.runClock t).ft.cur = s.ft.entry (s.victim t) := by
    rw [FrameTable.cur, Vm.bumpPtr_runClock, Vm.entry_runClock]
  rw [hcur] at hspares hgone
  constructor
  · rintro ⟨hfree, -⟩ i hi
    by_contra hne
    exact hfree i ((hspares.refers i hne _).mpr ((s.runClock_refers t i _).mpr hi))
  · intro hown
    obtain ⟨p, hp, hres⟩ := hfilled.held (s.victim t) (Clock.pos_lt s.ft.bump_lt _)
    obtain rfl : p = t := congrArg Prod.fst (hown _ hp)
    refine ⟨fun i hi => ?_, fun i hi j => ?_⟩
    · by_cases hne : i = (p, pgNo (s.ft.entry (s.victim p)).vaddr)
      · exact hgone _ (hne ▸ hi)
      · exact hne (hown i ((s.runClock_refers p i _).mp ((hspares.refers i hne _).mp hi)))
    · rw [hown i hi]
      refine ⟨fun hleft => ?_, fun hj => ?_⟩
      · obtain ⟨hj, hj'⟩ := hleft
        by_contra hne
        exact hj' ((hspares.resident j hne).mpr (by rw [Vm.Resident, Vm.spte_runClock]; exact hj))
      · rw [hj]
        refine ⟨hres, ?_⟩
        have hpres := ((s.runClock_refers p _ _).mpr hp).1
        rw [← hcur] at hpres ⊢
        obtain ⟨e, i, he, -, rfl⟩ := evictFrame_ok_of_present hpres hrun'
        rw [Vm.Resident, Vm.spte_evicted _ _ _ _ _ he, if_pos ⟨rfl, rfl⟩]
        exact Bool.false_ne_true

/-! ## Two processes at one address -/

/-- One frame, which holds page 1 of process 1; the other processes have such a page too, but not in
memory. -/
def oneFull : Vm where
  ft := ⟨1, fun _ => ⟨.full, 0x1000⟩, 0, Nat.one_pos⟩
  frames := fun _ _ => 0
  procs := fun p =>
    { pagedir := if p = 1 then
        (pagedirSetPage pagedirCreate 0x1000 0 true true).getD pagedirCreate else pagedirCreate
      spTable := fun n => some
        (.create (n * pgSize) (decide (p = 1 ∧ n = 1)) 0 0 pgSize true zeroPage_fits)
      executable := []
      esp := null }
  swap := ⟨0, fun _ => ⟨0, 0⟩, fun _ _ => 0⟩

lemma oneFull_filled : oneFull.Filled where
  full _ _ := rfl
  held f hf := by
    obtain rfl : f = 0 := Nat.lt_one_iff.mp hf
    exact ⟨1, by decide, by decide⟩

lemma oneFull_refers {i : ℕ × ℕ} {f : ℕ} (h : oneFull.Refers i f) : i = (1, pgNo 0x1000) := by
  obtain ⟨hpres, -⟩ := h
  have hset : pagedirSetPage pagedirCreate 0x1000 0 true true
      = some ((pagedirSetPage pagedirCreate 0x1000 0 true true).getD pagedirCreate) := rfl
  by_cases hp : i.1 = 1
  · have hpd : (oneFull.procs i.1).pagedir
        = (pagedirSetPage pagedirCreate 0x1000 0 true true).getD pagedirCreate := if_pos hp
    rw [Vm.pte, hpd, pteAt_pagedirSetPage hset] at hpres
    split_ifs at hpres with hn
    · exact Prod.ext hp hn
    · cases hpres
  · have hpd : (oneFull.procs i.1).pagedir = pagedirCreate := if_neg hp
    rw [Vm.pte, hpd] at hpres
    cases hpres

/-- Process 1 evicts its own page. -/
theorem oneFull_own : ∃ s', (evictPage (fun _ => true) 1).run oneFull = .ok 0 s' ∧
    (∀ i, ¬ s'.Refers i 0) ∧
    ∀ i, oneFull.Refers i 0 → ∀ j, oneFull.Resident j ∧ ¬ s'.Resident j ↔ j = i := by
  have hends : endsWith (fun F (_ : Vm) => F = 0)
      ((evictPage (fun _ => true) 1).run oneFull) = true := by decide
  simp only [endsWith_iff, decide_eq_true_eq] at hends
  obtain ⟨_, s', hrun, rfl⟩ := hends
  exact ⟨s', hrun, (evictPage_takes_iff oneFull_filled hrun).mpr fun i hi => oneFull_refers hi⟩

/-- Process 2 evicts the page of process 1, which stays mapped, and resident. -/
theorem oneFull_other : oneFull.Filled ∧ oneFull.Refers (1, 1) 0 ∧
    ∃ s', (evictPage (fun _ => true) 2).run oneFull = .ok 0 s' ∧
      s'.Refers (1, 1) 0 ∧ s'.Resident (1, 1) := by
  have hends : endsWith (fun F (s' : Vm) => F = 0 ∧ s'.Refers (1, 1) 0 ∧ s'.Resident (1, 1))
      ((evictPage (fun _ => true) 2).run oneFull) = true := by decide
  simp only [endsWith_iff, decide_eq_true_eq] at hends
  obtain ⟨_, s', hrun, rfl, hr, hres⟩ := hends
  exact ⟨oneFull_filled, by decide, s', hrun, hr, hres⟩

end Pintos
