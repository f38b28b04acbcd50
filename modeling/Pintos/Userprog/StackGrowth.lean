import Pintos.Vm.Effects
import Mathlib.Algebra.Order.Group.Abs

/-!
# Userprog/StackGrowth — which faults grow the stack

A fault is to grow the stack if it is no further than 32 bytes below the stack pointer. The test in
`page_fault` takes the `abs` of a 32-bit difference, and wraps around twice: at `2^31` the difference
is its own, negative absolute value, and near the top it is a small negative number.
-/

namespace Pintos

open Machinery EStateM

lemma abs32_le (i : ℤ) : abs32 i ≤ 32 ↔ i = -2 ^ 31 ∨ -32 ≤ i ∧ i ≤ 32 := by
  rw [abs32]
  split_ifs with h
  · exact iff_of_true (by omega) (.inl h)
  · rw [abs_le]
    exact (or_iff_right h).symm

lemma growsStack_user {addr fEsp : ℕ} (haddr : addr < 2 ^ 32) (hesp : fEsp < 2 ^ 32) :
    growsStack null fEsp addr = true ↔
      fEsp ≤ addr + 32 ∨ fEsp = addr + 2 ^ 31 ∨ addr + 2 ^ 32 ≤ fEsp + 32 := by
  have htest : growsStack null fEsp addr = true ↔
      abs32 (toInt32 ((fEsp : ℤ) - addr)) ≤ 32 ∨ fEsp < addr := by
    simp [growsStack, null]
  rw [htest, abs32_le, toInt32]
  split_ifs <;> omega

/-- What the test is meant to decide: a fault no further than 32 bytes below the stack pointer
grows the stack; any other ends the process, and changes nothing. -/
structure Decides (alloc : ℕ → Bool) (t addr fEsp : ℕ) (s : Vm) : Prop where
  grows : fEsp ≤ addr + 32 →
    (pageFault alloc t addr fEsp).run s = (growStack alloc t (pgRoundDown addr)).run s
  maps : fEsp ≤ addr + 32 → s.HasEmpty → (s.pte t (pgNo addr)).present = false →
    alloc (pdNo addr) = true → ∃ s', (pageFault alloc t addr fEsp).run s = .ok () s' ∧
      (s'.pte t (pgNo addr)).present = true
  exits : addr + 32 < fEsp → (pageFault alloc t addr fEsp).run s = .error (.exit (-1)) s
  pageZero : pgNo addr = 0 → pgSize + 32 ≤ fEsp →
    (final ((pageFault alloc t addr fEsp).run s)).pte t 0 = s.pte t 0

section

variable {alloc : ℕ → Bool} {t addr fEsp : ℕ} {s : Vm}
variable {pageStart : ℕ}

lemma growStack_run (huser : isUserVaddr pageStart = true) :
    (growStack alloc t pageStart).run s = (getUserPage alloc t pageStart >>= fun kpage => do
      if ← installPage alloc t pageStart kpage true then pure () else throw (.exit (-1))).run
      (s.setSpTable t ((s.procs t).spTable.insert (pgNo pageStart)
        (SptEntry.create pageStart true 0 0 0 true (Nat.zero_le _)))) := by
  rw [growStack, run_bind, createSPTEntry_run, if_pos huser]

lemma described_growStack (alloc : ℕ → Bool) (t : ℕ) (s : Vm)
    (huser : isUserVaddr pageStart = true) :
    (t, pgNo pageStart) ∈ (final ((growStack alloc t pageStart).run s)).described := by
  rw [growStack_run huser]
  refine grows_bind (grows_getUserPage alloc t pageStart _) (fun kpage s₁ _ => ?_) ?_
  · refine grows_bind (grows_installPage alloc t s₁ pageStart kpage true) fun ok s₂ _ => ?_
    split_ifs
    · exact grows_pure _
    · exact grows_throw _
  · show (Vm.spte _ t (pgNo pageStart)).isSome
    rw [Vm.spte_setSpTable, if_pos rfl]
    rw [SpTable.insert_apply, Option.isSome_or, if_pos rfl, Option.isSome_some, Bool.or_true]

lemma growStack_maps (huser : isUserVaddr pageStart = true) (hempty : s.HasEmpty)
    (hnp : (s.pte t (pgNo pageStart)).present = false) (halloc : alloc (pdNo pageStart) = true) :
    ∃ s', (growStack alloc t pageStart).run s = .ok () s' ∧
      (s'.pte t (pgNo pageStart)).present = true := by
  rw [growStack_run huser]
  generalize hs₁ : s.setSpTable t ((s.procs t).spTable.insert (pgNo pageStart)
    (SptEntry.create pageStart true 0 0 0 true (Nat.zero_le _))) = s₁
  have hempty₁ : s₁.HasEmpty := hs₁ ▸ hempty
  have hnp₁ : (s₁.pte t (pgNo pageStart)).present = false := by
    rwa [← hs₁, Vm.pte_setSpTable]
  obtain ⟨ft, -, -, -, hget⟩ := getUserPage_of_empty hempty₁ alloc t pageStart
  obtain ⟨pd, hset⟩ : ∃ pd, pagedirSetPage (s₁.procs t).pagedir pageStart ft.bumpPtr true
      (alloc (pdNo pageStart)) = some pd := by
    rw [halloc]
    exact Option.isSome_iff_exists.mp (isSome_pagedirSetPage ..)
  generalize hs₂ : ({ s₁ with ft := ft.setCur ⟨.full, pageStart⟩ } : Vm) = s₂ at hget
  have hprocs : s₂.procs = s₁.procs := by rw [← hs₂]
  rw [← hprocs] at hset
  have hnp₂ : (s₂.pte t (pgNo pageStart)).present = false := by
    rwa [Vm.pte, hprocs]
  have hinstall := installPage_of_set hnp₂ hset
  refine ⟨s₂.setPagedir t pd, ?_, ?_⟩
  · simp only [run_bind, hget, hinstall, if_true, run_pure]
  · rw [Vm.pte_of_set hset, if_pos ⟨rfl, rfl⟩]
    rfl

lemma pageFault_user (alloc : ℕ → Bool) (fEsp : ℕ) (hnull : addr ≠ null) (huser : addr < physBase)
    (hesp : (s.procs t).esp = null) (hnone : s.spte t (pgNo addr) = none) :
    (pageFault alloc t addr fEsp).run s = if growsStack null fEsp addr = true
      then (growStack alloc t (pgRoundDown addr)).run s else .error (.exit (-1)) s := by
  have hround : isUserVaddr (pgRoundDown addr) = true :=
    decide_eq_true ((Nat.sub_le _ _).trans_lt huser)
  have hnot : ¬ fEsp < null := Nat.not_lt_zero _
  simp only [pageFault, if_neg hnull, getSPTEntry, vaddrToPageNum, if_pos hround, bind_assoc, pure_bind,
    run_bind, run_get, pgNo_pgRoundDown, hnone, hesp, if_neg hnot]
  split_ifs
  · rfl
  · rfl

/-- **Stack growth decision.** `page_fault` decides as it is meant to, unless the stack pointer is
exactly `2 ^ 31` above the address, or less than 32 bytes from wrapping around to it. -/
theorem stack_growth_decision (alloc : ℕ → Bool) (t : ℕ) {addr fEsp : ℕ} {s : Vm} (hnull : addr ≠ null)
    (huser : addr < physBase) (hesp : fEsp < 2 ^ 32) (hout : (s.procs t).esp = null)
    (hnone : s.spte t (pgNo addr) = none) :
    Decides alloc t addr fEsp s ↔ fEsp ≠ addr + 2 ^ 31 ∧ fEsp + 32 < addr + 2 ^ 32 := by
  have haddr : addr < 2 ^ 32 := huser.trans (by decide)
  have hround : isUserVaddr (pgRoundDown addr) = true :=
    decide_eq_true ((Nat.sub_le _ _).trans_lt huser)
  have hrun := pageFault_user alloc fEsp hnull huser hout hnone
  have htest := growsStack_user haddr hesp
  constructor
  · intro h
    by_contra hnot
    have hfar : addr + 32 < fEsp := by omega
    have hgrow := hrun.symm.trans (h.exits hfar)
    rw [if_pos (htest.mpr (by omega))] at hgrow
    have hmem := described_growStack alloc t s hround
    rw [hgrow, pgNo_pgRoundDown] at hmem
    have hsome : (s.spte t (pgNo addr)).isSome := hmem
    rw [hnone] at hsome
    cases hsome
  · rintro ⟨hmiddle, htop⟩
    have hgrow (hle : fEsp ≤ addr + 32) :
        (pageFault alloc t addr fEsp).run s = (growStack alloc t (pgRoundDown addr)).run s := by
      rw [hrun, if_pos (htest.mpr (.inl hle))]
    have hexit (hlt : addr + 32 < fEsp) :
        (pageFault alloc t addr fEsp).run s = .error (.exit (-1)) s := by
      rw [hrun, if_neg]
      rw [htest]
      omega
    refine ⟨hgrow, fun hle hempty hnp halloc => ?_, hexit, fun hzero hle => ?_⟩
    · have hpd : pdNo (pgRoundDown addr) = pdNo addr := by
        rw [pdNo_eq, pdNo_eq, pgNo_pgRoundDown]
      have hmaps := growStack_maps hround hempty (by rw [pgNo_pgRoundDown]; exact hnp) (hpd ▸ halloc)
      rw [hgrow hle]
      rw [pgNo_pgRoundDown] at hmaps
      exact hmaps
    · have hlt : addr < pgSize := (Nat.div_eq_zero_iff_lt (by decide)).mp hzero
      rw [hexit (by omega)]
      rfl

end

/-- Empty frames, and processes with no pages. -/
def noPages : Vm where
  ft := ⟨4, fun _ => ⟨.empty, 0⟩, 0, by decide⟩
  frames := fun _ _ => 0
  procs := fun _ =>
    { pagedir := pagedirCreate
      spTable := fun _ => none
      executable := []
      esp := null }
  swap := ⟨0, fun _ => ⟨0, 0⟩, fun _ _ => 0⟩

/-- A push just below the stack pointer, and a stray access far below it. -/
theorem stack_growth_decision_noPages :
    Decides (fun _ => true) 1 0xbfffeffc 0xbffff000 noPages ∧
      Decides (fun _ => true) 1 0x08048000 0xbffff000 noPages :=
  ⟨(stack_growth_decision _ 1 (by decide) (by decide) (by decide) rfl rfl).mpr (by decide),
    (stack_growth_decision _ 1 (by decide) (by decide) (by decide) rfl rfl).mpr (by decide)⟩

/-- Halfway round: with the stack pointer at `PHYS_BASE`, an access at 1 GiB gets a stack page.
-/
theorem stack_growth_wraps : ¬ Decides (fun _ => true) 1 0x40000000 0xc0000000 noPages ∧
    ¬ Decides (fun _ => true) 1 4 0xfffffff0 noPages ∧
    ((final ((pageFault (fun _ => true) 1 4 0xfffffff0).run noPages)).pte 1 0).present = true := by
  have hmapped (addr fEsp : ℕ) (hfar : addr + 32 < fEsp)
      (hpte : ((final ((pageFault (fun _ => true) 1 addr fEsp).run noPages)).pte 1
        (pgNo addr)).present = true) : ¬ Decides (fun _ => true) 1 addr fEsp noPages := by
    intro h
    rw [h.exits hfar] at hpte
    cases hpte
  have hzero : ((final ((pageFault (fun _ => true) 1 4 0xfffffff0).run noPages)).pte 1 0).present
      = true := by decide
  exact ⟨hmapped _ _ (by decide) (by decide), hmapped _ _ (by decide) hzero, hzero⟩

end Pintos
