import Pintos.Machinery.Ledger
import Pintos.Vm.Effects

/-!
# Vm/Exclusive — one frame, one page

Frames are the resources of a `Ledger`, page table entries their places, `FT_FULL` the mark. The
ledger survives as long as the frame of a page that comes in was not marked — which is so for a frame
found empty, and not for one that `evict_page` vacates: it goes to its new page marked `FT_EMPTY`,
with the hand on it, and the next request takes it.
-/

namespace Pintos

open Machinery EStateM Relation

/-! ## Which entries refer to which frames -/

/-- The entry of page `i.2` of process `i.1` is present and refers to frame `f`. -/
def Vm.Refers (s : Vm) (i : ℕ × ℕ) (f : ℕ) : Prop :=
  (s.pte i.1 i.2).present = true ∧ (s.pte i.1 i.2).page = f

instance (s : Vm) (i : ℕ × ℕ) (f : ℕ) : Decidable (s.Refers i f) :=
  inferInstanceAs (Decidable (_ ∧ _))

/-- From `s` to `s'` nothing comes to be mapped, but for page `i` perhaps, to frame `f`. -/
structure Vm.Maps (i : ℕ × ℕ) (f : ℕ) (s s' : Vm) : Prop where
  ft : s'.ft = s.ft
  refers : ∀ j g, s'.Refers j g → s.Refers j g ∨ j = i ∧ g = f

variable {s s' : Vm}

namespace Vm.Maps

variable {i : ℕ × ℕ} {f : ℕ}

lemma trans (a b c : Vm) (hab : Maps i f a b) (hbc : Maps i f b c) : Maps i f a c where
  ft := hbc.ft.trans hab.ft
  refers j g h := (hbc.refers j g h).elim (hab.refers j g) .inr

lemma of_pte (hft : s'.ft = s.ft) (hpte : ∀ p n, s'.pte p n = s.pte p n) : Maps i f s s' where
  ft := hft
  refers j g h := by
    rw [Refers, hpte] at h
    exact .inl h

lemma refl (s : Vm) : Maps i f s s := of_pte rfl fun _ _ => rfl

end Vm.Maps

lemma Vm.Loads.maps {t va kpage : ℕ} (h : Loads t va kpage s s') :
    Maps (t, pgNo va) kpage s s' := by
  cases h with
  | swapIn i => exact .of_pte rfl fun p n => pte_modifySpte ..
  | file e => exact .of_pte rfl fun _ _ => rfl
  | install hset =>
    refine ⟨rfl, ?_⟩
    rintro ⟨p, n⟩ g hg
    rw [Refers, pte_of_set hset] at hg
    split_ifs at hg with hpn
    · obtain ⟨rfl, rfl⟩ := hpn
      exact .inr ⟨rfl, hg.2.symm⟩
    · exact .inl hg
  | entry f => exact .of_pte rfl fun p n => pte_modifySpte ..

lemma maps_of_loads {t va kpage : ℕ} (h : ReflTransGen (Vm.Loads t va kpage) s s') :
    Vm.Maps (t, pgNo va) kpage s s' :=
  of_trail Vm.Maps.refl Vm.Maps.trans (fun _ _ => Vm.Loads.maps) h

variable {i : ℕ × ℕ}

lemma createSPTEntry_maps {f : ℕ} (t va : ℕ) (e : SptEntry) (s : Vm) :
    Vm.Maps i f s (final ((createSPTEntry t va e).run s)) := by
  rw [createSPTEntry_run]
  split_ifs
  · exact .of_pte rfl fun p n => Vm.pte_setSpTable ..
  · exact .refl s

/-! ## The ledger of frames -/

variable {s : Vm}

namespace Vm

/-- A frame of the table that is marked `FT_FULL`. -/
def Taken (s : Vm) (f : ℕ) : Prop := f < s.ft.maxFrame ∧ (s.ft.entry f).status = .full

/-- Frame exclusivity: no two present entries refer to one frame. -/
def Exclusive (s : Vm) : Prop := ∀ i j f, s.Refers i f → s.Refers j f → i = j

/-- The ledger of frames. -/
abbrev Sound (s : Vm) : Prop := Ledger s.Refers s.Taken

lemma Sound.of_maps (h : s.Sound) (hft : s'.ft = s.ft)
    (hr : ∀ i f, s'.Refers i f → s.Refers i f) : s'.Sound :=
  h.mono hr fun f hf => by
    rwa [Taken, hft]

lemma destroy_keeps {t : ℕ} (h : s.destroy t = some s') :
    s'.ft = s.ft ∧ s'.swap = s.swap ∧
      ∀ p n, s'.pte p n = if p = t then Pte.zero else s.pte p n := by
  obtain ⟨used, -, rfl⟩ := Option.map_eq_some_iff.mp h
  exact ⟨rfl, rfl, fun p n => pte_setPagedir ..⟩

lemma Sound.destroy (h : s.Sound) {t : ℕ} (hd : s.destroy t = some s') : s'.Sound := by
  obtain ⟨hft, -, hpte⟩ := destroy_keeps hd
  refine h.of_maps hft ?_
  rintro ⟨p, n⟩ f hf
  rw [Refers, hpte] at hf
  split_ifs at hf
  · exact absurd hf.1 Bool.false_ne_true
  · exact hf

lemma Sound.resume {s' : Vm} {α : Type} {t : ℕ} {r : EStateM.Result Stop Vm α}
    (h : (final r).Sound) (hr : Vm.resume t r = some s') : s'.Sound := by
  rcases r with ⟨a, s₁⟩ | ⟨_ | _ | _, s₁⟩
  · cases hr
    exact h
  · exact h.destroy hr
  · cases hr
  · cases hr

end Vm

variable {alloc : ℕ → Bool}

/-- A frame found empty may be handed out: whoever maps it, for one page, keeps the ledger. -/
lemma sound_request {α : Type} {t va : ℕ} {use : ℕ → Kern α}
    (huse : ∀ f s, Vm.Maps i f s (final ((use f).run s))) (h : s.Sound) (hempty : s.HasEmpty) :
    (final ((getUserPage alloc t va >>= use).run s)).Sound := by
  obtain ⟨ft, hcur, hmax, hentry, hrun⟩ := getUserPage_of_empty hempty alloc t va
  have hm := huse ft.bumpPtr { s with ft := ft.setCur ⟨.full, va⟩ }
  rw [run_bind, hrun]
  refine h.hand_out ?_ ?_ ?_ hm.refers
  · rintro ⟨-, hfull⟩
    rw [← hentry] at hfull
    exact absurd (hcur.symm.trans hfull) (by decide)
  · rintro g ⟨hg, hfull⟩
    rw [← hmax] at hg
    rw [← hentry] at hfull
    refine ⟨hm.ft ▸ hg, ?_⟩
    rw [hm.ft, FrameTable.entry_setCur]
    split_ifs
    · rfl
    · exact hfull
  · refine ⟨hm.ft ▸ ft.bump_lt, ?_⟩
    rw [hm.ft, FrameTable.entry_setCur, if_pos rfl]

/-! ## The handlers -/

lemma growStack_sound {t pageStart : ℕ} (h : s.Sound) (hempty : s.HasEmpty) :
    (final ((growStack alloc t pageStart).run s)).Sound := by
  rw [growStack, run_bind, createSPTEntry_run]
  split_ifs
  · refine sound_request (i := (t, pgNo pageStart)) (fun f s' => ?_) (h.of_maps rfl ?_) hempty
    · refine final_bind Vm.Maps.trans (maps_of_loads (installPage_loads ..)) fun ok s'' _ => ?_
      split_ifs <;> exact .refl s''
    · rintro ⟨p, n⟩ f hf
      rwa [Vm.Refers, Vm.pte_setSpTable] at hf
  · exact h

lemma pageFault_sound {t faultAddr fEsp : ℕ} (h : s.Sound) (hempty : s.HasEmpty) :
    (final ((pageFault alloc t faultAddr fEsp).run s)).Sound := by
  rcases pageFault_cases alloc t faultAddr fEsp s with hrun | ⟨e, -, hrun⟩ | ⟨-, pg, hrun⟩
  · rwa [hrun]
  · rw [hrun]
    exact sound_request (fun f s' => maps_of_loads (loadPage_loads ..)) h hempty
  · rw [hrun]
    exact growStack_sound h hempty

lemma setupStackPage_sound {t : ℕ} (h : s.Sound) (hempty : s.HasEmpty) :
    (final ((setupStackPage alloc t).run s)).Sound := by
  refine sound_request (i := (t, pgNo stackPage)) (fun f s₁ => ?_) h hempty
  refine final_bind Vm.Maps.trans (createSPTEntry_maps ..) fun inserted s₂ _ => ?_
  split_ifs
  · exact final_bind Vm.Maps.trans (.of_pte rfl fun p n => Vm.pte_modifySpte ..)
      fun _ s₃ _ => maps_of_loads (installPage_loads ..)
  · exact maps_of_loads (installPage_loads ..)

/-! ## Runs -/

lemma Vm.pte_setEsp (s : Vm) (t esp p n : ℕ) : (s.setEsp t esp).pte p n = s.pte p n := by
  by_cases h : p = t
  · subst h
    simp [pte, setEsp]
  · simp [pte, setEsp, h]

lemma Vm.refers_updatePte {t va : ℕ} {m : Pte → Pte}
    (hm : ∀ pte, (m pte).present = pte.present ∧ (m pte).page = pte.page) (i : ℕ × ℕ) (f : ℕ)
    (h : (s.setPagedir t (updatePte (s.procs t).pagedir va m)).Refers i f) : s.Refers i f := by
  rw [Refers, pte_setPagedir, pteAt_updatePte] at h
  split_ifs at h with hi
  · rw [(hm _).1, (hm _).2] at h
    rwa [Refers, hi]
  · rwa [Refers, hi]
  · exact h

/-- Every request for a frame is made while some frame is `FT_EMPTY`, so never reaches
`evict_page`. -/
def RequestsFit (s : Vm) : VmAct → Prop
  | .pageFault .. => s.HasEmpty
  | .setupStack .. => s.HasEmpty
  | .syscall .. => True
  | .read .. => True
  | .write .. => True

/-- One event keeps the ledger, if a frame it asks for can be found empty. -/
lemma vmStep_sound (s : Vm) (a : VmAct) (s' : Vm) (h : s.Sound) (hfit : RequestsFit s a)
    (hstep : vmStep s a s') : s'.Sound := by
  cases a with
  | pageFault alloc t faultAddr fEsp => exact .resume (pageFault_sound h hfit) hstep
  | setupStack alloc t => exact .resume (setupStackPage_sound h hfit) hstep
  | syscall t esp =>
    obtain rfl : s' = s.setEsp t esp := hstep
    refine h.of_maps rfl fun i f hi => ?_
    rwa [Vm.Refers, Vm.pte_setEsp] at hi
  | read t va =>
    obtain ⟨-, rfl⟩ := hstep
    exact h.of_maps rfl (Vm.refers_updatePte fun _ => ⟨rfl, rfl⟩)
  | write t va i b =>
    obtain ⟨-, -, rfl⟩ := hstep
    exact h.of_maps rfl (Vm.refers_updatePte fun _ => ⟨rfl, rfl⟩)

lemma Vm.Boot.sound (h : s.Boot) : s.Sound where
  used i f hi := absurd hi.1 (by rw [h.unmapped]; decide)
  unique i j f hi _ := absurd hi.1 (by rw [h.unmapped]; decide)

/-- **No two pages share a frame**, in every run whose requests find an empty frame. -/
theorem exclusive_of_reach {s : Vm} (h : vmSystem.Reach RequestsFit s) :
    s.Exclusive ∧ ∀ alloc t va, s.HasEmpty → ∃ f s', (getUserPage alloc t va).run s = .ok f s' ∧
      (∀ i, ¬ s.Refers i f) ∧ ∀ alloc' t' va', s'.HasEmpty →
        ∃ f' s'', (getUserPage alloc' t' va').run s' = .ok f' s'' ∧ f' ≠ f := by
  have hs : s.Sound := h.invariant (fun _ => Vm.Boot.sound) vmStep_sound
  refine ⟨hs.unique, fun alloc t va hempty => ?_⟩
  obtain ⟨ft, hcur, hmax, hentry, hrun⟩ := getUserPage_of_empty hempty alloc t va
  refine ⟨_, _, hrun, hs.not_holds ?_, fun alloc' t' va' hempty' => ?_⟩
  · rintro ⟨-, hfull⟩
    rw [← hentry] at hfull
    exact absurd (hcur.symm.trans hfull) (by decide)
  · obtain ⟨ft', hcur', -, hentry', hrun'⟩ := getUserPage_of_empty hempty' alloc' t' va'
    refine ⟨_, _, hrun', fun heq => ?_⟩
    rw [FrameTable.cur, hentry', heq, FrameTable.entry_setCur, if_pos rfl] at hcur'
    cases hcur'

/-! ## The table of one frame -/

lemma zeroPage_fits : 0 + pgSize ≤ pgSize := Nat.le_of_eq (Nat.zero_add _)

/-- One frame, and processes whose pages are all of zeros. -/
def oneFrame : Vm where
  ft := ⟨1, fun _ => ⟨.empty, 0⟩, 0, Nat.one_pos⟩
  frames := fun _ _ => 0
  procs := fun _ =>
    { pagedir := pagedirCreate
      spTable := fun n => some (.create (n * pgSize) false 0 0 pgSize true zeroPage_fits)
      executable := []
      esp := null }
  swap := ⟨0, fun _ => ⟨0, 0⟩, fun _ _ => 0⟩

/-- Process `t` faults on one page after another. -/
def Vm.faults (t : ℕ) (s : Vm) (addrs : List ℕ) : Option Vm :=
  addrs.foldlM (fun s va => Vm.resume t ((pageFault (fun _ => true) t va va).run s)) s

lemma Vm.faults_reachable {t : ℕ} {addrs : List ℕ} (hs : vmSystem.Reachable s)
    (h : s.faults t addrs = some s') : vmSystem.Reachable s' := by
  induction addrs generalizing s with
  | nil =>
    cases h
    exact hs
  | cons va addrs ih =>
    obtain ⟨s₁, h₁, hrest⟩ := Option.bind_eq_some_iff.mp h
    exact ih (.next (a := .pageFault (fun _ => true) t va va) hs trivial h₁) hrest

lemma oneFrame_boot : oneFrame.Boot where
  used _ _ := rfl
  empty _ _ := rfl
  unmapped _ _ := rfl

lemma oneFrame_hasEmpty : oneFrame.HasEmpty := ⟨0, by decide, rfl⟩

/-- One fault maps the frame. -/
theorem exclusive_of_oneFault :
    ∃ s, oneFrame.faults 1 [0x1000] = some s ∧ s.Refers (1, 1) 0 ∧ s.Exclusive := by
  have hrun : (oneFrame.faults 1 [0x1000]).any (fun s => decide (s.Refers (1, 1) 0)) = true := by
    decide
  obtain ⟨s, hs, hr⟩ := (Option.any_eq_true ..).mp hrun
  have hstep : vmStep oneFrame (.pageFault (fun _ => true) 1 0x1000 0x1000) s := by
    simpa [Vm.faults, vmStep] using hs
  have hreach : vmSystem.Reach RequestsFit s :=
    .next (a := .pageFault (fun _ => true) 1 0x1000 0x1000) (.start oneFrame_boot)
      oneFrame_hasEmpty hstep
  exact ⟨s, hs, of_decide_eq_true hr, (exclusive_of_reach hreach).1⟩

/-- The second fault evicts the first page, the third takes the frame of the second. -/
theorem oneFrame_shared :
    ∃ s, oneFrame.faults 1 [0x1000, 0x2000, 0x3000] = some s ∧ vmSystem.Reachable s ∧
      s.Refers (1, 2) 0 ∧ s.Refers (1, 3) 0 := by
  have hrun : (oneFrame.faults 1 [0x1000, 0x2000, 0x3000]).any
      (fun s => decide (s.Refers (1, 2) 0 ∧ s.Refers (1, 3) 0)) = true := by decide
  obtain ⟨s, hs, hr⟩ := (Option.any_eq_true ..).mp hrun
  exact ⟨s, hs, Vm.faults_reachable (.start oneFrame_boot) hs, of_decide_eq_true hr⟩

end Pintos
