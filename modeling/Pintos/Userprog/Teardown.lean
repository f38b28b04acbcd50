import Pintos.Userprog.Stale
import Pintos.Vm.Transparent

/-!
# Userprog/Teardown — what a process leaves behind

A page of a process has a frame that is marked `FT_FULL`, or a slot of the swap table with the `tid`
of the process. `process_exit` goes through the page directory, which knows of neither table; so
what a process holds when it exits, it holds for good. For whom a frame was taken, and who has asked
for one, is kept beside the state here, and nothing depends on it.
-/

namespace Pintos

open Machinery EStateM Relation List

/-! ## What an event touches -/

/-- The process an event is of. -/
def VmAct.tid : VmAct → ℕ
  | .pageFault _ t _ _ => t
  | .setupStack _ t => t
  | .syscall t _ => t
  | .read t _ => t
  | .write t _ _ _ => t

/-- From `s` to `s'` process `t` writes to the frame table under the hand only, and puts its own
name on the slots it takes. -/
structure Vm.ByHand (t : ℕ) (s s' : Vm) : Prop where
  hand : s'.ft.bumpPtr = s.ft.bumpPtr
  maxFrame : s'.ft.maxFrame = s.ft.maxFrame
  others : ∀ f, f ≠ s.ft.bumpPtr → s'.ft.entry f = s.ft.entry f
  entries : s'.swap.entries = s.swap.entries
  slots : ∀ i, (s'.swap.table i).tid = (s.swap.table i).tid ∨ (s'.swap.table i).tid = t ∨
    (s'.swap.table i).tid = 0

variable {s s' : Vm}

namespace Vm.ByHand

variable {t : ℕ}

lemma trans (a b c : Vm) (hab : ByHand t a b) (hbc : ByHand t b c) : ByHand t a c where
  hand := hbc.hand.trans hab.hand
  maxFrame := hbc.maxFrame.trans hab.maxFrame
  others f hf := (hbc.others f (hab.hand ▸ hf)).trans (hab.others f hf)
  entries := hbc.entries.trans hab.entries
  slots i := by
    obtain hkeep | hnew := hbc.slots i
    · rw [hkeep]
      exact hab.slots i
    · exact .inr hnew

lemma of_eq (hft : s'.ft = s.ft) (hswap : s'.swap = s.swap) : ByHand t s s' := by
  refine ⟨?_, ?_, fun f _ => ?_, ?_, fun i => .inl ?_⟩
  · rw [hft]
  · rw [hft]
  · rw [hft]
  · rw [hswap]
  · rw [hswap]

lemma refl (s : Vm) : ByHand t s s := of_eq rfl rfl

lemma setCur (s : Vm) (e : FrameTableEntry) : ByHand t s { s with ft := s.ft.setCur e } :=
  ⟨rfl, rfl, fun _ hf => Function.update_of_ne hf .., rfl, fun _ => .inl rfl⟩

lemma setSlot {i : ℕ} {x : SwapEntry} (hft : s'.ft = s.ft)
    (hentries : s'.swap.entries = s.swap.entries)
    (htable : s'.swap.table = Function.update s.swap.table i x) (hx : x.tid = t ∨ x.tid = 0) :
    ByHand t s s' := by
  refine ⟨?_, ?_, fun f _ => ?_, hentries, fun j => ?_⟩
  · rw [hft]
  · rw [hft]
  · rw [hft]
  · rw [htable, Function.update_apply]
    split_ifs
    · exact .inr hx
    · exact .inl rfl

end Vm.ByHand

lemma Vm.Loads.byHand {t va kpage : ℕ} (h : Loads t va kpage s s') : ByHand t s s' := by
  cases h with
  | swapIn i => exact .setSlot rfl rfl rfl (.inr rfl)
  | _ => exact .of_eq rfl rfl

lemma Vm.Evicts.byHand {t va : ℕ} (h : Evicts t va s s') : ByHand t s s' := by
  cases h with
  | load h => exact h.byHand
  | frame e => exact .setCur s e
  | claim i => exact .setSlot rfl rfl rfl (.inl rfl)
  | store i p => exact ⟨rfl, rfl, fun _ _ => rfl, rfl, fun _ => .inl rfl⟩
  | _ => exact .of_eq rfl rfl

lemma byHand_of_loads {t va kpage : ℕ} (h : ReflTransGen (Vm.Loads t va kpage) s s') :
    Vm.ByHand t s s' := of_trail Vm.ByHand.refl Vm.ByHand.trans (fun _ _ => Vm.Loads.byHand) h

lemma evictFrame_byHand (alloc : ℕ → Bool) (t : ℕ) (s : Vm) :
    Vm.ByHand t s (final ((evictFrame alloc t).run s)) := by
  obtain ⟨va, htrail⟩ := evictFrame_evicts alloc t s
  exact of_trail Vm.ByHand.refl Vm.ByHand.trans (fun _ _ => Vm.Evicts.byHand) htrail

/-! ## Requests for a frame -/

/-- The page that the stack growth branch of `page_fault` maps. -/
def Vm.grownPage (s : Vm) (t faultAddr fEsp : ℕ) : ℕ :=
  if fEsp < (s.procs t).esp then pgRoundDown (s.procs t).esp else pgRoundDown faultAddr

/-- Does the event come to `get_user_page`? -/
def Vm.requests (s : Vm) : VmAct → Bool
  | .pageFault _ t faultAddr fEsp =>
    faultAddr ≠ null && isUserVaddr (pgRoundDown faultAddr) && ((s.spte t (pgNo faultAddr)).isSome ||
      growsStack (s.procs t).esp fEsp faultAddr && isUserVaddr (s.grownPage t faultAddr fEsp))
  | .setupStack _ _ => true
  | _ => false

/-- What an event of process `t` may do to the two tables: if it comes to `get_user_page`, write
to the entry that is under the hand then, and put its name on slots. -/
structure Vm.Touches (requested : Bool) (t : ℕ) (s s' : Vm) : Prop where
  maxFrame : s'.ft.maxFrame = s.ft.maxFrame
  others : ∀ f, (requested = true → f ≠ s'.ft.bumpPtr) → s'.ft.entry f = s.ft.entry f
  entries : s'.swap.entries = s.swap.entries
  slots : ∀ i, (s'.swap.table i).tid = (s.swap.table i).tid ∨
    (requested = true ∧ (s'.swap.table i).tid = t) ∨ (s'.swap.table i).tid = 0

lemma Vm.Touches.of_eq (requested : Bool) (t : ℕ) (hft : s'.ft = s.ft)
    (hswap : s'.swap = s.swap) : Vm.Touches requested t s s' := by
  refine ⟨?_, fun f _ => ?_, ?_, fun i => .inl ?_⟩
  · rw [hft]
  · rw [hft]
  · rw [hswap]
  · rw [hswap]

/-- The hand is moved, and nothing is written. -/
structure Vm.Aims (s s' : Vm) : Prop where
  maxFrame : s'.ft.maxFrame = s.ft.maxFrame
  entry : s'.ft.entry = s.ft.entry
  swap : s'.swap = s.swap

lemma Vm.Aims.touches {s s₁ s' : Vm} {t : ℕ} (h : s.Aims s₁) (h' : Vm.ByHand t s₁ s') :
    Vm.Touches true t s s' where
  maxFrame := h'.maxFrame.trans h.maxFrame
  others f hf := by rw [h'.others f (h'.hand ▸ hf rfl), h.entry]
  entries := h'.entries.trans (congrArg Swap.entries h.swap)
  slots i := by
    rw [← h.swap]
    exact (h'.slots i).imp_right fun hnew => hnew.imp_left fun hmine => ⟨rfl, hmine⟩

section

variable {alloc : ℕ → Bool} {t va : ℕ} {s : Vm} {α : Type}

lemma request_touches {use : ℕ → Kern α}
    (huse : ∀ kpage s₁, Vm.ByHand t s₁ (final ((use kpage).run s₁))) :
    Vm.Touches true t s (final ((getUserPage alloc t va >>= use).run s)) := by
  have hrun : ∃ s₁, s.Aims s₁ ∧ ∃ x : Kern ℕ, Vm.ByHand t s₁ (final (x.run s₁)) ∧
      (getUserPage alloc t va).run s = x.run s₁ := by
    simp only [getUserPage, run_bind, run_get]
    cases hfind : FrameTable.findEmpty s.ft.maxFrame s.ft with
    | some ft =>
      obtain ⟨-, hmax, hentry⟩ := FrameTable.findEmpty_some hfind
      exact ⟨{ s with ft := ft }, ⟨hmax, hentry, rfl⟩, takeFrame va, .setCur _ ⟨.full, va⟩, rfl⟩
    | none => exact ⟨s.runClock t, ⟨rfl, rfl, rfl⟩, evictFrame alloc t, evictFrame_byHand .., rfl⟩
  obtain ⟨s₁, haims, x, hx, heq⟩ := hrun
  have hbind : (getUserPage alloc t va >>= use).run s = (x >>= use).run s₁ := by
    rw [run_bind, run_bind, heq]
  rw [hbind]
  exact haims.touches (final_bind Vm.ByHand.trans hx fun kpage s₂ _ => huse kpage s₂)

lemma growStack_touches (huser : isUserVaddr va = true) :
    Vm.Touches true t s (final ((growStack alloc t va).run s)) := by
  rw [growStack, run_bind, createSPTEntry_run, if_pos huser]
  obtain ⟨hmax, hothers, hentries, hslots⟩ : Vm.Touches true t _
      (final ((getUserPage alloc t va >>= mapGrown alloc t va).run (s.setSpTable t _))) := by
    refine request_touches fun kpage s₁ => ?_
    refine final_bind Vm.ByHand.trans (byHand_of_loads (installPage_loads ..)) fun ok s₂ _ => ?_
    split_ifs <;> exact .refl s₂
  exact ⟨hmax, hothers, hentries, hslots⟩

lemma setupStackPage_touches :
    Vm.Touches true t s (final ((setupStackPage alloc t).run s)) := by
  rw [setupStackPage_eq]
  refine request_touches fun kpage s₁ => ?_
  obtain ⟨s₂, -, -, hft, hswap, hrun⟩ := mapStackPage_run alloc t kpage s₁
  rw [hrun]
  exact .trans s₁ s₂ _ (.of_eq hft hswap) (byHand_of_loads (installPage_loads ..))

lemma pageFault_touches {faultAddr fEsp : ℕ} :
    Vm.Touches (s.requests (.pageFault alloc t faultAddr fEsp)) t s
      (final ((pageFault alloc t faultAddr fEsp).run s)) := by
  by_cases hnull : faultAddr = null
  · rw [pageFault, if_pos hnull]
    exact .of_eq _ t rfl rfl
  by_cases huser : isUserVaddr (pgRoundDown faultAddr) = true
  · cases he : s.spte t (pgNo faultAddr) with
    | some e =>
      have hrequests : s.requests (.pageFault alloc t faultAddr fEsp) = true := by
        simp [Vm.requests, hnull, huser, he]
      rw [hrequests, pageFault_of_spte hnull huser he]
      exact request_touches fun kpage s₁ => byHand_of_loads (loadPage_loads ..)
    | none =>
      by_cases hgrow : growsStack (s.procs t).esp fEsp faultAddr = true
      · have hrun : (pageFault alloc t faultAddr fEsp).run s =
            (growStack alloc t (s.grownPage t faultAddr fEsp)).run s := by
          simp only [pageFault, if_neg hnull, getSPTEntry, vaddrToPageNum, if_pos huser, bind_assoc,
            pure_bind, run_bind, run_get, pgNo_pgRoundDown, he, if_pos hgrow, Vm.grownPage]
        rw [hrun]
        by_cases hgrown : isUserVaddr (s.grownPage t faultAddr fEsp) = true
        · have hrequests : s.requests (.pageFault alloc t faultAddr fEsp) = true := by
            simp [Vm.requests, hnull, huser, hgrow, hgrown]
          rw [hrequests]
          exact growStack_touches hgrown
        · rw [growStack, run_bind, createSPTEntry_run, if_neg hgrown]
          exact .of_eq _ t rfl rfl
      · have hrun : (pageFault alloc t faultAddr fEsp).run s = .error (.exit (-1)) s := by
          simp only [pageFault, if_neg hnull, getSPTEntry, vaddrToPageNum, if_pos huser, bind_assoc,
            pure_bind, run_bind, run_get, pgNo_pgRoundDown, he, if_neg hgrow, Machinery.run_throw]
        rw [hrun]
        exact .of_eq _ t rfl rfl
  · have hrun : (pageFault alloc t faultAddr fEsp).run s = .error (.exit (-1)) s := by
      simp only [pageFault, if_neg hnull, getSPTEntry, vaddrToPageNum, if_neg huser, run_bind,
        Machinery.run_throw]
    rw [hrun]
    exact .of_eq _ t rfl rfl

end

/-! ## Processes that come and go -/

namespace Vm

/-- Where a handler leaves the state, and whether it calls `exit`; any other stop leaves nothing to
go on in. -/
def outcome {α : Type} : EStateM.Result Stop Vm α → Option (Vm × Bool)
  | .ok _ s => some (s, false)
  | .error (.exit _) s => some (s, true)
  | .error .nullDeref _ => none
  | .error .outOfBounds _ => none

/-- An event, up to the call of `exit` if there is one. -/
def handle (s : Vm) : VmAct → Option (Vm × Bool)
  | .pageFault alloc t faultAddr fEsp => outcome ((pageFault alloc t faultAddr fEsp).run s)
  | .setupStack alloc t => outcome ((setupStackPage alloc t).run s)
  | .syscall t esp => some (s.setEsp t esp, false)
  | .read t va => if (s.pte t (pgNo va)).present = true then some (s.userRead t va, false) else none
  | .write t va i b =>
    if (s.pte t (pgNo va)).present = true ∧ (s.pte t (pgNo va)).writable = true
    then some (s.userWrite t va i b, false) else none

lemma final_of_outcome {α : Type} {r : EStateM.Result Stop Vm α} {s' : Vm} {ends : Bool}
    (h : outcome r = some (s', ends)) : final r = s' := by
  rcases r with ⟨a, s⟩ | ⟨_ | _ | _, s⟩
  · exact congrArg Prod.fst (Option.some.inj h)
  · exact congrArg Prod.fst (Option.some.inj h)
  · cases h
  · cases h

lemma handle_touches {a : VmAct} {ends : Bool} (h : s.handle a = some (s', ends)) :
    Vm.Touches (s.requests a) a.tid s s' := by
  cases a with
  | pageFault alloc t faultAddr fEsp =>
    rw [← final_of_outcome h]
    exact pageFault_touches
  | setupStack alloc t =>
    rw [← final_of_outcome h]
    exact setupStackPage_touches
  | syscall t esp =>
    cases h
    exact .of_eq _ t rfl rfl
  | read t va =>
    rw [handle] at h
    split_ifs at h
    cases h
    exact .of_eq _ t rfl rfl
  | write t va i b =>
    rw [handle] at h
    split_ifs at h
    cases h
    exact .of_eq _ t rfl rfl

end Vm

/-- The paging state; for whom each frame was last taken; which processes have come to
`get_user_page`; and how far the processes have got. -/
structure Tenants where
  vm : Vm
  owner : ℕ → ℕ
  paged : List ℕ
  ran : List ℕ
  leaving : List ℕ
  gone : List ℕ

/-- A process does something, or completes `thread_exit`. -/
inductive TenantAct where
  | run (a : VmAct)
  | exit (t : ℕ)

namespace Tenants

/-- After an event that leaves the paging state `s`. -/
def after (w : Tenants) (a : VmAct) (s : Vm) (ends : Bool) : Tenants where
  vm := s
  owner f := if w.vm.requests a = true ∧ f = s.ft.bumpPtr then a.tid else w.owner f
  paged := if w.vm.requests a then a.tid :: w.paged else w.paged
  ran := a.tid :: w.ran
  leaving := if ends then a.tid :: w.leaving else w.leaving
  gone := w.gone

/-- What is done; no `tid` is zero, and none is used again. -/
def act (w : Tenants) : TenantAct → Option Tenants
  | .run a =>
    if a.tid ≠ 0 ∧ a.tid ∉ w.leaving ∧ a.tid ∉ w.gone then
      (w.vm.handle a).map fun r => w.after a r.1 r.2
    else none
  | .exit t =>
    if t ≠ 0 ∧ t ∉ w.gone then
      (w.vm.destroy t).map fun s => { w with vm := s, gone := t :: w.gone }
    else none

/-- Nothing has run yet. -/
structure Boot (w : Tenants) : Prop where
  vm : w.vm.Boot
  slots : ∀ i < w.vm.swap.entries, (w.vm.swap.table i).tid = 0
  gone : w.gone = []

/-- No frame is `FT_FULL` for the process, and no slot has its `tid`. -/
def HoldsNothing (w : Tenants) (t : ℕ) : Prop :=
  (∀ f < w.vm.ft.maxFrame, (w.vm.ft.entry f).status = .full → w.owner f ≠ t) ∧
    ∀ i < w.vm.swap.entries, (w.vm.swap.table i).tid ≠ t

instance (w : Tenants) (t : ℕ) : Decidable (w.HoldsNothing t) := inferInstanceAs (Decidable (_ ∧ _))

/-- A process completes `thread_exit` only if it has never come to `get_user_page`. -/
def NeverPaged (w : Tenants) : TenantAct → Prop
  | .run _ => True
  | .exit t => t ∉ w.paged

/-- A process that holds something: it ran, it came to `get_user_page`, and it is not gone. -/
structure Holds (w : Tenants) (t : ℕ) : Prop where
  ran : t ∈ w.ran
  paged : t ∈ w.paged
  stays : t ∉ w.gone

/-- What is taken is taken by such a process. -/
structure Held (w : Tenants) : Prop where
  frames : ∀ f < w.vm.ft.maxFrame, (w.vm.ft.entry f).status = .full → w.Holds (w.owner f)
  slots : ∀ i < w.vm.swap.entries, (w.vm.swap.table i).tid ≠ 0 → w.Holds (w.vm.swap.table i).tid
  positive : 0 ∉ w.gone

end Tenants

/-- The system of processes that page and exit. -/
def tenantSystem : System Tenants TenantAct where
  init := Tenants.Boot
  step w a w' := w.act a = some w'

namespace Tenants

variable {w w' : Tenants}

lemma Boot.held (h : w.Boot) : w.Held where
  frames f hf hfull := by
    rw [h.vm.empty f hf] at hfull
    cases hfull
  slots i hi hne := absurd (h.slots i hi) hne
  positive := by
    rw [h.gone]
    exact not_mem_nil

lemma Held.run (h : w.Held) {a : VmAct} (hact : w.act (.run a) = some w') : w'.Held := by
  rw [act] at hact
  split_ifs at hact with hlive
  obtain ⟨⟨s, ends⟩, hhandle, rfl⟩ := Option.map_eq_some_iff.mp hact
  have htouches := Vm.handle_touches hhandle
  have hold {t : ℕ} (ht : w.Holds t) : (w.after a s ends).Holds t := by
    refine ⟨mem_cons_of_mem _ ht.ran, ?_, ht.stays⟩
    show t ∈ if w.vm.requests a = true then a.tid :: w.paged else w.paged
    split_ifs
    · exact mem_cons_of_mem _ ht.paged
    · exact ht.paged
  have hmine (hrequests : w.vm.requests a = true) : (w.after a s ends).Holds a.tid := by
    refine ⟨mem_cons_self, ?_, hlive.2.2⟩
    rw [after, if_pos hrequests]
    exact mem_cons_self
  refine ⟨fun f hf hfull => ?_, fun i hi hne => ?_, h.positive⟩
  · show (w.after a s ends).Holds (if _ then a.tid else w.owner f)
    split_ifs with htaken
    · exact hmine htaken.1
    · have hkeep : s.ft.entry f = w.vm.ft.entry f :=
        htouches.others f fun hrequests hf => htaken ⟨hrequests, hf⟩
      have hfull : (w.vm.ft.entry f).status = .full := hkeep ▸ hfull
      exact hold (h.frames f (htouches.maxFrame ▸ hf) hfull)
  · have hne : (s.swap.table i).tid ≠ 0 := hne
    show (w.after a s ends).Holds (s.swap.table i).tid
    obtain hkeep | ⟨hrequests, hnew⟩ | hfree := htouches.slots i
    · rw [hkeep] at hne ⊢
      exact hold (h.slots i (htouches.entries ▸ hi) hne)
    · rw [hnew]
      exact hmine hrequests
    · exact absurd hfree hne

lemma Held.exit (h : w.Held) {t : ℕ} (hnever : t ∉ w.paged)
    (hact : w.act (.exit t) = some w') : w'.Held := by
  rw [act] at hact
  split_ifs at hact with ht
  obtain ⟨s, hdestroy, rfl⟩ := Option.map_eq_some_iff.mp hact
  obtain ⟨hft, hswap, -⟩ := Vm.destroy_keeps hdestroy
  have hold {u : ℕ} (hu : w.Holds u) : Holds { w with vm := s, gone := t :: w.gone } u := by
    refine ⟨hu.ran, hu.paged, not_mem_cons_of_ne_of_not_mem ?_ hu.stays⟩
    rintro rfl
    exact hnever hu.paged
  refine ⟨fun f hf hfull => ?_, fun i hi hne => ?_, ?_⟩
  · dsimp only at hf hfull
    rw [hft] at hf hfull
    exact hold (h.frames f hf hfull)
  · dsimp only at hi hne ⊢
    rw [hswap] at hi hne ⊢
    exact hold (h.slots i hi hne)
  · exact not_mem_cons_of_ne_of_not_mem (Ne.symm ht.1) h.positive

lemma held_of_reach (h : tenantSystem.Reach NeverPaged w) : w.Held := by
  refine h.invariant (fun w => Boot.held) fun w a w' hw hguard hstep => ?_
  cases a with
  | run a => exact hw.run hstep
  | exit t => exact hw.exit hguard hstep

/-- **Exit returns all paging resources**, if a process completes `thread_exit` only when it has
never come to `get_user_page`: no frame is full for a process that is gone, and no slot has its
`tid`. -/
theorem exit_returns_resources (h : tenantSystem.Reach NeverPaged w) :
    (∀ t ∈ w.gone, w.HoldsNothing t) ∧ ((∀ t ∈ w.ran, t ∈ w.gone) →
      (∀ f < w.vm.ft.maxFrame, (w.vm.ft.entry f).status = .empty) ∧
        ∀ i < w.vm.swap.entries, (w.vm.swap.table i).tid = 0) := by
  have hheld := held_of_reach h
  refine ⟨fun t ht => ⟨fun f hf hfull howner => ?_, fun i hi htid => ?_⟩, fun hall =>
    ⟨fun f hf => ?_, fun i hi => ?_⟩⟩
  · exact (hheld.frames f hf hfull).stays (howner ▸ ht)
  · have hne : (w.vm.swap.table i).tid ≠ 0 := fun hzero => hheld.positive (hzero ▸ htid ▸ ht)
    exact (hheld.slots i hi hne).stays (htid ▸ ht)
  · cases hstatus : (w.vm.ft.entry f).status with
    | empty => rfl
    | full =>
      have hholds := hheld.frames f hf hstatus
      exact absurd (hall _ hholds.ran) hholds.stays
  · by_contra hne
    have hholds := hheld.slots i hi hne
    exact hholds.stays (hall _ hholds.ran)

instance (w : Tenants) : ∀ a, Decidable (w.NeverPaged a)
  | .run _ => inferInstanceAs (Decidable True)
  | .exit t => inferInstanceAs (Decidable (t ∉ w.paged))

/-- One frame and one slot, and nobody yet. -/
def vacant : Tenants := ⟨oneSlot, fun _ => 0, [], [], [], []⟩

lemma vacant_boot : vacant.Boot :=
  ⟨⟨fun _ _ => rfl, fun _ _ => rfl, fun _ _ => rfl⟩, fun _ _ => rfl, rfl⟩

/-- A process that has no page exits, and another one gets the frame. -/
theorem exit_returns_resources_unused : ∃ w, tenantSystem.Reach NeverPaged w ∧
    (w.gone = [1] ∧ (w.vm.ft.entry 0).status = .full ∧ w.owner 0 = 2) ∧
    (∀ t ∈ w.gone, w.HoldsNothing t) := by
  obtain ⟨w, -, hreach, hw⟩ := System.exists_of_run (T := tenantSystem) (G := NeverPaged)
    (l := [.run (.syscall 1 0), .exit 1, .run (.pageFault (fun _ => true) 2 0x1000 0x1000)])
    (P := fun w => w.gone = [1] ∧ (w.vm.ft.entry 0).status = .full ∧ w.owner 0 = 2)
    (fun _ _ _ h => h) vacant_boot (by decide +kernel)
  exact ⟨w, hreach, hw, (exit_returns_resources hreach).1⟩

/-- A process leaves a frame behind; and with a second page, a slot. -/
theorem exit_leaves_resources :
    (∃ w, tenantSystem.Reachable w ∧ w.gone = [1] ∧
      ((w.vm.ft.entry 0).status = .full ∧ w.owner 0 = 1) ∧ ¬ w.HoldsNothing 1) ∧
    ∃ w, tenantSystem.Reachable w ∧ w.gone = [1] ∧ (w.vm.swap.table 0).tid = 1 ∧
      ¬ w.HoldsNothing 1 := by
  constructor
  · obtain ⟨w, -, hreach, hw⟩ := System.exists_of_run (T := tenantSystem) (G := fun _ _ => True)
      (l := [.run (.pageFault (fun _ => true) 1 0x1000 0x1000), .exit 1])
      (P := fun w => w.gone = [1] ∧ ((w.vm.ft.entry 0).status = .full ∧ w.owner 0 = 1) ∧
        ¬ w.HoldsNothing 1)
      (fun _ _ _ h => h) vacant_boot (by decide +kernel)
    exact ⟨w, hreach, hw⟩
  · obtain ⟨w, -, hreach, hw⟩ := System.exists_of_run (T := tenantSystem) (G := fun _ _ => True)
      (l := [.run (.pageFault (fun _ => true) 1 0x1000 0x1000), .run (.write 1 0x1000 ⟨0, by decide⟩ 1),
        .run (.pageFault (fun _ => true) 1 0x2000 0x2000), .exit 1])
      (P := fun w => w.gone = [1] ∧ (w.vm.swap.table 0).tid = 1 ∧ ¬ w.HoldsNothing 1)
      (fun _ _ _ h => h) vacant_boot (by decide +kernel)
    exact ⟨w, hreach, hw⟩

end Tenants

end Pintos
