import Pintos.Threads.Tidy
import Mathlib.Data.Finset.Card

/-!
# Threads/Units — how many units a parent has to wait with

A child that exits leaves a unit in its parent's `wait_sema`; `process_wait` takes a unit and
strikes a child off the list. Whose unit it takes is another matter, but the numbers agree:

    units left  +  children struck off  =  children gone
-/

namespace Pintos

open Machinery Finset

namespace Family

/-- The children `p` has ever had… -/
def kids (s : Family) (p : ℕ) : Finset ℕ :=
  (Finset.range s.nextTid).filter fun c => (s.thread c).parent = some p

/-- …and those among them that are gone. -/
def goneKids (s : Family) (p : ℕ) : Finset ℕ := (s.kids p).filter fun c => (s.thread c).Gone

end Family

/-- One past the `sema_down` of `process_wait`. -/
def Phase.reads : Phase → ℕ
  | .waitRead _ => 1
  | _ => 0

/-- The numbers agree, and `process_wait` is for a child on the list. -/
structure Family.Balanced (s : Family) (p : ℕ) : Prop where
  listed : ∀ c, (s.thread p).phase = .waitDown c ∨ (s.thread p).phase = .waitRead c →
    c ∈ (s.thread p).children
  units : (s.thread p).waitSema.value + (s.kids p).card + (s.thread p).phase.reads =
    (s.goneKids p).card + (s.thread p).children.length

lemma ThreadStep.balanced {p : ℕ} {a : FamilyAct} {th th' : Thread} (h : ThreadStep p th a th')
    (hlisted : ∀ c, th.phase = .waitDown c ∨ th.phase = .waitRead c → c ∈ th.children) :
    (∀ c, th'.phase = .waitDown c ∨ th'.phase = .waitRead c → c ∈ th'.children) ∧
      th'.waitSema.value + th'.phase.reads + th.children.length =
        th.waitSema.value + th.phase.reads + th'.children.length := by
  cases h with
  | wait hph hc =>
    refine ⟨fun c hc' => ?_, by simp [hph, Phase.reads]⟩
    simp only [Phase.waitDown.injEq, reduceCtorEq, or_false] at hc'
    exact hc' ▸ hc
  | waitUnknown hph => exact ⟨hlisted, rfl⟩
  | waitDown hph hb hv =>
    refine ⟨fun c hc => hlisted c ?_, ?_⟩
    · simp only [Phase.waitRead.injEq, reduceCtorEq, false_or] at hc
      exact .inl (hc ▸ hph)
    · simp only [hph, Phase.reads, Semaphore.down]
      omega
  | waitSleep hph => exact ⟨hlisted, rfl⟩
  | execSleep hph => exact ⟨hlisted, rfl⟩
  | @waitReturn c hph =>
    have hmem := List.length_erase_of_mem (hlisted c (.inr hph))
    have hpos := List.length_pos_of_mem (hlisted c (.inr hph))
    refine ⟨by simp, ?_⟩
    simp only [hph, Phase.reads, hmem]
    omega
  | _ => simp_all [Phase.reads]

namespace Family

variable {s s' : Family} {a : FamilyAct} {p c : ℕ}

lemma Tidy.mem_kids (hs : s.Tidy) : c ∈ s.kids p ↔ (s.thread c).parent = some p := by
  rw [kids, Finset.mem_filter, mem_range, and_iff_right_iff_imp]
  exact hs.lt_nextTid_of_parent

lemma Tidy.mem_goneKids (hs : s.Tidy) :
    c ∈ s.goneKids p ↔ (s.thread c).parent = some p ∧ (s.thread c).Gone := by
  rw [goneKids, Finset.mem_filter, hs.mem_kids]

/-! ## What a step does to the numbers -/

section

variable (hs : s.Tidy) (hstep : FamilyStep s a s')

include hs hstep

lemma Tidy.gone_iff : (s'.thread c).Gone ↔ (s.thread c).Gone ∨ a = .signal c := by
  constructor
  · have hchange := hs.change hstep c
    generalize s'.thread c = th at hchange
    intro hgone
    cases hchange with
    | own h => cases h <;> simp_all [Thread.Gone]
    | born => simp [Thread.Gone, Thread.create] at hgone
    | exec => simp [Thread.Gone] at hgone
    | @loadSignal success => cases success <;> simp [Thread.Gone] at hgone
    | signal h ha => exact .inr ha
    | _ => exact .inl hgone
  · rintro (hgone | rfl)
    · exact hs.gone_step hstep hgone
    · exact gone_signal hstep

lemma Tidy.parent_iff : (s'.thread c).parent = some p ↔
      (s.thread c).parent = some p ∨ c = s.nextTid ∧ a.CreatedBy p := by
  constructor
  · intro hp
    obtain hold | ⟨hnew, q, ha, -, hq⟩ := (hs.change hstep c).parent
    · exact .inl (hold ▸ hp)
    · rw [hq] at hp
      exact .inr ⟨hnew, Option.some.inj hp ▸ ha⟩
  · rintro (hp | ⟨rfl, ha⟩)
    · exact hs.parent_step hstep hp
    · rw [(thread_created hs hstep ha).2]
      rfl

lemma Tidy.kids_created (ha : a.CreatedBy p) : (s'.kids p).card = (s.kids p).card + 1 := by
  have hnew : s.nextTid ∉ s.kids p := by
    rw [hs.mem_kids, (hs.unborn _ le_rfl).2]
    exact nofun
  rw [← card_insert_of_notMem hnew]
  congr 1
  ext c
  rw [(hs.step hstep).mem_kids, hs.parent_iff hstep, mem_insert, hs.mem_kids, or_comm,
    and_iff_left ha]

lemma Tidy.kids_same (ha : ¬ a.CreatedBy p) : s'.kids p = s.kids p := by
  ext c
  rw [(hs.step hstep).mem_kids, hs.parent_iff hstep, hs.mem_kids]
  exact or_iff_left fun h => ha h.2

end

lemma Tidy.goneKids_signal (hs : s.Tidy) (hstep : FamilyStep s (.signal c) s')
    (hp : (s.thread c).parent = some p) (hc : ¬ (s.thread c).Gone) :
    (s'.goneKids p).card = (s.goneKids p).card + 1 := by
  have hnew : c ∉ s.goneKids p := fun h => hc (hs.mem_goneKids.mp h).2
  rw [← card_insert_of_notMem hnew]
  congr 1
  ext d
  rw [(hs.step hstep).mem_goneKids, hs.parent_iff hstep, hs.gone_iff hstep, mem_insert,
    hs.mem_goneKids]
  constructor
  · rintro ⟨hd | ⟨-, hd⟩, hgone | hgone⟩
    · exact .inr ⟨hd, hgone⟩
    · exact .inl (FamilyAct.signal.inj hgone).symm
    · simp [FamilyAct.CreatedBy] at hd
    · simp [FamilyAct.CreatedBy] at hd
  · rintro (rfl | ⟨hd, hgone⟩)
    · exact ⟨.inl hp, .inr rfl⟩
    · exact ⟨.inl hd, .inl hgone⟩

lemma Tidy.goneKids_same (hs : s.Tidy) (hstep : FamilyStep s a s')
    (ha : ∀ c, a = .signal c → (s.thread c).parent ≠ some p) : s'.goneKids p = s.goneKids p := by
  ext c
  rw [(hs.step hstep).mem_goneKids, hs.parent_iff hstep, hs.gone_iff hstep, hs.mem_goneKids]
  constructor
  · rintro ⟨hc | ⟨rfl, hc⟩, hgone | rfl⟩
    · exact ⟨hc, hgone⟩
    · exact absurd hc (ha c rfl)
    · -- a thread that is created is not gone
      rw [Thread.Gone, (hs.unborn _ le_rfl).1] at hgone
      simp at hgone
    · simp [FamilyAct.CreatedBy] at hc
  · rintro ⟨hc, hgone⟩
    exact ⟨.inl hc, .inl hgone⟩

/-! ## The numbers agree after every step -/

lemma Tidy.thread_creator (hs : s.Tidy) (hstep : FamilyStep s a s') (ha : a.CreatedBy p) :
    (s.thread p).phase = .running ∧ ∃ ph, (ph = .running ∨ ph = .execDown s.nextTid) ∧
      s'.thread p = { s.thread p with
        children := (s.thread p).children ++ [s.nextTid], phase := ph } := by
  cases hstep with
  | own h => obtain rfl | ⟨rfl, -⟩ := ha <;> cases h
  | @exec q h hq =>
    obtain rfl : q = p := by simpa [FamilyAct.CreatedBy] using ha
    have hborn : (s.thread q).phase ≠ .unborn := by
      rw [h]
      exact Phase.noConfusion
    have hlt : q < s.nextTid := hs.lt_nextTid hborn
    refine ⟨h, _, .inr rfl, ?_⟩
    rw [thread_modify_self, thread_create_self s hlt.ne]
  | runTask h =>
    obtain rfl : p = initialThread := by simpa [FamilyAct.CreatedBy] using ha
    refine ⟨h, _, .inl rfl, ?_⟩
    rw [thread_create_self s hs.initial.ne, ← h]
  | loadSignal => simp [FamilyAct.CreatedBy] at ha
  | signal => simp [FamilyAct.CreatedBy] at ha

lemma Balanced.created (h : s.Balanced p) (hs : s.Tidy) (hstep : FamilyStep s a s')
    (ha : a.CreatedBy p) : s'.Balanced p := by
  have hkids := hs.kids_created hstep ha
  have hgone := hs.goneKids_same (p := p) hstep fun c hc => by simp [hc, FamilyAct.CreatedBy] at ha
  have hunits := h.units
  obtain ⟨hrun, ph, hph, hthread⟩ := hs.thread_creator hstep ha
  rw [hrun] at hunits
  constructor
  · intro c hc
    rw [hthread] at hc
    have hwait : ph = .waitDown c ∨ ph = .waitRead c := hc
    obtain rfl | rfl := hph <;> obtain hwait | hwait := hwait <;> cases hwait
  · have hreads : ph.reads = 0 := by obtain rfl | rfl := hph <;> rfl
    rw [hthread, hgone]
    simp only [hreads, List.length_append, List.length_singleton]
    simp only [Phase.reads] at hunits
    omega

lemma Balanced.signalled (h : s.Balanced p) (hs : s.Tidy) (hstep : FamilyStep s (.signal c) s')
    (hc : (s.thread c).parent = some p) : s'.Balanced p := by
  have hkids := hs.kids_same (p := p) hstep (by simp [FamilyAct.CreatedBy])
  have hunits := h.units
  cases hstep with
  | own hown => cases hown
  | @signal _ q status hph hq hfree =>
    obtain rfl : q = p := Option.some.inj (hq.symm.trans hc)
    have hne : q ≠ c := (hs.older c q hc).ne
    have hgone := hs.goneKids_signal (.signal hph hq hfree) hc (by simp [Thread.Gone, hph])
    have hthread := thread_upWait_self s (p := q)
    constructor
    · intro d
      rw [thread_modify_ne _ _ hne, hthread]
      exact h.listed d
    · rw [hkids, thread_modify_ne _ _ hne, hthread]
      simp only [Semaphore.up]
      omega

lemma Balanced.step (h : s.Balanced p) (hs : s.Tidy) (hstep : FamilyStep s a s') :
    s'.Balanced p := by
  by_cases ha : a.CreatedBy p
  · exact h.created hs hstep ha
  by_cases hsignal : ∃ c, a = .signal c ∧ (s.thread c).parent = some p
  · obtain ⟨c, rfl, hc⟩ := hsignal
    exact h.signalled hs hstep hc
  have hkids := hs.kids_same hstep ha
  have hgone := hs.goneKids_same hstep fun c hc hp => hsignal ⟨c, hc, hp⟩
  have hchange := hs.change hstep p
  obtain ⟨hlisted, hunits⟩ := h
  suffices hthread : (∀ c, (s'.thread p).phase = .waitDown c ∨ (s'.thread p).phase = .waitRead c →
      c ∈ (s'.thread p).children) ∧
      (s'.thread p).waitSema.value + (s'.thread p).phase.reads + (s.thread p).children.length =
        (s.thread p).waitSema.value + (s.thread p).phase.reads + (s'.thread p).children.length by
    refine ⟨hthread.1, ?_⟩
    rw [hkids, hgone]
    omega
  generalize s'.thread p = th at hchange
  cases hchange with
  | rest => exact ⟨hlisted, rfl⟩
  | own hown => exact hown.balanced hlisted
  | born hnew =>
    have hnone : s.kids p = ∅ := by
      refine eq_empty_of_forall_notMem fun c hc => ?_
      have hp := hs.mem_kids.mp hc
      exact Nat.lt_asymm (hs.older c p hp) (hnew ▸ hs.lt_nextTid_of_parent hp)
    rw [goneKids, hnone, filter_empty] at hunits
    refine ⟨by simp [Thread.create], ?_⟩
    show 0 + 0 + (s.thread p).children.length =
      (s.thread p).waitSema.value + (s.thread p).phase.reads + 0
    omega
  | exec _ _ _ hexec => exact absurd (.inl hexec) ha
  | runTask hp hrun => exact absurd (.inr ⟨hrun, hp⟩) ha
  | @loadSignal success hph => cases success <;> simp [hph, Phase.reads]
  | loadSignalled => exact ⟨hlisted, rfl⟩
  | signal hph => simp [hph, Phase.reads]
  | signalled _ hp hc => exact absurd ⟨_, hc, hp⟩ hsignal

lemma Boot.balanced (h : s.Boot) (p : ℕ) : s.Balanced p := by
  have hkids : s.kids p = ∅ := by
    refine eq_empty_of_forall_notMem fun c hc => ?_
    have hp := h.tidy.mem_kids.mp hc
    obtain hc | hc := h.cases c <;> rw [hc] at hp <;> cases hp
  constructor
  · intro c
    obtain hp | hp := h.cases p <;> rw [hp] <;> exact nofun
  · rw [goneKids, hkids]
    obtain hp | hp := h.cases p <;> rw [hp] <;> rfl

/-- A parent past the `sema_down`, with one child on its list, has no child that is not gone. -/
lemma Balanced.gone (h : s.Balanced p) (hs : s.Tidy) {d : ℕ}
    (hread : (s.thread p).phase = .waitRead c) (hone : (s.thread p).children = [c])
    (hd : (s.thread d).parent = some p) : (s.thread d).Gone := by
  have hunits := h.units
  rw [hread, hone] at hunits
  have hle : (s.kids p).card ≤ (s.goneKids p).card := by
    simp only [Phase.reads, List.length_singleton] at hunits
    omega
  have hall := eq_of_subset_of_card_le (filter_subset _ _) hle
  have hmem : d ∈ s.goneKids p := by
    rw [goneKids, hall]
    exact hs.mem_kids.mpr hd
  exact (hs.mem_goneKids.mp hmem).2

end Family

end Pintos
