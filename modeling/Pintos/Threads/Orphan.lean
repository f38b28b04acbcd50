import Pintos.Threads.Tidy

/-!
# Threads/Orphan — who outlives whom

`load` and `thread_exit` follow the bare pointer to the parent. The page it points to is freed as
soon as the parent is switched away from, whether its children are through or not; and the initial
thread has no parent at all.
-/

namespace Pintos

open Machinery

/-- About to follow the parent pointer. -/
def Phase.followsParent : Phase → Bool
  | .loadDone _ => true
  | .exiting _ => true
  | .mainExiting => true
  | _ => false

/-- The initial thread does not come to its end, and another only once its children have. -/
def DiesLast (s : Family) : FamilyAct → Prop
  | .mainExit => False
  | .die t => ∀ c < s.nextTid, (s.thread c).parent = some t → (s.thread c).Gone
  | _ => True

instance (s : Family) : (a : FamilyAct) → Decidable (DiesLast s a)
  | .mainExit => isFalse id
  | .die t => inferInstanceAs (Decidable
      (∀ c < s.nextTid, (s.thread c).parent = some t → (s.thread c).Gone))
  | .exec _ _ | .runTask _ | .load _ _ | .loadSignal _ | .loadAbort _ | .loadExit _ | .execDown _
  | .execReturn _ | .wait _ _ | .waitDown _ | .waitReturn _ | .exit _ _ | .signal _ => isTrue trivial

/-! ## The initial thread -/

/-- The places of the initial thread, its end apart. -/
def Phase.ofMain : Phase → Bool
  | .running => true
  | .waitDown _ => true
  | .waitRead _ => true
  | .nullDeref => true
  | _ => false

lemma Phase.followsParent_ofMain {ph : Phase} (h : ph.ofMain = true) :
    ph.followsParent = false := by
  cases ph <;> first | rfl | cases h

section

variable {s s' : Family} {a : FamilyAct} {t : ℕ} {th : Thread}

lemma ThreadChange.ofMain (h : ThreadChange s a initialThread th) (ha : a ≠ .mainExit)
    (hlt : initialThread < s.nextTid) (hmain : (s.thread initialThread).phase.ofMain = true) :
    th.phase.ofMain = true := by
  cases h with
  | own hown => cases hown <;> simp_all [Phase.ofMain]
  | born hnew => exact absurd hnew (Nat.ne_of_lt hlt)
  | exec hph hu hne => exact absurd rfl hne
  | loadSignal hph => simp [hph, Phase.ofMain] at hmain
  | signal hph => simp [hph, Phase.ofMain] at hmain
  | _ => exact hmain

/-! ## The others -/

lemma ThreadChange.dead (h : ThreadChange s a t th) (hdead : th.phase = .dead) :
    (s.thread t).phase = .dead ∨ a = .die t := by
  cases h with
  | own hown => cases hown <;> simp_all
  | @loadSignal success => cases success <;> cases hdead
  | exec => cases hdead
  | born => cases hdead
  | signal => cases hdead
  | _ => exact .inl hdead

lemma FamilyStep.running_of_createdBy (h : FamilyStep s a s') {p : ℕ} (ha : a.CreatedBy p) :
    (s.thread p).phase = .running := by
  cases h with
  | own hown => rcases ha with rfl | ⟨rfl, -⟩ <;> cases hown
  | exec hrun =>
    rcases ha with ha | ⟨ha, -⟩ <;> cases ha
    exact hrun
  | runTask hrun =>
    rcases ha with ha | ⟨ha, rfl⟩ <;> cases ha
    exact hrun
  | loadSignal => simp [FamilyAct.CreatedBy] at ha
  | signal => simp [FamilyAct.CreatedBy] at ha

/-- What holds when everybody dies last: the parent of a thread that is not gone is not dead. -/
structure Family.Rooted (s : Family) : Prop where
  tidy : s.Tidy
  main : (s.thread initialThread).phase.ofMain = true
  rooted : ∀ t, t ≠ initialThread → (s.thread t).parent = none → (s.thread t).phase = .unborn
  alive : ∀ c p, (s.thread c).parent = some p → (s.thread p).phase = .dead → (s.thread c).Gone

namespace Family.Rooted

lemma rooted_step (hs : s.Rooted) (hstep : FamilyStep s a s') (ht : t ≠ initialThread)
    (hnone : (s'.thread t).parent = none) : (s'.thread t).phase = .unborn := by
  have hunborn : (s.thread t).phase = .unborn := by
    refine hs.rooted t ht (Option.eq_none_iff_forall_ne_some.mpr fun p hp => ?_)
    rw [hs.tidy.parent_step hstep hp] at hnone
    cases hnone
  rcases (hs.tidy.change hstep t).unborn hunborn with ⟨rfl, p, ha⟩ | h
  · rw [(Family.thread_created hs.tidy hstep ha).2] at hnone
    cases hnone
  · exact h

/-- A thread that dies has no child left to follow its pointer. -/
lemma alive_step (hs : s.Rooted) (hlast : DiesLast s a) (hstep : FamilyStep s a s') {c p : ℕ}
    (hp : (s'.thread c).parent = some p) (hdead : (s'.thread p).phase = .dead) :
    (s'.thread c).Gone := by
  have hdied := (hs.tidy.change hstep p).dead hdead
  rcases (hs.tidy.change hstep c).parent with hold | ⟨-, q, ha, -, hq⟩
  · refine hs.tidy.gone_step hstep ?_
    rw [hold] at hp
    rcases hdied with h | rfl
    · exact hs.alive c p hp h
    · exact hlast c (hs.tidy.lt_nextTid_of_parent hp) hp
  · -- a thread that creates another is running
    cases hq.symm.trans hp
    have hrun := hstep.running_of_createdBy ha
    rcases hdied with h | rfl
    · rw [hrun] at h
      cases h
    · simp [FamilyAct.CreatedBy] at ha

lemma step (hs : s.Rooted) (hlast : DiesLast s a) (hstep : FamilyStep s a s') : s'.Rooted where
  tidy := hs.tidy.step hstep
  main := (hs.tidy.change hstep initialThread).ofMain (fun ha => by rw [ha] at hlast; exact hlast)
    hs.tidy.initial hs.main
  rooted t ht := hs.rooted_step hstep ht
  alive c p := hs.alive_step hlast hstep

end Family.Rooted

end

lemma Family.Boot.rooted {s : Family} (h : s.Boot) : s.Rooted := by
  refine ⟨h.tidy, by rw [h.main]; rfl, fun t ht _ => by rw [h.unborn t ht]; rfl, fun c p hp => ?_⟩
  rcases h.cases c with hc | hc <;> · rw [hc] at hp; cases hp

/-- **The parent pointer is good when it is followed**, if everybody dies after their children. -/
theorem parent_not_freed {s : Family} (h : familySystem.Reach DiesLast s) {t : ℕ}
    (ht : (s.thread t).phase.followsParent = true) :
    ∃ p, (s.thread t).parent = some p ∧ ¬ s.Freed p := by
  have hs : s.Rooted := h.invariant (fun s (h0 : s.Boot) => h0.rooted)
    fun s a s' hI hlast hact => hI.step hlast (Family.step_of_act hact)
  have hproc : t ≠ initialThread := by
    rintro rfl
    rw [Phase.followsParent_ofMain hs.main] at ht
    cases ht
  obtain ⟨p, hp⟩ : ∃ p, (s.thread t).parent = some p := by
    refine Option.ne_none_iff_exists'.mp fun hnone => ?_
    rw [hs.rooted t hproc hnone] at ht
    cases ht
  refine ⟨p, hp, fun hfreed => ?_⟩
  rcases hs.alive t p hp hfreed.1 with h | h <;> · rw [h] at ht; cases ht

/-- Process 3 exits while its parent, which exited first, is still there. -/
theorem parent_not_freed_of_oneChild : ∃ s, familySystem.Reach DiesLast s ∧
    (s.thread 2).phase = .signalled ∧ (s.thread 3).phase = .exiting 0 ∧
    ∃ p, (s.thread 3).parent = some p ∧ ¬ s.Freed p := by
  obtain ⟨s, -, hreach, hparent, hchild⟩ := family_of_run (G := DiesLast)
    (P := fun s => (s.thread 2).phase = .signalled ∧ (s.thread 3).phase = .exiting 0)
    (l := oneChild ++ [.exit 2 0, .signal 2, .exit 3 0]) (by decide)
  exact ⟨s, hreach, hparent, hchild, parent_not_freed hreach (by rw [hchild]; rfl)⟩

/-! ## A parent that does not wait -/

/-- The child exits when its parent's page is freed; and the initial thread follows a null
pointer. -/
theorem parent_freed : ∃ s,
    System.run Family.act (fun _ _ => True) bootFamily
      (oneChild ++ [.exit 2 0, .signal 2, .die 2, .exit 3 0, .mainExit]) = some s ∧
    familySystem.Reachable s ∧
    (s.thread 3).phase = .exiting 0 ∧ (s.thread 3).parent = some 2 ∧ s.Freed 2 ∧
    (s.thread initialThread).phase = .mainExiting ∧ (s.thread initialThread).parent = none :=
  family_of_run (by decide)

end Pintos
