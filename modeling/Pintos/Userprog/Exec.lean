import Pintos.Threads.Tidy

/-!
# Userprog/Exec — what `exec` returns

`load` writes -1 into the child's record if it fails, and ups the parent's `load_sema`; `exec` takes
that unit and reads the record. By then the child may have run on, and `exit` writes to the same
field: a program that exits with -1 soon enough looks like one that did not load.
-/

namespace Pintos

open Machinery

/-- In `load`, its `sema_up` included. -/
def Phase.inLoad : Phase → Bool
  | .loading => true
  | .loadDone _ => true
  | _ => false

/-- The thread is past `load`, and its record still says how that ended. -/
def Thread.Settled (th : Thread) : Prop :=
  th.phase.inLoad = false ∧ ∃ success, th.loaded = some success ∧
    (th.exitStatus = syscallError ↔ success = false)

/-- A thread can be created; `load` comes to an end under a parent that waits for it; and a child
does not exit with -1 while its parent is in `exec` for it. -/
def ExecsCleanly (s : Family) : FamilyAct → Prop
  | .exec _ alloc => alloc = true
  | .loadExit c => (s.thread c).parent = some initialThread
  | .exit t status => status = syscallError → ∀ p ∈ (s.thread t).parent,
      (s.thread p).phase ≠ .execDown t ∧ (s.thread p).phase ≠ .execRead t
  | _ => True

instance (s : Family) : (a : FamilyAct) → Decidable (ExecsCleanly s a)
  | .exec _ alloc => inferInstanceAs (Decidable (alloc = true))
  | .loadExit c => inferInstanceAs (Decidable ((s.thread c).parent = some initialThread))
  | .exit t status => inferInstanceAs (Decidable (status = syscallError → ∀ p ∈ (s.thread t).parent,
      (s.thread p).phase ≠ .execDown t ∧ (s.thread p).phase ≠ .execRead t))
  | .runTask _ | .load _ _ | .loadSignal _ | .loadAbort _ | .execDown _ | .execReturn _ | .wait _ _
  | .waitDown _ | .waitReturn _ | .mainExit | .signal _ | .die _ => isTrue trivial

/-! ## The handshake -/

/-- The `load_sema` of `p` holds a unit from the end of its child's `load` to the `sema_down` in
`exec`. -/
def Thread.ExecOk (th : Thread) (p : ℕ) (thread : ℕ → Thread) : Prop :=
  match th.phase with
  | .execDown c => (thread c).parent = some p ∧
      ((thread c).phase.inLoad = true ∧ th.loadSema.value = 0 ∨
        (thread c).Settled ∧ th.loadSema.value = 1)
  | .execRead c => (thread c).parent = some p ∧ (thread c).Settled ∧ th.loadSema.value = 0
  | _ => th.loadSema.value = 0

/-- The child a thread in `exec` has just created. -/
def Phase.execs : Phase → Option ℕ
  | .execDown c => some c
  | .execRead c => some c
  | _ => none

lemma Thread.ExecOk.mono {th : Thread} {p : ℕ} {thread thread' : ℕ → Thread}
    (h : th.ExecOk p thread)
    (hkid : ∀ c, th.phase.execs = some c → (thread c).parent = some p →
      (thread' c).parent = some p ∧
        ((thread c).phase.inLoad = true → (thread' c).phase.inLoad = true) ∧
        ((thread c).Settled → (thread' c).Settled)) :
    th.ExecOk p thread' := by
  rw [ExecOk] at h ⊢
  split at h
  · rename_i c hph
    obtain ⟨hpar, hunit⟩ := h
    obtain ⟨hpar', hload, hset⟩ := hkid c (by rw [hph]; rfl) hpar
    exact ⟨hpar', hunit.imp (And.imp_left hload) (And.imp_left hset)⟩
  · rename_i c hph
    obtain ⟨hpar, hsettled, hv⟩ := h
    obtain ⟨hpar', -, hset⟩ := hkid c (by rw [hph]; rfl) hpar
    exact ⟨hpar', hset hsettled, hv⟩
  · exact h

lemma ThreadStep.execOk {th th' : Thread} {p : ℕ} {a : FamilyAct} {thread : ℕ → Thread}
    (h : th.ExecOk p thread) (hstep : ThreadStep p th a th') : th'.ExecOk p thread := by
  cases hstep with
  | execDown hph hb hv =>
    simp only [Thread.ExecOk, hph] at h
    obtain ⟨hpar, ⟨-, hzero⟩ | ⟨hset, hone⟩⟩ := h
    · omega
    · exact ⟨hpar, hset, by simp [Semaphore.down, hone]⟩
  | execSleep hph => simpa only [Thread.ExecOk, hph, Semaphore.sleep] using h
  | execReturn hph =>
    simp only [Thread.ExecOk, hph] at h
    exact h.2.2
  | waitUnknown => exact h
  | _ => simp_all [Thread.ExecOk]

lemma ThreadStep.of_execDown {th th' : Thread} {p c : ℕ} {a : FamilyAct}
    (h : ThreadStep p th a th') (hph : th.phase = .execDown c) :
    th'.phase = .execDown c ∨ 0 < th.loadSema.value := by
  cases h <;> simp_all

/-- A child in `load` has its parent waiting for it. -/
def Family.LoadsAwaited (s : Family) (p : ℕ) : Prop :=
  ∀ c, (s.thread c).parent = some p → (s.thread c).phase.inLoad = true →
    (s.thread p).phase = .execDown c

/-! ## The child -/

section

variable {s : Family} {a : FamilyAct} {c : ℕ} {th : Thread}

/-- One step of a child in `load` leaves it there, until it signals. -/
lemma ThreadChange.inLoad (h : ThreadChange s a c th)
    (hload : (s.thread c).phase.inLoad = true) (hexit : a ≠ .loadExit c)
    (hsignal : a ≠ .loadSignal c) (hold : c < s.nextTid) : th.phase.inLoad = true := by
  cases h with
  | own hown => cases hown <;> simp_all [Phase.inLoad]
  | born hnew => exact absurd hnew (Nat.ne_of_lt hold)
  | exec hph => simp [hph, Phase.inLoad] at hload
  | loadSignal hph ha => exact absurd ha hsignal
  | signal hph => simp [hph, Phase.inLoad] at hload
  | _ => exact hload

lemma Family.Tidy.settled_loadSignal {s s' : Family} {c : ℕ} (hs : s.Tidy)
    (hstep : FamilyStep s (.loadSignal c) s') : (s'.thread c).Settled := by
  cases hstep with
  | own h => cases h
  | @loadSignal c p success hph hp hfree =>
    rw [thread_modify_self, hs.thread_upLoad_ne (Nat.ne_of_gt (hs.older c p hp))]
    have hrec := hs.recorded c
    rw [Thread.Recorded, hph] at hrec
    obtain ⟨-, hloaded, hstatus⟩ := hrec
    refine ⟨by cases success <;> rfl, success, hloaded, ?_⟩
    cases success <;> simp [hstatus, unusedChildExitStatus, syscallError]

/-- One step of a child past `load` leaves what its record says, unless it exits with -1. -/
lemma ThreadChange.settled (hrec : (s.thread c).Recorded) (h : ThreadChange s a c th)
    (hset : (s.thread c).Settled) (hexit : a ≠ .exit c syscallError) (hold : c < s.nextTid) :
    th.Settled := by
  obtain ⟨hpast, success, hloaded, hstatus⟩ := hset
  cases h with
  | own hown =>
    cases hown with
    | load hph => simp [hph, Phase.inLoad] at hpast
    | loadExit hph => simp [hph, Phase.inLoad] at hpast
    | loadAbort hph =>
      have hfail : (s.thread c).loaded = some false := by
        rw [Thread.Recorded, hph] at hrec
        exact hrec.2.1
      obtain rfl : success = false := by simpa [hloaded] using hfail
      exact ⟨rfl, false, hloaded, by simp⟩
    | exit hph ht status =>
      have hok : success = true := by
        rw [Thread.Recorded, hph] at hrec
        simpa [hloaded] using hrec.2.1
      refine ⟨rfl, success, hloaded, ?_⟩
      simp_all
    | waitUnknown => exact ⟨hpast, success, hloaded, hstatus⟩
    | execSleep => exact ⟨hpast, success, hloaded, hstatus⟩
    | waitSleep => exact ⟨hpast, success, hloaded, hstatus⟩
    | _ => exact ⟨rfl, success, hloaded, hstatus⟩
  | born hnew => exact absurd hnew (Nat.ne_of_lt hold)
  | exec => exact ⟨rfl, success, hloaded, hstatus⟩
  | loadSignal hph => simp [hph, Phase.inLoad] at hpast
  | signal => exact ⟨rfl, success, hloaded, hstatus⟩
  | _ => exact ⟨hpast, success, hloaded, hstatus⟩

lemma ThreadChange.inLoad_before (h : ThreadChange s a c th) (hload : th.phase.inLoad = true) :
    (s.thread c).phase.inLoad = true ∨ c = s.nextTid := by
  cases h with
  | own hown => cases hown <;> simp_all [Phase.inLoad]
  | born hnew => exact .inr hnew
  | exec => cases hload
  | @loadSignal success => cases success <;> cases hload
  | signal => cases hload
  | _ => exact .inl hload

end

/-! ## Both together -/

section

variable {s s' : Family} {a : FamilyAct} {p : ℕ}

lemma Family.Tidy.kid_step (hs : s.Tidy) (hclean : ExecsCleanly s a) (hstep : FamilyStep s a s')
    (hp : p ≠ initialThread) {c : ℕ} (hsignal : a ≠ .loadSignal c)
    (hexec : (s.thread p).phase.execs = some c) (hpar : (s.thread c).parent = some p) :
    (s'.thread c).parent = some p ∧
      ((s.thread c).phase.inLoad = true → (s'.thread c).phase.inLoad = true) ∧
      ((s.thread c).Settled → (s'.thread c).Settled) := by
  have hold : c < s.nextTid := hs.lt_nextTid_of_parent hpar
  have hchange := hs.change hstep c
  refine ⟨hs.parent_step hstep hpar, fun hload => hchange.inLoad hload ?_ hsignal hold,
    fun hset => hchange.settled (hs.recorded c) hset ?_ hold⟩
  · rintro rfl
    exact hp (Option.some.inj (hpar.symm.trans hclean))
  · rintro rfl
    obtain ⟨hdown, hread⟩ := hclean rfl p hpar
    cases hph : (s.thread p).phase <;> simp_all [Phase.execs]

lemma Family.Tidy.execOk_step (hs : s.Tidy) (hclean : ExecsCleanly s a)
    (hstep : FamilyStep s a s') (hp : p ≠ initialThread) (hawait : s.LoadsAwaited p)
    (hok : (s.thread p).ExecOk p s.thread) : (s'.thread p).ExecOk p s'.thread := by
  have hkid (hsignal : ∀ c, (s.thread c).parent = some p → a ≠ .loadSignal c) :
      (s.thread p).ExecOk p s'.thread :=
    hok.mono fun c hexec hpar => hs.kid_step hclean hstep hp (hsignal c hpar) hexec hpar
  have hchange := hs.change hstep p
  generalize s'.thread p = th at hchange
  cases hchange with
  | rest hquiet => exact hkid fun c hpar ha => hquiet c (.inl ha) hpar
  | own hown => exact hown.execOk (hkid fun c _ ha => hown.not_signalOf (.inl ha))
  | born => exact rfl
  | exec hph hu hmain ha =>
    simp only [Thread.ExecOk, hph] at hok
    have hnew := (thread_created hs hstep (.inl ha)).2
    exact ⟨by rw [hnew]; rfl, .inl ⟨by rw [hnew]; rfl, hok⟩⟩
  | runTask hmain => exact absurd hmain hp
  | @loadSignal success hph =>
    simp only [Thread.ExecOk, hph] at hok
    cases success <;> exact hok
  | @loadSignalled c success hph hpar ha =>
    subst ha
    have hexec : (s.thread p).phase = .execDown c := hawait c hpar (by rw [hph]; rfl)
    have hset : (s'.thread c).Settled := hs.settled_loadSignal hstep
    simp only [Thread.ExecOk, hexec] at hok ⊢
    obtain ⟨-, ⟨-, hzero⟩ | ⟨⟨hpast, -⟩, -⟩⟩ := hok
    · exact ⟨hs.parent_step hstep hpar, .inr ⟨hset, by simp [Semaphore.up, hzero]⟩⟩
    · simp [hph, Phase.inLoad] at hpast
  | signal hph =>
    simp only [Thread.ExecOk, hph] at hok
    exact hok
  | signalled hph hpar ha => exact hkid fun c _ ha' => by simp [ha] at ha'

lemma Family.execDown_exec (hstep : FamilyStep s (.exec p true) s') :
    (s'.thread p).phase = .execDown s.nextTid := by
  cases hstep with
  | own h => cases h
  | exec h => rw [thread_modify_self]

lemma Family.Tidy.loadsAwaited_step (hs : s.Tidy) (hstep : FamilyStep s a s')
    (hp : p ≠ initialThread) (hawait : s.LoadsAwaited p) (hok : (s.thread p).ExecOk p s.thread) :
    s'.LoadsAwaited p := by
  intro c hpar hload
  rcases (hs.change hstep c).parent with hold | ⟨rfl, q, ha, -, hq⟩
  · rw [hpar] at hold
    have hbefore : (s.thread c).phase.inLoad = true :=
      ((hs.change hstep c).inLoad_before hload).resolve_right
        (Nat.ne_of_lt (hs.lt_nextTid_of_parent hold.symm))
    have hexec : (s.thread p).phase = .execDown c := hawait c hold.symm hbefore
    simp only [Thread.ExecOk, hexec] at hok
    have hchange := hs.change hstep p
    generalize s'.thread p = th at hchange
    cases hchange with
    | own hown =>
      refine (hown.of_execDown hexec).resolve_right fun hv => ?_
      -- the unit is there only when the child is past its load
      obtain ⟨-, ⟨-, hzero⟩ | ⟨⟨hpast, -⟩, -⟩⟩ := hok
      · omega
      · simp [hbefore] at hpast
    | born hnew => simp [(hs.unborn p (Nat.le_of_eq hnew.symm)).1] at hexec
    | exec hph => simp [hexec] at hph
    | loadSignal hph => simp [hexec] at hph
    | signal hph => simp [hexec] at hph
    | _ => exact hexec
  · cases hq.symm.trans hpar
    rcases ha with rfl | ⟨-, hmain⟩
    · exact execDown_exec hstep
    · exact absurd hmain hp

lemma ThreadChange.main_execs {th : Thread} (h : ThreadChange s a initialThread th)
    (hmain : (s.thread initialThread).phase.execs = none) : th.phase.execs = none := by
  cases h with
  | own hown => cases hown <;> simp_all [Phase.execs]
  | @loadSignal success => cases success <;> rfl
  | exec hph hu hne => exact absurd rfl hne
  | born => rfl
  | signal => rfl
  | _ => exact hmain

end

/-! ## What `exec` returns -/

/-- What holds in every clean run. -/
structure Family.Execs (s : Family) : Prop where
  tidy : s.Tidy
  main : (s.thread initialThread).phase.execs = none
  ok : ∀ p, p ≠ initialThread → (s.thread p).ExecOk p s.thread
  awaited : ∀ p, p ≠ initialThread → s.LoadsAwaited p

lemma Family.execs_of_reach {s : Family} (h : familySystem.Reach ExecsCleanly s) : s.Execs := by
  refine h.invariant (fun s (h0 : s.Boot) => ?_) fun s a s' hI hclean hact => ?_
  · refine ⟨h0.tidy, by rw [h0.main]; rfl, fun p hp => ?_, fun p _ c hc => ?_⟩
    · rw [h0.unborn p hp]
      rfl
    · rcases h0.cases c with h | h <;> · rw [h] at hc; cases hc
  · have hstep := step_of_act hact
    exact ⟨hI.tidy.step hstep, (hI.tidy.change hstep initialThread).main_execs hI.main,
      fun p hp => hI.tidy.execOk_step hclean hstep hp (hI.awaited p hp) (hI.ok p hp),
      fun p hp => hI.tidy.loadsAwaited_step hstep hp (hI.awaited p hp) (hI.ok p hp)⟩

/-- **`exec` reports how `load` ended**, in every clean run, whatever the child has done since. -/
theorem exec_reports_load {s : Family} (h : familySystem.Reach ExecsCleanly s) (p c : ℕ) :
    ((s.thread p).phase = .execRead c → (s.thread c).parent = some p ∧
      ((s.thread c).loaded = some false ∧ s.execResult c = -1 ∨
        (s.thread c).loaded = some true ∧ s.execResult c = c)) ∧
    ((s.thread p).phase = .execDown c → (s.thread c).phase.inLoad = false →
      (s.thread p).blocked = false ∧ 0 < (s.thread p).loadSema.value) := by
  have hs := Family.execs_of_reach h
  have hproc (hexec : (s.thread p).phase.execs = some c) : p ≠ initialThread := by
    rintro rfl
    rw [hs.main] at hexec
    cases hexec
  constructor
  · intro hread
    have hok := hs.ok p (hproc (by rw [hread]; rfl))
    simp only [Thread.ExecOk, hread] at hok
    obtain ⟨hpar, ⟨-, success, hloaded, hstatus⟩, -⟩ := hok
    refine ⟨hpar, ?_⟩
    cases success with
    | false => exact .inl ⟨hloaded, if_pos (hstatus.mpr rfl)⟩
    | true => exact .inr ⟨hloaded, if_neg (by simp [hstatus])⟩
  · intro hdown hpast
    have hok := hs.ok p (hproc (by rw [hdown]; rfl))
    simp only [Thread.ExecOk, hdown] at hok
    obtain ⟨-, ⟨hload, -⟩ | ⟨-, hone⟩⟩ := hok
    · simp [hpast] at hload
    · refine ⟨Bool.eq_false_iff.mpr fun hb => ?_, by omega⟩
      rcases (hs.tidy.sleeps p).blocked hb with ⟨-, hzero⟩ | ⟨hwait, -⟩
      · omega
      · simp [hdown, Phase.inWait] at hwait

/-- The child of process 2 exits, with 0, before process 2 gets to run: `exec` returns its tid. -/
theorem exec_quick_child : ∃ s, familySystem.Reach ExecsCleanly s ∧
    (s.thread 2).phase = .execRead 3 ∧ (s.thread 3).phase = .dead ∧ (s.thread 3).loaded = some true ∧
    s.execResult 3 = 3 := by
  obtain ⟨s, -, hreach, hread, hdead, hloaded⟩ := family_of_run (G := ExecsCleanly)
    (P := fun s => (s.thread 2).phase = .execRead 3 ∧ (s.thread 3).phase = .dead ∧
      (s.thread 3).loaded = some true)
    (l := [.runTask true, .load 2 true, .loadSignal 2, .exec 2 true, .execDown 2, .load 3 true,
      .loadSignal 3, .exit 3 0, .signal 3, .die 3, .execDown 2]) (by decide)
  refine ⟨s, hreach, hread, hdead, hloaded, ?_⟩
  rcases ((exec_reports_load hreach 2 3).1 hread).2 with ⟨hfail, -⟩ | ⟨-, hres⟩
  · simp [hloaded] at hfail
  · exact hres

/-! ## A child that exits with -1 at once -/

/-- The child of process 2 loads and exits with -1 before process 2 gets to run. -/
def quickChild : List FamilyAct :=
  [.runTask true, .load 2 true, .loadSignal 2, .exec 2 true, .load 3 true, .loadSignal 3,
    .exit 3 (-1), .execDown 2]

/-- `exec` returns -1 for a program that was loaded. -/
theorem exec_denies_load : ∃ s,
    System.run Family.act (fun _ _ => True) bootFamily quickChild = some s ∧
    familySystem.Reachable s ∧ (s.thread 2).phase = .execRead 3 ∧ (s.thread 3).parent = some 2 ∧
    (s.thread 3).loaded = some true ∧ s.execResult 3 = -1 :=
  family_of_run (by decide)

end Pintos
