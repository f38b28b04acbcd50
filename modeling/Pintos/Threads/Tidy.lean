import Pintos.Threads.Family
import Mathlib.Tactic.SplitIfs

/-!
# Threads/Tidy — what a step does to one thread, and what every family looks like

`ThreadChange` lists everything a step can do to any one thread; an invariant is then a look at that
list. `Tidy` is what holds whatever the threads do: tids are given once, parents are older than
their children, and a thread's record says how far the thread has got.
-/

namespace Pintos

open Machinery Function Semaphore

/-! ## The steps, taken apart -/

/-- The steps of a thread that touch no other. -/
inductive ThreadStep (t : ℕ) (th : Thread) : FamilyAct → Thread → Prop
  | execFail (h : th.phase = .running) (ht : t ≠ initialThread) :
    ThreadStep t th (.exec t false) { th with phase := .nullDeref }
  | runTaskFail (h : th.phase = .running) (ht : t = initialThread) :
    ThreadStep t th (.runTask false) { th with phase := .nullDeref }
  | load (h : th.phase = .loading) (success : Bool) :
    ThreadStep t th (.load t success)
      { th with
        phase := .loadDone success
        exitStatus := if success then th.exitStatus else syscallError
        loaded := some success }
  | loadAbort (h : th.phase = .loadFailed) :
    ThreadStep t th (.loadAbort t)
      { th with phase := .exiting syscallError, exitStatus := syscallError }
  | loadExit (h : th.phase = .loading) :
    ThreadStep t th (.loadExit t)
      { th with phase := .exiting syscallError, exitStatus := syscallError }
  | execDown {c : ℕ} (h : th.phase = .execDown c) (hb : th.blocked = false)
      (hv : 0 < th.loadSema.value) :
    ThreadStep t th (.execDown t) { th with phase := .execRead c, loadSema := th.loadSema.down }
  | execSleep {c : ℕ} (h : th.phase = .execDown c) (hb : th.blocked = false)
      (hv : th.loadSema.value = 0) :
    ThreadStep t th (.execDown t) { th with blocked := true, loadSema := th.loadSema.sleep t }
  | execReturn {c : ℕ} (h : th.phase = .execRead c) :
    ThreadStep t th (.execReturn t) { th with phase := .running }
  | wait {c : ℕ} (h : th.phase = .running) (hc : c ∈ th.children) :
    ThreadStep t th (.wait t c) { th with phase := .waitDown c }
  | waitUnknown {c : ℕ} (h : th.phase = .running) (hc : c ∉ th.children) :
    ThreadStep t th (.wait t c) th
  | waitDown {c : ℕ} (h : th.phase = .waitDown c) (hb : th.blocked = false)
      (hv : 0 < th.waitSema.value) :
    ThreadStep t th (.waitDown t) { th with phase := .waitRead c, waitSema := th.waitSema.down }
  | waitSleep {c : ℕ} (h : th.phase = .waitDown c) (hb : th.blocked = false)
      (hv : th.waitSema.value = 0) :
    ThreadStep t th (.waitDown t) { th with blocked := true, waitSema := th.waitSema.sleep t }
  | waitReturn {c : ℕ} (h : th.phase = .waitRead c) :
    ThreadStep t th (.waitReturn t) { th with phase := .running, children := th.children.erase c }
  | exit (h : th.phase = .running) (ht : t ≠ initialThread) (status : ℤ) :
    ThreadStep t th (.exit t status) { th with phase := .exiting status, exitStatus := status }
  | mainExit (h : th.phase = .running) (ht : t = initialThread) :
    ThreadStep t th .mainExit { th with phase := .mainExiting }
  | die (h : th.phase = .signalled) : ThreadStep t th (.die t) { th with phase := .dead }

/-- The steps: a thread's own, the two that create a thread, and the two that follow a parent
pointer. -/
inductive FamilyStep (s : Family) : FamilyAct → Family → Prop
  | own {t : ℕ} {a : FamilyAct} {th : Thread} (h : ThreadStep t (s.thread t) a th) :
    FamilyStep s a (s.modify t fun _ => th)
  | exec {p : ℕ} (h : (s.thread p).phase = .running) (hp : p ≠ initialThread) :
    FamilyStep s (.exec p true)
      ((s.create p).modify p fun th => { th with phase := .execDown s.nextTid })
  | runTask (h : (s.thread initialThread).phase = .running) :
    FamilyStep s (.runTask true) (s.create initialThread)
  | loadSignal {c p : ℕ} {success : Bool} (h : (s.thread c).phase = .loadDone success)
      (hp : (s.thread c).parent = some p) (hfree : ¬ s.Freed p) :
    FamilyStep s (.loadSignal c) ((s.upLoad p).modify c
      fun th => { th with phase := if success then .running else .loadFailed })
  | signal {t p : ℕ} {status : ℤ} (h : (s.thread t).phase = .exiting status)
      (hp : (s.thread t).parent = some p) (hfree : ¬ s.Freed p) :
    FamilyStep s (.signal t) ((s.upWait p).modify t
      fun th => { th with phase := .signalled, exited := some status })

variable {s s' : Family} {a : FamilyAct}

namespace Family

/-- Everything an action can be. -/
lemma step_of_act (h : s.act a = some s') : FamilyStep s a s' := by
  cases a with
  | exec p alloc =>
    rw [act] at h
    split_ifs at h with hrun halloc <;> cases h
    · subst halloc
      exact .exec hrun.1 hrun.2
    · obtain rfl : alloc = false := by simpa using halloc
      exact .own (.execFail hrun.1 hrun.2)
  | runTask alloc =>
    rw [act] at h
    split_ifs at h with hrun halloc <;> cases h
    · subst halloc
      exact .runTask hrun
    · obtain rfl : alloc = false := by simpa using halloc
      exact .own (.runTaskFail hrun rfl)
  | load c success =>
    rw [act] at h
    split at h
    · cases h
      exact .own (.load ‹_› success)
    · cases h
  | loadSignal c =>
    rw [act] at h
    split at h
    · rename_i hph hp
      split at h
      · cases h
      · cases h
        exact .loadSignal hph hp ‹_›
    · cases h
  | loadAbort c =>
    rw [act] at h
    split_ifs at h with hph
    cases h
    exact .own (.loadAbort hph)
  | loadExit c =>
    rw [act] at h
    split_ifs at h with hph
    cases h
    exact .own (.loadExit hph)
  | execDown p =>
    rw [act] at h
    split at h
    · rename_i hph hb
      split_ifs at h with hv <;> cases h
      · exact .own (.execSleep hph hb hv)
      · exact .own (.execDown hph hb (Nat.pos_of_ne_zero hv))
    · cases h
  | execReturn p =>
    rw [act] at h
    split at h
    · cases h
      exact .own (.execReturn ‹_›)
    · cases h
  | wait p c =>
    rw [act] at h
    split_ifs at h with hph hc <;> cases h
    · exact .own (.wait hph hc)
    · exact .own (.waitUnknown hph hc)
  | waitDown p =>
    rw [act] at h
    split at h
    · rename_i hph hb
      split_ifs at h with hv <;> cases h
      · exact .own (.waitSleep hph hb hv)
      · exact .own (.waitDown hph hb (Nat.pos_of_ne_zero hv))
    · cases h
  | waitReturn p =>
    rw [act] at h
    split at h
    · cases h
      exact .own (.waitReturn ‹_›)
    · cases h
  | exit t status =>
    rw [act] at h
    split_ifs at h with hph
    cases h
    exact .own (.exit hph.1 hph.2 status)
  | mainExit =>
    rw [act] at h
    split_ifs at h with hph
    cases h
    exact .own (.mainExit hph rfl)
  | signal t =>
    rw [act] at h
    split at h
    · rename_i hph hp
      split_ifs at h with hfree
      cases h
      exact .signal hph hp hfree
    · cases h
  | die t =>
    rw [act] at h
    split_ifs at h with hph
    cases h
    exact .own (.die hph)

end Family

/-! ## The views of an updated family -/

namespace Family

variable (s : Family) (t : ℕ) (f : Thread → Thread)

@[simp] lemma thread_modify_self : (s.modify t f).thread t = f (s.thread t) :=
  update_self ..

lemma thread_modify_ne {t u : ℕ} (h : u ≠ t) : (s.modify t f).thread u = s.thread u :=
  update_of_ne h ..

@[simp] lemma nextTid_modify : (s.modify t f).nextTid = s.nextTid := rfl

@[simp] lemma nextTid_wake (o : Option ℕ) : (s.wake o).nextTid = s.nextTid := by
  cases o <;> rfl

lemma thread_wake (o : Option ℕ) (u : ℕ) :
    (s.wake o).thread u = { s.thread u with
      blocked := (s.thread u).blocked && decide (o ≠ some u) } := by
  cases o with
  | none => simp [wake]
  | some t =>
    by_cases h : u = t
    · subst h
      simp [wake]
    · simp [wake, thread_modify_ne _ _ h, Ne.symm h]

section

variable (s : Family) {u p : ℕ}

lemma thread_create_self (hp : p ≠ s.nextTid) : (s.create p).thread p
    = { s.thread p with children := (s.thread p).children ++ [s.nextTid] } := by
  have hold : (s.spawn p).thread p = s.thread p := update_of_ne hp ..
  rw [create, thread_modify_self, hold]

lemma thread_create_new (hp : p ≠ s.nextTid) :
    (s.create p).thread s.nextTid = .create (some p) .loading := by
  rw [create, thread_modify_ne _ _ hp.symm]
  exact update_self ..

lemma thread_create_ne (hu : u ≠ p) (hnew : u ≠ s.nextTid) :
    (s.create p).thread u = s.thread u := by
  rw [create, thread_modify_ne _ _ hu]
  exact update_of_ne hnew ..

@[simp] lemma nextTid_create : (s.create p).nextTid = s.nextTid + 1 := rfl

@[simp] lemma nextTid_upLoad : (s.upLoad p).nextTid = s.nextTid := by
  rw [upLoad, nextTid_wake, nextTid_modify]

@[simp] lemma nextTid_upWait : (s.upWait p).nextTid = s.nextTid := by
  rw [upWait, nextTid_wake, nextTid_modify]

lemma thread_upWait_self : (s.upWait p).thread p
    = { s.thread p with
        waitSema := (s.thread p).waitSema.up
        blocked := (s.thread p).blocked && decide ((s.thread p).waitSema.woken ≠ some p) } := by
  rw [upWait, thread_wake, thread_modify_self]

end

end Family

/-! ## Records -/

/-- The record of a thread says nothing while it lives, and the status once it exits. -/
def Thread.Recorded (th : Thread) : Prop :=
  match th.phase with
  | .unborn => th.exited = none
  | .loading => th.exited = none ∧ th.loaded = none ∧ th.exitStatus = unusedChildExitStatus
  | .loadDone success => th.exited = none ∧ th.loaded = some success ∧
      th.exitStatus = if success then unusedChildExitStatus else syscallError
  | .loadFailed => th.exited = none ∧ th.loaded = some false ∧ th.exitStatus = syscallError
  | .exiting status => th.exited = none ∧ th.exitStatus = status ∧
      (th.loaded = some false → status = syscallError)
  | .signalled | .dead => th.exited = some th.exitStatus ∧
      (th.loaded = some false → th.exitStatus = syscallError)
  | _ => th.exited = none ∧ th.loaded ≠ some false ∧ th.exitStatus = unusedChildExitStatus

variable {t : ℕ} {th th' : Thread}

lemma ThreadStep.recorded (h : th.Recorded) (hstep : ThreadStep t th a th') : th'.Recorded := by
  cases hstep <;> simp_all [Thread.Recorded]

/-! ## Sleepers -/

/-- At the `sema_down` of `exec`… -/
def Phase.inExec : Phase → Bool
  | .execDown _ => true
  | _ => false

/-- …and of `process_wait`. -/
def Phase.inWait : Phase → Bool
  | .waitDown _ => true
  | _ => false

/-- A thread sleeps only on a semaphore of its own, while there is no unit of it. -/
structure Thread.Sleeps (t : ℕ) (th : Thread) : Prop where
  load : th.loadSema.waiters = if th.blocked && th.phase.inExec then [t] else []
  wait : th.waitSema.waiters = if th.blocked && th.phase.inWait then [t] else []
  blocked : th.blocked = true → th.phase.inExec = true ∧ th.loadSema.value = 0 ∨
    th.phase.inWait = true ∧ th.waitSema.value = 0

lemma ThreadStep.sleeps (h : th.Sleeps t) (hstep : ThreadStep t th a th') : th'.Sleeps t := by
  obtain ⟨hload, hwait, hblocked⟩ := h
  cases hstep <;> constructor <;>
    simp_all [Phase.inExec, Phase.inWait, down, sleep]

variable {th : Thread}

lemma Thread.Sleeps.awake (h : th.Sleeps t) (hexec : th.phase.inExec = false)
    (hwait : th.phase.inWait = false) :
    th.blocked = false ∧ th.loadSema.waiters = [] ∧ th.waitSema.waiters = [] := by
  refine ⟨Bool.eq_false_iff.mpr fun hb => ?_, by simp [h.load, hexec], by simp [h.wait, hwait]⟩
  rcases h.blocked hb with ⟨he, -⟩ | ⟨hw, -⟩
  · simp [hexec] at he
  · simp [hwait] at hw

lemma Thread.sleeps_of_awake
    (h : th.blocked = false ∧ th.loadSema.waiters = [] ∧ th.waitSema.waiters = []) :
    th.Sleeps t := by
  obtain ⟨hb, hload, hwait⟩ := h
  exact ⟨by simp [hb, hload], by simp [hb, hwait], by simp [hb]⟩

lemma Thread.Sleeps.woken {t u : ℕ} (h : th.Sleeps t) :
    (th.loadSema.woken = some u → u = t) ∧ (th.waitSema.woken = some u → u = t) := by
  rw [Semaphore.woken, Semaphore.woken, h.load, h.wait]
  constructor <;>
  · intro hw
    split at hw
    · exact (Option.some.inj hw).symm
    · cases hw

lemma Semaphore.up_owner {sema : Semaphore} {asleep here : Bool}
    (h : sema.waiters = if asleep && here then [t] else []) :
    sema.up.waiters = [] ∧ (asleep && decide (sema.woken ≠ some t)) = (asleep && !here) := by
  cases asleep <;> cases here <;> simp_all [up, woken]

lemma Phase.inExec_inWait (ph : Phase) : (ph.inExec && ph.inWait) = false := by
  cases ph <;> rfl

lemma Thread.Sleeps.upLoad (h : th.Sleeps t) : { th with
      loadSema := th.loadSema.up
      blocked := th.blocked && decide (th.loadSema.woken ≠ some t) : Thread }.Sleeps t := by
  obtain ⟨hup, hasleep⟩ := up_owner h.load
  have hone := th.phase.inExec_inWait
  refine ⟨?_, ?_, ?_⟩ <;> simp only [hasleep]
  · simp [hup]
  · rw [h.wait]
    cases he : th.phase.inExec <;> simp_all
  · intro hb
    obtain ⟨hb, he⟩ : th.blocked = true ∧ th.phase.inExec = false := by simpa using hb
    exact .inr ((h.blocked hb).resolve_left (by simp [he]))

lemma Thread.Sleeps.upWait (h : th.Sleeps t) : { th with
      waitSema := th.waitSema.up
      blocked := th.blocked && decide (th.waitSema.woken ≠ some t) : Thread }.Sleeps t := by
  obtain ⟨hup, hasleep⟩ := up_owner h.wait
  have hone := th.phase.inExec_inWait
  refine ⟨?_, ?_, ?_⟩ <;> simp only [hasleep]
  · rw [h.load]
    cases hw : th.phase.inWait <;> simp_all
  · simp [hup]
  · intro hb
    obtain ⟨hb, hw⟩ : th.blocked = true ∧ th.phase.inWait = false := by simpa using hb
    exact .inl ((h.blocked hb).resolve_right (by simp [hw]))

/-! ## Steps, seen from one thread -/

/-- What a family always looks like. -/
structure Family.Tidy (s : Family) : Prop where
  initial : initialThread < s.nextTid
  orphan : (s.thread initialThread).parent = none
  unborn : ∀ t, s.nextTid ≤ t → (s.thread t).phase = .unborn ∧ (s.thread t).parent = none
  older : ∀ c p, (s.thread c).parent = some p → p < c
  recorded : ∀ t, (s.thread t).Recorded
  sleeps : ∀ t, (s.thread t).Sleeps t
  child : ∀ p, ∀ c ∈ (s.thread p).children, (s.thread c).parent = some p

lemma Family.Tidy.lt_nextTid {s : Family} (h : s.Tidy) (ht : (s.thread t).phase ≠ .unborn) :
    t < s.nextTid := by
  by_contra hge
  exact ht (h.unborn t (Nat.not_lt.mp hge)).1

lemma Family.Tidy.lt_nextTid_of_parent {s : Family} (h : s.Tidy) {c p : ℕ}
    (hp : (s.thread c).parent = some p) : c < s.nextTid := by
  by_contra hge
  rw [(h.unborn c (Nat.not_lt.mp hge)).2] at hp
  cases hp

/-- The step creates a thread, under `p`. -/
def FamilyAct.CreatedBy (a : FamilyAct) (p : ℕ) : Prop :=
  a = .exec p true ∨ a = .runTask true ∧ p = initialThread

/-- Thread `c` ups a semaphore of its parent. -/
def FamilyAct.SignalOf (a : FamilyAct) (c : ℕ) : Prop := a = .loadSignal c ∨ a = .signal c

/-- What a step does to one thread: nothing; a step of its own; create it, or let it create; let
it signal its parent, or be signalled to. -/
inductive ThreadChange (s : Family) (a : FamilyAct) (u : ℕ) : Thread → Prop
  | rest (h : ∀ c, a.SignalOf c → (s.thread c).parent ≠ some u) : ThreadChange s a u (s.thread u)
  | own {th : Thread} (h : ThreadStep u (s.thread u) a th) : ThreadChange s a u th
  | born {p : ℕ} (hu : u = s.nextTid) (hp : p < s.nextTid) (ha : a.CreatedBy p) :
    ThreadChange s a u (.create (some p) .loading)
  | exec (h : (s.thread u).phase = .running) (hu : u < s.nextTid) (hmain : u ≠ initialThread)
      (ha : a = .exec u true) :
    ThreadChange s a u { s.thread u with
      children := (s.thread u).children ++ [s.nextTid], phase := .execDown s.nextTid }
  | runTask (hu : u = initialThread) (ha : a = .runTask true) :
    ThreadChange s a u { s.thread u with children := (s.thread u).children ++ [s.nextTid] }
  | loadSignal {success : Bool} (h : (s.thread u).phase = .loadDone success)
      (ha : a = .loadSignal u) :
    ThreadChange s a u { s.thread u with phase := if success then .running else .loadFailed }
  | loadSignalled {c : ℕ} {success : Bool} (h : (s.thread c).phase = .loadDone success)
      (hp : (s.thread c).parent = some u) (ha : a = .loadSignal c) :
    ThreadChange s a u { s.thread u with
      loadSema := (s.thread u).loadSema.up
      blocked := (s.thread u).blocked && decide ((s.thread u).loadSema.woken ≠ some u) }
  | signal {status : ℤ} (h : (s.thread u).phase = .exiting status) (ha : a = .signal u) :
    ThreadChange s a u { s.thread u with phase := .signalled, exited := some status }
  | signalled {c : ℕ} {status : ℤ} (h : (s.thread c).phase = .exiting status)
      (hp : (s.thread c).parent = some u) (ha : a = .signal c) :
    ThreadChange s a u { s.thread u with
      waitSema := (s.thread u).waitSema.up
      blocked := (s.thread u).blocked && decide ((s.thread u).waitSema.woken ≠ some u) }

lemma ThreadStep.not_signalOf {t c : ℕ} (h : ThreadStep t th a th') : ¬ a.SignalOf c := by
  cases h <;> simp [FamilyAct.SignalOf]

lemma FamilyAct.CreatedBy.not_signalOf {p c : ℕ} (h : a.CreatedBy p) : ¬ a.SignalOf c := by
  rcases h with rfl | ⟨rfl, -⟩ <;> simp [FamilyAct.SignalOf]

namespace Family

variable {s s' : Family} {a : FamilyAct}

lemma change_create {p : ℕ} (hp : p < s.nextTid) (ha : a.CreatedBy p) {u : ℕ} (hu : u ≠ p) :
    ThreadChange s a u ((s.create p).thread u) := by
  by_cases hnew : u = s.nextTid
  · rw [hnew, thread_create_new s (Nat.ne_of_lt hp)]
    exact .born rfl hp ha
  · rw [thread_create_ne s hu hnew]
    exact .rest fun c hc => absurd hc ha.not_signalOf

lemma Tidy.thread_upLoad_ne (hs : s.Tidy) {u p : ℕ} (hu : u ≠ p) :
    (s.upLoad p).thread u = s.thread u := by
  have hdeaf : (s.thread p).loadSema.woken ≠ some u := fun hw => hu ((hs.sleeps p).woken.1 hw)
  rw [upLoad, thread_wake, thread_modify_ne _ _ hu, decide_eq_true hdeaf, Bool.and_true]

lemma Tidy.thread_upWait_ne (hs : s.Tidy) {u p : ℕ} (hu : u ≠ p) :
    (s.upWait p).thread u = s.thread u := by
  have hdeaf : (s.thread p).waitSema.woken ≠ some u := fun hw => hu ((hs.sleeps p).woken.2 hw)
  rw [upWait, thread_wake, thread_modify_ne _ _ hu, decide_eq_true hdeaf, Bool.and_true]

lemma Tidy.change (hs : s.Tidy) (hstep : FamilyStep s a s') (u : ℕ) :
    ThreadChange s a u (s'.thread u) := by
  cases hstep with
  | own h =>
    rename_i t th
    by_cases hu : u = t
    · subst hu
      rw [thread_modify_self]
      exact .own h
    · rw [thread_modify_ne _ _ hu]
      exact .rest fun c hc => absurd hc h.not_signalOf
  | exec h hp =>
    rename_i p
    have hlt : p < s.nextTid := hs.lt_nextTid (by rw [h]; decide)
    by_cases hu : u = p
    · subst hu
      rw [thread_modify_self, thread_create_self s (Nat.ne_of_lt hlt)]
      exact .exec h hlt hp rfl
    · rw [thread_modify_ne _ _ hu]
      exact change_create hlt (.inl rfl) hu
  | runTask h =>
    by_cases hu : u = initialThread
    · rw [hu, thread_create_self s (Nat.ne_of_lt hs.initial)]
      exact .runTask rfl rfl
    · exact change_create hs.initial (.inr ⟨rfl, rfl⟩) hu
  | loadSignal h hp hfree =>
    rename_i c p success
    have hne : c ≠ p := Nat.ne_of_gt (hs.older c p hp)
    by_cases hu : u = c
    · subst hu
      rw [thread_modify_self, hs.thread_upLoad_ne hne]
      exact .loadSignal h rfl
    · rw [thread_modify_ne _ _ hu]
      by_cases hup : u = p
      · subst hup
        rw [upLoad, thread_wake, thread_modify_self]
        exact .loadSignalled h hp rfl
      · rw [hs.thread_upLoad_ne hup]
        refine .rest fun d hd => ?_
        obtain rfl : c = d := by simpa [FamilyAct.SignalOf] using hd
        rw [hp]
        exact fun h => hup (Option.some.inj h).symm
  | signal h hp hfree =>
    rename_i c p status
    have hne : c ≠ p := Nat.ne_of_gt (hs.older c p hp)
    by_cases hu : u = c
    · subst hu
      rw [thread_modify_self, hs.thread_upWait_ne hne]
      exact .signal h rfl
    · rw [thread_modify_ne _ _ hu]
      by_cases hup : u = p
      · subst hup
        rw [thread_upWait_self]
        exact .signalled h hp rfl
      · rw [hs.thread_upWait_ne hup]
        refine .rest fun d hd => ?_
        obtain rfl : c = d := by simpa [FamilyAct.SignalOf] using hd
        rw [hp]
        exact fun h => hup (Option.some.inj h).symm

end Family

section

variable {s : Family} {a : FamilyAct} {u : ℕ} {th : Thread}

lemma ThreadChange.parent (h : ThreadChange s a u th) :
    th.parent = (s.thread u).parent ∨
      u = s.nextTid ∧ ∃ p, a.CreatedBy p ∧ p < s.nextTid ∧ th.parent = some p := by
  cases h with
  | own h =>
    left
    cases h <;> rfl
  | born hu hp ha => exact .inr ⟨hu, _, ha, hp, rfl⟩
  | _ => exact .inl rfl

/-- A list of children gets the thread that is created, and loses those that were waited for. -/
lemma ThreadChange.children (h : ThreadChange s a u th) {c : ℕ} (hc : c ∈ th.children) :
    c ∈ (s.thread u).children ∨
      c = s.nextTid ∧ a.CreatedBy u := by
  cases h with
  | own h =>
    left
    cases h with
    | waitReturn h => exact List.mem_of_mem_erase hc
    | _ => exact hc
  | born => cases hc
  | exec h hu hmain ha => simpa [FamilyAct.CreatedBy, ha] using hc
  | runTask hu ha => simpa [FamilyAct.CreatedBy, ha, hu] using hc
  | _ => exact .inl hc

lemma ThreadChange.recorded (hr : (s.thread u).Recorded) (h : ThreadChange s a u th) :
    th.Recorded := by
  cases h with
  | own h => exact h.recorded hr
  | born => exact ⟨rfl, rfl, rfl⟩
  | exec h => simpa [Thread.Recorded, h] using hr
  | @loadSignal success h ha => cases success <;> simp_all [Thread.Recorded]
  | signal h =>
    obtain ⟨-, rfl, hloaded⟩ : (s.thread u).exited = none ∧ (s.thread u).exitStatus = _ ∧ _ := by
      simpa [Thread.Recorded, h] using hr
    exact ⟨rfl, hloaded⟩
  | _ => exact hr

lemma ThreadChange.sleeps (hr : (s.thread u).Sleeps u) (h : ThreadChange s a u th) :
    th.Sleeps u := by
  cases h with
  | rest => exact hr
  | own h => exact h.sleeps hr
  | born => exact ⟨rfl, rfl, nofun⟩
  | runTask => exact ⟨hr.load, hr.wait, hr.blocked⟩
  | exec h => exact Thread.sleeps_of_awake (hr.awake (by rw [h]; rfl) (by rw [h]; rfl))
  | loadSignal h => exact Thread.sleeps_of_awake (hr.awake (by rw [h]; rfl) (by rw [h]; rfl))
  | signal h => exact Thread.sleeps_of_awake (hr.awake (by rw [h]; rfl) (by rw [h]; rfl))
  | loadSignalled => exact hr.upLoad
  | signalled => exact hr.upWait

lemma ThreadChange.unborn (hu : (s.thread u).phase = .unborn) (h : ThreadChange s a u th) :
    (u = s.nextTid ∧ ∃ p, a.CreatedBy p) ∨ th.phase = .unborn := by
  cases h with
  | own h => cases h <;> simp_all
  | born hu hp ha => exact .inl ⟨hu, _, ha⟩
  | exec h => simp_all
  | loadSignal h => simp_all
  | signal h => simp_all
  | _ => exact .inr hu

end

/-! ## The invariant -/

namespace Family

variable {s s' : Family} {a : FamilyAct}

lemma thread_created (hs : s.Tidy) (hstep : FamilyStep s a s') {p : ℕ} (ha : a.CreatedBy p) :
    s'.nextTid = s.nextTid + 1 ∧ s'.thread s.nextTid = .create (some p) .loading := by
  cases hstep with
  | @own t _ th h => rcases ha with rfl | ⟨rfl, -⟩ <;> cases h
  | @exec q h hq =>
    obtain rfl : q = p := by simpa [FamilyAct.CreatedBy] using ha
    have hlt : q < s.nextTid := hs.lt_nextTid (by rw [h]; decide)
    refine ⟨rfl, ?_⟩
    rw [thread_modify_ne _ _ (Nat.ne_of_gt hlt), thread_create_new s (Nat.ne_of_lt hlt)]
  | runTask h =>
    obtain rfl : p = initialThread := by simpa [FamilyAct.CreatedBy] using ha
    exact ⟨rfl, thread_create_new s (Nat.ne_of_lt hs.initial)⟩
  | loadSignal => simp [FamilyAct.CreatedBy] at ha
  | signal => simp [FamilyAct.CreatedBy] at ha

lemma nextTid_le (hstep : FamilyStep s a s') : s.nextTid ≤ s'.nextTid := by
  cases hstep <;> simp

lemma Tidy.not_created (hs : s.Tidy) (hstep : FamilyStep s a s') {t p : ℕ}
    (ht : s'.nextTid ≤ t) (hnew : t = s.nextTid) : ¬ a.CreatedBy p := by
  intro ha
  have hnext := (thread_created hs hstep ha).1
  omega

lemma Tidy.parent_step (hs : s.Tidy) (hstep : FamilyStep s a s') {c p : ℕ}
    (hpar : (s.thread c).parent = some p) : (s'.thread c).parent = some p := by
  rcases (hs.change hstep c).parent with h | ⟨hnew, -⟩
  · exact h.trans hpar
  · exact absurd hnew (Nat.ne_of_lt (hs.lt_nextTid_of_parent hpar))

lemma Tidy.step (hs : s.Tidy) (hstep : FamilyStep s a s') : s'.Tidy where
  initial := Nat.lt_of_lt_of_le hs.initial (nextTid_le hstep)
  orphan := by
    rcases (hs.change hstep initialThread).parent with h | ⟨h, -⟩
    · rw [h]
      exact hs.orphan
    · exact absurd h (Nat.ne_of_lt hs.initial)
  unborn t ht := by
    obtain ⟨hphase, hparent⟩ := hs.unborn t (Nat.le_trans (nextTid_le hstep) ht)
    constructor
    · rcases (hs.change hstep t).unborn hphase with ⟨hnew, p, ha⟩ | h
      · exact absurd ha (hs.not_created hstep ht hnew)
      · exact h
    · rcases (hs.change hstep t).parent with h | ⟨hnew, p, ha, -⟩
      · rwa [h]
      · exact absurd ha (hs.not_created hstep ht hnew)
  older c p hp := by
    rcases (hs.change hstep c).parent with h | ⟨rfl, q, -, hq, h⟩
    · exact hs.older c p (h ▸ hp)
    · rw [h] at hp
      exact Option.some.inj hp ▸ hq
  recorded t := (hs.change hstep t).recorded (hs.recorded t)
  sleeps t := (hs.change hstep t).sleeps (hs.sleeps t)
  child p c hc := by
    rcases (hs.change hstep p).children hc with hold | ⟨rfl, ha⟩
    · exact hs.parent_step hstep (hs.child p c hold)
    · rw [(thread_created hs hstep ha).2]
      rfl

lemma Boot.cases (h : s.Boot) (t : ℕ) :
    s.thread t = .create none .running ∨ s.thread t = .create none .unborn :=
  (em (t = initialThread)).imp (fun ht => (congrArg s.thread ht).trans h.main) (h.unborn t)

lemma Boot.tidy (h : s.Boot) : s.Tidy := by
  refine ⟨h.nextTid, by rw [h.main]; rfl, fun t ht => ?_, fun c p hp => ?_, fun t => ?_,
    fun t => ?_, fun p c hc => ?_⟩
  · rw [h.unborn t (Nat.ne_of_gt (Nat.lt_of_lt_of_le h.nextTid ht))]
    exact ⟨rfl, rfl⟩
  · rcases h.cases c with hc | hc <;> · rw [hc] at hp; cases hp
  · rcases h.cases t with ht | ht <;> rw [ht]
    · exact ⟨rfl, by decide, rfl⟩
    · exact rfl
  · rcases h.cases t with ht | ht <;> rw [ht] <;> exact Thread.sleeps_of_awake ⟨rfl, rfl, rfl⟩
  · rcases h.cases p with hp | hp <;> · rw [hp] at hc; cases hc

lemma tidy_of_reach {G : Family → FamilyAct → Prop} (h : familySystem.Reach G s) : s.Tidy :=
  h.invariant (fun _ => Boot.tidy) fun _ _ _ hs _ hact => hs.step (step_of_act hact)

/-- `p` has `c` in its list of children. -/
def Lists (s : Family) (p c : ℕ) : Prop := c ∈ (s.thread p).children

/-- Tids grow from ancestor to descendant, so that nobody descends from itself. -/
lemma Tidy.lt_of_descends (hs : s.Tidy) {p c : ℕ} (h : Relation.TransGen s.Lists p c) : p < c := by
  induction h with
  | single hlists => exact hs.older _ _ (hs.child _ _ hlists)
  | tail _ hlists ih => exact Nat.lt_trans ih (hs.older _ _ (hs.child _ _ hlists))

/-- **The lists of children make a forest, and no wake-up is lost**: a thread that sleeps is the
waiter of a semaphore of its own that has no unit. -/
theorem family_forest {s : Family} (h : familySystem.Reachable s) :
    (∀ p q c, s.Lists p c → s.Lists q c → p = q) ∧ (∀ t, ¬ Relation.TransGen s.Lists t t) ∧
      ∀ t, (s.thread t).blocked = true →
        (s.thread t).loadSema.waiters = [t] ∧ (s.thread t).loadSema.value = 0 ∨
          (s.thread t).waitSema.waiters = [t] ∧ (s.thread t).waitSema.value = 0 := by
  have hs := tidy_of_reach h
  refine ⟨fun p q c hp hq => ?_, fun t ht => Nat.lt_irrefl t (hs.lt_of_descends ht),
    fun t hblocked => ?_⟩
  · exact Option.some.inj ((hs.child p c hp).symm.trans (hs.child q c hq))
  · obtain ⟨hload, hwait, hsleeps⟩ := hs.sleeps t
    refine (hsleeps hblocked).imp (fun ⟨hexec, hzero⟩ => ⟨?_, hzero⟩) fun ⟨hin, hzero⟩ => ⟨?_, hzero⟩
    · rw [hload, hblocked, hexec]
      rfl
    · rw [hwait, hblocked, hin]
      rfl

/-- Process 3 is a child of process 2, and of nobody else. -/
theorem family_forest_one : ∃ s : Family, familySystem.Reachable s ∧ s.Lists 2 3 ∧
    ∀ q, s.Lists q 3 → q = 2 := by
  obtain ⟨s, -, hs, hchild⟩ := family_of_run (G := fun _ _ => True)
    (P := fun s => 3 ∈ (s.thread 2).children) (l := oneChild) (by decide)
  exact ⟨s, hs, hchild, fun q hq => (family_forest hs).1 q 2 3 hq hchild⟩

end Family

/-! ## Threads that are gone -/

/-- The thread has exited, and told its parent. -/
def Thread.Gone (th : Thread) : Prop := th.phase = .signalled ∨ th.phase = .dead

instance (th : Thread) : Decidable th.Gone := inferInstanceAs (Decidable (_ ∨ _))

lemma Thread.Recorded.exited (h : th.Recorded) (hgone : th.Gone) :
    th.exited = some th.exitStatus := by
  rcases hgone with hph | hph <;>
  · rw [Thread.Recorded, hph] at h
    exact h.1

lemma Family.Tidy.gone_step (hs : s.Tidy) (hstep : FamilyStep s a s')
    (hgone : (s.thread t).Gone) : (s'.thread t).Gone := by
  have hborn : t < s.nextTid := hs.lt_nextTid (by rcases hgone with h | h <;> rw [h] <;> decide)
  have hchange := hs.change hstep t
  generalize s'.thread t = th at hchange
  cases hchange with
  | own h => cases h <;> simp_all [Thread.Gone]
  | born hnew => exact absurd hnew (Nat.ne_of_lt hborn)
  | exec h => simp_all [Thread.Gone]
  | loadSignal h => simp_all [Thread.Gone]
  | signal => exact .inl rfl
  | _ => exact hgone

lemma gone_signal (hstep : FamilyStep s (.signal t) s') : (s'.thread t).Gone := by
  cases hstep with
  | own h => cases h
  | signal h hp hfree =>
    rw [Family.thread_modify_self]
    exact .inl rfl

end Pintos
