import Pintos.Machinery.Runs
import Pintos.Machinery.Whereabouts
import Pintos.Threads.Synch

/-!
# Threads/Scheduler — who runs, who is ready, who is blocked

A thread is a page. One thread runs; the others that could run are in the ready list, and those
that could not are in the waiters of a semaphore, with the same list element. The idle thread is in
no list, and runs when the ready list is empty.

A timer interrupt can show two places more: a thread that `thread_create` is still setting up is
blocked but waits for nothing, and a thread on its way through `thread_exit` has upped its parent's
semaphore but still runs. A step goes as far as interrupts are off, or to the end of a switch.
-/

namespace Pintos

open Machinery Function Option List

/-- `enum thread_status`. -/
inductive ThreadStatus
  | running | ready | blocked | dying
  deriving DecidableEq

/-- What a thread is in the middle of. -/
inductive Doing
  | outside
  | inDown (s : ℕ)
  | creating (t : ℕ)
  | exiting
  deriving DecidableEq

/-- The scheduler, by pages. Three fields count the threads created on a page, those that died
there, and how often it was freed; `failed` when an assertion has. -/
structure Sched where
  status : ℕ → Option ThreadStatus
  doing : ℕ → Doing
  readyList : List ℕ
  sema : ℕ → Semaphore
  current : ℕ
  idleThread : ℕ
  initialThread : ℕ
  created : ℕ → ℕ
  died : ℕ → ℕ
  freed : ℕ → ℕ
  failed : Bool

/-- Steps of the current thread, except for `semaUp` in a handler and `threadYield` at the end of a
timer interrupt. `threadExit` and `die` are the two ends of `thread_exit`; `threadCreate` and
`threadUnblock` those of `thread_create`. -/
inductive SchedLabel
  | threadCreate (t : ℕ)
  | threadUnblock
  | semaDown (s : ℕ)
  | recheck
  | semaUp (s : ℕ) (handler : Bool)
  | threadYield
  | threadExit (s : ℕ)
  | die
  | idle

namespace Sched

def assert (k : Sched) (c : Bool) : Sched := { k with failed := k.failed || !c }

def setStatus (k : Sched) (t : ℕ) (st : Option ThreadStatus) : Sched :=
  { k with status := update k.status t st }

def setDoing (k : Sched) (t : ℕ) (d : Doing) : Sched :=
  { k with doing := update k.doing t d }

def setSema (k : Sched) (s : ℕ) (sema : Semaphore) : Sched :=
  { k with sema := update k.sema s sema }

/-- `palloc_free_page` of a thread's page. -/
def pallocFreePage (k : Sched) (t : ℕ) : Sched :=
  { k.setStatus t none with freed := update k.freed t (k.freed t + 1) }

/-- `thread_unblock`. -/
def threadUnblock (k : Sched) (t : ℕ) : Sched :=
  { (k.assert (k.status t = some .blocked)).setStatus t (some .ready) with
    readyList := k.readyList ++ [t] }

/-- `thread_schedule_tail`: the page of a dying thread is freed. -/
def threadScheduleTail (k : Sched) (prev : Option ℕ) : Sched :=
  let k := k.setStatus k.current (some .running)
  match prev with
  | none => k
  | some p =>
    if k.status p = some .dying ∧ p ≠ k.initialThread then
      (k.assert (p ≠ k.current)).pallocFreePage p
    else k

/-- `next_thread_to_run`, which also takes it off the ready list. -/
def nextThreadToRun (k : Sched) : ℕ := k.readyList.headD k.idleThread

/-- `schedule`. -/
def schedule (k : Sched) : Sched :=
  let next := k.nextThreadToRun
  let k' := (k.assert (k.status k.current ≠ some .running)).assert (k.status next ≠ none)
  { k' with readyList := k.readyList.tail, current := next }.threadScheduleTail
    (if k.current = next then none else some k.current)

/-- `thread_block`. -/
def threadBlock (k : Sched) : Sched := (k.setStatus k.current (some .blocked)).schedule

/-- `thread_yield`. -/
def threadYield (k : Sched) : Sched :=
  let k' := if k.current ≠ k.idleThread then { k with readyList := k.readyList ++ [k.current] } else k
  (k'.setStatus k.current (some .ready)).schedule

/-- A turn of the loop of `sema_down`. -/
def testSema (k : Sched) (s : ℕ) : Sched :=
  if (k.sema s).value = 0 then
    ((k.setSema s ((k.sema s).sleep k.current)).setDoing k.current (.inDown s)).threadBlock
  else (k.setSema s (k.sema s).down).setDoing k.current .outside

/-- `sema_up`. -/
def semaUp (k : Sched) (s : ℕ) : Sched :=
  match (k.sema s).woken with
  | none => k.setSema s (k.sema s).up
  | some t => (k.setSema s (k.sema s).up).threadUnblock t

/-- `palloc_get_page` and `init_thread`, for a thread on page `t`. -/
def initThread (k : Sched) (t : ℕ) : Sched :=
  { (k.setStatus t (some .blocked)).setDoing t .outside with
    created := update k.created t (k.created t + 1) }

/-- The end of `thread_exit`. -/
def die (k : Sched) : Sched :=
  { k.setStatus k.current (some .dying) with
    died := update k.died k.current (k.died k.current + 1) }.schedule

/-- The current thread can call. -/
def Calls (k : Sched) : Prop := k.current ≠ k.idleThread ∧ k.doing k.current = .outside

instance (k : Sched) : Decidable k.Calls := inferInstanceAs (Decidable (_ ∧ _))

/-- What a label does, if possible. The initial thread has no parent, and no semaphore to up. -/
def act (k : Sched) (a : SchedLabel) : Option Sched :=
  if k.failed then none
  else
    match a with
    | .threadCreate t =>
      if k.Calls ∧ k.status t = none then
        some ((k.initThread t).setDoing k.current (.creating t))
      else none
    | .threadUnblock =>
      match k.doing k.current with
      | .creating t => some ((k.setDoing k.current .outside).threadUnblock t)
      | _ => none
    | .semaDown s => if k.Calls then some (k.testSema s) else none
    | .recheck =>
      match k.doing k.current with
      | .inDown s => some (k.testSema s)
      | _ => none
    | .semaUp s handler => if handler = true ∨ k.Calls then some (k.semaUp s) else none
    | .threadYield => some k.threadYield
    | .threadExit s =>
      if k.Calls ∧ k.current ≠ k.initialThread then
        some ((k.setDoing k.current .exiting).semaUp s)
      else none
    | .die => if k.doing k.current = .exiting then some k.die else none
    | .idle => if k.current = k.idleThread then some k.threadBlock else none

/-- What `thread_start` leaves. -/
structure Started (k : Sched) : Prop where
  ne : k.idleThread ≠ k.initialThread
  current : k.current = k.initialThread
  initial : k.status k.initialThread = some .running
  idle : k.status k.idleThread = some .ready ∨ k.status k.idleThread = some .blocked
  others : ∀ t, t ≠ k.idleThread → t ≠ k.initialThread → k.status t = none
  doing : ∀ t, k.doing t = .outside
  readyList : k.readyList = []
  waiters : ∀ s, (k.sema s).waiters = []
  created : ∀ t, k.created t = if k.status t = none then 0 else 1
  counts : ∀ t, k.died t = 0 ∧ k.freed t = 0
  failed : k.failed = false

def system : System Sched SchedLabel where
  init k := k.Started
  step k a k' := k.act a = some k'

/-! ## Where everybody is -/

/-- Where a thread is; `newborn` while the thread `by_` sets it up, `resting` as the idle thread
does. -/
inductive Spot
  | vacant
  | running
  | ready
  | blocked (s : ℕ)
  | newborn (by_ : ℕ)
  | resting (st : ThreadStatus)
  | dying
  deriving DecidableEq

def Spot.status : Spot → Option ThreadStatus
  | vacant => none
  | running => some .running
  | ready => some .ready
  | blocked _ | newborn _ => some .blocked
  | resting st => some st
  | dying => some .dying

/-- The table: where everybody is; `r` is the thread that runs, none in the middle of a switch. -/
structure Table (k : Sched) (spot : ℕ → Spot) (r : Option ℕ) : Prop where
  status : ∀ t, k.status t = (spot t).status
  ready : Lists k.readyList spot .ready
  waiters : ∀ s, Lists (k.sema s).waiters spot (.blocked s)
  running : ∀ t, spot t = .running ↔ r = some t
  newborn : ∀ c t, k.doing c = .creating t ↔ spot t = .newborn c
  creator : ∀ c t, spot t = .newborn c → spot c ≠ .vacant ∧ spot c ≠ .dying
  rests : k.doing k.idleThread = .outside
  stays : k.doing k.initialThread ≠ .exiting
  resting : ∀ t st, spot t = .resting st → t = k.idleThread ∧ (st = .ready ∨ st = .blocked)
  idle : spot k.idleThread = .running ∨ ∃ st, spot k.idleThread = .resting st
  dying : ∀ t, spot t = .dying → t = k.current ∧ t ≠ k.initialThread
  created : ∀ t, k.created t = k.freed t + if spot t = .vacant then 0 else 1
  died : ∀ t, k.died t = k.freed t + if spot t = .dying then 1 else 0
  calm : k.failed = false

variable {k k' : Sched} {spot : ℕ → Spot} {r r' : Option ℕ}
variable {t : ℕ}

/-- A thread goes from one spot to another. -/
lemma Table.move (h : Table k spot r) {new : Spot}
    (hready : Lists k'.readyList (update spot t new) .ready)
    (hwaiters : ∀ s, Lists (k'.sema s).waiters (update spot t new) (.blocked s))
    (hrunning : ∀ u, update spot t new u = .running ↔ r' = some u)
    (hnewborn : ∀ c u, k'.doing c = .creating u ↔ update spot t new u = .newborn c)
    (hcreator : ∀ c u, update spot t new u = .newborn c →
      update spot t new c ≠ .vacant ∧ update spot t new c ≠ .dying)
    (hdoing : k'.doing k.idleThread = .outside ∧ k'.doing k.initialThread ≠ .exiting)
    (hidle : t = k.idleThread → new = .running ∨ ∃ st, new = .resting st)
    (hdying : ∀ u, update spot t new u = .dying → u = k'.current ∧ u ≠ k.initialThread)
    (hcreated : ∀ u, k'.created u = k'.freed u + if update spot t new u = .vacant then 0 else 1)
    (hdied : ∀ u, k'.died u = k'.freed u + if update spot t new u = .dying then 1 else 0)
    (hcalm : k'.failed = false) (hstatus : k'.status = update k.status t new.status)
    (hresting : ∀ st, new = .resting st → t = k.idleThread ∧ (st = .ready ∨ st = .blocked))
    (hnames : k'.idleThread = k.idleThread ∧ k'.initialThread = k.initialThread) :
    Table k' (update spot t new) r' where
  status u := by rw [hstatus, update_apply, update_apply, apply_ite Spot.status, h.status]
  ready := hready
  waiters := hwaiters
  running := hrunning
  newborn := hnewborn
  creator := hcreator
  rests := hnames.1.symm ▸ hdoing.1
  stays := hnames.2.symm ▸ hdoing.2
  resting u st hu := by
    rw [hnames.1]
    by_cases hut : u = t
    · rw [hut, update_self] at hu
      rw [hut]
      exact hresting st hu
    · rw [update_of_ne hut] at hu
      exact h.resting u st hu
  idle := by
    rw [hnames.1]
    by_cases hut : k.idleThread = t
    · rw [hut, update_self]
      exact hidle hut.symm
    · rw [update_of_ne hut]
      exact h.idle
  dying := hnames.2.symm ▸ hdying
  created := hcreated
  died := hdied
  calm := hcalm

/-- A thread that is neither before its life nor after it. -/
def Lives (x : Spot) : Prop := x ≠ .vacant ∧ x ≠ .dying ∧ ∀ c, x ≠ .newborn c

section

variable (h : Table k spot r)

include h

/-- A thread that lives goes elsewhere. -/
lemma Table.relocate {new : Spot} (hlives : Lives (spot t))
    (hready : Lists k'.readyList (update spot t new) .ready)
    (hwaiters : ∀ s, Lists (k'.sema s).waiters (update spot t new) (.blocked s))
    (hrunning : ∀ u, update spot t new u = .running ↔ r' = some u)
    (hidle : t = k.idleThread → new = .running ∨ ∃ st, new = .resting st)
    (hdying : ∀ u, spot u = .dying → u = k'.current) (hcalm : k'.failed = false)
    (hstatus : k'.status = update k.status t new.status) (hdoing : k'.doing = k.doing)
    (hresting : ∀ st, new = .resting st → t = k.idleThread ∧ (st = .ready ∨ st = .blocked))
    (hlives' : Lives new)
    (hnames : k'.idleThread = k.idleThread ∧ k'.initialThread = k.initialThread)
    (hcounts : k'.created = k.created ∧ k'.died = k.died ∧ k'.freed = k.freed) :
    Table k' (update spot t new) r' := by
  have hvacant (u : ℕ) := update_eq_iff_of_ne (b := u) ⟨hlives.1, hlives'.1⟩
  have hdead (u : ℕ) := update_eq_iff_of_ne (b := u) ⟨hlives.2.1, hlives'.2.1⟩
  have hborn (c u : ℕ) := update_eq_iff_of_ne (b := u) ⟨hlives.2.2 c, hlives'.2.2 c⟩
  refine h.move hready hwaiters hrunning (fun c u => ?_) (fun c u hu => ?_) ?_ hidle (fun u hu => ?_)
    (fun u => ?_) (fun u => ?_) hcalm hstatus hresting hnames
  · rw [hdoing, h.newborn, hborn]
  · rw [ne_eq, hvacant, ne_eq, hdead]
    exact h.creator c u ((hborn c u).mp hu)
  · rw [hdoing]
    exact ⟨h.rests, h.stays⟩
  · have hu := (hdead u).mp hu
    exact ⟨hdying u hu, (h.dying u hu).2⟩
  · rw [hcounts.1, hcounts.2.2, h.created, if_congr (hvacant u) rfl rfl]
  · rw [hcounts.2.1, hcounts.2.2, h.died, if_congr (hdead u) rfl rfl]

lemma Table.ne_idle {x : Spot} (ht : spot t = x) (hne : x ≠ .running ∧ ∀ st, x ≠ .resting st) :
    t ≠ k.idleThread := by
  rintro rfl
  obtain hx | ⟨st, hx⟩ := h.idle
  · exact hne.1 (ht.symm.trans hx)
  · exact hne.2 st (ht.symm.trans hx)

/-- These spots are known by the status. -/
lemma Table.status_eq {x : Spot} (hx : x = .vacant ∨ x = .running ∨ x = .dying) :
    k.status t = x.status ↔ spot t = x := by
  rw [h.status]
  refine ⟨fun ht => ?_, congrArg Spot.status⟩
  cases hspot : spot t with
  | resting st =>
    rw [hspot] at ht
    obtain ⟨-, rfl | rfl⟩ := h.resting t st hspot <;> obtain rfl | rfl | rfl := hx <;> cases ht
  | _ =>
    rw [hspot] at ht
    obtain rfl | rfl | rfl := hx <;> first | rfl | cases ht

lemma Table.setDoing {c : ℕ} {d : Doing} (hold : ∀ t, k.doing c ≠ .creating t)
    (hnew : ∀ t, d ≠ .creating t) (hidle : c ≠ k.idleThread)
    (hinitial : c = k.initialThread → d ≠ .exiting) : Table (k.setDoing c d) spot r :=
  { h with
    newborn := fun c' t => by
      rw [← h.newborn]
      exact update_eq_iff_of_ne ⟨hold t, hnew t⟩
    rests := (update_of_ne hidle.symm ..).trans h.rests
    stays := by
      by_cases hc : k.initialThread = c
      · have hself : (k.setDoing c d).doing k.initialThread = d := by
          rw [hc]
          exact update_self ..
        intro heq
        exact hinitial hc.symm (hself.symm.trans heq)
      · intro heq
        exact h.stays ((update_of_ne hc ..).symm.trans heq) }

lemma Table.setSema {s : ℕ} {sema : Semaphore} (hwaiters : sema.waiters = (k.sema s).waiters) :
    Table (k.setSema s sema) spot r :=
  { h with
    waiters := fun s' => by
      by_cases hs : s' = s
      · subst hs
        simp only [Sched.setSema, update_self, hwaiters]
        exact h.waiters s'
      · simp only [Sched.setSema, update_of_ne hs]
        exact h.waiters s' }

end

/-! ## Leaving the processor -/

section

variable (h : Table k spot (some k.current))

include h

lemma Table.spot_current : spot k.current = .running := (h.running _).mpr rfl

lemma Table.current_lives : Lives (spot k.current) := by simp [Lives, h.spot_current]

lemma Table.leave_running {new : Spot} (hnew : new ≠ .running) (u : ℕ) :
    update spot k.current new u = .running ↔ none = some u := by
  rw [update_eq_iff_of_leave hnew, h.running]
  exact iff_of_false (fun hu => hu.1 (some.inj hu.2).symm) (some_ne_none u).symm

lemma Table.block {s : ℕ} (hne : k.current ≠ k.idleThread) :
    Table ((k.setSema s ((k.sema s).sleep k.current)).setStatus k.current (some .blocked))
      (update spot k.current (.blocked s)) none := by
  have hrun := h.spot_current
  refine h.relocate h.current_lives (h.ready.other (by simp [hrun])) (fun s' => ?_)
    (h.leave_running (by simp)) (fun heq => absurd heq hne) (fun u hu => (h.dying u hu).1) h.calm
    rfl rfl (by simp) (by simp [Lives]) ⟨rfl, rfl⟩ ⟨rfl, rfl, rfl⟩
  by_cases hs : s' = s
  · subst hs
    simp only [Sched.setStatus, Sched.setSema, update_self, Semaphore.sleep]
    exact (h.waiters s').push (by simp [hrun])
  · simp only [Sched.setStatus, Sched.setSema, update_of_ne hs]
    exact (h.waiters s').other (by simp [hrun, Ne.symm hs])

lemma Table.yield (hne : k.current ≠ k.idleThread) :
    Table ({ k with readyList := k.readyList ++ [k.current] }.setStatus k.current (some .ready))
      (update spot k.current .ready) none := by
  have hrun := h.spot_current
  exact h.relocate h.current_lives (h.ready.push (by simp [hrun]))
    (fun s => (h.waiters s).other (by simp [hrun])) (h.leave_running (by simp))
    (fun heq => absurd heq hne) (fun u hu => (h.dying u hu).1) h.calm
    rfl rfl (by simp) (by simp [Lives]) ⟨rfl, rfl⟩ ⟨rfl, rfl, rfl⟩

lemma Table.rest (heq : k.current = k.idleThread) {st : ThreadStatus}
    (hst : st = .ready ∨ st = .blocked) :
    Table (k.setStatus k.current (some st)) (update spot k.current (.resting st)) none := by
  have hrun := h.spot_current
  refine h.relocate h.current_lives (h.ready.other (by simp [hrun]))
    (fun s => (h.waiters s).other (by simp [hrun])) (h.leave_running (by simp))
    (fun _ => .inr ⟨st, rfl⟩) (fun u hu => (h.dying u hu).1) h.calm rfl rfl (fun st' hst' => ?_)
    (by simp [Lives]) ⟨rfl, rfl⟩ ⟨rfl, rfl, rfl⟩
  obtain rfl := Spot.resting.inj hst'
  exact ⟨heq, hst⟩

lemma Table.not_dying (t : ℕ) : spot t ≠ .dying := by
  intro ht
  obtain ⟨rfl, -⟩ := h.dying t ht
  simp [h.spot_current] at ht

lemma Table.die (hexit : k.doing k.current = .exiting) :
    Table { k.setStatus k.current (some .dying) with
        died := update k.died k.current (k.died k.current + 1) }
      (update spot k.current .dying) none := by
  have hidle : k.current ≠ k.idleThread := by
    intro heq
    rw [heq, h.rests] at hexit
    cases hexit
  have hinitial : k.current ≠ k.initialThread := fun heq => h.stays (heq ▸ hexit)
  have hrun := h.spot_current
  refine h.move (h.ready.other (by simp [hrun])) (fun s => (h.waiters s).other (by simp [hrun]))
    (h.leave_running (by simp)) (fun c t => ?_) (fun c t ht => ?_) ⟨h.rests, h.stays⟩
    (fun heq => absurd heq hidle) (fun t ht => ?_) (fun t => ?_) (fun t => ?_) h.calm
    rfl (by simp) ⟨rfl, rfl⟩
  · exact (h.newborn c t).trans (update_eq_iff_of_ne (by simp [hrun])).symm
  · have ht := (update_eq_iff_of_ne (by simp [hrun])).mp ht
    have hc : c ≠ k.current := by
      rintro rfl
      have hcreating := (h.newborn _ t).mpr ht
      rw [hexit] at hcreating
      cases hcreating
    rw [update_of_ne hc]
    exact h.creator c t ht
  · obtain rfl := (update_eq_iff_of_self.mp ht).resolve_right (h.not_dying t)
    exact ⟨rfl, hinitial⟩
  · exact (h.created t).trans (congrArg _ (if_congr (update_eq_iff_of_ne (by simp [hrun])).symm rfl rfl))
  · have hold := h.died t
    rw [if_neg (h.not_dying t)] at hold
    by_cases ht : t = k.current
    · subst ht
      simp only [Sched.setStatus, update_self, if_true]
      omega
    · simp only [Sched.setStatus, update_of_ne ht, if_neg (h.not_dying t)]
      exact hold

end

/-! ## Coming to it -/

lemma Table.vacate (h : Table k spot none) (hdying : spot k.current = .dying) :
    Table (k.pallocFreePage k.current) (update spot k.current .vacant) none := by
  have hidle := h.ne_idle hdying (by simp)
  refine h.move (h.ready.other (by simp [hdying])) (fun s => (h.waiters s).other (by simp [hdying]))
    (fun t => ?_) (fun c t => ?_) (fun c t ht => ?_) ⟨h.rests, h.stays⟩
    (fun heq => absurd heq hidle) (fun t ht => ?_) (fun t => ?_) (fun t => ?_) h.calm
    rfl (by simp) ⟨rfl, rfl⟩
  · exact (update_eq_iff_of_ne (by simp [hdying])).trans (h.running t)
  · exact (h.newborn c t).trans (update_eq_iff_of_ne (by simp [hdying])).symm
  · have halive := h.creator c t ((update_eq_iff_of_ne (by simp [hdying])).mp ht)
    have hc : c ≠ k.current := by
      rintro rfl
      exact halive.2 hdying
    rwa [update_of_ne hc]
  · have ht := (update_eq_iff_of_leave (by simp)).mp ht
    exact absurd (h.dying t ht.2).1 ht.1
  · have hcreated := h.created t
    by_cases ht : t = k.current
    · subst ht
      rw [hdying] at hcreated
      simp only [Sched.pallocFreePage, update_self, if_true]
      exact hcreated
    · simp only [Sched.pallocFreePage, update_of_ne ht]
      exact hcreated
  · have hdied := h.died t
    by_cases ht : t = k.current
    · subst ht
      rw [hdying] at hdied
      simp only [Sched.pallocFreePage, update_self]
      exact hdied
    · simp only [Sched.pallocFreePage, update_of_ne ht]
      exact hdied

lemma Table.spot_next (h : Table k spot none) :
    (spot k.nextThreadToRun = .ready ∧ k.nextThreadToRun ≠ k.idleThread) ∨
      k.nextThreadToRun = k.idleThread ∧ ∃ st, spot k.nextThreadToRun = .resting st := by
  have hidle : ∃ st, spot k.idleThread = .resting st := by
    refine h.idle.resolve_left fun hrun => ?_
    exact absurd ((h.running _).mp hrun) (some_ne_none _).symm
  have hready := h.ready
  unfold nextThreadToRun
  cases hlist : k.readyList with
  | nil => exact .inr ⟨rfl, hidle⟩
  | cons t rest =>
    rw [hlist] at hready
    have ht : spot t = .ready := (hready.mem_iff t).mp mem_cons_self
    refine .inl ⟨ht, fun heq => ?_⟩
    obtain ⟨st, hst⟩ := hidle
    rw [← heq, headD_cons, ht] at hst
    cases hst

/-- The next thread on the processor. -/
def switched (k : Sched) : Sched :=
  { k with
    readyList := k.readyList.tail
    current := k.nextThreadToRun
    status := update k.status k.nextThreadToRun (some .running) }

lemma Table.switch (h : Table k spot none) (hnone : ∀ t, spot t ≠ .dying) :
    Table k.switched (update spot k.nextThreadToRun .running) (some k.nextThreadToRun) := by
  have hnext := h.spot_next
  have hold {x : Spot} (hx : x ≠ .ready ∧ ∀ st, x ≠ .resting st) : spot k.nextThreadToRun ≠ x := by
    rintro rfl
    obtain ⟨hready, -⟩ | ⟨-, st, hst⟩ := hnext
    · exact hx.1 hready
    · exact hx.2 st hst
  refine h.relocate ⟨hold (by simp), hnone _, fun _ => hold (by simp)⟩ ?_
    (fun s => (h.waiters s).other ⟨hold (by simp), by simp⟩) (fun u => ?_) (fun _ => .inl rfl)
    (fun u hu => absurd hu (hnone u)) h.calm rfl rfl (by simp) (by simp [Lives]) ⟨rfl, rfl⟩
    ⟨rfl, rfl, rfl⟩
  · change Lists k.readyList.tail _ _
    have hready := h.ready
    cases hlist : k.readyList with
    | nil =>
      rw [hlist] at hready
      exact hready.other ⟨fun hr => not_mem_nil ((hready.mem_iff _).mpr hr), by simp⟩
    | cons t rest =>
      have heq : k.nextThreadToRun = t := by rw [nextThreadToRun, hlist]; rfl
      rw [hlist] at hready
      rw [heq]
      exact hready.tail (by simp)
  · rw [update_eq_iff_of_self, h.running]
    constructor
    · rintro (rfl | hu)
      · rfl
      · cases hu
    · intro hu
      exact .inl (some.inj hu).symm

lemma assert_true (k : Sched) {c : Bool} (h : c = true) : k.assert c = k := by
  rw [assert, h, Bool.not_true, Bool.or_false]

lemma schedule_eq (hcurrent : k.status k.current ≠ some .running)
    (hnext : k.status k.nextThreadToRun ≠ none) :
    k.schedule =
      if k.current ≠ k.nextThreadToRun ∧ k.status k.current = some .dying ∧
          k.current ≠ k.initialThread then
        k.switched.pallocFreePage k.current
      else k.switched := by
  rw [schedule, assert_true _ (decide_eq_true hcurrent), assert_true _ (decide_eq_true hnext)]
  by_cases hsame : k.current = k.nextThreadToRun
  · rw [if_pos hsame, if_neg fun h => h.1 hsame]
    rfl
  · have hstatus : k.switched.status k.current = k.status k.current := update_of_ne hsame ..
    have hdiff : decide (k.current ≠ k.switched.current) = true := decide_eq_true hsame
    rw [if_neg hsame]
    change (if k.switched.status k.current = some .dying ∧ k.current ≠ k.initialThread then
      (k.switched.assert (decide (k.current ≠ k.switched.current))).pallocFreePage k.current
      else k.switched) = _
    rw [assert_true _ hdiff, hstatus]
    simp only [ne_eq, hsame, not_false_eq_true, true_and]

lemma switched_pallocFreePage (hne : k.current ≠ k.nextThreadToRun) :
    (k.pallocFreePage k.current).switched = k.switched.pallocFreePage k.current := by
  have hcomm : update (update k.status k.current none) k.nextThreadToRun
      (some .running) = update (update k.status k.nextThreadToRun (some .running))
      k.current none := update_comm hne ..
  simp only [switched, pallocFreePage, setStatus, nextThreadToRun] at hcomm ⊢
  rw [hcomm]

lemma Table.schedule (h : Table k spot none) :
    ∃ spot', Table k.schedule spot' (some k.schedule.current) := by
  have hcurrent : k.status k.current ≠ some .running := by
    intro hst
    exact absurd ((h.running _).mp ((h.status_eq (.inr (.inl rfl))).mp hst)) (some_ne_none _).symm
  have hnext : k.status k.nextThreadToRun ≠ none := by
    rw [h.status]
    obtain ⟨hready, -⟩ | ⟨-, st, hst⟩ := h.spot_next
    · rw [hready]
      exact some_ne_none _
    · rw [hst]
      exact some_ne_none _
  rw [schedule_eq hcurrent hnext]
  split
  · next hfree =>
    -- The current thread has died, and its page is freed in the middle of the switch.
    have hdying : spot k.current = .dying := (h.status_eq (.inr (.inr rfl))).mp hfree.2.1
    have hvacant := h.vacate hdying
    rw [← switched_pallocFreePage hfree.1]
    refine ⟨_, hvacant.switch fun t ht => ?_⟩
    have ht := (update_eq_iff_of_leave (by simp)).mp ht
    exact ht.1 (h.dying t ht.2).1
  · next hstay =>
    refine ⟨_, h.switch fun t ht => hstay ?_⟩
    obtain ⟨rfl, hinitial⟩ := h.dying t ht
    refine ⟨fun hsame => ?_, (h.status_eq (.inr (.inr rfl))).mpr ht, hinitial⟩
    rw [hsame] at ht
    obtain ⟨hready, -⟩ | ⟨-, st, hst⟩ := h.spot_next
    · rw [hready] at ht
      cases ht
    · rw [hst] at ht
      cases ht

/-! ## Becoming ready -/

lemma threadUnblock_eq (h : k.status t = some .blocked) : k.threadUnblock t =
      { k.setStatus t (some .ready) with readyList := k.readyList ++ [t] } := by
  rw [threadUnblock, assert_true _ (decide_eq_true h)]

lemma Table.semaUp (h : Table k spot r) (s : ℕ) : ∃ spot', Table (k.semaUp s) spot' r := by
  unfold Sched.semaUp
  cases hwoken : (k.sema s).woken with
  | none =>
    refine ⟨spot, h.setSema ?_⟩
    have hnil : (k.sema s).waiters = [] := head?_eq_none_iff.mp hwoken
    rw [Semaphore.up, hnil]
    rfl
  | some t =>
    obtain ⟨rest, hrest⟩ := head?_eq_some_iff.mp hwoken
    have hwaiters := h.waiters s
    rw [hrest] at hwaiters
    have ht : spot t = .blocked s := (hwaiters.mem_iff t).mp mem_cons_self
    have hstatus : (k.setSema s (k.sema s).up).status t = some .blocked := by
      change k.status t = _
      rw [h.status, ht]
      rfl
    have hidle := h.ne_idle ht (by simp)
    refine ⟨update spot t .ready, ?_⟩
    change Table ((k.setSema s (k.sema s).up).threadUnblock t) _ r
    rw [threadUnblock_eq hstatus]
    refine h.relocate (by simp [Lives, ht]) (h.ready.push (by simp [ht])) (fun s' => ?_)
      (fun u => (update_eq_iff_of_ne (by simp [ht])).trans (h.running u)) (fun heq => absurd heq hidle)
      (fun u hu => (h.dying u hu).1) h.calm rfl rfl (by simp) (by simp [Lives]) ⟨rfl, rfl⟩
      ⟨rfl, rfl, rfl⟩
    by_cases hs : s' = s
    · subst hs
      simp only [Sched.setStatus, Sched.setSema, update_self, Semaphore.up, hrest, tail_cons]
      exact hwaiters.tail (by simp)
    · simp only [Sched.setStatus, Sched.setSema, update_of_ne hs]
      exact (h.waiters s').other (by simp [ht, Ne.symm hs])

lemma Table.create (h : Table k spot (some k.current)) (hcalls : k.Calls)
    (ht : k.status t = none) : Table ((k.initThread t).setDoing k.current (.creating t))
      (update spot t (.newborn k.current)) (some k.current) := by
  have hvacant : spot t = .vacant := (h.status_eq (.inl rfl)).mp ht
  have hidle := h.ne_idle hvacant (by simp)
  have hrun := h.spot_current
  have hcur : k.current ≠ t := by
    rintro rfl
    simp [hrun] at hvacant
  have hdoing (c : ℕ) : ((k.initThread t).setDoing k.current (.creating t)).doing c =
      if c = k.current then .creating t else if c = t then .outside else k.doing c := by
    simp only [Sched.setDoing, initThread, Sched.setStatus, update_apply]
  refine h.move (h.ready.other (by simp [hvacant]))
    (fun s => (h.waiters s).other (by simp [hvacant]))
    (fun u => (update_eq_iff_of_ne (by simp [hvacant])).trans (h.running u)) (fun c u => ?_)
    (fun c u hu => ?_) ⟨?_, ?_⟩ (fun heq => absurd heq hidle)
    (fun u hu => h.dying u ((update_eq_iff_of_ne (by simp [hvacant])).mp hu)) (fun u => ?_)
    (fun u => ?_) h.calm rfl (by simp) ⟨rfl, rfl⟩
  · rw [hdoing]
    split
    · next hc =>
      -- The current thread was creating nobody, and now creates this one.
      have hnone : spot u ≠ .newborn k.current := by
        intro hu
        have hcreating := (h.newborn _ u).mpr hu
        rw [hcalls.2] at hcreating
        cases hcreating
      rw [hc, update_eq_iff_of_self, or_iff_left hnone]
      exact ⟨fun heq => (Doing.creating.inj heq).symm, fun heq => congrArg Doing.creating heq.symm⟩
    · next hc =>
      rw [update_eq_iff_of_ne (by simp [hvacant, Ne.symm hc])]
      split
      · next hct =>
        refine iff_of_false Doing.noConfusion fun hu => ?_
        exact (h.creator c u hu).1 (hct ▸ hvacant)
      · exact h.newborn c u
  · by_cases hut : u = t
    · rw [hut, update_self] at hu
      obtain rfl := Spot.newborn.inj hu
      rw [update_of_ne hcur]
      simp [hrun]
    · rw [update_of_ne hut] at hu
      have halive := h.creator c u hu
      have hct : c ≠ t := by
        rintro rfl
        exact halive.1 hvacant
      rwa [update_of_ne hct]
  · rw [hdoing, if_neg hcalls.1.symm, if_neg hidle.symm, h.rests]
  · rw [hdoing]
    split
    · exact Doing.noConfusion
    · split
      · exact Doing.noConfusion
      · exact h.stays
  · have hcreated := h.created u
    by_cases hu : u = t
    · subst hu
      rw [hvacant] at hcreated
      simp only [Sched.setDoing, initThread, Sched.setStatus, update_self]
      simpa using hcreated
    · simp only [Sched.setDoing, initThread, Sched.setStatus, update_of_ne hu]
      exact hcreated
  · exact (h.died u).trans (congrArg _ (if_congr (update_eq_iff_of_ne (by simp [hvacant])).symm rfl rfl))

lemma Table.start (h : Table k spot (some k.current)) (ht : k.doing k.current = .creating t) :
    Table ((k.setDoing k.current .outside).threadUnblock t) (update spot t .ready)
      (some k.current) := by
  have hborn : spot t = .newborn k.current := (h.newborn _ t).mp ht
  have hcur : k.current ≠ k.idleThread := by
    intro heq
    rw [heq, h.rests] at ht
    cases ht
  have hidle := h.ne_idle hborn (by simp)
  have hstatus : (k.setDoing k.current .outside).status t = some .blocked := by
    change k.status t = _
    rw [h.status, hborn]
    rfl
  rw [threadUnblock_eq hstatus]
  refine h.move (h.ready.push (by simp [hborn])) (fun s => (h.waiters s).other (by simp [hborn]))
    (fun u => (update_eq_iff_of_ne (by simp [hborn])).trans (h.running u)) (fun c u => ?_)
    (fun c u hu => ?_) ⟨(update_of_ne hcur.symm ..).trans h.rests, ?_⟩ (fun heq => absurd heq hidle)
    (fun u hu => h.dying u ((update_eq_iff_of_ne (by simp [hborn])).mp hu)) (fun u => ?_)
    (fun u => ?_) h.calm rfl (by simp) ⟨rfl, rfl⟩
  · by_cases hc : c = k.current
    · subst hc
      simp only [Sched.setDoing, Sched.setStatus, update_self]
      refine iff_of_false Doing.noConfusion fun hu => ?_
      have hu := (update_eq_iff_of_leave (by simp)).mp hu
      have hcreating := (h.newborn _ u).mpr hu.2
      exact hu.1 (Doing.creating.inj (hcreating.symm.trans ht))
    · simp only [Sched.setDoing, Sched.setStatus, update_of_ne hc]
      rw [update_eq_iff_of_ne (by simp [hborn, Ne.symm hc])]
      exact h.newborn c u
  · obtain ⟨hvacant, hdead⟩ := h.creator c u ((update_eq_iff_of_leave (by simp)).mp hu).2
    exact ⟨fun hc => hvacant ((update_eq_iff_of_ne (by simp [hborn])).mp hc),
      fun hc => hdead ((update_eq_iff_of_ne (by simp [hborn])).mp hc)⟩
  · change update k.doing k.current .outside k.initialThread ≠ _
    rw [update_apply]
    split
    · exact Doing.noConfusion
    · exact h.stays
  · exact (h.created u).trans (congrArg _ (if_congr (update_eq_iff_of_ne (by simp [hborn])).symm rfl rfl))
  · exact (h.died u).trans (congrArg _ (if_congr (update_eq_iff_of_ne (by simp [hborn])).symm rfl rfl))

/-! ## Every run -/

/-- Everybody is somewhere, and the current thread runs. -/
def Settled (k : Sched) : Prop := ∃ spot, Table k spot (some k.current)

lemma Settled.testSema (h : k.Settled) {s : ℕ} (hidle : k.current ≠ k.idleThread)
    (hdoing : ∀ t, k.doing k.current ≠ .creating t) : (k.testSema s).Settled := by
  obtain ⟨spot, h⟩ := h
  unfold Sched.testSema
  split
  · have h' := (h.setDoing (d := .inDown s) hdoing (fun t => Doing.noConfusion) hidle
      fun _ => Doing.noConfusion)
    exact (Table.block h' (s := s) hidle).schedule
  · have hdown : Table (k.setSema s (k.sema s).down) spot (some k.current) := h.setSema rfl
    exact ⟨spot, hdown.setDoing hdoing (fun t => Doing.noConfusion) hidle fun _ => Doing.noConfusion⟩

lemma Settled.semaUp (h : k.Settled) (s : ℕ) : (k.semaUp s).Settled := by
  obtain ⟨spot, h⟩ := h
  have hcurrent : (k.semaUp s).current = k.current := by
    unfold Sched.semaUp
    split <;> rfl
  obtain ⟨spot', h'⟩ := h.semaUp s
  exact ⟨spot', hcurrent ▸ h'⟩

lemma Settled.threadYield (h : k.Settled) : k.threadYield.Settled := by
  obtain ⟨spot, h⟩ := h
  unfold Sched.threadYield
  by_cases hidle : k.current = k.idleThread
  · rw [if_neg (not_not.mpr hidle)]
    exact (h.rest hidle (.inl rfl)).schedule
  · rw [if_pos hidle]
    exact (h.yield hidle).schedule

lemma Settled.step (h : k.Settled) {a : SchedLabel} (ha : k.act a = some k') : k'.Settled := by
  have hcalls (hc : k.Calls) (t : ℕ) : k.doing k.current ≠ .creating t := by
    rw [hc.2]
    exact Doing.noConfusion
  unfold act at ha
  split at ha
  · cases ha
  · cases a with
    | threadCreate t =>
      obtain ⟨⟨hc, ht⟩, rfl⟩ := ite_some_none_eq_some.mp ha
      obtain ⟨spot, h⟩ := h
      exact ⟨_, h.create hc ht⟩
    | threadUnblock =>
      dsimp only at ha
      split at ha
      · next t ht =>
        cases ha
        obtain ⟨spot, h⟩ := h
        exact ⟨_, h.start ht⟩
      · cases ha
    | semaDown s =>
      obtain ⟨hc, rfl⟩ := ite_some_none_eq_some.mp ha
      exact h.testSema hc.1 (hcalls hc)
    | recheck =>
      dsimp only at ha
      split at ha
      · next s hs =>
        cases ha
        refine h.testSema ?_ fun t => by rw [hs]; exact Doing.noConfusion
        obtain ⟨spot, h⟩ := h
        intro heq
        rw [heq, h.rests] at hs
        cases hs
      · cases ha
    | semaUp s handler =>
      obtain ⟨-, rfl⟩ := ite_some_none_eq_some.mp ha
      exact h.semaUp s
    | threadYield =>
      cases ha
      exact h.threadYield
    | threadExit s =>
      obtain ⟨⟨hc, hinitial⟩, rfl⟩ := ite_some_none_eq_some.mp ha
      obtain ⟨spot, h⟩ := h
      refine Settled.semaUp (k := k.setDoing k.current .exiting) ⟨spot, ?_⟩ s
      exact h.setDoing (hcalls hc) (fun t => Doing.noConfusion) hc.1 fun heq => absurd heq hinitial
    | die =>
      obtain ⟨hexit, rfl⟩ := ite_some_none_eq_some.mp ha
      obtain ⟨spot, h⟩ := h
      exact (h.die hexit).schedule
    | idle =>
      obtain ⟨hidle, rfl⟩ := ite_some_none_eq_some.mp ha
      obtain ⟨spot, h⟩ := h
      exact (h.rest hidle (.inr rfl)).schedule

/-- Where everybody is after `thread_start`, if the idle thread has the status `st`. -/
def startSpot (k : Sched) (st : ThreadStatus) (t : ℕ) : Spot :=
  if t = k.initialThread then .running else if t = k.idleThread then .resting st else .vacant

lemma startSpot_cases (k : Sched) (st : ThreadStatus) (t : ℕ) :
    (t = k.initialThread ∧ k.startSpot st t = .running) ∨
      (t ≠ k.initialThread ∧ t = k.idleThread ∧ k.startSpot st t = .resting st) ∨
      t ≠ k.initialThread ∧ t ≠ k.idleThread ∧ k.startSpot st t = .vacant := by
  unfold startSpot
  by_cases hi : t = k.initialThread
  · exact .inl ⟨hi, if_pos hi⟩
  · by_cases hd : t = k.idleThread
    · exact .inr (.inl ⟨hi, hd, by rw [if_neg hi, if_pos hd]⟩)
    · exact .inr (.inr ⟨hi, hd, by rw [if_neg hi, if_neg hd]⟩)

lemma Started.settled (h : k.Started) : k.Settled := by
  obtain ⟨st, hst, hidle⟩ : ∃ st, (st = .ready ∨ st = .blocked) ∧ k.status k.idleThread = some st := by
    obtain hidle | hidle := h.idle
    · exact ⟨.ready, .inl rfl, hidle⟩
    · exact ⟨.blocked, .inr rfl, hidle⟩
  have hne {x : Spot} (hx : x ≠ .running ∧ x ≠ .resting st ∧ x ≠ .vacant) (t : ℕ) :
      k.startSpot st t ≠ x := by
    rintro rfl
    obtain ⟨-, ht⟩ | ⟨-, -, ht⟩ | ⟨-, -, ht⟩ := k.startSpot_cases st t
    · exact hx.1 ht
    · exact hx.2.1 ht
    · exact hx.2.2 ht
  have hnil {x : Spot} (hx : ∀ t, k.startSpot st t ≠ x) : Lists [] (k.startSpot st) x :=
    ⟨nodup_nil, fun t => iff_of_false not_mem_nil (hx t)⟩
  have hstatus (t : ℕ) : k.status t = (k.startSpot st t).status := by
    obtain ⟨rfl, ht⟩ | ⟨-, rfl, ht⟩ | ⟨hi, hd, ht⟩ := k.startSpot_cases st t
    · rw [ht, h.initial]
      rfl
    · rw [ht, hidle]
      rfl
    · rw [ht, h.others t hd hi]
      rfl
  refine ⟨k.startSpot st, ?_⟩
  exact
    { status := hstatus
      ready := by
        rw [h.readyList]
        exact hnil (hne (by simp))
      waiters := fun s => by
        rw [h.waiters]
        exact hnil (hne (by simp))
      running := fun t => by
        rw [h.current]
        obtain ⟨rfl, ht⟩ | ⟨hi, -, ht⟩ | ⟨hi, -, ht⟩ := k.startSpot_cases st t
        · exact iff_of_true ht rfl
        · rw [ht]
          exact iff_of_false Spot.noConfusion fun heq => hi (some.inj heq).symm
        · rw [ht]
          exact iff_of_false Spot.noConfusion fun heq => hi (some.inj heq).symm
      newborn := fun c t => by
        rw [h.doing]
        exact iff_of_false Doing.noConfusion (hne (by simp) t)
      creator := fun c t ht => absurd ht (hne (by simp) t)
      rests := h.doing _
      stays := by
        rw [h.doing]
        exact Doing.noConfusion
      resting := fun t st' ht => by
        obtain ⟨-, ht'⟩ | ⟨-, hd, ht'⟩ | ⟨-, -, ht'⟩ := k.startSpot_cases st t
        · rw [ht'] at ht
          cases ht
        · rw [ht'] at ht
          obtain rfl := Spot.resting.inj ht
          exact ⟨hd, hst⟩
        · rw [ht'] at ht
          cases ht
      idle := .inr ⟨st, by rw [startSpot, if_neg h.ne, if_pos rfl]⟩
      dying := fun t ht => absurd ht (hne (by simp) t)
      created := fun t => by
        rw [h.created, (h.counts t).2, hstatus]
        obtain ⟨-, ht⟩ | ⟨-, -, ht⟩ | ⟨-, -, ht⟩ := k.startSpot_cases st t <;> rw [ht] <;> rfl
      died := fun t => by
        rw [(h.counts t).1, (h.counts t).2, if_neg (hne (by simp) t)]
      calm := h.failed }

lemma settled_of_reachable (hk : system.Reachable k) : k.Settled :=
  hk.invariant (I := Settled) (fun k (h : k.Started) => h.settled) fun _ _ _ h _ ha => h.step ha

/-! ## What the status tells -/

variable (h : Table k spot r)

include h

lemma Table.status_ready : spot t = .ready ↔ k.status t = some .ready ∧ t ≠ k.idleThread := by
  rw [h.status]
  constructor
  · intro ht
    exact ⟨by rw [ht]; rfl, h.ne_idle ht (by simp)⟩
  · rintro ⟨ht, hidle⟩
    cases hspot : spot t with
    | ready => rfl
    | resting st => exact absurd (h.resting t st hspot).1 hidle
    | _ => rw [hspot] at ht; cases ht

lemma Table.status_blocked (ht : k.status t = some .blocked) (hidle : t ≠ k.idleThread)
    (hborn : ∀ c, k.doing c ≠ .creating t) : ∃ s, spot t = .blocked s := by
  rw [h.status] at ht
  cases hspot : spot t with
  | blocked s => exact ⟨s, rfl⟩
  | newborn c => exact absurd ((h.newborn c t).mpr hspot) (hborn c)
  | resting st => exact absurd (h.resting t st hspot).1 hidle
  | _ => rw [hspot] at ht; cases ht

/-- A thread is blocked before its creator unblocks it, and in no list. -/
lemma Table.unlisted {c : ℕ} (hc : k.doing c = .creating t) :
    k.status t = some .blocked ∧ t ∉ k.readyList ∧ ∀ s, t ∉ (k.sema s).waiters := by
  have hspot := (h.newborn c t).mp hc
  refine ⟨by rw [h.status, hspot]; rfl, fun hmem => ?_, fun s hmem => ?_⟩
  · cases hspot.symm.trans ((h.ready.mem_iff t).mp hmem)
  · cases hspot.symm.trans (((h.waiters s).mem_iff t).mp hmem)

end Sched

/-- **Everybody is in one place.** The ready list has the ready threads other than the idle thread,
each once; a blocked thread is among the waiters of one semaphore, once, or is being created and in
no list; no assertion has failed; and each page was freed as often as a thread on it died. -/
theorem scheduler_places_everybody {k : Sched} (hk : Sched.system.Reachable k) :
    (∀ t, k.status t = some .running ↔ t = k.current) ∧
    (k.readyList.Nodup ∧ ∀ t, t ∈ k.readyList ↔ k.status t = some .ready ∧ t ≠ k.idleThread) ∧
    (∀ t, k.status t = some .blocked → t ≠ k.idleThread → (∀ c, k.doing c ≠ .creating t) →
      (∃! s, t ∈ (k.sema s).waiters) ∧ (∀ s, (k.sema s).waiters.count t ≤ 1) ∧ t ∉ k.readyList) ∧
    (∀ c t, k.doing c = .creating t →
      k.status t = some .blocked ∧ t ∉ k.readyList ∧ ∀ s, t ∉ (k.sema s).waiters) ∧
    k.failed = false ∧
    ∀ t, k.status t ≠ some .dying ∧ k.died t = k.freed t ∧
      k.created t = k.freed t + if k.status t = none then 0 else 1 := by
  obtain ⟨spot, h⟩ := Sched.settled_of_reachable hk
  have hdying := h.not_dying
  refine ⟨fun t => ?_, ⟨h.ready.nodup, fun t => ?_⟩, fun t ht hidle hborn => ?_,
    fun c t => h.unlisted, h.calm, fun t => ?_⟩
  · constructor
    · intro ht
      exact (Option.some.inj ((h.running t).mp ((h.status_eq (.inr (.inl rfl))).mp ht))).symm
    · rintro rfl
      rw [h.status, (h.running _).mpr rfl]
      rfl
  · rw [h.ready.mem_iff, h.status_ready]
  · obtain ⟨s, hs⟩ := h.status_blocked ht hidle hborn
    refine ⟨⟨s, ((h.waiters s).mem_iff t).mpr hs, fun s' hs' => ?_⟩, fun s' => ?_, fun hready => ?_⟩
    · exact Sched.Spot.blocked.inj ((((h.waiters s').mem_iff t).mp hs').symm.trans hs)
    · exact List.nodup_iff_count_le_one.mp (h.waiters s').nodup t
    · have hspot := (h.ready.mem_iff t).mp hready
      rw [hs] at hspot
      cases hspot
  · refine ⟨fun ht => hdying t ((h.status_eq (.inr (.inr rfl))).mp ht), ?_, ?_⟩
    · rw [h.died, if_neg (hdying t), Nat.add_zero]
    · exact (h.created t).trans (congrArg _ (if_congr (h.status_eq (.inl rfl)).symm rfl rfl))

/-- The initial thread on page 0 and the idle thread on page 1. -/
def bootSched : Sched where
  status t := if t = 0 then some .running else if t = 1 then some .blocked else none
  doing _ := .outside
  readyList := []
  sema _ := .init 0
  current := 0
  idleThread := 1
  initialThread := 0
  created t := if t = 0 then 1 else if t = 1 then 1 else 0
  died _ := 0
  freed _ := 0
  failed := false

lemma bootSched_started : bootSched.Started where
  ne := by decide
  current := rfl
  initial := rfl
  idle := .inr rfl
  others t hidle hinitial := by
    have hidle : t ≠ 1 := hidle
    have hinitial : t ≠ 0 := hinitial
    simp only [bootSched, if_neg hidle, if_neg hinitial]
  doing _ := rfl
  readyList := rfl
  waiters _ := rfl
  created t := by
    by_cases h0 : t = 0
    · simp [bootSched, h0]
    · by_cases h1 : t = 1
      · simp [bootSched, h1]
      · simp [bootSched, h0, h1]
  counts _ := ⟨rfl, rfl⟩
  failed := rfl

/-- The initial thread creates another and sleeps; the other wakes it and exits. -/
theorem scheduler_places_everybody_two :
    ∃ k : Sched, k.freed 2 = 1 ∧ k.failed = false ∧
      ∀ t, k.status t = some .running ↔ t = k.current := by
  obtain ⟨k, -, hk, hfreed⟩ := System.exists_of_run (T := Sched.system) (G := fun _ _ => True)
    (l := [.threadCreate 2, .threadUnblock, .semaDown 7, .semaUp 7 false, .threadExit 8, .die, .recheck])
    (P := fun k => k.freed 2 = 1) (fun k a k' (h : k.act a = some k') => h) bootSched_started
    (by decide)
  obtain ⟨hrunning, -, -, -, hcalm, -⟩ := scheduler_places_everybody hk
  exact ⟨k, hfreed, hcalm, hrunning⟩

/-- The initial thread is preempted in `thread_create`: the new thread is blocked, and in no list,
while another runs. -/
theorem newborn_in_no_list : ∃ k : Sched, Sched.system.Reachable k ∧ k.current = 2 ∧
    k.status 3 = some .blocked ∧ 3 ≠ k.idleThread ∧ 3 ∉ k.readyList ∧
    ∀ s, 3 ∉ (k.sema s).waiters := by
  obtain ⟨k, -, hk, hcurrent, hidle, hborn⟩ := System.exists_of_run (T := Sched.system)
    (G := fun _ _ => True) (l := [.threadCreate 2, .threadUnblock, .threadCreate 3, .threadYield])
    (P := fun k => k.current = 2 ∧ 3 ≠ k.idleThread ∧ k.doing 0 = .creating 3)
    (fun k a k' (h : k.act a = some k') => h) bootSched_started (by decide)
  obtain ⟨spot, h⟩ := Sched.settled_of_reachable hk
  obtain ⟨hblocked, hready, hwaiters⟩ := h.unlisted hborn
  exact ⟨k, hk, hcurrent, hblocked, hidle, hready, hwaiters⟩

end Pintos
