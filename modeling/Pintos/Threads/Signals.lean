import Pintos.Machinery.Whereabouts
import Pintos.Threads.Monitor

/-!
# Threads/Signals — no signal of a condition variable is lost

The table reads the stages of `Threads/Monitor` off the state: a thread is in a list just when it
is queued, named by a `cond_signal` just when it is popped, and has its semaphore up just when it is
signalled. So the signals that have found a waiter are as many as the threads that have gone on and
the threads that are free to.
-/

namespace Pintos

open Machinery Function List Semaphore

/-- The stages of a thread in `cond_wait`. -/
inductive WaitStage
  | out
  | queued (c : ℕ)
  | popped (signaller : ℕ)
  | signalled
  deriving DecidableEq

namespace Monitors

/-- A row of the table: what the thread `t`, at `p` and in the stage `st`, has for a semaphore. -/
structure Row (t : ℕ) (p : Place) (st : WaitStage) (sema : Semaphore) : Prop where
  value : sema.value = if st = .signalled then 1 else 0
  waiters : sema.waiters = if p.sleeps then [t] else []
  waits : p.waits = true ↔ st ≠ .out
  awake : p.sleeps = true → st ≠ .signalled

/-- The table: the stage of each thread, and a list of the signalled ones. -/
structure Table (m : Monitors) (stage : ℕ → WaitStage) (pending : List ℕ) : Prop where
  row : ∀ t, Row t (m.place t) (stage t) (m.waiter t)
  queued : ∀ c, Lists (m.cond c) stage (.queued c)
  popped : ∀ u w, (m.place u).signals = some w ↔ stage w = .popped u
  signalled : Lists pending stage .signalled
  count : m.signals = m.released + pending.length

variable {m m' : Monitors} {stage : ℕ → WaitStage} {pending : List ℕ}
variable {t : ℕ}

lemma Row.place {p p' : Place} {st : WaitStage} {sema : Semaphore} (h : Row t p st sema)
    (hwaits : p'.waits = p.waits) (hsleeps : p'.sleeps = p.sleeps) : Row t p' st sema where
  value := h.value
  waiters := by rw [hsleeps, h.waiters]
  waits := by rw [hwaits, h.waits]
  awake := by rw [hsleeps]; exact h.awake

lemma Table.same (h : Table m stage pending) (hcond : m'.cond = m.cond)
    (hwaiter : m'.waiter = m.waiter) (hsignals : m'.signals = m.signals)
    (hreleased : m'.released = m.released)
    (hplace : ∀ t, (m'.place t).signals = (m.place t).signals ∧
      (m'.place t).waits = (m.place t).waits ∧ (m'.place t).sleeps = (m.place t).sleeps) :
    Table m' stage pending where
  row t := by
    rw [hwaiter]
    exact (h.row t).place (hplace t).2.1 (hplace t).2.2
  queued := by rw [hcond]; exact h.queued
  popped u w := by rw [(hplace u).1, h.popped]
  signalled := h.signalled
  count := by rw [hsignals, hreleased, h.count]

lemma Table.move (h : Table m stage pending) {p : Place}
    (hsignals : p.signals = (m.place t).signals) (hwaits : p.waits = (m.place t).waits)
    (hsleeps : p.sleeps = (m.place t).sleeps) : Table (m.move t p) stage pending := by
  refine h.same rfl rfl rfl rfl fun u => ?_
  by_cases hu : u = t
  · rw [hu, place_move_self]
    exact ⟨hsignals, hwaits, hsleeps⟩
  · rw [place_move_of_ne m p hu]
    exact ⟨rfl, rfl, rfl⟩

lemma signals_move {p : Place} (hp : p.signals = (m.place t).signals) (u : ℕ) :
    ((m.move t p).place u).signals = (m.place u).signals := by
  by_cases hu : u = t
  · rw [hu, place_move_self, hp]
  · rw [place_move_of_ne _ _ hu]

lemma Table.out (h : Table m stage pending) (ht : (m.place t).waits = false) :
    stage t = .out := by
  by_contra hne
  exact absurd ((h.row t).waits.mpr hne) (by rw [ht]; exact Bool.false_ne_true)

lemma Table.not_popped (h : Table m stage pending) (ht : (m.place t).signals = none) (w : ℕ) :
    stage w ≠ .popped t := by
  intro hw
  have hsome := (h.popped t w).mpr hw
  rw [ht] at hsome
  cases hsome

variable {t c l : ℕ}

section

variable (h : Table m stage pending)

include h

lemma Table.push (ht : m.place t = .outside) :
    Table (m.pushWaiter t c l) (update stage t (.queued c)) pending := by
  have hout : stage t = .out := h.out (by rw [ht]; rfl)
  constructor
  · intro u
    by_cases hu : u = t
    · subst hu
      simp only [pushWaiter, Monitors.move, update_self]
      exact ⟨rfl, rfl, by simp [Place.waits], by simp⟩
    · simp only [pushWaiter, Monitors.move, update_of_ne hu]
      exact h.row u
  · intro d
    by_cases hd : d = c
    · subst hd
      simp only [pushWaiter, Monitors.move, update_self]
      exact (h.queued d).push (by simp [hout])
    · simp only [pushWaiter, Monitors.move, update_of_ne hd]
      exact (h.queued d).other (by simp [hout, Ne.symm hd])
  · intro u w
    rw [pushWaiter, signals_move (by rw [ht]; rfl)]
    exact (h.popped u w).trans (update_eq_iff_of_ne (by simp [hout])).symm
  · exact h.signalled.other (by simp [hout])
  · exact h.count

lemma Table.pop {t c l w : ℕ} {all : Bool} {rest : List ℕ} (ht : Idle (m.place t))
    (hqueue : m.cond c = w :: rest) :
    Table (m.popWaiter t c l w all) (update stage w (.popped t)) pending := by
  obtain ⟨-, hwaits, hsleeps, hsignals, -⟩ := ht
  have hqueued := h.queued c
  rw [hqueue] at hqueued
  have hw : stage w = .queued c := (hqueued.mem_iff w).mp mem_cons_self
  have hne : w ≠ t := by
    rintro rfl
    rw [h.out hwaits] at hw
    cases hw
  have hplace (u : ℕ) : (m.popWaiter t c l w all).place u =
      if u = t then .signalling c l w all else m.place u := update_apply ..
  constructor
  · intro u
    have hrow := h.row u
    rw [hplace]
    by_cases hu : u = w
    · subst hu
      rw [update_self, if_neg hne]
      rw [hw] at hrow
      exact ⟨hrow.value, hrow.waiters, hrow.waits.trans (by simp), fun _ => WaitStage.noConfusion⟩
    · rw [update_of_ne hu]
      split
      · next hut => exact hrow.place (by rw [hut, hwaits]; rfl) (by rw [hut, hsleeps]; rfl)
      · exact hrow
  · intro d
    by_cases hd : d = c
    · subst hd
      simp only [popWaiter, Monitors.move, update_self, hqueue, tail_cons]
      exact hqueued.tail (by simp)
    · simp only [popWaiter, Monitors.move, update_of_ne hd]
      exact (h.queued d).other (by simp [hw, Ne.symm hd])
  · intro u v
    rw [hplace]
    by_cases hu : u = t
    · rw [if_pos hu, hu, update_eq_iff_of_self, or_iff_left (h.not_popped hsignals v)]
      exact ⟨fun heq => (Option.some.inj heq).symm, fun heq => congrArg some heq.symm⟩
    · rw [if_neg hu, h.popped, update_eq_iff_of_ne (by simp [hw, Ne.symm hu])]
  · exact h.signalled.other (by simp [hw])
  · exact h.count

lemma Table.upWaiter {t c l w : ℕ} {all : Bool} (ht : m.place t = .signalling c l w all) :
    Table (m.upWaiter t c l w all) (update stage w .signalled) (w :: pending) := by
  have hw : stage w = .popped t := (h.popped t w).mp (by rw [ht]; rfl)
  have hne : w ≠ t := by
    rintro rfl
    rw [h.out (by rw [ht]; rfl)] at hw
    cases hw
  have hrow := h.row w
  rw [hw] at hrow
  have hvalue : (m.waiter w).value = 0 := hrow.value
  have hwoken (u : ℕ) : (m.waiter w).woken = some u ↔ u = w ∧ (m.place w).sleeps = true := by
    rw [woken, hrow.waiters]
    split
    · next hs => simp [hs, eq_comm]
    · next hs => simp [hs]
  have hcond : (m.upWaiter t c l w all).cond = m.cond := cond_wake _ _
  have hwaiter (u : ℕ) : (m.upWaiter t c l w all).waiter u =
      if u = w then (m.waiter w).up else m.waiter u := by
    rw [← update_apply]
    exact congrFun (waiter_wake _ _) u
  have hself : (m.upWaiter t c l w all).place t = if all then .broadcasting c l else .outside :=
    place_move_self ..
  have hplace {u : ℕ} (hu : u ≠ t) : (m.upWaiter t c l w all).place u =
      if (m.waiter w).woken = some u then (m.place u).awake else m.place u :=
    (place_move_of_ne _ _ hu).trans (place_wake _ _ _)
  constructor
  · intro u
    rw [hwaiter]
    by_cases hu : u = w
    · subst hu
      rw [if_pos rfl, hplace hne]
      constructor
      · simp [up, hvalue]
      · simp only [up, hrow.waiters, hwoken, true_and]
        split <;> simp_all
      · split
        · rw [Place.waits_awake, hrow.waits]
          simp
        · rw [hrow.waits]
          simp
      · simp only [hwoken, true_and]
        split <;> simp_all
    · rw [update_of_ne hu, if_neg hu]
      by_cases hut : u = t
      · rw [hut, hself]
        refine (h.row t).place ?_ ?_
        · rw [ht]
          cases all <;> rfl
        · rw [ht]
          cases all <;> rfl
      · rw [hplace hut, if_neg fun heq => hu ((hwoken u).mp heq).1]
        exact h.row u
  · rw [hcond]
    intro d
    exact (h.queued d).other (by simp [hw])
  · intro u v
    by_cases hu : u = t
    · rw [hu, hself]
      refine iff_of_false (by cases all <;> simp [Place.signals]) fun hv => ?_
      by_cases hvw : v = w
      · rw [hvw, update_self] at hv
        cases hv
      · rw [update_of_ne hvw] at hv
        have hsome := (h.popped t v).mpr hv
        rw [ht] at hsome
        exact hvw (Option.some.inj hsome).symm
    · have hsignals : ((m.upWaiter t c l w all).place u).signals = (m.place u).signals := by
        rw [hplace hu]
        split
        · exact Place.signals_awake _
        · rfl
      rw [hsignals, h.popped]
      exact (update_eq_iff_of_ne (by simp [hw, Ne.symm hu])).symm
  · exact h.signalled.cons (by simp [hw])
  · have hsignals : (m.upWaiter t c l w all).signals = m.signals + 1 := signals_wake _ _
    have hreleased : (m.upWaiter t c l w all).released = m.released := released_wake _ _
    have hcount := h.count
    rw [hreleased, length_cons]
    omega

lemma Table.sleep (ht : m.place t = .waiting c l) (hzero : (m.waiter t).value = 0) :
    Table ({ m with waiter := update m.waiter t ((m.waiter t).sleep t) }.move t
      (.waitAsleep c l)) stage pending := by
  have hrow := h.row t
  constructor
  · intro u
    by_cases hu : u = t
    · subst hu
      simp only [Monitors.move, update_self]
      have hnot : stage u ≠ .signalled := by
        intro hs
        have hval := hrow.value
        rw [hs, hzero] at hval
        cases hval
      have hnone : (m.waiter u).waiters = [] := by
        rw [hrow.waiters, ht]
        rfl
      refine ⟨hrow.value, ?_, ?_, fun _ => hnot⟩
      · rw [sleep, hnone]
        rfl
      · rw [← hrow.waits, ht]
        rfl
    · simp only [Monitors.move, update_of_ne hu]
      exact h.row u
  · exact h.queued
  · intro u w
    rw [← h.popped, signals_move (by show _ = (m.place t).signals; rw [ht]; rfl)]
  · exact h.signalled
  · exact h.count

lemma Table.go (ht : m.place t = .waiting c l) (hpos : (m.waiter t).value ≠ 0) : Table ({ m with
        waiter := update m.waiter t (m.waiter t).down
        released := m.released + 1 }.move t (.acquiring l (some c)))
      (update stage t .out) (pending.erase t) := by
  have hrow := h.row t
  have hsignalled : stage t = .signalled := by
    by_contra hne
    have hval := hrow.value
    rw [if_neg hne] at hval
    exact hpos hval
  have hmem : t ∈ pending := (h.signalled.mem_iff t).mpr hsignalled
  constructor
  · intro u
    by_cases hu : u = t
    · subst hu
      simp only [Monitors.move, update_self]
      have hone : (m.waiter u).value = 1 := by rw [hrow.value, if_pos hsignalled]
      have hnone : (m.waiter u).waiters = [] := by
        rw [hrow.waiters, ht]
        rfl
      refine ⟨?_, ?_, ?_, fun hs => ?_⟩
      · simp [down, hone]
      · simpa [down, Place.sleeps] using hnone
      · simp [Place.waits]
      · cases hs
    · simp only [Monitors.move, update_of_ne hu]
      exact h.row u
  · intro d
    exact (h.queued d).other (by simp [hsignalled])
  · intro u w
    rw [signals_move (by show _ = (m.place t).signals; rw [ht]; rfl)]
    exact (h.popped u w).trans (update_eq_iff_of_ne (by simp [hsignalled])).symm
  · exact h.signalled.erase (by simp)
  · have hcount := h.count
    have hlen := length_erase_add_one hmem
    simp only [Monitors.move]
    omega

end

/-! ## The sleepers of a lock -/

/-- The threads in the semaphore of a lock are asleep there. -/
structure Queue (m : Monitors) (l : ℕ) : Prop where
  nodup : (m.lock l).semaphore.waiters.Nodup
  asleep : ∀ u ∈ (m.lock l).semaphore.waiters, (m.place u).sleepsFor = some l

lemma Queue.same {l : ℕ} (h : Queue m l)
    (hwaiters : (m'.lock l).semaphore.waiters = (m.lock l).semaphore.waiters)
    (hplace : ∀ u, (m.place u).sleepsFor = some l → m'.place u = m.place u) :
    Queue m' l where
  nodup := by rw [hwaiters]; exact h.nodup
  asleep u hu := by
    rw [hwaiters] at hu
    have hasleep := h.asleep u hu
    rw [hplace u hasleep, hasleep]

lemma Queue.move {l : ℕ} (h : Queue m l) {p : Place} (ht : (m.place t).sleepsFor = none) :
    Queue (m.move t p) l := by
  refine h.same rfl fun u hu => place_move_of_ne m p ?_
  rintro rfl
  rw [ht] at hu
  cases hu

lemma Table.step (h : Table m stage pending) (hqueue : ∀ l, Queue m l) (hstep : Section m m') :
    ∃ stage' pending', Table m' stage' pending' := by
  have hsame (t : ℕ) : (m.place t).signals = (m.place t).signals ∧
      (m.place t).waits = (m.place t).waits ∧ (m.place t).sleeps = (m.place t).sleeps :=
    ⟨rfl, rfl, rfl⟩
  cases hstep with
  | stay => exact ⟨stage, pending, h⟩
  | move before after =>
    obtain ⟨-, hwaits, hsleeps, hsignals, -⟩ := before
    obtain ⟨-, hwaits', hsleeps', hsignals', -⟩ := after
    exact ⟨stage, pending, h.move (by rw [hsignals, hsignals']) (by rw [hwaits, hwaits'])
      (by rw [hsleeps, hsleeps'])⟩
  | testLock before =>
    obtain ⟨-, hwaits, hsleeps, hsignals, -⟩ := before
    refine ⟨stage, pending, ?_⟩
    unfold Monitors.testLock
    split
    all_goals
      exact Table.move (h.same (by rfl) (by rfl) (by rfl) (by rfl) (by exact hsame)) hsignals.symm hwaits.symm hsleeps.symm
  | hold before =>
    exact ⟨stage, pending, Table.move (h.same (by rfl) (by rfl) (by rfl) (by rfl) (by exact hsame))
      (congrArg Place.signals before).symm (congrArg Place.waits before).symm
      (congrArg Place.sleeps before).symm⟩
  | @letGo t l why before _ =>
    refine ⟨stage, pending, Table.move (h.same (by rfl) (by rfl) (by rfl) (by rfl) (by exact hsame)) ?_ ?_ ?_⟩
    all_goals
      dsimp only [note]
      rw [before]
      cases why <;> rfl
  | @upLock t l why before =>
    have hplace : ((m.setSemaphore l (m.lock l).semaphore.up).wake
        (m.lock l).semaphore.woken).place t = .releasing l why := by
      rw [place_wake, if_neg fun hwoken => ?_]
      · exact before
      · have hasleep := (hqueue l).asleep t (mem_of_mem_head? hwoken)
        rw [before] at hasleep
        cases hasleep
    refine ⟨stage, pending, Table.move ?_ ?_ ?_ ?_⟩
    · refine h.same ?_ ?_ ?_ ?_ fun u => ?_
      · rw [cond_wake]; rfl
      · rw [waiter_wake]; rfl
      · rw [signals_wake]; rfl
      · rw [released_wake]; rfl
      · rw [place_wake]
        split
        · next hwoken =>
          have hasleep := (hqueue l).asleep u (mem_of_mem_head? hwoken)
          refine ⟨Place.signals_awake _, Place.waits_awake _, ?_⟩
          rw [Place.sleeps_awake]
          exact (Place.sleeps_of_sleepsFor hasleep).symm
        · exact ⟨rfl, rfl, rfl⟩
    all_goals
      rw [hplace]
      cases why <;> rfl
  | push before => exact ⟨_, _, h.push before⟩
  | testWaiter before =>
    unfold Monitors.testWaiter
    split
    · next hzero => exact ⟨_, _, h.sleep before hzero⟩
    · next hpos => exact ⟨_, _, h.go before hpos⟩
  | pop before queue => exact ⟨_, _, h.pop before queue⟩
  | upWaiter before => exact ⟨_, _, h.upWaiter before⟩

lemma Queue.upLock (h : ∀ l, Queue m l) {t k : ℕ} {why : Purpose}
    (ht : m.place t = .releasing k why) (l : ℕ) : Queue (m.upLock t k why) l := by
  have hlock : (m.upLock t k why).lock =
      update m.lock k { m.lock k with semaphore := (m.lock k).semaphore.up } :=
    lock_wake (m.setSemaphore k (m.lock k).semaphore.up) _
  have hplace {u : ℕ} (hu : (m.place u).sleepsFor = some l)
      (hwoken : (m.lock k).semaphore.woken ≠ some u) : (m.upLock t k why).place u = m.place u := by
    have hut : u ≠ t := by
      rintro rfl
      rw [ht] at hu
      cases hu
    exact (place_move_of_ne _ _ hut).trans ((place_wake ..).trans (if_neg hwoken))
  by_cases hl : l = k
  · subst hl
    have hwaiters : ((m.upLock t l why).lock l).semaphore.waiters =
        (m.lock l).semaphore.waiters.tail := by
      rw [hlock, update_self]
      rfl
    constructor
    · rw [hwaiters]
      exact (h l).nodup.tail
    · intro u hu
      rw [hwaiters] at hu
      have hasleep := (h l).asleep u (mem_of_mem_tail hu)
      rw [hplace hasleep fun hwoken => ?_, hasleep]
      have hnodup := (h l).nodup
      rw [← cons_head?_tail hwoken] at hnodup
      exact (nodup_cons.mp hnodup).1 hu
  · refine (h l).same (by rw [hlock, update_of_ne hl]) fun u hu => hplace hu fun hwoken => ?_
    have hasleep := (h k).asleep u (mem_of_mem_head? hwoken)
    exact hl (Option.some.inj (hu.symm.trans hasleep))

lemma Queue.step (h : ∀ l, Queue m l) (htable : Table m stage pending) (hstep : Section m m')
    (l : ℕ) : Queue m' l := by
  cases hstep with
  | stay => exact h l
  | move before _ => exact (h l).move before.2.2.2.2
  | @testLock t k why before =>
    have ht := before.2.2.2.2
    unfold Monitors.testLock
    split
    · by_cases hl : l = k
      · subst hl
        have hnotMem : t ∉ (m.lock l).semaphore.waiters := by
          intro hmem
          rw [(h l).asleep t hmem] at ht
          cases ht
        have hwaiters : (((m.setSemaphore l ((m.lock l).semaphore.sleep t)).move t
            (.acquireAsleep l why)).lock l).semaphore.waiters =
            (m.lock l).semaphore.waiters ++ [t] := by
          simp only [Monitors.move, Monitors.setSemaphore, update_self, sleep]
        constructor
        · rw [hwaiters]
          exact (perm_append_singleton t _).nodup_iff.mpr
            (nodup_cons.mpr ⟨hnotMem, (h l).nodup⟩)
        · intro u hu
          by_cases hut : u = t
          · rw [hut, place_move_self]
            rfl
          · rw [hwaiters, mem_append, mem_singleton, or_iff_left hut] at hu
            rw [place_move_of_ne _ _ hut]
            exact (h l).asleep u hu
      · refine Queue.move ((h l).same ?_ (by exact fun _ _ => rfl)) ht
        exact congrArg (fun k : Lock => k.semaphore.waiters) (update_of_ne hl ..)
    · refine Queue.move ((h l).same ?_ (by exact fun _ _ => rfl)) ht
      by_cases hl : l = k
      · subst hl
        simp only [Monitors.setSemaphore, update_self, down]
      · exact congrArg (fun k : Lock => k.semaphore.waiters) (update_of_ne hl ..)
  | @hold t k why before =>
    exact Queue.move ((h l).same (by rw [semaphore_note]) (by exact fun _ _ => rfl))
      (congrArg Place.sleepsFor before)
  | @letGo t k why before _ =>
    refine Queue.move ((h l).same (by rw [semaphore_note]) (by exact fun _ _ => rfl)) ?_
    refine (congrArg Place.sleepsFor before).trans ?_
    cases why <;> rfl
  | @upLock t k why before => exact Queue.upLock h before l
  | push before => exact Queue.move ((h l).same (by rfl) (by exact fun _ _ => rfl)) (congrArg Place.sleepsFor before)
  | testWaiter before =>
    unfold Monitors.testWaiter
    split
    all_goals exact Queue.move ((h l).same (by rfl) (by exact fun _ _ => rfl)) (congrArg Place.sleepsFor before)
  | pop before _ => exact Queue.move ((h l).same (by rfl) (by exact fun _ _ => rfl)) before.2.2.2.2
  | @upWaiter t c k w all before =>
    refine (h l).same (by rw [Monitors.upWaiter, Monitors.move, lock_wake]) fun u hu => ?_
    have hut : u ≠ t := by
      rintro rfl
      rw [before] at hu
      cases hu
    refine (place_move_of_ne _ _ hut).trans ((place_wake ..).trans (if_neg fun hwoken => ?_))
    -- The semaphore of a thread in `cond_wait` wakes that thread, which sleeps in no lock.
    have hmem : u ∈ (m.waiter w).waiters := mem_of_mem_head? hwoken
    rw [(htable.row w).waiters] at hmem
    split at hmem
    · next hsleeps =>
      obtain rfl := mem_singleton.mp hmem
      rw [Place.sleeps_of_sleepsFor hu] at hsleeps
      cases hsleeps
    · cases hmem

/-! ## Every run -/

/-- What holds all the time. -/
structure Orderly (m : Monitors) : Prop where
  exclusive : ∀ l, Exclusive m l
  queue : ∀ l, Queue m l
  table : ∃ stage pending, Table m stage pending

lemma Orderly.step (h : Orderly m) (hstep : Section m m') : Orderly m' := by
  obtain ⟨stage, pending, htable⟩ := h.table
  exact ⟨Exclusive.step h.exclusive hstep, Queue.step h.queue htable hstep,
    htable.step h.queue hstep⟩

lemma orderly_of_reachable (hm : system.Reachable m) : Orderly m := by
  refine hm.invariant (fun m hinit => ?_) fun m a m' h _ ha => h.step (section_of_act ha)
  obtain rfl := hinit
  refine ⟨fun l => ?_, fun l => ⟨nodup_nil, fun u hu => by cases hu⟩, fun _ => .out, [], ?_⟩
  · refine ⟨Nat.le_refl 1, fun _ t ht => ?_, fun t _ ht => ?_, fun t => ?_, fun t ht => by cases ht⟩
    · obtain ht | ht := ht <;> cases ht
    · obtain ht | ht := ht <;> cases ht
    · exact iff_of_false (fun h => by cases h) Bool.false_ne_true
  · refine ⟨fun t => ⟨rfl, rfl, ?_, fun h => by cases h⟩, fun c => ⟨nodup_nil, fun t => ?_⟩,
      fun u w => ?_, ⟨nodup_nil, fun t => ?_⟩, rfl⟩
    · exact iff_of_false Bool.false_ne_true fun h => h rfl
    · exact iff_of_false not_mem_nil WaitStage.noConfusion
    · exact iff_of_false (fun h => by cases h) WaitStage.noConfusion
    · exact iff_of_false not_mem_nil WaitStage.noConfusion

end Monitors

/-- **Locks exclude, and signals arrive.** One thread at most has completed an acquire of a lock and
not begun its release, and holds it; so does a thread that returns from `cond_wait`; and the calls
of `cond_signal` that found a waiter are as many as the threads they released, none of which is
asleep. -/
theorem monitors_exclude_and_signal {m : Monitors} (hm : Monitors.system.Reachable m) :
    (∀ l t t', m.has l t = true → m.has l t' = true → t = t') ∧
    (∀ l t, m.place t = .outside → (m.lockHeldBy l t ↔ m.has l t = true)) ∧
    (∀ l t c m', m.place t = .acquired l (some c) → m.act (.go t) = some m' →
      m'.place t = .outside ∧ m'.lockHeldBy l t ∧ m'.has l t = true) ∧
    ∃ pending : List ℕ, pending.Nodup ∧ m.signals = m.released + pending.length ∧
      (∀ t, t ∈ pending ↔ (m.place t).waits = true ∧ (m.waiter t).value > 0) ∧
      ∀ t ∈ pending, (m.place t).sleeps = false := by
  obtain ⟨hexclusive, -, stage, pending, htable⟩ := Monitors.orderly_of_reachable hm
  refine ⟨fun l t t' ht ht' => (hexclusive l).one t t' (.inl ht) (.inl ht'),
    fun l t _ => (hexclusive l).holder t, fun l t c m' ht hgo => ?_, pending, htable.signalled.nodup,
    htable.count, fun t => ?_, fun t ht => ?_⟩
  · have hgo : some ((m.note l t true).move t .outside) = some m' := by
      rw [← hgo, Monitors.act, Monitors.go, ht]
    obtain rfl := Option.some.inj hgo
    refine ⟨Monitors.place_move_self .., ?_, ?_⟩
    · simp only [Monitors.lockHeldBy, Monitors.move, Monitors.note, update_self, if_true]
    · simp only [Monitors.move, Monitors.note, update_self]
  · have hrow := htable.row t
    rw [htable.signalled.mem_iff, hrow.waits, hrow.value]
    split
    · next hs => simp [hs]
    · next hs => simp [hs]
  · have hrow := htable.row t
    refine Bool.eq_false_iff.mpr fun hsleeps => hrow.awake hsleeps ?_
    exact (htable.signalled.mem_iff t).mp ht

/-- A thread that has given up the lock in `cond_wait` and is signalled before it sleeps. -/
theorem monitors_exclude_and_signal_early :
    ∃ m : Monitors, m.place 1 = .waiting 0 0 ∧ m.signals = 1 ∧
      (∀ l t t', m.has l t = true → m.has l t' = true → t = t') ∧
      (∀ l t, m.place t = .outside → (m.lockHeldBy l t ↔ m.has l t = true)) ∧
      (∀ l t c m', m.place t = .acquired l (some c) → m.act (.go t) = some m' →
        m'.place t = .outside ∧ m'.lockHeldBy l t ∧ m'.has l t = true) ∧
      ∃ pending : List ℕ, pending.Nodup ∧ m.signals = m.released + pending.length ∧
        (∀ t, t ∈ pending ↔ (m.place t).waits = true ∧ (m.waiter t).value > 0) ∧
        ∀ t ∈ pending, (m.place t).sleeps = false := by
  obtain ⟨m, -, hm, hplace, hsignals⟩ := System.exists_of_run (T := Monitors.system)
    (G := fun _ _ => True)
    (l := [.lockAcquire 1 0, .go 1, .go 1, .condWait 1 0 0, .go 1, .go 1, .lockAcquire 2 0, .go 2, .go 2,
      .condSignal 2 0 0, .go 2])
    (P := fun m => m.place 1 = .waiting 0 0 ∧ m.signals = 1)
    (fun m a m' (h : m.act a = some m') => h) rfl (by decide)
  exact ⟨m, hplace, hsignals, monitors_exclude_and_signal hm⟩

end Pintos
