import Mathlib.Data.List.Nodup
import Pintos.Machinery.Runs
import Pintos.Threads.Synch

/-!
# Threads/Monitor — locks and condition variables

Any number of threads use any number of locks and condition variables, and may be interrupted
between any two atomic sections or stores.

    lock_acquire    sema_down, then holder = current            lock_release    holder = NULL, then sema_up

So the holder is noted later than the lock is taken, and struck out before it is given up. A
thread is inside a lock from the one end to the other; inside there is one thread at most.

A thread in `cond_wait` has a semaphore of its own, and goes through four stages:

    queued --- list_pop_front ---> popped --- sema_up ---> signalled --- sema_down ---> out

A signal that comes before its thread sleeps is kept in the semaphore, which is why none is lost.
The list operations count as atomic, as they are when a lock protects them.
-/

namespace Pintos

open Machinery Function Option

/-- `struct lock`. -/
structure Lock where
  holder : Option ℕ
  semaphore : Semaphore

/-- `lock_init`. -/
def Lock.init : Lock := ⟨none, .init 1⟩

/-- What a lock is acquired or released for: `none` for its own sake, `some c` in `cond_wait` on
`c`. -/
abbrev Purpose := Option ℕ

/-- Where a thread is. -/
inductive Place
  /-- In none of the calls. -/
  | outside
  /-- In `lock_acquire`, before a test of the semaphore. -/
  | acquiring (l : ℕ) (why : Purpose)
  | acquireAsleep (l : ℕ) (why : Purpose)
  /-- In `lock_acquire`, before the holder is noted. -/
  | acquired (l : ℕ) (why : Purpose)
  /-- In `lock_release`, before `sema_up`. -/
  | releasing (l : ℕ) (why : Purpose)
  /-- In `cond_wait`, before `lock_release`. -/
  | enqueued (c l : ℕ)
  /-- In `cond_wait`, before a test of its own semaphore. -/
  | waiting (c l : ℕ)
  | waitAsleep (c l : ℕ)
  /-- In `cond_signal`, before `sema_up` for the waiter `w`; from `cond_broadcast` or not. -/
  | signalling (c l w : ℕ) (all : Bool)
  /-- In `cond_broadcast`, before the list is looked at. -/
  | broadcasting (c l : ℕ)
  deriving DecidableEq

variable {p : Place}

namespace Place

/-- The lock that the thread is inside of without being noted as its holder. -/
def inside : Place → Option ℕ
  | acquired l _ | releasing l _ => some l
  | _ => none

/-- The lock whose semaphore the thread sleeps on. -/
def sleepsFor : Place → Option ℕ
  | acquireAsleep l _ => some l
  | _ => none

/-- In `cond_wait`, up to the last test of the semaphore there. -/
def waits : Place → Bool
  | releasing _ (some _) | enqueued .. | waiting .. | waitAsleep .. => true
  | _ => false

/-- Asleep in `cond_wait`. -/
def sleeps : Place → Bool
  | waitAsleep .. => true
  | _ => false

/-- The waiter that is being signalled. -/
def signals : Place → Option ℕ
  | signalling _ _ w _ => some w
  | _ => none

/-- What `thread_unblock` makes of it. -/
def awake : Place → Place
  | acquireAsleep l why => acquiring l why
  | waitAsleep c l => waiting c l
  | p => p

@[simp] lemma inside_awake (p : Place) : p.awake.inside = p.inside := by cases p <;> rfl

@[simp] lemma signals_awake (p : Place) : p.awake.signals = p.signals := by cases p <;> rfl

@[simp] lemma waits_awake (p : Place) : p.awake.waits = p.waits := by cases p <;> rfl

lemma sleeps_of_sleepsFor {l : ℕ} (h : p.sleepsFor = some l) : p.sleeps = false := by
  cases p <;> first | rfl | cases h

@[simp] lemma sleeps_awake (p : Place) : p.awake.sleeps = false := by cases p <;> rfl

end Place

/-- Locks, condition variables, and the semaphore of each thread in `cond_wait`. Three fields
count: who has a lock, the calls of `cond_signal` that found a waiter, and the threads that have
gone on. -/
structure Monitors where
  lock : ℕ → Lock
  cond : ℕ → List ℕ
  waiter : ℕ → Semaphore
  place : ℕ → Place
  has : ℕ → ℕ → Bool
  signals : ℕ
  released : ℕ

/-- Calls of a thread, and going on in one. -/
inductive MonitorLabel
  | lockAcquire (t l : ℕ)
  | lockTryAcquire (t l : ℕ)
  | lockRelease (t l : ℕ)
  | condWait (t c l : ℕ)
  | condSignal (t c l : ℕ)
  | condBroadcast (t c l : ℕ)
  | go (t : ℕ)

namespace Monitors

/-- `lock_held_by_current_thread`, for the thread `t`. -/
def lockHeldBy (m : Monitors) (l t : ℕ) : Prop := (m.lock l).holder = some t

instance (m : Monitors) (l t : ℕ) : Decidable (m.lockHeldBy l t) :=
  inferInstanceAs (Decidable (_ = _))

/-! ## Atomic sections -/

/-- A thread gets to another place. -/
def move (m : Monitors) (t : ℕ) (p : Place) : Monitors :=
  { m with place := update m.place t p }

/-- The semaphore of a lock is another. -/
def setSemaphore (m : Monitors) (l : ℕ) (sema : Semaphore) : Monitors :=
  { m with lock := update m.lock l { m.lock l with semaphore := sema } }

/-- `holder = thread_current ()` or `holder = NULL`, where an acquire is completed or a release
begun. -/
def note (m : Monitors) (l t : ℕ) (b : Bool) : Monitors :=
  { m with
    lock := update m.lock l { m.lock l with holder := if b then some t else none }
    has := update m.has l (update (m.has l) t b) }

/-- `thread_unblock`, if there is somebody to unblock. -/
def wake (m : Monitors) : Option ℕ → Monitors
  | none => m
  | some u => m.move u (m.place u).awake

/-- A turn of `sema_down` in `lock_acquire`. -/
def testLock (m : Monitors) (t l : ℕ) (why : Purpose) : Monitors :=
  if (m.lock l).semaphore.value = 0 then
    (m.setSemaphore l ((m.lock l).semaphore.sleep t)).move t (.acquireAsleep l why)
  else (m.setSemaphore l (m.lock l).semaphore.down).move t (.acquired l why)

/-- Where a thread comes to `lock_release` from… -/
def beforeRelease (l : ℕ) : Purpose → Place
  | none => .outside
  | some c => .enqueued c l

/-- …and where it goes on after it. -/
def afterRelease (l : ℕ) : Purpose → Place
  | none => .outside
  | some c => .waiting c l

/-- `sema_up` in `lock_release`. -/
def upLock (m : Monitors) (t l : ℕ) (why : Purpose) : Monitors :=
  ((m.setSemaphore l (m.lock l).semaphore.up).wake (m.lock l).semaphore.woken).move t
    (afterRelease l why)

/-- A turn of `sema_down` in `cond_wait`. -/
def testWaiter (m : Monitors) (t c l : ℕ) : Monitors :=
  if (m.waiter t).value = 0 then
    { m with waiter := update m.waiter t ((m.waiter t).sleep t) }.move t (.waitAsleep c l)
  else
    { m with
      waiter := update m.waiter t (m.waiter t).down
      released := m.released + 1 }.move t (.acquiring l (some c))

/-- `sema_up` in `cond_signal`. -/
def upWaiter (m : Monitors) (t c l w : ℕ) (all : Bool) : Monitors :=
  ({ m with
      waiter := update m.waiter w (m.waiter w).up
      signals := m.signals + 1 }.wake (m.waiter w).woken).move t
    (if all then .broadcasting c l else .outside)

/-- `list_pop_front` in `cond_signal`, of the waiter `w`. -/
def popWaiter (m : Monitors) (t c l w : ℕ) (all : Bool) : Monitors :=
  { m with cond := update m.cond c (m.cond c).tail }.move t (.signalling c l w all)

/-- `sema_init` and `list_push_back` in `cond_wait`. -/
def pushWaiter (m : Monitors) (t c l : ℕ) : Monitors :=
  { m with
    waiter := update m.waiter t (.init 0)
    cond := update m.cond c (m.cond c ++ [t]) }.move t (.enqueued c l)

/-- Going on, unless asleep or outside. -/
def go (m : Monitors) (t : ℕ) : Option Monitors :=
  match m.place t with
  | .acquiring l why => some (m.testLock t l why)
  | .acquired l _ => some ((m.note l t true).move t .outside)
  | .releasing l why => some (m.upLock t l why)
  | .enqueued c l =>
    if m.lockHeldBy l t then some ((m.note l t false).move t (.releasing l (some c))) else none
  | .waiting c l => some (m.testWaiter t c l)
  | .signalling c l w all => some (m.upWaiter t c l w all)
  | .broadcasting c l =>
    match m.cond c with
    | [] => some (m.move t .outside)
    | w :: _ => if m.lockHeldBy l t then some (m.popWaiter t c l w true) else none
  | .outside | .acquireAsleep .. | .waitAsleep .. => none

/-- What a label does, where what the calls assert is true. -/
def act (m : Monitors) : MonitorLabel → Option Monitors
  | .lockAcquire t l =>
    if m.place t = .outside ∧ ¬ m.lockHeldBy l t then some (m.move t (.acquiring l none)) else none
  | .lockTryAcquire t l =>
    if m.place t = .outside ∧ ¬ m.lockHeldBy l t then
      some (if (m.lock l).semaphore.value = 0 then m else m.testLock t l none)
    else none
  | .lockRelease t l =>
    if m.place t = .outside ∧ m.lockHeldBy l t then
      some ((m.note l t false).move t (.releasing l none))
    else none
  | .condWait t c l =>
    if m.place t = .outside ∧ m.lockHeldBy l t then some (m.pushWaiter t c l) else none
  | .condSignal t c l =>
    if m.place t = .outside ∧ m.lockHeldBy l t then
      match m.cond c with
      | [] => some m
      | w :: _ => some (m.popWaiter t c l w false)
    else none
  | .condBroadcast t c l =>
    if m.place t = .outside then some (m.move t (.broadcasting c l)) else none
  | .go t => m.go t

/-- Locks nobody has, conditions nobody waits for, and every interleaving of calls. -/
def system : System Monitors MonitorLabel where
  init m := m = ⟨fun _ => .init, fun _ => [], fun _ => .init 0, fun _ => .outside, fun _ _ => false, 0, 0⟩
  step m a m' := m.act a = some m'

/-! ## What a step can do -/

/-- A place that neither the locks nor the condition variables know of. -/
def Idle (p : Place) : Prop :=
  p.inside = none ∧ p.waits = false ∧ p.sleeps = false ∧ p.signals = none ∧ p.sleepsFor = none

/-- The steps, by what they do and where the thread is before. -/
inductive Section (m : Monitors) : Monitors → Prop
  | stay : Section m m
  | move {t : ℕ} {p : Place} (before : Idle (m.place t)) (after : Idle p) : Section m (m.move t p)
  | testLock {t l : ℕ} {why : Purpose} (before : Idle (m.place t)) : Section m (m.testLock t l why)
  | hold {t l : ℕ} {why : Purpose} (before : m.place t = .acquired l why) :
    Section m ((m.note l t true).move t .outside)
  | letGo {t l : ℕ} {why : Purpose} (before : m.place t = beforeRelease l why)
    (held : m.lockHeldBy l t) :
    Section m ((m.note l t false).move t (.releasing l why))
  | upLock {t l : ℕ} {why : Purpose} (before : m.place t = .releasing l why) :
    Section m (m.upLock t l why)
  | push {t c l : ℕ} (before : m.place t = .outside) : Section m (m.pushWaiter t c l)
  | testWaiter {t c l : ℕ} (before : m.place t = .waiting c l) : Section m (m.testWaiter t c l)
  | pop {t c l w : ℕ} {all : Bool} {rest : List ℕ} (before : Idle (m.place t))
    (queue : m.cond c = w :: rest) : Section m (m.popWaiter t c l w all)
  | upWaiter {t c l w : ℕ} {all : Bool} (before : m.place t = .signalling c l w all) :
    Section m (m.upWaiter t c l w all)

variable {m m' : Monitors}

lemma section_of_go {t : ℕ} (h : m.go t = some m') : Section m m' := by
  unfold go at h
  split at h
  · next l why hp =>
    cases h
    exact .testLock (by rw [hp]; exact ⟨rfl, rfl, rfl, rfl, rfl⟩)
  · next l why hp =>
    cases h
    exact .hold hp
  · next l why hp =>
    cases h
    exact .upLock hp
  · next c l hp =>
    obtain ⟨hheld, rfl⟩ := ite_some_none_eq_some.mp h
    exact .letGo hp hheld
  · next c l hp =>
    cases h
    exact .testWaiter hp
  · next c l w all hp =>
    cases h
    exact .upWaiter hp
  · next c l hp =>
    split at h
    · cases h
      exact .move (by rw [hp]; exact ⟨rfl, rfl, rfl, rfl, rfl⟩) ⟨rfl, rfl, rfl, rfl, rfl⟩
    · next w rest hqueue =>
      obtain ⟨-, rfl⟩ := ite_some_none_eq_some.mp h
      exact .pop (by rw [hp]; exact ⟨rfl, rfl, rfl, rfl, rfl⟩) hqueue
  all_goals cases h

/-- Every step is one of these. -/
lemma section_of_act {a : MonitorLabel} (h : m.act a = some m') : Section m m' := by
  have hidle {t : ℕ} (hp : m.place t = .outside) : Idle (m.place t) := by
    rw [hp]
    exact ⟨rfl, rfl, rfl, rfl, rfl⟩
  cases a with
  | lockAcquire t l =>
    obtain ⟨⟨hp, -⟩, rfl⟩ := ite_some_none_eq_some.mp h
    exact .move (hidle hp) ⟨rfl, rfl, rfl, rfl, rfl⟩
  | lockTryAcquire t l =>
    obtain ⟨⟨hp, -⟩, rfl⟩ := ite_some_none_eq_some.mp h
    split
    · exact .stay
    · exact .testLock (hidle hp)
  | lockRelease t l =>
    obtain ⟨⟨hp, hheld⟩, rfl⟩ := ite_some_none_eq_some.mp h
    exact .letGo hp hheld
  | condWait t c l =>
    obtain ⟨⟨hp, -⟩, rfl⟩ := ite_some_none_eq_some.mp h
    exact .push hp
  | condSignal t c l =>
    obtain ⟨⟨hp, -⟩, h⟩ := ite_none_right_eq_some.mp h
    split at h
    · cases h
      exact .stay
    · next w rest hqueue =>
      cases h
      exact .pop (hidle hp) hqueue
  | condBroadcast t c l =>
    obtain ⟨hp, rfl⟩ := ite_some_none_eq_some.mp h
    exact .move (hidle hp) ⟨rfl, rfl, rfl, rfl, rfl⟩
  | go t => exact section_of_go h

section

variable (m : Monitors) (t u : ℕ) (p : Place) (o : Option ℕ)

@[simp] lemma place_move_self : (m.move t p).place t = p := update_self ..

lemma place_move_of_ne {t u : ℕ} (h : u ≠ t) : (m.move t p).place u = m.place u :=
  update_of_ne h ..

@[simp] lemma lock_wake : (m.wake o).lock = m.lock := by cases o <;> rfl

@[simp] lemma has_wake : (m.wake o).has = m.has := by cases o <;> rfl

@[simp] lemma cond_wake : (m.wake o).cond = m.cond := by cases o <;> rfl

@[simp] lemma waiter_wake : (m.wake o).waiter = m.waiter := by cases o <;> rfl

@[simp] lemma signals_wake : (m.wake o).signals = m.signals := by cases o <;> rfl

@[simp] lemma released_wake : (m.wake o).released = m.released := by cases o <;> rfl

@[simp] lemma semaphore_note (l k : ℕ) (b : Bool) :
    ((m.note k t b).lock l).semaphore = (m.lock l).semaphore := by
  by_cases hl : l = k
  · subst hl
    simp only [note, update_self]
  · exact congrArg Lock.semaphore (update_of_ne hl ..)

lemma place_wake : (m.wake o).place u = if o = some u then (m.place u).awake else m.place u := by
  cases o with
  | none => rw [if_neg (by simp)]; rfl
  | some v =>
    by_cases huv : u = v
    · subst huv
      rw [if_pos rfl]
      exact place_move_self ..
    · rw [if_neg fun h => huv (some.inj h).symm]
      exact place_move_of_ne m _ huv

@[simp] lemma inside_place_wake : ((m.wake o).place u).inside = (m.place u).inside := by
  rw [place_wake]
  split
  · exact Place.inside_awake _
  · rfl

end

/-! ## One thread inside a lock -/

/-- The thread is inside the lock: between `sema_down` and `sema_up`. -/
def Inside (m : Monitors) (l t : ℕ) : Prop := m.has l t = true ∨ (m.place t).inside = some l

/-- One thread at most is inside, none while the semaphore is up, and the holder is noted in
between. -/
structure Exclusive (m : Monitors) (l : ℕ) : Prop where
  value_le : (m.lock l).semaphore.value ≤ 1
  free : (m.lock l).semaphore.value ≠ 0 → ∀ t, ¬ m.Inside l t
  one : ∀ t t', m.Inside l t → m.Inside l t' → t = t'
  holder : ∀ t, (m.lock l).holder = some t ↔ m.has l t = true
  unnoted : ∀ t, (m.place t).inside = some l → m.has l t = false

variable {l : ℕ}

lemma Exclusive.same (h : Exclusive m l)
    (hvalue : (m'.lock l).semaphore.value = (m.lock l).semaphore.value)
    (hholder : (m'.lock l).holder = (m.lock l).holder) (hhas : m'.has l = m.has l)
    (hinside : ∀ t, (m'.place t).inside = some l ↔ (m.place t).inside = some l) :
    Exclusive m' l := by
  have hiff (t : ℕ) : m'.Inside l t ↔ m.Inside l t := by
    rw [Inside, hhas, hinside]
    rfl
  exact
    { value_le := hvalue ▸ h.value_le
      free := fun hpos t ht => h.free (hvalue ▸ hpos) t ((hiff t).mp ht)
      one := fun t t' ht ht' => h.one t t' ((hiff t).mp ht) ((hiff t').mp ht')
      holder := fun t => by rw [hholder, hhas, h.holder t]
      unnoted := fun t ht => by rw [hhas, h.unnoted t ((hinside t).mp ht)] }

lemma Exclusive.of_lock (h : Exclusive m l) (hlock : m'.lock l = m.lock l)
    (hhas : m'.has l = m.has l)
    (hinside : ∀ t, (m'.place t).inside = some l ↔ (m.place t).inside = some l) : Exclusive m' l :=
  h.same (congrArg (·.semaphore.value) hlock) (congrArg Lock.holder hlock) hhas hinside

lemma inside_move {t : ℕ} (hp : p.inside = some l ↔ (m.place t).inside = some l) (u : ℕ) :
    ((m.move t p).place u).inside = some l ↔ (m.place u).inside = some l := by
  by_cases hu : u = t
  · rwa [hu, place_move_self]
  · rw [place_move_of_ne m p hu]

lemma Exclusive.move (h : Exclusive m l) {t : ℕ} (hp : p.inside = (m.place t).inside) :
    Exclusive (m.move t p) l :=
  h.of_lock rfl rfl (inside_move (by rw [hp]))

lemma Exclusive.setSemaphore (h : Exclusive m l) {k : ℕ} {sema : Semaphore}
    (hvalue : sema.value = (m.lock k).semaphore.value) : Exclusive (m.setSemaphore k sema) l := by
  refine h.same ?_ ?_ rfl fun t => Iff.rfl
  · by_cases hl : l = k
    · subst hl
      simp only [Monitors.setSemaphore, update_self, hvalue]
    · simp only [Monitors.setSemaphore, update_of_ne hl]
  · by_cases hl : l = k
    · subst hl
      simp only [Monitors.setSemaphore, update_self]
    · simp only [Monitors.setSemaphore, update_of_ne hl]

lemma inside_move_iff {t : ℕ} {k u : ℕ} (hu : u ≠ t) :
    (m.move t p).Inside k u ↔ m.Inside k u := by
  rw [Inside, place_move_of_ne m p hu]
  rfl

section

variable (h : ∀ l, Exclusive m l)

include h

lemma Exclusive.take {t k : ℕ} {why : Purpose} (ht : (m.place t).inside = none)
    (hpos : (m.lock k).semaphore.value ≠ 0) :
    Exclusive ((m.setSemaphore k (m.lock k).semaphore.down).move t (.acquired k why)) l := by
  by_cases hl : l = k
  · subst hl
    have hle := (h l).value_le
    have hnone := (h l).free hpos
    have honly (u : ℕ) (hu : ((m.setSemaphore l (m.lock l).semaphore.down).move t
        (.acquired l why)).Inside l u) : u = t := by
      by_contra hne
      exact hnone u ((inside_move_iff hne).mp hu)
    have hlock : ((m.setSemaphore l (m.lock l).semaphore.down).move t (.acquired l why)).lock l =
        { m.lock l with semaphore := (m.lock l).semaphore.down } := update_self ..
    constructor
    · rw [hlock]
      simp only [Semaphore.down]
      omega
    · intro hne
      rw [hlock] at hne
      simp only [Semaphore.down] at hne
      omega
    · intro u u' hu hu'
      rw [honly u hu, honly u' hu']
    · intro u
      rw [hlock]
      exact (h l).holder u
    · intro u hu
      exact Bool.eq_false_iff.mpr fun hhas => hnone u (.inl hhas)
  · refine (h l).of_lock (update_of_ne hl ..) rfl (inside_move ?_)
    exact iff_of_false (fun heq => hl (some.inj heq).symm) (by simp [Monitors.setSemaphore, ht])

/-- Noting or striking out the holder, by the thread that is inside: it stays inside. -/
lemma Exclusive.note {t k : ℕ} {b : Bool} (ht : m.Inside k t)
    (hother : ∀ l, l ≠ k → (p.inside = some l ↔ (m.place t).inside = some l))
    (hp : p.inside = if b then none else some k) : Exclusive ((m.note k t b).move t p) l := by
  by_cases hl : l = k
  · subst hl
    have honly (u : ℕ) (hu : m.Inside l u) : u = t := (h l).one u t hu ht
    have hinside (u : ℕ) (hu : ((m.note l t b).move t p).Inside l u) : u = t := by
      by_contra hne
      refine hne (honly u ?_)
      rw [inside_move_iff hne] at hu
      refine hu.imp_left fun hhas => ?_
      simpa only [Monitors.note, update_self, update_of_ne hne] using hhas
    have hhas (u : ℕ) : ((m.note l t b).move t p).has l u = if u = t then b else m.has l u := by
      simp only [Monitors.note, Monitors.move, update_self, update_apply]
    have hvalue : (((m.note l t b).move t p).lock l).semaphore = (m.lock l).semaphore :=
      semaphore_note m t l l b
    constructor
    · rw [hvalue]
      exact (h l).value_le
    · intro hne
      rw [hvalue] at hne
      exact absurd ht ((h l).free hne t)
    · intro u u' hu hu'
      rw [hinside u hu, hinside u' hu']
    · intro u
      rw [hhas]
      simp only [Monitors.note, Monitors.move, update_self]
      by_cases hu : u = t
      · subst hu
        cases b <;> simp
      · have hnot : m.has l u ≠ true := fun hhas => hu (honly u (.inl hhas))
        rw [if_neg hu]
        refine iff_of_false (fun heq => ?_) hnot
        split at heq
        · exact hu (some.inj heq).symm
        · cases heq
    · intro u hu
      have hut := hinside u (.inr hu)
      rw [hut, place_move_self, hp] at hu
      rw [hhas, if_pos hut]
      cases b with
      | true => cases hu
      | false => rfl
  · exact (h l).of_lock (update_of_ne hl ..) (update_of_ne hl ..) (inside_move (hother l hl))

lemma Exclusive.upLock {t k : ℕ} {why : Purpose} (ht : m.place t = .releasing k why) :
    Exclusive (m.upLock t k why) l := by
  have hin : (m.place t).inside = some k := by
    rw [ht]
    rfl
  have hout : ((m.upLock t k why).place t).inside = none := by
    rw [Monitors.upLock, place_move_self]
    cases why <;> rfl
  have hplace {u : ℕ} (hu : u ≠ t) :
      ((m.upLock t k why).place u).inside = (m.place u).inside := by
    rw [Monitors.upLock, place_move_of_ne _ _ hu, inside_place_wake]
    rfl
  have hlock : (m.upLock t k why).lock =
      update m.lock k { m.lock k with semaphore := (m.lock k).semaphore.up } :=
    lock_wake (m.setSemaphore k (m.lock k).semaphore.up) _
  have hhas : (m.upLock t k why).has = m.has := has_wake (m.setSemaphore k (m.lock k).semaphore.up) _
  by_cases hl : l = k
  · subst hl
    have hzero : (m.lock l).semaphore.value = 0 := by
      by_contra hne
      exact (h l).free hne t (.inr hin)
    have hnone (u : ℕ) : ¬ (m.upLock t l why).Inside l u := by
      rintro (hu | hu)
      · rw [hhas] at hu
        obtain rfl := (h l).one u t (.inl hu) (.inr hin)
        exact absurd hu (by rw [(h l).unnoted u hin]; exact Bool.false_ne_true)
      · by_cases hut : u = t
        · rw [hut, hout] at hu
          cases hu
        · rw [hplace hut] at hu
          exact hut ((h l).one u t (.inr hu) (.inr hin))
    constructor
    · rw [hlock, update_self]
      simp only [Semaphore.up, hzero]
      exact Nat.le_refl 1
    · exact fun _ => hnone
    · exact fun u u' hu => absurd hu (hnone u)
    · intro u
      rw [hlock, update_self, hhas]
      exact (h l).holder u
    · exact fun u hu => absurd (.inr hu) (hnone u)
  · refine (h l).of_lock (by rw [hlock, update_of_ne hl]) (congrFun hhas l) fun u => ?_
    · by_cases hu : u = t
      · subst hu
        rw [hout, hin]
        exact iff_of_false (by simp) fun heq => hl (some.inj heq).symm
      · rw [hplace hu]

lemma Exclusive.step (hstep : Section m m') (l : ℕ) : Exclusive m' l := by
  cases hstep with
  | stay => exact h l
  | move before after => exact (h l).move (by rw [before.1, after.1])
  | testLock before =>
    unfold Monitors.testLock
    split
    · refine Exclusive.move ?_ ?_
      · exact (h l).setSemaphore rfl
      · exact before.1.symm
    · next hpos => exact Exclusive.take h before.1 hpos
  | @hold t k why before =>
    have hin : (m.place t).inside = some k := by
      rw [before]
      rfl
    refine Exclusive.note h (.inr hin) (fun l hl => ?_) rfl
    rw [hin]
    exact iff_of_false (by simp [Place.inside]) fun heq => hl (some.inj heq).symm
  | @letGo t k why before held =>
    refine Exclusive.note h (.inl (((h k).holder t).mp held)) (fun l hl => ?_) rfl
    rw [before]
    exact iff_of_false (fun heq => hl (some.inj heq).symm) (by cases why <;> nofun)
  | upLock before => exact Exclusive.upLock h before
  | push before =>
    refine Exclusive.move ?_ ?_
    · exact (h l).of_lock rfl rfl fun _ => Iff.rfl
    · exact (congrArg Place.inside before).symm
  | testWaiter before =>
    unfold Monitors.testWaiter
    split
    all_goals
      refine Exclusive.move ?_ ?_
      · exact (h l).of_lock rfl rfl fun _ => Iff.rfl
      · exact (congrArg Place.inside before).symm
  | pop before _ =>
    refine Exclusive.move ?_ ?_
    · exact (h l).of_lock rfl rfl fun _ => Iff.rfl
    · exact before.1.symm
  | @upWaiter t c k w all before =>
    refine Exclusive.move ?_ ?_
    · refine (h l).of_lock (by rw [lock_wake]) (by rw [has_wake]) fun u => ?_
      rw [inside_place_wake]
    · rw [inside_place_wake]
      cases all <;> rw [before] <;> rfl

end

end Monitors

end Pintos
