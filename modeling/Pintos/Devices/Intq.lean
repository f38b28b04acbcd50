import Pintos.Machinery.Ring
import Pintos.Threads.Monitor

/-!
# Devices/Intq — queues between threads and interrupt handlers

A thread that finds an interrupt queue empty, or full, takes a lock, asserts that the queue is so,
and sleeps until it is not; there is room for one sleeper of each kind.

    while (intq_empty (q))
      { lock_acquire (&q->lock); wait (q, &q->not_empty); lock_release (&q->lock); }

The queue is looked at before the lock is taken, and not again. While a thread sleeps in
`lock_acquire` bytes may come, and then `wait` panics. If no thread has to wait for the lock
this cannot happen. A thread is interrupted only where it blocks, and a step goes from there to
where it blocks again or returns.
-/

namespace Pintos

open Machinery Function Semaphore

/-- `struct intq`. -/
structure Intq where
  lock : Lock
  notFull : Option ℕ
  notEmpty : Option ℕ
  ring : Ring UInt8 64

/-- What a thread waits for: the member of `struct intq` it is in. -/
inductive Wish
  | notFull | notEmpty
  deriving DecidableEq

/-- A call of `intq_getc` or `intq_putc`. -/
inductive IntqCall
  | getc
  | putc (byte : UInt8)
  deriving DecidableEq

namespace IntqCall

/-- What the call needs… -/
def needs : IntqCall → Wish
  | getc => .notEmpty
  | putc _ => .notFull

/-- …and what it brings about. -/
def brings : IntqCall → Wish
  | getc => .notFull
  | putc _ => .notEmpty

lemma brings_eq_of_needs_ne {call call' : IntqCall} (h : call.needs ≠ call'.needs) :
    call.brings = call'.needs := by
  cases call <;> cases call' <;> first | rfl | exact absurd rfl h

end IntqCall

namespace Intq

/-- `intq_init`; the buffer holds whatever it held. -/
def init (junk : ℕ → UInt8) : Intq := ⟨.init, none, none, ⟨junk, 0, 0, by decide, by decide⟩⟩

/-- `intq_empty`. -/
def intqEmpty (q : Intq) : Bool := q.ring.head == q.ring.tail

/-- `intq_full`. -/
def intqFull (q : Intq) : Bool := Ring.next 64 q.ring.head == q.ring.tail

def holds (q : Intq) : Wish → Bool
  | .notEmpty => !q.intqEmpty
  | .notFull => !q.intqFull

def waiter (q : Intq) : Wish → Option ℕ
  | .notEmpty => q.notEmpty
  | .notFull => q.notFull

def setWaiter (q : Intq) (o : Option ℕ) : Wish → Intq
  | .notEmpty => { q with notEmpty := o }
  | .notFull => { q with notFull := o }

/-- A byte taken out or put in. -/
def transfer (q : Intq) : IntqCall → Intq
  | .getc => { q with ring := q.ring.pop }
  | .putc byte => { q with ring := q.ring.push byte }

def setSemaphore (q : Intq) (sema : Semaphore) : Intq :=
  { q with lock := { q.lock with semaphore := sema } }

def setHolder (q : Intq) (o : Option ℕ) : Intq := { q with lock := { q.lock with holder := o } }

end Intq

/-- Where a thread is: in no call, or where it blocked in one. -/
inductive IntqPlace
  | outside
  /-- In `lock_acquire`, asleep or woken. -/
  | locking (call : IntqCall) (woken : Bool)
  /-- In `wait`, asleep or woken. -/
  | waiting (call : IntqCall) (woken : Bool)
  deriving DecidableEq

/-- What `thread_unblock` makes of it. -/
def IntqPlace.awake : IntqPlace → IntqPlace
  | outside => outside
  | locking call _ => locking call true
  | waiting call _ => waiting call true

/-- A queue and its threads; `panicked` when `wait` or `signal` has failed an assertion. -/
structure IntqWorld where
  q : Intq
  place : ℕ → IntqPlace
  panicked : Bool

/-- A thread calls, or goes on where it was woken, or a handler calls. -/
inductive IntqLabel
  | call (t : ℕ) (call : IntqCall)
  | resume (t : ℕ)
  | handler (call : IntqCall)

namespace IntqWorld

def move (w : IntqWorld) (t : ℕ) (p : IntqPlace) : IntqWorld :=
  { w with place := update w.place t p }

/-- `thread_unblock`, if there is somebody to unblock. -/
def wake (w : IntqWorld) : Option ℕ → IntqWorld
  | none => w
  | some u => w.move u (w.place u).awake

/-- `signal`: the waiter is woken and forgotten. -/
def signal (w : IntqWorld) (wish : Wish) : IntqWorld :=
  if w.q.holds wish then { w with q := w.q.setWaiter none wish }.wake (w.q.waiter wish)
  else { w with panicked := true }

/-- `wait`, by the thread `t` in a call. -/
def wait (w : IntqWorld) (t : ℕ) (call : IntqCall) : IntqWorld :=
  if w.q.holds call.needs then { w with panicked := true }
  else { w with q := w.q.setWaiter (some t) call.needs }.move t (.waiting call false)

/-- Behind the loop: the byte is transferred and the other side signalled. -/
def perform (w : IntqWorld) (call : IntqCall) : IntqWorld :=
  { w with q := w.q.transfer call }.signal call.brings

/-- A turn of `sema_down` in `lock_acquire`, and then `wait`. -/
def lockAcquire (w : IntqWorld) (t : ℕ) (call : IntqCall) : IntqWorld :=
  let sema := w.q.lock.semaphore
  if sema.value = 0 then { w with q := w.q.setSemaphore (sema.sleep t) }.move t (.locking call false)
  else { w with q := (w.q.setSemaphore sema.down).setHolder (some t) }.wait t call

/-- `lock_release`. -/
def lockRelease (w : IntqWorld) : IntqWorld :=
  let sema := w.q.lock.semaphore
  { w with q := (w.q.setHolder none).setSemaphore sema.up }.wake sema.woken

/-- `intq_getc` and `intq_putc`, from the test of the queue on. -/
def attempt (w : IntqWorld) (t : ℕ) (call : IntqCall) : IntqWorld :=
  if w.q.holds call.needs then (w.move t .outside).perform call else w.lockAcquire t call

/-- Going on where it was woken. -/
def resume (w : IntqWorld) (t : ℕ) : Option IntqWorld :=
  match w.place t with
  | .locking call true => some (w.lockAcquire t call)
  | .waiting call true => some (w.lockRelease.attempt t call)
  | _ => none

/-- What a label does, if possible. A handler calls only where it need not wait. -/
def act (w : IntqWorld) (a : IntqLabel) : Option IntqWorld :=
  if w.panicked then none
  else
    match a with
    | .call t call => if w.place t = .outside then some (w.attempt t call) else none
    | .resume t => w.resume t
    | .handler call => if w.q.holds call.needs then some (w.perform call) else none

/-- A new queue, and every order of calls. -/
def system : System IntqWorld IntqLabel where
  init w := ∃ junk, w = ⟨.init junk, fun _ => .outside, false⟩
  step w a w' := w.act a = some w'

/-- No thread has to wait for the lock. -/
def Alone (w : IntqWorld) : IntqLabel → Prop
  | .call _ call => w.q.holds call.needs = true ∨ w.q.lock.semaphore.value > 0
  | _ => True

instance (w : IntqWorld) : (a : IntqLabel) → Decidable (w.Alone a)
  | .call _ _ => inferInstanceAs (Decidable (_ ∨ _))
  | .resume _ | .handler _ => .isTrue trivial

/-! ## The queue -/

variable {q : Intq}

lemma holds_notEmpty_iff : q.holds .notEmpty = true ↔ q.ring.contents ≠ [] := by
  simp [Intq.holds, Intq.intqEmpty, Ring.contents_eq_nil_iff]

lemma holds_notFull_iff : q.holds .notFull = true ↔ q.ring.contents.length < 63 := by
  have hlt := q.ring.count_lt
  have hiff : Ring.next 64 q.ring.head = q.ring.tail ↔ q.ring.count = 64 - 1 :=
    Ring.next_head_eq_tail_iff
  simp only [Intq.holds, Intq.intqFull, Bool.not_eq_true', beq_eq_false_iff_ne, ne_eq, hiff,
    Ring.length_contents]
  omega

/-- What a call does to the contents. -/
def transferred : IntqCall → List UInt8 → List UInt8
  | .getc, l => l.tail
  | .putc byte, l => l ++ [byte]

variable {call : IntqCall}

lemma contents_transfer (h : q.holds call.needs = true) :
    (q.transfer call).ring.contents = transferred call q.ring.contents := by
  cases call with
  | getc =>
    have hne : q.ring.head ≠ q.ring.tail := by
      intro heq
      exact holds_notEmpty_iff.mp h (Ring.contents_eq_nil_iff.mpr heq)
    rw [Ring.contents_pop hne]
    rfl
  | putc byte =>
    have hne : Ring.next 64 q.ring.head ≠ q.ring.tail := by
      simpa [IntqCall.needs, Intq.holds, Intq.intqFull] using h
    exact Ring.contents_push hne byte

lemma holds_brings (h : q.holds call.needs = true) :
    (q.transfer call).holds call.brings = true := by
  have hcontents := contents_transfer h
  cases call with
  | getc =>
    have hlt := q.ring.count_lt
    have hne := holds_notEmpty_iff.mp h
    have hpos : 0 < q.ring.contents.length := List.length_pos_of_ne_nil hne
    refine holds_notFull_iff.mpr ?_
    rw [hcontents, transferred, List.length_tail]
    rw [Ring.length_contents] at hpos ⊢
    omega
  | putc byte =>
    refine holds_notEmpty_iff.mpr ?_
    rw [hcontents]
    exact List.append_ne_nil_of_right_ne_nil _ (List.cons_ne_nil byte [])

/-! ## One thread at most -/

/-- Nobody is in the middle of a call… -/
structure Free (w : IntqWorld) : Prop where
  value : w.q.lock.semaphore.value = 1
  nobody : w.q.lock.semaphore.waiters = []
  place : ∀ u, w.place u = .outside
  waiter : ∀ wish, w.q.waiter wish = none
  calm : w.panicked = false

/-- …or one thread is, in `wait`; and while it sleeps its condition is false. -/
structure Taken (w : IntqWorld) (t : ℕ) (call : IntqCall) (woken : Bool) : Prop where
  value : w.q.lock.semaphore.value = 0
  nobody : w.q.lock.semaphore.waiters = []
  place : ∀ u, w.place u = if u = t then .waiting call woken else .outside
  waiter : ∀ wish, w.q.waiter wish = if woken = false ∧ wish = call.needs then some t else none
  asleep : woken = false → w.q.holds call.needs = false
  calm : w.panicked = false

/-- One or the other. -/
def Quiet (w : IntqWorld) : Prop := w.Free ∨ ∃ t call woken, w.Taken t call woken

section

variable (q : Intq) (call : IntqCall) (wish wish' : Wish) (o : Option ℕ)

@[simp] lemma lock_transfer : (q.transfer call).lock = q.lock := by cases call <;> rfl

@[simp] lemma waiter_transfer : (q.transfer call).waiter wish = q.waiter wish := by
  cases call <;> cases wish <;> rfl

@[simp] lemma lock_setWaiter : (q.setWaiter o wish).lock = q.lock := by cases wish <;> rfl

@[simp] lemma ring_setWaiter : (q.setWaiter o wish).ring = q.ring := by cases wish <;> rfl

@[simp] lemma holds_setWaiter : (q.setWaiter o wish).holds wish' = q.holds wish' := by
  cases wish <;> cases wish' <;> rfl

lemma waiter_setWaiter :
    (q.setWaiter o wish).waiter wish' = if wish' = wish then o else q.waiter wish' := by
  cases wish <;> cases wish' <;> rfl

end

variable {w : IntqWorld}

lemma contents_perform (h : w.q.holds call.needs = true) :
    (w.perform call).q.ring.contents = transferred call w.q.ring.contents := by
  rw [perform, signal, if_pos (holds_brings h), ← contents_transfer h]
  generalize Intq.waiter _ _ = o
  cases o <;> exact congrArg Ring.contents (ring_setWaiter ..)

lemma signal_of_none {wish : Wish} (hholds : w.q.holds wish = true)
    (hnone : w.q.waiter wish = none) : w.signal wish = w := by
  have hsame : w.q.setWaiter none wish = w.q := by
    cases wish
    · exact congrArg (fun o => { w.q with notFull := o }) hnone.symm
    · exact congrArg (fun o => { w.q with notEmpty := o }) hnone.symm
  rw [signal, if_pos hholds, hnone, hsame]
  rfl

lemma Free.perform (h : w.Free) (hneeds : w.q.holds call.needs = true) :
    (w.perform call).Free := by
  have hnone : (w.q.transfer call).waiter call.brings = none := by rw [waiter_transfer, h.waiter]
  rw [IntqWorld.perform, signal_of_none (holds_brings hneeds) hnone]
  exact
    { value := by rw [lock_transfer, h.value]
      nobody := by rw [lock_transfer, h.nobody]
      place := h.place
      waiter := fun wish => by rw [waiter_transfer, h.waiter]
      calm := h.calm }

variable {t : ℕ}

lemma Taken.perform {c : IntqCall} {woken : Bool} (h : w.Taken t c woken)
    (hneeds : w.q.holds call.needs = true) : (w.perform call).Taken t c true := by
  have hbrings := holds_brings hneeds
  cases woken with
  | true =>
    have hnone : (w.q.transfer call).waiter call.brings = none := by
      rw [waiter_transfer, h.waiter, if_neg (by simp)]
    rw [IntqWorld.perform, signal_of_none hbrings hnone]
    exact
      { value := by rw [lock_transfer, h.value]
        nobody := by rw [lock_transfer, h.nobody]
        place := h.place
        waiter := fun wish => by rw [waiter_transfer, h.waiter]
        asleep := fun hw => by cases hw
        calm := h.calm }
  | false =>
    -- What it needs is false, so that the call needs the other, and brings about what it needs.
    have hasleep := h.asleep rfl
    have hwish : call.brings = c.needs := by
      refine IntqCall.brings_eq_of_needs_ne fun heq => ?_
      rw [heq, hasleep] at hneeds
      cases hneeds
    have hsome : (w.q.transfer call).waiter call.brings = some t := by
      rw [waiter_transfer, h.waiter, if_pos ⟨rfl, hwish⟩]
    rw [IntqWorld.perform, signal, if_pos hbrings, hsome]
    exact
      { value := by simpa [wake, move] using h.value
        nobody := by simpa [wake, move] using h.nobody
        place := fun u => by
          by_cases hu : u = t
          · subst hu
            simp [wake, move, h.place, IntqPlace.awake]
          · simp [wake, move, hu, h.place]
        waiter := fun wish => by
          have hold := h.waiter wish
          simp only [wake, move, waiter_setWaiter, waiter_transfer, hwish]
          split
          · simp
          · next hne => simp [hold, hne]
        asleep := fun hw => by cases hw
        calm := h.calm }

section

variable (h : (w.move t .outside).Free)

include h

lemma Free.attempt (hneeds : w.q.holds call.needs = true) : (w.attempt t call).Free := by
  rw [IntqWorld.attempt, if_pos hneeds]
  exact h.perform hneeds

lemma Taken.attempt (hneeds : w.q.holds call.needs = false) :
    (w.attempt t call).Taken t call false ∧ (w.attempt t call).q.ring = w.q.ring := by
  have hvalue : w.q.lock.semaphore.value = 1 := h.value
  have hstill : ((w.q.setSemaphore w.q.lock.semaphore.down).setHolder (some t)).holds call.needs =
      w.q.holds call.needs := by cases call <;> rfl
  have hnot : ¬ w.q.holds call.needs = true := Bool.eq_false_iff.mp hneeds
  rw [IntqWorld.attempt, if_neg hnot, lockAcquire, if_neg (by rw [hvalue]; decide), wait, hstill,
    if_neg hnot]
  refine ⟨?_, ring_setWaiter ..⟩
  exact
    { value := by
        simp [move, Intq.setHolder, Intq.setSemaphore, down, hvalue]
      nobody := by simpa [move, Intq.setHolder, Intq.setSemaphore, down] using h.nobody
      place := fun u => by
        have hu := h.place u
        simp only [move, update_apply] at hu ⊢
        split
        · rfl
        · next hne => rwa [if_neg hne] at hu
      waiter := fun wish => by
        have hold : w.q.waiter wish = none := h.waiter wish
        have hsame : ((w.q.setSemaphore w.q.lock.semaphore.down).setHolder (some t)).waiter wish =
            w.q.waiter wish := by cases wish <;> rfl
        simp only [move, waiter_setWaiter, hsame, hold, true_and]
      asleep := fun _ => by
        simp only [move, holds_setWaiter, hstill, hneeds]
      calm := h.calm }

lemma quiet_attempt (call : IntqCall) : (w.attempt t call).Quiet := by
  cases hneeds : w.q.holds call.needs with
  | true => exact .inl (Free.attempt h hneeds)
  | false => exact .inr ⟨t, call, false, (Taken.attempt h hneeds).1⟩

end

lemma Taken.free_release {c : IntqCall} (h : w.Taken t c true) :
    (w.lockRelease.move t .outside).Free := by
  have hrelease : w.lockRelease =
      { w with q := (w.q.setHolder none).setSemaphore w.q.lock.semaphore.up } := by
    rw [lockRelease, woken, h.nobody]
    rfl
  rw [hrelease]
  exact
    { value := by simp [move, Intq.setSemaphore, up, h.value]
      nobody := by simp [move, Intq.setSemaphore, up, h.nobody]
      place := fun u => by
        have hu := h.place u
        simp only [move, update_apply]
        split
        · rfl
        · next hne => rw [hu, if_neg hne]
      waiter := fun wish => by
        have hold := h.waiter wish
        rw [if_neg (by simp)] at hold
        rw [← hold]
        cases wish <;> rfl
      calm := h.calm }

lemma Quiet.resume {w' : IntqWorld} (h : w.Quiet) (ha : w.resume t = some w') : w'.Quiet := by
  obtain hfree | ⟨u, c, woken, htaken⟩ := h
  · rw [IntqWorld.resume, hfree.place t] at ha
    cases ha
  · rw [IntqWorld.resume, htaken.place t] at ha
    by_cases hut : t = u
    · subst hut
      rw [if_pos rfl] at ha
      cases woken with
      | false => cases ha
      | true =>
        cases ha
        exact quiet_attempt htaken.free_release c
    · rw [if_neg hut] at ha
      cases ha

lemma Quiet.step {a : IntqLabel} {w' : IntqWorld} (h : w.Quiet) (halone : w.Alone a)
    (ha : w.act a = some w') : w'.Quiet := by
  unfold act at ha
  split at ha
  · cases ha
  · cases a with
    | call t call =>
      obtain ⟨hout, rfl⟩ := Option.ite_some_none_eq_some.mp ha
      have hmove : w.move t .outside = w := by rw [move, ← hout, update_eq_self]
      obtain hfree | ⟨u, c, woken, htaken⟩ := h
      · exact quiet_attempt (hmove.symm ▸ hfree) call
      · have hneeds : w.q.holds call.needs = true := by
          refine halone.resolve_right fun hpos => ?_
          rw [htaken.value] at hpos
          cases hpos
        rw [attempt, if_pos hneeds, hmove]
        exact .inr ⟨u, c, true, htaken.perform hneeds⟩
    | resume t => exact h.resume ha
    | handler call =>
      obtain ⟨hneeds, rfl⟩ := Option.ite_some_none_eq_some.mp ha
      obtain hfree | ⟨u, c, woken, htaken⟩ := h
      · exact .inl (hfree.perform hneeds)
      · exact .inr ⟨u, c, true, htaken.perform hneeds⟩

lemma quiet_of_reach (hw : system.Reach Alone w) : w.Quiet := by
  refine hw.invariant (fun w hinit => ?_) fun w a w' h halone ha => h.step halone ha
  obtain ⟨junk, rfl⟩ := hinit
  exact .inl ⟨rfl, rfl, fun _ => rfl, fun wish => by cases wish <;> rfl, rfl⟩

end IntqWorld

/-- Two threads wait for a byte, one of them for the lock; two bytes come, and `wait` panics. -/
theorem intq_wait_panics :
    ∃ w : IntqWorld, IntqWorld.system.Reachable w ∧ w.panicked = true := by
  obtain ⟨w, -, hw, hpanic⟩ := System.exists_of_run (T := IntqWorld.system) (G := fun _ _ => True)
    (l := [.call 1 .getc, .call 2 .getc, .handler (.putc 65), .handler (.putc 66), .resume 1, .resume 2])
    (P := fun w => w.panicked = true)
    (fun w a w' (h : w.act a = some w') => h) ⟨fun _ => 0, rfl⟩ (by decide)
  exact ⟨w, hw, hpanic⟩

/-- **Without a wait for the lock, the protocol is sound**: the assertions of `wait` and `signal`
hold, and a thread sleeps in `wait` only while its condition is false. -/
theorem intq_wait_sound {w : IntqWorld} (hw : IntqWorld.system.Reach IntqWorld.Alone w) :
    w.panicked = false ∧
      (∀ t, w.place t = .waiting .getc false → w.q.intqEmpty = true) ∧
      ∀ t byte, w.place t = .waiting (.putc byte) false → w.q.intqFull = true := by
  have hasleep {t : ℕ} {call : IntqCall} (ht : w.place t = .waiting call false) :
      w.q.holds call.needs = false := by
    obtain hfree | ⟨u, c, woken, htaken⟩ := IntqWorld.quiet_of_reach hw
    · rw [hfree.place t] at ht
      cases ht
    · rw [htaken.place t] at ht
      split at ht
      · cases ht
        exact htaken.asleep rfl
      · cases ht
  refine ⟨?_, fun t ht => ?_, fun t byte ht => ?_⟩
  · obtain hfree | ⟨u, c, woken, htaken⟩ := IntqWorld.quiet_of_reach hw
    · exact hfree.calm
    · exact htaken.calm
  · simpa [IntqCall.needs, Intq.holds] using hasleep ht
  · simpa [IntqCall.needs, Intq.holds] using hasleep ht

/-- A thread that sleeps until a byte comes. -/
theorem intq_wait_sound_one :
    ∃ w : IntqWorld, w.place 1 = .waiting .getc false ∧ w.panicked = false ∧
      (∀ t, w.place t = .waiting .getc false → w.q.intqEmpty = true) ∧
      ∀ t byte, w.place t = .waiting (.putc byte) false → w.q.intqFull = true := by
  obtain ⟨w, -, hw, hplace⟩ := System.exists_of_run (T := IntqWorld.system) (G := IntqWorld.Alone)
    (l := [.handler (.putc 65), .call 2 .getc,
      .call 1 .getc])
    (P := fun w => w.place 1 = .waiting .getc false)
    (fun w a w' (h : w.act a = some w') => h) ⟨fun _ => 0, rfl⟩ (by decide)
  exact ⟨w, hplace, intq_wait_sound hw⟩

end Pintos
