import Pintos.Devices.Intq

/-!
# Devices/Serial — output to the serial port, in queue mode

Three hands take bytes out of the queue for the port: the interrupt handler; `serial_putc` itself,
by polling, when the queue is full and interrupts are off; and `serial_flush`. Each sends the oldest
byte before anything else is done, so what was sent, and then the queue, is what came in, in order.
A call that finds the queue full with interrupts on sleeps with its byte until there is room: then
the byte is in neither place, and calls of other threads may overtake it.
-/

namespace Pintos

open Machinery Function

/-- The bytes that a call is passed. -/
def IntqCall.bytes : IntqCall → List UInt8
  | getc => []
  | putc byte => [byte]

/-- The byte that a thread sleeps with, if any. -/
def IntqPlace.pending : IntqPlace → List UInt8
  | outside => []
  | locking call _ | waiting call _ => call.bytes

/-- The transmit queue; the calls of `serial_putc`, and those that have returned, in order, each
with its thread; and the bytes sent. -/
structure SerialWorld where
  txq : IntqWorld
  called : List (ℕ × UInt8)
  returned : List (ℕ × UInt8)
  sent : List UInt8

/-- Calls and interrupts; `ready` is what the line status register says at each read. -/
inductive SerialLabel
  | serialPutc (t : ℕ) (byte : UInt8) (intrOff : Bool)
  | resume (t : ℕ)
  | serialInterrupt (ready : List Bool)
  | serialFlush

namespace SerialWorld

/-- `outb (THR_REG, intq_getc (&txq))`, of a queue that is not empty; or `putc_poll` of it, when the
port is ready. -/
def transmit (w : SerialWorld) : SerialWorld :=
  { w with
    txq := w.txq.perform .getc
    sent := w.sent ++ [w.txq.q.ring.buf w.txq.q.ring.tail] }

/-- `intq_putc` by the thread `t`, up to its return or to where it sleeps. -/
def put (w : SerialWorld) (t : ℕ) (byte : UInt8) (txq : IntqWorld) : SerialWorld :=
  { w with
    txq := txq
    returned := if txq.place t = .outside then w.returned ++ [(t, byte)] else w.returned }

/-- `serial_putc`, in queue mode. -/
def serialPutc (w : SerialWorld) (t : ℕ) (byte : UInt8) (intrOff : Bool) : SerialWorld :=
  let w := if intrOff && w.txq.q.intqFull then w.transmit else w
  { w with called := w.called ++ [(t, byte)] }.put t byte (w.txq.attempt t (.putc byte))

/-- A thread that was woken in `intq_putc` goes on. -/
def resume (w : SerialWorld) (t : ℕ) : Option SerialWorld :=
  match (w.txq.place t).pending with
  | [byte] => (w.txq.resume t).map (w.put t byte)
  | _ => none

/-- The transmitting loop of `serial_interrupt`. -/
def serialInterrupt (w : SerialWorld) : List Bool → SerialWorld
  | [] => w
  | ready :: rest => if !w.txq.q.intqEmpty && ready then w.transmit.serialInterrupt rest else w

/-- The loop of `serial_flush`. -/
def flushLoop : ℕ → SerialWorld → SerialWorld
  | 0, w => w
  | turns + 1, w => if !w.txq.q.intqEmpty then flushLoop turns w.transmit else w

/-- `serial_flush`: the queue has no more than 63 bytes. -/
def serialFlush (w : SerialWorld) : SerialWorld := flushLoop 64 w

/-- What a label does, if possible; after a failed assertion nothing is. -/
def act (w : SerialWorld) (a : SerialLabel) : Option SerialWorld :=
  if w.txq.panicked then none
  else
    match a with
    | .serialPutc t byte intrOff =>
      if w.txq.place t = .outside then some (w.serialPutc t byte intrOff) else none
    | .resume t => w.resume t
    | .serialInterrupt ready => some (w.serialInterrupt ready)
    | .serialFlush => some w.serialFlush

/-- An empty queue, and every sequence of calls and interrupts. -/
def system : System SerialWorld SerialLabel where
  init w := ∃ junk, w = ⟨⟨.init junk, fun _ => .outside, false⟩, [], [], []⟩
  step w a w' := w.act a = some w'

/-- What is in the queue, oldest first. -/
def queued (w : SerialWorld) : List UInt8 := w.txq.q.ring.contents

/-- The byte that the thread `t` sleeps with, if any. -/
def pending (w : SerialWorld) (t : ℕ) : List UInt8 := (w.txq.place t).pending

/-- The bytes of calls, in their order… -/
def bytes (l : List (ℕ × UInt8)) : List UInt8 := l.map Prod.snd

/-- …and those of the calls of one thread. -/
def bytesOf (t : ℕ) (l : List (ℕ × UInt8)) : List UInt8 := bytes (l.filter fun c => c.1 = t)

/-- No call has to sleep: there is room, or interrupts are off. -/
def Roomy (w : SerialWorld) : SerialLabel → Prop
  | .serialPutc _ _ intrOff => intrOff = true ∨ w.queued.length < 63
  | _ => True

end SerialWorld

/-! ## What a thread sleeps with -/

namespace IntqWorld

variable {w w' : IntqWorld} {t : ℕ} {byte : UInt8}

/-- Waking a thread leaves it its byte. -/
lemma pending_awake (p : IntqPlace) : p.awake.pending = p.pending := by cases p <;> rfl

lemma pending_wake (o : Option ℕ) (u : ℕ) :
    ((w.wake o).place u).pending = (w.place u).pending := by
  cases o with
  | none => rfl
  | some v =>
    by_cases h : u = v
    · simp [wake, move, h, pending_awake]
    · simp [wake, move, h]

lemma outside_wake (h : w.place t = .outside) (o : Option ℕ) : (w.wake o).place t = .outside := by
  cases o with
  | none => exact h
  | some v =>
    by_cases hv : t = v
    · simp [wake, move, ← hv, h, IntqPlace.awake]
    · simp [wake, move, hv, h]

lemma q_wake (o : Option ℕ) : (w.wake o).q = w.q := by cases o <;> rfl

lemma pending_perform (call : IntqCall) (u : ℕ) :
    ((w.perform call).place u).pending = (w.place u).pending := by
  rw [perform, signal]
  split
  · exact pending_wake ..
  · rfl

lemma outside_perform (h : w.place t = .outside) (call : IntqCall) :
    (w.perform call).place t = .outside := by
  rw [perform, signal]
  split
  · exact outside_wake (w := { w with q := (w.q.transfer call).setWaiter none call.brings }) h _
  · exact h

/-- A byte `t` puts in is at the end of the queue and the call returns, or `t` sleeps with it. -/
structure Puts (w : IntqWorld) (t : ℕ) (byte : UInt8) (w' : IntqWorld) : Prop where
  others : ∀ u, u ≠ t → (w'.place u).pending = (w.place u).pending
  byte : (w'.place t = .outside ∧ w'.q.ring.contents = w.q.ring.contents ++ [byte]) ∨
    (w'.place t ≠ .outside ∧ (w'.place t).pending = [byte] ∧
      w'.q.ring.contents = w.q.ring.contents)

lemma puts_move (hplace : ∀ u, w'.place u = update w.place t (.locking (.putc byte) false) u ∨
      w'.place u = update w.place t (.waiting (.putc byte) false) u)
    (hring : w'.q.ring = w.q.ring) : w.Puts t byte w' where
  others u hu := by
    obtain h | h := hplace u <;> rw [h, update_of_ne hu]
  byte := by
    refine .inr ⟨?_, ?_, by rw [hring]⟩
    · obtain h | h := hplace t <;> rw [h, update_self] <;> exact IntqPlace.noConfusion
    · obtain h | h := hplace t <;> rw [h, update_self] <;> rfl

lemma puts_lockAcquire (h : w.q.holds (IntqCall.needs (.putc byte)) = false ∨
      w.place t ≠ .outside ∧ (w.place t).pending = [byte]) :
    w.Puts t byte (w.lockAcquire t (.putc byte)) := by
  rw [lockAcquire]
  split
  · exact puts_move (fun u => .inl rfl) rfl
  · rw [wait]
    split
    · next hholds =>
      obtain hfull | ⟨hin, hpending⟩ := h
      · exact absurd (hfull.symm.trans hholds) Bool.false_ne_true
      · exact ⟨fun _ _ => rfl, .inr ⟨hin, hpending, rfl⟩⟩
    · exact puts_move (fun u => .inr rfl) (ring_setWaiter ..)

/-- Where there is room, the call returns. -/
lemma attempt_of_room (t : ℕ) {byte : UInt8} (h : w.q.holds (IntqCall.needs (.putc byte)) = true) :
    (w.attempt t (.putc byte)).place t = .outside ∧
      (w.attempt t (.putc byte)).q.ring.contents = w.q.ring.contents ++ [byte] := by
  rw [attempt, if_pos h]
  exact ⟨outside_perform (update_self ..) _, contents_perform (w := w.move t .outside) h⟩

lemma puts_attempt (t : ℕ) (byte : UInt8) : w.Puts t byte (w.attempt t (.putc byte)) := by
  cases hroom : w.q.holds (IntqCall.needs (.putc byte)) with
  | true =>
    refine ⟨fun u hu => ?_, .inl (attempt_of_room t hroom)⟩
    rw [attempt, if_pos hroom, pending_perform]
    exact congrArg IntqPlace.pending (update_of_ne hu ..)
  | false =>
    rw [attempt, if_neg (Bool.eq_false_iff.mp hroom)]
    exact puts_lockAcquire (.inl hroom)

lemma puts_resume (hpending : (w.place t).pending = [byte]) (h : w.resume t = some w') :
    w.Puts t byte w' := by
  rw [resume] at h
  split at h
  · next call hplace =>
    rw [hplace] at hpending
    cases call with
    | getc => cases hpending
    | putc b =>
      cases hpending
      cases h
      exact puts_lockAcquire (.inr (by rw [hplace]; exact ⟨IntqPlace.noConfusion, rfl⟩))
  · next call hplace =>
    rw [hplace] at hpending
    cases call with
    | getc => cases hpending
    | putc b =>
      cases hpending
      cases h
      have hq : w.lockRelease.q.ring = w.q.ring := by
        rw [lockRelease, q_wake]
        rfl
      have hputs := puts_attempt (w := w.lockRelease) t byte
      refine ⟨fun u hu => ?_, by rw [← hq]; exact hputs.byte⟩
      rw [hputs.others u hu, lockRelease, pending_wake]
  · cases h

end IntqWorld

/-! ## The order of the bytes -/

namespace SerialWorld

/-- What was sent, and then the queue, is what the calls that returned were passed; every thread has
at most one other call, its last. -/
structure InOrder (w : SerialWorld) : Prop where
  order : w.sent ++ w.queued = bytes w.returned
  calls : ∀ t, bytesOf t w.called = bytesOf t w.returned ++ w.pending t

variable {w w' : SerialWorld} {t : ℕ} {byte : UInt8}

lemma bytesOf_concat (u t : ℕ) (byte : UInt8) (l : List (ℕ × UInt8)) :
    bytesOf u (l ++ [(t, byte)]) = bytesOf u l ++ if u = t then [byte] else [] := by
  rw [bytesOf, bytes, List.filter_append, List.map_append]
  by_cases h : u = t
  · simp [h, bytesOf, bytes]
  · simp [h, Ne.symm h, bytesOf, bytes]

lemma queued_eq_cons (hne : w.txq.q.intqEmpty = false) :
    w.queued = w.txq.q.ring.buf w.txq.q.ring.tail :: w.transmit.queued := by
  have hneeds : w.txq.q.holds (IntqCall.needs .getc) = true := by
    simp [IntqCall.needs, Intq.holds, hne]
  have htail : w.txq.q.ring.head ≠ w.txq.q.ring.tail := by simpa [Intq.intqEmpty] using hne
  have hcontents := IntqWorld.contents_perform hneeds
  rw [IntqWorld.transferred, Ring.contents_pop htail, List.tail_cons] at hcontents
  rw [queued, Ring.contents_pop htail, ← hcontents]
  rfl

lemma queued_eq_nil (hempty : w.txq.q.intqEmpty = true) : w.queued = [] :=
  Ring.contents_eq_nil_iff.mpr (by simpa [Intq.intqEmpty] using hempty)

lemma InOrder.transmit (h : w.InOrder) (hne : w.txq.q.intqEmpty = false) : w.transmit.InOrder where
  order :=
    calc w.transmit.sent ++ w.transmit.queued = w.sent ++ w.queued := by
          rw [queued_eq_cons hne]
          exact List.append_assoc ..
      _ = bytes w.transmit.returned := h.order
  calls t := (h.calls t).trans (congrArg _ (IntqWorld.pending_perform ..).symm)

/-- What sending a byte keeps, the interrupt handler keeps… -/
lemma keeps_serialInterrupt {I : SerialWorld → Prop}
    (hI : ∀ v, I v → v.txq.q.intqEmpty = false → I v.transmit) (h : I w) (ready : List Bool) :
    I (w.serialInterrupt ready) := by
  induction ready generalizing w with
  | nil => exact h
  | cons r rest ih =>
    rw [serialInterrupt]
    split
    · next hready =>
      obtain ⟨hne, -⟩ := Bool.and_eq_true_iff.mp hready
      exact ih (hI w h (by simpa using hne))
    · exact h

/-- …and so does `serial_flush`… -/
lemma keeps_flushLoop {I : SerialWorld → Prop}
    (hI : ∀ v, I v → v.txq.q.intqEmpty = false → I v.transmit) (h : I w) (turns : ℕ) :
    I (flushLoop turns w) := by
  induction turns generalizing w with
  | zero => exact h
  | succ turns ih =>
    rw [flushLoop]
    split
    · next hne => exact ih (hI w h (by simpa using hne))
    · exact h

/-- …which leaves nothing in the queue. -/
lemma queued_flushLoop {turns : ℕ} (hlen : w.queued.length ≤ turns) :
    (flushLoop turns w).queued = [] := by
  induction turns generalizing w with
  | zero => exact List.length_eq_zero_iff.mp (Nat.le_zero.mp hlen)
  | succ turns ih =>
    rw [flushLoop]
    cases hempty : w.txq.q.intqEmpty with
    | true => exact queued_eq_nil hempty
    | false =>
      rw [queued_eq_cons hempty] at hlen
      exact ih (Nat.le_of_succ_le_succ hlen)

lemma length_queued_lt (w : SerialWorld) : w.queued.length < 64 := by
  rw [queued, Ring.length_contents]
  exact w.txq.q.ring.count_lt

/-- After `serial_flush` the bytes of the calls that returned are sent. -/
lemma InOrder.serialFlush (h : w.InOrder) : w.serialFlush.called = w.called ∧
    w.serialFlush.returned = w.returned ∧ w.serialFlush.sent = bytes w.serialFlush.returned := by
  obtain ⟨hcalled, hreturned⟩ : w.serialFlush.called = w.called ∧ w.serialFlush.returned = w.returned :=
    keeps_flushLoop (I := fun v => v.called = w.called ∧ v.returned = w.returned)
      (fun v hv _ => hv) ⟨rfl, rfl⟩ 64
  have hsent := (keeps_flushLoop (fun v => InOrder.transmit) h 64).order
  rw [queued_flushLoop (Nat.le_of_lt w.length_queued_lt), List.append_nil] at hsent
  exact ⟨hcalled, hreturned, hsent⟩

/-- A byte goes to the end of the queue and the call returns, or the call sleeps. -/
lemma InOrder.put {txq : IntqWorld} (horder : w.sent ++ w.queued = bytes w.returned)
    (hcalls : ∀ u, bytesOf u w.called = bytesOf u w.returned ++ if u = t then [byte] else w.pending u)
    (hputs : w.txq.Puts t byte txq) : (w.put t byte txq).InOrder := by
  have hother {u : ℕ} (hu : u ≠ t) : (w.put t byte txq).pending u = w.pending u := hputs.others u hu
  obtain ⟨hout, hring⟩ | ⟨hin, hpending, hring⟩ := hputs.byte
  · have hreturned : (w.put t byte txq).returned = w.returned ++ [(t, byte)] := if_pos hout
    refine ⟨?_, fun u => ?_⟩
    · have hqueued : (w.put t byte txq).queued = w.queued ++ [byte] := hring
      rw [hreturned, hqueued, bytes, List.map_append, ← bytes, ← horder, List.append_assoc]
      rfl
    · rw [hreturned, bytesOf_concat]
      refine (hcalls u).trans ?_
      by_cases hu : u = t
      · have hnone : (w.put t byte txq).pending t = [] := congrArg IntqPlace.pending hout
        rw [hu, if_pos rfl, if_pos rfl, hnone, List.append_nil]
      · rw [if_neg hu, if_neg hu, List.append_nil, hother hu]
  · have hreturned : (w.put t byte txq).returned = w.returned := if_neg hin
    refine ⟨?_, fun u => ?_⟩
    · have hqueued : (w.put t byte txq).queued = w.queued := hring
      rw [hreturned, hqueued, ← horder]
      rfl
    · rw [hreturned]
      refine (hcalls u).trans (congrArg _ ?_)
      by_cases hu : u = t
      · rw [if_pos hu, hu]
        exact hpending.symm
      · rw [if_neg hu, hother hu]

lemma intqEmpty_of_intqFull (h : w.txq.q.intqFull = true) : w.txq.q.intqEmpty = false := by
  have hfull : ¬ w.txq.q.ring.contents.length < 63 := by
    rw [← IntqWorld.holds_notFull_iff]
    simp [Intq.holds, h]
  have hne : w.txq.q.holds .notEmpty = true := by
    rw [IntqWorld.holds_notEmpty_iff]
    intro hnil
    rw [hnil] at hfull
    exact hfull (by decide)
  simpa [Intq.holds] using hne

/-- A byte that is forced out by polling makes room. -/
lemma InOrder.poll (h : w.InOrder) (intrOff : Bool) :
    (if intrOff && w.txq.q.intqFull then w.transmit else w).InOrder := by
  split
  · next hpoll => exact h.transmit (intqEmpty_of_intqFull (Bool.and_eq_true_iff.mp hpoll).2)
  · exact h

lemma outside_poll (hout : w.txq.place t = .outside) (intrOff : Bool) :
    (if intrOff && w.txq.q.intqFull then w.transmit else w).txq.place t = .outside := by
  split
  · exact IntqWorld.outside_perform hout _
  · exact hout

lemma InOrder.serialPutc (h : w.InOrder) (hout : w.txq.place t = .outside) (byte : UInt8)
    (intrOff : Bool) : (w.serialPutc t byte intrOff).InOrder := by
  have hpolled := h.poll intrOff
  have hstays := outside_poll hout intrOff
  rw [SerialWorld.serialPutc]
  generalize (if intrOff && w.txq.q.intqFull then w.transmit else w) = v at hpolled hstays
  refine InOrder.put hpolled.order (fun u => ?_) (IntqWorld.puts_attempt t byte)
  rw [bytesOf_concat, hpolled.calls]
  by_cases hu : u = t
  · have hnone : v.pending t = [] := congrArg IntqPlace.pending hstays
    rw [hu, if_pos rfl, if_pos rfl, hnone, List.append_nil]
  · rw [if_neg hu, if_neg hu, List.append_nil]
    rfl

lemma InOrder.resume (h : w.InOrder) (ha : w.resume t = some w') : w'.InOrder := by
  rw [SerialWorld.resume] at ha
  split at ha
  · next byte hpending =>
    obtain ⟨txq, hresume, rfl⟩ := Option.map_eq_some_iff.mp ha
    refine InOrder.put h.order (fun u => ?_) (IntqWorld.puts_resume hpending hresume)
    rw [h.calls]
    by_cases hu : u = t
    · rw [if_pos hu, hu]
      exact congrArg _ hpending
    · rw [if_neg hu]
  · cases ha

lemma InOrder.step (h : w.InOrder) {a : SerialLabel} (ha : w.act a = some w') : w'.InOrder := by
  unfold act at ha
  split at ha
  · cases ha
  · cases a with
    | serialPutc t byte intrOff =>
      obtain ⟨hout, rfl⟩ := Option.ite_some_none_eq_some.mp ha
      exact h.serialPutc hout byte intrOff
    | resume t => exact h.resume ha
    | serialInterrupt ready =>
      cases ha
      exact keeps_serialInterrupt (fun v => InOrder.transmit) h ready
    | serialFlush =>
      cases ha
      exact keeps_flushLoop (fun v => InOrder.transmit) h 64

lemma inOrder_of_reachable (hw : system.Reachable w) : w.InOrder := by
  refine hw.invariant (fun w hinit => ?_) fun w a w' h _ ha => h.step ha
  obtain ⟨junk, rfl⟩ := hinit
  exact ⟨rfl, fun _ => rfl⟩

/-! ## Calls that do not sleep -/

/-- Every call has returned, in the order of the calls. -/
def Returned (w : SerialWorld) : Prop := w.returned = w.called ∧ ∀ t, w.txq.place t = .outside

lemma Returned.transmit (h : w.Returned) : w.transmit.Returned :=
  ⟨h.1, fun t => IntqWorld.outside_perform (h.2 t) _⟩

/-- After a byte was forced out, or where there is room, the queue is not full. -/
lemma room_poll {intrOff : Bool} (h : intrOff = true ∨ w.queued.length < 63) :
    (if intrOff && w.txq.q.intqFull then w.transmit else w).txq.q.holds .notFull = true := by
  rw [IntqWorld.holds_notFull_iff]
  cases hfull : w.txq.q.intqFull with
  | true =>
    have hnot : ¬ w.txq.q.ring.contents.length < 63 := by
      rw [← IntqWorld.holds_notFull_iff]
      simp [Intq.holds, hfull]
    obtain rfl := h.resolve_right hnot
    have hcons := congrArg List.length (queued_eq_cons (intqEmpty_of_intqFull hfull))
    have hlt := w.length_queued_lt
    rw [List.length_cons] at hcons
    show w.transmit.queued.length < 63
    omega
  | false =>
    rw [Bool.and_false, if_neg Bool.false_ne_true, ← IntqWorld.holds_notFull_iff]
    simp [Intq.holds, hfull]

lemma Returned.serialPutc (h : w.Returned) {intrOff : Bool}
    (hroom : intrOff = true ∨ w.queued.length < 63) (t : ℕ) (byte : UInt8) :
    (w.serialPutc t byte intrOff).Returned := by
  have hroom' := room_poll hroom
  have hpolled : (if intrOff && w.txq.q.intqFull then w.transmit else w).Returned := by
    split
    · exact h.transmit
    · exact h
  rw [SerialWorld.serialPutc]
  generalize (if intrOff && w.txq.q.intqFull then w.transmit else w) = v at hroom' hpolled
  obtain ⟨hout, -⟩ := IntqWorld.attempt_of_room t hroom'
  refine ⟨?_, fun u => ?_⟩
  · rw [put, if_pos hout, hpolled.1]
  · show (v.txq.attempt t (.putc byte)).place u = .outside
    rw [IntqWorld.attempt, if_pos (show v.txq.q.holds (IntqCall.needs (.putc byte)) = true from hroom')]
    refine IntqWorld.outside_perform ?_ _
    have hmove : v.txq.move t .outside = v.txq := by rw [IntqWorld.move, ← hpolled.2 t, update_eq_self]
    rw [hmove, hpolled.2]

lemma Returned.step (h : w.Returned) {a : SerialLabel} (hroom : w.Roomy a) (ha : w.act a = some w') :
    w'.Returned := by
  unfold act at ha
  split at ha
  · cases ha
  · cases a with
    | serialPutc t byte intrOff =>
      obtain ⟨-, rfl⟩ := Option.ite_some_none_eq_some.mp ha
      exact h.serialPutc hroom t byte
    | resume t =>
      have hnone : (w.txq.place t).pending = [] := congrArg IntqPlace.pending (h.2 t)
      have hresume : w.resume t = some w' := ha
      rw [SerialWorld.resume, hnone] at hresume
      cases hresume
    | serialInterrupt ready =>
      cases ha
      exact keeps_serialInterrupt (fun v hv _ => hv.transmit) h ready
    | serialFlush =>
      cases ha
      exact keeps_flushLoop (fun v hv _ => hv.transmit) h 64

lemma returned_of_reach (hw : system.Reach Roomy w) : w.returned = w.called := by
  have h : w.Returned := by
    refine hw.invariant (fun w hinit => ?_) fun w a w' h hroom ha => h.step hroom ha
    obtain ⟨junk, rfl⟩ := hinit
    exact ⟨rfl, fun _ => rfl⟩
  exact h.1

end SerialWorld

/-- **Nothing is lost or duplicated, and every thread's bytes stay in order.** The bytes sent, and
then the queue, are those of the calls that have returned; a thread's calls return in order, and it
has one byte at most in its hands. After `serial_flush` all bytes of the calls that returned are
sent. If no call has to sleep, these are all calls, in order. -/
theorem serial_output_in_order {w : SerialWorld} (hw : SerialWorld.system.Reachable w) :
    w.sent ++ w.queued = SerialWorld.bytes w.returned ∧ w.queued.length ≤ 63 ∧
      (∀ t, SerialWorld.bytesOf t w.called = SerialWorld.bytesOf t w.returned ++ w.pending t ∧
        (w.pending t).length ≤ 1) ∧
      (∀ w', w.act .serialFlush = some w' →
        w'.called = w.called ∧ w'.returned = w.returned ∧ w'.sent = SerialWorld.bytes w'.returned) ∧
      (SerialWorld.system.Reach SerialWorld.Roomy w → w.returned = w.called) := by
  have h := SerialWorld.inOrder_of_reachable hw
  refine ⟨h.order, Nat.le_of_lt_succ w.length_queued_lt, fun t => ⟨h.calls t, ?_⟩, fun w' ha => ?_,
    SerialWorld.returned_of_reach⟩
  · rw [SerialWorld.pending]
    obtain _ | ⟨_ | _, _⟩ | ⟨_ | _, _⟩ := w.txq.place t <;> simp [IntqPlace.pending, IntqCall.bytes]
  · rw [SerialWorld.act] at ha
    split at ha
    · cases ha
    · cases ha
      exact h.serialFlush

/-- Two bytes with interrupts off, by two threads, and an interrupt that finds the port ready
once. -/
theorem serial_output_in_order_two :
    ∃ w : SerialWorld, (w.sent = [72] ∧ w.called = [(0, 72), (1, 105)]) ∧
      w.sent ++ w.queued = SerialWorld.bytes w.returned ∧
      ∀ w', w.act .serialFlush = some w' → w'.sent = SerialWorld.bytes w'.returned := by
  obtain ⟨w, -, hw, hP⟩ := System.exists_of_run (T := SerialWorld.system)
    (G := fun _ _ => True)
    (l := [.serialPutc 0 72 true, .serialPutc 1 105 true, .serialInterrupt [true, false]])
    (P := fun w => w.sent = [72] ∧ w.called = [(0, 72), (1, 105)])
    (fun w a w' (h : w.act a = some w') => h) ⟨fun _ => 0, rfl⟩ (by decide)
  obtain ⟨horder, -, -, hflush, -⟩ := serial_output_in_order hw
  exact ⟨w, hP, horder, fun w' h => (hflush w' h).2.2⟩

/-- With 63 bytes in the queue a call with interrupts on sleeps with its byte, neither sent nor
queued, which `serial_flush` does not send. Another thread's, with interrupts off, overtakes it. -/
theorem serial_byte_overtaken :
    (∃ w w', SerialWorld.system.Reachable w ∧ w.sent ++ w.queued ≠ SerialWorld.bytes w.called ∧
      w.act .serialFlush = some w' ∧ w'.sent ≠ SerialWorld.bytes w'.called) ∧
    ∃ w, SerialWorld.system.Reachable w ∧ w.returned.length = w.called.length ∧
      w.sent ++ w.queued ≠ SerialWorld.bytes w.called := by
  constructor
  · obtain ⟨w, -, hw, hne, hflush⟩ := System.exists_of_run (T := SerialWorld.system)
      (G := fun _ _ => True) (l := List.replicate 64 (.serialPutc 0 97 false))
      (P := fun w => w.sent ++ w.queued ≠ SerialWorld.bytes w.called ∧
        (w.act .serialFlush).any fun w' => decide (w'.sent ≠ SerialWorld.bytes w'.called))
      (fun w a w' (h : w.act a = some w') => h) ⟨fun _ => 0, rfl⟩ (by decide +kernel)
    obtain ⟨w', hact, hne'⟩ := (Option.any_eq_true ..).mp hflush
    exact ⟨w, w', hw, hne, hact, of_decide_eq_true hne'⟩
  · obtain ⟨w, -, hw, hP⟩ := System.exists_of_run (T := SerialWorld.system)
      (G := fun _ _ => True)
      (l := List.replicate 63 (.serialPutc 0 97 false) ++
        [.serialPutc 0 98 false, .serialPutc 1 99 true, .serialInterrupt [true], .resume 0])
      (P := fun w => w.returned.length = w.called.length ∧
        w.sent ++ w.queued ≠ SerialWorld.bytes w.called)
      (fun w a w' (h : w.act a = some w') => h) ⟨fun _ => 0, rfl⟩ (by decide +kernel)
    exact ⟨w, hw, hP⟩

end Pintos
