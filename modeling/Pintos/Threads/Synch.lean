import Mathlib.Logic.Function.Basic
import Mathlib.Algebra.Group.Nat.Defs

/-!
# Threads/Synch — semaphores

A semaphore is a value and the queue of the threads asleep on it. The loop of `sema_down` is cut at
the test, so that `down` is one turn of it.
-/

namespace Pintos

/-- `struct semaphore`. -/
structure Semaphore where
  value : ℕ
  waiters : List ℕ
  deriving DecidableEq, Repr

namespace Semaphore

/-- `sema_init`. -/
def init (value : ℕ) : Semaphore := ⟨value, []⟩

/-- `sema_up`: the first waiter leaves the queue, and the value goes up. -/
def up (sema : Semaphore) : Semaphore := ⟨sema.value + 1, sema.waiters.tail⟩

/-- The thread `sema_up` unblocks. -/
def woken (sema : Semaphore) : Option ℕ := sema.waiters.head?

/-- One turn of the loop of `sema_down` that finds a positive value. -/
def down (sema : Semaphore) : Semaphore := ⟨sema.value - 1, sema.waiters⟩

/-- …and one that finds zero. -/
def sleep (sema : Semaphore) (t : ℕ) : Semaphore := ⟨sema.value, sema.waiters ++ [t]⟩

end Semaphore

end Pintos
