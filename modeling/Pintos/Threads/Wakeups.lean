import Mathlib.Algebra.Group.Int.Defs
import Mathlib.Data.List.Nodup
import Pintos.Machinery.Runs
import Pintos.Threads.Synch

/-!
# Threads/Wakeups — no wake-up of a semaphore is lost

Any number of threads use one semaphore, in any order. What runs with interrupts disabled is one
step, so a call of `sema_down` is a step for each test of the value. A woken thread has no claim to
the value that woke it. What saves the sleepers is a count: while somebody sleeps, the value is at
most the number of the woken.
-/

namespace Pintos

open Machinery List Option Semaphore

namespace Semaphore

/-- `sema_up`, on a value of 32 bits. -/
def upWord (sema : Semaphore) : Semaphore := ⟨(sema.value + 1) % 2 ^ 32, sema.waiters.tail⟩

/-- `sema->value--`, on a value of 32 bits. -/
def downWord (sema : Semaphore) : Semaphore := ⟨(sema.value + (2 ^ 32 - 1)) % 2 ^ 32, sema.waiters⟩

end Semaphore

/-- A semaphore, the threads woken that have not tested again, and the ups and downs. -/
structure SemaWorld where
  sema : Semaphore
  woken : List ℕ
  ups : ℕ
  downs : ℕ
  deriving DecidableEq

/-- A call that does not sleep can also come from an interrupt handler, `none`. -/
inductive SemaLabel
  | down (t : ℕ)
  | recheck (t : ℕ)
  | tryDown (caller : Option ℕ)
  | up (caller : Option ℕ)

namespace SemaWorld

/-- The thread is not in the middle of a `sema_down`. -/
def Idle (w : SemaWorld) (t : ℕ) : Prop := t ∉ w.sema.waiters ∧ t ∉ w.woken

instance (w : SemaWorld) (t : ℕ) : Decidable (w.Idle t) := inferInstanceAs (Decidable (_ ∧ _))

/-- A turn of the loop of `sema_down`, by thread `t`. -/
def test (w : SemaWorld) (t : ℕ) : SemaWorld :=
  if w.sema.value = 0 then { w with sema := w.sema.sleep t }
  else { w with sema := w.sema.downWord, downs := w.downs + 1 }

/-- `sema_try_down`. -/
def tryDown (w : SemaWorld) : SemaWorld :=
  if w.sema.value > 0 then { w with sema := w.sema.downWord, downs := w.downs + 1 } else w

/-- `sema_up`. -/
def up (w : SemaWorld) : SemaWorld :=
  ⟨w.sema.upWord, w.woken ++ w.sema.woken.toList, w.ups + 1, w.downs⟩

def act (w : SemaWorld) : SemaLabel → Option SemaWorld
  | .down t => if w.Idle t then some (w.test t) else none
  | .recheck t => if t ∈ w.woken then some ({ w with woken := w.woken.erase t }.test t) else none
  | .tryDown caller => if ∀ t ∈ caller, w.Idle t then some w.tryDown else none
  | .up caller => if ∀ t ∈ caller, w.Idle t then some w.up else none

/-- A semaphore initialised to `v`, and every order of calls. -/
def system (v : ℕ) : System SemaWorld SemaLabel where
  init w := w = ⟨.init v, [], 0, 0⟩
  step w a w' := w.act a = some w'

/-- The count, as long as the ups stay below `2 ^ 32 - v`. -/
structure Counted (v : ℕ) (w : SemaWorld) : Prop where
  nodup : (w.sema.waiters ++ w.woken).Nodup
  balance : w.ups < 2 ^ 32 - v → w.sema.value + w.downs = v + w.ups
  bound : w.ups < 2 ^ 32 - v → w.sema.waiters ≠ [] → w.sema.value ≤ w.woken.length

variable {v : ℕ} {w : SemaWorld}

/-- Whoever takes one away from the value leaves the bound standing, one of the woken as well. -/
lemma counted_take (hnodup : (w.sema.waiters ++ w.woken).Nodup)
    (hbalance : w.ups < 2 ^ 32 - v → w.sema.value + w.downs = v + w.ups)
    (hbound : w.ups < 2 ^ 32 - v → w.sema.waiters ≠ [] → w.sema.value ≤ w.woken.length + 1)
    (hpos : w.sema.value ≠ 0) :
    Counted v { w with sema := w.sema.downWord, downs := w.downs + 1 } := by
  obtain ⟨⟨value, waiters⟩, woken, ups, downs⟩ := w
  simp only at hnodup hbalance hbound hpos
  constructor
  · simpa only [downWord] using hnodup
  · simp only [downWord]
    omega
  · simp only [downWord]
    intro hups hne
    have hbound := hbound hups hne
    omega

lemma counted_test {t : ℕ} (hnodup : (t :: (w.sema.waiters ++ w.woken)).Nodup)
    (hbalance : w.ups < 2 ^ 32 - v → w.sema.value + w.downs = v + w.ups)
    (hbound : w.ups < 2 ^ 32 - v → w.sema.waiters ≠ [] → w.sema.value ≤ w.woken.length + 1) :
    Counted v (w.test t) := by
  unfold test
  split
  · next hzero =>
    refine ⟨?_, hbalance, fun _ _ => ?_⟩
    · have hperm : (w.sema.waiters ++ [t] ++ w.woken).Perm (t :: (w.sema.waiters ++ w.woken)) := by
        rw [append_assoc]
        exact perm_middle
      exact hperm.nodup_iff.mpr hnodup
    · simp only [sleep, hzero]
      exact Nat.zero_le _
  · next hpos => exact counted_take hnodup.of_cons hbalance hbound hpos

lemma Counted.up (h : w.Counted v) : w.up.Counted v := by
  obtain ⟨⟨value, waiters⟩, woken, ups, downs⟩ := w
  obtain ⟨hnodup, hbalance, hbound⟩ := h
  simp only at hnodup hbalance hbound
  simp only [SemaWorld.up, Semaphore.upWord, Semaphore.woken]
  cases waiters with
  | nil => exact ⟨by simpa using hnodup, by simp only; omega, fun _ hne => absurd rfl hne⟩
  | cons t waiters =>
    constructor
    · have hperm : (waiters ++ (woken ++ [t])).Perm (t :: waiters ++ woken) := by
        rw [← append_assoc]
        exact perm_append_singleton t _
      exact hperm.nodup_iff.mpr hnodup
    · simp only
      omega
    · intro hups hne
      have hbound := hbound (Nat.lt_of_succ_lt hups) (cons_ne_nil t waiters)
      simp only [length_append, head?_cons, toList_some, length_singleton]
      omega

lemma Counted.step {a : SemaLabel} {w' : SemaWorld} (h : w.Counted v) (ha : w.act a = some w') :
    w'.Counted v := by
  have hslack : w.ups < 2 ^ 32 - v → w.sema.waiters ≠ [] → w.sema.value ≤ w.woken.length + 1 :=
    fun hups hne => Nat.le_succ_of_le (h.bound hups hne)
  cases a with
  | down t =>
    obtain ⟨hidle, ⟨⟩⟩ := ite_none_right_eq_some.mp ha
    refine counted_test (nodup_cons.mpr ⟨fun hmem => ?_, h.nodup⟩) h.balance hslack
    exact (mem_append.mp hmem).elim hidle.1 hidle.2
  | recheck t =>
    obtain ⟨hmem, ⟨⟩⟩ := ite_none_right_eq_some.mp ha
    have hlen := length_erase_add_one hmem
    have hperm : (t :: (w.sema.waiters ++ w.woken.erase t)).Perm (w.sema.waiters ++ w.woken) :=
      perm_middle.symm.trans ((perm_cons_erase hmem).symm.append_left _)
    refine counted_test (hperm.nodup_iff.mpr h.nodup) h.balance fun hups hne => ?_
    exact Nat.le_trans (h.bound hups hne) (Nat.le_of_eq hlen.symm)
  | tryDown caller =>
    obtain ⟨-, ⟨⟩⟩ := ite_none_right_eq_some.mp ha
    unfold SemaWorld.tryDown
    split
    · next hpos => exact counted_take h.nodup h.balance hslack (Nat.pos_iff_ne_zero.mp hpos)
    · exact h
  | up caller =>
    obtain ⟨-, ⟨⟩⟩ := ite_none_right_eq_some.mp ha
    exact h.up

lemma counted_of_reachable (hw : (system v).Reachable w) : w.Counted v := by
  refine hw.invariant (fun w hinit => ?_) fun w a w' h _ ha => h.step ha
  obtain rfl : w = ⟨.init v, [], 0, 0⟩ := hinit
  exact ⟨nodup_nil, fun _ => rfl, fun _ hne => absurd rfl hne⟩

end SemaWorld

/-- **No wake-up is lost**: nobody sleeps with a positive value and none of the woken still to come.
-/
theorem no_lost_wakeup {v : ℕ} {w : SemaWorld} (hw : (SemaWorld.system v).Reachable w)
    (hups : w.ups < 2 ^ 32 - v) :
    (w.sema.value : ℤ) = v + w.ups - w.downs ∧ w.woken.Nodup ∧
      (w.sema.waiters ≠ [] → w.sema.value ≤ w.woken.length) ∧
      (w.sema.waiters ≠ [] → w.woken = [] → w.sema.value = 0) := by
  obtain ⟨hnodup, hbalance, hbound⟩ := SemaWorld.counted_of_reachable hw
  refine ⟨by omega, hnodup.of_append_right, hbound hups, fun hne hwoken => ?_⟩
  have hle := hbound hups hne
  rw [hwoken] at hle
  exact Nat.le_zero.mp hle

/-- A thread that was woken, overtaken, and sleeps again. -/
theorem no_lost_wakeup_overtaken :
    ∃ w : SemaWorld, w.sema.waiters = [1] ∧
      ((w.sema.value : ℤ) = (0 : ℕ) + w.ups - w.downs ∧ w.woken.Nodup ∧
        (w.sema.waiters ≠ [] → w.sema.value ≤ w.woken.length) ∧
        (w.sema.waiters ≠ [] → w.woken = [] → w.sema.value = 0)) := by
  obtain ⟨w, -, hw, hP⟩ := System.exists_of_run (T := SemaWorld.system 0) (G := fun _ _ => True)
    (l := [.down 1, .up (some 2), .down 2, .recheck 1])
    (P := fun w => w.sema.waiters = [1] ∧ w.ups < 2 ^ 32 - 0)
    (fun w a w' (h : w.act a = some w') => h) rfl (by decide)
  exact ⟨w, hP.1, no_lost_wakeup hw hP.2⟩

end Pintos
