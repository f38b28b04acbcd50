import Mathlib.Data.List.Find
import Mathlib.Data.Nat.ModEq
import Mathlib.Tactic.Ring

/-!
# Machinery/Clock — the second-chance scan of a dial

While the position under the hand is marked the scan removes the mark and moves on; it stops at the
first unmarked position. Marks may be *shared*: `key` says which positions lose their mark together.
`scan_eq` says where the scan stops in terms of the marks it started from.
-/

namespace Machinery.Clock

open Nat

/-! ## Positions of a dial -/

def next (n i : ℕ) : ℕ := if i + 1 = n then 0 else i + 1

/-- The position `k` places after `i`. -/
def pos (n i k : ℕ) : ℕ := (i + k) % n

variable {n i : ℕ}

lemma next_lt (h : i < n) : next n i < n := by
  unfold next
  split <;> omega

lemma pos_lt (h : i < n) (k : ℕ) : pos n i k < n := Nat.mod_lt _ (by omega)

lemma pos_zero (h : i < n) : pos n i 0 = i := Nat.mod_eq_of_lt (by simpa using h)

lemma next_pos (h : i < n) (k : ℕ) : next n (pos n i k) = pos n i (k + 1) := by
  have hlt : (i + k) % n < n := pos_lt h k
  have hsucc : pos n i (k + 1) = ((i + k) % n + 1) % n := by
    unfold pos
    rw [mod_add_mod]
    ring_nf
  rw [hsucc, next, pos]
  split
  · rename_i heq
    rw [heq, mod_self]
  · exact (mod_eq_of_lt (by omega)).symm

lemma pos_self (n i : ℕ) : pos n i n = pos n i 0 := by
  rw [pos, pos, add_mod_right, add_zero]

lemma pos_next (h : i < n) (k : ℕ) : pos n (next n i) k = pos n i (k + 1) := by
  rw [← pos_zero h, next_pos h, pos_zero h, pos, pos, pos, mod_add_mod]
  ring_nf

lemma exists_pos {n i j : ℕ} (hi : i < n) (hj : j < n) : ∃ k < n, pos n i k = j := by
  rcases lt_or_ge j i with h | h
  · refine ⟨j + n - i, by omega, ?_⟩
    rw [pos, show i + (j + n - i) = j + n by omega, add_mod_right, mod_eq_of_lt hj]
  · refine ⟨j - i, by omega, ?_⟩
    rw [pos, show i + (j - i) = j by omega, mod_eq_of_lt hj]

/-! ## The scan -/

section Scan

variable {M κ : Type*} (n : ℕ) (marked : M → ℕ → Bool) (unmark : M → ℕ → M)

/-- The scan, for at most `fuel` tests. -/
def scan : ℕ → M → ℕ → M × ℕ
  | 0, m, i => (m, i)
  | fuel + 1, m, i => if marked m i then scan fuel (unmark m i) (next n i) else (m, i)

variable {fuel i : ℕ}

lemma scan_lt {n : ℕ} {marked : M → ℕ → Bool} {unmark : M → ℕ → M} {m : M} (h : i < n) :
    (scan n marked unmark fuel m i).2 < n := by
  induction fuel generalizing m i with
  | zero => exact h
  | succ fuel ih =>
    rw [scan]
    split
    · exact ih (next_lt h)
    · exact h

/-- The marks left after passing over the `k` positions from `i` on. -/
def passed (m : M) (i : ℕ) : ℕ → M
  | 0 => m
  | k + 1 => unmark (passed m i k) (pos n i k)

/-- The scan started at `i` stops `k` places further. -/
def Stops (key : ℕ → κ) (m : M) (i k : ℕ) : Prop :=
  marked m (pos n i k) = false ∨ ∃ l < k, key (pos n i l) = key (pos n i k)

instance [DecidableEq κ] (key : ℕ → κ) (m : M) (i : ℕ) :
    DecidablePred (Stops n marked key m i) := fun _ => inferInstanceAs (Decidable (_ ∨ _))

/-- How far the scan goes: the first place where it stops, at most one full turn away. -/
def stop [DecidableEq κ] (key : ℕ → κ) (m : M) (i : ℕ) : ℕ :=
  ((List.range (n + 1)).find? fun k => decide (Stops n marked key m i k)).getD 0

variable {n marked unmark}

lemma stops_turn (key : ℕ → κ) (m : M) (h : i < n) : Stops n marked key m i n :=
  .inr ⟨0, by omega, congrArg key (pos_self n i).symm⟩

variable [DecidableEq κ] {key : ℕ → κ}

lemma stop_spec (m : M) (h : i < n) :
    Stops n marked key m i (stop n marked key m i) ∧ stop n marked key m i ≤ n ∧
      ∀ l < stop n marked key m i, ¬ Stops n marked key m i l := by
  cases hf : (List.range (n + 1)).find? fun k => decide (Stops n marked key m i k) with
  | none =>
    have hnone := List.find?_eq_none.mp hf n (List.mem_range.mpr (Nat.lt_succ_self n))
    exact absurd (stops_turn key m h) (by simpa using hnone)
  | some k =>
    have hk : stop n marked key m i = k := by rw [stop, hf]; rfl
    obtain ⟨hstops, j, hj, hjk, hbefore⟩ := List.find?_eq_some_iff_getElem.mp hf
    rw [List.getElem_range] at hjk
    subst hjk
    rw [hk]
    refine ⟨by simpa using hstops, by simpa [Nat.lt_succ_iff] using hj, fun l hl => ?_⟩
    simpa using hbefore l hl

variable (hkey : ∀ m i j, marked (unmark m i) j = (marked m j && decide (key j ≠ key i)))

include hkey

lemma marked_passed (m : M) (i k j : ℕ) :
    marked (passed n unmark m i k) j
      = (marked m j && decide (∀ l < k, key j ≠ key (pos n i l))) := by
  induction k with
  | zero => simp [passed]
  | succ k ih =>
    rw [passed, hkey, ih, Bool.and_assoc, ← Bool.decide_and]
    congr 2
    refine propext ⟨fun h l hl => ?_, fun h => ⟨fun l hl => h l (by omega), h k (by omega)⟩⟩
    rcases Nat.lt_succ_iff_lt_or_eq.mp hl with hl | rfl
    · exact h.1 l hl
    · exact h.2

lemma marked_passed_pos (m : M) (i k : ℕ) :
    marked (passed n unmark m i k) (pos n i k) = decide (¬ Stops n marked key m i k) := by
  rw [marked_passed hkey, Bool.eq_iff_iff]
  simp only [Bool.and_eq_true, decide_eq_true_eq, Stops, not_or, not_exists, not_and,
    Bool.not_eq_false]
  exact and_congr_right fun _ => forall₂_congr fun _ _ => ne_comm

lemma scan_passed (m : M) (h : i < n) (fuel k : ℕ) (hk : ∀ l < k, ¬ Stops n marked key m i l) :
    scan n marked unmark (k + fuel) m i
      = scan n marked unmark fuel (passed n unmark m i k) (pos n i k) := by
  induction k generalizing fuel with
  | zero => rw [zero_add, passed, pos_zero h]
  | succ k ih =>
    have hstep : marked (passed n unmark m i k) (pos n i k) = true := by
      rw [marked_passed_pos hkey]
      simpa using hk k (by omega)
    rw [show k + 1 + fuel = k + (fuel + 1) by omega, ih (fuel + 1) fun l hl => hk l (by omega),
      scan, if_pos hstep, next_pos h, passed]

lemma marked_stop (m : M) (h : i < n) :
    marked (passed n unmark m i (stop n marked key m i)) (pos n i (stop n marked key m i)) = false := by
  rw [marked_passed_pos hkey]
  simpa using (stop_spec m h).1

/-- Where the scan stops, with fuel for one test more than the places it passes over. -/
lemma scan_of_stop_lt (m : M) (h : i < n) (hfuel : stop n marked key m i < fuel) :
    scan n marked unmark fuel m i
      = (passed n unmark m i (stop n marked key m i), pos n i (stop n marked key m i)) := by
  obtain ⟨f, rfl⟩ : ∃ f, fuel = stop n marked key m i + (f + 1) :=
    ⟨fuel - stop n marked key m i - 1, by omega⟩
  rw [scan_passed hkey m h (f + 1) _ (stop_spec m h).2.2, scan, marked_stop hkey m h]
  rfl

lemma scan_eq (m : M) (h : i < n) (hfuel : n < fuel) : scan n marked unmark fuel m i
      = (passed n unmark m i (stop n marked key m i), pos n i (stop n marked key m i)) :=
  scan_of_stop_lt hkey m h ((stop_spec m h).2.1.trans_lt hfuel)

end Scan

end Machinery.Clock
