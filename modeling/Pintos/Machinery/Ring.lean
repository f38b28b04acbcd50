import Mathlib.Algebra.Group.Nat.Defs
import Mathlib.Logic.Function.Basic
import Mathlib.Tactic.SplitIfs

/-!
# Machinery/Ring — a queue in a circular buffer

A buffer of `n` places is written at the head and read at the tail, each going round. The queue is
empty where the two meet, and full one place before. Its contents are what one finds going from
the tail to the head.
-/

namespace Machinery

open List Nat

/-- A circular buffer of `n` places. -/
structure Ring (β : Type) (n : ℕ) where
  buf : ℕ → β
  head : ℕ
  tail : ℕ
  head_lt : head < n
  tail_lt : tail < n

namespace Ring

variable {β : Type} {n : ℕ}

def next (n pos : ℕ) : ℕ := (pos + 1) % n

lemma next_lt {pos : ℕ} (h : pos < n) : next n pos < n := Nat.mod_lt _ (Nat.zero_lt_of_lt h)

lemma next_eq {pos : ℕ} (h : pos < n) : next n pos = if pos + 1 = n then 0 else pos + 1 := by
  unfold next
  split
  · next hlast => rw [hlast, mod_self]
  · exact mod_eq_of_lt (by omega)

/-- The ring with `b` written at its head. -/
def push (r : Ring β n) (b : β) : Ring β n :=
  { r with
    buf := Function.update r.buf r.head b
    head := next n r.head
    head_lt := next_lt r.head_lt }

/-- The ring with its tail moved on. -/
def pop (r : Ring β n) : Ring β n :=
  { r with tail := next n r.tail, tail_lt := next_lt r.tail_lt }

/-- The number of places from the tail to the head. -/
def count (r : Ring β n) : ℕ := if r.tail ≤ r.head then r.head - r.tail else r.head + n - r.tail

/-- What is in the queue, the oldest first. -/
def contents (r : Ring β n) : List β :=
  (List.range r.count).map fun i => r.buf ((r.tail + i) % n)

variable {r : Ring β n}

@[simp] lemma length_contents : r.contents.length = r.count := by
  rw [contents, length_map, length_range]

lemma count_lt (r : Ring β n) : r.count < n := by
  have hh := r.head_lt
  unfold count
  split <;> omega

/-- Empty is where head and tail meet… -/
lemma contents_eq_nil_iff : r.contents = [] ↔ r.head = r.tail := by
  have ht := r.tail_lt
  rw [← length_eq_zero_iff, length_contents]
  unfold count
  split <;> omega

lemma next_head_eq_tail_iff : next n r.head = r.tail ↔ r.count = n - 1 := by
  have hh := r.head_lt
  have ht := r.tail_lt
  rw [next_eq hh]
  unfold count
  split <;> split <;> omega

lemma index_ne_head {i : ℕ} (hi : i < r.count) : (r.tail + i) % n ≠ r.head := by
  have hh := r.head_lt
  unfold count at hi
  by_cases hwrap : r.tail + i < n
  · rw [Nat.mod_eq_of_lt hwrap]
    split at hi <;> omega
  · rw [Nat.mod_eq_sub_mod (Nat.le_of_not_lt hwrap)]
    split at hi
    · omega
    · rw [Nat.mod_eq_of_lt (by omega)]
      omega

lemma index_count (r : Ring β n) : (r.tail + r.count) % n = r.head := by
  have hh := r.head_lt
  have ht := r.tail_lt
  unfold count
  split
  · rw [mod_eq_of_lt (by omega)]
    omega
  · rw [mod_eq_sub_mod (by omega), mod_eq_of_lt (by omega)]
    omega

/-- Writing adds at the end… -/
lemma contents_push (hfull : next n r.head ≠ r.tail) (b : β) :
    (r.push b).contents = r.contents ++ [b] := by
  have hcount : (r.push b).count = r.count + 1 := by
    have hh := r.head_lt
    have ht := r.tail_lt
    rw [next_eq hh] at hfull
    simp only [count, push, next_eq hh]
    split_ifs at hfull ⊢ <;> omega
  have hold (i : ℕ) (hi : i ∈ range r.count) :
      (r.push b).buf ((r.tail + i) % n) = r.buf ((r.tail + i) % n) :=
    Function.update_of_ne (index_ne_head (mem_range.mp hi)) ..
  have hnew : (r.push b).buf ((r.tail + r.count) % n) = b := by
    rw [index_count]
    exact Function.update_self ..
  rw [contents, hcount, range_succ, map_append]
  change (range r.count).map (fun i => (r.push b).buf ((r.tail + i) % n)) ++
    [(r.push b).buf ((r.tail + r.count) % n)] = _
  rw [map_congr_left hold, hnew]
  rfl

/-- …and reading takes away at the beginning. -/
lemma contents_pop (hempty : r.head ≠ r.tail) :
    r.contents = r.buf r.tail :: r.pop.contents := by
  have hh := r.head_lt
  have ht := r.tail_lt
  have hcount : r.count = r.pop.count + 1 := by
    simp only [count, pop, next_eq ht]
    split_ifs <;> omega
  have hindex (i : ℕ) : (r.tail + (i + 1)) % n = (next n r.tail + i) % n := by
    rw [next, Nat.mod_add_mod, Nat.add_right_comm, Nat.add_assoc]
  rw [contents, hcount, range_succ_eq_map, map_cons, Nat.add_zero, Nat.mod_eq_of_lt ht,
    map_map]
  congr 1
  exact map_congr_left fun i _ => congrArg r.buf (hindex i)

end Ring

end Machinery
