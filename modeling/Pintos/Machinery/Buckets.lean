import Mathlib.Data.List.Nodup

/-!
# Machinery/Buckets — lists in a row of buckets

The contents of a row of buckets are their lists one after the other; what matters is the
contents up to order.
-/

namespace Machinery

open Function List

variable {α : Type}

/-- What the first `n` buckets hold. -/
def contents (n : ℕ) (b : ℕ → List α) : List α := (List.range n).flatMap b

section

variable {n k : ℕ} {b b' : ℕ → List α} {a : α}

lemma contents_succ (n : ℕ) (b : ℕ → List α) : contents (n + 1) b = contents n b ++ b n := by
  rw [contents, range_succ, flatMap_append, flatMap_singleton, contents]

lemma mem_contents : a ∈ contents n b ↔ ∃ k < n, a ∈ b k := by simp [contents, mem_flatMap]

lemma contents_congr (h : ∀ k < n, b k = b' k) : contents n b = contents n b' := by
  exact congrArg List.flatten (map_congr_left fun k hk => h k (mem_range.mp hk))

lemma contents_nil (n : ℕ) : contents n (fun _ => ([] : List α)) = [] := by simp [contents]

/-- A bucket is replaced: what it held goes, and what it holds comes. -/
lemma contents_update (hk : k < n) (b : ℕ → List α) (l : List α) :
    (b k ++ contents n (update b k l)).Perm (l ++ contents n b) := by
  induction n with
  | zero => cases hk
  | succ n ih =>
    rw [contents_succ, contents_succ]
    obtain hk | rfl := Nat.lt_succ_iff_lt_or_eq.mp hk
    · rw [update_of_ne (Nat.ne_of_gt hk), ← append_assoc, ← append_assoc]
      exact (ih hk).append_right _
    · have hrest : contents k (update b k l) = contents k b :=
        contents_congr fun j hj => update_of_ne (Nat.ne_of_lt hj) ..
      rw [hrest, update_self]
      refine perm_append_comm.trans ?_
      rw [← append_assoc]
      exact perm_append_comm.append_right _

lemma contents_push (hk : k < n) (b : ℕ → List α) (a : α) :
    (contents n (update b k (a :: b k))).Perm (a :: contents n b) := by
  have h := contents_update hk b (a :: b k)
  refine (perm_append_left_iff (b k)).mp (h.trans ?_)
  exact perm_middle.symm

lemma contents_erase [DecidableEq α] (hk : k < n) (ha : a ∈ b k) :
    (a :: contents n (update b k ((b k).erase a))).Perm (contents n b) := by
  have h := contents_update hk b ((b k).erase a)
  refine (perm_append_left_iff ((b k).erase a)).mp (List.Perm.trans ?_ h)
  refine perm_middle.trans ?_
  exact (perm_cons_erase ha).symm.append_right _

end

end Machinery
