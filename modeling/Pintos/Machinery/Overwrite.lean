import Mathlib.Algebra.Group.Nat.Defs
import Mathlib.Data.List.Pairwise

/-!
# Machinery/Overwrite — parts of a sequence, overwritten

`overwrite f a k b` is `f` with the `k` places from `a` on taken from `b`. Two adjacent parts make
one; and after parts that do not overlap, what is at a place depends on what they tell about it, and
not on how they are cut or in which order they come.
-/

namespace Machinery

variable {β : Type}

/-- `f`, with the places `a … a + k - 1` taken from the beginning of `b`. -/
def overwrite (f : ℕ → β) (a k : ℕ) (b : ℕ → β) : ℕ → β :=
  fun n => if a ≤ n ∧ n < a + k then b (n - a) else f n

section

variable {f b : ℕ → β} {a k n : ℕ}

lemma overwrite_of_mem (h : a ≤ n) (h' : n < a + k) : overwrite f a k b n = b (n - a) :=
  if_pos ⟨h, h'⟩

lemma overwrite_of_notMem (h : n < a ∨ a + k ≤ n) : overwrite f a k b n = f n :=
  if_neg (by omega)

@[simp] lemma overwrite_zero : overwrite f a 0 b = f := by
  funext n
  exact overwrite_of_notMem (by omega)

lemma overwrite_one : overwrite f a 1 b = Function.update f a (b 0) := by
  funext n
  obtain rfl | hne := eq_or_ne n a
  · rw [Function.update_self, overwrite_of_mem n.le_refl n.lt_succ_self, Nat.sub_self]
  · rw [Function.update_of_ne hne, overwrite_of_notMem (by omega)]

/-- Two adjacent parts make one. -/
lemma overwrite_append (f : ℕ → β) (a k m : ℕ) (b : ℕ → β) :
    overwrite (overwrite f a k b) (a + k) m (fun i => b (k + i)) = overwrite f a (k + m) b := by
  funext n
  by_cases hlow : n < a
  · rw [overwrite_of_notMem (by omega), overwrite_of_notMem (by omega),
      overwrite_of_notMem (by omega)]
  by_cases hk : n < a + k
  · rw [overwrite_of_notMem (by omega), overwrite_of_mem (by omega) hk,
      overwrite_of_mem (by omega) (by omega)]
  by_cases hm : n < a + k + m
  · rw [overwrite_of_mem (by omega) hm, overwrite_of_mem (by omega) (by omega)]
    congr 1
    omega
  · rw [overwrite_of_notMem (by omega), overwrite_of_notMem (by omega),
      overwrite_of_notMem (by omega)]

lemma overwrite_congr {b' : ℕ → β} (h : ∀ i < k, b i = b' i) :
    overwrite f a k b = overwrite f a k b' := by
  funext n
  by_cases hn : a ≤ n ∧ n < a + k
  · rw [overwrite_of_mem hn.1 hn.2, overwrite_of_mem hn.1 hn.2]
    exact h _ (by omega)
  · rw [overwrite_of_notMem (by omega), overwrite_of_notMem (by omega)]

end

/-! ## Lists of parts -/

/-- A part: where it starts, how long it is, and what it tells. -/
structure Part (β : Type) where
  start : ℕ
  count : ℕ
  get : ℕ → β

namespace Part

/-- The part tells `x` about the place `n`. -/
def Tells (p : Part β) (n : ℕ) (x : β) : Prop :=
  p.start ≤ n ∧ n < p.start + p.count ∧ p.get (n - p.start) = x

/-- The two parts have no place in common. -/
def Apart (p q : Part β) : Prop := p.start + p.count ≤ q.start ∨ q.start + q.count ≤ p.start ∨
  p.count = 0 ∨ q.count = 0

lemma Apart.not_tells {p q : Part β} (h : p.Apart q) {n : ℕ} {x y : β} (hp : p.Tells n x) :
    ¬ q.Tells n y := by
  intro hq
  obtain ⟨hp1, hp2, -⟩ := hp
  obtain ⟨hq1, hq2, -⟩ := hq
  unfold Apart at h
  omega

end Part

/-- One part after the other. -/
def overwriteAll (f : ℕ → β) (l : List (Part β)) : ℕ → β :=
  l.foldl (fun f p => overwrite f p.start p.count p.get) f

variable {f : ℕ → β} {l l' : List (Part β)} {n : ℕ}

lemma overwriteAll_of_not_tells (h : ∀ p ∈ l, ∀ x, ¬ p.Tells n x) : overwriteAll f l n = f n := by
  induction l generalizing f with
  | nil => rfl
  | cons p l ih =>
    refine (ih fun q hq => h q (List.mem_cons_of_mem p hq)).trans (if_neg fun hn => ?_)
    exact h p List.mem_cons_self _ ⟨hn.1, hn.2, rfl⟩

lemma overwriteAll_of_tells (hl : l.Pairwise Part.Apart) {p : Part β} (hp : p ∈ l) {x : β}
    (h : p.Tells n x) : overwriteAll f l n = x := by
  induction l generalizing f with
  | nil => cases hp
  | cons q l ih =>
    obtain ⟨hq, hl⟩ := List.pairwise_cons.mp hl
    obtain rfl | hp := List.mem_cons.mp hp
    · refine (overwriteAll_of_not_tells fun r hr y => (hq r hr).not_tells h).trans ?_
      exact (overwrite_of_mem h.1 h.2.1).trans h.2.2
    · exact ih hl hp

/-- Two lists of parts that tell the same do the same, whatever their order and cuts. -/
lemma overwriteAll_congr (hl : l.Pairwise Part.Apart) (hl' : l'.Pairwise Part.Apart)
    (h : ∀ n x, (∃ p ∈ l, p.Tells n x) ↔ ∃ p ∈ l', p.Tells n x) :
    overwriteAll f l = overwriteAll f l' := by
  funext n
  by_cases htells : ∃ p ∈ l, ∃ x, p.Tells n x
  · obtain ⟨p, hp, x, hx⟩ := htells
    obtain ⟨q, hq, hx'⟩ := (h n x).mp ⟨p, hp, hx⟩
    rw [overwriteAll_of_tells hl hp hx, overwriteAll_of_tells hl' hq hx']
  · rw [overwriteAll_of_not_tells fun p hp x hx => htells ⟨p, hp, x, hx⟩,
      overwriteAll_of_not_tells fun p hp x hx => ?_]
    obtain ⟨q, hq, hx'⟩ := (h n x).mpr ⟨p, hp, hx⟩
    exact htells ⟨q, hq, x, hx'⟩

end Machinery
