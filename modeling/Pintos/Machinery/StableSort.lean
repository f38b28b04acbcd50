import Mathlib.Data.List.Chain
import Mathlib.Data.List.Sort

/-!
# Machinery/StableSort — sorting that keeps the order of ties

Two elements are tied if each is `le` the other, and a list is stably rearranged if the
elements that are tied to any one stand in the same order. There is at most one such list that is
sorted (`Stably.eq`), so merging with the left one first among ties and inserting each element behind
its ties come to the same. A pass of the natural merge sort leaves about half as many runs.
-/

namespace Machinery

open List Nat

variable {α : Type} {le : α → α → Bool}

/-- The comparison of keys. -/
structure WeakOrder (le : α → α → Bool) : Prop where
  trans : ∀ a b c, le a b = true → le b c = true → le a c = true
  total : ∀ a b, (le a b || le b a) = true

/-- Elements with the same key. -/
def tied (le : α → α → Bool) (a b : α) : Bool := le a b && le b a

/-- A stable rearrangement. -/
def Stably (le : α → α → Bool) (l l' : List α) : Prop :=
  ∀ e, l.filter (tied le e) = l'.filter (tied le e)

section

variable {l l' l'' xs ys : List α} {a b : α}

lemma WeakOrder.refl (hle : WeakOrder le) (a : α) : le a a = true := by
  have htotal := hle.total a a
  rwa [Bool.or_self] at htotal

lemma WeakOrder.of_not (hle : WeakOrder le) (hab : le a b = false) : le b a = true := by
  have htotal := hle.total a b
  rwa [hab, Bool.false_or] at htotal

lemma tied_iff : tied le a b = true ↔ le a b = true ∧ le b a = true := Bool.and_eq_true_iff

lemma Stably.refl (l : List α) : Stably le l l := fun _ => rfl

lemma Stably.trans (h : Stably le l l') (h' : Stably le l' l'') : Stably le l l'' :=
  fun e => (h e).trans (h' e)

lemma Stably.append (h : Stably le l l') (h' : Stably le xs ys) : Stably le (l ++ xs) (l' ++ ys) :=
  fun e => by rw [filter_append, filter_append, h e, h' e]

section

variable (hle : WeakOrder le)

include hle

lemma Stably.perm (h : Stably le l l') : l.Perm l' := by
  classical
  rw [perm_iff_count]
  intro a
  have hself : tied le a a = true := tied_iff.mpr ⟨hle.refl a, hle.refl a⟩
  rw [← count_filter hself, h a, count_filter hself]

/-- There is one that is sorted. -/
lemma Stably.eq (h : Stably le l l') (hl : l.Pairwise (le · ·)) (hl' : l'.Pairwise (le · ·)) :
    l = l' := by
  induction l generalizing l' with
  | nil => exact (nil_perm.mp (h.perm hle)).symm
  | cons a l ih =>
    cases l' with
    | nil => exact absurd (h.perm hle).symm.nil_eq (cons_ne_nil a l).symm
    | cons b l' =>
      have hperm := h.perm hle
      -- both are first in a sorted list
      have hab : le a b = true := by
        obtain rfl | hmem := mem_cons.mp (hperm.mem_iff.mpr mem_cons_self)
        · exact hle.refl b
        · exact (pairwise_cons.mp hl).1 b hmem
      have hba : le b a = true := by
        obtain rfl | hmem := mem_cons.mp (hperm.mem_iff.mp mem_cons_self)
        · exact hle.refl a
        · exact (pairwise_cons.mp hl').1 a hmem
      have hfirst := h a
      rw [filter_cons_of_pos (tied_iff.mpr ⟨hle.refl a, hle.refl a⟩),
        filter_cons_of_pos (tied_iff.mpr ⟨hab, hba⟩)] at hfirst
      obtain rfl : a = b := (cons_eq_cons.mp hfirst).1
      refine congrArg (a :: ·) (ih (fun e => ?_) hl.of_cons hl'.of_cons)
      have hrest := h e
      rw [filter_cons, filter_cons] at hrest
      split at hrest
      · exact (cons_eq_cons.mp hrest).2
      · exact hrest

lemma filter_tied_eq_nil {e : α} (hsorted : (a :: l).Pairwise (le · ·)) (hlt : le a b = false)
    (he : tied le e b = true) : (a :: l).filter (tied le e) = [] := by
  rw [filter_eq_nil_iff]
  intro c hc htied
  have hac : le a c = true := by
    obtain rfl | hc := mem_cons.mp hc
    · exact hle.refl c
    · exact (pairwise_cons.mp hsorted).1 c hc
  have hcb : le c b = true := hle.trans c e b (tied_iff.mp htied).2 (tied_iff.mp he).1
  exact Bool.false_ne_true (hlt.symm.trans (hle.trans a c b hac hcb))

lemma stably_merge (hxs : xs.Pairwise (le · ·)) (ys : List α) :
    Stably le (xs ++ ys) (xs.merge ys le) := by
  induction xs generalizing ys with
  | nil =>
    rw [nil_merge]
    exact Stably.refl ys
  | cons x xs ih =>
    induction ys with
    | nil =>
      rw [append_nil, merge_right]
      exact Stably.refl _
    | cons y ys ihy =>
      rw [cons_merge_cons]
      split
      · exact (Stably.refl [x]).append (ih hxs.of_cons (y :: ys))
      · next hlt =>
        intro e
        have hrest := ihy e
        rw [filter_append] at hrest ⊢
        by_cases he : tied le e y = true
        · rw [filter_tied_eq_nil hle hxs ((Bool.not_eq_true _).mp hlt) he, nil_append] at hrest ⊢
          rw [filter_cons_of_pos he, filter_cons_of_pos he, hrest]
        · rwa [filter_cons_of_neg he, filter_cons_of_neg he]

lemma stably_orderedInsert (hl : l.Pairwise (le · ·)) (x : α) :
    Stably le (l ++ [x]) (l.orderedInsert (fun a b => le b a = false) x) := by
  induction l with
  | nil => exact Stably.refl [x]
  | cons y l ih =>
    rw [orderedInsert_cons]
    split
    · next hlt =>
      intro e
      rw [filter_append]
      by_cases he : tied le e x = true
      · rw [filter_cons_of_pos he, filter_cons_of_pos he,
          filter_tied_eq_nil hle hl hlt he]
        rfl
      · rw [filter_cons_of_neg he, filter_cons_of_neg he, filter_nil, append_nil]
    · exact (Stably.refl [y]).append (ih hl.of_cons)

lemma pairwise_orderedInsert (hl : l.Pairwise (le · ·)) (x : α) :
    (l.orderedInsert (fun a b => le b a = false) x).Pairwise (le · ·) := by
  induction l with
  | nil => exact pairwise_singleton _ x
  | cons y l ih =>
    obtain ⟨hy, hrest⟩ := pairwise_cons.mp hl
    rw [orderedInsert_cons]
    split
    · next hlt =>
      have hxy : le x y = true := hle.of_not hlt
      refine pairwise_cons.mpr ⟨fun z hz => ?_, hl⟩
      obtain rfl | hz := mem_cons.mp hz
      · exact hxy
      · exact hle.trans x y z hxy (hy z hz)
    · next hge =>
      refine pairwise_cons.mpr ⟨fun z hz => ?_, ih hrest⟩
      obtain rfl | hz := (mem_orderedInsert _).mp hz
      · exact (Bool.not_eq_false _).mp hge
      · exact hy z hz

end

end

/-! ## Runs -/

/-- How a run goes on behind `a`, and what comes after it. -/
def takeRun (le : α → α → Bool) : α → List α → List α × List α
  | _, [] => ([], [])
  | a, b :: l => if le a b then (b :: (takeRun le b l).1, (takeRun le b l).2) else ([], b :: l)

/-- The number of times that a list goes down, behind `a`… -/
def descentsFrom (le : α → α → Bool) : α → List α → ℕ
  | _, [] => 0
  | a, b :: l => (if le a b then 0 else 1) + descentsFrom le b l

/-- …and all in all. -/
def descents (le : α → α → Bool) : List α → ℕ
  | [] => 0
  | a :: l => descentsFrom le a l

/-- A pass over a list, and the runs that it leaves. -/
inductive Pass (le : α → α → Bool) : List α → List (List α) → Prop
  | nil : Pass le [] []
  | last {a : α} {l : List α} (hrest : (takeRun le a l).2 = []) :
      Pass le (a :: l) [a :: (takeRun le a l).1]
  | pair {a b : α} {l l' : List α} {out : List (List α)} (hrest : (takeRun le a l).2 = b :: l')
      (hout : Pass le (takeRun le b l').2 out) :
      Pass le (a :: l) ((a :: (takeRun le a l).1).merge (b :: (takeRun le b l').1) le :: out)

section

variable {l r : List α} {out : List (List α)} {a b : α}

lemma takeRun_append (le : α → α → Bool) (a : α) (l : List α) :
    (takeRun le a l).1 ++ (takeRun le a l).2 = l := by
  induction l generalizing a with
  | nil => rfl
  | cons b l ih =>
    rw [takeRun]
    split
    · exact congrArg (b :: ·) (ih b)
    · rfl

lemma isChain_takeRun (le : α → α → Bool) (a : α) (l : List α) :
    (a :: (takeRun le a l).1).IsChain (le · ·) := by
  induction l generalizing a with
  | nil => exact isChain_singleton a
  | cons b l ih =>
    rw [takeRun]
    split
    · next hab => exact isChain_cons_cons.mpr ⟨hab, ih b⟩
    · exact isChain_singleton a

lemma WeakOrder.pairwise_of_isChain (hle : WeakOrder le) (hl : l.IsChain (le · ·)) :
    l.Pairwise (le · ·) := by
  have : Trans (fun a b : α => le a b = true) (fun a b => le a b = true) fun a b => le a b = true :=
    ⟨fun {a b c} => hle.trans a b c⟩
  exact hl.pairwise

lemma descentsFrom_eq_succ {l' : List α} (hrest : (takeRun le a l).2 = b :: l') :
    descentsFrom le a l = descentsFrom le b l' + 1 := by
  induction l generalizing a with
  | nil => cases hrest
  | cons c l ih =>
    rw [takeRun] at hrest
    rw [descentsFrom]
    split at hrest
    · next hac => rw [if_pos hac, Nat.zero_add, ih hrest]
    · next hac =>
      cases hrest
      rw [if_neg hac, Nat.add_comm]

lemma descentsFrom_le (le : α → α → Bool) (a : α) (l : List α) : descentsFrom le a l ≤ l.length := by
  induction l generalizing a with
  | nil => exact le_refl 0
  | cons b l ih =>
    have hrest := ih b
    rw [descentsFrom, length_cons]
    split <;> omega

lemma descents_le (le : α → α → Bool) (l : List α) : descents le l ≤ l.length := by
  cases l with
  | nil => exact le_refl 0
  | cons a l => exact (descentsFrom_le le a l).trans (le_succ _)

lemma descents_append_le (hr : r.IsChain (le · ·)) (l : List α) :
    descents le (r ++ l) ≤ descents le l + 1 ∧ descents le r = 0 := by
  induction r with
  | nil => exact ⟨Nat.le_succ _, rfl⟩
  | cons a r ih =>
    cases r with
    | nil =>
      refine ⟨?_, rfl⟩
      cases l with
      | nil => exact Nat.zero_le _
      | cons b l =>
        show (if le a b then 0 else 1) + descentsFrom le b l ≤ descentsFrom le b l + 1
        split <;> omega
    | cons b r =>
      obtain ⟨hab, hchain⟩ := isChain_cons_cons.mp hr
      obtain ⟨hle, hzero⟩ := ih hchain
      have hstep (l : List α) : descents le (a :: b :: l) = descents le (b :: l) := by
        show (if le a b then 0 else 1) + descentsFrom le b l = descentsFrom le b l
        rw [if_pos hab, Nat.zero_add]
      exact ⟨(hstep (r ++ l)).trans_le hle, (hstep r).trans hzero⟩

/-- What a pass leaves is sorted in runs… -/
lemma Pass.sorted (hle : WeakOrder le) (h : Pass le l out) : ∀ r ∈ out, r.Pairwise (le · ·) := by
  induction h with
  | nil => exact fun r hr => absurd hr not_mem_nil
  | last hrest =>
    intro r hr
    obtain rfl := mem_singleton.mp hr
    exact hle.pairwise_of_isChain (isChain_takeRun ..)
  | pair hrest hout ih =>
    intro r hr
    obtain rfl | hr := mem_cons.mp hr
    · exact pairwise_merge hle.trans hle.total _ _
        (hle.pairwise_of_isChain (isChain_takeRun ..)) (hle.pairwise_of_isChain (isChain_takeRun ..))
    · exact ih r hr

/-- …a stable rearrangement… -/
lemma Pass.stably (hle : WeakOrder le) (h : Pass le l out) : Stably le l out.flatten := by
  induction h with
  | nil => exact Stably.refl []
  | @last a l hrest =>
    have hall := takeRun_append le a l
    rw [hrest, append_nil] at hall
    rw [hall, flatten_singleton]
    exact Stably.refl _
  | @pair a b l l' out hrest hout ih =>
    have hall : a :: l = (a :: (takeRun le a l).1) ++ (b :: (takeRun le b l').1) ++
        (takeRun le b l').2 := by
      rw [append_assoc, cons_append, cons_append, takeRun_append, ← hrest, takeRun_append]
    rw [hall]
    exact (stably_merge hle (hle.pairwise_of_isChain (isChain_takeRun ..)) _).append ih

/-- …with about half of the runs. -/
lemma Pass.length_le (h : Pass le l out) : 2 * out.length ≤ descents le l + 2 := by
  induction h with
  | nil => exact zero_le _
  | last hrest => exact le_add_left _ _
  | @pair a b l l' out hrest hout ih =>
    rw [length_cons, descents, descentsFrom_eq_succ hrest]
    cases hrest' : (takeRun le b l').2 with
    | nil =>
      rw [hrest'] at hout
      cases hout
      exact le_add_left _ _
    | cons c l'' =>
      rw [hrest'] at ih
      have ih : 2 * out.length ≤ descentsFrom le c l'' + 2 := ih
      rw [descentsFrom_eq_succ hrest']
      omega

lemma descents_flatten (hout : ∀ r ∈ out, r.Pairwise (le · ·)) :
    descents le out.flatten ≤ out.length - 1 := by
  induction out with
  | nil => exact le_refl 0
  | cons r out ih =>
    have hr := descents_append_le (hout r mem_cons_self).isChain out.flatten
    have hrest := ih fun r' hr' => hout r' (mem_cons_of_mem r hr')
    rw [flatten_cons, length_cons]
    cases out with
    | nil =>
      rw [flatten_nil, append_nil]
      exact hr.2.le
    | cons r' out => exact hr.1.trans (succ_le_succ hrest)

end

end Machinery
