import Mathlib.Data.List.Chain
import Mathlib.Data.List.Nodup

/-!
# Machinery/Chain — nodes that are linked both ways

Nodes are chained in the order of a list if each is joined to the next, both ways. All surgery
comes down to `join a b`, which makes `b` follow `a`. It glues the chain that ends in `a` to the
one that begins with `b`; a chain where `a` is not followed by anything, and `b` does not follow
anything, stays as it is.
-/

namespace Machinery

open Function List

/-- The links of all nodes. -/
@[ext] structure Links (α : Type) where
  prev : α → Option α
  next : α → Option α

namespace Links

variable {α : Type}

/-- Both links of a node are the same. -/
def SameAt (h h' : Links α) (x : α) : Prop := h'.prev x = h.prev x ∧ h'.next x = h.next x

/-- The nodes of a list are linked in its order. -/
def Chained (h : Links α) (l : List α) : Prop :=
  l.IsChain fun a b => h.next a = some b ∧ h.prev b = some a

variable {h h' h'' : Links α} {l A B R : List α} {a b x : α}

lemma SameAt.refl (h : Links α) (x : α) : SameAt h h x := ⟨rfl, rfl⟩

lemma SameAt.trans (hx : SameAt h h' x) (hx' : SameAt h' h'' x) : SameAt h h'' x :=
  ⟨hx'.1.trans hx.1, hx'.2.trans hx.2⟩

/-! ## Chains -/

lemma chained_singleton (h : Links α) (a : α) : Chained h [a] := isChain_singleton a

lemma chained_append : Chained h (A ++ B) ↔ Chained h A ∧ Chained h B ∧
    ∀ a ∈ A.getLast?, ∀ b ∈ B.head?, h.next a = some b ∧ h.prev b = some a :=
  isChain_append

lemma Chained.congr (hc : Chained h l) (hnext : ∀ x ∈ l.dropLast, h'.next x = h.next x)
    (hprev : ∀ x ∈ l.tail, h'.prev x = h.prev x) : Chained h' l := by
  induction l with
  | nil => exact isChain_nil
  | cons a l ih =>
    cases l with
    | nil => exact chained_singleton h' a
    | cons b l =>
      obtain ⟨hab, hrest⟩ := isChain_cons_cons.mp hc
      refine isChain_cons_cons.mpr ⟨⟨?_, ?_⟩, ih hrest (fun x hx => ?_) fun x hx => ?_⟩
      · exact (hnext a mem_cons_self).trans hab.1
      · exact (hprev b mem_cons_self).trans hab.2
      · exact hnext x (mem_cons_of_mem a hx)
      · exact hprev x (mem_cons_of_mem b hx)

lemma Chained.of_sameAt (hc : Chained h l) (hsame : ∀ x ∈ l, SameAt h h' x) : Chained h' l :=
  hc.congr (fun x hx => (hsame x (dropLast_subset l hx)).2)
    fun x hx => (hsame x (mem_of_mem_tail hx)).1

lemma notMem_dropLast_of_nodup (hl : l.Nodup) (ha : a ∈ l.getLast?) : a ∉ l.dropLast := by
  rw [← dropLast_append_getLast? a ha] at hl
  exact fun hmem => disjoint_of_nodup_append hl hmem mem_cons_self

lemma notMem_tail_of_nodup (hl : l.Nodup) (hb : b ∈ l.head?) : b ∉ l.tail := by
  rw [← cons_head?_tail hb] at hl
  exact (nodup_cons.mp hl).1

/-! ## Links that change -/

variable [DecidableEq α]

def setPrev (h : Links α) (a : α) (p : Option α) : Links α :=
  { h with prev := update h.prev a p }

def setNext (h : Links α) (a : α) (n : Option α) : Links α :=
  { h with next := update h.next a n }

@[simp] lemma next_setPrev (h : Links α) (a : α) (p : Option α) : (h.setPrev a p).next = h.next := rfl

@[simp] lemma prev_setNext (h : Links α) (a : α) (n : Option α) : (h.setNext a n).prev = h.prev := rfl

lemma prev_setPrev_self (h : Links α) (a : α) (p : Option α) : (h.setPrev a p).prev a = p :=
  update_self ..

lemma next_setNext_self (h : Links α) (a : α) (n : Option α) : (h.setNext a n).next a = n :=
  update_self ..

lemma prev_setPrev_of_ne {p : Option α} (hne : x ≠ a) : (h.setPrev a p).prev x = h.prev x :=
  update_of_ne hne ..

lemma next_setNext_of_ne {n : Option α} (hne : x ≠ a) : (h.setNext a n).next x = h.next x :=
  update_of_ne hne ..

lemma setPrev_comm (h : Links α) (hne : a ≠ b) (p q : Option α) :
    (h.setPrev a p).setPrev b q = (h.setPrev b q).setPrev a p := by
  unfold setPrev
  rw [update_comm hne]

/-- `b` follows `a`. -/
def join (h : Links α) (a b : α) : Links α := (h.setNext a (some b)).setPrev b (some a)

@[simp] lemma next_join_self (h : Links α) (a b : α) : (h.join a b).next a = some b :=
  next_setNext_self h a _

@[simp] lemma prev_join_self (h : Links α) (a b : α) : (h.join a b).prev b = some a :=
  prev_setPrev_self _ b _

lemma next_join_of_ne (hne : x ≠ a) : (h.join a b).next x = h.next x := next_setNext_of_ne hne

lemma prev_join_of_ne (hne : x ≠ b) : (h.join a b).prev x = h.prev x := prev_setPrev_of_ne hne

lemma sameAt_join (ha : x ≠ a) (hb : x ≠ b) : SameAt h (h.join a b) x :=
  ⟨prev_join_of_ne hb, next_join_of_ne ha⟩

lemma Chained.join_of_notMem (hc : Chained h l) (ha : a ∉ l.dropLast) (hb : b ∉ l.tail) :
    Chained (h.join a b) l :=
  hc.congr (fun _ hx => next_join_of_ne (ne_of_mem_of_not_mem hx ha))
    fun _ hx => prev_join_of_ne (ne_of_mem_of_not_mem hx hb)

/-- The links of the nodes of a list, exchanged. -/
def flip (h : Links α) (l : List α) : Links α where
  prev x := if x ∈ l then h.next x else h.prev x
  next x := if x ∈ l then h.prev x else h.next x

lemma flip_of_mem (hx : x ∈ l) : (h.flip l).prev x = h.next x ∧ (h.flip l).next x = h.prev x :=
  ⟨if_pos hx, if_pos hx⟩

lemma sameAt_flip (hx : x ∉ l) : SameAt h (h.flip l) x := ⟨if_neg hx, if_neg hx⟩

lemma flip_nil (h : Links α) : h.flip [] = h := by
  ext x : 2
  · exact (sameAt_flip not_mem_nil).1
  · exact (sameAt_flip not_mem_nil).2

lemma flip_concat (ha : a ∉ l) : ((h.flip l).setPrev a (h.next a)).setNext a (h.prev a) =
    h.flip (l ++ [a]) := by
  have hmem {x : α} (hx : x ≠ a) : x ∈ l ++ [a] ↔ x ∈ l := by simp [hx]
  ext x : 2
  · by_cases hx : x = a
    · subst hx
      exact (prev_setPrev_self ..).trans (if_pos (mem_append_right l mem_cons_self)).symm
    · rw [prev_setNext, prev_setPrev_of_ne hx]
      simp only [flip, hmem hx]
  · by_cases hx : x = a
    · subst hx
      exact (next_setNext_self ..).trans (if_pos (mem_append_right l mem_cons_self)).symm
    · rw [next_setNext_of_ne hx, next_setPrev]
      simp only [flip, hmem hx]

lemma Chained.flip (hc : Chained h l) : Chained (h.flip l) l.reverse := by
  refine isChain_reverse.mpr (hc.imp_of_mem_imp fun a b ha hb hab => ?_)
  exact ⟨(flip_of_mem hb).2.trans hab.2, (flip_of_mem ha).1.trans hab.1⟩

/-! ## Surgery -/

lemma Chained.join_append (hA : Chained h A) (hB : Chained h B) (hnodup : (A ++ B).Nodup)
    (ha : a ∈ A.getLast?) (hb : b ∈ B.head?) : Chained (h.join a b) (A ++ B) := by
  obtain ⟨hnodupA, hnodupB, -⟩ := nodup_append.mp hnodup
  have hdisjoint := disjoint_of_nodup_append hnodup
  have haA : a ∈ A := mem_of_mem_getLast? ha
  have hbB : b ∈ B := mem_of_mem_head? hb
  refine chained_append.mpr ⟨?_, ?_, fun a' ha' b' hb' => ?_⟩
  · exact hA.join_of_notMem (notMem_dropLast_of_nodup hnodupA ha)
      fun hmem => hdisjoint (mem_of_mem_tail hmem) hbB
  · exact hB.join_of_notMem (fun hmem => hdisjoint haA (dropLast_subset B hmem))
      (notMem_tail_of_nodup hnodupB hb)
  · obtain rfl := Option.mem_unique ha ha'
    obtain rfl := Option.mem_unique hb hb'
    exact ⟨next_join_self .., prev_join_self ..⟩

lemma Chained.cut (hc : Chained h (A ++ (R ++ B))) (hnodup : (A ++ (R ++ B)).Nodup)
    (ha : a ∈ A.getLast?) (hb : b ∈ B.head?) :
    Chained (h.join a b) (A ++ B) ∧ Chained (h.join a b) R := by
  obtain ⟨hA, hRB, -⟩ := chained_append.mp hc
  obtain ⟨hR, hB, -⟩ := chained_append.mp hRB
  have hdisjointA := disjoint_of_nodup_append hnodup
  have hdisjointR := disjoint_of_nodup_append (nodup_append.mp hnodup).2.1
  have haA : a ∈ A := mem_of_mem_getLast? ha
  have hbB : b ∈ B := mem_of_mem_head? hb
  constructor
  · refine hA.join_append hB (hnodup.sublist ?_) ha hb
    exact (sublist_append_right R B).append_left A
  · exact hR.join_of_notMem
      (fun hmem => hdisjointA haA (mem_append_left B (dropLast_subset R hmem)))
      fun hmem => hdisjointR (mem_of_mem_tail hmem) hbB

lemma Chained.paste {first last : α} (hc : Chained h (A ++ B)) (hR : Chained h R)
    (hnodup : (A ++ (R ++ B)).Nodup) (ha : a ∈ A.getLast?) (hb : b ∈ B.head?)
    (hfirst : first ∈ R.head?) (hlast : last ∈ R.getLast?) :
    Chained ((h.join last b).join a first) (A ++ (R ++ B)) := by
  obtain ⟨hA, hB, -⟩ := chained_append.mp hc
  obtain ⟨-, hnodupRB, -⟩ := nodup_append.mp hnodup
  have hdisjoint := disjoint_of_nodup_append hnodup
  have hA' : Chained (h.join last b) A := by
    refine hA.join_of_notMem (fun hmem => ?_) fun hmem => ?_
    · exact hdisjoint (dropLast_subset A hmem)
        (mem_append_left B (mem_of_mem_getLast? hlast))
    · exact hdisjoint (mem_of_mem_tail hmem)
        (mem_append_right R (mem_of_mem_head? hb))
  exact hA'.join_append (hR.join_append hB hnodupRB hlast hb) hnodup ha
    (mem_head?_append_of_mem_head? hfirst)

end Links

end Machinery
