import Pintos.Machinery.Chain
import Pintos.Machinery.Stopping
import Mathlib.Data.List.Destutter

/-!
# Lib/KernelList — a doubly linked list is a sequence

A list has two nodes of its own, and its elements are chained between them:

    head <--> x₁ <--> x₂ <--> … <--> xₙ <--> tail

All functions of `list.c` cut a piece out of a chain or paste one into it, so that on
sequences they are what their names say.
-/

namespace Pintos

open Machinery List

/-- `struct list`, the addresses of its two nodes. -/
structure KernelList (α : Type) where
  head : α
  tail : α
  deriving DecidableEq

namespace KernelList

/-- Where a function does not come to its end. -/
inductive Fault
  | assertion | nullPointer | endless
  deriving DecidableEq

abbrev ListM (α : Type) := EStateM Fault (Links α)

section Functions

variable {α : Type}

/-- `is_head`. -/
def isHead (h : Links α) (elem : α) : Bool := (h.prev elem).isNone && (h.next elem).isSome

/-- `is_interior`. -/
def isInterior (h : Links α) (elem : α) : Bool := (h.prev elem).isSome && (h.next elem).isSome

/-- `is_tail`. -/
def isTail (h : Links α) (elem : α) : Bool := (h.prev elem).isSome && (h.next elem).isNone

/-- `elem->prev`. -/
def prevOf (elem : α) : ListM α (Option α) := do return (← get).prev elem

/-- `elem->next`. -/
def nextOf (elem : α) : ListM α (Option α) := do return (← get).next elem

/-- The node that a link leads to. -/
def deref : Option α → ListM α α
  | some elem => pure elem
  | none => throw .nullPointer

/-- `list_begin`. -/
def listBegin (list : KernelList α) : ListM α α := do deref (← nextOf list.head)

/-- `list_next`. -/
def listNext (elem : α) : ListM α α := do
  let h ← get
  require .assertion (isHead h elem || isInterior h elem)
  deref (h.next elem)

/-- `list_rbegin`. -/
def listRbegin (list : KernelList α) : ListM α α := do deref (← prevOf list.tail)

/-- `list_prev`. -/
def listPrev (elem : α) : ListM α α := do
  let h ← get
  require .assertion (isInterior h elem || isTail h elem)
  deref (h.prev elem)

variable [DecidableEq α]

/-- `list_empty`. -/
def listEmpty (list : KernelList α) : ListM α Bool := do return (← listBegin list) = list.tail

/-- `elem->prev = p`. -/
def putPrev (elem : α) (p : Option α) : ListM α Unit := modify fun h => h.setPrev elem p

/-- `elem->next = n`. -/
def putNext (elem : α) (n : Option α) : ListM α Unit := modify fun h => h.setNext elem n

/-- `first->prev->next = last->next`, and `last->next->prev = first->prev`. -/
def unlink (first last : α) : ListM α Unit := do
  putNext (← deref (← prevOf first)) (← nextOf last)
  putPrev (← deref (← nextOf last)) (← prevOf first)

/-- `first->prev = before->prev`, `last->next = before`, `before->prev->next = first`, and
`before->prev = last`. -/
def link (before first last : α) : ListM α Unit := do
  putPrev first (← prevOf before)
  putNext last (some before)
  putNext (← deref (← prevOf before)) (some first)
  putPrev before (some last)

/-- `list_insert`. -/
def listInsert (before elem : α) : ListM α Unit := do
  let h ← get
  require .assertion (isInterior h before || isTail h before)
  link before elem elem

/-- `list_splice` moves `first`, … up to `last`, which stays. -/
def listSplice (before first last : α) : ListM α Unit := do
  let h ← get
  require .assertion (isInterior h before || isTail h before)
  if first = last then return
  let last ← listPrev last
  require .assertion (isInterior h first)
  require .assertion (isInterior h last)
  unlink first last
  link before first last

/-- `list_push_back`. -/
def listPushBack (list : KernelList α) (elem : α) : ListM α Unit := listInsert list.tail elem

/-- `list_remove`; it returns the element behind. -/
def listRemove (elem : α) : ListM α α := do
  let h ← get
  require .assertion (isInterior h elem)
  unlink elem elem
  deref (← nextOf elem)

/-- `swap (&e->prev, &e->next)`. -/
def swapLinks (e : α) : ListM α Unit := do
  let t ← prevOf e
  putPrev e (← nextOf e)
  putNext e t

/-- The loop of `list_reverse`, for at most `turns` turns. -/
def reverseLoop (list : KernelList α) : ℕ → α → ListM α Unit
  | 0, _ => throw .endless
  | turns + 1, e => do
    if e = list.tail then return
    swapLinks e
    reverseLoop list turns (← deref (← prevOf e))

/-- `list_reverse`. -/
def listReverse (turns : ℕ) (list : KernelList α) : ListM α Unit := do
  if ← listEmpty list then return
  reverseLoop list turns (← listBegin list)
  -- `swap (&list->head.next, &list->tail.prev)`
  let t ← nextOf list.head
  putNext list.head (← prevOf list.tail)
  putPrev list.tail t
  -- `swap (&list->head.next->prev, &list->tail.prev->next)`
  let first ← deref (← nextOf list.head)
  let last ← deref (← prevOf list.tail)
  let t ← prevOf first
  putPrev first (← nextOf last)
  putNext last t

/-- `if (duplicates != NULL) list_push_back (duplicates, next)`. -/
def pushDuplicate : Option (KernelList α) → α → ListM α Unit
  | some duplicates, next => listPushBack duplicates next
  | none, _ => pure ()

variable (less : α → α → Bool)

def uniqueLoop (list : KernelList α) (duplicates : Option (KernelList α)) : ℕ → α → ListM α Unit
  | 0, _ => throw .endless
  | turns + 1, elem => do
    let next ← listNext elem
    if next = list.tail then return
    if !less elem next && !less next elem then
      let _ ← listRemove next
      pushDuplicate duplicates next
      uniqueLoop list duplicates turns elem
    else uniqueLoop list duplicates turns next

/-- `list_unique`. -/
def listUnique (turns : ℕ) (list : KernelList α) (duplicates : Option (KernelList α)) : ListM α Unit := do
  if ← listEmpty list then return
  uniqueLoop less list duplicates turns (← listBegin list)

/-! ## Going through a list -/

/-- `for (e = …; e != stop; e = step (e))`: the nodes on the way. -/
def walk (step : α → ListM α α) (stop : α) : ℕ → α → ListM α (List α)
  | 0, _ => throw .endless
  | turns + 1, e => do
    if e = stop then return []
    return e :: (← walk step stop turns (← step e))

/-- From `list_begin` by `list_next` to `list_end`. -/
def forwards (turns : ℕ) (list : KernelList α) : ListM α (List α) := do
  walk listNext list.tail turns (← listBegin list)

/-- From `list_rbegin` by `list_prev` to `list_rend`. -/
def backwards (turns : ℕ) (list : KernelList α) : ListM α (List α) := do
  walk listPrev list.head turns (← listRbegin list)

end Functions

/-! ## Sequences -/

open Links

section Sequences

variable {α : Type} {h h' : Links α} {list : KernelList α} {xs l₁ l₂ r : List α} {x : α}

/-- The nodes of a list that has the elements `xs`. -/
def nodes (list : KernelList α) (xs : List α) : List α := list.head :: (xs ++ [list.tail])

/-- The node at which the rest of a list begins. -/
def start (list : KernelList α) (l₂ : List α) : α := l₂.headD list.tail

/-- The node at which the front of a list ends. -/
def stop (list : KernelList α) (l₁ : List α) : α := l₁.getLastD list.head

/-- A well-formed list, with the elements `xs`. -/
structure WellFormed (h : Links α) (list : KernelList α) (xs : List α) : Prop where
  chained : h.Chained (list.nodes xs)
  nodup : (list.nodes xs).Nodup
  head_prev : h.prev list.head = none
  tail_next : h.next list.tail = none

@[simp] lemma start_nil : list.start [] = list.tail := rfl

@[simp] lemma start_cons : list.start (x :: l₂) = x := rfl

@[simp] lemma stop_nil : list.stop [] = list.head := rfl

@[simp] lemma stop_concat : list.stop (l₁ ++ [x]) = x := getLastD_concat ..

lemma nodes_append : list.nodes (l₁ ++ l₂) = (list.head :: l₁) ++ (l₂ ++ [list.tail]) := by
  rw [nodes, append_assoc, cons_append]

lemma mem_nodes : x ∈ list.nodes xs ↔ x = list.head ∨ x ∈ xs ∨ x = list.tail := by
  rw [nodes, mem_cons, mem_append, mem_singleton]

lemma stop_mem : list.stop l₁ ∈ (list.head :: l₁).getLast? := by
  rw [stop, getLast?_cons, getLastD_eq_getLast?]
  rfl

lemma start_mem : list.start l₂ ∈ (l₂ ++ [list.tail]).head? := by
  cases l₂ <;> rfl

lemma start_mem_self (hr : r ≠ []) : list.start r ∈ r := by
  cases r with
  | nil => exact absurd rfl hr
  | cons x r => exact mem_cons_self

lemma start_mem_or : list.start l₂ ∈ l₂ ∨ list.start l₂ = list.tail := by
  cases l₂ with
  | nil => exact .inr rfl
  | cons x l₂ => exact .inl mem_cons_self

lemma start_append_mem (list : KernelList α) (l₂ : List α) (hr : r ≠ []) :
    list.start (r ++ l₂) ∈ r.head? := by
  cases r with
  | nil => exact absurd rfl hr
  | cons x r => rfl

lemma stop_append_mem (list : KernelList α) (l₁ : List α) (hr : r ≠ []) :
    list.stop (l₁ ++ r) ∈ r.getLast? := by
  obtain ⟨r, x, rfl⟩ := (eq_nil_or_concat' r).resolve_left hr
  rw [← append_assoc, stop_concat, getLast?_concat]
  rfl

lemma isInterior_or_isTail (h : Links α) (x : α) :
    (isInterior h x || isTail h x) = (h.prev x).isSome := by
  rw [isInterior, isTail]
  cases h.prev x <;> cases h.next x <;> rfl

lemma isHead_or_isInterior (h : Links α) (x : α) :
    (isHead h x || isInterior h x) = (h.next x).isSome := by
  rw [isHead, isInterior]
  cases h.prev x <;> cases h.next x <;> rfl

lemma WellFormed.joined (hw : WellFormed h list (l₁ ++ l₂)) :
    h.next (list.stop l₁) = some (list.start l₂) ∧ h.prev (list.start l₂) = some (list.stop l₁) := by
  have hc := hw.chained
  rw [nodes_append] at hc
  exact (chained_append.mp hc).2.2 _ stop_mem _ start_mem

lemma WellFormed.further (hw : WellFormed h list (l₁ ++ x :: l₂)) :
    WellFormed h list (l₁ ++ [x] ++ l₂) := by
  rwa [append_assoc]

lemma WellFormed.links (hw : WellFormed h list (l₁ ++ x :: l₂)) :
    h.prev x = some (list.stop l₁) ∧ h.next x = some (list.start l₂) := by
  obtain ⟨hnext, -⟩ := hw.further.joined
  rw [stop_concat] at hnext
  exact ⟨hw.joined.2, hnext⟩

section

variable (hw : WellFormed h list xs)

include hw

lemma WellFormed.isInterior (hx : x ∈ xs) : KernelList.isInterior h x = true := by
  obtain ⟨l₁, l₂, rfl⟩ := append_of_mem hx
  obtain ⟨hprev, hnext⟩ := hw.links
  rw [KernelList.isInterior, hprev, hnext]
  rfl

lemma WellFormed.prev_isSome (hx : x ∈ xs ∨ x = list.tail) : (h.prev x).isSome := by
  obtain hx | rfl := hx
  · exact (Bool.and_eq_true_iff.mp (hw.isInterior hx)).1
  · have hw' : WellFormed h list (xs ++ []) := by rwa [append_nil]
    exact Option.isSome_of_eq_some hw'.joined.2

lemma WellFormed.congr (hsame : ∀ x ∈ list.nodes xs, h.SameAt h' x) : WellFormed h' list xs where
  chained := hw.chained.of_sameAt hsame
  nodup := hw.nodup
  head_prev := (hsame _ (mem_nodes.mpr (.inl rfl))).1.trans hw.head_prev
  tail_next := (hsame _ (mem_nodes.mpr (.inr (.inr rfl)))).2.trans hw.tail_next

end

lemma WellFormed.disjoint (hw : WellFormed h list (l₁ ++ (r ++ l₂))) :
    (list.head :: l₁).Disjoint r ∧ r.Disjoint (l₂ ++ [list.tail]) ∧
      (list.head :: l₁).Disjoint (l₂ ++ [list.tail]) := by
  have hnodup := hw.nodup
  rw [nodes_append, append_assoc] at hnodup
  have hdisjoint := disjoint_of_nodup_append hnodup
  have hrest := disjoint_of_nodup_append (nodup_append.mp hnodup).2.1
  exact ⟨fun _ hx hx' => hdisjoint hx (mem_append_left _ hx'), hrest,
    fun _ hx hx' => hdisjoint hx (mem_append_right _ hx')⟩

lemma WellFormed.ne_start (hw : WellFormed h list (l₁ ++ x :: (r ++ l₂))) : x ≠ list.start l₂ := by
  obtain ⟨-, hdisjoint, -⟩ := WellFormed.disjoint (r := x :: r) hw
  exact fun heq => hdisjoint mem_cons_self (heq ▸ mem_of_mem_head? start_mem)

lemma WellFormed.notMem (hw : WellFormed h list xs) :
    list.head ∉ xs ∧ list.tail ∉ xs ∧ list.head ≠ list.tail := by
  have hnodup := hw.nodup
  rw [nodes, nodup_cons, mem_append, not_or, mem_singleton] at hnodup
  obtain ⟨⟨hhead, hne⟩, hrest⟩ := hnodup
  exact ⟨hhead, fun hmem => disjoint_of_nodup_append hrest hmem mem_cons_self, hne⟩

lemma WellFormed.start_ne_tail (hw : WellFormed h list (l₁ ++ x :: l₂)) : x ≠ list.tail :=
  ne_of_mem_of_not_mem (mem_append_right l₁ mem_cons_self) hw.notMem.2.1

lemma WellFormed.stop_ne_head (hw : WellFormed h list (l₁ ++ x :: l₂)) : x ≠ list.head :=
  ne_of_mem_of_not_mem (mem_append_right l₁ mem_cons_self) hw.notMem.1

variable [DecidableEq α]

/-- A range is cut out of a list. -/
lemma WellFormed.cut (hw : WellFormed h list (l₁ ++ (r ++ l₂))) :
    WellFormed (h.join (list.stop l₁) (list.start l₂)) list (l₁ ++ l₂) ∧
      (h.join (list.stop l₁) (list.start l₂)).Chained r := by
  obtain ⟨-, -, hdisjoint⟩ := hw.disjoint
  have hc := hw.chained
  have hnodup := hw.nodup
  rw [nodes_append, append_assoc] at hc hnodup
  obtain ⟨hcut, hpiece⟩ := hc.cut hnodup stop_mem start_mem
  refine ⟨⟨?_, ?_, ?_, ?_⟩, hpiece⟩
  · rwa [nodes_append]
  · rw [nodes_append]
    exact hnodup.sublist ((sublist_append_right r _).append_left _)
  · refine (prev_join_of_ne ?_).trans hw.head_prev
    exact fun heq => hdisjoint mem_cons_self (heq ▸ mem_of_mem_head? start_mem)
  · refine (next_join_of_ne ?_).trans hw.tail_next
    exact fun heq => hdisjoint (heq ▸ mem_of_mem_getLast? stop_mem)
      (mem_append_right l₂ mem_cons_self)

lemma WellFormed.paste (hw : WellFormed h list (l₁ ++ l₂)) (hr : h.Chained r)
    (hnodup : (list.nodes (l₁ ++ (r ++ l₂))).Nodup) {first last : α} (hfirst : first ∈ r.head?)
    (hlast : last ∈ r.getLast?) :
    WellFormed ((h.join last (list.start l₂)).join (list.stop l₁) first) list (l₁ ++ (r ++ l₂)) := by
  have hc := hw.chained
  have hwhole := hnodup
  rw [nodes_append] at hc
  rw [nodes_append, append_assoc] at hnodup
  have hdisjoint := disjoint_of_nodup_append hnodup
  have hrest := disjoint_of_nodup_append (nodup_append.mp hnodup).2.1
  have hfirst' : first ∈ r := mem_of_mem_head? hfirst
  have hlast' : last ∈ r := mem_of_mem_getLast? hlast
  have htail : list.tail ∈ l₂ ++ [list.tail] := mem_append_right l₂ mem_cons_self
  refine ⟨?_, hwhole, ?_, ?_⟩
  · rw [nodes_append, append_assoc]
    exact hc.paste hr hnodup stop_mem start_mem hfirst hlast
  · rw [prev_join_of_ne, prev_join_of_ne, hw.head_prev]
    · exact fun heq => hdisjoint mem_cons_self
        (mem_append_right r (heq ▸ mem_of_mem_head? start_mem))
    · exact fun heq => hdisjoint mem_cons_self (mem_append_left _ (heq ▸ hfirst'))
  · rw [next_join_of_ne, next_join_of_ne, hw.tail_next]
    · exact fun heq => hrest hlast' (heq ▸ htail)
    · exact fun heq => hdisjoint (heq ▸ mem_of_mem_getLast? stop_mem)
        (mem_append_right r htail)

end Sequences

/-! ## The functions on a list -/

section

variable {α : Type} {h : Links α} {list : KernelList α} {l₁ l₂ r : List α}
  {x p n before first last elem : α}

variable {Q : Option α → Links α → Prop} {R : α → Links α → Prop}

@[simp] lemma does_prevOf : Does (prevOf x) h Q ↔ Q (h.prev x) h := by
  simp only [prevOf, does_bind, does_get, does_pure]

@[simp] lemma does_nextOf : Does (nextOf x) h Q ↔ Q (h.next x) h := by
  simp only [nextOf, does_bind, does_get, does_pure]

@[simp] lemma does_deref : Does (deref (some x)) h R ↔ R x h := does_pure x

lemma does_listNext (hn : h.next x = some n) : Does (listNext x) h R ↔ R n h := by
  simp only [listNext, does_bind, does_get, does_require, isHead_or_isInterior, hn, does_deref]
  exact and_iff_right rfl

lemma does_listPrev (hp : h.prev x = some p) : Does (listPrev x) h R ↔ R p h := by
  simp only [listPrev, does_bind, does_get, does_require, isInterior_or_isTail, hp, does_deref]
  exact and_iff_right rfl

variable {xs : List α}

lemma WellFormed.does_listBegin (hw : WellFormed h list xs) :
    Does (listBegin list) h R ↔ R (list.start xs) h := by
  have hw' : WellFormed h list ([] ++ xs) := hw
  have hnext : h.next list.head = some (list.start xs) := hw'.joined.1
  rw [listBegin, does_bind, does_nextOf, hnext, does_deref]

lemma WellFormed.does_listRbegin (hw : WellFormed h list xs) :
    Does (listRbegin list) h R ↔ R (list.stop xs) h := by
  have hw' : WellFormed h list (xs ++ []) := by rwa [append_nil]
  have hprev : h.prev list.tail = some (list.stop xs) := hw'.joined.2
  rw [listRbegin, does_bind, does_prevOf, hprev, does_deref]

variable [DecidableEq α] {Q : Unit → Links α → Prop}

@[simp] lemma does_putPrev {q : Option α} : Does (putPrev x q) h Q ↔ Q () (h.setPrev x q) :=
  does_modify _

@[simp] lemma does_putNext {q : Option α} : Does (putNext x q) h Q ↔ Q () (h.setNext x q) :=
  does_modify _

lemma does_unlink (hp : h.prev first = some p) (hn : h.next last = some n) (hne : last ≠ p) :
    Does (unlink first last) h Q ↔ Q () (h.join p n) := by
  simp only [unlink, does_bind, does_prevOf, hp, does_deref, does_nextOf, hn, does_putNext,
    next_setNext_of_ne hne, prev_setNext, does_putPrev]
  rfl

lemma does_link (hp : h.prev before = some p) (hne : before ≠ first) :
    Does (link before first last) h Q ↔ Q () ((h.join last before).join p first) := by
  simp only [link, does_bind, does_prevOf, hp, does_putPrev, does_putNext, prev_setNext,
    prev_setPrev_of_ne hne, does_deref]
  have hcomm := setPrev_comm ((h.setNext last (some before)).setNext p (some first)) hne.symm
    (some p) (some last)
  exact iff_of_eq (congrArg (Q ()) hcomm)

lemma WellFormed.does_listInsert (hw : WellFormed h list (l₁ ++ l₂)) (hne : list.start l₂ ≠ elem) :
    Does (listInsert (list.start l₂) elem) h Q ↔
      Q () ((h.join elem (list.start l₂)).join (list.stop l₁) elem) := by
  obtain ⟨-, hprev⟩ := hw.joined
  simp only [listInsert, does_bind, does_get, does_require, isInterior_or_isTail, hprev,
    does_link hprev hne]
  exact and_iff_right rfl

lemma WellFormed.does_listRemove (hw : WellFormed h list (l₁ ++ elem :: l₂)) :
    Does (listRemove elem) h R ↔ R (list.start l₂) (h.join (list.stop l₁) (list.start l₂)) := by
  obtain ⟨hdisjoint, -, -⟩ := WellFormed.disjoint (r := [elem]) hw
  obtain ⟨hprev, hnext⟩ := hw.links
  have hne : elem ≠ list.stop l₁ := fun heq =>
    hdisjoint (mem_of_mem_getLast? stop_mem) (heq ▸ mem_cons_self)
  simp only [listRemove, does_bind, does_get, does_require, does_nextOf]
  rw [and_iff_right (hw.isInterior (mem_append_right l₁ mem_cons_self)),
    does_unlink hprev hnext hne, next_join_of_ne hne, hnext, does_deref]

lemma WellFormed.does_listSplice (hw : WellFormed h list (l₁ ++ (r ++ l₂))) (hr : r ≠ [])
    {q : α} (hbefore : (h.prev before).isSome)
    (hq : (h.join (list.stop l₁) (list.start l₂)).prev before = some q) (hnot : before ∉ r) :
    Does (listSplice before (list.start (r ++ l₂)) (list.start l₂)) h Q ↔
      Q () (((h.join (list.stop l₁) (list.start l₂)).join (list.stop (l₁ ++ r)) before).join q
        (list.start (r ++ l₂))) := by
  obtain ⟨hleft, hright, -⟩ := hw.disjoint
  have hw' : WellFormed h list (l₁ ++ r ++ l₂) := by rwa [append_assoc]
  have hfirst : list.start (r ++ l₂) ∈ r := mem_of_mem_head? (start_append_mem list l₂ hr)
  have hlast : list.stop (l₁ ++ r) ∈ r := mem_of_mem_getLast? (stop_append_mem list l₁ hr)
  have hstop : list.stop l₁ ∈ list.head :: l₁ := mem_of_mem_getLast? stop_mem
  have hstart : list.start l₂ ∈ l₂ ++ [list.tail] := mem_of_mem_head? start_mem
  have hne : list.start (r ++ l₂) ≠ list.start l₂ := fun heq => hright hfirst (heq ▸ hstart)
  have hne' : list.stop (l₁ ++ r) ≠ list.stop l₁ := fun heq => hleft hstop (heq ▸ hlast)
  have hinterior {x : α} (hx : x ∈ r) : KernelList.isInterior h x = true :=
    hw.isInterior (mem_append_right l₁ (mem_append_left l₂ hx))
  obtain ⟨-, hprev⟩ := hw.joined
  obtain ⟨hnext, hprev'⟩ := hw'.joined
  simp only [listSplice, does_bind, does_get, does_require, isInterior_or_isTail]
  rw [and_iff_right hbefore, if_neg hne]
  simp only [does_bind, does_require]
  rw [does_listPrev hprev', and_iff_right (hinterior hfirst), and_iff_right (hinterior hlast),
    does_unlink hprev hnext hne', does_link hq fun heq => hnot (heq ▸ hfirst)]

/-! ## Going through a list -/

variable {turns : ℕ}

lemma WellFormed.does_walk_next (hw : WellFormed h list (l₁ ++ l₂)) (hturns : l₂.length < turns)
    {Q : List α → Links α → Prop} :
    Does (walk listNext list.tail turns (list.start l₂)) h Q ↔ Q l₂ h := by
  induction l₂ generalizing l₁ turns Q with
  | nil =>
    obtain ⟨turns, rfl⟩ := succ_of_lt hturns
    rw [walk, start_nil, if_pos rfl, does_pure]
  | cons x l₂ ih =>
    obtain ⟨turns, rfl⟩ := succ_of_lt hturns
    rw [walk, start_cons, if_neg hw.start_ne_tail, does_bind, does_listNext hw.links.2, does_bind,
      ih hw.further (Nat.lt_of_succ_lt_succ hturns), does_pure]

lemma WellFormed.does_walk_prev (hw : WellFormed h list (l₁ ++ l₂)) (hturns : l₁.length < turns)
    {Q : List α → Links α → Prop} :
    Does (walk listPrev list.head turns (list.stop l₁)) h Q ↔ Q l₁.reverse h := by
  induction l₁ using List.reverseRecOn generalizing l₂ turns Q with
  | nil =>
    obtain ⟨turns, rfl⟩ := succ_of_lt hturns
    rw [walk, stop_nil, if_pos rfl, does_pure, reverse_nil]
  | append_singleton l₁ x ih =>
    obtain ⟨turns, rfl⟩ := succ_of_lt hturns
    have hw' : WellFormed h list (l₁ ++ x :: l₂) := by rwa [append_assoc] at hw
    rw [length_append] at hturns
    rw [walk, stop_concat, if_neg hw'.stop_ne_head, does_bind, does_listPrev hw'.links.1, does_bind,
      ih hw' (Nat.lt_of_succ_lt_succ hturns), does_pure, reverse_concat]

/-- Both ways one finds the elements, in one order and in the other. -/
lemma WellFormed.does_traverse (hw : WellFormed h list xs) (hturns : xs.length < turns) :
    (Does (forwards turns list) h fun l h' => l = xs ∧ h' = h) ∧
      Does (backwards turns list) h fun l h' => l = xs.reverse ∧ h' = h := by
  have hw₁ : WellFormed h list ([] ++ xs) := hw
  have hw' : WellFormed h list (xs ++ []) := by rwa [append_nil]
  constructor
  · rw [forwards, does_bind, hw.does_listBegin, hw₁.does_walk_next hturns]
    exact ⟨rfl, rfl⟩
  · rw [backwards, does_bind, hw.does_listRbegin, hw'.does_walk_prev hturns]
    exact ⟨rfl, rfl⟩

lemma WellFormed.does_listEmpty (hw : WellFormed h list xs) {Q : Bool → Links α → Prop} :
    Does (listEmpty list) h Q ↔ Q xs.isEmpty h := by
  rw [listEmpty, does_bind, hw.does_listBegin, does_pure]
  cases xs with
  | nil => rw [start_nil, decide_eq_true rfl, isEmpty_nil]
  | cons x xs =>
    have hw' : WellFormed h list ([] ++ x :: xs) := hw
    rw [start_cons, decide_eq_false hw'.start_ne_tail, isEmpty_cons]

/-! ## Reversal -/

lemma does_swapLinks : Does (swapLinks x) h Q ↔ Q () ((h.setPrev x (h.next x)).setNext x (h.prev x)) := by
  simp only [swapLinks, does_bind, does_prevOf, does_nextOf, does_putPrev, does_putNext]

lemma WellFormed.does_reverseLoop (hw : WellFormed h list (l₁ ++ l₂))
    (hturns : l₂.length < turns) :
    Does (reverseLoop list turns (list.start l₂)) (h.flip l₁) Q ↔ Q () (h.flip (l₁ ++ l₂)) := by
  induction l₂ generalizing l₁ turns with
  | nil =>
    obtain ⟨turns, rfl⟩ := succ_of_lt hturns
    rw [reverseLoop, start_nil, if_pos rfl, does_pure, append_nil]
  | cons x l₂ ih =>
    obtain ⟨turns, rfl⟩ := succ_of_lt hturns
    obtain ⟨hdisjoint, -, -⟩ := WellFormed.disjoint (r := [x]) hw
    have hx : x ∉ l₁ := fun hmem => hdisjoint (mem_cons_of_mem _ hmem) mem_cons_self
    obtain ⟨hprev, hnext⟩ := sameAt_flip hx
    rw [reverseLoop, start_cons, if_neg hw.start_ne_tail, does_bind, does_swapLinks, hprev, hnext,
      flip_concat hx, does_bind, does_prevOf]
    rw [(flip_of_mem (mem_append_right l₁ mem_cons_self)).1, hw.links.2, does_bind,
      does_deref, ih hw.further (Nat.lt_of_succ_lt_succ hturns), append_assoc]
    rfl

lemma WellFormed.flip (hw : WellFormed h list xs) (hxs : xs ≠ []) :
    WellFormed (((h.flip xs).join list.head (list.stop xs)).join (list.start xs) list.tail) list
      xs.reverse := by
  obtain ⟨hhead, htail, hne⟩ := hw.notMem
  have hchain : h.Chained xs := by
    have hc := hw.chained
    exact (chained_append.mp hc.tail).1
  have hnodup : (list.nodes xs.reverse).Nodup := by
    refine List.Perm.nodup_iff ?_ |>.mpr hw.nodup
    exact ((reverse_perm xs).append_right _).cons _
  have hfirst : list.stop xs ∈ xs.reverse.head? := by
    rw [head?_reverse]
    exact stop_append_mem list [] hxs
  have hlast : list.start xs ∈ ([list.head] ++ xs.reverse).getLast? := by
    refine mem_getLast?_append_of_mem_getLast? ?_
    rw [getLast?_reverse]
    have hmem := start_append_mem list [] hxs
    rwa [append_nil] at hmem
  have hnodup' := hnodup
  have hleft := (chained_singleton _ _).join_append hchain.flip (nodup_append.mp hnodup').1 rfl hfirst
  refine ⟨hleft.join_append (chained_singleton _ _) hnodup' hlast rfl, hnodup, ?_, ?_⟩
  · rw [prev_join_of_ne hne, prev_join_of_ne, (sameAt_flip hhead).1, hw.head_prev]
    exact fun heq => hhead (heq ▸ mem_of_mem_getLast? (stop_append_mem list [] hxs))
  · rw [next_join_of_ne, next_join_of_ne hne.symm, (sameAt_flip htail).2,
      hw.tail_next]
    exact fun heq => htail (heq ▸ start_mem_self hxs)

lemma WellFormed.does_listReverse (hw : WellFormed h list xs) (hxs : xs ≠ [])
    (hturns : xs.length < turns) : Does (listReverse turns list) h Q ↔
      Q () (((h.flip xs).join list.head (list.stop xs)).join (list.start xs) list.tail) := by
  obtain ⟨hhead, htail, -⟩ := hw.notMem
  have hw₁ : WellFormed h list ([] ++ xs) := hw
  have hw₂ : WellFormed h list (xs ++ []) := by rwa [append_nil]
  have hfirst : list.start xs ∈ xs := start_mem_self hxs
  have hlast : list.stop xs ∈ xs := mem_of_mem_getLast? (stop_append_mem list [] hxs)
  have hnext := (sameAt_flip hhead).2.trans hw₁.joined.1
  have hprev := (sameAt_flip htail).1.trans hw₂.joined.2
  have hnext' := (flip_of_mem hlast).1.trans hw₂.joined.1
  have hprev' := (flip_of_mem hfirst).2.trans hw₁.joined.2
  have hcomm := setPrev_comm (((h.flip xs).setNext list.head (some (list.stop xs))).setNext
    (list.start xs) (some list.tail)) (ne_of_mem_of_not_mem hlast htail).symm (some (list.start xs))
    (some list.head)
  rw [listReverse, does_bind, hw.does_listEmpty, isEmpty_eq_false_iff.mpr hxs,
    if_neg Bool.false_ne_true, does_bind, hw.does_listBegin, does_bind]
  conv_lhs => rw [← flip_nil h]
  rw [hw₁.does_reverseLoop hturns]
  simp only [does_bind, does_nextOf, does_prevOf, nil_append, hnext, hprev, does_putNext,
    prev_setNext, does_putPrev, next_setPrev, next_setNext_self, does_deref,
    prev_setPrev_self, prev_setPrev_of_ne (ne_of_mem_of_not_mem hlast htail), hnext',
    next_setNext_of_ne (ne_of_mem_of_not_mem hfirst hhead), hprev']
  exact iff_of_eq (congrArg (Q ()) hcomm)

end

end KernelList

end Pintos
