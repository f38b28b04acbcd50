import Pintos.Lib.Hash
import Pintos.Lib.ListFamily
import Pintos.Machinery.StableSort

/-!
# Lib/ListSort — sorting a list in place

`list_sort` goes over the list again and again, merging runs in pairs, until there is one run. That
is a pass of the natural merge sort, and so it ends with the list that `list_insert_ordered`
makes, one element after the other.
-/

namespace Pintos.KernelList

open Machinery Function List WellFormed Nat

section Functions

variable {α : Type} [DecidableEq α] (less : α → α → Bool)

def isSortedLoop (b : α) : ℕ → α → ListM α Bool
  | 0, _ => throw .endless
  | turns + 1, a => do
    let a ← listNext a
    if a = b then return true
    if less a (← listPrev a) then return false
    isSortedLoop b turns a

/-- `is_sorted`, from `a` up to `b`. -/
def isSorted (turns : ℕ) (a b : α) : ListM α Bool := do
  if a = b then return true
  isSortedLoop less b turns a

def findEndLoop (b : α) : ℕ → α → ListM α α
  | 0, _ => throw .endless
  | turns + 1, a => do
    let a ← listNext a
    if a = b then return a
    if less a (← listPrev a) then return a
    findEndLoop b turns a

/-- `find_end_of_run`. -/
def findEndOfRun (turns : ℕ) (a b : α) : ListM α α := do
  require .assertion (a ≠ b)
  findEndLoop less b turns a

def mergeLoop (b1 : α) : ℕ → α → α → ListM α Unit
  | 0, _, _ => throw .endless
  | turns + 1, a0, a1b0 => do
    if a0 = a1b0 ∨ a1b0 = b1 then return
    if !less a1b0 a0 then mergeLoop b1 turns (← listNext a0) a1b0
    else
      let a1b0 ← listNext a1b0
      listSplice a0 (← listPrev a1b0) a1b0
      mergeLoop b1 turns a0 a1b0

/-- `inplace_merge` of two runs one behind the other. -/
def inplaceMerge (turns : ℕ) (a0 a1b0 b1 : α) : ListM α Unit := do
  require .assertion (← isSorted less turns a0 a1b0)
  require .assertion (← isSorted less turns a1b0 b1)
  mergeLoop less b1 turns a0 a1b0

/-- A pass of `list_sort` from `a0` on, with `output_run_cnt`; its loops have `inner` turns. -/
def passLoop (inner : ℕ) (list : KernelList α) : ℕ → α → ℕ → ListM α ℕ
  | 0, _, _ => throw .endless
  | turns + 1, a0, outputRunCnt => do
    if a0 = list.tail then return outputRunCnt
    let a1b0 ← findEndOfRun less inner a0 list.tail
    if a1b0 = list.tail then return outputRunCnt + 1
    let b1 ← findEndOfRun less inner a1b0 list.tail
    inplaceMerge less inner a0 a1b0 b1
    passLoop inner list turns b1 (outputRunCnt + 1)

def sortLoop (inner : ℕ) (list : KernelList α) : ℕ → ListM α Unit
  | 0 => throw .endless
  | turns + 1 => do
    let outputRunCnt ← passLoop less inner list inner (← listBegin list) 0
    if outputRunCnt > 1 then sortLoop inner list turns

/-- `list_sort`. -/
def listSort (turns : ℕ) (list : KernelList α) : ListM α Unit := do
  sortLoop less turns list turns
  require .assertion (← isSorted less turns (← listBegin list) list.tail)

def insertLoop (list : KernelList α) (elem : α) : ℕ → α → ListM α α
  | 0, _ => throw .endless
  | turns + 1, e => do
    if e = list.tail then return e
    if less elem e then return e
    insertLoop list elem turns (← listNext e)

/-- `list_insert_ordered`. -/
def listInsertOrdered (turns : ℕ) (list : KernelList α) (elem : α) : ListM α Unit := do
  listInsert (← insertLoop less list elem turns (← listBegin list)) elem

/-- Elements are inserted one by one. -/
def insertAll (turns : ℕ) (list : KernelList α) : List α → ListM α Unit
  | [] => return
  | elem :: elems => do
    listInsertOrdered less turns list elem
    insertAll turns list elems

end Functions

/-! ## The order -/

/-- `a` may stand before `b`. -/
def inOrder {α : Type} (less : α → α → Bool) (a b : α) : Bool := !less b a

section

variable {α : Type} {less : α → α → Bool}

lemma inOrder_iff {a b : α} : inOrder less a b = true ↔ less b a = false :=
  iff_of_eq (Bool.not_eq_true' _)

lemma inOrder_eq_false {a b : α} : inOrder less a b = false ↔ less b a = true :=
  iff_of_eq (Bool.not_eq_false' _)

lemma weakOrder_inOrder (hless : Hash.StrictWeak less) : WeakOrder (inOrder less) := by
  constructor
  · intro a b c hab hbc
    rw [inOrder_iff] at hab hbc ⊢
    rw [← Bool.not_eq_true]
    intro hca
    -- neither `a` below `b` nor `b` below `c`: they would all have the same key
    have hab' : less a b = false := by
      rw [← Bool.not_eq_true]
      intro hlt
      exact Bool.false_ne_true (hbc.symm.trans (hless.trans c a b hca hlt))
    have hbc' : less b c = false := by
      rw [← Bool.not_eq_true]
      intro hlt
      exact Bool.false_ne_true (hab.symm.trans (hless.trans b c a hlt hca))
    have hac := hless.same a b c ⟨hab', hab⟩ ⟨hbc', hbc⟩
    exact Bool.false_ne_true (hac.2.symm.trans hca)
  · intro a b
    rw [Bool.or_eq_true_iff, inOrder_iff, inOrder_iff]
    by_contra hnot
    rw [not_or, Bool.not_eq_false, Bool.not_eq_false] at hnot
    exact Bool.false_ne_true ((hless.irrefl a).symm.trans (hless.trans a b a hnot.2 hnot.1))

end

/-! ## Runs in a list -/

section

variable {α : Type} [DecidableEq α] {less : α → α → Bool} {h : Links α} {list : KernelList α}
  {l₁ l₂ r xs ys : List α} {a elem : α} {turns : ℕ}

lemma WellFormed.does_findEndLoop (hw : WellFormed h list (l₁ ++ a :: l₂)) (hturns : l₂.length < turns)
    {Q : α → Links α → Prop} :
    Does (findEndLoop less list.tail turns a) h Q ↔
      Q (list.start (takeRun (inOrder less) a l₂).2) h := by
  induction l₂ generalizing l₁ a turns with
  | nil =>
    obtain ⟨turns, rfl⟩ := succ_of_lt hturns
    rw [findEndLoop, does_bind, does_listNext hw.links.2, start_nil, if_pos rfl, does_pure, takeRun,
      start_nil]
  | cons b l₂ ih =>
    obtain ⟨turns, rfl⟩ := succ_of_lt hturns
    have hw' := hw.further
    have hprev : h.prev b = some a := by rw [hw'.links.1, stop_concat]
    rw [findEndLoop, does_bind, does_listNext hw.links.2, start_cons, if_neg hw'.start_ne_tail,
      does_bind, does_listPrev hprev, takeRun]
    by_cases hlt : less b a = true
    · rw [if_pos hlt, does_pure, if_neg (by rw [inOrder_eq_false.mpr hlt]; exact Bool.false_ne_true),
        start_cons]
    · rw [if_neg hlt, if_pos (inOrder_iff.mpr ((Bool.not_eq_true _).mp hlt)),
        ih hw' (lt_of_succ_lt_succ hturns)]

variable {Q : Bool → Links α → Prop}

lemma WellFormed.does_isSortedLoop (hw : WellFormed h list (l₁ ++ a :: (r ++ l₂)))
    (hsorted : (a :: r).IsChain (inOrder less · ·)) (hturns : r.length < turns) :
    Does (isSortedLoop less (list.start l₂) turns a) h Q ↔ Q true h := by
  induction r generalizing l₁ a turns with
  | nil =>
    obtain ⟨turns, rfl⟩ := succ_of_lt hturns
    rw [isSortedLoop, does_bind, does_listNext hw.links.2, nil_append, if_pos rfl, does_pure]
  | cons b r ih =>
    obtain ⟨turns, rfl⟩ := succ_of_lt hturns
    obtain ⟨hab, hchain⟩ := isChain_cons_cons.mp hsorted
    have hw' := hw.further
    have hprev : h.prev b = some a := by rw [hw'.links.1, stop_concat]
    rw [isSortedLoop, does_bind, does_listNext hw.links.2, cons_append, start_cons,
      if_neg hw'.ne_start,
      does_bind, does_listPrev hprev, inOrder_iff.mp hab, if_neg Bool.false_ne_true,
      ih hw' hchain (lt_of_succ_lt_succ hturns)]

lemma WellFormed.does_isSorted (hw : WellFormed h list (l₁ ++ (r ++ l₂)))
    (hsorted : r.IsChain (inOrder less · ·)) (hturns : r.length ≤ turns) :
    Does (isSorted less turns (list.start (r ++ l₂)) (list.start l₂)) h Q ↔ Q true h := by
  cases r with
  | nil => rw [isSorted, nil_append, if_pos rfl, does_pure]
  | cons a r =>
    rw [isSorted, cons_append, start_cons, if_neg (ne_start hw),
      hw.does_isSortedLoop hsorted hturns]

lemma WellFormed.does_isSorted_all (hw : WellFormed h list xs)
    (hsorted : xs.IsChain (inOrder less · ·)) (hturns : xs.length ≤ turns) :
    Does (isSorted less turns (list.start xs) list.tail) h Q ↔ Q true h := by
  have hw' : WellFormed h list ([] ++ (xs ++ [])) := by rwa [append_nil]
  have hall := hw'.does_isSorted hsorted hturns (Q := Q)
  rwa [append_nil] at hall

/-! ## Merging -/

omit [DecidableEq α] in
lemma WellFormed.family (hw : WellFormed h list xs) : Family h (fun _ : Unit => list) fun _ => xs :=
  ⟨fun _ => hw, fun _ _ hij => absurd rfl hij⟩

lemma WellFormed.does_move (hw : WellFormed h list (l₁ ++ (xs ++ (r ++ l₂)))) :
    Does (listSplice (list.start (xs ++ l₂)) (list.start (r ++ l₂)) (list.start l₂)) h fun _ h' =>
      WellFormed h' list (l₁ ++ (r ++ (xs ++ l₂))) := by
  have hrange : l₁ ++ (xs ++ (r ++ l₂)) = (l₁ ++ xs) ++ (r ++ l₂) := (append_assoc ..).symm
  have hbefore : update (fun _ : Unit => l₁ ++ (xs ++ (r ++ l₂))) () ((l₁ ++ xs) ++ l₂) () =
      l₁ ++ (xs ++ l₂) := by
    rw [update_self, append_assoc]
  refine (hw.family.does_listSplice hrange hbefore).mono ?_
  rintro - h' ⟨hf', -⟩
  have hw' := hf'.wellFormed ()
  rwa [update_self] at hw'

lemma WellFormed.does_mergeLoop (hw : WellFormed h list (l₁ ++ (xs ++ (ys ++ l₂))))
    (hturns : xs.length + ys.length < turns) :
    Does (mergeLoop less (list.start l₂) turns (list.start (xs ++ (ys ++ l₂))) (list.start (ys ++ l₂)))
      h fun _ h' => WellFormed h' list (l₁ ++ (xs.merge ys (inOrder less) ++ l₂)) := by
  induction turns generalizing h l₁ xs ys with
  | zero => exact absurd hturns (not_lt_zero _)
  | succ turns ih =>
    rw [mergeLoop]
    cases xs with
    | nil =>
      rw [nil_append, if_pos (.inl rfl), nil_merge]
      exact (does_pure ()).mpr hw
    | cons x xs =>
      cases ys with
      | nil =>
        rw [nil_append, if_pos (.inr rfl), merge_right]
        exact (does_pure ()).mpr hw
      | cons y ys =>
        have hwx := hw
        have hwx' := hwx.further
        have hwy : WellFormed h list ((l₁ ++ x :: xs) ++ y :: (ys ++ l₂)) := by rwa [append_assoc]
        obtain ⟨hleft, -, -⟩ := disjoint (r := [y]) hwy
        have hxy : x ≠ y := by
          rintro rfl
          exact hleft (mem_cons_of_mem _ (mem_append_right l₁ mem_cons_self))
            mem_cons_self
        have hyb : y ≠ list.start l₂ := hwy.ne_start
        rw [length_cons, length_cons] at hturns
        rw [cons_append, start_cons, cons_append, start_cons, if_neg (not_or.mpr ⟨hxy, hyb⟩)]
        by_cases hlt : less y x = true
        · have hprev : h.prev (list.start (ys ++ l₂)) = some y := by
            rw [hwy.further.joined.2, stop_concat]
          have hmove := does_move (r := [y]) hw
          rw [hlt, if_neg (by decide), does_bind, does_listNext hwy.links.2, does_bind,
            does_listPrev hprev, does_bind,
            cons_merge_cons_neg _ _ _ (by rw [inOrder_eq_false.mpr hlt]; exact Bool.false_ne_true)]
          refine hmove.mono fun _ h' hw' => ?_
          rw [← append_assoc] at hw'
          refine (ih hw' (by rw [length_cons]; omega)).mono fun _ h'' hw'' => ?_
          rwa [append_assoc] at hw''
        · have hge : less y x = false := (Bool.not_eq_true _).mp hlt
          rw [hge, if_pos (by decide), does_bind, does_listNext hwx.links.2,
            cons_merge_cons_pos _ _ _ (inOrder_iff.mpr hge)]
          refine (ih hwx' (by rw [length_cons]; omega)).mono fun _ h' hw' => ?_
          rwa [append_assoc] at hw'

lemma WellFormed.does_inplaceMerge (hw : WellFormed h list (l₁ ++ (xs ++ (ys ++ l₂))))
    (hxs : xs.IsChain (inOrder less · ·)) (hys : ys.IsChain (inOrder less · ·))
    (hturns : xs.length + ys.length < turns) :
    Does (inplaceMerge less turns (list.start (xs ++ (ys ++ l₂))) (list.start (ys ++ l₂))
      (list.start l₂)) h fun _ h' =>
        WellFormed h' list (l₁ ++ (xs.merge ys (inOrder less) ++ l₂)) := by
  have hw' : WellFormed h list ((l₁ ++ xs) ++ (ys ++ l₂)) := by rwa [append_assoc]
  rw [inplaceMerge, does_bind, hw.does_isSorted hxs (by omega), does_bind, does_require, does_bind,
    hw'.does_isSorted hys (by omega), does_bind, does_require]
  exact ⟨rfl, rfl, hw.does_mergeLoop hturns⟩

/-! ## Sorting -/

lemma WellFormed.does_passLoop {inner : ℕ} (hw : WellFormed h list (l₁ ++ l₂))
    (hinner : l₂.length < inner) (hturns : l₂.length < turns) (cnt : ℕ) :
    Does (passLoop less inner list turns (list.start l₂) cnt) h fun cnt' h' =>
      ∃ out, Pass (inOrder less) l₂ out ∧ cnt' = cnt + out.length ∧
        WellFormed h' list (l₁ ++ out.flatten) := by
  induction turns generalizing h l₁ l₂ cnt with
  | zero => exact absurd hturns (not_lt_zero _)
  | succ turns ih =>
    rw [passLoop]
    cases l₂ with
    | nil =>
      rw [start_nil, if_pos rfl]
      exact (does_pure cnt).mpr ⟨[], .nil, rfl, hw⟩
    | cons a l =>
      rw [length_cons] at hinner hturns
      have hall := takeRun_append (inOrder less) a l
      have hfirst : l.length < inner := lt_of_succ_lt hinner
      rw [start_cons, if_neg hw.start_ne_tail, findEndOfRun, does_bind, does_bind, does_require]
      refine ⟨hw.start_ne_tail, ?_⟩
      rw [hw.does_findEndLoop hfirst]
      cases hrest : (takeRun (inOrder less) a l).2 with
      | nil =>
        rw [start_nil, if_pos rfl]
        refine (does_pure _).mpr ⟨_, .last hrest, rfl, ?_⟩
        rw [hrest, append_nil] at hall
        rwa [flatten_singleton, hall]
      | cons b l' =>
        rw [hrest] at hall
        have hw₁ : WellFormed h list ((l₁ ++ a :: (takeRun (inOrder less) a l).1) ++ b :: l') := by
          rwa [append_assoc, cons_append, hall]
        have hlength : (takeRun (inOrder less) a l).1.length + (l'.length + 1) = l.length := by
          rw [← length_cons, ← length_append, hall]
        have hall' := takeRun_append (inOrder less) b l'
        have hlength' : (takeRun (inOrder less) b l').1.length + (takeRun (inOrder less) b l').2.length =
            l'.length := by
          rw [← length_append, hall']
        rw [start_cons, if_neg hw₁.start_ne_tail, findEndOfRun, does_bind, does_bind, does_require]
        refine ⟨hw₁.start_ne_tail, ?_⟩
        rw [hw₁.does_findEndLoop (by omega), does_bind]
        have hw₂ : WellFormed h list (l₁ ++ ((a :: (takeRun (inOrder less) a l).1) ++
            ((b :: (takeRun (inOrder less) b l').1) ++ (takeRun (inOrder less) b l').2))) := by
          have hsecond : (b :: (takeRun (inOrder less) b l').1) ++ (takeRun (inOrder less) b l').2 =
              b :: l' := congrArg (b :: ·) hall'
          rwa [hsecond, ← append_assoc]
        refine (hw₂.does_inplaceMerge (isChain_takeRun ..) (isChain_takeRun ..) ?_).mono ?_
        · rw [length_cons, length_cons]
          omega
        · rintro - h' hw₃
          rw [← append_assoc] at hw₃
          refine (ih hw₃ (by omega) (by omega) (cnt + 1)).mono ?_
          rintro cnt' h'' ⟨out, hpass, rfl, hw₄⟩
          refine ⟨_, .pair hrest hpass, ?_, ?_⟩
          · rw [length_cons]
            omega
          · rwa [flatten_cons, ← append_assoc]

lemma WellFormed.does_sortLoop (hless : Hash.StrictWeak less) {inner : ℕ} (hw : WellFormed h list xs)
    (hinner : xs.length < inner) (hturns : descents (inOrder less) xs < turns) :
    Does (sortLoop less inner list turns) h fun _ h' => ∃ ys, WellFormed h' list ys ∧
      Stably (inOrder less) xs ys ∧ ys.Pairwise (inOrder less · ·) := by
  have hle := weakOrder_inOrder hless
  induction turns generalizing h xs with
  | zero => exact absurd hturns (not_lt_zero _)
  | succ turns ih =>
    have hw' : WellFormed h list ([] ++ xs) := hw
    rw [sortLoop, does_bind, hw.does_listBegin, does_bind]
    refine (hw'.does_passLoop hinner hinner 0).mono ?_
    rintro cnt h' ⟨out, hpass, rfl, hw₁⟩
    rw [nil_append] at hw₁
    rw [zero_add]
    have hsorted := hpass.sorted hle
    have hstably := hpass.stably hle
    have hhalf := hpass.length_le
    by_cases hmore : out.length > 1
    · rw [if_pos hmore]
      have hdescents := descents_flatten hsorted
      have hlength : out.flatten.length = xs.length := (hstably.perm hle).length_eq.symm
      refine (ih hw₁ (by rwa [hlength]) (by omega)).mono ?_
      rintro - h'' ⟨ys, hw₂, hstably', hys⟩
      exact ⟨ys, hw₂, hstably.trans hstably', hys⟩
    · rw [if_neg hmore]
      refine (does_pure ()).mpr ⟨out.flatten, hw₁, hstably, ?_⟩
      -- there is one run, or none
      cases out with
      | nil => exact List.Pairwise.nil
      | cons r out =>
        have hout : out = [] := by
          rw [length_cons] at hmore
          exact length_eq_zero_iff.mp (by omega)
        rw [hout, flatten_singleton]
        exact hsorted r mem_cons_self

lemma WellFormed.does_listSort (hless : Hash.StrictWeak less) (hw : WellFormed h list xs)
    (hturns : xs.length < turns) :
    Does (listSort less turns list) h fun _ h' => ∃ ys, WellFormed h' list ys ∧
      Stably (inOrder less) xs ys ∧ ys.Pairwise (inOrder less · ·) := by
  have hle := weakOrder_inOrder hless
  rw [listSort, does_bind]
  refine (hw.does_sortLoop hless hturns ((descents_le _ xs).trans_lt hturns)).mono ?_
  rintro - h' ⟨ys, hw', hstably, hys⟩
  have hlength : ys.length = xs.length := (hstably.perm hle).length_eq.symm
  rw [does_bind, hw'.does_listBegin, does_bind, hw'.does_isSorted_all hys.isChain (by omega),
    does_require]
  exact ⟨rfl, ys, hw', hstably, hys⟩

/-! ## Insertion -/

lemma WellFormed.does_insertLoop (hw : WellFormed h list (l₁ ++ l₂)) (hturns : l₂.length < turns) :
    Does (insertLoop less list elem turns (list.start l₂)) h fun e h' => h' = h ∧
      ∃ m₁ m₂, l₂ = m₁ ++ m₂ ∧ e = list.start m₂ ∧
        l₂.orderedInsert (fun a b => inOrder less b a = false) elem = m₁ ++ elem :: m₂ := by
  induction l₂ generalizing l₁ turns with
  | nil =>
    obtain ⟨turns, rfl⟩ := succ_of_lt hturns
    rw [insertLoop, start_nil, if_pos rfl]
    exact (does_pure _).mpr ⟨rfl, [], [], rfl, rfl, rfl⟩
  | cons a l₂ ih =>
    obtain ⟨turns, rfl⟩ := succ_of_lt hturns
    rw [insertLoop, start_cons, if_neg hw.start_ne_tail, orderedInsert_cons]
    by_cases hlt : less elem a = true
    · rw [if_pos hlt, if_pos (inOrder_eq_false.mpr hlt)]
      exact (does_pure _).mpr ⟨rfl, [], a :: l₂, rfl, rfl, rfl⟩
    · rw [if_neg hlt, if_neg (fun heq => hlt (inOrder_eq_false.mp heq)), does_bind,
        does_listNext hw.links.2]
      refine (ih hw.further (lt_of_succ_lt_succ hturns)).mono ?_
      rintro e h' ⟨rfl, m₁, m₂, rfl, rfl, hinsert⟩
      exact ⟨rfl, a :: m₁, m₂, rfl, rfl, congrArg (a :: ·) hinsert⟩

lemma WellFormed.does_listInsertOrdered (hw : WellFormed h list xs) (hturns : xs.length < turns)
    (helem : elem ∉ list.nodes xs) :
    Does (listInsertOrdered less turns list elem) h fun _ h' =>
      WellFormed h' list (xs.orderedInsert (fun a b => inOrder less b a = false) elem) := by
  have hw' : WellFormed h list ([] ++ xs) := hw
  rw [listInsertOrdered, does_bind, hw.does_listBegin, does_bind]
  refine (hw'.does_insertLoop hturns).mono ?_
  rintro e h' ⟨rfl, m₁, m₂, rfl, rfl, hinsert⟩
  refine (hw.family.does_listInsert (i := ()) rfl fun _ => helem).mono ?_
  rintro - h'' ⟨hf', -⟩
  have hw₁ := hf'.wellFormed ()
  rwa [update_self, ← hinsert] at hw₁

/-- Elements inserted one after the other are those of the list and the new ones, stably. -/
lemma WellFormed.does_insertAll (hless : Hash.StrictWeak less) {elems : List α}
    (hw : WellFormed h list xs) (hxs : xs.Pairwise (inOrder less · ·))
    (hturns : xs.length + elems.length < turns) (hnodup : elems.Nodup)
    (hfree : ∀ x ∈ elems, x ∉ list.nodes xs) :
    Does (insertAll less turns list elems) h fun _ h' => ∃ ys, WellFormed h' list ys ∧
      Stably (inOrder less) (xs ++ elems) ys ∧ ys.Pairwise (inOrder less · ·) := by
  have hle := weakOrder_inOrder hless
  induction elems generalizing h xs with
  | nil =>
    rw [insertAll, append_nil]
    exact (does_pure ()).mpr ⟨xs, hw, Stably.refl xs, hxs⟩
  | cons elem elems ih =>
    obtain ⟨hnot, hnodup⟩ := nodup_cons.mp hnodup
    rw [length_cons] at hturns
    rw [insertAll, does_bind]
    refine (hw.does_listInsertOrdered (by omega) (hfree elem mem_cons_self)).mono ?_
    intro _ h' hw'
    have hstably := stably_orderedInsert hle hxs elem
    have hlength := (hstably.perm hle).length_eq
    rw [length_append, length_singleton] at hlength
    refine (ih hw' (pairwise_orderedInsert hle hxs elem) (by omega) hnodup fun x hx => ?_).mono ?_
    · have hx' := hfree x (mem_cons_of_mem elem hx)
      rw [mem_nodes, mem_orderedInsert]
      rw [mem_nodes] at hx'
      rintro (hhead | (rfl | hmem) | htail)
      · exact hx' (.inl hhead)
      · exact hnot hx
      · exact hx' (.inr (.inl hmem))
      · exact hx' (.inr (.inr htail))
    · rintro - h'' ⟨ys, hw'', hstably', hys⟩
      refine ⟨ys, hw'', Stably.trans ?_ hstably', hys⟩
      have happend := hstably.append (Stably.refl elems)
      rwa [append_assoc] at happend

/-- **`list_sort` is a stable sort**, and does what `list_insert_ordered` does with the elements one
by one in an empty list. -/
theorem list_sort_stable (hless : Hash.StrictWeak less) (hw : WellFormed h list xs) :
    ∃ ys, xs.Perm ys ∧ ys.Pairwise (fun a b => less b a = false) ∧
      (∀ e, xs.filter (alike less e) = ys.filter (alike less e)) ∧
      (∀ turns > xs.length, Does (listSort less turns list) h fun _ h' => WellFormed h' list ys) ∧
      ∀ h₀ list₀, WellFormed h₀ list₀ [] → (∀ x ∈ xs, x ∉ list₀.nodes []) → ∀ turns > xs.length,
        Does (insertAll less turns list₀ xs) h₀ fun _ h' => WellFormed h' list₀ ys := by
  have hle := weakOrder_inOrder hless
  have hfirst := hw.does_listSort hless (Nat.lt_succ_self xs.length)
  obtain ⟨-, -, -, ys, -, hstably, hys⟩ := hfirst
  refine ⟨ys, hstably.perm hle, hys.imp fun h => inOrder_iff.mp h, fun e => ?_,
    fun turns hturns => ?_, ?_⟩
  · have htied : tied (inOrder less) e = alike less e := funext fun _ => Bool.and_comm ..
    rw [← htied]
    exact hstably e
  · refine (hw.does_listSort hless hturns).mono ?_
    rintro - h' ⟨ys', hw', hstably', hys'⟩
    rwa [Stably.eq hle (fun e => (hstably e).symm.trans (hstably' e)) hys hys']
  · intro h₀ list₀ hw₀ hfree turns hturns
    have hnodup : xs.Nodup := by
      have hall := hw.nodup
      rw [nodes, nodup_cons] at hall
      exact (nodup_append.mp hall.2).1
    have hshort : ([] : List α).length + xs.length < turns := by
      rwa [length_nil, Nat.zero_add]
    refine (hw₀.does_insertAll hless List.Pairwise.nil hshort hnodup hfree).mono ?_
    rintro - h' ⟨ys', hw', hstably', hys'⟩
    rwa [Stably.eq hle (fun e => (hstably e).symm.trans (hstably' e)) hys hys']

end

/-- Two elements, sorted the other way round. -/
theorem list_sort_stable_two :
    ∃ ys, [4, 5].Perm ys ∧ ys.Pairwise (fun a b => decide (a < b) = false) ∧
      Does (listSort (fun a b => decide (b < a)) 3 ⟨0, 1⟩) sampleLinks fun _ h' =>
        WellFormed h' ⟨0, 1⟩ ys := by
  have hless : Hash.StrictWeak fun a b : ℕ => decide (b < a) := by
    constructor
    · intro a
      exact decide_eq_false (Nat.lt_irrefl a)
    · intro a b c hab hbc
      exact decide_eq_true ((of_decide_eq_true hbc).trans (of_decide_eq_true hab))
    · intro a b c hab hbc
      have hab₁ := of_decide_eq_false hab.1
      have hab₂ := of_decide_eq_false hab.2
      have hbc₁ := of_decide_eq_false hbc.1
      have hbc₂ := of_decide_eq_false hbc.2
      exact ⟨decide_eq_false (by omega), decide_eq_false (by omega)⟩
  obtain ⟨ys, hperm, hsorted, -, hsort, -⟩ := list_sort_stable hless (family_sample.wellFormed true)
  exact ⟨ys, hperm, hsorted, hsort 3 (by decide)⟩

end Pintos.KernelList
