import Pintos.Machinery.Stopping
import Pintos.Threads.Family
import Pintos.Threads.Scheduler
import Pintos.Threads.Vaddr

/-!
# Userprog/Spawn — `process_execute`, when there are no pages left

Four pages are asked for: `arg_copy`, `fn_copy`, the thread and its record. Without the second, the
first is kept; without the fourth, the third is. And without the third or the fourth
`process_execute` looks for a record that is not there, and follows the null pointer.
-/

namespace Pintos.Spawn

open Machinery Function EStateM Bool

/-! ## The state -/

/-- `struct thread`, what `thread_create` sets in it. -/
structure Thread where
  tid : ℤ
  status : ThreadStatus
  parent : Option ℕ
  childListElem : Option ℕ
  deriving DecidableEq

/-- `struct thread_child`. -/
structure ThreadChild where
  tid : ℤ
  childPointer : ℕ
  exitStatus : ℤ
  parentWaiting : ℤ
  deriving DecidableEq

/-- The pages in use and what is in them, `all_list` and `ready_list`, the running thread with its
list of children, and `next_tid`. -/
structure State where
  used : ℕ → Bool
  thread : ℕ → Thread
  child : ℕ → ThreadChild
  allList : List ℕ
  readyList : List ℕ
  current : ℕ
  children : List ℕ
  nextTid : ℤ

/-- Why the kernel stops: a failing `ASSERT`, or a null pointer that is followed. -/
inductive Fault
  | assertion | nullChild
  deriving DecidableEq

abbrev SpawnM := EStateM Fault State

/-- The places where a page is asked for, in order. -/
inductive Site
  | argCopy | fnCopy | thread | child
  deriving DecidableEq

/-! ## The code -/

/-- `TID_ERROR`. -/
def tidError : ℤ := -1

/-- A page that can be handed out. -/
def available (used : ℕ → Bool) (page : ℕ) : Bool := page ≠ null && !used page

def State.setUsed (s : State) (page : ℕ) (b : Bool) : State :=
  { s with used := update s.used page b }

/-- `palloc_get_page`, which would give the page `choice`. -/
def pallocGetPage (choice : ℕ) : SpawnM (Option ℕ) := do
  let s ← get
  if available s.used choice then do
    set (s.setUsed choice true)
    return some choice
  else return none

/-- `palloc_free_page`. -/
def pallocFreePage (page : ℕ) : SpawnM Unit := do
  let s ← get
  require .assertion (s.used page = true)
  set (s.setUsed page false)

def State.setThread (s : State) (t : ℕ) (th : Thread) : State :=
  { s with thread := update s.thread t th }

/-- `init_thread`. -/
def initThread (t : ℕ) : SpawnM Unit :=
  modify fun s => { s.setThread t ⟨0, .blocked, none, none⟩ with allList := s.allList ++ [t] }

/-- `allocate_tid`, and `t->tid`. -/
def allocateTid (t : ℕ) : SpawnM ℤ := do
  let s ← get
  set { s.setThread t { s.thread t with tid := s.nextTid } with nextTid := toInt32 (s.nextTid + 1) }
  return s.nextTid

/-- `get_child_by_tid`. -/
def getChildByTid (s : State) (childTid : ℤ) : Option ℕ :=
  s.children.find? fun c => (s.child c).tid = childTid

/-- The record of a child, filled in and put into the list. -/
def addChild (t c : ℕ) (tid : ℤ) : SpawnM Unit :=
  modify fun s => {
    s.setThread t { s.thread t with parent := some s.current, childListElem := some c } with
    child := update s.child c ⟨tid, t, unusedChildExitStatus, 0⟩
    children := s.children ++ [c] }

/-- `thread_unblock`. -/
def threadUnblock (t : ℕ) : SpawnM Unit := do
  let s ← get
  require .assertion ((s.thread t).status = .blocked)
  set { s.setThread t { s.thread t with status := .ready } with readyList := s.readyList ++ [t] }

/-- `thread_create`. -/
def threadCreate (choose : Site → ℕ) : SpawnM ℤ := do
  match ← pallocGetPage (choose .thread) with
  | none => return tidError
  | some t => do
    initThread t
    let tid ← allocateTid t
    match ← pallocGetPage (choose .child) with
    | none => return tidError
    | some c => do
      addChild t c tid
      let s ← get
      require .assertion (getChildByTid s tid ≠ none)
      threadUnblock t
      return tid

/-- The end of `process_execute`, with the two copies: the child is looked for in any case. -/
def finish (argCopy fnCopy : ℕ) (tid : ℤ) : SpawnM ℤ := do
  let s ← get
  match getChildByTid s tid with
  | none => throw .nullChild
  | some _ => do
    if tid = tidError then pallocFreePage fnCopy
    pallocFreePage argCopy
    return tid

/-- `process_execute`. -/
def processExecute (choose : Site → ℕ) : SpawnM ℤ := do
  match ← pallocGetPage (choose .argCopy) with
  | none => return tidError
  | some argCopy => do
    match ← pallocGetPage (choose .fnCopy) with
    | none => return tidError
    | some fnCopy => do
      let tid ← threadCreate choose
      finish argCopy fnCopy tid

/-! ## What it should do -/

/-- The first of the sites at which there is no page. -/
def firstFailure (choose : Site → ℕ) : (ℕ → Bool) → List Site → Option Site
  | _, [] => none
  | used, site :: sites =>
    if available used (choose site) then
      firstFailure choose (update used (choose site) true) sites
    else some site

/-- The site at which process creation fails. -/
def failsAt (choose : Site → ℕ) (s : State) : Option Site :=
  firstFailure choose s.used [.argCopy, .fnCopy, .thread, .child]

/-- A failure that is clean: `TID_ERROR` is returned, no page is taken, and the lists are as
before. -/
structure Clean (s : State) (r : EStateM.Result Fault State ℤ) : Prop where
  returns : ∃ s', r = .ok tidError s'
  used : (final r).used = s.used
  allList : (final r).allList = s.allList
  readyList : (final r).readyList = s.readyList
  children : (final r).children = s.children

/-! ## The four failures -/

section

variable {s : State} {choose : Site → ℕ} {page argCopy fnCopy : ℕ}

lemma run_pallocGetPage_some (h : available s.used page = true) :
    (pallocGetPage page).run s = .ok (some page) (s.setUsed page true) := by
  rw [pallocGetPage, run_bind, run_get]
  dsimp only
  rw [if_pos h]
  rfl

lemma run_pallocGetPage_none (h : available s.used page = false) :
    (pallocGetPage page).run s = .ok none s := by
  rw [pallocGetPage, run_bind, run_get]
  dsimp only
  rw [h]
  rfl

/-- The state with the two copies. -/
def State.copied (s : State) (choose : Site → ℕ) : State :=
  (s.setUsed (choose .argCopy) true).setUsed (choose .fnCopy) true

lemma run_processExecute (harg : available s.used (choose .argCopy) = true)
    (hfn : available (s.setUsed (choose .argCopy) true).used (choose .fnCopy) = true) :
    (processExecute choose).run s =
      (threadCreate choose >>= finish (choose .argCopy) (choose .fnCopy)).run (s.copied choose) := by
  rw [processExecute, run_bind, run_pallocGetPage_some harg]
  dsimp only
  rw [run_bind, run_pallocGetPage_some hfn]
  rfl

lemma does_threadCreate_child (hthread : available s.used (choose .thread) = true)
    (hchild : available (s.setUsed (choose .thread) true).used (choose .child) = false) :
    Does (threadCreate choose) s fun tid s' =>
      tid = tidError ∧ s'.allList = s.allList ++ [choose .thread] := by
  refine does_bind.mpr (does_of_run (run_pallocGetPage_some hthread) ?_)
  simp only [initThread, allocateTid, does_bind, does_modify, does_get, does_set, does_pure]
  exact does_of_run (run_pallocGetPage_none hchild) ((does_pure tidError).mpr ⟨rfl, rfl⟩)

lemma allList_pallocFreePage : (final ((pallocFreePage page).run s)).allList = s.allList := by
  rw [pallocFreePage, run_bind, run_get]
  dsimp only
  by_cases hused : s.used page = true
  · rw [require, if_pos hused]
    rfl
  · rw [require, if_neg hused]
    rfl

lemma allList_free_bind {f : Unit → SpawnM ℤ}
    (hf : ∀ s, (final ((f ()).run s)).allList = s.allList) :
    (final ((pallocFreePage page >>= f).run s)).allList = s.allList :=
  final_bind (R := fun s s' : State => s'.allList = s.allList) (fun _ _ _ h h' => h'.trans h)
    allList_pallocFreePage fun _ s' _ => hf s'

lemma allList_finish (tid : ℤ) :
    (final ((finish argCopy fnCopy tid).run s)).allList = s.allList := by
  rw [finish, run_bind, run_get]
  dsimp only
  cases getChildByTid s tid with
  | none => rfl
  | some c =>
    dsimp only
    split
    · exact allList_free_bind fun _ => allList_free_bind fun _ => rfl
    · exact allList_free_bind fun _ => rfl

lemma run_pallocFreePage (hused : s.used page = true) :
    (pallocFreePage page).run s = .ok () (s.setUsed page false) := by
  rw [pallocFreePage, run_bind, run_get]
  dsimp only
  rw [require, if_pos hused]
  rfl

lemma run_finish_none (hnone : getChildByTid s tidError = none) :
    (finish argCopy fnCopy tidError).run s = .error .nullChild s := by
  rw [finish, run_bind, run_get]
  dsimp only
  rw [hnone]
  rfl

lemma run_finish_some {c : ℕ} (hsome : getChildByTid s tidError = some c)
    (hfn : s.used fnCopy = true) (harg : (s.setUsed fnCopy false).used argCopy = true) :
    (finish argCopy fnCopy tidError).run s =
      .ok tidError ((s.setUsed fnCopy false).setUsed argCopy false) := by
  rw [finish, run_bind, run_get]
  dsimp only
  rw [hsome]
  rw [if_pos rfl, run_bind, run_pallocFreePage hfn]
  dsimp only
  rw [run_bind, run_pallocFreePage harg]
  rfl

section

variable (h : available s.used page = true)

include h

lemma used_of_available : s.used page = false := by
  rw [available, and_eq_true] at h
  exact (not_eq_true' _).mp h.2

lemma setUsed_undo : (s.setUsed page true).setUsed page false = s := by
  rw [State.setUsed, State.setUsed]
  rw [update_idem, ← used_of_available h, update_eq_self]

lemma used_setUsed_ne : (s.setUsed page true).used ≠ s.used := by
  intro heq
  have hpage : update s.used page true page = s.used page := congrFun heq page
  rw [update_self, used_of_available h] at hpage
  exact Bool.noConfusion hpage

end

/-- The four failures, each with the pages that were there before. -/
inductive Failure (choose : Site → ℕ) (s : State) : Site → Prop
  | argCopy (harg : available s.used (choose .argCopy) = false) : Failure choose s .argCopy
  | fnCopy (harg : available s.used (choose .argCopy) = true)
      (hfn : available (s.setUsed (choose .argCopy) true).used (choose .fnCopy) = false) :
      Failure choose s .fnCopy
  | thread (harg : available s.used (choose .argCopy) = true)
      (hfn : available (s.setUsed (choose .argCopy) true).used (choose .fnCopy) = true)
      (hthread : available (s.copied choose).used (choose .thread) = false) : Failure choose s .thread
  | child (harg : available s.used (choose .argCopy) = true)
      (hfn : available (s.setUsed (choose .argCopy) true).used (choose .fnCopy) = true)
      (hthread : available (s.copied choose).used (choose .thread) = true)
      (hchild : available ((s.copied choose).setUsed (choose .thread) true).used (choose .child) = false) :
      Failure choose s .child

lemma failure_of_failsAt {site : Site} (hfails : failsAt choose s = some site) :
    Failure choose s site := by
  simp only [failsAt, firstFailure] at hfails
  split at hfails
  · next harg =>
    split at hfails
    · next hfn =>
      split at hfails
      · next hthread =>
        split at hfails
        · cases hfails
        · next hchild =>
          cases hfails
          exact .child harg hfn hthread ((not_eq_true _).mp hchild)
      · next hthread =>
        cases hfails
        exact .thread harg hfn ((not_eq_true _).mp hthread)
    · next hfn =>
      cases hfails
      exact .fnCopy harg ((not_eq_true _).mp hfn)
  · next harg =>
    cases hfails
    exact .argCopy ((not_eq_true _).mp harg)

variable (harg : available s.used (choose .argCopy) = true)

include harg

lemma clean_thread_iff
    (hfn : available (s.setUsed (choose .argCopy) true).used (choose .fnCopy) = true)
    (hthread : available (s.copied choose).used (choose .thread) = false) :
    Clean s ((processExecute choose).run s) ↔ ∃ c ∈ s.children, (s.child c).tid = tidError := by
  rw [run_processExecute harg hfn, run_bind, threadCreate, run_bind, run_pallocGetPage_none hthread]
  dsimp only [run_pure]
  cases hchild : getChildByTid (s.copied choose) tidError with
  | none =>
    rw [run_finish_none hchild]
    constructor
    · intro hclean
      obtain ⟨_, hreturns⟩ := hclean.returns
      cases hreturns
    · rintro ⟨c, hc, htid⟩
      exact absurd (decide_eq_true htid) (List.find?_eq_none.mp hchild c hc)
  | some c =>
    have hback : ((s.copied choose).setUsed (choose .fnCopy) false) = s.setUsed (choose .argCopy) true :=
      setUsed_undo hfn
    have hused : (s.setUsed (choose .argCopy) true).used (choose .argCopy) = true :=
      update_self _ _ _
    rw [run_finish_some hchild (update_self _ _ _) (by rw [hback]; exact hused), hback,
      setUsed_undo harg]
    have htid := List.find?_some hchild
    exact iff_of_true ⟨⟨s, rfl⟩, rfl, rfl, rfl, rfl⟩
      ⟨c, List.mem_of_find?_eq_some hchild, of_decide_eq_true htid⟩

lemma not_clean_child
    (hfn : available (s.setUsed (choose .argCopy) true).used (choose .fnCopy) = true)
    (hthread : available (s.copied choose).used (choose .thread) = true)
    (hchild : available ((s.copied choose).setUsed (choose .thread) true).used (choose .child) = false) :
    ¬ Clean s ((processExecute choose).run s) := by
  intro hclean
  obtain ⟨tid, s', hrun, -, hall⟩ := does_threadCreate_child hthread hchild
  have hsame := hclean.allList
  rw [run_processExecute harg hfn, run_bind, hrun] at hsame
  rw [allList_finish, hall] at hsame
  have hnil : [choose .thread] = [] := List.append_right_eq_self.mp hsame
  exact List.cons_ne_nil _ _ hnil

end

/-- A thread without children, and 15 pages, of which the last ones are free. -/
def fewPages (free : ℕ) : State where
  used page := page < 16 - free || 16 ≤ page
  thread _ := ⟨1, .running, none, none⟩
  child _ := ⟨0, 0, 0, 0⟩
  allList := [1]
  readyList := []
  current := 1
  children := []
  nextTid := 2

/-- The pages are taken from the last one on. -/
def fromTop : Site → ℕ
  | .argCopy => 15
  | .fnCopy => 14
  | .thread => 13
  | .child => 12

/-- **When a failure is clean**: without the first page; or without a page for the thread, if there
is a child with the tid `TID_ERROR`. -/
theorem failed_creation_clean_iff {choose : Site → ℕ} {s : State} {site : Site}
    (hfails : failsAt choose s = some site) :
    Clean s ((processExecute choose).run s) ↔
      site = .argCopy ∨ site = .thread ∧ ∃ c ∈ s.children, (s.child c).tid = tidError := by
  cases failure_of_failsAt hfails with
  | argCopy harg =>
    rw [processExecute, run_bind, run_pallocGetPage_none harg]
    exact iff_of_true ⟨⟨s, rfl⟩, rfl, rfl, rfl, rfl⟩ (.inl rfl)
  | fnCopy harg hfn =>
    rw [processExecute, run_bind, run_pallocGetPage_some harg]
    dsimp only
    rw [run_bind, run_pallocGetPage_none hfn]
    refine iff_of_false (fun hclean => used_setUsed_ne harg hclean.used) ?_
    rintro (h | ⟨h, -⟩) <;> cases h
  | thread harg hfn hthread =>
    rw [clean_thread_iff harg hfn hthread]
    refine ⟨fun h => .inr ⟨rfl, h⟩, ?_⟩
    rintro (h | ⟨-, h⟩)
    · cases h
    · exact h
  | child harg hfn hthread hchild =>
    refine iff_of_false (not_clean_child harg hfn hthread hchild) ?_
    rintro (h | ⟨h, -⟩) <;> cases h

/-- A state in which a record has the `tid` of an error. -/
def wrapped (free : ℕ) : State :=
  { fewPages free with child := fun _ => ⟨tidError, 0, 0, 0⟩, children := [2] }

/-- Without any page; and with two, if there is a record for `TID_ERROR`. -/
theorem failed_creation_clean_first :
    Clean (fewPages 0) ((processExecute fromTop).run (fewPages 0)) ∧
      Clean (wrapped 2) ((processExecute fromTop).run (wrapped 2)) := by
  have hfirst : failsAt fromTop (fewPages 0) = some .argCopy := by decide
  have hthird : failsAt fromTop (wrapped 2) = some .thread := by decide
  exact ⟨(failed_creation_clean_iff hfirst).mpr (.inl rfl),
    (failed_creation_clean_iff hthird).mpr (.inr ⟨rfl, 2, by decide, rfl⟩)⟩

/-- With three pages, there is none for the record: a null pointer is followed, and a thread is
left. -/
theorem failed_creation_unclean :
    failsAt fromTop (fewPages 3) = some .child ∧
      ¬ Clean (fewPages 3) ((processExecute fromTop).run (fewPages 3)) := by
  refine ⟨by decide, fun hclean => ?_⟩
  obtain ⟨s', hreturns⟩ := hclean.returns
  have hfault : endsWith (fun _ _ => true) ((processExecute fromTop).run (fewPages 3)) = false := by
    decide
  rw [hreturns] at hfault
  exact Bool.noConfusion hfault

end Pintos.Spawn
