import Pintos.Machinery.Runs
import Pintos.Threads.Synch
import Mathlib.Algebra.Group.Int.Defs

/-!
# Threads/Family — parents and children

`thread_create` hangs a record of the new thread in its parent's list of children and leaves the
child a bare pointer to the parent. Everything a parent learns about a child goes through that
record and through two semaphores *of the parent*, one for the end of `load`, one for the end of the
child. A step is what one thread does between two places where another may get in.
-/

namespace Pintos

open Machinery

/-- The tid of `initial_thread`. -/
def initialThread : ℕ := 1

def unusedChildExitStatus : ℤ := -666

/-- `SYSCALL_ERROR`. -/
def syscallError : ℤ := -1

/-- Where a thread is. -/
inductive Phase where
  /-- not created yet -/
  | unborn
  /-- in `load` -/
  | loading
  /-- at the end of `load`, about to `sema_up` its parent's `load_sema` -/
  | loadDone (success : Bool)
  /-- back in `start_process` after a load that failed -/
  | loadFailed
  /-- in user code; for the initial thread, in `run_actions` -/
  | running
  /-- in `exec`, at the `sema_down` on its own `load_sema` -/
  | execDown (child : ℕ)
  /-- in `exec`, about to read the child's `exit_status` and return -/
  | execRead (child : ℕ)
  /-- in `process_wait`, at the `sema_down` on its own `wait_sema` -/
  | waitDown (child : ℕ)
  /-- in `process_wait`, about to read the child's `exit_status` and return -/
  | waitRead (child : ℕ)
  /-- in `process_execute`, following the null pointer `get_child_by_tid (TID_ERROR)` -/
  | nullDeref
  /-- in `thread_exit`, about to `sema_up` its parent's `wait_sema` -/
  | exiting (status : ℤ)
  /-- the initial thread in `thread_exit`, at the same place -/
  | mainExiting
  /-- in `thread_exit`, past it -/
  | signalled
  /-- `THREAD_DYING` and switched away from: `thread_schedule_tail` has freed its page -/
  | dead
  deriving DecidableEq, Repr

/-- `struct thread`, with its `struct thread_child`. The last two fields are notes, never read: the
result of `load`, and the status it exited with, once its parent is told. -/
structure Thread where
  phase : Phase
  blocked : Bool
  parent : Option ℕ
  children : List ℕ
  waitSema : Semaphore
  loadSema : Semaphore
  exitStatus : ℤ
  loaded : Option Bool
  exited : Option ℤ
  deriving DecidableEq, Repr

/-- A thread as `init_thread` and `thread_create` leave it. -/
def Thread.create (parent : Option ℕ) (phase : Phase) : Thread where
  phase := phase
  blocked := false
  parent := parent
  children := []
  waitSema := .init 0
  loadSema := .init 0
  exitStatus := unusedChildExitStatus
  loaded := none
  exited := none

/-- The threads, by tid. -/
structure Family where
  nextTid : ℕ
  thread : ℕ → Thread

namespace Family

variable (s : Family)

def modify (t : ℕ) (f : Thread → Thread) : Family :=
  { s with thread := Function.update s.thread t (f (s.thread t)) }

/-- A new thread, with `p` for a parent. -/
def spawn (p : ℕ) : Family where
  nextTid := s.nextTid + 1
  thread := Function.update s.thread s.nextTid (.create (some p) .loading)

/-- `thread_create`, called by `p`: the new thread is in its list of children. -/
def create (p : ℕ) : Family :=
  (s.spawn p).modify p fun th => { th with children := th.children ++ [s.nextTid] }

/-- The page of thread `t` has been freed; the initial thread's never is. -/
def Freed (t : ℕ) : Prop := (s.thread t).phase = .dead ∧ t ≠ initialThread

instance (t : ℕ) : Decidable (s.Freed t) := inferInstanceAs (Decidable (_ ∧ _))

/-- `thread_unblock` of the thread a semaphore wakes. -/
def wake : Option ℕ → Family
  | none => s
  | some t => s.modify t fun th => { th with blocked := false }

def upLoad (p : ℕ) : Family :=
  (s.modify p fun th => { th with loadSema := th.loadSema.up }).wake (s.thread p).loadSema.woken

def upWait (p : ℕ) : Family :=
  (s.modify p fun th => { th with waitSema := th.waitSema.up }).wake (s.thread p).waitSema.woken

/-- `exec` returns: the child's tid, unless its `exit_status` is that of an error. -/
def execResult (c : ℕ) : ℤ :=
  if (s.thread c).exitStatus = syscallError then syscallError else c

/-- `process_wait` returns the child's `exit_status`. -/
def waitResult (c : ℕ) : ℤ := (s.thread c).exitStatus

end Family

/-! ## Steps -/

/-- What a thread does next. -/
inductive FamilyAct where
  /-- `exec`, up to its `sema_down`; `alloc` is whether there was memory for the thread -/
  | exec (p : ℕ) (alloc : Bool)
  /-- `process_execute` in `run_task` -/
  | runTask (alloc : Bool)
  /-- `load` comes to its end -/
  | load (c : ℕ) (success : Bool)
  /-- the `sema_up` of `load` -/
  | loadSignal (c : ℕ)
  /-- `start_process` gives up -/
  | loadAbort (c : ℕ)
  /-- `exit (-1)` from inside `load`: its stack page got no frame -/
  | loadExit (c : ℕ)
  /-- the `sema_down` of `exec` -/
  | execDown (p : ℕ)
  /-- `exec` returns -/
  | execReturn (p : ℕ)
  /-- `process_wait`, up to its `sema_down` -/
  | wait (p c : ℕ)
  /-- the `sema_down` of `process_wait` -/
  | waitDown (p : ℕ)
  /-- `process_wait` returns -/
  | waitReturn (p : ℕ)
  /-- `exit (status)`; a process that is killed exits with -1 -/
  | exit (t : ℕ) (status : ℤ)
  /-- the end of `main` -/
  | mainExit
  /-- the `sema_up` of `thread_exit` -/
  | signal (t : ℕ)
  /-- the end of `thread_exit`, and `thread_schedule_tail` in the next thread -/
  | die (t : ℕ)
  deriving DecidableEq, Repr

namespace Family

def set (s : Family) (t : ℕ) (th : Thread) : Family := s.modify t fun _ => th

/-- What `a` does in `s`, if it can be done there. -/
def act (s : Family) : FamilyAct → Option Family
  | .exec p alloc =>
    if (s.thread p).phase = .running ∧ p ≠ initialThread then
      if alloc then
        some ((s.create p).modify p fun th => { th with phase := .execDown s.nextTid })
      else some (s.set p { s.thread p with phase := .nullDeref })
    else none
  | .runTask alloc =>
    if (s.thread initialThread).phase = .running then
      if alloc then some (s.create initialThread)
      else some (s.set initialThread { s.thread initialThread with phase := .nullDeref })
    else none
  | .load c success =>
    if (s.thread c).phase = .loading then
      some (s.set c { s.thread c with
        phase := .loadDone success
        exitStatus := if success then (s.thread c).exitStatus else syscallError
        loaded := some success })
    else none
  | .loadSignal c =>
    match (s.thread c).phase, (s.thread c).parent with
    | .loadDone success, some p =>
      if s.Freed p then none
      else some ((s.upLoad p).modify c
        fun th => { th with phase := if success then .running else .loadFailed })
    | _, _ => none
  | .loadAbort c =>
    if (s.thread c).phase = .loadFailed then
      some (s.set c { s.thread c with phase := .exiting syscallError, exitStatus := syscallError })
    else none
  | .loadExit c =>
    if (s.thread c).phase = .loading then
      some (s.set c { s.thread c with phase := .exiting syscallError, exitStatus := syscallError })
    else none
  | .execDown p =>
    match (s.thread p).phase, (s.thread p).blocked with
    | .execDown c, false =>
      if (s.thread p).loadSema.value = 0 then
        some (s.set p { s.thread p with
          blocked := true, loadSema := (s.thread p).loadSema.sleep p })
      else
        some (s.set p { s.thread p with
          phase := .execRead c, loadSema := (s.thread p).loadSema.down })
    | _, _ => none
  | .execReturn p =>
    match (s.thread p).phase with
    | .execRead _ => some (s.set p { s.thread p with phase := .running })
    | _ => none
  | .wait p c =>
    if (s.thread p).phase = .running then
      if c ∈ (s.thread p).children then some (s.set p { s.thread p with phase := .waitDown c })
      else some (s.set p (s.thread p))
    else none
  | .waitDown p =>
    match (s.thread p).phase, (s.thread p).blocked with
    | .waitDown c, false =>
      if (s.thread p).waitSema.value = 0 then
        some (s.set p { s.thread p with
          blocked := true, waitSema := (s.thread p).waitSema.sleep p })
      else
        some (s.set p { s.thread p with
          phase := .waitRead c, waitSema := (s.thread p).waitSema.down })
    | _, _ => none
  | .waitReturn p =>
    match (s.thread p).phase with
    | .waitRead c =>
      some (s.set p { s.thread p with
        phase := .running, children := (s.thread p).children.erase c })
    | _ => none
  | .exit t status =>
    if (s.thread t).phase = .running ∧ t ≠ initialThread then
      some (s.set t { s.thread t with phase := .exiting status, exitStatus := status })
    else none
  | .mainExit =>
    if (s.thread initialThread).phase = .running then
      some (s.set initialThread { s.thread initialThread with phase := .mainExiting })
    else none
  | .signal t =>
    match (s.thread t).phase, (s.thread t).parent with
    | .exiting status, some p =>
      if s.Freed p then none
      else some ((s.upWait p).modify t
        fun th => { th with phase := .signalled, exited := some status })
    | _, _ => none
  | .die t =>
    if (s.thread t).phase = .signalled then some (s.set t { s.thread t with phase := .dead })
    else none

end Family

/-- At boot there is the initial thread, without parent or children. -/
structure Family.Boot (s : Family) : Prop where
  nextTid : initialThread < s.nextTid
  main : s.thread initialThread = .create none .running
  unborn : ∀ t, t ≠ initialThread → s.thread t = .create none .unborn

/-- The process tree. -/
def familySystem : System Family FamilyAct where
  init := Family.Boot
  step s a s' := s.act a = some s'

def bootFamily : Family where
  nextTid := 2
  thread t := .create none (if t = initialThread then .running else .unborn)

lemma bootFamily_boot : bootFamily.Boot := ⟨by decide, rfl, fun _ h => by simp [bootFamily, h]⟩

lemma family_of_run {G : Family → FamilyAct → Prop} [∀ s a, Decidable (G s a)]
    {P : Family → Prop} [DecidablePred P] {l : List FamilyAct}
    (h : (System.run Family.act G bootFamily l).any (fun s => decide (P s)) = true) :
    ∃ s, System.run Family.act G bootFamily l = some s ∧ familySystem.Reach G s ∧ P s :=
  System.exists_of_run (fun _ _ _ h => h) bootFamily_boot h

/-- The initial thread runs process 2, and process 2 executes process 3. -/
def oneChild : List FamilyAct :=
  [.runTask true, .load 2 true, .loadSignal 2,
    .exec 2 true, .load 3 true, .loadSignal 3, .execDown 2, .execReturn 2]

end Pintos
