import Pintos.Machinery.Runs
import Pintos.Vm.Frame

/-!
# Userprog/Exception — page faults, and the runs of the paging system

A faulting page with an SPT entry is brought in by `loadPage`; one without is a growing stack or the
end of the process. `vmSystem` lets any number of processes fault, read and write in any order; a
handler runs to its end once started.
-/

namespace Pintos

open Machinery

/-! ## `page_fault` -/

/-- `abs` of a 32-bit integer: the least one is its own absolute value. -/
def abs32 (i : ℤ) : ℤ := if i = -2 ^ 31 then i else |i|

/-- The stack growth condition of `page_fault`; `tEsp` is `t->esp`, `fEsp` is `f->esp`. -/
def growsStack (tEsp fEsp faultAddr : ℕ) : Bool :=
  decide (abs32 (toInt32 ((fEsp : ℤ) - faultAddr)) ≤ 32) || decide (fEsp < tEsp)
    || (decide (tEsp = null) && decide (fEsp < faultAddr))
    || (decide (tEsp ≠ null) && decide (tEsp < faultAddr))

/-- The stack growth branch of `page_fault`, once the page to map is known. -/
def growStack (alloc : ℕ → Bool) (t pageStart : ℕ) : Kern Unit := do
  let _ ← createSPTEntry t pageStart
    (SptEntry.create pageStart true 0 0 0 true (Nat.zero_le _))
  let kpage ← getUserPage alloc t pageStart
  if ← installPage alloc t pageStart kpage true then pure () else throw (.exit (-1))

/-- `page_fault` at `faultAddr` in the current thread `t`. -/
def pageFault (alloc : ℕ → Bool) (t faultAddr fEsp : ℕ) : Kern Unit :=
  if faultAddr = null then throw (.exit (-1)) else do
    let pageStart := pgRoundDown faultAddr
    match ← getSPTEntry t pageStart with
    | some _ =>
      let kpage ← getUserPage alloc t pageStart
      loadPage alloc t pageStart kpage
    | none =>
      let tEsp := ((← get).procs t).esp
      if growsStack tEsp fEsp faultAddr then
        growStack alloc t (if fEsp < tEsp then pgRoundDown tEsp else pageStart)
      else
        throw (.exit (-1))

/-! ## `setup_stack` -/

/-- The top page of user memory. -/
def stackPage : ℕ := physBase - pgSize

/-- The part of `setup_stack` that maps the stack page; the arguments are pushed afterwards. -/
def setupStackPage (alloc : ℕ → Bool) (t : ℕ) : Kern Bool := do
  let kpage ← getUserPage alloc t stackPage
  let inserted ← createSPTEntry t stackPage
    (SptEntry.create stackPage true 0 0 0 true (Nat.zero_le _))
  -- an entry that was already there stays in the table, and the flag is set on the other one
  if inserted then modify fun s => s.modifySpte t stackPage fun e => { e with isStackPage := true }
  installPage alloc t stackPage kpage true

/-! ## What the hardware and the end of a process do -/

namespace Vm

/-- A read by process `t` marks the page accessed. -/
def userRead (s : Vm) (t va : ℕ) : Vm :=
  s.setPagedir t (updatePte (s.procs t).pagedir va fun pte => { pte with accessed := true })

/-- A write by process `t` marks the page accessed and dirty, and stores the byte. -/
def userWrite (s : Vm) (t va : ℕ) (i : Fin pgSize) (b : UInt8) : Vm :=
  { s.setPagedir t
      (updatePte (s.procs t).pagedir va fun pte => { pte with accessed := true, dirty := true }) with
    frames := Function.update s.frames (s.pte t (pgNo va)).page
      (Function.update (s.frames (s.pte t (pgNo va)).page) i b) }

/-- A system call of `t` starts or ends: `t->esp` is set. -/
def setEsp (s : Vm) (t esp : ℕ) : Vm :=
  { s with procs := Function.update s.procs t { s.procs t with esp := esp } }

/-- `pagedir_destroy`, on the way out of `thread_exit`; `none` if an assertion fails. What is freed
is overwritten. -/
def destroy (s : Vm) (t : ℕ) : Option Vm :=
  let pages := (s.procs t).pagedir.pages
  (pallocFreeAll pages s.used).map fun used => { s with
    used := used
    frames := fun f => if f ∈ pages then fun _ => 0xcc else s.frames f }.setPagedir t pagedirCreate

/-- The state the others go on in after a handler of `t`. -/
def resume {α : Type} (t : ℕ) : EStateM.Result Stop Vm α → Option Vm
  | .ok _ s => some s
  | .error (.exit _) s => s.destroy t
  | .error .nullDeref _ => none
  | .error .outOfBounds _ => none

end Vm

/-! ## Runs -/

/-- One event of the paging system. -/
inductive VmAct where
  | pageFault (alloc : ℕ → Bool) (t faultAddr fEsp : ℕ)
  | setupStack (alloc : ℕ → Bool) (t : ℕ)
  | syscall (t esp : ℕ)
  | read (t va : ℕ)
  | write (t va : ℕ) (i : Fin pgSize) (b : UInt8)

/-- What an event does. -/
def vmStep (s : Vm) : VmAct → Vm → Prop
  | .pageFault alloc t faultAddr fEsp, s' =>
    Vm.resume t ((pageFault alloc t faultAddr fEsp).run s) = some s'
  | .setupStack alloc t, s' => Vm.resume t ((setupStackPage alloc t).run s) = some s'
  | .syscall t esp, s' => s' = s.setEsp t esp
  | .read t va, s' => (s.pte t (pgNo va)).present = true ∧ s' = s.userRead t va
  | .write t va i b, s' =>
    (s.pte t (pgNo va)).present = true ∧ (s.pte t (pgNo va)).writable = true ∧
      s' = s.userWrite t va i b

/-- After `init_frame_table`: every frame taken from palloc and empty, and nothing mapped. -/
structure Vm.Boot (s : Vm) : Prop where
  used : ∀ f < s.ft.maxFrame, s.used f = true
  empty : ∀ f < s.ft.maxFrame, (s.ft.entry f).status = .empty
  unmapped : ∀ t n, (s.pte t n).present = false

/-- The paging system. -/
def vmSystem : System Vm VmAct where
  init := Vm.Boot
  step := vmStep

end Pintos
