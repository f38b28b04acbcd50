import Pintos.Filesys.Filesys
import Pintos.Threads.Family
import Pintos.Userprog.Pagedir

/-!
# Userprog/Syscall — the system call handler

The handler checks the stack pointer, loads the number and then, call by call, what it needs of the
arguments. Eight calls go on to take `filesys_sema`: there the call is cut, and the rest of it is a
`Critical`. What a process does between two places is one step.

    user --trap--▸ waiting --down--▸ inside --finish--▸ user
-/

namespace Pintos

open Machinery

/-! ## Helpers -/

/-- `exit`: the call does not return. What `thread_exit` does is `World.threadExit`. -/
def exit {α : Type} (status : ℤ) : Sys α := Traced.stop (.exit status)

/-- `arg_error_check` looks at the end of the arguments. -/
def argErrorCheck (esp argWidth : ℕ) : Sys Unit :=
  if isUserVaddr (esp + 4 * argWidth) then return () else exit (-1)

/-- The length of `file_descriptors`. -/
def fdMax : ℕ := 128

/-- The file of a descriptor, in the table of all processes. -/
def fdToFilePtr (fileDescriptors : ℕ → Option ℕ) (fd : ℤ) : Option ℕ :=
  if fd < 2 ∨ 129 < fd then none else fileDescriptors (fd - 2).toNat

lemma fdToFilePtr_of_index {table : ℕ → Option ℕ} {i : ℕ} (hi : i < fdMax) :
    fdToFilePtr table (i + 2) = table i := by
  have hmax : i < 128 := hi
  rw [fdToFilePtr, if_neg (by omega), Int.add_sub_cancel, Int.toNat_natCast]

lemma fdToFilePtr_eq_some {table : ℕ → Option ℕ} {fd : ℤ} {f : ℕ} :
    fdToFilePtr table fd = some f ↔ ∃ i < fdMax, fd = (i : ℤ) + 2 ∧ table i = some f := by
  constructor
  · intro hf
    rw [fdToFilePtr, fdMax] at *
    split_ifs at hf
    exact ⟨(fd - 2).toNat, by omega, by omega, hf⟩
  · rintro ⟨i, hi, rfl, hf⟩
    exact (fdToFilePtr_of_index hi).trans hf

def Kernel.setDescriptor (k : Kernel) (i ptr : ℕ) : Kernel :=
  { k with fileDescriptors := Function.update k.fileDescriptors i (some ptr) }

/-- `get_file_descriptor`: a free place in the table is taken, for the time being by the name. -/
def getFileDescriptor (file : ℕ) : Sys ℤ := do
  let k ← Traced.read
  match (List.range fdMax).find? fun i => (k.fileDescriptors i).isNone with
  | some i =>
    Traced.update fun k => k.setDescriptor i file
    return i + 2
  | none => return 0

/-- `sema_up (&filesys_sema)`. -/
def semaUp : Sys Unit := Traced.update fun k => { k with filesysSema := k.filesysSema + 1 }

/-! ## Behind the semaphore -/

/-- What is left of a call at its `sema_down (&filesys_sema)`: its local variables. -/
inductive Critical where
  | create (file initialSize : ℕ)
  | remove (file : ℕ)
  | openFile (file : ℕ)
  | filesize (fd : ℤ)
  | read (fd : ℤ) (buffer length : ℕ)
  | write (fd : ℤ) (buffer size : ℕ)
  | seek (fd : ℤ) (filePtr position : ℕ)
  | tell (fd : ℤ) (filePtr : ℕ)
  deriving DecidableEq, Repr

/-- `create`, from its `sema_down` on. -/
def create (e : Env) (file initialSize : ℕ) : Sys (Option ℤ) := do
  let created ← filesysCreate e file (toInt32 initialSize)
  semaUp
  return some (if created then 1 else 0)

/-- `remove`; its result is not passed on. -/
def remove (e : Env) (file : ℕ) : Sys (Option ℤ) := do
  let _ ← filesysRemove e file
  semaUp
  return none

/-- The end of `open`: the file gets a descriptor. The page for the `struct thread_file` is not
checked, nor is the descriptor. -/
def giveDescriptor (e : Env) (file filePtr : ℕ) : Sys (Option ℤ) := do
  let fd ← getFileDescriptor file
  if e.fdPage then pure () else putByte e null
  if fd < 2 then Traced.stop .wild
  else do
    Traced.update fun k => k.setDescriptor (fd - 2).toNat filePtr
    semaUp
    return some fd

/-- `open`. -/
def openFile (e : Env) (file : ℕ) : Sys (Option ℤ) :=
  if file = null then do
    semaUp
    return some syscallError
  else do
    let b ← getByte e file
    if b = 0 then do
      semaUp
      return some syscallError
    else do
      let opened ← filesysOpen e file
      match opened with
      | none =>
        semaUp
        return some syscallError
      | some filePtr => giveDescriptor e file filePtr

/-- `filesize`: for the console's descriptors it returns without a `sema_up`. -/
def filesize (fd : ℤ) : Sys (Option ℤ) :=
  if fd < 2 then return some syscallError
  else do
    let k ← Traced.read
    match fdToFilePtr k.fileDescriptors fd with
    | none =>
      semaUp
      return some syscallError
    | some ptr =>
      let length ← fileLength ptr
      semaUp
      return some length

/-- `read` and `write` of a file. -/
def transferFile (move : ℕ → Sys ℤ) (fd : ℤ) : Sys (Option ℤ) := do
  let k ← Traced.read
  match fdToFilePtr k.fileDescriptors fd with
  | none =>
    semaUp
    return some syscallError
  | some ptr =>
    let n ← move ptr
    semaUp
    return some n

/-- `seek`. -/
def seek (filePtr position : ℕ) : Sys (Option ℤ) := do
  fileSeek filePtr (toInt32 position)
  semaUp
  return none

/-- `tell`. -/
def tell (filePtr : ℕ) : Sys (Option ℤ) := do
  let pos ← fileTell filePtr
  semaUp
  return some pos

/-- The rest of a call, with the semaphore taken; the result goes to `eax`, if there is one. -/
def Critical.run (e : Env) : Critical → Sys (Option ℤ)
  | .create file initialSize => Pintos.create e file initialSize
  | .remove file => Pintos.remove e file
  | .openFile file => Pintos.openFile e file
  | .filesize fd => Pintos.filesize fd
  | .read fd buffer length =>
    transferFile (fun ptr => fileRead e ptr buffer (toInt32 length)) fd
  | .write fd buffer size =>
    transferFile (fun ptr => fileWrite e ptr buffer (toInt32 size)) fd
  | .seek _ filePtr position => Pintos.seek filePtr position
  | .tell _ filePtr => Pintos.tell filePtr

/-! ## The handler -/

/-- The system calls that `syscall_handler` knows. -/
inductive SysNr where
  | halt | exit | exec | wait | create | remove | openFile | filesize | read | write | seek | tell
  | close
  deriving DecidableEq, Repr

def SysNr.ofWord : ℕ → Option SysNr
  | 0 => some .halt
  | 1 => some .exit
  | 2 => some .exec
  | 3 => some .wait
  | 4 => some .create
  | 5 => some .remove
  | 6 => some .openFile
  | 7 => some .filesize
  | 8 => some .read
  | 9 => some .write
  | 10 => some .seek
  | 11 => some .tell
  | 12 => some .close
  | _ => none

/-- The number of the call, on the caller's stack. -/
def Env.sysNr (e : Env) (esp : ℕ) : Option SysNr := (e.word esp).bind SysNr.ofWord

/-- How far the handler gets in one go: back to the user, or to the semaphore. -/
inductive Next where
  | ret (eax : Option ℤ)
  | locked (c : Critical)
  deriving DecidableEq, Repr

/-- `process_execute`, as far as the caller's memory goes: was a thread created? If not, the record
of thread `TID_ERROR` is looked up all the same. -/
def processExecute (e : Env) (fileName : ℕ) : Sys Bool :=
  if e.argPage then
    if fileName = null then Traced.stop .panic
    else do
      let _ ← getString e fileName (2 ^ 32 - fileName)
      if e.fnPage then
        if e.threadCreated then return true
        else do
          -- `child_pointer` of the null pointer
          let _ ← getByte e (null + 4)
          return false
      else return false
  else return false

/-- `exec`; without a thread, it writes to the record that is not there. -/
def exec (e : Env) (cmdLine : ℕ) : Sys ℤ := do
  let valid ← isUserAndMapped e cmdLine
  if valid then do
    let created ← processExecute e cmdLine
    if created then return e.execResult
    else do
      -- `parent_waiting` of the null pointer
      putByte e (null + 16)
      Traced.stop .wild
  else return syscallError

/-- `read`, up to its `sema_down`. -/
def read (e : Env) (fd : ℤ) (buffer length : ℕ) : Sys Next :=
  if fd = 0 then do
    putBytes e buffer (4 * length)
    return .ret (some (toInt32 length))
  else return .locked (.read fd buffer length)

/-- `write`, up to its `sema_down`. -/
def write (e : Env) (fd : ℤ) (buffer size : ℕ) : Sys Next :=
  if fd = 1 then do
    let _ ← getBytes e buffer size
    return .ret (some (toInt32 size))
  else return .locked (.write fd buffer size)

/-- The table is looked up before the semaphore is taken, in `seek` and `tell`. -/
def withFile (fd : ℤ) (c : ℕ → Critical) : Sys Next := do
  let k ← Traced.read
  match fdToFilePtr k.fileDescriptors fd with
  | some ptr => return .locked (c ptr)
  | none => exit syscallError

/-- The cases of `syscall_handler`. -/
def serve (e : Env) (esp : ℕ) : SysNr → Sys Next
  | .halt => Traced.stop .powerOff
  | .exit => do
    argErrorCheck esp 1
    let status ← getWord e (esp + 4)
    exit (toInt32 status)
  | .exec => do
    argErrorCheck esp 1
    let cmdLine ← getWord e (esp + 4)
    let pid ← exec e cmdLine
    return .ret (some pid)
  | .wait => do
    argErrorCheck esp 1
    let _ ← getWord e (esp + 4)
    return .ret (some e.waitResult)
  | .create => do
    argErrorCheck esp 2
    let file ← getWord e (esp + 4)
    let initialSize ← getWord e (esp + 8)
    if file = null then exit syscallError
    else do
      let paged ← isPaged e file
      if paged then return .locked (.create file initialSize) else exit syscallError
  | .remove => do
    argErrorCheck esp 1
    let file ← getWord e (esp + 4)
    return .locked (.remove file)
  | .openFile => do
    argErrorCheck esp 1
    let file ← getWord e (esp + 4)
    let paged ← isPaged e file
    if paged then return .locked (.openFile file) else exit syscallError
  | .filesize => do
    argErrorCheck esp 1
    let fd ← getWord e (esp + 4)
    return .locked (.filesize (toInt32 fd))
  | .read => do
    argErrorCheck esp 3
    let fd ← getWord e (esp + 4)
    let k ← Traced.read
    if toInt32 fd = 1 ∨ fdToFilePtr k.fileDescriptors (toInt32 fd) = none then exit syscallError
    else do
      let buffer ← getWord e (esp + 8)
      if buffer = null ∨ isUserVaddr buffer = false then exit syscallError
      else do
        let length ← getWord e (esp + 12)
        read e (toInt32 fd) buffer length
  | .write => do
    argErrorCheck esp 3
    let fd ← getWord e (esp + 4)
    let buffer ← getWord e (esp + 8)
    let valid ← isUserAndMapped e buffer
    if valid then do
      let size ← getWord e (esp + 12)
      write e (toInt32 fd) buffer size
    else exit syscallError
  | .seek => do
    argErrorCheck esp 2
    let fd ← getWord e (esp + 4)
    let position ← getWord e (esp + 8)
    withFile (toInt32 fd) fun ptr => .seek (toInt32 fd) ptr position
  | .tell => do
    argErrorCheck esp 1
    let fd ← getWord e (esp + 4)
    withFile (toInt32 fd) fun ptr => .tell (toInt32 fd) ptr
  | .close => do
    argErrorCheck esp 1
    return .ret none

/-- `syscall_handler`, with `f->esp`. -/
def syscallHandler (e : Env) (esp : ℕ) : Sys Next :=
  if isUserVaddr esp = false ∨ esp = null then exit syscallError
  else do
    let paged ← isPaged e esp
    if paged then do
      let id ← getWord e esp
      match SysNr.ofWord id with
      | some nr => serve e esp nr
      | none => return .ret none
    else exit syscallError

/-! ## Runs -/

/-- Where a process is. -/
inductive Stage where
  /-- in user code -/
  | user
  /-- at its `sema_down` -/
  | waiting (c : Critical)
  /-- behind it -/
  | inside (c : Critical)
  | ended
  deriving DecidableEq, Repr

/-- The kernel and its processes; `eax` is what a process got from its last call. `owned` is a
note, never read: the descriptors a process has got from `open` and has not closed. The children of
the initial thread, which outlives them, have no `parent` here. -/
structure World where
  kernel : Kernel
  /-- what the kernel has come to, if it is not running any more -/
  down : Option SysStop
  stage : ℕ → Stage
  eax : ℕ → Option ℤ
  owned : ℕ → ℤ → Bool
  parent : ℕ → Option ℕ
  /-- the pages of the user pool that palloc has given out -/
  used : ℕ → Bool

/-- What can happen next: a system call, the `sema_down` it comes to, and the rest of it; or the end
of a process outside of any call, by `kill`, by a page fault or because its `load` has failed. -/
inductive SysAct where
  | trap (p : ℕ) (e : Env) (esp : ℕ)
  | semaDown (p : ℕ)
  | finish (p : ℕ) (e : Env)
  | killed (p : ℕ) (e : Env)

/-- Whether process `p` has the descriptor, noted. -/
def note (owned : ℕ → ℤ → Bool) (p : ℕ) (fd : ℤ) (has : Bool) : ℕ → ℤ → Bool :=
  fun q fd' => if q = p ∧ fd' = fd then has else owned q fd'

/-- The note after a result of `open`… -/
def noteOpen (owned : ℕ → ℤ → Bool) (p : ℕ) : Critical → Option ℤ → ℕ → ℤ → Bool
  | .openFile _, some fd => if 2 ≤ fd then note owned p fd true else owned
  | _, _ => owned

/-- …and at a `close`. -/
def noteClose (owned : ℕ → ℤ → Bool) (p : ℕ) (e : Env) (esp : ℕ) : ℕ → ℤ → Bool :=
  match e.sysNr esp, e.word (esp + 4) with
  | some .close, some fd => note owned p (toInt32 fd) false
  | _, _ => owned

/-- The parents after a call that returns: an `exec` that comes to `process_execute` has made a
thread, whether its `load` fails or not. -/
def noteExec (parent : ℕ → Option ℕ) (p : ℕ) (e : Env) (esp : ℕ) : ℕ → Option ℕ :=
  match e.sysNr esp, e.word (esp + 4) with
  | some .exec, some cmdLine =>
    if isUserVaddr cmdLine && e.mapped cmdLine then Function.update parent e.child (some p) else parent
  | _, _ => parent

namespace World

def setStage (w : World) (p : ℕ) (stage : Stage) : World :=
  { w with stage := Function.update w.stage p stage }

/-- Process `p` is back in user code; without a result, `eax` is as it was. -/
def resume (w : World) (p : ℕ) (eax : Option ℤ) : World :=
  { w.setStage p .user with eax := Function.update w.eax p (eax.or (w.eax p)) }

/-- `thread_exit` of `p`: it ups a semaphore of its parent, in a page that is freed if the parent
has ended, and `pagedir_destroy` frees the frames that are mapped. (The `file_close` between the two
is in Userprog/Executable.) -/
def threadExit (w : World) (p : ℕ) (frames : List ℕ) : World :=
  if (w.parent p).any fun q => w.stage q = .ended then { w with down := some .wild }
  else
    match pallocFreeAll frames w.used with
    | none => { w with down := some .panic }
    | some used => { w with used := used }.setStage p .ended

/-- A call of `p` does not come to its end: an `exit` is the end of `p`, the rest that of the
kernel. -/
def leave (w : World) (p : ℕ) (e : Env) : SysStop → World
  | .exit _ => w.threadExit p e.frames
  | stop => { w with down := some stop }

/-- The handler has run. -/
def trapped (w : World) (p : ℕ) (e : Env) (esp : ℕ) (r : Outcome SysStop ℕ Kernel Next) : World :=
  match r.value with
  | .ok (.ret eax) => { w with kernel := r.state, parent := noteExec w.parent p e esp }.resume p eax
  | .ok (.locked c) => { w with kernel := r.state }.setStage p (.waiting c)
  | .error stop => { w with kernel := r.state }.leave p e stop

/-- The rest of a call has run. -/
def finished (w : World) (p : ℕ) (e : Env) (c : Critical) (r : Outcome SysStop ℕ Kernel (Option ℤ)) :
    World :=
  match r.value with
  | .ok eax => { w with kernel := r.state, owned := noteOpen w.owned p c eax }.resume p eax
  | .error stop => { w with kernel := r.state }.leave p e stop

/-- What happens. -/
def act (w : World) : SysAct → Option World
  | .trap p e esp =>
    if w.down = none ∧ w.stage p = .user then
      some ({ w with owned := noteClose w.owned p e esp }.trapped p e esp
        (syscallHandler e esp w.kernel))
    else none
  | .semaDown p =>
    match w.down, w.stage p with
    | none, .waiting c =>
      if w.kernel.filesysSema = 0 then none
      else
        let k := { w.kernel with filesysSema := w.kernel.filesysSema - 1 }
        some ({ w with kernel := k }.setStage p (.inside c))
    | _, _ => none
  | .finish p e =>
    match w.down, w.stage p with
    | none, .inside c => some (w.finished p e c (c.run e w.kernel))
    | _, _ => none
  | .killed p e =>
    if w.down = none ∧ w.stage p = .user then some (w.threadExit p e.frames) else none

/-- At boot, after `filesys_init`: nobody has called, and no file is open. -/
structure Boot (w : World) : Prop where
  up : w.down = none
  user : ∀ p, w.stage p = .user
  filesysSema : w.kernel.filesysSema = 1
  fileDescriptors : ∀ i, w.kernel.fileDescriptors i = none
  file : ∀ ptr, w.kernel.file ptr = none
  owned : ∀ p fd, w.owned p fd = false
  parent : ∀ p, w.parent p = none
  used : ∀ page, w.used page = true

end World

/-- The system calls of any number of processes. -/
def sysSystem : System World SysAct where
  init := World.Boot
  step w a w' := w.act a = some w'

/-! ## Calls to try -/

/-- The stack pointer of the calls below. -/
def callEsp : ℕ := 0x1000

/-- Surroundings in which all goes well, with the given words on the caller's stack. -/
def callEnv (words : List ℕ) : Env where
  mapped a := isUserVaddr a
  pagedIn _ := false
  stray _ := false
  writable a := isUserVaddr a
  load a := .ok (.ofNat (words.getD ((a - callEsp) / 4) 0 / 256 ^ ((a - callEsp) % 4)))
  store _ := .ok ()
  load_mapped _ _ _ := ⟨_, rfl⟩
  store_mapped _ _ _ _ := rfl
  load_stray _ _ _ h := absurd h Bool.false_ne_true
  store_stray _ _ _ h := absurd h Bool.false_ne_true
  frames := []
  dirOpens := true
  inodeSector := true
  dataSectors := true
  inodeOpens := true
  fileAlloc := true
  bounce := true
  fdPage := true
  argPage := true
  fnPage := true
  threadCreated := true
  child := 3
  execResult := 3
  waitResult := 0

/-- The world at boot, with one file, `a`, of four bytes. -/
def bootWorld : World where
  kernel :=
    { filesysSema := 1
      fileDescriptors := fun _ => none
      file := fun _ => none
      nextFile := physBase
      inode := fun _ => ⟨[1, 2, 3, 4], 0⟩
      nextInode := 3
      root := [⟨2, [97], true⟩] }
  down := none
  stage := fun _ => .user
  eax := fun _ => none
  owned := fun _ _ => false
  parent := fun _ => none
  used := fun _ => true

lemma bootWorld_boot : bootWorld.Boot :=
  ⟨rfl, fun _ => rfl, rfl, fun _ => rfl, fun _ => rfl, fun _ _ => rfl, fun _ => rfl, fun _ => rfl⟩

lemma world_of_run {G : World → SysAct → Prop} [∀ w a, Decidable (G w a)]
    {P : World → Prop} [DecidablePred P] {l : List SysAct}
    (h : (System.run World.act G bootWorld l).any (fun w => decide (P w)) = true) :
    ∃ w, System.run World.act G bootWorld l = some w ∧ sysSystem.Reach G w ∧ P w :=
  System.exists_of_run (fun _ _ _ h => h) bootWorld_boot h

/-- A whole call of process `p`. -/
def call (p : ℕ) (words : List ℕ) : List SysAct :=
  [.trap p (callEnv words) callEsp, .semaDown p, .finish p (callEnv words)]

end Pintos
