import Pintos.Machinery.Traced
import Pintos.Threads.Vaddr

/-!
# Userprog/UserMemory — the kernel at work in a process's memory

A system call follows the pointers it is given with plain loads and stores. What the page fault
handler makes of one that fails, `Env` says of every address. Every address that is loaded from or
stored to is recorded.
-/

namespace Pintos

open Machinery

/-- What comes of one load or store: it is done, perhaps after a page fault; or the fault ends the
process, or the kernel. -/
inductive Access (α : Type) where
  | ok (a : α)
  | exits
  | panics
  deriving DecidableEq, Repr

/-- The surroundings of one system call: the caller's memory, and the answers of the allocators and
the process tree. A page that is mapped is not faulted on; what `page_fault` makes of the others
depends on the SPT. -/
structure Env where
  /-- `pagedir_get_page` finds the page of the address -/
  mapped : ℕ → Bool
  /-- `page_fault` maps it: it is a page of the table or of the stack, and gets a frame -/
  pagedIn : ℕ → Bool
  /-- `page_fault` calls `exit (-1)`: it is no page of the table, and the stack does not grow -/
  stray : ℕ → Bool
  writable : ℕ → Bool
  load : ℕ → Access UInt8
  store : ℕ → Access Unit
  load_mapped : ∀ a, a < physBase → (mapped a || pagedIn a) = true → ∃ b, load a = .ok b
  store_mapped : ∀ a, a < physBase → (mapped a || pagedIn a) = true → writable a = true →
    store a = .ok ()
  load_stray : ∀ a, a < physBase → mapped a = false → stray a = true → load a = .exits
  store_stray : ∀ a, a < physBase → mapped a = false → stray a = true → store a = .exits
  /-- the frames in the caller's page directory, as `pagedir_destroy` comes to them -/
  frames : List ℕ
  /-- `dir_open_root` -/
  dirOpens : Bool
  /-- `free_map_allocate` of one sector, for an inode -/
  inodeSector : Bool
  /-- the rest of `inode_create` -/
  dataSectors : Bool
  /-- `inode_open` of a file that is found -/
  inodeOpens : Bool
  /-- the `calloc` of `file_open` -/
  fileAlloc : Bool
  /-- the `malloc` of a bounce buffer -/
  bounce : Bool
  /-- the `palloc_get_page` of `open` -/
  fdPage : Bool
  /-- the two `palloc_get_page` and the `thread_create` of `process_execute` -/
  argPage : Bool
  fnPage : Bool
  threadCreated : Bool
  /-- the tid of that thread -/
  child : ℕ
  /-- what `exec` and `process_wait` return in the end -/
  execResult : ℤ
  waitResult : ℤ

/-- How a system call ends that does not return. -/
inductive SysStop where
  /-- `exit (status)`: the process ends, the kernel goes on -/
  | exit (status : ℤ)
  /-- a failing `ASSERT`, or a `PANIC` -/
  | panic
  /-- `shutdown_power_off` -/
  | powerOff
  /-- an index or a pointer that is none is followed -/
  | wild
  deriving DecidableEq, Repr

/-- How an access leaves the computation it is made in. -/
def Access.toExcept {α : Type} : Access α → Except SysStop α
  | .ok a => .ok a
  | .exits => .error (.exit (-1))
  | .panics => .error .panic

section

variable {σ : Type} (e : Env)

def getByte (a : ℕ) : Traced SysStop ℕ σ UInt8 := fun s => ⟨[a], (e.load a).toExcept, s⟩

def putByte (a : ℕ) : Traced SysStop ℕ σ Unit := fun s => ⟨[a], (e.store a).toExcept, s⟩

def getWord (a : ℕ) : Traced SysStop ℕ σ ℕ := do
  let b₀ ← getByte e a
  let b₁ ← getByte e (a + 1)
  let b₂ ← getByte e (a + 2)
  let b₃ ← getByte e (a + 3)
  return b₀.toNat + 2 ^ 8 * b₁.toNat + 2 ^ 16 * b₂.toNat + 2 ^ 24 * b₃.toNat

/-- The word at an address, if it can be loaded. -/
def Env.word (a : ℕ) : Option ℕ := ((getWord e a : Traced SysStop ℕ Unit ℕ) ()).value.toOption

/-- `n` bytes are loaded, in order… -/
def getBytes (a : ℕ) : ℕ → Traced SysStop ℕ σ (List UInt8)
  | 0 => return []
  | n + 1 => do
    let b ← getByte e a
    let l ← getBytes (a + 1) n
    return b :: l

/-- …or stored. -/
def putBytes (a : ℕ) : ℕ → Traced SysStop ℕ σ Unit
  | 0 => return ()
  | n + 1 => do
    putByte e a
    putBytes (a + 1) n

/-- The bytes of a string up to its null character, as `strlen` walks them; nothing is mapped at the
end of the address space. -/
def getString (a : ℕ) : ℕ → Traced SysStop ℕ σ (List UInt8)
  | 0 => Traced.stop (.exit (-1))
  | n + 1 => do
    let b ← getByte e a
    if b = 0 then return []
    else do
      let l ← getString (a + 1) n
      return b :: l

/-- `strcmp` with a name of the kernel's: are they equal? -/
def strcmp (a : ℕ) : List UInt8 → Traced SysStop ℕ σ Bool
  | [] => do
    let b ← getByte e a
    return b = 0
  | c :: l => do
    let b ← getByte e a
    if b ≠ 0 ∧ b = c then strcmp (a + 1) l else return false

/-- `is_paged` asserts that the address is a user's. -/
def isPaged (a : ℕ) : Traced SysStop ℕ σ Bool :=
  if isUserVaddr a then return e.mapped a else Traced.stop .panic

/-- `is_user_and_mapped`. -/
def isUserAndMapped (a : ℕ) : Traced SysStop ℕ σ Bool :=
  if isUserVaddr a then isPaged e a else return false

end

end Pintos
