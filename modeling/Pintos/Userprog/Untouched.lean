import Pintos.Userprog.Syscall

/-!
# Userprog/Untouched — what system calls leave alone

Loads and stores in the caller's memory leave the kernel as it is, and the work on files leaves the
semaphore; both may stop a call. `E` is the set of reasons one is ready for.
-/

namespace Pintos

open Machinery Traced

/-- The access is done, or stops for a reason in `E`. -/
def Access.Fine {α : Type} (E : SysStop → Prop) (x : Access α) : Prop :=
  ∀ stop, x.toExcept = .error stop → E stop

lemma Access.fine_true {α : Type} {x : Access α} : x.Fine fun _ => True := fun _ _ => trivial

lemma Access.fine_ok {α : Type} {E : SysStop → Prop} (a : α) : (Access.ok a).Fine E := nofun

/-- As far as the string at `a` goes, its bytes are fine to load; and it ends. -/
def Env.Readable (e : Env) (E : SysStop → Prop) (a : ℕ) : Prop :=
  ∀ n, (∀ i < n, ∃ b, e.load (a + i) = .ok b ∧ b ≠ 0) →
    (e.load (a + n)).Fine E ∧ (2 ^ 32 ≤ a + n → E (.exit (-1)))

/-- …and so are those of a comparison with `name`, which goes on as long as they agree. -/
def Env.Compares (e : Env) (E : SysStop → Prop) (a : ℕ) (name : List UInt8) : Prop :=
  ∀ n, (∀ i < n, ∃ b ∈ name[i]?, e.load (a + i) = .ok b ∧ b ≠ 0) → (e.load (a + n)).Fine E

section

variable {e : Env} {E : SysStop → Prop} {a : ℕ}

lemma Env.Readable.head (h : e.Readable E a) : (e.load a).Fine E := (h 0 nofun).1

lemma Env.Readable.tail (h : e.Readable E a) {b : UInt8} (hb : e.load a = .ok b) (hb0 : b ≠ 0) :
    e.Readable E (a + 1) := by
  intro n hn
  have hshift (i : ℕ) : a + 1 + i = a + (i + 1) := by omega
  rw [hshift]
  refine h (n + 1) fun i hi => ?_
  cases i with
  | zero => exact ⟨b, hb, hb0⟩
  | succ i =>
    rw [← hshift]
    exact hn i (by omega)

lemma Env.Readable.compares (h : e.Readable E a) (name : List UInt8) : e.Compares E a name := by
  refine fun n hn => (h n fun i hi => ?_).1
  obtain ⟨b, -, hb⟩ := hn i hi
  exact ⟨b, hb⟩

lemma Env.Compares.tail {b : UInt8} {name : List UInt8} (h : e.Compares E a (b :: name))
    (hb : e.load a = .ok b) (hb0 : b ≠ 0) : e.Compares E (a + 1) name := by
  intro n hn
  have hshift (i : ℕ) : a + 1 + i = a + (i + 1) := by omega
  rw [hshift]
  refine h (n + 1) fun i hi => ?_
  cases i with
  | zero => exact ⟨b, rfl, hb, hb0⟩
  | succ i =>
    rw [← hshift]
    exact hn i (by omega)

/-! ## Memory -/

variable {σ ν : Type} {view : σ → ν} {s : σ}

lemma keeps_getByte (h : (e.load a).Fine E) : Keeps view E (getByte e a) s := ⟨rfl, h⟩

lemma keeps_putByte (h : (e.store a).Fine E) : Keeps view E (putByte e a) s := ⟨rfl, h⟩

lemma load_of_getByte {b : UInt8} (h : (getByte e a s).value = .ok b) : e.load a = .ok b := by
  have hval : (e.load a).toExcept = .ok b := h
  cases hload : e.load a with
  | ok b' =>
    rw [hload] at hval
    cases hval
    rfl
  | exits => rw [hload] at hval; cases hval
  | panics => rw [hload] at hval; cases hval

lemma keeps_getWord (h : ∀ x, a ≤ x → x < a + 4 → (e.load x).Fine E) :
    Keeps view E (getWord e a) s := by
  refine (keeps_getByte (h a (by omega) (by omega))).bind fun _ _ => ?_
  refine (keeps_getByte (h _ (by omega) (by omega))).bind fun _ _ => ?_
  refine (keeps_getByte (h _ (by omega) (by omega))).bind fun _ _ => ?_
  exact (keeps_getByte (h _ (by omega) (by omega))).bind fun _ _ => keeps_pure _

lemma keeps_getBytes {n : ℕ} (h : ∀ x, a ≤ x → x < a + n → (e.load x).Fine E) :
    Keeps view E (getBytes e a n) s := by
  induction n generalizing a s with
  | zero => exact keeps_pure _
  | succ n ih =>
    refine (keeps_getByte (h a (by omega) (by omega))).bind fun _ _ => ?_
    exact (ih fun x hx hx' => h x (by omega) (by omega)).bind fun _ _ => keeps_pure _

lemma keeps_putBytes {n : ℕ} (h : ∀ x, a ≤ x → x < a + n → (e.store x).Fine E) :
    Keeps view E (putBytes e a n) s := by
  induction n generalizing a s with
  | zero => exact keeps_pure _
  | succ n ih =>
    refine (keeps_putByte (h a (by omega) (by omega))).bind fun _ _ => ?_
    exact ih fun x hx hx' => h x (by omega) (by omega)

lemma keeps_getString (h : e.Readable E a) : Keeps view E (getString e a (2 ^ 32 - a)) s := by
  generalize hn : 2 ^ 32 - a = n
  induction n generalizing a s with
  | zero => exact keeps_stop ((h 0 nofun).2 (by omega))
  | succ n ih =>
    refine (keeps_getByte h.head).bind fun b hb => ?_
    split
    · exact keeps_pure _
    · rename_i hb0
      exact (ih (h.tail (load_of_getByte hb) hb0) (by omega)).bind fun _ _ => keeps_pure _

lemma keeps_strcmp {name : List UInt8} (h : e.Compares E a name) :
    Keeps view E (strcmp e a name) s := by
  induction name generalizing a s with
  | nil => exact (keeps_getByte (h 0 nofun)).bind fun _ _ => keeps_pure _
  | cons c name ih =>
    refine (keeps_getByte (h 0 nofun)).bind fun b hb => ?_
    split
    · rename_i hb0
      obtain ⟨hb0, rfl⟩ := hb0
      exact ih (h.tail (load_of_getByte hb) hb0)
    · exact keeps_pure _

lemma keeps_isPaged (h : isUserVaddr a = false → E .panic) : Keeps view E (isPaged e a) s := by
  rw [isPaged]
  split
  · exact keeps_pure _
  · exact keeps_stop (h (Bool.eq_false_iff.mpr ‹_›))

lemma keeps_isUserAndMapped : Keeps view E (isUserAndMapped e a) s := by
  rw [isUserAndMapped]
  split
  · exact keeps_isPaged fun h => by simp_all
  · exact keeps_pure _

end

/-! ## Files -/

section

variable {e : Env} {E : SysStop → Prop} {k : Kernel}

/-- What the work on files leaves alone: the semaphore and the table of descriptors. -/
def Kernel.front (k : Kernel) : ℕ × (ℕ → Option ℕ) := (k.filesysSema, k.fileDescriptors)

/-- Without an `open`, the open files as well. -/
def Kernel.files (k : Kernel) : (ℕ × (ℕ → Option ℕ)) × (ℕ → Option File) := (k.front, k.file)

variable {ν : Type}
variable {view : Kernel → ν}

/-- How many bytes the loop of `inode_read_at` and `inode_write_at` is for: without a bounce buffer,
whole sectors only. -/
def moved (bounce : Bool) (length size offset : ℕ) : ℕ :=
  let n := min size (length - offset)
  if bounce then n else if offset % sectorSize = 0 then n / sectorSize * sectorSize else 0

section

variable {bounce : Bool} {length size offset : ℕ}

lemma moved_of_chunk_eq_zero (h : chunkSize size offset length = 0) :
    moved bounce length size offset = 0 := by
  have hn : min size (length - offset) = 0 := by
    simp only [chunkSize, sectorSize] at h
    omega
  simp [moved, hn]

lemma moved_of_chunk_lt (h : chunkSize size offset length < sectorSize) :
    moved false length size offset = 0 := by
  simp only [chunkSize, sectorSize, moved] at *
  by_cases hmod : offset % 512 = 0
  · have hn : min size (length - offset) / 512 = 0 := by omega
    simp [hn]
  · simp [hmod]

lemma moved_chunk (h : ¬ (chunkSize size offset length < sectorSize ∧ bounce = false)) :
    chunkSize size offset length + moved bounce length (size - chunkSize size offset length)
      (offset + chunkSize size offset length) = moved bounce length size offset := by
  cases bounce with
  | true =>
    simp only [chunkSize, sectorSize, moved, if_true]
    omega
  | false =>
    have hge : sectorSize ≤ chunkSize size offset length := by simpa using h
    have hsector : sectorSize = 512 := rfl
    have hchunk : chunkSize size offset length = sectorSize := by
      simp only [chunkSize] at *
      omega
    have hmod : offset % sectorSize = 0 := by
      simp only [chunkSize] at hge
      omega
    have hsize : sectorSize ≤ min size (length - offset) := by
      simp only [chunkSize] at hge
      omega
    have hmod' : (offset + sectorSize) % sectorSize = 0 := by rw [Nat.add_mod_right, hmod]
    rw [hchunk]
    simp only [moved, Bool.false_eq_true, if_false, hmod, hmod', if_true]
    rw [hsector] at hsize ⊢
    omega

lemma keeps_transfer {buffer : ℕ} {move : ℕ → ℕ → ℕ → Sys Unit} (h : ∀ b n o k, buffer ≤ b →
      b + n ≤ buffer + moved bounce length size offset → Keeps view E (move b n o) k) (turns : ℕ) :
    Keeps view E (transfer bounce length move turns buffer size offset) k := by
  induction turns generalizing buffer size offset k with
  | zero => exact keeps_pure _
  | succ turns ih =>
    rw [transfer]
    split_ifs with hzero hbounce
    · exact keeps_pure _
    · exact keeps_pure _
    · have hmoved := moved_chunk hbounce
      refine (h _ _ _ _ (Nat.le_refl _) (by omega)).bind fun _ _ => ?_
      refine Keeps.bind (ih fun b n o k hb hn => h b n o k (by omega) (by omega)) fun _ _ => ?_
      exact keeps_pure _

lemma yields_transfer {buffer turns : ℕ} {move : ℕ → ℕ → ℕ → Sys Unit} (hturns : size ≤ turns) :
    Yields (· = moved bounce length size offset)
      (transfer bounce length move turns buffer size offset) k := by
  induction turns generalizing buffer size offset k with
  | zero =>
    exact yields_pure (moved_of_chunk_eq_zero (Nat.min_eq_zero_iff.mpr (.inl (by omega)))).symm
  | succ turns ih =>
    rw [transfer]
    split_ifs with hzero hbounce
    · exact yields_pure (moved_of_chunk_eq_zero hzero).symm
    · rw [hbounce.2]
      exact yields_pure (moved_of_chunk_lt hbounce.1).symm
    · refine Yields.bind fun _ _ => Yields.bind fun n hn => yields_pure ?_
      rw [ih (by omega) n hn, moved_chunk hbounce]

end

/-- How many bytes of a file are read or written, from where it is. -/
def Env.moves (e : Env) (k : Kernel) (f : File) (size : ℤ) : ℕ :=
  moved e.bounce (k.inode f.inode).data.length size.toNat f.pos

/-- The addresses that a transfer between `buffer` and the file of `fd` comes to. -/
def Env.Moves (e : Env) (k : Kernel) (fd : ℤ) (buffer : ℕ) (size : ℤ) (x : ℕ) : Prop :=
  ∃ ptr f, fdToFilePtr k.fileDescriptors fd = some ptr ∧ k.file ptr = some f ∧
    buffer ≤ x ∧ x < buffer + e.moves k f size

lemma keeps_derefFile {ptr : ℕ} (h : k.file ptr = none → E .wild) :
    Keeps view E (derefFile ptr) k := by
  refine keeps_read_bind ?_
  split
  · exact keeps_pure _
  · exact keeps_stop (h ‹_›)

lemma state_derefFile (ptr : ℕ) : (derefFile ptr k).state = k :=
  Keeps.state_eq (E := fun _ => True) (keeps_derefFile fun _ => trivial)

lemma file_of_derefFile {ptr : ℕ} {f : File} (h : (derefFile ptr k).value = .ok f) :
    k.file ptr = some f := by
  cases hf : k.file ptr with
  | some g =>
    simp only [derefFile, bind, Traced.read, hf, pure, Except.ok.injEq] at h
    rw [h]
  | none => simp [derefFile, bind, Traced.read, hf, Traced.stop] at h

lemma keeps_lookup {name i : ℕ} {l : List DirEntry}
    (h : ∀ d ∈ l, d.inUse = true → e.Compares E name d.name) :
    Keeps view E (lookup e name i l) k := by
  induction l generalizing i k with
  | nil => exact keeps_pure _
  | cons d l ih =>
    have hrest (d : DirEntry) (hd : d ∈ l) := h d (List.mem_cons_of_mem _ hd)
    rw [lookup]
    split
    · refine (keeps_strcmp (h d List.mem_cons_self ‹_›)).bind fun same _ => ?_
      split
      · exact keeps_pure _
      · exact ih hrest
    · exact ih hrest

lemma keeps_fileRead {ptr buffer : ℕ} {size : ℤ}
    (hview : ∀ k pos, view (k.setPos ptr pos) = view k) (hptr : k.file ptr = none → E .wild)
    (h : ∀ f, k.file ptr = some f → ∀ x, buffer ≤ x → x < buffer + e.moves k f size →
      (e.store x).Fine E) :
    Keeps view E (fileRead e ptr buffer size) k := by
  refine (keeps_derefFile hptr).bind fun f hf => ?_
  have hstore := h f (file_of_derefFile hf)
  refine Keeps.bind (keeps_read_bind ?_) fun n _ => ?_
  · rw [state_derefFile]
    exact keeps_transfer (fun b n o k hb hn =>
      keeps_putBytes fun x hx hx' => hstore x (by omega) (Nat.lt_of_lt_of_le hx' hn)) _
  · exact (keeps_update (hview _ _)).bind fun _ _ => keeps_pure _

lemma keeps_fileWrite {ptr buffer : ℕ} {size : ℤ}
    (hview : ∀ k pos, view (k.setPos ptr pos) = view k)
    (hdata : ∀ f, k.file ptr = some f → ∀ k' o b, view (k'.writeInode f.inode o b) = view k')
    (hptr : k.file ptr = none → E .wild)
    (h : ∀ f, k.file ptr = some f → ∀ x, buffer ≤ x → x < buffer + e.moves k f size →
      (e.load x).Fine E) :
    Keeps view E (fileWrite e ptr buffer size) k := by
  refine (keeps_derefFile hptr).bind fun f hf => ?_
  have hload := h f (file_of_derefFile hf)
  refine Keeps.bind (keeps_read_bind ?_) fun n _ => ?_
  · rw [state_derefFile]
    split
    · exact keeps_pure _
    · refine keeps_transfer (fun b n o k hb hn => ?_) _
      refine (keeps_getBytes fun x hx hx' => hload x (by omega) (Nat.lt_of_lt_of_le hx' hn)).bind
        fun _ _ => ?_
      exact keeps_update (hdata f (file_of_derefFile hf) _ _ _)
  · exact (keeps_update (hview _ _)).bind fun _ _ => keeps_pure _

variable {name : ℕ}

lemma keepsFiles_filesysCreate {initialSize : ℤ} (h : e.Readable E name)
    (hsize : initialSize < 0 → E .panic) :
    Keeps Kernel.files E (filesysCreate e name initialSize) k := by
  rw [filesysCreate]
  split_ifs with hroom hneg hdata
  · exact keeps_stop (hsize hneg)
  · refine keeps_read_bind ((keeps_update rfl).bind fun _ _ => ?_)
    refine (keeps_getString h).bind fun s _ => ?_
    split
    · exact keeps_pure _
    · refine keeps_read_bind ((keeps_lookup fun d _ _ => h.compares d.name).bind fun slot _ => ?_)
      split
      · exact (keeps_update rfl).bind fun _ _ => keeps_pure _
      · exact keeps_pure _
  · exact keeps_pure _
  · exact keeps_pure _

lemma keepsFiles_filesysRemove
    (h : ∀ d ∈ e.entries k, d.inUse = true → e.Compares E name d.name) (hnull : name = null → E .panic) :
    Keeps Kernel.files E (filesysRemove e name) k := by
  rw [filesysRemove]
  split
  · split
    · exact keeps_stop (hnull ‹_›)
    · refine keeps_read_bind ((keeps_lookup h).bind fun slot _ => ?_)
      split
      · split
        · exact (keeps_update rfl).bind fun _ _ => keeps_pure _
        · exact keeps_pure _
      · exact keeps_pure _
  · exact keeps_pure _

end

end Pintos
