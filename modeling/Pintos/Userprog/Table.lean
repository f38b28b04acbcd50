import Pintos.Userprog.Served

/-!
# Userprog/Table — the table of descriptors

`file_descriptors` is one table for all processes. `open` fills a place that is free, and nothing is
ever taken out; a call with a descriptor works on the file that it finds, and on no other.
-/

namespace Pintos

open Machinery Traced Function List

/-- The descriptor a call was made with. -/
def Critical.fd : Critical → Option ℤ
  | .filesize fd => some fd
  | .read fd _ _ => some fd
  | .write fd _ _ => some fd
  | .seek fd _ _ => some fd
  | .tell fd _ => some fd
  | _ => none

/-- The file it has found for it, before the semaphore. -/
def Critical.found : Critical → Option ℕ
  | .seek _ filePtr _ => some filePtr
  | .tell _ filePtr => some filePtr
  | _ => none

/-! ## The table -/

/-- What is in the table stays there. -/
def Kernel.Extends (k k' : Kernel) : Prop :=
  ∀ fd ptr, fdToFilePtr k.fileDescriptors fd = some ptr → fdToFilePtr k'.fileDescriptors fd = some ptr

/-- `fd` is a new descriptor, for `filePtr`. -/
structure Kernel.Gives (k : Kernel) (fd : ℤ) (filePtr : ℕ) (k' : Kernel) : Prop where
  range : 2 ≤ fd ∧ fd ≤ 129
  free : fdToFilePtr k.fileDescriptors fd = none
  given : fdToFilePtr k'.fileDescriptors fd = some filePtr
  others : ∀ fd', fd' ≠ fd → fdToFilePtr k'.fileDescriptors fd' = fdToFilePtr k.fileDescriptors fd'

/-- There is a place in the table, and `open` has a page for its `struct thread_file`. -/
def Kernel.CanGive (e : Env) (k : Kernel) : Prop :=
  (∃ i < fdMax, k.fileDescriptors i = none) ∧ (e.fdPage = true ∨ e.store null = .ok ())

/-- `sema_up`. -/
def Kernel.up (k : Kernel) : Kernel := { k with filesysSema := k.filesysSema + 1 }

section

variable {e : Env} {E : SysStop → Prop} {k k' : Kernel}

lemma Kernel.extends_of_eq (h : k'.fileDescriptors = k.fileDescriptors) : k.Extends k' := by
  intro fd ptr hptr
  rwa [h]

lemma Kernel.Gives.extends {fd : ℤ} {filePtr : ℕ} (h : k.Gives fd filePtr k') : k.Extends k' := by
  intro fd' ptr hptr
  have hne : fd' ≠ fd := by
    rintro rfl
    cases h.free.symm.trans hptr
  rwa [h.others fd' hne]

lemma Kernel.Gives.of_eq {k₀ : Kernel} {fd : ℤ} {filePtr : ℕ} (h : k.Gives fd filePtr k')
    (hk : k.fileDescriptors = k₀.fileDescriptors) : k₀.Gives fd filePtr k' := by
  obtain ⟨hrange, hfree, hgiven, hothers⟩ := h
  rw [hk] at hfree hothers
  exact ⟨hrange, hfree, hgiven, hothers⟩

lemma Kernel.gives_setDescriptor {i : ℕ} (hi : i < fdMax) (hfree : k.fileDescriptors i = none)
    {filePtr : ℕ} (h : k'.fileDescriptors = update k.fileDescriptors i (some filePtr)) :
    k.Gives (i + 2) filePtr k' where
  range := by
    have hmax : i < 128 := hi
    omega
  free := (fdToFilePtr_of_index hi).trans hfree
  given := (fdToFilePtr_of_index hi).trans (h ▸ update_self ..)
  others fd' hne := by
    rw [fdToFilePtr, fdToFilePtr]
    split_ifs with hrange
    · rfl
    · rw [h]
      exact update_of_ne (by omega) ..

lemma ends_getFileDescriptor (file : ℕ) :
    Ends (fun r k' => (r = .ok 0 ∧ k' = k ∧ ∀ i < fdMax, k.fileDescriptors i ≠ none) ∨
      ∃ i < fdMax, r = .ok ((i : ℤ) + 2) ∧ k.fileDescriptors i = none ∧ k' = k.setDescriptor i file)
      (getFileDescriptor file) k := by
  cases hfind : (range fdMax).find? fun i => (k.fileDescriptors i).isNone with
  | none =>
    have hfull (i : ℕ) (hi : i < fdMax) : k.fileDescriptors i ≠ none := by
      simpa using find?_eq_none.mp hfind i (mem_range.mpr hi)
    refine .inl ?_
    simp only [getFileDescriptor, bind, Traced.read, hfind]
    exact ⟨rfl, rfl, hfull⟩
  | some i =>
    have hfree : k.fileDescriptors i = none := by simpa using find?_some hfind
    have hi : i < fdMax := mem_range.mp (mem_of_find?_eq_some hfind)
    refine .inr ⟨i, hi, ?_⟩
    simp only [getFileDescriptor, bind, Traced.read, hfind]
    exact ⟨rfl, hfree, rfl⟩

lemma ends_putByte_bind {α : Type} {Q : Except SysStop α → Kernel → Prop} {a : ℕ}
    {f : Unit → Sys α} (hok : e.store a = .ok () → Ends Q (f ()) k)
    (herror : ∀ stop, (e.store a).toExcept = .error stop → Q (.error stop) k) :
    Ends Q (putByte e a >>= f) k := by
  rw [ends_bind, Ends, putByte]
  cases hst : e.store a with
  | ok u => exact hok hst
  | exits => exact herror _ (by rw [hst]; rfl)
  | panics => exact herror _ (by rw [hst]; rfl)

/-- How `open` gives out a descriptor: the file gets a free place, or the call stops. Then there is
no place, or no page; and the place may have been taken by the name. -/
inductive Given (e : Env) (E : SysStop → Prop) (k : Kernel) (file filePtr : ℕ) :
    Except SysStop (Option ℤ) → Kernel → Prop
  | filled {i : ℕ} (hi : i < fdMax) (hfree : k.fileDescriptors i = none)
      (hpage : e.fdPage = true ∨ e.store null = .ok ()) :
    Given e E k file filePtr (.ok (some (i + 2))) (k.setDescriptor i filePtr).up
  | stopped {stop : SysStop} {k' : Kernel} (hcan : ¬ k.CanGive e) (hE : E stop)
      (hk : k' = k ∨ ∃ i < fdMax, k.fileDescriptors i = none ∧ k' = k.setDescriptor i file) :
    Given e E k file filePtr (.error stop) k'

lemma Given.gives {file filePtr : ℕ} {fd : ℤ} (h : Given e E k file filePtr (.ok (some fd)) k') :
    k.Gives fd filePtr k' := by
  cases h with
  | filled hi hfree => exact Kernel.gives_setDescriptor hi hfree rfl

lemma Given.extends {file filePtr : ℕ} {r : Except SysStop (Option ℤ)}
    (h : Given e E k file filePtr r k') : k.Extends k' := by
  cases h with
  | filled hi hfree => exact (Kernel.gives_setDescriptor hi hfree rfl).extends
  | stopped _ _ hk =>
    obtain rfl | ⟨i, hi, hfree, rfl⟩ := hk
    · exact fun _ _ => id
    · exact (Kernel.gives_setDescriptor hi hfree rfl).extends

lemma ends_giveDescriptor (file filePtr : ℕ) (hpage : e.fdPage = true ∨ (e.store null).Fine E)
    (hfull : (∀ i < fdMax, k.fileDescriptors i ≠ none) → E .wild) :
    Ends (Given e E k file filePtr) (giveDescriptor e file filePtr) k := by
  rw [giveDescriptor, ends_bind]
  refine (ends_getFileDescriptor file).mono ?_
  rintro r k' (⟨rfl, rfl, hno⟩ | ⟨i, hi, rfl, hfree, rfl⟩)
  · have hcan : ¬ k'.CanGive e := by
      rintro ⟨⟨i, hi, hfree⟩, -⟩
      exact hno i hi hfree
    have hwild : Given e E k' file filePtr (.error .wild) k' := .stopped hcan (hfull hno) (.inl rfl)
    rw [Then]
    split
    · split
      · exact hwild
      · refine ends_putByte_bind (fun _ => hwild) fun stop hstop => ?_
        exact .stopped hcan (hpage.resolve_left ‹_› stop hstop) (.inl rfl)
    · omega
  · have hfill (hp : e.fdPage = true ∨ e.store null = .ok ()) : Ends (Given e E k file filePtr) (do
        Traced.update fun k => k.setDescriptor ((i : ℤ) + 2 - 2).toNat filePtr
        semaUp
        return some ((i : ℤ) + 2)) (k.setDescriptor i file) := by
      have hindex : ((i : ℤ) + 2 - 2).toNat = i := by omega
      have hset : (k.setDescriptor i file).setDescriptor i filePtr = k.setDescriptor i filePtr :=
        congrArg (fun table => { k with fileDescriptors := table }) (update_idem ..)
      have hgiven : Given e E k file filePtr _ _ := .filled hi hfree hp
      rw [← hset] at hgiven
      rwa [hindex]
    rw [Then]
    split
    · omega
    · split
      · exact hfill (.inl ‹_›)
      · rename_i hnone
        refine ends_putByte_bind (fun hst => hfill (.inr hst)) fun stop hstop => ?_
        refine .stopped (fun hcan => ?_) (hpage.resolve_left hnone stop hstop)
          (.inr ⟨i, hi, hfree, rfl⟩)
        rw [hcan.2.resolve_left hnone] at hstop
        cases hstop

/-- After `filesys_open`: the semaphore and the table as before, and no file less. -/
structure Kernel.Grown (k k' : Kernel) : Prop where
  sema : k'.filesysSema = k.filesysSema
  table : k'.fileDescriptors = k.fileDescriptors
  file : ∀ ptr, k.file ptr ≠ none → k'.file ptr ≠ none

lemma Kernel.Grown.refl (k : Kernel) : k.Grown k := ⟨rfl, rfl, fun _ => id⟩

/-- What `filesys_open` opens is open afterwards. -/
structure FilesysOpened (E : SysStop → Prop) (k : Kernel) (r : Except SysStop (Option ℕ))
    (k' : Kernel) : Prop where
  grown : k.Grown k'
  stop : ∀ stop, r = .error stop → E stop
  opened : ∀ ptr, r = .ok (some ptr) → k'.file ptr ≠ none

lemma filesysOpened_none : FilesysOpened E k (.ok none) k := ⟨.refl k, nofun, nofun⟩

lemma ends_fileOpen (inode : ℕ) : Ends (FilesysOpened E k) (fileOpen e inode) k := by
  have hupdate (ptr : ℕ) (h : ptr = k.nextFile ∨ k.file ptr ≠ none) :
      update k.file k.nextFile (some ⟨inode, 0⟩) ptr ≠ none := by
    by_cases hptr : ptr = k.nextFile
    · rw [hptr, update_self]
      exact Option.some_ne_none _
    · rw [update_of_ne hptr]
      exact h.resolve_left hptr
  rw [fileOpen, ends_bind, ends_read]
  split
  · refine ⟨⟨rfl, rfl, fun ptr hptr => hupdate ptr (.inr hptr)⟩, nofun, fun ptr hptr => ?_⟩
    cases hptr
    exact hupdate _ (.inl rfl)
  · exact filesysOpened_none

lemma ends_filesysOpen {name : ℕ}
    (h : ∀ d ∈ e.entries k, d.inUse = true → e.Compares E name d.name) :
    Ends (FilesysOpened E k) (filesysOpen e name) k := by
  rw [filesysOpen]
  split
  · have hlook : Keeps id E (lookup e name 0 (e.entries k)) k := keeps_lookup h
    refine hlook.ends_bind (fun slot _ hk => ?_) fun stop k' hstop hk => ?_
    · rw [show (lookup e name 0 (e.entries k) k).state = k from hk]
      split
      · split
        · exact ends_fileOpen _
        · exact filesysOpened_none
      · exact filesysOpened_none
    · rw [show k' = k from hk]
      refine ⟨.refl k, fun stop' h' => ?_, nofun⟩
      cases h'
      exact hstop
  · exact filesysOpened_none

end

/-! ## The files a call goes to -/

/-- The file that a call with a descriptor works on. -/
def Critical.Targets (c : Critical) (k : Kernel) (ptr : ℕ) : Prop :=
  c.found = some ptr ∨ ∃ fd, c.fd = some fd ∧ fdToFilePtr k.fileDescriptors fd = some ptr

/-- What `view` sees is no business of a call: neither its own file, nor what there is in the file
system beside the open files. -/
structure Critical.Spares {ν : Type} (c : Critical) (view : Kernel → ν) (k : Kernel) : Prop where
  pos : ∀ ptr, c.Targets k ptr → ∀ k' pos, view (k'.setPos ptr pos) = view k'
  data : ∀ ptr f, c.Targets k ptr → k.file ptr = some f →
    ∀ k' offset bytes, view (k'.writeInode f.inode offset bytes) = view k'
  files : c.fd = none → ∀ k₁ k₂, k₁.files = k₂.files → view k₁ = view k₂

/-- What is left of the call, in these surroundings, stops only for reasons in `E`, the files it
follows apart. -/
def Critical.RestFine (e : Env) (E : SysStop → Prop) (k : Kernel) : Critical → Prop
  | .create file size => e.Readable E file ∧ (toInt32 size < 0 → E .panic)
  | .remove file => (∀ d ∈ e.entries k, d.inUse = true → e.Compares E file d.name) ∧
      (file = null → E .panic)
  | .openFile file => (file ≠ null → (e.load file).Fine E ∧
        ∀ d ∈ e.entries k, d.inUse = true → e.Compares E file d.name) ∧
      (e.fdPage = true ∨ (e.store null).Fine E) ∧
      ((∀ i < fdMax, k.fileDescriptors i ≠ none) → E .wild)
  | .filesize _ => True
  | .read fd buffer length => ∀ x, e.Moves k fd buffer (toInt32 length) x → (e.store x).Fine E
  | .write fd buffer size => ∀ x, e.Moves k fd buffer (toInt32 size) x → (e.load x).Fine E
  | .seek _ _ position => toInt32 position < 0 → E .panic
  | .tell .. => True

/-- …and neither does following them stop it. -/
structure Critical.Fine (e : Env) (E : SysStop → Prop) (k : Kernel) (c : Critical) : Prop where
  rest : c.RestFine e E k
  deref : ∀ ptr, c.Targets k ptr → k.file ptr = none → E .wild

lemma Critical.fine_true (c : Critical) (e : Env) (k : Kernel) :
    c.Fine e (fun _ => True) k := by
  refine ⟨?_, fun _ _ _ => trivial⟩
  cases c <;> simp [RestFine, Env.Readable, Env.Compares, Access.Fine]

variable {fd : ℤ} {c : Critical}

section

variable {e : Env} {E : SysStop → Prop} {k : Kernel} {ν : Type} {view : Kernel → ν}

/-- How `open` ends. -/
inductive Opened (e : Env) (E : SysStop → Prop) (k : Kernel) (file : ℕ) :
    Except SysStop (Option ℤ) → Kernel → Prop
  | refused {k' : Kernel} (h : k.Grown k') : Opened e E k file (.ok (some syscallError)) k'.up
  | stopped {stop : SysStop} {k' : Kernel} (hE : E stop) (h : k.Grown k') :
    Opened e E k file (.error stop) k'
  | given {k₁ k' : Kernel} {filePtr : ℕ} {r : Except SysStop (Option ℤ)} (h : k.Grown k₁)
      (hopen : k₁.file filePtr ≠ none) (hgiven : Given e E k₁ file filePtr r k') :
    Opened e E k file r k'

lemma opened_openFile {file : ℕ} (h : (Critical.openFile file).RestFine e E k) :
    Ends (Opened e E k file) (openFile e file) k := by
  obtain ⟨hread, hpage, hfull⟩ := h
  rw [openFile]
  split
  · exact .refused (.refl k)
  · obtain ⟨hhead, hname⟩ := hread ‹_›
    have hbyte : Keeps id E (getByte e file) k := keeps_getByte hhead
    refine hbyte.ends_bind (fun b _ hk => ?_) fun stop k' hstop hk => ?_
    · rw [show (getByte e file k).state = k from hk]
      split
      · exact .refused (.refl k)
      · rw [ends_bind]
        refine (ends_filesysOpen hname).mono fun r k' hopened => ?_
        rcases r with stop | (_ | filePtr)
        · exact .stopped (hopened.stop stop rfl) hopened.grown
        · exact .refused hopened.grown
        · refine (ends_giveDescriptor file filePtr hpage ?_).mono fun _ _ =>
            .given hopened.grown (hopened.opened filePtr rfl)
          rwa [hopened.grown.table]
    · rw [show k' = k from hk]
      exact .stopped hstop (.refl k)

section

variable {k' : Kernel} {file : ℕ} {r : Except SysStop (Option ℤ)} (h : Opened e E k file r k')

include h

lemma Opened.extends : k.Extends k' := by
  cases h with
  | refused h => exact k.extends_of_eq h.table
  | stopped _ h => exact k.extends_of_eq h.table
  | given h _ hgiven =>
    rw [Kernel.Extends, ← h.table]
    exact hgiven.extends

lemma Opened.fresh {fd : ℤ} (hr : r = .ok (some fd)) (h2 : 2 ≤ fd) :
    fdToFilePtr k.fileDescriptors fd = none ∧ ∃ ptr, fdToFilePtr k'.fileDescriptors fd = some ptr := by
  cases h with
  | refused =>
    cases hr
    exact absurd h2 (by decide)
  | stopped => cases hr
  | given h _ hgiven =>
    rw [hr] at hgiven
    rw [← h.table]
    exact ⟨hgiven.gives.free, _, hgiven.gives.given⟩

end

/-- How a call ends that leaves what `view` sees as it is: with its `sema_up`, or with a reason in
`E`. -/
inductive Closed (view : Kernel → ν) (E : SysStop → Prop) (k : Kernel) :
    Except SysStop (Option ℤ) → Kernel → Prop
  | up {eax : Option ℤ} {k' : Kernel} (h : view k' = view k) : Closed view E k (.ok eax) k'.up
  | stop {stop : SysStop} {k' : Kernel} (hE : E stop) (h : view k' = view k) :
    Closed view E k (.error stop) k'

lemma closed_bind {α : Type} {x : Sys α} {f : α → Option ℤ} (hx : Keeps view E x k) :
    Ends (Closed view E k) (do let a ← x; semaUp; return f a) k :=
  hx.ends_bind (fun _ _ hk => .up hk) fun _ _ => .stop

lemma Closed.keeps {x : Sys (Option ℤ)} (hup : ∀ k', view k'.up = view k')
    (h : Ends (Closed view E k) x k) : Keeps view E x k := by
  rw [Ends] at h
  rw [Keeps]
  generalize (x k).value = r, (x k).state = k' at *
  cases h with
  | up h => exact ⟨(hup _).trans h, fun _ hstop => by cases hstop⟩
  | stop hE h =>
    refine ⟨h, fun stop hstop => ?_⟩
    cases hstop
    exact hE

/-- A call but for `open` works on its file, and on no file if it has none. -/
lemma Critical.Spares.closed (h : c.Spares view k) (hopen : ∀ file, c ≠ .openFile file)
    (hfine : c.Fine e E k) (hfd : ∀ fd, c = .filesize fd → 2 ≤ fd) :
    Ends (Closed view E k) (c.run e) k := by
  have htransfer {fd : ℤ} {move : ℕ → Sys ℤ} (hmove : ∀ ptr,
      fdToFilePtr k.fileDescriptors fd = some ptr → Keeps view E (move ptr) k) :
      Ends (Closed view E k) (transferFile move fd) k := by
    rw [transferFile, ends_bind, ends_read, Then]
    cases hptr : fdToFilePtr k.fileDescriptors fd with
    | none => exact .up rfl
    | some ptr => exact closed_bind (hmove ptr hptr)
  cases c with
  | create file size =>
    have hkeeps := keepsFiles_filesysCreate (k := k) hfine.rest.1 hfine.rest.2
    exact closed_bind ⟨h.files rfl _ _ hkeeps.1, hkeeps.2⟩
  | remove file =>
    have hkeeps := keepsFiles_filesysRemove hfine.rest.1 hfine.rest.2
    exact closed_bind ⟨h.files rfl _ _ hkeeps.1, hkeeps.2⟩
  | openFile file => exact absurd rfl (hopen file)
  | filesize fd =>
    rw [run, Pintos.filesize, if_neg (Int.not_lt.mpr (hfd fd rfl)), ends_bind, ends_read, Then]
    cases hptr : fdToFilePtr k.fileDescriptors fd with
    | none => exact .up rfl
    | some ptr =>
      exact closed_bind ((keeps_derefFile (hfine.deref ptr (.inr ⟨fd, rfl, hptr⟩))).bind
        fun _ _ => keeps_read_bind (keeps_pure _))
  | read fd buffer length =>
    refine htransfer fun ptr hptr => ?_
    have htarget : (Critical.read fd buffer length).Targets k ptr := .inr ⟨fd, rfl, hptr⟩
    exact keeps_fileRead (h.pos ptr htarget) (hfine.deref ptr htarget) fun f hf x hx hx' =>
      hfine.rest x ⟨ptr, f, hptr, hf, hx, hx'⟩
  | write fd buffer size =>
    refine htransfer fun ptr hptr => ?_
    have htarget : (Critical.write fd buffer size).Targets k ptr := .inr ⟨fd, rfl, hptr⟩
    exact keeps_fileWrite (h.pos ptr htarget) (fun f => h.data ptr f htarget)
      (hfine.deref ptr htarget) fun f hf x hx hx' => hfine.rest x ⟨ptr, f, hptr, hf, hx, hx'⟩
  | seek fd ptr position =>
    have hseek : Keeps view E (fileSeek ptr (toInt32 position)) k := by
      rw [fileSeek]
      split
      · exact keeps_stop (hfine.rest ‹_›)
      · refine (keeps_derefFile (hfine.deref ptr (.inl rfl))).bind fun _ _ => ?_
        exact keeps_update (h.pos ptr (.inl rfl) _ _)
    exact hseek.ends_bind (fun _ _ hk => .up hk) fun _ _ => .stop
  | tell fd ptr =>
    exact closed_bind ((keeps_derefFile (hfine.deref ptr (.inl rfl))).bind fun _ _ => keeps_pure _)

lemma Critical.Spares.keeps (h : c.Spares view k) (hopen : ∀ file, c ≠ .openFile file)
    (hfine : c.Fine e E k) (hup : ∀ k', view k'.up = view k') : Keeps view E (c.run e) k := by
  by_cases hfd : ∀ fd, c = .filesize fd → 2 ≤ fd
  · exact Closed.keeps hup (h.closed hopen hfine hfd)
  · simp only [not_forall, Int.not_le, exists_prop] at hfd
    obtain ⟨fd, rfl, hlt⟩ := hfd
    rw [run, Pintos.filesize, if_pos hlt]
    exact keeps_pure _

variable (view) in
/-- A call with a descriptor works on its file only. -/
lemma Critical.view_run (hfd : c.fd = some fd) (hup : ∀ k', view k'.up = view k')
    (hpos : ∀ ptr, c.Targets k ptr → ∀ k' pos, view (k'.setPos ptr pos) = view k')
    (hdata : ∀ ptr f, c.Targets k ptr → k.file ptr = some f →
      ∀ k' offset bytes, view (k'.writeInode f.inode offset bytes) = view k') :
    view (c.run e k).state = view k := by
  have hspares : c.Spares view k := by
    refine ⟨hpos, hdata, fun hno => ?_⟩
    cases hfd.symm.trans hno
  refine (hspares.keeps (fun file hc => ?_) (c.fine_true e k) hup).1
  rw [hc] at hfd
  cases hfd

/-- No call takes anything out of the table. -/
lemma Critical.extends_run (c : Critical) : k.Extends (c.run e k).state := by
  have hspares : c.Spares Kernel.fileDescriptors k :=
    ⟨fun _ _ _ _ => rfl, fun _ _ _ _ _ _ _ => rfl, fun _ _ _ h => congrArg (·.1.2) h⟩
  have hfine := c.fine_true e k
  cases c with
  | openFile file => exact (opened_openFile hfine.rest).extends
  | _ => exact k.extends_of_eq (hspares.keeps nofun hfine fun _ => rfl).1

lemma Critical.files_of_no_target (hfd : c.fd = some fd) (h : ∀ ptr, ¬ c.Targets k ptr) :
    (c.run e k).state.file = k.file ∧ (c.run e k).state.inode = k.inode :=
  Prod.mk.inj (c.view_run (fun k => (k.file, k.inode)) hfd (fun _ => rfl)
    (fun ptr ht => absurd ht (h ptr)) fun ptr _ ht => absurd ht (h ptr))

/-- …and reports an error. -/
lemma Critical.yields_error (hfd : c.fd = some fd) (h : ∀ ptr, ¬ c.Targets k ptr) :
    Yields (· = some (-1)) (c.run e) k := by
  have hnone (fd : ℤ) (hc : c.fd = some fd) : fdToFilePtr k.fileDescriptors fd = none :=
    Option.eq_none_iff_forall_ne_some.mpr fun ptr hptr => h ptr (.inr ⟨fd, hc, hptr⟩)
  have htransfer (move : ℕ → Sys ℤ) (fd : ℤ) (hc : c.fd = some fd) :
      Yields (· = some (-1)) (transferFile move fd) k := by
    refine yields_read_bind ?_
    rw [hnone fd hc]
    exact .bind fun _ _ => yields_pure rfl
  cases c with
  | create => cases hfd
  | remove => cases hfd
  | openFile => cases hfd
  | filesize fd =>
    rw [run, Pintos.filesize]
    split
    · exact yields_pure rfl
    · refine yields_read_bind ?_
      rw [hnone fd rfl]
      exact .bind fun _ _ => yields_pure rfl
  | read fd buffer length => exact htransfer _ fd rfl
  | write fd buffer size => exact htransfer _ fd rfl
  | seek fd ptr position => exact absurd (.inl rfl) (h ptr)
  | tell fd ptr => exact absurd (.inl rfl) (h ptr)

end

/-- Between `k` and `k'`, no open file but the one `fd` stands for has moved, and no contents but
that file's have changed. -/
structure Kernel.Confined (k : Kernel) (fd : ℤ) (k' : Kernel) : Prop where
  file : ∀ ptr, fdToFilePtr k.fileDescriptors fd ≠ some ptr → k'.file ptr = k.file ptr
  inode : ∀ i, (∀ ptr f, fdToFilePtr k.fileDescriptors fd = some ptr → k.file ptr = some f → f.inode ≠ i) →
    k'.inode i = k.inode i

/-- A call touches no file but that of its descriptor. -/
lemma Critical.confined_run {k : Kernel} {e : Env} (hfd : c.fd = some fd)
    (h : ∀ ptr, c.Targets k ptr → fdToFilePtr k.fileDescriptors fd = some ptr) :
    k.Confined fd (c.run e k).state := by
  refine ⟨fun ptr hptr => ?_, fun i hi => ?_⟩
  · refine c.view_run (fun k => k.file ptr) hfd (fun _ => rfl) (fun ptr' ht k' pos => ?_)
      fun _ _ _ _ _ _ _ => rfl
    refine update_of_ne ?_ ..
    rintro rfl
    exact hptr (h ptr ht)
  · refine c.view_run (fun k => k.inode i) hfd (fun _ => rfl) (fun _ _ _ _ => rfl)
      fun ptr f ht hf k' _ _ => update_of_ne ?_ ..
    exact (hi ptr f (h ptr ht) hf).symm

end Pintos
