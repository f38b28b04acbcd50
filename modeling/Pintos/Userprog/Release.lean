import Pintos.Filesys.Handles
import Pintos.Filesys.Sharing
import Pintos.Userprog.Syscall

/-!
# Userprog/Release — descriptors are given out and never given back

`SYS_CLOSE` checks its argument and is done, and `thread_exit` closes the executable of the process
and nothing else. So a descriptor that is closed still names its file, and what a process had open
stays open when it is gone.
-/

namespace Pintos

open Machinery Function List Option Heap

/-! ## The calls -/

/-- The file system, `file_descriptors`, and the executable that each process runs. -/
structure Desk where
  fs : Fs
  fileDescriptors : ℕ → Option ℕ
  executable : ℕ → Option ℕ

namespace Desk

/-- A call into the file system. -/
abbrev onFs {α : Type} : FsM α → EStateM FsStop Desk α := onPart fs fun d s => { d with fs := s }

/-- `open`. Neither the page for the `struct thread_file` nor the descriptor is checked. -/
def openFile (m : Mem) (name : CString) : EStateM FsStop Desk ℤ :=
  if name.bytes = [] then return syscallError
  else do
    let opened ← onFs (Fs.filesysOpen (m.sub 0) name)
    match opened with
    | none => return syscallError
    | some file =>
      let d ← get
      if (m.sub 1).answer then
        match (List.range fdMax).find? fun i => (d.fileDescriptors i).isNone with
        | some i =>
          set { d with fileDescriptors := update d.fileDescriptors i (some file) }
          return i + 2
        | none => throw .wild
      else throw .wild

/-- `SYS_CLOSE`, its argument checked. -/
def closeFile (_fd : ℤ) : EStateM FsStop Desk Unit := return ()

/-- What `load` opens. -/
def loadExecutable (m : Mem) (process : ℕ) (name : CString) : EStateM FsStop Desk Unit := do
  let file ← onFs (Fs.filesysOpen m name)
  modify fun d => { d with executable := update d.executable process file }
  match file with
  | none => return ()
  | some file => onFs (Fs.fileDenyWrite file)

/-- What `thread_exit` closes. -/
def threadExit (m : Mem) (process : ℕ) : EStateM FsStop Desk Unit := do
  let d ← get
  match d.executable process with
  | none => return ()
  | some file =>
    onFs (Fs.fileClose m file)
    modify fun d => { d with executable := update d.executable process none }

/-- The inode of an open file. -/
def inodeOf (d : Desk) (file : ℕ) : Option ℕ := (d.fs.files.get? file).map Fs.File.inode

end Desk

/-! ## The system -/

/-- A successful `open` that no `close` and no `exit` has matched: who, which descriptor, and what
the file's inode was. -/
structure Grant where
  process : ℕ
  fd : ℤ
  inode : Option ℕ
  deriving DecidableEq

/-- The kernel with the files that it has open for itself, and with the opens that are not
matched. -/
structure OpenWorld where
  desk : Desk
  kernel : List ℕ
  grants : List Grant

/-- Processes start, open, close and exit. -/
inductive DeskCall where
  | load (m : Mem) (process : ℕ) (name : CString)
  | openFile (m : Mem) (process : ℕ) (name : CString)
  | close (process : ℕ) (fd : ℤ)
  | exit (m : Mem) (process : ℕ)

/-- What a call does to the kernel and to the list of opens. -/
def deskStep (w : OpenWorld) : DeskCall → OpenWorld → Prop
  | .load m process name, w' => w.desk.executable process = none ∧ ∃ d,
      (Desk.loadExecutable m process name).run w.desk = .ok () d ∧
        w' = ⟨d, (d.executable process).toList ++ w.kernel, w.grants⟩
  | .openFile m process name, w' => ∃ fd d, (Desk.openFile m name).run w.desk = .ok fd d ∧
      w' = ⟨d, w.kernel, if fd < 2 then w.grants
        else ⟨process, fd, (fdToFilePtr d.fileDescriptors fd).bind d.inodeOf⟩ :: w.grants⟩
  | .close _ fd, w' => ∃ d, (Desk.closeFile fd).run w.desk = .ok () d ∧
      w' = ⟨d, w.kernel, w.grants.filter fun g => g.fd ≠ fd⟩
  | .exit m process, w' => ∃ d, (Desk.threadExit m process).run w.desk = .ok () d ∧
      w' = ⟨d, (w.desk.executable process).elim w.kernel w.kernel.erase,
        w.grants.filter fun g => g.process ≠ process⟩

/-- The system of the descriptors, with nothing open at first but the free map's file. -/
def deskSystem : System OpenWorld DeskCall where
  init w := Fs.fileSystem.Reachable w.desk.fs ∧
    (∀ f x, w.desk.fs.files.get? f = some x → w.desk.fs.freeMapFile = some f) ∧
    w.desk.fileDescriptors = (fun _ => none) ∧ w.desk.executable = (fun _ => none) ∧
    w.kernel = w.desk.fs.freeMapFile.toList ∧ w.grants = []
  step := deskStep

/-- The table and the counts are what the calls say. -/
structure OpenWorld.Released (w : OpenWorld) : Prop where
  occupied : (entries fdMax w.desk.fileDescriptors).length = w.grants.length
  named : ∀ fd, (∃ f, fdToFilePtr w.desk.fileDescriptors fd = some f) ↔ ∃ g ∈ w.grants, g.fd = fd
  counted : ∀ a i, w.desk.fs.inodes.get? a = some i →
    i.openCnt = (w.grants.countP fun g => g.inode = some a) +
      ((w.kernel.countP fun f => w.desk.inodeOf f = some a) +
        (w.desk.fs.dirs.count fun d => d.inode = a))

/-! ## The books -/

/-- What the table holds, by descriptor and inode. -/
def Desk.listed (d : Desk) : List (ℤ × Option ℕ) :=
  entries fdMax fun i => (d.fileDescriptors i).map fun f => ((i : ℤ) + 2, d.inodeOf f)

/-- Every open file is on the books once: the kernel's, and those in the table, which were granted.
-/
structure OpenWorld.Booked (w : OpenWorld) : Prop where
  counted : Fs.Counted Fs.nothing w.desk.fs
  files : w.desk.fs.files.addresses.Perm (w.kernel ++ entries fdMax w.desk.fileDescriptors)
  grants : (w.grants.map fun g => (g.fd, g.inode)).Perm w.desk.listed
  mem : ∀ p f, w.desk.executable p = some f → f ∈ w.kernel
  apart : ∀ p q f, w.desk.executable p = some f → w.desk.executable q = some f → p = q

section

variable {d d' : Desk} {w w' : OpenWorld} {m : Mem}

lemma Desk.mem_listed {fd : ℤ} {o : Option ℕ} :
    (fd, o) ∈ d.listed ↔ ∃ f, fdToFilePtr d.fileDescriptors fd = some f ∧ d.inodeOf f = o := by
  rw [listed, mem_entries]
  constructor
  · rintro ⟨i, hi, hentry⟩
    obtain ⟨f, hf, heq⟩ := map_eq_some_iff.mp hentry
    obtain ⟨rfl, rfl⟩ := Prod.mk.inj heq
    exact ⟨f, fdToFilePtr_eq_some.mpr ⟨i, hi, rfl, hf⟩, rfl⟩
  · rintro ⟨f, hfd, rfl⟩
    obtain ⟨i, hi, rfl, hf⟩ := fdToFilePtr_eq_some.mp hfd
    refine ⟨i, hi, ?_⟩
    rw [hf]
    rfl

lemma Desk.listed_congr (htable : d'.fileDescriptors = d.fileDescriptors)
    (hinode : ∀ f ∈ entries fdMax d.fileDescriptors, d'.inodeOf f = d.inodeOf f) :
    d'.listed = d.listed := by
  refine entries_congr fun i hi => ?_
  rw [htable]
  cases hf : d.fileDescriptors i with
  | none => rfl
  | some f => rw [map_some, map_some, hinode f (mem_entries.mpr ⟨i, hi, hf⟩)]

lemma Desk.listed_fill {i f : ℕ} (hi : i < fdMax) (hfree : d.fileDescriptors i = none)
    (htable : d'.fileDescriptors = update d.fileDescriptors i (some f))
    (hinode : ∀ g ∈ entries fdMax d.fileDescriptors, d'.inodeOf g = d.inodeOf g) :
    d'.listed.Perm (((i : ℤ) + 2, d'.inodeOf f) :: d.listed) := by
  have hmiddle : Desk.listed ⟨d'.fs, d.fileDescriptors, d'.executable⟩ = d.listed :=
    listed_congr rfl hinode
  rw [← hmiddle]
  have hfill := entries_fill
    (t := fun j => (d.fileDescriptors j).map fun g => ((j : ℤ) + 2, d'.inodeOf g))
    hi (by rw [hfree]; rfl) ((i : ℤ) + 2, d'.inodeOf f)
  refine (List.Perm.of_eq (entries_congr fun j _ => ?_)).trans hfill
  rw [htable]
  obtain rfl | hj := eq_or_ne j i
  · rw [update_self, update_self]
    rfl
  · rw [update_of_ne hj, update_of_ne hj]

lemma OpenWorld.Booked.released (h : w.Booked) : w.Released where
  occupied := by
    have hlength := h.grants.length_eq
    rw [length_map, Desk.listed, length_entries_map] at hlength
    exact hlength.symm
  named fd := by
    constructor
    · rintro ⟨f, hf⟩
      have hlisted := Desk.mem_listed.mpr ⟨f, hf, rfl⟩
      obtain ⟨g, hg, heq⟩ := List.mem_map.mp (h.grants.mem_iff.mpr hlisted)
      exact ⟨g, hg, congrArg Prod.fst heq⟩
    · rintro ⟨g, hg, rfl⟩
      have hlisted : (g.fd, g.inode) ∈ w.desk.listed :=
        h.grants.mem_iff.mp (mem_map_of_mem hg)
      obtain ⟨f, hf, -⟩ := Desk.mem_listed.mp hlisted
      exact ⟨f, hf⟩
  counted a i hi := by
    have hopen := (h.counted.counts hi).1
    have hfiles : (w.desk.fs.files.count fun f => f.inode = a) =
        (w.kernel.countP fun f => w.desk.inodeOf f = some a) +
          (entries fdMax w.desk.fileDescriptors).countP fun f => w.desk.inodeOf f = some a := by
      rw [count_eq_countP, ← countP_append, h.files.countP_eq]
      refine countP_congr fun f _ => ?_
      rw [Desk.inodeOf]
      cases w.desk.fs.files.get? f <;> simp
    have hgrants : (w.grants.countP fun g => g.inode = some a) =
        (entries fdMax w.desk.fileDescriptors).countP fun f => w.desk.inodeOf f = some a := by
      have hcount := h.grants.countP_eq fun p => p.2 = some a
      rw [countP_map, Desk.listed,
        countP_entries_map (q := fun f => w.desk.inodeOf f = some a) fun _ _ => rfl] at hcount
      exact hcount
    rw [hopen, Fs.openers, Fs.nothing]
    omega

/-! ## The calls keep the books -/

lemma OpenWorld.Booked.open_of_mem (h : w.Booked) {f : ℕ}
    (hf : f ∈ entries fdMax w.desk.fileDescriptors) : f ∈ w.desk.fs.files.addresses :=
  h.files.mem_iff.mpr (mem_append_right _ hf)

lemma Desk.inodeOf_of_files (h : d'.fs.files = d.fs.files) (f : ℕ) : d'.inodeOf f = d.inodeOf f := by
  rw [inodeOf, inodeOf, h]

lemma Desk.inodeOf_of_alloc {x : Fs.File} (h : d'.fs.files = d.fs.files.alloc x) {f : ℕ}
    (hf : f ∈ d.fs.files.addresses) : d'.inodeOf f = d.inodeOf f := by
  obtain ⟨y, hy⟩ := mem_addresses.mp hf
  rw [inodeOf, inodeOf, h, get?_alloc_of_some hy, hy]

lemma OpenWorld.Booked.grants_congr (h : w.Booked)
    (htable : d.fileDescriptors = w.desk.fileDescriptors)
    (hinode : ∀ f ∈ entries fdMax w.desk.fileDescriptors, d.inodeOf f = w.desk.inodeOf f) :
    (w.grants.map fun g => (g.fd, g.inode)).Perm d.listed := by
  rw [Desk.listed_congr htable hinode]
  exact h.grants

lemma OpenWorld.Booked.load (h : w.Booked) (process : ℕ) (name : CString)
    (hidle : w.desk.executable process = none) :
    Gives (Desk.loadExecutable m process name) w.desk fun _ d =>
      Booked ⟨d, (d.executable process).toList ++ w.kernel, w.grants⟩ := by
  simp only [Desk.loadExecutable, gives_bind, gives_onPart, gives_modify]
  refine (Fs.gives_filesysOpen h.counted name).mono ?_
  rintro r s (⟨hcounted, ⟨rfl, hfiles⟩ | ⟨a, rfl, hfiles⟩⟩)
  · have hexecutable : update w.desk.executable process none = w.desk.executable := by
      rw [← hidle, update_eq_self]
    refine (gives_pure ()).mpr ⟨hcounted, ?_, ?_, ?_, ?_⟩
    · simpa [hexecutable, hidle, hfiles] using h.files
    · exact h.grants_congr rfl fun f _ => Desk.inodeOf_of_files hfiles f
    · simpa [hexecutable, hidle] using h.mem
    · simpa [hexecutable] using h.apart
  · simp only [gives_onPart]
    refine (Fs.gives_fileDenyWrite hcounted).mono ?_
    rintro _ s' ⟨hcounted', hsame⟩
    -- the new file is not the executable of another process, for those are open already
    have hnew (p : ℕ) : w.desk.executable p ≠ some w.desk.fs.files.next := by
      intro hp
      have hopen := h.files.mem_iff.mpr (mem_append_left _ (h.mem p _ hp))
      obtain ⟨x, hx⟩ := mem_addresses.mp hopen
      exact ne_next hx rfl
    refine ⟨hcounted', ?_, h.grants_congr rfl fun f hf => ?_, ?_, ?_⟩
    · show s'.files.addresses.Perm _
      rw [hsame.addresses, hfiles, addresses_alloc]
      simpa using h.files
    · have halloc : Desk.inodeOf ⟨s, w.desk.fileDescriptors, w.desk.executable⟩ f =
          w.desk.inodeOf f := Desk.inodeOf_of_alloc hfiles (h.open_of_mem hf)
      exact (hsame.inode f).trans halloc
    · intro p f hp
      simp only [update_self, toList_some, singleton_append, mem_cons]
      obtain rfl | hne := eq_or_ne p process
      · exact .inl (by simpa [eq_comm] using hp)
      · exact .inr (h.mem p f (by simpa [hne] using hp))
    · intro p q f hp hq
      simp only [update_apply] at hp hq
      split_ifs at hp hq with h1 h2 h2
      · rw [h1, h2]
      · exact absurd (hq.trans hp.symm) (hnew q)
      · exact absurd (hp.trans hq.symm) (hnew p)
      · exact h.apart p q f hp hq

lemma OpenWorld.Booked.openFile (h : w.Booked) (process : ℕ) (name : CString) :
    Gives (Desk.openFile m name) w.desk fun fd d =>
      Booked ⟨d, w.kernel, if fd < 2 then w.grants
        else ⟨process, fd, (fdToFilePtr d.fileDescriptors fd).bind d.inodeOf⟩ :: w.grants⟩ := by
  rw [Desk.openFile, gives_ite]
  refine ⟨fun _ => (gives_pure _).mpr h, fun _ => ?_⟩
  · simp only [gives_bind, gives_onPart]
    refine (Fs.gives_filesysOpen h.counted name).mono ?_
    rintro r s (⟨hcounted, ⟨rfl, hfiles⟩ | ⟨a, rfl, hfiles⟩⟩)
    · refine (gives_pure _).mpr ⟨hcounted, ?_, ?_, h.mem, h.apart⟩
      · simpa [hfiles] using h.files
      · exact h.grants_congr rfl fun f _ => Desk.inodeOf_of_files hfiles f
    · simp only [gives_bind, gives_get]
      split_ifs with hpage
      · split
        · rename_i i hfind
          have hi : i < fdMax := mem_range.mp (mem_of_find?_eq_some hfind)
          have hfree : w.desk.fileDescriptors i = none := by simpa using find?_some hfind
          have hfd : ¬ (i : ℤ) + 2 < 2 := by omega
          simp only [gives_bind, gives_set, gives_pure, if_neg hfd]
          refine ⟨hcounted, ?_, ?_, h.mem, h.apart⟩
          · show s.files.addresses.Perm _
            rw [hfiles]
            refine (h.files.cons _).trans (perm_middle.symm.trans ?_)
            exact (entries_fill hi hfree _).symm.append_left _
          · rw [fdToFilePtr_of_index hi, update_self]
            refine (h.grants.cons _).trans ?_
            refine (Desk.listed_fill hi hfree rfl fun g hg => ?_).symm
            exact Desk.inodeOf_of_alloc hfiles (h.open_of_mem hg)
        · exact (gives_throw _).mpr trivial
      · exact (gives_throw _).mpr trivial

lemma OpenWorld.Booked.exit (h : w.Booked) (process : ℕ) :
    Gives (Desk.threadExit m process) w.desk fun _ d =>
      Booked ⟨d, (w.desk.executable process).elim w.kernel w.kernel.erase, w.grants⟩ := by
  simp only [Desk.threadExit, gives_bind, gives_get]
  cases hf : w.desk.executable process with
  | none => exact (gives_pure ()).mpr h
  | some f =>
    simp only [gives_bind, gives_onPart, gives_modify, elim_some]
    refine (Fs.gives_fileClose m h.counted).mono ?_
    rintro _ s ⟨hcounted, s₁, hsame, hfiles⟩
    have hmem : f ∈ w.kernel := h.mem process f hf
    have hnodup := h.files.nodup_iff.mp w.desk.fs.files.nodup
    refine ⟨hcounted, ?_, h.grants_congr rfl fun g hg => ?_, ?_, ?_⟩
    · show s.files.addresses.Perm _
      rw [hfiles, addresses_free, hsame.addresses, ← erase_append_left _ hmem]
      exact h.files.erase f
    · have hne : g ≠ f := fun hgf => (nodup_append.mp hnodup).2.2 f hmem g hg hgf.symm
      show (s.files.get? g).map Fs.File.inode = _
      rw [hfiles, get?_free_of_ne hne, hsame.inode, Desk.inodeOf]
    · intro p g hp
      simp only [update_apply] at hp
      split_ifs at hp with hne
      refine (mem_erase_of_ne ?_).mpr (h.mem p g hp)
      rintro rfl
      exact hne (h.apart p process g hp hf)
    · intro p q g hp hq
      simp only [update_apply] at hp hq
      split_ifs at hp hq
      exact h.apart p q g hp hq

/-! ## Runs -/

/-- Nothing that is open is closed, and nobody exits with a file open; and for a file that is found,
`open` has a page and finds a free place. -/
def OpenWorld.Holding (w : OpenWorld) : DeskCall → Prop
  | .load .. => True
  | .openFile m _ name => ∀ file s, (Fs.filesysOpen (m.sub 0) name).run w.desk.fs = .ok (some file) s →
      (m.sub 1).answer = true ∧ ∃ i < fdMax, w.desk.fileDescriptors i = none
  | .close _ fd => ∀ g ∈ w.grants, g.fd ≠ fd
  | .exit _ process => ∀ g ∈ w.grants, g.process ≠ process

lemma OpenWorld.Booked.step (h : w.Booked) {c : DeskCall} (hc : w.Holding c)
    (hstep : deskStep w c w') : w'.Booked := by
  cases c with
  | load m process name =>
    obtain ⟨hidle, d, hrun, rfl⟩ := hstep
    exact h.load process name hidle () d hrun
  | openFile m process name =>
    obtain ⟨fd, d, hrun, rfl⟩ := hstep
    exact h.openFile process name fd d hrun
  | close process fd =>
    obtain ⟨d, hrun, rfl⟩ := hstep
    obtain rfl : w.desk = d := by cases hrun; rfl
    rwa [filter_eq_self.mpr fun g hg => decide_eq_true (hc g hg)]
  | exit m process =>
    obtain ⟨d, hrun, rfl⟩ := hstep
    rw [filter_eq_self.mpr fun g hg => decide_eq_true (hc g hg)]
    exact h.exit process () d hrun

lemma OpenWorld.booked_of_init (h : deskSystem.init w) : w.Booked := by
  obtain ⟨hreach, honly, htable, hexecutable, hkernel, hgrants⟩ := h
  obtain ⟨K, f₀, hv, hu⟩ := Fs.volume_of_reachable hreach
  have hnone : entries fdMax w.desk.fileDescriptors = [] := by
    rw [htable]
    simp [entries]
  refine ⟨hv.counted, ?_, ?_, ?_, ?_⟩
  · have hopen : ∃ x, w.desk.fs.files.get? f₀ = some x := by
      obtain ⟨i, hi, -⟩ := hv.sound.map f₀ hv.file
      obtain ⟨x, hx, -⟩ := Fs.fileInode_eq_some.mp hi
      exact ⟨x, hx⟩
    rw [hnone, hkernel, hv.file]
    refine (perm_ext_iff_of_nodup w.desk.fs.files.nodup (nodup_singleton f₀)).mpr fun f => ?_
    rw [← addresses, mem_addresses, mem_singleton]
    constructor
    · rintro ⟨x, hx⟩
      exact some.inj ((honly f x hx).symm.trans hv.file)
    · rintro rfl
      exact hopen
  · rw [hgrants, Desk.listed, htable]
    simp [entries]
  · intro p f hp
    rw [hexecutable] at hp
    cases hp
  · intro p q f hp
    rw [hexecutable] at hp
    cases hp

end

lemma exists_opened : ∃ w w' name, deskSystem.init w ∧
    deskSystem.step w (.openFile .plenty 1 name) w' ∧
    (∃ f, fdToFilePtr w'.desk.fileDescriptors 2 = some f) ∧ ∃ o, w'.grants = [⟨1, 2, o⟩] := by
  let a : CString := ⟨[97], by decide⟩
  have hrun : endsWith (fun _ s => endsWith (fun _ s => s.files.addresses = s.freeMapFile.toList ∧
      endsWith (fun fd d => fd = 2 ∧ (fdToFilePtr d.fileDescriptors 2).isSome)
        ((Desk.openFile .plenty a).run ⟨s, fun _ => none, fun _ => none⟩))
      ((Fs.FileCall.create .plenty (fun _ => 7) a 5).run.run s))
      ((Fs.filesysInit .plenty (fun _ => 0) true).run Fs.sixSectors) = true := by decide +kernel
  simp only [endsWith_iff, decide_eq_true_eq] at hrun
  obtain ⟨_, s₀, h₀, _, s₁, h₁, haddresses, _, d, h₂, rfl, hnamed⟩ := hrun
  have hfiles : Fs.fileSystem.Reachable s₁ := by
    refine .next (.start ⟨_, _, _, ⟨fun _ => rfl, fun _ => rfl, rfl⟩, h₀⟩) trivial ⟨?_, h₁⟩
    exact trivial
  refine ⟨⟨⟨s₁, fun _ => none, fun _ => none⟩, s₁.freeMapFile.toList, []⟩, _, a,
    ⟨hfiles, fun f x hx => ?_, rfl, rfl, rfl, rfl⟩, ⟨2, d, h₂, rfl⟩,
    isSome_iff_exists.mp hnamed, _, rfl⟩
  have hmem : f ∈ s₁.files.addresses := mem_addresses.mpr ⟨x, hx⟩
  rw [haddresses] at hmem
  simpa using hmem

/-- **While nothing open is closed, and nobody exits with a file open, the table and the counts are
right.** -/
theorem released_while_holding {w : OpenWorld} (hw : deskSystem.Reach OpenWorld.Holding w) :
    w.Released :=
  (hw.invariant (fun _ h => OpenWorld.booked_of_init h) fun _ _ _ h hc hstep =>
    h.step hc hstep).released

/-- One file is open, and one place of the table is taken. -/
theorem released_while_holding_one : ∃ w : OpenWorld, deskSystem.Reach OpenWorld.Holding w ∧
    w.Released ∧ w.grants.length = 1 := by
  obtain ⟨w, w', name, hinit, hstep, -, o, hgrants⟩ := exists_opened
  have hfree : w.Holding (.openFile .plenty 1 name) := fun _ _ _ =>
    ⟨rfl, 0, by decide, congrFun hinit.2.2.1 0⟩
  have hw : deskSystem.Reach OpenWorld.Holding w' := .next (.start hinit) hfree hstep
  exact ⟨w', hw, released_while_holding hw, congrArg List.length hgrants⟩

/-- A descriptor that is closed still names its file. -/
theorem close_keeps_descriptor : ∃ w : OpenWorld, deskSystem.Reachable w ∧ w.grants = [] ∧
    (∃ f, fdToFilePtr w.desk.fileDescriptors 2 = some f) ∧ ¬ w.Released := by
  obtain ⟨w, w', name, hinit, hstep, ⟨f, hf⟩, o, hgrants⟩ := exists_opened
  have hclosed : w'.grants.filter (fun g => g.fd ≠ 2) = [] := by
    rw [hgrants]
    rfl
  have hw : deskSystem.Reachable ⟨w'.desk, w'.kernel, w'.grants.filter fun g => g.fd ≠ 2⟩ :=
    .next (.next (.start hinit) trivial hstep) (a := .close 1 2) trivial ⟨w'.desk, rfl, rfl⟩
  refine ⟨_, hw, hclosed, ⟨f, hf⟩, fun hreleased => ?_⟩
  obtain ⟨g, hg, -⟩ := (hreleased.named 2).mp ⟨f, hf⟩
  rw [hclosed] at hg
  cases hg

end Pintos
