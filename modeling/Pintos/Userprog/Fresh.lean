import Pintos.Userprog.Table

/-!
# Userprog/Fresh — the descriptors that `open` hands out

`get_file_descriptor` answers 0 if there is no free place in the table; `open` takes that for a
descriptor, and writes outside the table. Before that it writes to a page that it has not checked.
-/

namespace Pintos

open Machinery Traced

section

variable {e : Env} {k k' : Kernel}

/-- What `open` promises: `-1` and the table as it was, or a new descriptor for the file just
opened. -/
def OpensFresh (e : Env) (file : ℕ) (k : Kernel) : Prop :=
  (openFile e file k).value = .ok (some syscallError) ∧
      (openFile e file k).state.fileDescriptors = k.fileDescriptors ∨
    ∃ fd filePtr, (openFile e file k).value = .ok (some fd) ∧
      (filesysOpen e file k).value = .ok (some filePtr) ∧ k.Gives fd filePtr (openFile e file k).state

lemma fileDescriptors_filesysOpen (file : ℕ) :
    (filesysOpen e file k).state.fileDescriptors = k.fileDescriptors :=
  (ends_filesysOpen (E := fun _ => True) fun _ _ _ _ _ => Access.fine_true).grown.table

section

variable {file filePtr : ℕ} {b : UInt8} (hnull : file ≠ null) (hb : e.load file = .ok b) (hname : b ≠ 0)
  (hopen : (filesysOpen e file k).value = .ok (some filePtr))

include hnull hb hname hopen

lemma ends_openFile :
    Ends (Given e (fun _ => True) (filesysOpen e file k).state file filePtr) (openFile e file) k := by
  rw [openFile, if_neg hnull, ends_bind, Ends, getByte, hb]
  simp only [Access.toExcept, Then, if_neg hname, ends_bind]
  rw [Ends, hopen]
  exact ends_giveDescriptor file filePtr (.inr Access.fine_true) fun _ => trivial

lemma opensFresh_iff : OpensFresh e file k ↔ k.CanGive e := by
  have hkeep := fileDescriptors_filesysOpen (e := e) (k := k) file
  have hgiven := ends_openFile hnull hb hname hopen
  rw [Ends] at hgiven
  rw [OpensFresh]
  generalize (openFile e file k).value = r, (openFile e file k).state = k' at *
  cases hgiven with
  | @filled i hi hfree hpage =>
    refine iff_of_true (.inr ⟨_, filePtr, rfl, hopen, ?_⟩) ⟨⟨i, hi, hkeep ▸ hfree⟩, hpage⟩
    exact (Kernel.gives_setDescriptor hi hfree rfl).of_eq hkeep
  | stopped hcan =>
    rw [Kernel.CanGive, hkeep] at hcan
    refine iff_of_false ?_ hcan
    rintro (⟨hret, -⟩ | ⟨_, _, hret, -⟩) <;> cases hret

end

end

/-- **`open` hands out fresh descriptors** just if there is a place in the table and a page for the
`struct thread_file`. -/
theorem open_fresh_descriptors {e : Env} {file filePtr : ℕ} {b : UInt8} {k : Kernel} (hnull : file ≠ null)
    (hb : e.load file = .ok b) (hname : b ≠ 0) (hopen : (filesysOpen e file k).value = .ok (some filePtr)) :
    OpensFresh e file k ↔ (∃ i < fdMax, k.fileDescriptors i = none) ∧
      (e.fdPage = true ∨ e.store null = .ok ()) :=
  opensFresh_iff hnull hb hname hopen

/-- The surroundings of an `open` of `a`. -/
def openEnv : Env := callEnv [6, 0x1010, 0, 0, 97]

/-- Nothing is open yet. -/
theorem open_fresh_descriptors_first : OpensFresh openEnv 0x1010 bootWorld.kernel :=
  (open_fresh_descriptors (b := 97) (by decide) (by decide) (by decide)
    (show (filesysOpen openEnv 0x1010 bootWorld.kernel).value = .ok (some physBase) by decide)).mpr
    ⟨⟨0, by decide, rfl⟩, .inl rfl⟩

/-- A full table: the file is open, and its place is two before the first. -/
theorem open_full_table : (filesysOpen openEnv 0x1010
      { bootWorld.kernel with fileDescriptors := fun _ => some physBase }).value = .ok (some physBase) ∧
    ¬ OpensFresh openEnv 0x1010 { bootWorld.kernel with fileDescriptors := fun _ => some physBase } := by
  have hopen : (filesysOpen openEnv 0x1010
      { bootWorld.kernel with fileDescriptors := fun _ => some physBase }).value = .ok (some physBase) := by
    decide
  refine ⟨hopen, fun h => ?_⟩
  obtain ⟨⟨i, -, hfree⟩, -⟩ :=
    (opensFresh_iff (b := 97) (by decide) (by decide) (by decide) hopen).mp h
  cases hfree

end Pintos
