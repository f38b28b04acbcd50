import Pintos.Filesys.DirCalls

/-!
# Filesys/Handles — a file is opened by its name

Reading a directory changes no handle, and `filesys_open`, for all that it opens and closes on its
way, leaves the counts of `Filesys/Openers` right.
-/

namespace Pintos

open Machinery Heap

namespace Fs

section

variable {s : Fs} {pend : ℕ → ℕ} {m : Mem}

/-! ## Reading -/

lemma still_readChunk (bounce : Bool) (n o chunk : ℕ) : Still (readChunk bounce n o chunk) := by
  rw [readChunk]
  split_ifs
  · exact (still_blockRead n).bind fun _ => still_pure _
  · exact (still_blockRead n).bind fun _ => still_pure _
  · exact still_pure none

lemma still_readLoop (bounce : Bool) (d : InodeDisk) (turns : ℕ) (size : ℤ) (offset : ℕ) :
    Still (readLoop bounce d turns size offset) := by
  induction turns generalizing size offset with
  | zero => exact still_pure []
  | succ turns ih =>
    rw [readLoop]
    split_ifs
    · exact still_pure []
    · refine Still.bind (still_readChunk _ _ _ _) fun bytes => ?_
      cases bytes with
      | none => exact still_pure []
      | some bytes => exact Still.bind (ih _ _) fun rest => still_pure _

lemma still_inodeReadAt (m : Mem) (a : ℕ) (size : ℤ) (offset : ℕ) :
    Still (inodeReadAt m a size offset) := by
  intro s
  simp only [inodeReadAt, gives_bind, gives_get, gives_orThrow]
  intro i _
  exact still_readLoop _ _ _ _ _ s

lemma still_findEntry (m : Mem) (a : ℕ) (p : DirEntry → Bool) (turns ofs : ℕ) :
    Still (findEntry m a p turns ofs) := by
  induction turns generalizing ofs with
  | zero => exact still_pure _
  | succ turns ih =>
    refine Still.bind (Still.bind (still_inodeReadAt _ _ _ _) fun _ => still_pure _) fun entry => ?_
    cases entry with
    | none => exact still_pure _
    | some e =>
      show Still (if p e then pure (some e, ofs) else findEntry m a p turns (ofs + entrySize))
      split_ifs
      · exact still_pure _
      · exact ih _

lemma still_turns (a : ℕ) : Still (turns a) := by
  intro s
  simp only [turns, inodeLength, gives_bind, gives_get, gives_orThrow, gives_pure]
  exact fun _ _ => trivial

lemma still_lookup (m : Mem) (a : ℕ) (name : CString) : Still (lookup m a name) := by
  refine Still.bind (still_turns a) fun n => ?_
  exact Still.bind (still_findEntry _ _ _ _ _) fun _ => still_pure _

/-! ## By name -/

variable (h : Counted pend s)

include h

lemma gives_dirOpenRoot :
    Gives (dirOpenRoot m) s fun _ s' => Counted pend s' ∧ s'.files = s.files := by
  rw [dirOpenRoot, gives_bind]
  refine (gives_inodeOpen_pending _ _ h).mono fun r s₁ h₁ => ?_
  exact (gives_dirOpen_pending _ h₁.1).mono fun _ _ h₂ => ⟨h₂.1, h₂.2.trans h₁.2⟩

lemma gives_dirLookup (dir : ℕ) (name : CString) : Gives (dirLookup m dir name) s fun r s' =>
      Counted (r.elim pend (more pend)) s' ∧ s'.files = s.files := by
  simp only [dirLookup, dirInode, gives_bind, gives_get, gives_orThrow, gives_pure]
  intro d _
  refine (still_lookup _ d.inode name s).mono fun r s₁ hheaps => ?_
  have hc := h.of_heaps_eq hheaps
  have hfiles := files_of_heaps hheaps
  cases r with
  | none => exact (gives_pure none).mpr ⟨hc, hfiles⟩
  | some found =>
    exact (gives_inodeOpen_pending _ _ hc).mono fun _ _ h₂ => ⟨h₂.1, h₂.2.trans hfiles⟩

/-- `filesys_open` leaves the counts right, and opens one file at most. -/
lemma gives_filesysOpen (name : CString) :
    Gives (filesysOpen m name) s fun r s' => Counted pend s' ∧ FileOpened s s' r := by
  rw [filesysOpen, gives_bind]
  refine (gives_dirOpenRoot h).mono ?_
  rintro r s₁ ⟨hc₁, hfiles₁⟩
  cases r with
  | none => exact (gives_pure none).mpr ⟨hc₁, .inl ⟨rfl, hfiles₁⟩⟩
  | some dir =>
    simp only [gives_bind]
    refine (gives_dirLookup hc₁ dir name).mono ?_
    rintro r s₂ ⟨hc₂, hfiles₂⟩
    refine (gives_dirClose _ hc₂).mono ?_
    rintro _ s₃ ⟨hc₃, hfiles₃⟩
    refine (gives_fileOpen_pending _ hc₃).mono fun r s₄ h₄ => ⟨h₄.1, h₄.2.of_files ?_⟩
    exact hfiles₃.trans (hfiles₂.trans hfiles₁)

end

end Fs

end Pintos
