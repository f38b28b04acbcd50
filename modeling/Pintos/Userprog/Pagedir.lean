import Pintos.Threads.Vaddr

/-!
# Userprog/Pagedir — page directories, and the map from pages to entries they are

`lookupPage` walks the two levels; `pteAt` reads the directory as one map from page numbers to
entries, a missing table reading as entries that are all zero. Every operation is followed by the
lemma that says what it does to that map. Only the user half of a directory is here.
-/

namespace Pintos

/-- A page table entry: its page and the flag bits the kernel uses. A user page is named by its
frame. -/
structure Pte where
  page : ℕ
  /-- `PTE_P` -/
  present : Bool
  /-- `PTE_W` -/
  writable : Bool
  /-- `PTE_A` -/
  accessed : Bool
  /-- `PTE_D` -/
  dirty : Bool
  deriving DecidableEq, Repr

/-- The entry of a page table fresh from `palloc_get_page (PAL_ZERO)`. -/
def Pte.zero : Pte := ⟨0, false, false, false, false⟩

/-- `pte_create_user`. -/
def pteCreateUser (kpage : ℕ) (writable : Bool) : Pte := ⟨kpage, true, writable, false, false⟩

/-- A page table, by table index. -/
abbrev PageTable := ℕ → Pte

/-- A page directory, by directory index. -/
abbrev PageDir := ℕ → Option PageTable

/-- `pagedir_create`: no user mappings. -/
def pagedirCreate : PageDir := fun _ => none

/-- The pages `pagedir_destroy` comes to, in its order. -/
@[irreducible] def PageDir.pages (pd : PageDir) : List ℕ :=
  (List.range (pdNo physBase)).flatMap fun d =>
    match pd d with
    | none => []
    | some pt => (List.range 1024).filterMap fun i => if (pt i).present then some (pt i).page else none

/-- `palloc_free_page` of one page after another: each has to be in use, or an assertion fails. -/
def pallocFreeAll : List ℕ → (ℕ → Bool) → Option (ℕ → Bool)
  | [], used => some used
  | page :: l, used => if used page then pallocFreeAll l (Function.update used page false) else none

/-- `lookup_page` with `create` false: the entry of `va`, unless its page table is missing. -/
def lookupPage (pd : PageDir) (va : ℕ) : Option Pte := (pd (pdNo va)).map fun pt => pt (ptNo va)

/-- Rewriting the entry of `va` in place; without a page table there is nothing to rewrite. -/
def updatePte (pd : PageDir) (va : ℕ) (f : Pte → Pte) : PageDir :=
  match pd (pdNo va) with
  | none => pd
  | some pt => Function.update pd (pdNo va) (some (Function.update pt (ptNo va) (f (pt (ptNo va)))))

/-- `lookup_page` with `create` true, as it adds a page table; `palloc_get_page` answers `alloc`. -/
def createTable (pd : PageDir) (va : ℕ) (alloc : Bool) : Option PageDir :=
  match pd (pdNo va), alloc with
  | some _, _ => some pd
  | none, true => some (Function.update pd (pdNo va) (some fun _ => Pte.zero))
  | none, false => none

/-- `pagedir_set_page`, `none` when it returns false. Its callers make sure that the page is not
mapped, so that assertion is left out. -/
def pagedirSetPage (pd : PageDir) (upage kpage : ℕ) (writable alloc : Bool) : Option PageDir :=
  (createTable pd upage alloc).map fun pd => updatePte pd upage fun _ => pteCreateUser kpage writable

/-- `pagedir_get_page`, the offset within the page left out. -/
def pagedirGetPage (pd : PageDir) (uaddr : ℕ) : Option ℕ :=
  match lookupPage pd uaddr with
  | some pte => if pte.present then some pte.page else none
  | none => none

/-- `pagedir_clear_page`: not present any more, the other bits preserved. -/
def pagedirClearPage (pd : PageDir) (upage : ℕ) : PageDir :=
  updatePte pd upage fun pte => { pte with present := false }

/-- `pagedir_is_dirty`. -/
def pagedirIsDirty (pd : PageDir) (vpage : ℕ) : Bool :=
  match lookupPage pd vpage with
  | some pte => pte.dirty
  | none => false

/-- `pagedir_is_accessed`. -/
def pagedirIsAccessed (pd : PageDir) (vpage : ℕ) : Bool :=
  match lookupPage pd vpage with
  | some pte => pte.accessed
  | none => false

/-- `pagedir_set_accessed`. -/
def pagedirSetAccessed (pd : PageDir) (vpage : ℕ) (accessed : Bool) : PageDir :=
  updatePte pd vpage fun pte => { pte with accessed := accessed }

/-! ## The map a directory is -/

/-- The entry of a page, by page number. -/
def pteAt (pd : PageDir) (n : ℕ) : Pte :=
  match pd (n / 1024) with
  | none => Pte.zero
  | some pt => pt (n % 1024)

lemma pteAt_pgNo (pd : PageDir) (va : ℕ) : pteAt pd (pgNo va) = (lookupPage pd va).getD Pte.zero := by
  rw [pteAt, ← pdNo_eq, lookupPage]
  cases pd (pdNo va) <;> rfl

/-- Rewriting one entry, seen on the map: the page's entry changes if its table is there. -/
lemma pteAt_updatePte (pd : PageDir) (va : ℕ) (f : Pte → Pte) (n : ℕ) :
    pteAt (updatePte pd va f) n
      = if n = pgNo va ∧ (pd (pdNo va)).isSome then f (pteAt pd n) else pteAt pd n := by
  have hiff : n = pgNo va ↔ n / 1024 = pdNo va ∧ n % 1024 = ptNo va := pgNo_eq_iff
  rw [updatePte]
  cases hpd : pd (pdNo va) with
  | none => simp
  | some pt =>
    by_cases hd : n / 1024 = pdNo va
    · by_cases ht : n % 1024 = ptNo va
      · simp [pteAt, hiff, hd, ht, hpd]
      · simp [pteAt, hiff, hd, ht, hpd]
    · simp [pteAt, hiff, hd]

lemma pteAt_updatePte_of_zero (pd : PageDir) (va : ℕ) {f : Pte → Pte} (hf : f Pte.zero = Pte.zero)
    (n : ℕ) : pteAt (updatePte pd va f) n = if n = pgNo va then f (pteAt pd n) else pteAt pd n := by
  rw [pteAt_updatePte]
  by_cases hn : n = pgNo va
  · cases hpd : pd (pdNo va) with
    | none =>
      have hz : pteAt pd n = Pte.zero := by rw [hn, pteAt, ← pdNo_eq, hpd]
      simp [hn, hf, hn ▸ hz]
    | some pt => simp [hn]
  · simp [hn]

variable {pd pd' : PageDir}

lemma pteAt_createTable {va : ℕ} {alloc : Bool} (h : createTable pd va alloc = some pd') (n : ℕ) :
    pteAt pd' n = pteAt pd n := by
  unfold createTable at h
  split at h
  · cases h; rfl
  · rename_i hpd
    cases h
    by_cases hd : n / 1024 = pdNo va
    · simp [pteAt, hd, hpd]
    · simp [pteAt, hd]
  · cases h

lemma isSome_createTable {va : ℕ} {alloc : Bool} (h : createTable pd va alloc = some pd') :
    (pd' (pdNo va)).isSome := by
  unfold createTable at h
  split at h
  · rename_i hpd; cases h; simp [hpd]
  · cases h; simp
  · cases h

lemma pteAt_pagedirSetPage {upage kpage : ℕ} {writable alloc : Bool}
    (h : pagedirSetPage pd upage kpage writable alloc = some pd') (n : ℕ) :
    pteAt pd' n = if n = pgNo upage then pteCreateUser kpage writable else pteAt pd n := by
  obtain ⟨pt, hpt, rfl⟩ := Option.map_eq_some_iff.mp h
  rw [pteAt_updatePte, isSome_createTable hpt, pteAt_createTable hpt]
  simp

lemma isSome_pagedirSetPage (pd : PageDir) (upage kpage : ℕ) (writable : Bool) :
    (pagedirSetPage pd upage kpage writable true).isSome := by
  cases hpd : pd (pdNo upage) <;> simp [pagedirSetPage, createTable, hpd]

lemma pagedirGetPage_eq (pd : PageDir) (va : ℕ) :
    pagedirGetPage pd va
      = if (pteAt pd (pgNo va)).present then some (pteAt pd (pgNo va)).page else none := by
  rw [pteAt_pgNo, pagedirGetPage]
  cases lookupPage pd va <;> simp [Pte.zero]

lemma pagedirIsDirty_eq (pd : PageDir) (va : ℕ) :
    pagedirIsDirty pd va = (pteAt pd (pgNo va)).dirty := by
  rw [pteAt_pgNo, pagedirIsDirty]
  cases lookupPage pd va <;> rfl

lemma pagedirIsAccessed_eq (pd : PageDir) (va : ℕ) :
    pagedirIsAccessed pd va = (pteAt pd (pgNo va)).accessed := by
  rw [pteAt_pgNo, pagedirIsAccessed]
  cases lookupPage pd va <;> rfl

lemma pteAt_pagedirClearPage (pd : PageDir) (va n : ℕ) :
    pteAt (pagedirClearPage pd va) n
      = if n = pgNo va then { pteAt pd n with present := false } else pteAt pd n :=
  pteAt_updatePte_of_zero pd va rfl n

lemma pteAt_pagedirSetAccessed_false (pd : PageDir) (va n : ℕ) :
    pteAt (pagedirSetAccessed pd va false) n
      = if n = pgNo va then { pteAt pd n with accessed := false } else pteAt pd n :=
  pteAt_updatePte_of_zero pd va rfl n

lemma isSome_of_present {pd : PageDir} {va : ℕ} (h : (pteAt pd (pgNo va)).present = true) :
    (pd (pdNo va)).isSome := by
  rw [pteAt, ← pdNo_eq] at h
  cases hpd : pd (pdNo va) with
  | none => rw [hpd] at h; cases h
  | some _ => rfl

end Pintos
