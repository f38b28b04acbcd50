import Pintos.Threads.Vaddr

/-!
# Vm/Page — supplemental page table entries, and the page image an entry describes

An entry made by `load_segment` covers its page: bytes of the executable, then zeros. An entry made
when the stack grows covers nothing, and `fileImage` then leaves the frame as it was found.
-/

namespace Pintos

open Function Option List

/-- `struct SPT_entry`. The byte counts never exceed a page: `load_segment` splits one, the other
two callers of `create_SPT_entry` pass zeros. -/
structure SptEntry where
  isStackPage : Bool
  vaddr : ℕ
  residentBit : Bool
  swapIndex : ℤ
  dirtyBit : Bool
  ofs : ℕ
  pageReadBytes : ℕ
  pageZeroBytes : ℕ
  writable : Bool
  fits : pageReadBytes + pageZeroBytes ≤ pgSize

/-- The entry `create_SPT_entry` fills in. -/
def SptEntry.create (vaddr : ℕ) (residentBit : Bool) (ofs pageReadBytes pageZeroBytes : ℕ)
    (writable : Bool) (fits : pageReadBytes + pageZeroBytes ≤ pgSize) : SptEntry where
  isStackPage := false
  vaddr := vaddr
  residentBit := residentBit
  swapIndex := 0
  dirtyBit := false
  ofs := ofs
  pageReadBytes := pageReadBytes
  pageZeroBytes := pageZeroBytes
  writable := writable
  fits := fits

/-- The SPT of a process: the hash table, keyed by page number. -/
abbrev SpTable := ℕ → Option SptEntry

/-- `hash_insert`: an entry already there stays. -/
def SpTable.insert (spt : SpTable) (n : ℕ) (e : SptEntry) : SpTable :=
  match spt n with
  | some _ => spt
  | none => update spt n (some e)

lemma SpTable.insert_apply (spt : SpTable) (n : ℕ) (e : SptEntry) (m : ℕ) :
    spt.insert n e m = (spt m).or (if m = n then some e else none) := by
  rw [SpTable.insert]
  cases h : spt n with
  | some d =>
    show spt m = _
    rcases eq_or_ne m n with rfl | hne
    · rw [h, some_or]
    · rw [if_neg hne, or_none]
  | none =>
    show update spt n (some e) m = _
    rcases eq_or_ne m n with rfl | hne
    · rw [if_pos rfl, h, none_or, update_self]
    · rw [if_neg hne, or_none, update_of_ne hne]

/-- A list of entries, asked for one after the other. -/
def SpTable.insertAll (spt : SpTable) (l : List (ℕ × SptEntry)) : SpTable :=
  l.foldl (fun spt p => spt.insert p.1 p.2) spt

lemma SpTable.insertAll_append (spt : SpTable) (l l' : List (ℕ × SptEntry)) :
    spt.insertAll (l ++ l') = (spt.insertAll l).insertAll l' := List.foldl_append

lemma SpTable.insertAll_apply (l : List (ℕ × SptEntry)) (spt : SpTable) (n : ℕ) :
    spt.insertAll l n = (spt n).or (l.lookup n) := by
  induction l generalizing spt with
  | nil => rw [lookup_nil, or_none, SpTable.insertAll, foldl_nil]
  | cons p l ih =>
    have hcons : spt.insertAll (p :: l) = (spt.insert p.1 p.2).insertAll l := rfl
    rw [hcons, ih, SpTable.insert_apply, Option.or_assoc]
    congr 1
    rcases eq_or_ne n p.1 with rfl | hne
    · rw [if_pos rfl, some_or, lookup_cons_self]
    · rw [if_neg hne, none_or, lookup_cons, beq_eq_false_iff_ne.mpr hne]

lemma SpTable.lookup_of_mem {l : List (ℕ × SptEntry)} (hnodup : (l.map Prod.fst).Nodup) {n : ℕ}
    {e : SptEntry}
    (h : (n, e) ∈ l) : l.lookup n = some e := by
  obtain ⟨l₁, l₂, rfl⟩ := append_of_mem h
  refine lookup_eq_some_iff.mpr ⟨l₁, l₂, rfl, fun p hp => bne_iff_ne.mpr ?_⟩
  rintro rfl
  rw [map_append, nodup_append] at hnodup
  exact hnodup.2.2 _ (mem_map_of_mem hp) _ mem_cons_self rfl

/-- Writing through a pointer to the entry of page `n`. -/
def SpTable.modify (spt : SpTable) (n : ℕ) (f : SptEntry → SptEntry) : SpTable :=
  update spt n ((spt n).map f)

@[simp] lemma SpTable.modify_self (spt : SpTable) (n : ℕ) (f : SptEntry → SptEntry) :
    spt.modify n f n = (spt n).map f := by simp [SpTable.modify]

/-- The page is read from swap when it comes back, and not from the executable. -/
def SptEntry.fromSwap (e : SptEntry) : Bool := !e.residentBit && (e.dirtyBit || e.isStackPage)

/-- The page after the file branch of `page_fault`: `file_read` of what the file has, `memset` of
the tail, and the frame's bytes elsewhere. -/
def SptEntry.fileImage (e : SptEntry) (executable : List UInt8) (stale : Page) : Page := fun i =>
  if i.val < e.pageReadBytes ∧ e.ofs + i.val < executable.length then
    executable.getD (e.ofs + i.val) 0
  else if e.pageReadBytes ≤ i.val ∧ i.val < e.pageReadBytes + e.pageZeroBytes then 0
  else stale i

/-- The entry accounts for every byte of its page, and the executable has the bytes it promises. -/
def SptEntry.Covers (e : SptEntry) (executable : List UInt8) : Prop :=
  e.pageReadBytes + e.pageZeroBytes = pgSize ∧ e.ofs + e.pageReadBytes ≤ executable.length

instance (e : SptEntry) (executable : List UInt8) : Decidable (e.Covers executable) :=
  inferInstanceAs (Decidable (_ ∧ _))

lemma SptEntry.Covers.fileImage_eq {e : SptEntry} {executable : List UInt8}
    (h : e.Covers executable) (stale stale' : Page) :
    e.fileImage executable stale = e.fileImage executable stale' := by
  obtain ⟨hall, hlen⟩ := h
  funext i
  have hi := lt_of_lt_of_eq i.isLt hall.symm
  by_cases hr : i.val < e.pageReadBytes
  · have hin : e.ofs + i.val < executable.length := by omega
    simp [SptEntry.fileImage, hr, hin]
  · have hz : e.pageReadBytes ≤ i.val := by omega
    simp [SptEntry.fileImage, hz, hi]

end Pintos
