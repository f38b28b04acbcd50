import Pintos.Lib.Strings
import Pintos.Lib.Ustar

/-!
# Lib/Headers — what an archive header cannot do

The name that `ustar_parse_header` returns is a suffix of the name in the header, and it leads
nowhere but down. And the sum of the bytes is in the header, so that a byte that changes is found
out.
-/

namespace Pintos

open Machinery Text Function List Nat

/-! ## The string in a field -/

lemma Text.strAt_succ (m : ℕ → UInt8) (p room : ℕ) :
    strAt m p (room + 1) = if m p = 0 then [] else m p :: strAt m (p + 1) room := by
  have htail : (range room).map ((fun i => m (p + i)) ∘ succ) =
      (range room).map fun i => m (p + 1 + i) :=
    map_congr_left fun i _ => by rw [Function.comp_apply, add_assoc, add_comm 1 i]
  rw [strAt, range_succ_eq_map, map_cons, map_map, htail]
  split
  · next hnul => exact takeWhile_cons_of_neg (by simp [hnul])
  · next hchar => exact takeWhile_cons_of_pos (decide_eq_true hchar)

/-- A field with a null character has a string in it, which ends there at the latest. -/
lemma Text.strAt_spec {m : ℕ → UInt8} {p last room : ℕ} (hlast : last < room)
    (hnul : m (p + last) = 0) :
    Strings.StrAt m p (strAt m p room) ∧ (strAt m p room).length ≤ last := by
  induction room generalizing p last with
  | zero => exact absurd hlast (not_lt_zero last)
  | succ room ih =>
    rw [strAt_succ]
    split
    · next hend => exact ⟨hend, zero_le last⟩
    · next hchar =>
      obtain ⟨last, rfl⟩ : ∃ k, last = k + 1 := exists_eq_add_one_of_ne_zero fun h => by
        subst h
        exact hchar hnul
      obtain ⟨hstr, hlen⟩ := ih (lt_of_succ_lt_succ hlast)
        (by rwa [add_assoc, add_comm 1 last])
      exact ⟨⟨rfl, hstr⟩, succ_le_succ hlen⟩

lemma Strings.StrAt.suffix {m : ℕ → UInt8} {p : ℕ} {l l' : List UInt8} (h : Strings.StrAt m p l)
    (hsuffix : l' <:+ l) : ∃ k, Strings.StrAt m k l' ∧ k + l'.length = p + l.length := by
  obtain ⟨l₁, rfl⟩ := hsuffix
  exact ⟨p + l₁.length, h.append, by rw [length_append, add_assoc]⟩

namespace Ustar

/-! ## The checksum -/

/-- The byte that counts for the sum. -/
def chksumByte (h : ℕ → UInt8) (i : ℕ) : UInt8 := if i ≥ 148 ∧ i < 148 + 8 then ascii ' ' else h i

/-- The sum goes on with a byte. -/
def addByte (f : ℕ → UInt8) (chksum i : ℕ) : ℕ := (chksum + (f i).toNat) % 2 ^ 32

lemma calculateChksum_eq (h : ℕ → UInt8) :
    calculateChksum h = (List.range ustarHeaderSize).foldl (addByte (chksumByte h)) 0 := rfl

lemma addByte_lt (f : ℕ → UInt8) (chksum i : ℕ) : addByte f chksum i < 2 ^ 32 :=
  Nat.mod_lt _ (by decide)

lemma foldl_addByte_ne (f : ℕ → UInt8) (l : List ℕ) {a b : ℕ} (ha : a < 2 ^ 32) (hb : b < 2 ^ 32)
    (hne : a ≠ b) : l.foldl (addByte f) a ≠ l.foldl (addByte f) b := by
  induction l generalizing a b with
  | nil => exact hne
  | cons i l ih =>
    refine ih (addByte_lt f a i) (addByte_lt f b i) ?_
    rw [addByte, addByte]
    omega

lemma foldl_addByte_congr {f g : ℕ → UInt8} {l : List ℕ} (h : ∀ i ∈ l, f i = g i) (a : ℕ) :
    l.foldl (addByte f) a = l.foldl (addByte g) a :=
  foldl_ext _ _ _ fun chksum i hi => by rw [addByte, addByte, h i hi]

variable {h : ℕ → UInt8}

/-- A byte that changes shows in the sum. -/
lemma calculateChksum_update {i : ℕ} (hi : i < ustarHeaderSize) (hout : i < 148 ∨ 156 ≤ i)
    {v : UInt8} (hv : v ≠ h i) : calculateChksum (update h i v) ≠ calculateChksum h := by
  have hfield : ¬ (i ≥ 148 ∧ i < 148 + 8) := by omega
  have hsame {j : ℕ} (hj : j ≠ i) : chksumByte (update h i v) j = chksumByte h j := by
    rw [chksumByte, chksumByte, update_of_ne hj]
  have hbyte : chksumByte (update h i v) i = v := by rw [chksumByte, if_neg hfield, update_self]
  have hbyte' : chksumByte h i = h i := if_neg hfield
  obtain ⟨l₁, l₂, hsplit⟩ := append_of_mem (mem_range.mpr hi)
  have hnodup := nodup_range (n := ustarHeaderSize)
  rw [hsplit, nodup_append, nodup_cons] at hnodup
  obtain ⟨-, ⟨hnot₂, -⟩, hdisjoint⟩ := hnodup
  have hnot₁ : i ∉ l₁ := fun hmem => hdisjoint i hmem i mem_cons_self rfl
  rw [calculateChksum_eq, calculateChksum_eq, hsplit, foldl_append, foldl_append, foldl_cons,
    foldl_addByte_congr (g := chksumByte h) fun j hj => hsame (ne_of_mem_of_not_mem hj hnot₁),
    foldl_addByte_congr fun j hj => hsame (ne_of_mem_of_not_mem hj hnot₂)]
  refine foldl_addByte_ne _ _ (addByte_lt ..) (addByte_lt ..) ?_
  have hne : v.toNat ≠ (h i).toNat := fun heq => hv (UInt8.toNat_inj.mp heq)
  have hlt := v.toNat_lt
  have hlt' := (h i).toNat_lt
  rw [addByte, addByte, hbyte, hbyte']
  omega

/-! ## The name -/

lemma stripAntisocialPrefixes_suffix (fileName : List UInt8) :
    stripAntisocialPrefixes fileName = [ascii '.'] ∨
      stripAntisocialPrefixes fileName <:+ fileName := by
  simp only [stripAntisocialPrefixes]
  split
  · exact .inl rfl
  · exact .inr (stripLoop_suffix _ _)

/-! ## What gets through -/

/-- What a header is like that gets through, if it is not the end of the archive. -/
lemma ustarParseHeader_ok {e : Entry} (hparse : ustarParseHeader h = .ok e)
    (htype : e.type ≠ .eof) :
    memEq (fun i => h (257 + i)) (literal ['u', 's', 't', 'a', 'r']) = true ∧
      parseOctalField (fun i => h (148 + i)) 8 = some (calculateChksum h) ∧ h 99 = 0 ∧
      e.fileName = some (stripAntisocialPrefixes (strAt h 0 100)) ∧ e.size ≤ 2 ^ 31 - 1 := by
  rw [ustarParseHeader] at hparse
  split at hparse
  · injection hparse with hparse
    exact absurd (congrArg Entry.type hparse).symm htype
  split at hparse
  · cases hparse
  next hmagic =>
  split at hparse
  · cases hparse
  split at hparse
  · cases hparse
  next chksum hfield =>
  split at hparse
  · cases hparse
  next hsum =>
  split at hparse
  · cases hparse
  next hlast =>
  split at hparse
  · cases hparse
  have hhead := (not_not.mp hmagic)
  have hnul : h 99 = 0 := not_not.mp (not_or.mp hlast).1
  rw [← not_not.mp hsum]
  refine ⟨hhead, hfield, hnul, ?_⟩
  split at hparse
  · split at hparse
    · cases hparse
    · split at hparse
      · cases hparse
      · next hsize =>
        cases hparse
        exact ⟨rfl, Nat.le_of_not_lt hsize⟩
  · cases hparse
    exact ⟨rfl, Nat.zero_le _⟩

/-- A wrong sum does not get through. -/
lemma ustarParseHeader_error (hzeros : isAllZeros h ustarHeaderSize = false) {chksum : ℕ}
    (hfield : parseOctalField (fun i => h (148 + i)) 8 = some chksum)
    (hsum : chksum ≠ calculateChksum h) : ∃ msg, ustarParseHeader h = .error msg := by
  rw [ustarParseHeader, hzeros, if_neg Bool.false_ne_true, hfield]
  split
  · exact ⟨_, rfl⟩
  split
  · exact ⟨_, rfl⟩
  · exact ⟨_, if_pos hsum⟩

lemma isAllZeros_update
    (hmagic : memEq (fun i => h (257 + i)) (literal ['u', 's', 't', 'a', 'r']) = true) (i : ℕ)
    (v : UInt8) : isAllZeros (update h i v) ustarHeaderSize = false := by
  rw [memEq, all_eq_true] at hmagic
  have hu : h 257 = ascii 'u' := beq_iff_eq.mp (hmagic 0 (by decide))
  have hs : h 258 = ascii 's' := beq_iff_eq.mp (hmagic 1 (by decide))
  by_cases hi : i = 257
  · refine isAllZeros_eq_false (i := 258) (by decide) ?_
    rw [update_of_ne (by omega), hs]
    decide
  · refine isAllZeros_eq_false (i := 257) (by decide) ?_
    rw [update_of_ne (by omega), hu]
    decide

/-- **Hostile headers are neutralised.** -/
theorem hostile_header {h : ℕ → UInt8} {e : Entry} (hparse : ustarParseHeader h = .ok e)
    (htype : e.type ≠ .eof) :
    (∃ name, e.fileName = some name ∧ name ≠ [] ∧ ¬ [ascii '/'] <+: name ∧
      ¬ [ascii '.', ascii '/'] <+: name ∧ ¬ [ascii '.', ascii '.', ascii '/'] <+: name ∧
      name ≠ [ascii '.', ascii '.'] ∧
      (name = [ascii '.'] ∨ ∃ k, Strings.StrAt h k name ∧ k + name.length < ustarHeaderSize)) ∧
    e.size ≤ 2 ^ 31 - 1 ∧
    ∀ i < ustarHeaderSize, i < 148 ∨ 156 ≤ i → ∀ v ≠ h i,
      ∃ msg, ustarParseHeader (update h i v) = .error msg := by
  obtain ⟨hmagic, hfield, hlast, hname, hsize⟩ := ustarParseHeader_ok hparse htype
  obtain ⟨hstr, hlen⟩ := strAt_spec (show 99 < 100 by decide) hlast
  obtain ⟨hsocial, hnil, hdots⟩ := stripAntisocialPrefixes_social (strAt h 0 100)
  rw [antisocial, Bool.or_eq_false_iff, Bool.or_eq_false_iff] at hsocial
  obtain ⟨⟨hroot, hdot⟩, hdotdot⟩ := hsocial
  have hfront {front name : List UInt8} (hnot : front.isPrefixOf name = false) : ¬ front <+: name :=
    fun hpre => Bool.false_ne_true (hnot.symm.trans ( isPrefixOf_iff_prefix.mpr hpre))
  refine ⟨⟨_, hname, hnil, hfront hroot, hfront hdot, hfront hdotdot, hdots, ?_⟩, hsize, ?_⟩
  · refine (stripAntisocialPrefixes_suffix _).imp_right fun hsuffix => ?_
    obtain ⟨k, hk, hend⟩ := hstr.suffix hsuffix
    exact ⟨k, hk, by rw [ustarHeaderSize]; omega⟩
  · intro i hi hout v hv
    have hkept : parseOctalField (fun j => update h i v (148 + j)) 8 =
        parseOctalField (fun j => h (148 + j)) 8 :=
      parseOctalLoop_congr 0 fun j _ hj => update_of_ne (by omega) v h
    exact ustarParseHeader_error (isAllZeros_update hmagic i v) (hkept.trans hfield)
      (calculateChksum_update hi hout hv).symm

/-- The header of `../a`, and what becomes of it with another byte. -/
theorem hostile_header_above :
    ∃ h, ustarParseHeader h = .ok ⟨some [ascii 'a'], .regular, 70000⟩ ∧
      ∀ i < ustarHeaderSize, i < 148 ∨ 156 ≤ i → ∀ v ≠ h i,
        ∃ msg, ustarParseHeader (update h i v) = .error msg := by
  have hname : (0 : UInt8) ∉ ['.', '.', '/', 'a'].map ascii := by decide
  have hshort : (stripAntisocialPrefixes (['.', '.', '/', 'a'].map ascii)).length ≤ 99 := by decide
  have hregular : UstarType.regular ≠ .eof := by decide
  obtain ⟨h, -, hparse⟩ := ustarMakeHeader_of_le (.inl rfl)
    (show (stripAntisocialPrefixes (CString.mk _ hname).bytes).length ≤ 99 from hshort)
    (show 70000 ≤ 2 ^ 31 - 1 by decide) fun _ => 0
  exact ⟨h, hparse, (hostile_header hparse hregular).2.2⟩

end Ustar

end Pintos
