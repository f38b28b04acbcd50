import Pintos.Lib.IntegerConversion

/-!
# Lib/Ustar — archive headers

The header of a file in an archive is 512 bytes. Numbers are octal numerals, and one of them is the
sum of all bytes, with its own field taken to be blank:

* a numeral as wide as its field, less the null character, is read back (`parseOctalField_numeral`);
* filling in the sum does not change the sum (`calculateChksum_congr`);
* a name without its antisocial prefixes has none to lose (`stripAntisocialPrefixes_idem`);

and so what `ustar_parse_header` reads is what `ustar_make_header` wrote.
-/

namespace Pintos.Ustar

open Machinery Text Printf List Nat

/-- `enum ustar_type`. -/
inductive UstarType
  | regular | directory | eof
  deriving DecidableEq

/-- The byte in the file format; the end of the archive has none. -/
def UstarType.flag : UstarType → UInt8
  | regular => ascii '0'
  | directory => ascii '5'
  | eof => 255

/-- `USTAR_HEADER_SIZE`. -/
def ustarHeaderSize : ℕ := 512

/-! ## The checksum -/

/-- `calculate_chksum`: the checksum's own bytes count as blanks. -/
def calculateChksum (h : ℕ → UInt8) : ℕ :=
  (List.range ustarHeaderSize).foldl
    (fun chksum i =>
      let inChksumField := i ≥ 148 ∧ i < 148 + 8
      (chksum + (if inChksumField then ascii ' ' else h i).toNat) % 2 ^ 32)
    0

lemma calculateChksum_congr {h h' : ℕ → UInt8}
    (heq : ∀ i < ustarHeaderSize, i < 148 ∨ 156 ≤ i → h i = h' i) :
    calculateChksum h = calculateChksum h' := by
  refine foldl_ext _ _ _ fun chksum i hi => ?_
  by_cases hfield : i ≥ 148 ∧ i < 148 + 8
  · simp only [hfield, and_self, if_true]
  · simp only [if_neg hfield, heq i (mem_range.mp hi) (by omega)]

lemma foldl_chksum_le (f : ℕ → UInt8) (l : List ℕ) (a : ℕ) :
    l.foldl (fun chksum i => (chksum + (f i).toNat) % 2 ^ 32) a ≤ a + 255 * l.length := by
  induction l generalizing a with
  | nil => exact le_add_right _ _
  | cons i l ih =>
    have hbyte : (f i).toNat ≤ 255 := le_of_lt_succ (f i).toNat_lt
    calc _ ≤ (a + (f i).toNat) % 2 ^ 32 + 255 * l.length := ih _
      _ ≤ a + 255 * (l.length + 1) := by omega

lemma calculateChksum_lt (h : ℕ → UInt8) : calculateChksum h < 8 ^ 7 :=
  (foldl_chksum_le _ _ 0).trans_lt (by rw [ustarHeaderSize]; norm_num)

/-! ## Antisocial prefixes -/

/-- `*file_name == '/' || !memcmp (file_name, "./", 2) || !memcmp (file_name, "../", 3)`. -/
def antisocial (fileName : List UInt8) : Bool :=
  [ascii '/'].isPrefixOf fileName || [ascii '.', ascii '/'].isPrefixOf fileName ||
    [ascii '.', ascii '.', ascii '/'].isPrefixOf fileName

/-- `strchr (file_name, '/') + 1`. -/
def afterSlash (fileName : List UInt8) : List UInt8 := (fileName.dropWhile (· ≠ ascii '/')).tail

/-- The loop of `strip_antisocial_prefixes`, for at most `turns` turns. -/
def stripLoop : ℕ → List UInt8 → List UInt8
  | 0, fileName => fileName
  | turns + 1, fileName =>
    if antisocial fileName then stripLoop turns (afterSlash fileName) else fileName

/-- `strip_antisocial_prefixes`. -/
def stripAntisocialPrefixes (fileName : List UInt8) : List UInt8 :=
  let fileName := stripLoop fileName.length fileName
  if fileName = [] ∨ fileName = [ascii '.', ascii '.'] then [ascii '.'] else fileName

variable {fileName : List UInt8}

lemma length_afterSlash_lt (h : antisocial fileName = true) :
    (afterSlash fileName).length < fileName.length := by
  have hne : fileName ≠ [] := by
    rintro rfl
    exact absurd h (by decide)
  have hle : (fileName.dropWhile (· ≠ ascii '/')).length ≤ fileName.length :=
    (dropWhile_sublist _).length_le
  have hpos : 0 < fileName.length := length_pos_of_ne_nil hne
  rw [afterSlash, length_tail]
  omega

lemma antisocial_stripLoop {turns : ℕ} (h : fileName.length ≤ turns) :
    antisocial (stripLoop turns fileName) = false := by
  induction turns generalizing fileName with
  | zero =>
    obtain rfl : fileName = [] := length_eq_zero_iff.mp (le_zero.mp h)
    rfl
  | succ turns ih =>
    rw [stripLoop]
    split
    · next hanti => exact ih (by have := length_afterSlash_lt hanti; omega)
    · next hanti => exact Bool.eq_false_of_not_eq_true hanti

lemma stripLoop_of_social {turns : ℕ} (h : antisocial fileName = false) :
    stripLoop turns fileName = fileName := by
  cases turns with
  | zero => rfl
  | succ turns => rw [stripLoop, h, if_neg Bool.false_ne_true]

lemma stripAntisocialPrefixes_social (fileName : List UInt8) :
    antisocial (stripAntisocialPrefixes fileName) = false ∧
      stripAntisocialPrefixes fileName ≠ [] ∧
      stripAntisocialPrefixes fileName ≠ [ascii '.', ascii '.'] := by
  simp only [stripAntisocialPrefixes]
  split
  · decide
  · next hname =>
    obtain ⟨hnil, hdots⟩ := not_or.mp hname
    exact ⟨antisocial_stripLoop le_rfl, hnil, hdots⟩

lemma stripAntisocialPrefixes_idem (fileName : List UInt8) :
    stripAntisocialPrefixes (stripAntisocialPrefixes fileName) =
      stripAntisocialPrefixes fileName := by
  obtain ⟨hsocial, hnil, hdots⟩ := stripAntisocialPrefixes_social fileName
  generalize stripAntisocialPrefixes fileName = name at hsocial hnil hdots ⊢
  rw [stripAntisocialPrefixes, stripLoop_of_social hsocial]
  exact if_neg (not_or.mpr ⟨hnil, hdots⟩)

lemma stripLoop_suffix (turns : ℕ) (fileName : List UInt8) :
    stripLoop turns fileName <:+ fileName := by
  induction turns generalizing fileName with
  | zero => exact suffix_rfl
  | succ turns ih =>
    rw [stripLoop]
    split
    · exact (ih _).trans ((tail_suffix _).trans (dropWhile_suffix _))
    · exact suffix_rfl

lemma notMem_stripAntisocialPrefixes (fileName : CString) :
    (0 : UInt8) ∉ stripAntisocialPrefixes fileName.bytes := by
  simp only [stripAntisocialPrefixes]
  split
  · decide
  · intro hmem
    exact fileName.noNul ((stripLoop_suffix _ _).subset hmem)

/-! ## Octal fields -/

/-- The loop of `parse_octal_field`: `left` bytes to go, `ofs` behind, and the value so far. -/
def parseOctalLoop (s : ℕ → UInt8) : ℕ → ℕ → ℕ → Option ℕ
  | 0, _, _ => none
  | left + 1, ofs, value =>
    let c := s ofs
    if ascii '0' ≤ c ∧ c ≤ ascii '7' then
      if value > (2 ^ 32 - 1) / 8 then none
      else parseOctalLoop s left (ofs + 1) (c.toNat - (ascii '0').toNat + value * 8)
    else if c = ascii ' ' ∨ c = 0 then
      if ofs > 0 then some value else none
    else none

/-- `parse_octal_field`; `none` is a return of false. -/
def parseOctalField (s : ℕ → UInt8) (size : ℕ) : Option ℕ := parseOctalLoop s size 0 0

/-- The digits of the octal conversion. -/
def octalDigit (d : ℕ) : UInt8 := digit baseO d

lemma octalDigit_bounds : ∀ d < 8, ascii '0' ≤ octalDigit d ∧ octalDigit d ≤ ascii '7' ∧
    (octalDigit d).toNat - (ascii '0').toNat = d := by
  decide

variable {s : ℕ → UInt8}

lemma parseOctalLoop_digits {ds : List ℕ} (hds : ∀ d ∈ ds, d < 8) {left ofs value : ℕ}
    (hs : ∀ i (h : i < ds.length), s (ofs + i) = octalDigit (ds.get ⟨i, h⟩))
    (hend : s (ofs + ds.length) = 0) (hleft : ds.length < left) (hofs : 0 < ofs + ds.length)
    (hfits : reading 8 value ds < 2 ^ 32) :
    parseOctalLoop s left ofs value = some (reading 8 value ds) := by
  induction ds generalizing left ofs value with
  | nil =>
    obtain ⟨left, rfl⟩ : ∃ k, left = k + 1 := ⟨left - 1, by simp at hleft; omega⟩
    have hnul : s ofs = 0 := hend
    simp only [parseOctalLoop, hnul]
    exact if_pos hofs
  | cons d ds ih =>
    obtain ⟨left, rfl⟩ : ∃ k, left = k + 1 := ⟨left - 1, by omega⟩
    have hd : s ofs = octalDigit d := hs 0 (succ_pos _)
    obtain ⟨hlow, hhigh, hval⟩ := octalDigit_bounds d (hds d mem_cons_self)
    have hgrow : value * 8 + d ≤ reading 8 value (d :: ds) := le_reading (by decide) _ ds
    simp only [parseOctalLoop, hd]
    rw [if_pos ⟨hlow, hhigh⟩, if_neg (by omega), hval, add_comm d]
    refine ih (fun e he => hds e (mem_cons_of_mem d he)) (fun i hi => ?_) ?_ ?_ ?_ hfits
    · rw [add_assoc, add_comm 1 i]
      exact hs (i + 1) (succ_lt_succ hi)
    · rwa [add_assoc, add_comm 1]
    · exact lt_of_succ_lt_succ hleft
    · omega

/-- A numeral and the null character behind it. -/
def field (w n : ℕ) : List UInt8 := (numeral 8 w n).map octalDigit ++ [0]

lemma length_field {w n : ℕ} (h : n < 8 ^ w) : (field w n).length = w + 1 := by
  rw [field, length_append, length_map, length_numeral (by decide) h]
  rfl

lemma parseOctalField_numeral {w n : ℕ} (hw : 0 < w) (hn : n < 8 ^ w) (hfits : n < 2 ^ 32)
    (hs : ∀ i (h : i < (field w n).length), s i = (field w n).get ⟨i, h⟩) :
    parseOctalField s (w + 1) = some n := by
  have hlen : (numeral 8 w n).length = w := length_numeral (by decide) hn
  have hread : reading 8 0 (numeral 8 w n) = n := reading_numeral 8 w n
  conv_rhs => rw [← hread]
  refine parseOctalLoop_digits (fun d => lt_of_mem_numeral (by decide)) (fun i hi => ?_) ?_ ?_ ?_ ?_
  · rw [zero_add, hs i (by rw [length_field hn]; omega)]
    simp only [field, get_eq_getElem]
    rw [getElem_append_left (by rwa [length_map]), getElem_map]
  · rw [zero_add, hs _ (by rw [length_field hn]; omega)]
    simp only [field, get_eq_getElem]
    rw [getElem_append_right (by rw [length_map]), getElem_singleton]
  · rw [hlen]
    exact lt_succ_self w
  · rwa [zero_add, hlen]
  · rwa [hread]

/-! ## Writing a header -/

/-- `snprintf (buffer, buf_size, format, arg)`, for a text that an `int` can count. -/
def snprintf (m : ℕ → UInt8) (buffer bufSize : ℕ) (format : List Char) (arg : ℤ) : Option (ℕ → UInt8) :=
  let text := vprintf (fun ch out => out ++ [ch]) ⟨fun _ => .ofInt 32 arg, fun _ => 0⟩
    (format.map ascii ++ [0]) []
  text.toOption.map fun text => store m buffer (terminated text bufSize)

/-- The header of a file, all but its checksum. -/
def fillHeader (fileName : List UInt8) (type : UstarType) (size : ℤ) (header : ℕ → UInt8) :
    Option (ℕ → UInt8) := do
  let h := overwrite header 0 ustarHeaderSize fun _ => 0
  let h := strlcpy h 0 fileName 100
  let h ← snprintf h 100 8 ['%', '0', '7', 'o'] (if type = .regular then 0o644 else 0o755)
  let h := strlcpy h 108 (['0', '0', '0', '0', '0', '0', '0'].map ascii) 8
  let h := strlcpy h 116 (['0', '0', '0', '0', '0', '0', '0'].map ascii) 8
  let h ← snprintf h 124 12 ['%', '0', '1', '1', 'o'] size
  let h ← snprintf h 136 12 ['%', '0', '1', '1', 'o'] 1136102400
  let h := store h 156 [type.flag]
  let h := strlcpy h 257 (['u', 's', 't', 'a', 'r'].map ascii) 6
  let h := store h 263 [ascii '0', ascii '0']
  let h := strlcpy h 297 (['r', 'o', 'o', 't'].map ascii) 32
  return strlcpy h 265 (['r', 'o', 'o', 't'].map ascii) 32

/-- `ustar_make_header`: what it returns and leaves in `header`; `none` if the type is neither of
the two. -/
def ustarMakeHeader (fileName : CString) (type : UstarType) (size : ℤ) (header : ℕ → UInt8) :
    Option (Bool × (ℕ → UInt8)) :=
  if type = .regular ∨ type = .directory then
    let fileName := stripAntisocialPrefixes fileName.bytes
    if fileName.length > 99 then some (false, header)
    else do
      let h ← fillHeader fileName type size header
      let h ← snprintf h 148 8 ['%', '0', '7', 'o'] (calculateChksum h)
      return (true, h)
  else none

variable {n : ℕ}

lemma integerBuf_octal (hfits : n < 2 ^ 64) (w : ℕ) :
    integerBuf n baseO { zero := true, width := w } =
      (Nat.digits 8 n ++ List.replicate (1 - (Nat.digits 8 n).length) 0).map octalDigit := by
  have hcommas : (digitLoop baseO false 64 n 0).filter (· ≠ ascii ',') = digitLoop baseO false 64 n 0 := by
    refine filter_eq_self.mpr fun ch hch => decide_eq_true ?_
    rintro rfl
    exact comma_notMem_digitLoop base_baseO hch
  have hloop : digitLoop baseO false 64 n 0 = (Nat.digits 8 n).map octalDigit := by
    rw [← hcommas]
    exact filter_digitLoop base_baseO (hfits.trans_le (by decide)) 0
  rw [integerBuf, hloop, map_append, map_replicate, length_map]
  rfl

/-- An octal conversion with a `0` flag and a width is the numeral with that many digits. -/
lemma integerText_octal {w : ℕ} (hw : 0 < w) (hmax : w < 2 ^ 31) (hfits : n < 2 ^ 64) :
    integerText n false false baseO { zero := true, width := w } = (numeral 8 w n).map octalDigit := by
  have hbuf := integerBuf_octal hfits w
  have hzero : ascii '0' = octalDigit 0 := rfl
  have hpad := toNat_padding (c := { zero := true, width := w }) base_baseO hfits (Int.natCast_nonneg w)
    (by dsimp only; omega) false false
  rw [integerText, hpad, coreLength, hbuf]
  simp only [layOut, hexMark, signOf, hzero, numeral, length_map, length_append, length_replicate,
    map_append, map_replicate, map_reverse, reverse_append, reverse_replicate, Bool.false_and,
    Bool.not_true, Bool.and_false, Bool.not_false, Bool.false_eq_true, if_true, if_false, nil_append,
    append_nil, length_nil, Option.toList_none, Int.toNat_natCast, add_zero]
  rw [← append_assoc, replicate_append_replicate]
  congr 2
  omega

lemma snprintf_field {w : ℕ} {format : List Char}
    (hformat : ∀ e : Env, vprintf (fun ch out => out ++ [ch]) e (format.map ascii ++ [0]) [] =
      (convert (fun ch out => out ++ [ch]) e (printfUnknown fun ch out => out ++ [ch]) (ascii 'o')
        { zero := true, width := w } 0 [] >>= fun r => .ok r.2))
    (hw : 0 < w) (hmax : w < 2 ^ 31) (hn : n < 8 ^ w) (hfits : n < 2 ^ 32) (m : ℕ → UInt8) (p : ℕ) :
    snprintf m p (w + 1) format n = some (store m p (field w n)) := by
  have harg : unsignedArg ⟨fun _ => .ofInt 32 n, fun _ => 0⟩ .int 0 = n := by
    simp only [unsignedArg, argBits, argWords, ArgType.bits]
    simpa using hfits
  have hlen : ((numeral 8 w n).map octalDigit).length < w + 1 := by
    rw [length_map, length_numeral (by decide) hn]
    exact lt_succ_self w
  rw [snprintf, hformat, emits_unsigned (by decide), harg, ok_bind, outputAll_collect, nil_append]
  rw [show unsignedBase (ascii 'o') = baseO from rfl, integerText_octal hw hmax (hfits.trans (by decide))]
  exact congrArg (fun l => some (store m p l)) (terminated_of_lt hlen)

lemma snprintf_seven (hn : n < 8 ^ 7) (m : ℕ → UInt8) (p : ℕ) :
    snprintf m p 8 ['%', '0', '7', 'o'] n = some (store m p (field 7 n)) :=
  snprintf_field (fun _ => rfl) (by decide) (by decide) hn (hn.trans (by decide)) m p

lemma snprintf_eleven (hn : n < 2 ^ 32) (m : ℕ → UInt8) (p : ℕ) :
    snprintf m p 12 ['%', '0', '1', '1', 'o'] n = some (store m p (field 11 n)) :=
  snprintf_field (fun _ => rfl) (by decide) (by decide) (hn.trans (by decide)) hn m p

/-- A literal of the source, with its null character. -/
def literal (l : List Char) : List UInt8 := l.map ascii ++ [0]

/-- The permissions of a file or a directory. -/
def modeOf (type : UstarType) : ℕ := if type = .regular then 0o644 else 0o755

lemma modeOf_lt (type : UstarType) : modeOf type < 8 ^ 7 := by
  unfold modeOf
  split <;> decide

/-- The fields of a header, one after the other, without the checksum. -/
def written (header : ℕ → UInt8) (name : List UInt8) (type : UstarType) (size : ℕ) : ℕ → UInt8 :=
  let h := overwrite header 0 ustarHeaderSize fun _ => 0
  let h := store (store h 0 (name ++ [0])) 100 (field 7 (modeOf type))
  let h := store h 108 (literal ['0', '0', '0', '0', '0', '0', '0'])
  let h := store h 116 (literal ['0', '0', '0', '0', '0', '0', '0'])
  let h := store (store h 124 (field 11 size)) 136 (field 11 1136102400)
  let h := store (store h 156 [type.flag]) 257 (literal ['u', 's', 't', 'a', 'r'])
  let h := store (store h 263 [ascii '0', ascii '0']) 297 (literal ['r', 'o', 'o', 't'])
  store h 265 (literal ['r', 'o', 'o', 't'])

variable {name : List UInt8} {size : ℕ}

lemma fillHeader_eq (hname : name.length ≤ 99) (type : UstarType) (hsize : size < 2 ^ 32)
    (header : ℕ → UInt8) :
    fillHeader name type size header = some (written header name type size) := by
  have hmode : (if type = .regular then (0o644 : ℤ) else 0o755) = (modeOf type : ℤ) := by
    unfold modeOf
    split <;> rfl
  have htime : (1136102400 : ℤ) = ((1136102400 : ℕ) : ℤ) := rfl
  have hcopy (m : ℕ → UInt8) : strlcpy m 0 name 100 = store m 0 (name ++ [0]) := by
    rw [strlcpy, terminated_of_lt (by omega)]
  rw [fillHeader, hmode]
  simp only [snprintf_seven (modeOf_lt type), snprintf_eleven hsize, hcopy]
  rfl

/-- What a header has in the fields that are read again. -/
structure Filled (h : ℕ → UInt8) (name : List UInt8) (type : UstarType) (size : ℕ) : Prop where
  name_eq : ∀ i (hi : i < name.length), h i = name.get ⟨i, hi⟩
  name_end : ∀ i, name.length ≤ i → i < 100 → h i = 0
  size_eq : ∀ i (hi : i < (field 11 size).length), h (124 + i) = (field 11 size).get ⟨i, hi⟩
  typeflag : h 156 = type.flag
  magic : ∀ i (hi : i < (literal ['u', 's', 't', 'a', 'r']).length),
    h (257 + i) = (literal ['u', 's', 't', 'a', 'r']).get ⟨i, hi⟩
  version : h 263 = ascii '0' ∧ h 264 = ascii '0'
  no_prefix : h 345 = 0

lemma filled_written (hname : name.length ≤ 99) (type : UstarType) (hsize : size < 2 ^ 32)
    (header : ℕ → UInt8) : Filled (written header name type size) name type size := by
  have hmode : (field 7 (modeOf type)).length = 8 := length_field (modeOf_lt type)
  have hfield : (field 11 size).length = 12 := length_field (hsize.trans (by decide))
  have htime : (field 11 1136102400).length = 12 := length_field (by decide)
  have hnul : (name ++ [(0 : UInt8)]).length = name.length + 1 := length_append
  have hzeros : (literal ['0', '0', '0', '0', '0', '0', '0']).length = 8 := rfl
  have hustar : (literal ['u', 's', 't', 'a', 'r']).length = 6 := rfl
  have hroot : (literal ['r', 'o', 'o', 't']).length = 5 := rfl
  have hflag : [type.flag].length = 1 := rfl
  have hversion : [ascii '0', ascii '0'].length = 2 := rfl
  have hstored (m : ℕ → UInt8) (i : ℕ) (hi : i < (name ++ [0]).length) :
      store m 0 (name ++ [0]) i = (name ++ [0]).get ⟨i, hi⟩ := by
    simpa only [zero_add] using store_add (p := 0) hi
  constructor
  · intro i hi
    simp (disch := omega) only [written, store_of_lt]
    rw [hstored _ i (by omega), get_eq_getElem, getElem_append_left hi]
    rfl
  · intro i hi hi'
    simp (disch := omega) only [written, store_of_lt]
    obtain rfl | hi := hi.eq_or_lt
    · rw [hstored _ _ (by omega), get_eq_getElem, getElem_append_right le_rfl,
        getElem_singleton]
    · rw [store_of_ge (by omega), overwrite_of_mem (zero_le i) (by rw [ustarHeaderSize]; omega)]
  · intro i hi
    simp (disch := omega) only [written, store_of_lt, store_add hi]
  · simp (disch := omega) only [written, store_of_lt]
    exact store_add (i := 0) (by omega)
  · intro i hi
    simp (disch := omega) only [written, store_of_lt, store_add hi]
  · constructor
    · simp (disch := omega) only [written, store_of_lt]
      exact store_add (i := 0) (by omega)
    · simp (disch := omega) only [written, store_of_lt]
      exact store_add (i := 1) (by omega)
  · simp (disch := omega) only [written, store_of_ge]
    exact overwrite_of_mem (zero_le _) (by rw [ustarHeaderSize]; omega)

variable {type : UstarType}

lemma Filled.store_chksum {h : ℕ → UInt8} {size n : ℕ} (hf : Filled h name type size)
    (hname : name.length ≤ 99) (hsize : size < 2 ^ 32) (hn : n < 8 ^ 7) :
    Filled (store h 148 (field 7 n)) name type size := by
  have hlen : (field 7 n).length = 8 := length_field hn
  have hfield : (field 11 size).length = 12 := length_field (hsize.trans (by decide))
  have hlow {i : ℕ} (hi : i < 148) : store h 148 (field 7 n) i = h i := store_of_lt hi
  have hhigh {i : ℕ} (hi : 156 ≤ i) : store h 148 (field 7 n) i = h i := store_of_ge (by omega)
  refine ⟨fun i hi => ?_, fun i hi hi' => ?_, fun i hi => ?_, ?_, fun i hi => ?_, ⟨?_, ?_⟩, ?_⟩
  · rw [hlow (by omega), hf.name_eq]
  · rw [hlow (by omega), hf.name_end i hi hi']
  · rw [hlow (by omega), hf.size_eq]
  · rw [hhigh (by omega), hf.typeflag]
  · rw [hhigh (by omega), hf.magic]
  · rw [hhigh (by omega), hf.version.1]
  · rw [hhigh (by omega), hf.version.2]
  · rw [hhigh (by omega), hf.no_prefix]

/-! ## Reading a header -/

/-- `is_all_zeros`. -/
def isAllZeros (block : ℕ → UInt8) (cnt : ℕ) : Bool := (List.range cnt).all fun i => block i == 0

/-- `!memcmp (s, l, n)`, for `l` of `n` bytes. -/
def memEq (s : ℕ → UInt8) (l : List UInt8) : Bool :=
  (List.range l.length).all fun i => s i == l.getD i 0

/-- What `ustar_parse_header` stores through its pointers; at the end the name is null. -/
structure Entry where
  fileName : Option (List UInt8)
  type : UstarType
  size : ℕ
  deriving DecidableEq

/-- `ustar_parse_header`, with the message it returns as an error. -/
def ustarParseHeader (h : ℕ → UInt8) : Except String Entry :=
  if isAllZeros h ustarHeaderSize then .ok ⟨none, .eof, 0⟩
  else if ¬ memEq (fun i => h (257 + i)) (literal ['u', 's', 't', 'a', 'r']) then
    .error "not a ustar archive"
  else if h 263 ≠ ascii '0' ∨ h 264 ≠ ascii '0' then .error "invalid ustar version"
  else
    match parseOctalField (fun i => h (148 + i)) 8 with
    | none => .error "corrupt chksum field"
    | some chksum =>
      if chksum ≠ calculateChksum h then .error "checksum mismatch"
      else if h 99 ≠ 0 ∨ h 345 ≠ 0 then .error "file name too long"
      else if h 156 ≠ UstarType.flag .regular ∧ h 156 ≠ UstarType.flag .directory then
        .error "unimplemented file type"
      else
        let fileName := stripAntisocialPrefixes (strAt h 0 100)
        if h 156 = UstarType.flag .regular then
          match parseOctalField (fun i => h (124 + i)) 12 with
          | none => .error "corrupt file size field"
          | some sizeUl =>
            if sizeUl > 2 ^ 31 - 1 then .error "file too large"
            else .ok ⟨some fileName, .regular, sizeUl⟩
        else .ok ⟨some fileName, .directory, 0⟩

lemma parseOctalLoop_congr {s s' : ℕ → UInt8} {left ofs : ℕ} (value : ℕ)
    (h : ∀ i, ofs ≤ i → i < ofs + left → s i = s' i) :
    parseOctalLoop s left ofs value = parseOctalLoop s' left ofs value := by
  induction left generalizing ofs value with
  | zero => rfl
  | succ left ih =>
    simp only [parseOctalLoop, h ofs le_rfl (by omega)]
    rw [ih _ fun i hi hi' => h i (by omega) (by omega)]

lemma all_range_congr {p q : ℕ → Bool} (h : ∀ i < n, p i = q i) :
    (List.range n).all p = (List.range n).all q := by
  rw [Bool.eq_iff_iff, all_eq_true, all_eq_true]
  exact forall₂_congr fun i hi => by rw [h i (mem_range.mp hi)]

lemma ustarParseHeader_congr {h h' : ℕ → UInt8} (heq : ∀ i < ustarHeaderSize, h i = h' i) :
    ustarParseHeader h = ustarParseHeader h' := by
  have heq : ∀ i < 512, h i = h' i := heq
  have hzeros : isAllZeros h ustarHeaderSize = isAllZeros h' ustarHeaderSize :=
    all_range_congr fun i hi => by rw [heq i hi]
  have hmagic : memEq (fun i => h (257 + i)) (literal ['u', 's', 't', 'a', 'r']) =
      memEq (fun i => h' (257 + i)) (literal ['u', 's', 't', 'a', 'r']) := by
    refine all_range_congr fun i hi => ?_
    have hi : i < 6 := hi
    show (h (257 + i) == _) = (h' (257 + i) == _)
    rw [heq (257 + i) (by omega)]
  have hoctal (p size : ℕ) (hp : p + size ≤ 512) : parseOctalField (fun i => h (p + i)) size =
      parseOctalField (fun i => h' (p + i)) size :=
    parseOctalLoop_congr 0 fun i _ hi => heq (p + i) (by omega)
  have hsum : calculateChksum h = calculateChksum h' := calculateChksum_congr fun i hi _ => heq i hi
  have hstr : strAt h 0 100 = strAt h' 0 100 := by
    have hmap : (range 100).map (fun i => h (0 + i)) =
        (range 100).map fun i => h' (0 + i) := by
      refine map_congr_left fun i hi => heq (0 + i) ?_
      have hi := mem_range.mp hi
      omega
    rw [strAt, hmap, strAt]
  simp only [ustarParseHeader, hzeros, hmagic, hoctal 148 8 (by decide), hoctal 124 12 (by decide),
    hsum, hstr, heq 263 (by decide), heq 264 (by decide), heq 99 (by decide), heq 345 (by decide),
    heq 156 (by decide)]

lemma memEq_of_get {l : List UInt8} (h : ∀ i (hi : i < l.length), s i = l.get ⟨i, hi⟩) :
    memEq s l = true := by
  rw [memEq, all_eq_true]
  intro i hi
  have hi := mem_range.mp hi
  rw [beq_iff_eq, h i hi]
  exact (getD_eq_getElem l 0 hi).symm

lemma isAllZeros_eq_false {block : ℕ → UInt8} {cnt i : ℕ} (hi : i < cnt) (h : block i ≠ 0) :
    isAllZeros block cnt = false := by
  rw [isAllZeros, all_eq_false]
  exact ⟨i, mem_range.mpr hi, by simpa using h⟩

/-- The size that is read for a file of the given type. -/
def sizeOf (type : UstarType) (size : ℕ) : ℕ := if type = .directory then 0 else size

/-- What is filled in is read, given the right checksum. -/
lemma Filled.parse {h : ℕ → UInt8} (hf : Filled h name type size)
    (htype : type = .regular ∨ type = .directory) (hname : name.length ≤ 99)
    (hnul : (0 : UInt8) ∉ name) (hsize : size ≤ 2 ^ 31 - 1)
    (hchksum : ∀ i (hi : i < (field 7 (calculateChksum h)).length), h (148 + i) = (field 7 (calculateChksum h)).get ⟨i, hi⟩) :
    ustarParseHeader h =
      .ok ⟨some (stripAntisocialPrefixes name), type, Ustar.sizeOf type size⟩ := by
  have hzeros : isAllZeros h ustarHeaderSize = false := by
    refine isAllZeros_eq_false (i := 257) (by decide) ?_
    rw [show h 257 = ascii 'u' from hf.magic 0 (by decide)]
    decide
  have hsum := parseOctalField_numeral (by decide) (calculateChksum_lt h)
      ((calculateChksum_lt h).trans (by decide)) hchksum
  have hsz := parseOctalField_numeral (by decide) (by omega) (by omega) hf.size_eq
  have hstr : strAt h 0 100 = name := by
    refine strAt_eq hnul (by omega) (fun i hi => ?_) ?_
    · rw [zero_add, hf.name_eq]
    · rw [zero_add, hf.name_end _ le_rfl (by omega)]
  have hlast : h 99 = 0 := hf.name_end 99 hname (by decide)
  simp only [ustarParseHeader, hzeros, memEq_of_get hf.magic, hf.version.1, hf.version.2, hsum, hsz,
    hstr, hlast, hf.no_prefix, hf.typeflag]
  obtain rfl | rfl := htype
  · simpa [Ustar.sizeOf] using hsize
  · simp [Ustar.sizeOf, UstarType.flag, ascii]

lemma ustarMakeHeader_of_le {fileName : CString} (htype : type = .regular ∨ type = .directory)
    (hname : (stripAntisocialPrefixes fileName.bytes).length ≤ 99) (hsize : size ≤ 2 ^ 31 - 1)
    (header : ℕ → UInt8) : ∃ h, ustarMakeHeader fileName type size header = some (true, h) ∧
      ustarParseHeader h =
        .ok ⟨some (stripAntisocialPrefixes fileName.bytes), type, Ustar.sizeOf type size⟩ := by
  have hfits : size < 2 ^ 32 := by omega
  have hfilled := filled_written hname type hfits header
  generalize hbody : written header (stripAntisocialPrefixes fileName.bytes) type size = body at hfilled
  have hlt := calculateChksum_lt body
  refine ⟨store body 148 (field 7 (calculateChksum body)), ?_, ?_⟩
  · simp only [ustarMakeHeader, if_pos htype, if_neg (not_lt.mpr hname),
      fillHeader_eq hname type hfits, hbody]
    simp only [Option.bind_eq_bind, Option.bind_some, snprintf_seven hlt]
    rfl
  · have hlen := length_field hlt
    have hsame : calculateChksum (store body 148 (field 7 (calculateChksum body))) =
        calculateChksum body := by
      refine calculateChksum_congr fun i _ hi => ?_
      obtain hi | hi := hi
      · exact store_of_lt hi
      · exact store_of_ge (by omega)
    have hparse := (hfilled.store_chksum hname hfits hlt).parse htype hname
      (notMem_stripAntisocialPrefixes fileName) hsize
    rw [hsame, stripAntisocialPrefixes_idem] at hparse
    exact hparse fun i hi => store_add hi

/-- **What is read is what was written**, for names of at most 99 characters without antisocial
prefixes. -/
theorem ustar_header_round_trip (fileName : CString) (type : UstarType)
    (htype : type = .regular ∨ type = .directory) (size : ℕ) (hsize : size ≤ 2 ^ 31 - 1)
    (header : ℕ → UInt8) :
    ∃ made h, ustarMakeHeader fileName type size header = some (made, h) ∧
      (made = true ↔ (stripAntisocialPrefixes fileName.bytes).length ≤ 99) ∧
      (made = true → ustarParseHeader h =
        .ok ⟨some (stripAntisocialPrefixes fileName.bytes), type,
          if type = .directory then 0 else size⟩) := by
  by_cases hname : (stripAntisocialPrefixes fileName.bytes).length ≤ 99
  · obtain ⟨h, hmake, hparse⟩ := ustarMakeHeader_of_le htype hname hsize header
    exact ⟨true, h, hmake, iff_of_true rfl hname, fun _ => hparse⟩
  · refine ⟨false, header, ?_, iff_of_false Bool.false_ne_true hname, fun h => absurd h (by decide)⟩
    simp only [ustarMakeHeader, if_pos htype, if_pos (Nat.lt_of_not_le hname)]

/-- A file `../a` of 70000 bytes. -/
theorem ustar_header_round_trip_file :
    ∃ made h, ustarMakeHeader ⟨['.', '.', '/', 'a'].map ascii, by decide⟩ .regular (70000 : ℕ)
        (fun _ => 0) = some (made, h) ∧
      (made = true ↔ (stripAntisocialPrefixes (['.', '.', '/', 'a'].map ascii)).length ≤ 99) ∧
      (made = true → ustarParseHeader h =
        .ok ⟨some (stripAntisocialPrefixes (['.', '.', '/', 'a'].map ascii)), .regular,
          if UstarType.regular = .directory then 0 else 70000⟩) :=
  ustar_header_round_trip ⟨['.', '.', '/', 'a'].map ascii, by decide⟩ .regular (.inl rfl) 70000
    (by decide) fun _ => 0

end Pintos.Ustar
