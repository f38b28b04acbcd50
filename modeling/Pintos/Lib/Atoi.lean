import Pintos.Lib.Sinks

/-!
# Lib/Atoi — `atoi` undoes `%d`

`atoi` skips white space, reads a sign, and collects digits as a negative number. Every text of
`%d` is made for it:

    spaces   sign   zeros   digits   spaces

Arithmetic on `int` is checked: a result that is no `int` stops the call.
-/

namespace Pintos.Printf

open Machinery Text List

/-- How `atoi` does not return. -/
inductive AtoiStop where
  | overrun
  | overflow
  deriving DecidableEq

/-- A result that has to be an `int`. -/
def checked (n : ℤ) : Except AtoiStop ℤ := if -2 ^ 31 ≤ n ∧ n < 2 ^ 31 then .ok n else .error .overflow

/-- `isspace`. -/
def isSpace (ch : UInt8) : Bool := ch ∈ [' ', '\x0c', '\n', '\r', '\t', '\x0b'].map ascii

def skipSpaces : List UInt8 → Except AtoiStop (List UInt8)
  | [] => .error .overrun
  | ch :: s => if isSpace ch then skipSpaces s else .ok (ch :: s)

def atoiDigits (value : ℤ) : List UInt8 → Except AtoiStop ℤ
  | [] => .error .overrun
  | ch :: s =>
    if isDigit ch then do
      let product ← checked (value * 10)
      let value ← checked (product - (ch.toNat - 48))
      atoiDigits value s
    else .ok value

/-- The sign: is it a minus, and what is behind it. -/
def parseSign (s : List UInt8) : Bool × List UInt8 :=
  if s.head? = some (ascii '+') then (false, s.tail)
  else if s.head? = some (ascii '-') then (true, s.tail)
  else (false, s)

/-- `atoi`, of the bytes from `s` on. -/
def atoi (s : List UInt8) : Except AtoiStop ℤ := do
  let s ← skipSpaces s
  let (negative, s) := parseSign s
  let value ← atoiDigits 0 s
  if negative then return value else checked (-value)

/-! ## Reading -/

lemma checked_of {n : ℤ} (h : -2 ^ 31 ≤ n) (h' : n < 2 ^ 31) : checked n = .ok n := if_pos ⟨h, h'⟩

lemma skipSpaces_replicate (n : ℕ) {ch : UInt8} (hch : isSpace ch = false) (s : List UInt8) :
    skipSpaces (replicate n (ascii ' ') ++ ch :: s) = .ok (ch :: s) := by
  induction n with
  | zero => exact if_neg (Bool.not_eq_true _ ▸ hch)
  | succ n ih => exact ih

/-- The digits are collected as a negative number, which never leaves the range on its way. -/
lemma atoiDigits_eq {digits : List UInt8} (hdigits : ∀ ch ∈ digits, isDigit ch = true) {ch : UInt8}
    (hch : isDigit ch = false) (s : List UInt8) {a : ℕ}
    (h : reading 10 a (digits.map fun ch => ch.toNat - 48) ≤ 2 ^ 31) :
    atoiDigits (-a) (digits ++ ch :: s) = .ok (-(reading 10 a (digits.map fun ch => ch.toNat - 48) : ℕ)) := by
  induction digits generalizing a with
  | nil =>
    rw [nil_append, atoiDigits, hch]
    rfl
  | cons d digits ih =>
    have hd : isDigit d = true := hdigits d mem_cons_self
    have hlow : 48 ≤ d.toNat := (Bool.and_eq_true_iff.mp hd).1 |> of_decide_eq_true
    rw [map_cons, reading_cons] at h ⊢
    have hle := (le_reading (by decide) _ _).trans h
    rw [cons_append, atoiDigits, hd, checked_of (by omega) (by omega)]
    dsimp only [bind, Except.bind]
    rw [checked_of (by omega) (by omega)]
    have hnext : (-a * 10 - (d.toNat - 48) : ℤ) = -((a * 10 + (d.toNat - 48) : ℕ) : ℤ) := by omega
    rw [hnext]
    exact ih (fun ch hmem => hdigits ch (mem_cons_of_mem _ hmem)) h

lemma atoi_of {s s' digits : List UInt8} {negative : Bool} {value : ℤ} (hspaces : skipSpaces s = .ok s')
    (hsign : parseSign s' = (negative, digits)) (hdigits : atoiDigits 0 digits = .ok value) :
    atoi s = if negative then .ok value else checked (-value) := by
  rw [atoi, hspaces]
  dsimp only [bind, Except.bind]
  rw [hsign]
  rw [hdigits]
  cases negative <;> rfl

lemma atoi_eq {digits : List UInt8} (hdigits : ∀ ch ∈ digits, isDigit ch = true) {v : ℕ}
    (hv : reading 10 0 (digits.map fun ch => ch.toNat - 48) = v) {negative : Bool} {sign : List UInt8}
    (hsign : negative = true ∧ sign = [ascii '-'] ∧ v ≤ 2 ^ 31 ∨
      negative = false ∧ (sign = [] ∨ sign = [ascii '+']) ∧ v < 2 ^ 31) (n k : ℕ) (rest : List UInt8) :
    atoi (replicate n (ascii ' ') ++ (sign ++ digits) ++ replicate k (ascii ' ') ++ 0 :: rest) =
      .ok (if negative then -v else v) := by
  obtain ⟨ch, s, htail, hch⟩ : ∃ ch s, replicate k (ascii ' ') ++ 0 :: rest = ch :: s ∧ isDigit ch = false := by
    cases k with
    | zero => exact ⟨0, rest, rfl, rfl⟩
    | succ k => exact ⟨ascii ' ', _, rfl, rfl⟩
  have hread : v ≤ 2 ^ 31 → atoiDigits 0 (digits ++ ch :: s) = .ok (-v) := by
    intro hle
    rw [← hv] at hle ⊢
    exact atoiDigits_eq hdigits hch s hle
  have hneg (hlt : v < 2 ^ 31) : checked (- -(v : ℤ)) = .ok v := by
    rw [neg_neg, checked_of (by omega) (by omega)]
  rw [append_assoc, htail]
  obtain ⟨rfl, rfl, hle⟩ | ⟨rfl, rfl | rfl, hlt⟩ := hsign
  · rw [append_assoc]
    have hspace : isSpace (ascii '-') = false := by decide
    exact atoi_of (skipSpaces_replicate n hspace _) rfl (hread hle)
  · cases digits with
    | nil =>
      -- without digits, the spaces before and behind them are skipped together
      obtain rfl : 0 = v := hv
      rw [nil_append, append_nil, ← htail, ← append_assoc, replicate_append_replicate]
      have hspace : isSpace 0 = false := by decide
      exact atoi_of (skipSpaces_replicate _ hspace _) rfl rfl
    | cons d digits =>
      have hd := hdigits d mem_cons_self
      have hne {ch : UInt8} (h : isDigit ch = false) : some d ≠ some ch := by
        rintro ⟨⟩
        exact Bool.noConfusion (hd.symm.trans h)
      have hspace : isSpace d = false := by
        rw [← Bool.not_eq_true]
        intro h
        have hall : ([' ', '\x0c', '\n', '\r', '\t', '\x0b'].map ascii).all (fun ch => !isDigit ch) = true := by
          decide
        have hnot := all_eq_true.mp hall d (of_decide_eq_true h)
        rw [hd] at hnot
        cases hnot
      have hplus : isDigit (ascii '+') = false := by decide
      have hminus : isDigit (ascii '-') = false := by decide
      have hsign : parseSign (d :: (digits ++ ch :: s)) = (false, d :: (digits ++ ch :: s)) := by
        rw [parseSign, head?_cons, if_neg (hne hplus), if_neg (hne hminus)]
      rw [append_assoc]
      exact (atoi_of (skipSpaces_replicate n hspace _) hsign (hread hlt.le)).trans (hneg hlt)
  · rw [append_assoc]
    have hspace : isSpace (ascii '+') = false := by decide
    exact (atoi_of (skipSpaces_replicate n hspace _) rfl (hread hlt.le)).trans (hneg hlt)

/-! ## The text of `%d` -/

section

variable {value : ℕ} {c : PrintfConversion}

lemma decimal_digit {d : ℕ} (hd : d < 10) : isDigit (digit baseD d) = true ∧ (digit baseD d).toNat - 48 = d := by
  revert d
  decide

/-- Without commas, the digits are a number for `atoi`. -/
lemma reading_decimal (hgroup : c.group = false) (h : value < 2 ^ 64) (padCnt : ℕ) :
    (∀ ch ∈ body value baseD c padCnt, isDigit ch = true) ∧
      reading 10 0 ((body value baseD c padCnt).map fun ch => ch.toNat - 48) = value := by
  have hcomma : ascii ',' ∉ body value baseD c padCnt := by
    obtain ⟨k, hk⟩ := integerBuf_eq value baseD c
    have hne : ascii ',' ≠ ascii '0' := by decide
    rw [body, zeroPad, hk, hgroup]
    simp [comma_notMem_digitLoop base_baseD, mem_replicate, hne]
  have hdigit (ch : UInt8) (hch : ch ∈ body value baseD c padCnt) : ∃ d < 10, ch = digit baseD d :=
    (mem_body base_baseD h hch).resolve_left fun heq => hcomma (heq ▸ hch)
  have hfilter : (body value baseD c padCnt).filter (· ≠ ascii ',') = body value baseD c padCnt := by
    refine filter_eq_self.mpr fun ch hch => decide_eq_true ?_
    rintro rfl
    exact hcomma hch
  constructor
  · intro ch hch
    obtain ⟨d, hd, rfl⟩ := hdigit ch hch
    exact (decimal_digit hd).1
  · have hread := reading_body (c := c) base_baseD h padCnt
    rw [hfilter] at hread
    refine (congrArg (reading 10 0) (map_congr_left fun ch hch => ?_)).trans hread
    obtain ⟨d, hd, rfl⟩ := hdigit ch hch
    exact (decimal_digit hd).2.trans (base_baseD.value d hd).symm

lemma atoi_integerText (hgroup : c.group = false) {n : ℤ} (hn : IsInt n) (rest : List UInt8) :
    atoi (integerText (absolute n) true (n < 0) baseD c ++ 0 :: rest) = .ok n := by
  obtain ⟨hlow, hhigh⟩ := hn
  obtain ⟨hlt, habs⟩ := absolute_eq (by omega : -2 ^ 63 ≤ n) (by omega)
  obtain ⟨hdigits, hread⟩ := reading_decimal hgroup hlt
    (toInt (c.width - coreLength (absolute n) true (n < 0) baseD c)).toNat
  have hmark : hexMark (absolute n) baseD c = [] := by
    unfold hexMark
    split <;> rfl
  obtain ⟨k, j, heq⟩ := exists_layOut (absolute n) baseD true (n < 0)
    (toInt (c.width - coreLength (absolute n) true (n < 0) baseD c)).toNat
  rw [integerText, heq, hmark, nil_append]
  have hsign : decide (n < 0) = true ∧ signMark true (n < 0) c = [ascii '-'] ∧ absolute n ≤ 2 ^ 31 ∨
      decide (n < 0) = false ∧ (signMark true (n < 0) c = [] ∨ signMark true (n < 0) c = [ascii '+']) ∧
        absolute n < 2 ^ 31 := by
    obtain ⟨hneg, hsign⟩ | ⟨hneg, hsign⟩ := signMark_cases true (n < 0) c
    · rw [if_pos (of_decide_eq_true hneg)] at habs
      exact .inl ⟨hneg, hsign, by omega⟩
    · rw [if_neg (of_decide_eq_false hneg)] at habs
      exact .inr ⟨hneg, hsign, by omega⟩
  rw [atoi_eq hdigits hread hsign]
  congr 1
  split_ifs <;> simp_all

end

/-- `"%*.*d"` with flags. -/
def decimalFormat (flags : List UInt8) : List UInt8 := ascii '%' :: (flags ++ "*.*d".toList.map ascii) ++ [0]

variable {flags : List UInt8}

section

variable (hflags : ∀ ch ∈ flags, ch ∈ ['-', '+', ' ', '0'].map ascii)

include hflags

lemma parseFlags_append {c : PrintfConversion} (hgroup : c.group = false) (s : List UInt8) :
    ∃ c', c'.group = false ∧
      parseFlags c (flags ++ ascii '*' :: s) = .ok (c', ascii '*' :: s) := by
  induction flags generalizing c with
  | nil => exact ⟨c, hgroup, rfl⟩
  | cons ch flags ih =>
    have hrest := fun ch hch => hflags ch (mem_cons_of_mem _ hch)
    have hch := hflags ch mem_cons_self
    simp only [map_cons, map_nil, mem_cons, not_mem_nil, or_false] at hch
    obtain rfl | rfl | rfl | rfl := hch
    · exact ih hrest hgroup
    · exact ih hrest hgroup
    · exact ih hrest hgroup
    · exact ih hrest hgroup

lemma parseConversion_decimal (e : Env) : ∃ c, c.group = false ∧ c.type = .int ∧
      parseConversion e (flags ++ "*.*d".toList.map ascii ++ [0]) 0 = .ok (c, [ascii 'd'] ++ [0], 2) := by
  obtain ⟨c, hgroup, hc⟩ := parseFlags_append hflags (c := {}) rfl (".*d".toList.map ascii ++ [0])
  have hformat : flags ++ "*.*d".toList.map ascii ++ [0] = flags ++ ascii '*' :: (".*d".toList.map ascii ++ [0]) :=
    append_assoc ..
  rw [parseConversion, hformat, hc]
  refine ⟨_, ?_, rfl, rfl⟩
  split_ifs <;> exact hgroup

end

lemma stringAt_storeAll (mem : Memory 32) (buffer : BitVec 32) {l : List UInt8} {n : ℕ} (hl : l.length ≤ n)
    (hn : n ≤ 2 ^ 32) : ∃ rest, stringAt (mem.storeAll buffer 0 l).byte buffer n = l ++ rest := by
  obtain ⟨k, rfl⟩ := Nat.exists_eq_add_of_le hl
  rw [stringAt, range_add, map_append]
  refine ⟨_, congrArg (· ++ _) (ext_getElem (by rw [length_map, length_range]) fun i h h' => ?_)⟩
  have hbyte : (mem.storeAll buffer 0 l).byte (buffer + BitVec.ofNat 32 (0 + i)) = l[i] :=
    Memory.byte_storeAll (by omega) (getElem?_eq_getElem h')
  rw [Nat.zero_add] at hbyte
  rw [getElem_map, getElem_range, hbyte]

lemma signedArg_int (e : Env) (a : ℕ) : signedArg e .int a = (e.arg a).toInt := by
  have hle : 32 ≤ 64 := by decide
  have hbits : (argBits e .int a).toNat = (e.arg a).toNat := BitVec.toNat_setWidth_of_le hle
  rw [signedArg, BitVec.toInt_eq_toNat_bmod]
  rfl

lemma puts_decimal (hflags : ∀ ch ∈ flags, ch ∈ ['-', '+', ' ', '0'].map ascii) (e : Env) :
    ∃ c : PrintfConversion, c.group = false ∧ ∀ (σ : Type) output (aux : σ), vprintf output e (decimalFormat flags) aux =
      .ok (outputAll output (integerText (absolute (e.arg 2).toInt) true ((e.arg 2).toInt < 0) baseD c) aux) := by
  obtain ⟨c, hgroup, htype, hparse⟩ := parseConversion_decimal hflags e
  have hhead : (flags ++ "*.*d".toList.map ascii).head? ≠ some (ascii '%') := by
    cases flags with
    | nil => decide
    | cons ch flags =>
      intro h
      have hmem := hflags ch mem_cons_self
      rw [Option.some.inj h] at hmem
      revert hmem
      decide
  have hturns : (decimalFormat flags).length = flags.length + 5 + 1 := by simp [decimalFormat]
  refine ⟨c, hgroup, fun σ output aux => ?_⟩
  have hstep := loopPrinter_conversion (flags.length + 5) hhead hparse output aux
  have hemits := emits_signed (e := e) (a := 2) (by decide : ascii 'd' ∈ ['d', 'i'].map ascii) c
  rw [headD_cons, hemits, htype, signedArg_int] at hstep
  rwa [vprintf, hturns]

/-- **`atoi` undoes `%d`**, whatever the flags; the number comes behind its width and precision. -/
theorem atoi_undoes_decimal {flags : List UInt8} (hflags : ∀ ch ∈ flags, ch ∈ ['-', '+', ' ', '0'].map ascii)
    (e : Env) : ∃ out, vprintf (fun ch out => out ++ [ch]) e (decimalFormat flags) [] = .ok out ∧
      ∀ (mem : Memory 32) (buffer : BitVec 32) (bufSize : ℕ), out.length < bufSize → bufSize ≤ 2 ^ 31 →
        ∃ mem', vsnprintf e mem buffer bufSize (decimalFormat flags) = .ok (out.length, mem') ∧
          atoi (stringAt mem'.byte buffer bufSize) = .ok (e.arg 2).toInt := by
  obtain ⟨c, hgroup, hputs⟩ := puts_decimal hflags e
  refine ⟨_, by rw [hputs, outputAll_collect, nil_append], fun mem buffer bufSize hsize hmax => ?_⟩
  have hint : IsInt (e.arg 2).toInt := ⟨BitVec.le_toInt _, BitVec.toInt_lt⟩
  have hatoi := atoi_integerText hgroup hint
  generalize integerText _ _ _ _ _ = out at hputs hsize hatoi ⊢
  have hlen : toInt out.length = out.length := toInt_eq ⟨by omega, by omega⟩
  refine ⟨_, by rw [vsnprintf_eq hputs (by omega) (by omega) hmax, hlen], ?_⟩
  obtain ⟨rest, hrest⟩ := stringAt_storeAll mem buffer (l := out ++ [0]) (n := bufSize)
    (by rw [length_append]; exact hsize) (by omega)
  rw [take_of_length_le (by omega), hrest, append_assoc]
  exact hatoi rest

/-- The width 0, the precision -1 and the number -42. -/
def decimalEnv : Env := ⟨fun i => [0, -1, -42].getD i 0, fun _ => 0⟩

/-- `%d` of -42, with the flag `0`. -/
theorem atoi_undoes_decimal_zero : ∃ out,
    vprintf (fun ch out => out ++ [ch]) decimalEnv (decimalFormat [ascii '0']) [] = .ok out ∧
      ∀ bufSize, out.length < bufSize → bufSize ≤ 2 ^ 31 → ∃ mem',
        vsnprintf decimalEnv ⟨fun _ => 0, []⟩ 0 bufSize (decimalFormat [ascii '0']) = .ok (out.length, mem') ∧
          atoi (stringAt mem'.byte 0 bufSize) = .ok (-42) := by
  have hflags : ∀ ch ∈ [ascii '0'], ch ∈ ['-', '+', ' ', '0'].map ascii := by
    intro ch hch
    rw [mem_singleton.mp hch]
    decide
  obtain ⟨out, hout, hall⟩ := atoi_undoes_decimal hflags decimalEnv
  exact ⟨out, hout, hall ⟨fun _ => 0, []⟩ 0⟩

end Pintos.Printf
