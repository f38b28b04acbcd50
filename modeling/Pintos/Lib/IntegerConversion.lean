import Pintos.Lib.IntegerText

/-!
# Lib/IntegerConversion — the integer conversions, flags and all

The text of a conversion denotes the argument, fills its width, and has its commas in their places,
with one exception. `parse_conversion` drops the `0` flag where it has seen a `-`, and *then* reads
the width; a negative width is a `-` as well:

    "%0*d", -6, 42        zeros up to the width, and spaces once more: "000042    "
-/

namespace Pintos.Printf

open Text

/-! ## Widths -/

lemma ok_of_bind {α β : Type} {x : Except Stop α} {f : α → Except Stop β} {r : β}
    (h : (x >>= f) = .ok r) : ∃ a, x = .ok a ∧ f a = .ok r := by
  cases x with
  | error stop => cases h
  | ok a => exact ⟨a, rfl, h⟩

/-- An `int` has 32 bits. -/
def IsInt (n : ℤ) : Prop := -2 ^ 31 ≤ n ∧ n < 2 ^ 31

lemma isInt_toInt (n : ℤ) : IsInt (toInt n) := by
  have hle := Int.le_bmod (x := n) (m := 2 ^ 32) (by decide)
  have hlt := Int.bmod_lt (x := n) (m := 2 ^ 32) (by decide)
  exact ⟨by rw [toInt]; omega, by rw [toInt]; omega⟩

variable {format rest : List UInt8}

lemma isInt_parseNumber {n k : ℤ} (hn : IsInt n) (h : parseNumber n format = .ok (k, rest)) :
    IsInt k := by
  induction format generalizing n with
  | nil => cases h
  | cons ch format ih =>
    rw [parseNumber] at h
    split at h
    · exact ih (isInt_toInt _) h
    · cases h
      exact hn

lemma isInt_parseStarred {e : Env} {k : ℤ} {a a' : ℕ}
    (h : parseStarred e format a = .ok (k, rest, a')) : IsInt k := by
  obtain ⟨ch, -, h⟩ := ok_of_bind h
  split at h
  · cases h
    exact ⟨BitVec.le_toInt _, BitVec.toInt_lt⟩
  · obtain ⟨⟨n, format'⟩, hn, h⟩ := ok_of_bind h
    cases h
    exact isInt_parseNumber ⟨by decide, by decide⟩ hn

/-- A width is no negative number, unless it is the one that has no counterpart. -/
lemma width_nonneg {e : Env} {c : PrintfConversion} {a a' : ℕ}
    (h : parseConversion e format a = .ok (c, rest, a')) (hmin : c.width ≠ -2 ^ 31) :
    0 ≤ c.width ∧ c.width < 2 ^ 31 := by
  obtain ⟨⟨c₀, format₀⟩, -, h⟩ := ok_of_bind h
  obtain ⟨⟨width, format₁, a₁⟩, hwidth, h⟩ := ok_of_bind h
  obtain ⟨⟨precision, format₂, a₂⟩, -, h⟩ := ok_of_bind h
  obtain ⟨⟨type, format₃⟩, -, h⟩ := ok_of_bind h
  have hint := isInt_parseStarred hwidth
  have heq : c.width = if width < 0 then toInt (-width) else width := by
    cases h
    split_ifs <;> rfl
  rw [heq] at hmin ⊢
  unfold IsInt at hint
  split_ifs at hmin ⊢ with hneg
  · rw [toInt] at hmin ⊢
    obtain hlt | hge : -width < 2 ^ 31 ∨ width = -2 ^ 31 := by omega
    · rw [Int.bmod_eq_of_le (by omega) (by omega)]
      omega
    · exact absurd (by rw [hge]; rfl) hmin
  · omega

/-! ## What is put out -/

/-- The text of an argument, whatever the output function. -/
def Emits (e : Env) (letter : UInt8) (c : PrintfConversion) (a : ℕ) (out : List UInt8) : Prop :=
  ∀ (σ : Type) (output : UInt8 → σ → σ) (unknown : Bool → UInt8 → σ → Except Stop σ) (aux : σ),
    convert output e unknown letter c a aux = .ok (a + argWords c.type, outputAll output out aux)

section

variable {e : Env} {letter : UInt8} {a : ℕ}

lemma signedArg_bounds (e : Env) (type : ArgType) (a : ℕ) :
    -2 ^ 63 ≤ signedArg e type a ∧ signedArg e type a < 2 ^ 63 := by
  have hle := Int.le_bmod (x := ((argBits e type a).toNat : ℤ)) (m := 2 ^ type.bits) (by positivity)
  have hlt := Int.bmod_lt (x := ((argBits e type a).toNat : ℤ)) (m := 2 ^ type.bits) (by positivity)
  have hbits : (2 : ℕ) ^ type.bits ≤ 2 ^ 64 := Nat.pow_le_pow_right (by decide) (by cases type <;> decide)
  rw [signedArg]
  omega

lemma unsignedArg_lt (e : Env) (type : ArgType) (a : ℕ) : unsignedArg e type a < 2 ^ 64 :=
  (Nat.mod_le _ _).trans_lt (argBits e type a).isLt

/-- The absolute value fits even where it is that of `INTMAX_MIN`. -/
lemma absolute_eq {value : ℤ} (h0 : -2 ^ 63 ≤ value) (h1 : value < 2 ^ 63) :
    absolute value < 2 ^ 64 ∧ (absolute value : ℤ) = if value < 0 then -value else value := by
  rw [absolute]
  split_ifs <;> omega

lemma emits_signed (h : letter ∈ ['d', 'i'].map ascii) (c : PrintfConversion) :
    Emits e letter c a (integerText (absolute (signedArg e c.type a)) true
      (signedArg e c.type a < 0) baseD c) := by
  intro σ output unknown aux
  obtain ⟨h0, h1⟩ := signedArg_bounds e c.type a
  rw [convert, if_pos h]
  dsimp only
  rw [formatInteger_eq base_baseD (absolute_eq h0 h1).1]
  rfl

lemma emits_unsigned (h : letter ∈ ['o', 'u', 'x', 'X'].map ascii) (c : PrintfConversion) :
    Emits e letter c a (integerText (unsignedArg e c.type a) false false (unsignedBase letter) c) := by
  intro σ output unknown aux
  have hall : (['o', 'u', 'x', 'X'].map ascii).all (· ∉ ['d', 'i'].map ascii) = true := by decide
  have hne : letter ∉ ['d', 'i'].map ascii := of_decide_eq_true (List.all_eq_true.mp hall letter h)
  rw [convert, if_neg hne, if_pos h, formatInteger_eq (base_unsignedBase letter) (unsignedArg_lt _ _ _)]
  rfl

/-- What a conversion should put out for `number`; `unpadded` is the text with no width. -/
structure Exact (b : IntegerBase) (number : ℤ) (c : PrintfConversion) (unpadded out : List UInt8) : Prop where
  denotes : denoted b out = number
  length : (out.length : ℤ) = max c.width unpadded.length
  grouped : c.group = true → c.precision < 0 → c.pound = false → c.zero = false →
    Grouped b.group (magnitude b out)

lemma exact_integerText_iff {b : IntegerBase} {value : ℕ} (hb : Base b) (h : value < 2 ^ 64)
    {c : PrintfConversion} (hwidth : 0 ≤ c.width ∧ c.width < 2 ^ 31) (isSigned negative : Bool) :
    Exact b (if isSigned && negative then -(value : ℤ) else value) c
        (integerText value isSigned negative b { c with width := 0 })
        (integerText value isSigned negative b c) ↔
      ¬ (c.zero = true ∧ c.minus = true ∧
        ((integerText value isSigned negative b { c with width := 0 }).length : ℤ) < c.width) := by
  have hiff := length_integerText_eq_max_iff hb h hwidth.1 hwidth.2 isSigned negative
  have hgrouped (hgroup : c.group = true) (hprecision : c.precision < 0) (hpound : c.pound = false)
      (hzero : c.zero = false) : Grouped b.group (magnitude b (integerText value isSigned negative b c)) := by
    rw [magnitude_integerText hb h]
    exact grouped_body hb hgroup hprecision hpound hzero _
  rw [← hiff]
  constructor
  · intro hexact
    have hlength := hexact.length
    omega
  · intro hlength
    exact ⟨denoted_integerText hb h isSigned negative c, by omega, hgrouped⟩

end

/-- The base of an integer conversion. -/
def letterBase (letter : UInt8) : IntegerBase :=
  if letter ∈ ['d', 'i'].map ascii then baseD else unsignedBase letter

/-- The argument of an integer conversion. -/
def letterArg (e : Env) (letter : UInt8) (type : ArgType) (a : ℕ) : ℤ :=
  if letter ∈ ['d', 'i'].map ascii then signedArg e type a else unsignedArg e type a

/-- **Integer conversions are exact**: they denote their value, fill their width and have their
commas in place, except that a text is padded twice when the `0` flag meets a negative width. Flags,
width and precision are whatever `parse_conversion` returns. -/
theorem integer_conversion_exact_iff {e : Env} {c : PrintfConversion} {format rest : List UInt8} {a a' : ℕ}
    (hparse : parseConversion e format a = .ok (c, rest, a')) (hmin : c.width ≠ -2 ^ 31) {letter : UInt8}
    (hletter : letter ∈ ['d', 'i', 'o', 'u', 'x', 'X'].map ascii) :
    ∃ unpadded out, Emits e letter { c with width := 0 } a' unpadded ∧ Emits e letter c a' out ∧
      (Exact (letterBase letter) (letterArg e letter c.type a') c unpadded out ↔
        ¬ (c.zero = true ∧ c.minus = true ∧ (unpadded.length : ℤ) < c.width)) := by
  have hwidth := width_nonneg hparse hmin
  by_cases hsigned : letter ∈ ['d', 'i'].map ascii
  · obtain ⟨h0, h1⟩ := signedArg_bounds e c.type a'
    obtain ⟨hlt, habs⟩ := absolute_eq h0 h1
    have hvalue : letterArg e letter c.type a' = if true && decide (signedArg e c.type a' < 0) then
        -(absolute (signedArg e c.type a') : ℤ) else absolute (signedArg e c.type a') := by
      rw [letterArg, Bool.true_and]
      simp only [decide_eq_true_eq]
      split_ifs <;> omega
    refine ⟨_, _, emits_signed hsigned _, emits_signed hsigned c, ?_⟩
    rw [letterBase, if_pos hsigned, hvalue]
    exact exact_integerText_iff base_baseD hlt hwidth true _
  · have hunsigned : letter ∈ ['o', 'u', 'x', 'X'].map ascii :=
      (List.mem_append.mp hletter).resolve_left hsigned
    refine ⟨_, _, emits_unsigned hunsigned _, emits_unsigned hunsigned c, ?_⟩
    rw [letterBase, if_neg hsigned, letterArg, if_neg hsigned]
    exact exact_integerText_iff (base_unsignedBase letter) (unsignedArg_lt _ _ _) hwidth false false

/-- What `printf ("%0*d", -6, 42)` has on the stack. -/
def doubleEnv : Env := ⟨fun i => if i = 0 then -6 else 42, fun _ => 0⟩

def doubleConversion : PrintfConversion := { minus := true, zero := true, width := 6 }

/-- `%-06d` pads on both sides. -/
theorem zeros_and_spaces :
    parseConversion doubleEnv ("0*d".toList.map ascii) 0 = .ok (doubleConversion, [ascii 'd'], 1) ∧
      Emits doubleEnv (ascii 'd') { doubleConversion with width := 0 } 1 ("42".toList.map ascii) ∧
      Emits doubleEnv (ascii 'd') doubleConversion 1 ("000042    ".toList.map ascii) ∧
      ¬ Exact baseD 42 doubleConversion ("42".toList.map ascii) ("000042    ".toList.map ascii) := by
  refine ⟨rfl, ?_, ?_, fun h => absurd h.length (by decide)⟩
  · exact emits_signed (by decide) { doubleConversion with width := 0 }
  · exact emits_signed (by decide) doubleConversion

/-- `%-6d` pads on the right only. -/
theorem integer_conversion_exact_iff_spaces : ∃ unpadded out,
    Emits doubleEnv (ascii 'd') { width := 0, minus := true } 1 unpadded ∧
      Emits doubleEnv (ascii 'd') { width := 6, minus := true } 1 out ∧
        Exact (letterBase (ascii 'd')) (letterArg doubleEnv (ascii 'd') .int 1) { width := 6, minus := true }
          unpadded out := by
  have hparse : parseConversion doubleEnv ("*d".toList.map ascii) 0 =
    .ok ({ width := 6, minus := true }, [ascii 'd'], 1) := rfl
  have hletter : ascii 'd' ∈ ['d', 'i', 'o', 'u', 'x', 'X'].map ascii := by decide
  obtain ⟨unpadded, out, hunpadded, hout, hiff⟩ := integer_conversion_exact_iff hparse (by decide) hletter
  exact ⟨unpadded, out, hunpadded, hout, hiff.mpr fun h => Bool.false_ne_true h.1⟩

end Pintos.Printf
