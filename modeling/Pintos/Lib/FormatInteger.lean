import Pintos.Lib.Printf

/-!
# Lib/FormatInteger — what `format_integer` puts out

The digits come into the work buffer from the low end, with commas between them and zeros behind
them; then the buffer is put out backwards, between its paddings.

    spaces    -     0x   000     1,234,567      spaces

Two paddings are put out, zeros and spaces, when there is a `0` flag and a negative `*` width.
-/

namespace Pintos.Printf

open Text List

/-! ## Output -/

section

variable {σ : Type} (output : UInt8 → σ → σ)

lemma outputAll_append (l l' : List UInt8) (aux : σ) :
    outputAll output (l ++ l') aux = outputAll output l' (outputAll output l aux) := by
  induction l generalizing aux with
  | nil => rfl
  | cons ch l ih => exact ih (output ch aux)

lemma outputDup_eq (ch : UInt8) (cnt : ℕ) (aux : σ) :
    outputDup output ch cnt aux = outputAll output (List.replicate cnt ch) aux := by
  induction cnt generalizing aux with
  | zero => rfl
  | succ cnt ih => exact ih (output ch aux)

end

lemma outputAll_collect (l out : List UInt8) : outputAll (fun ch out => out ++ [ch]) l out = out ++ l := by
  induction l generalizing out with
  | nil => exact (append_nil out).symm
  | cons ch l ih => exact (ih _).trans (append_assoc out [ch] l)

/-! ## The work buffer -/

/-- The bases of the conversions, as far as it matters. -/
structure Base (b : IntegerBase) : Prop where
  base : 8 ≤ b.base
  group : 0 < b.group
  zero : b.digits.getD 0 0 = ascii '0'
  value : ∀ d < b.base, b.digits.idxOf (b.digits.getD d 0) = d
  plain : ∀ d < b.base, b.digits.getD d 0 ∉ [',', ' ', '-', '+'].map ascii
  x : ∀ x ∈ b.x, x ∉ [',', ' ', '-', '+'].map ascii ∧ ∀ d < b.base, b.digits.getD d 0 ≠ x

lemma base_baseD : Base baseD :=
  ⟨by decide, by decide, by decide, by decide, by decide, fun x hx => by cases hx⟩

lemma base_baseO : Base baseO :=
  ⟨by decide, by decide, by decide, by decide, by decide, fun x hx => by cases hx⟩

lemma base_baseX : Base baseX :=
  ⟨by decide, by decide, by decide, by decide, by decide, fun x hx => by cases hx; decide⟩

lemma base_baseCapitalX : Base baseCapitalX :=
  ⟨by decide, by decide, by decide, by decide, by decide, fun x hx => by cases hx; decide⟩

lemma base_unsignedBase (letter : UInt8) : Base (unsignedBase letter) := by
  unfold unsignedBase
  split_ifs
  exacts [base_baseO, base_baseD, base_baseX, base_baseCapitalX]

/-- The digits of `value`, from the low end, with commas between groups. A value has fewer than 64.
-/
def digitLoop (b : IntegerBase) (group : Bool) : ℕ → ℕ → ℕ → List UInt8
  | 0, _, _ => []
  | turns + 1, value, digitCnt =>
    if value = 0 then []
    else
      (if group && decide (0 < digitCnt) && digitCnt % b.group == 0 then [ascii ','] else []) ++
        b.digits.getD (value % b.base) 0 :: digitLoop b group turns (value / b.base) (digitCnt + 1)

/-- What is in the buffer before it is put out backwards. -/
def integerBuf (value : ℕ) (b : IntegerBase) (c : PrintfConversion) : List UInt8 :=
  let buf := digitLoop b c.group 64 value 0
  let buf := buf ++ List.replicate (min c.rendered.toNat 63 - buf.length) (ascii '0')
  if c.pound && b.base == 8 && buf.getLast? != some (ascii '0') then buf ++ [ascii '0'] else buf

section

variable {b : IntegerBase} {c : PrintfConversion} {value : ℕ}

@[simp] lemma ok_bind {α β : Type} (a : α) (f : α → Except Stop β) : (Except.ok a >>= f) = f a := rfl

lemma length_digitLoop_le {g : Bool} {k turns : ℕ} (h : value < b.base ^ k) (cnt : ℕ) :
    (digitLoop b g turns value cnt).length ≤ 2 * k := by
  induction turns generalizing value cnt k with
  | zero => exact Nat.zero_le _
  | succ turns ih =>
    rw [digitLoop]
    split
    · exact Nat.zero_le _
    · next hne =>
      obtain _ | k := k
      · exact absurd (Nat.lt_one_iff.mp h) hne
      · have hquot : value / b.base < b.base ^ k := Nat.div_lt_of_lt_mul (by rwa [Nat.pow_succ'] at h)
        have hrest := ih hquot (cnt + 1)
        have hcomma : (if g && decide (0 < cnt) && cnt % b.group == 0 then [ascii ','] else []).length ≤ 1 := by
          split
          · exact le_rfl
          · exact Nat.zero_le 1
        rw [length_append, length_cons]
        omega

/-- 22 digits are enough for 64 bits, and as many commas. -/
lemma length_digits_le (hb : Base b) (h : value < 2 ^ 64) (g : Bool) :
    (digitLoop b g 64 value 0).length ≤ 44 :=
  length_digitLoop_le (k := 22) (h.trans_le (by
    calc 2 ^ 64 ≤ 8 ^ 22 := by decide
      _ ≤ b.base ^ 22 := Nat.pow_le_pow_left hb.base 22)) 0

variable {buf : List UInt8}

lemma push_of_lt (h : buf.length < 64) (ch : UInt8) : push buf ch = .ok (buf ++ [ch]) :=
  if_pos h

lemma pushIf_of_lt (h : buf.length < 64) (p : Bool) (ch : UInt8) :
    pushIf p buf ch = .ok (buf ++ if p then [ch] else []) := by
  rw [pushIf]
  split
  · exact push_of_lt h ch
  · rw [append_nil]

lemma digitsLoop_eq {turns cnt : ℕ}
    (h : buf.length + (digitLoop b c.group turns value cnt).length ≤ 64) :
    digitsLoop b c turns value cnt buf = .ok (buf ++ digitLoop b c.group turns value cnt) := by
  induction turns generalizing value cnt buf with
  | zero => rw [digitsLoop, digitLoop, append_nil]
  | succ turns ih =>
    rw [digitsLoop]
    rw [digitLoop] at h ⊢
    by_cases hzero : value = 0
    · rw [if_pos hzero, if_neg (by omega), append_nil]
    · rw [if_neg hzero] at h ⊢
      rw [length_append, length_cons] at h
      rw [if_pos (Nat.pos_of_ne_zero hzero), pushIf_of_lt (by omega), ok_bind, push_of_lt, ok_bind, ih]
      · rw [append_assoc, append_assoc, singleton_append]
      · rw [length_append, length_append, length_singleton]
        omega
      · rw [length_append]
        omega

lemma zerosLoop_eq {precision : ℤ} (hprecision : 0 ≤ precision) {turns : ℕ}
    (h : 64 ≤ turns + buf.length) : zerosLoop precision turns buf =
      .ok (buf ++ List.replicate (min precision.toNat 63 - buf.length) (ascii '0')) := by
  induction turns generalizing buf with
  | zero =>
    have hnone : min precision.toNat 63 - buf.length = 0 := by omega
    rw [zerosLoop, hnone, replicate_zero, append_nil]
  | succ turns ih =>
    rw [zerosLoop]
    by_cases hmore : (buf.length : ℤ) < precision ∧ buf.length < 63
    · have hlen : (buf ++ [ascii '0']).length = buf.length + 1 := length_append
      have hone : min precision.toNat 63 - buf.length =
          min precision.toNat 63 - (buf ++ [ascii '0']).length + 1 := by omega
      rw [if_pos hmore, push_of_lt (by omega), ok_bind, ih (by omega), hone, replicate_succ,
        append_assoc, singleton_append]
    · have hnone : min precision.toNat 63 - buf.length = 0 := by omega
      rw [if_neg hmore, hnone, replicate_zero, append_nil]

lemma append_leading_zero (p : Bool) (buf : List UInt8) :
    (buf ++ if p && (buf.isEmpty || buf.getLast? != some (ascii '0')) then [ascii '0'] else []) =
      if p && buf.getLast? != some (ascii '0') then buf ++ [ascii '0'] else buf := by
  have hlast : (buf.isEmpty || buf.getLast? != some (ascii '0')) = (buf.getLast? != some (ascii '0')) := by
    cases buf with
    | nil => rfl
    | cons ch buf => rfl
  rw [hlast]
  split
  · rfl
  · rw [append_nil]

lemma workBuffer_eq (hb : Base b) (h : value < 2 ^ 64) (c : PrintfConversion) :
    workBuffer value b c = .ok (integerBuf value b c) := by
  have hlen := length_digits_le hb h c.group
  have hprecision : 0 ≤ c.rendered := by
    rw [PrintfConversion.rendered]
    split <;> omega
  rw [workBuffer, digitsLoop_eq (by simp only [length_nil]; omega), ok_bind, nil_append,
    zerosLoop_eq hprecision (by omega), ok_bind, pushIf_of_lt]
  · rw [append_leading_zero]
    rfl
  · rw [length_append, length_replicate]
    omega

end

/-! ## The text -/

/-- A text between its paddings. -/
def layOut (c : PrintfConversion) (padCnt : ℕ) (sign x body : List UInt8) : List UInt8 :=
  (if !c.minus && !c.zero then List.replicate padCnt (ascii ' ') else []) ++ sign ++ x ++
    (if c.zero then List.replicate padCnt (ascii '0') else []) ++ body ++
    (if c.minus then List.replicate padCnt (ascii ' ') else [])

/-- The `0x`, if any. -/
def hexMark (value : ℕ) (b : IntegerBase) (c : PrintfConversion) : List UInt8 :=
  if c.pound && value != 0 then (b.x.map fun x => [ascii '0', x]).getD [] else []

/-- What is between the paddings. -/
def coreLength (value : ℕ) (isSigned negative : Bool) (b : IntegerBase) (c : PrintfConversion) : ℕ :=
  (integerBuf value b c).length + (hexMark value b c).length +
    (signOf isSigned negative c).toList.length

def integerText (value : ℕ) (isSigned negative : Bool) (b : IntegerBase) (c : PrintfConversion) : List UInt8 :=
  layOut c (toInt (c.width - coreLength value isSigned negative b c)).toNat
    (signOf isSigned negative c).toList (hexMark value b c) (integerBuf value b c).reverse

section

variable {b : IntegerBase} {value : ℕ} (hb : Base b) (h : value < 2 ^ 64)

lemma toNat_clamp (n : ℤ) : (if n < 0 then 0 else n).toNat = n.toNat := by split <;> omega

lemma width_sub_eq (isSigned negative : Bool) (c : PrintfConversion) :
    c.width - (integerBuf value b c).length -
        (if (if c.pound && value != 0 then b.x else none).isSome then 2 else 0) -
        (if (signOf isSigned negative c).isSome then 1 else 0) =
      c.width - coreLength value isSigned negative b c := by
  have hx : ((hexMark value b c).length : ℤ) =
      if (if c.pound && value != 0 then b.x else none).isSome then 2 else 0 := by
    unfold hexMark
    cases (c.pound && value != 0) <;> cases b.x <;> rfl
  have hsign : ((signOf isSigned negative c).toList.length : ℤ) =
      if (signOf isSigned negative c).isSome then 1 else 0 := by
    cases signOf isSigned negative c <;> rfl
  rw [← hsign, coreLength]
  omega

include hb h

lemma formatInteger_eq {σ : Type} (output : UInt8 → σ → σ) (isSigned negative : Bool)
    (c : PrintfConversion) (aux : σ) :
    formatInteger output value isSigned negative b c aux =
      .ok (outputAll output (integerText value isSigned negative b c) aux) := by
  have hsign (aux : σ) : (signOf isSigned negative c).elim aux (fun sign => output sign aux) =
      outputAll output (signOf isSigned negative c).toList aux := by
    cases signOf isSigned negative c <;> rfl
  have hx (aux : σ) : (if c.pound && value != 0 then b.x else none).elim aux
      (fun x => output x (output (ascii '0') aux)) = outputAll output (hexMark value b c) aux := by
    unfold hexMark
    cases (c.pound && value != 0) <;> cases b.x <;> rfl
  have hdup (p : Bool) (ch : UInt8) (n : ℕ) (aux : σ) : (if p then outputDup output ch n aux else aux) =
      outputAll output (if p then List.replicate n ch else []) aux := by
    cases p
    · rfl
    · exact outputDup_eq output ch n aux
  rw [formatInteger, workBuffer_eq hb h c, ok_bind]
  dsimp only
  rw [toNat_clamp, width_sub_eq, integerText, layOut]
  simp only [outputAll_append, ← hdup, ← hsign, ← hx]
  rfl

lemma length_integerBuf_le (c : PrintfConversion) :
    (integerBuf value b c).length ≤ 64 := by
  have hlen := length_digits_le hb h c.group
  rw [integerBuf]
  split
  · rw [length_append, length_append, length_replicate, length_singleton]
    omega
  · rw [length_append, length_replicate]
    omega

lemma coreLength_le (isSigned negative : Bool) (c : PrintfConversion) :
    coreLength value isSigned negative b c ≤ 67 := by
  have hbuf := length_integerBuf_le hb h c
  have hx : (hexMark value b c).length ≤ 2 := by
    unfold hexMark
    cases (c.pound && value != 0) <;> cases b.x <;> simp
  have hsign : (signOf isSigned negative c).toList.length ≤ 1 := by
    cases signOf isSigned negative c <;> simp
  rw [coreLength]
  omega

lemma toNat_padding {c : PrintfConversion} (h0 : 0 ≤ c.width)
    (h1 : c.width < 2 ^ 31) (isSigned negative : Bool) :
    (toInt (c.width - coreLength value isSigned negative b c)).toNat =
      c.width.toNat - coreLength value isSigned negative b c := by
  have hle := coreLength_le hb h isSigned negative c
  rw [toInt, Int.bmod_eq_of_le (by omega) (by omega)]
  omega

end

end Pintos.Printf
