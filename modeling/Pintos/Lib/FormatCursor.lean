import Pintos.Lib.IntegerConversion

/-!
# Lib/FormatCursor — how far `__vprintf` reads

`parse_conversion` stops at the null character. `__vprintf` does not: it takes it for the letter of
the conversion, and goes on behind it. So a call returns just when every conversion of the format is
whole, up to its letter. Whatever the output function is, it is given the same characters.
-/

namespace Pintos.Printf

open Text List

/-! ## Options -/

def isFlag (ch : UInt8) : Bool := ch ∈ ['-', '+', ' ', '#', '0', '\''].map ascii

/-- What is behind a number or a `*`. -/
def afterStarred : List UInt8 → List UInt8
  | [] => []
  | ch :: s => if ch = ascii '*' then s else (ch :: s).dropWhile isDigit

def afterPrecision : List UInt8 → List UInt8
  | [] => []
  | ch :: s => if ch = ascii '.' then afterStarred s else ch :: s

def afterType : List UInt8 → List UInt8
  | [] => []
  | ch :: s =>
    if ch = ascii 'h' ∨ ch = ascii 'l' then if s.head? = some ch then s.tail else s
    else if ch ∈ ['j', 't', 'z'].map ascii then s
    else ch :: s

/-- What is behind all of them: the letter of the conversion. -/
def afterOptions (s : List UInt8) : List UInt8 :=
  afterType (afterPrecision (afterStarred (s.dropWhile isFlag)))

lemma afterStarred_suffix (s : List UInt8) : afterStarred s <:+ s := by
  cases s with
  | nil => exact suffix_refl []
  | cons ch s =>
    rw [afterStarred]
    split
    · exact suffix_cons ch s
    · exact dropWhile_suffix _

lemma afterPrecision_suffix (s : List UInt8) : afterPrecision s <:+ s := by
  cases s with
  | nil => exact suffix_refl []
  | cons ch s =>
    rw [afterPrecision]
    split
    · exact (afterStarred_suffix s).trans (suffix_cons ch s)
    · exact suffix_refl _

lemma afterType_suffix (s : List UInt8) : afterType s <:+ s := by
  cases s with
  | nil => exact suffix_refl []
  | cons ch s =>
    rw [afterType]
    split_ifs
    · exact (tail_suffix s).trans (suffix_cons ch s)
    · exact suffix_cons ch s
    · exact suffix_cons ch s
    · exact suffix_refl _

lemma afterOptions_suffix (s : List UInt8) : afterOptions s <:+ s :=
  (afterType_suffix _).trans
    ((afterPrecision_suffix _).trans ((afterStarred_suffix _).trans (dropWhile_suffix _)))

lemma parseFlags_eq (c : PrintfConversion) (s : List UInt8) :
    ∃ c', parseFlags c (s ++ [0]) = .ok (c', s.dropWhile isFlag ++ [0]) := by
  induction s generalizing c with
  | nil => exact ⟨c, rfl⟩
  | cons ch s ih =>
    rw [cons_append, parseFlags]
    by_cases hflag : isFlag ch = true
    · rw [dropWhile_cons_of_pos hflag]
      split_ifs with h₁ h₂ h₃ h₄ h₅ h₆
      · exact ih _
      · exact ih _
      · exact ih _
      · exact ih _
      · exact ih _
      · exact ih _
      · simp [isFlag, h₁, h₂, h₃, h₄, h₅, h₆] at hflag
    · have hne (ch' : UInt8) (h : isFlag ch' = true) : ch ≠ ch' := fun heq => hflag (heq ▸ h)
      rw [dropWhile_cons_of_neg hflag, if_neg (hne _ (by decide)), if_neg (hne _ (by decide)),
        if_neg (hne _ (by decide)), if_neg (hne _ (by decide)), if_neg (hne _ (by decide)),
        if_neg (hne _ (by decide))]
      exact ⟨c, rfl⟩

lemma parseNumber_eq (n : ℤ) (s : List UInt8) :
    ∃ k, parseNumber n (s ++ [0]) = .ok (k, s.dropWhile isDigit ++ [0]) := by
  induction s generalizing n with
  | nil => exact ⟨n, rfl⟩
  | cons ch s ih =>
    rw [cons_append, parseNumber]
    split
    · next hdigit =>
      rw [dropWhile_cons_of_pos hdigit]
      exact ih _
    · next hdigit =>
      rw [dropWhile_cons_of_neg hdigit]
      exact ⟨n, rfl⟩

variable (e : Env)

lemma parseStarred_eq (s : List UInt8) (a : ℕ) :
    ∃ n a', parseStarred e (s ++ [0]) a = .ok (n, afterStarred s ++ [0], a') := by
  obtain ⟨k, hk⟩ := parseNumber_eq 0 s
  cases s with
  | nil => exact ⟨0, a, rfl⟩
  | cons ch s =>
    rw [parseStarred, afterStarred, cons_append, peek, ok_bind]
    split
    · exact ⟨_, _, rfl⟩
    · rw [← cons_append, hk]
      exact ⟨_, _, rfl⟩

lemma parsePrecision_eq (s : List UInt8) (a : ℕ) :
    ∃ n a', parsePrecision e (s ++ [0]) a = .ok (n, afterPrecision s ++ [0], a') := by
  cases s with
  | nil => exact ⟨-1, a, rfl⟩
  | cons ch s =>
    obtain ⟨n, a', hn⟩ := parseStarred_eq e s a
    rw [parsePrecision, afterPrecision, cons_append, peek, ok_bind]
    split
    · rw [tail_cons, hn]
      exact ⟨_, _, rfl⟩
    · exact ⟨_, _, rfl⟩

lemma peek_twice {ch : UInt8} (hch : ch ≠ 0) (twice once : ArgType) (s : List UInt8) :
    ∃ type, (peek (s ++ [0]) >>= fun ch' =>
      pure (if ch' = ch then (twice, (s ++ [0]).tail) else (once, s ++ [0]))) =
        .ok (type, (if s.head? = some ch then s.tail else s) ++ [0]) := by
  cases s with
  | nil => exact ⟨once, by simp [peek, hch.symm]⟩
  | cons ch' s =>
    by_cases hsame : ch' = ch
    · exact ⟨twice, by simp [peek, hsame]⟩
    · exact ⟨once, by simp [peek, hsame]⟩

lemma parseType_eq (s : List UInt8) : ∃ type, parseType (s ++ [0]) = .ok (type, afterType s ++ [0]) := by
  cases s with
  | nil => exact ⟨.int, rfl⟩
  | cons ch s =>
    rw [parseType, afterType, cons_append, peek, ok_bind]
    by_cases hh : ch = ascii 'h'
    · rw [if_pos hh, hh]
      exact peek_twice (by decide) .char .short s
    · by_cases hl : ch = ascii 'l'
      · subst hl
        exact peek_twice (by decide) .longlong .long s
      · rw [if_neg hh, if_neg (not_or.mpr ⟨hh, hl⟩), if_neg hl]
        by_cases hone : ch ∈ ['j', 't', 'z'].map ascii
        · split_ifs with hj ht hz
          · exact ⟨_, rfl⟩
          · exact ⟨_, rfl⟩
          · exact ⟨_, rfl⟩
          · simp [hj, ht, hz] at hone
        · have hne (ch' : UInt8) (h : ch' ∈ ['j', 't', 'z'].map ascii) : ch ≠ ch' := fun heq => hone (heq ▸ h)
          rw [if_neg hone, if_neg (hne _ (by decide)), if_neg (hne _ (by decide)), if_neg (hne _ (by decide))]
          exact ⟨_, rfl⟩

lemma parseConversion_eq (s : List UInt8) (a : ℕ) :
    ∃ c a', parseConversion e (s ++ [0]) a = .ok (c, afterOptions s ++ [0], a') := by
  obtain ⟨c, hc⟩ := parseFlags_eq {} s
  rw [parseConversion, hc, ok_bind]
  dsimp only
  obtain ⟨width, a₁, hwidth⟩ := parseStarred_eq e (s.dropWhile isFlag) a
  rw [hwidth, ok_bind]
  obtain ⟨precision, a₂, hprecision⟩ := parsePrecision_eq e (afterStarred (s.dropWhile isFlag)) a₁
  rw [hprecision, ok_bind]
  obtain ⟨type, htype⟩ := parseType_eq (afterPrecision (afterStarred (s.dropWhile isFlag)))
  rw [htype]
  exact ⟨_, _, rfl⟩

/-! ## What is put out -/

/-- The text of `format_string`. -/
def stringText (string : List UInt8) (length : ℤ) (c : PrintfConversion) : List UInt8 :=
  (if length < c.width ∧ c.minus = false then replicate (c.width - length).toNat (ascii ' ') else []) ++
    string ++
  (if length < c.width ∧ c.minus = true then replicate (c.width - length).toNat (ascii ' ') else [])

lemma formatString_eq {σ : Type} (output : UInt8 → σ → σ) (string : List UInt8) (length : ℤ)
    (c : PrintfConversion) (aux : σ) :
    formatString output string length c aux = outputAll output (stringText string length c) aux := by
  have hdup (p : Prop) [Decidable p] (n : ℕ) (aux : σ) : (if p then outputDup output (ascii ' ') n aux else aux) =
      outputAll output (if p then replicate n (ascii ' ') else []) aux := by
    split
    · exact outputDup_eq output _ n aux
    · rfl
  rw [formatString, stringText, outputAll_append, outputAll_append, ← hdup, ← hdup]

/-- The message for a letter. -/
def unknownOutput (inKernel : Bool) (letter : UInt8) : List UInt8 :=
  "<<no %".toList.map ascii ++ [((BitVec.ofNat 32 letter.toNat).toNat % 2 ^ 8).toUInt8] ++
    (if inKernel then " in kernel>>" else " conversion>>").toList.map ascii

lemma printfUnknown_eq {σ : Type} (output : UInt8 → σ → σ) (inKernel : Bool) (letter : UInt8) (aux : σ) :
    printfUnknown output inKernel letter aux = .ok (outputAll output (unknownOutput inKernel letter) aux) := by
  cases inKernel <;> rfl

/-- Every conversion comes to an end, that of the null character included. -/
lemma convert_eq (letter : UInt8) (c : PrintfConversion) (a : ℕ) :
    ∃ a' text, ∀ (σ : Type) (output : UInt8 → σ → σ) (aux : σ),
      convert output e (printfUnknown output) letter c a aux = .ok (a', outputAll output text aux) := by
  by_cases hsigned : letter ∈ ['d', 'i'].map ascii
  · exact ⟨_, _, fun σ output => emits_signed hsigned c σ output _⟩
  by_cases hunsigned : letter ∈ ['o', 'u', 'x', 'X'].map ascii
  · exact ⟨_, _, fun σ output => emits_unsigned hunsigned c σ output _⟩
  simp only [convert, if_neg hsigned, if_neg hunsigned, formatString_eq, printfUnknown_eq,
    formatInteger_eq base_baseX ((e.arg a).isLt.trans (by decide))]
  split_ifs
  all_goals exact ⟨_, _, fun _ _ _ => rfl⟩

/-! ## The whole format -/

/-- Every conversion of the format has a letter. -/
inductive Whole : List UInt8 → Prop
  | nil : Whole []
  | char {ch : UInt8} {s : List UInt8} (hch : ch ≠ ascii '%') (h : Whole s) : Whole (ch :: s)
  | percent {s : List UInt8} (h : Whole s) : Whole (ascii '%' :: ascii '%' :: s)
  | conversion {letter : UInt8} {s s' : List UInt8} (hs : s.head? ≠ some (ascii '%'))
      (hletter : afterOptions s = letter :: s') (h : Whole s') : Whole (ascii '%' :: s)

variable {s : List UInt8}

lemma whole_char {ch : UInt8} (hch : ch ≠ ascii '%') : Whole (ch :: s) ↔ Whole s := by
  constructor
  · intro h
    cases h with
    | char _ h => exact h
    | percent => exact absurd rfl hch
    | conversion => exact absurd rfl hch
  · exact .char hch

lemma whole_percent : Whole (ascii '%' :: ascii '%' :: s) ↔ Whole s := by
  constructor
  · intro h
    cases h with
    | char hch => exact absurd rfl hch
    | percent h => exact h
    | conversion hs => exact absurd rfl hs
  · exact .percent

lemma whole_conversion (hs : s.head? ≠ some (ascii '%')) :
    Whole (ascii '%' :: s) ↔ ∃ letter s', afterOptions s = letter :: s' ∧ Whole s' := by
  constructor
  · intro h
    cases h with
    | char hch => exact absurd rfl hch
    | percent => exact absurd rfl hs
    | conversion _ hletter h => exact ⟨_, _, hletter, h⟩
  · rintro ⟨letter, s', hletter, h⟩
    exact .conversion hs hletter h

/-- What gives characters to an output function. -/
abbrev Printer : Type 1 := (σ : Type) → (UInt8 → σ → σ) → σ → Except Stop σ

/-- It gives the same characters to any of them, if `w`; and if not, it reads on. -/
def Printer.Tells (p : Printer) (w : Prop) : Prop :=
  (w ∧ ∃ text, ∀ σ output aux, p σ output aux = .ok (outputAll output text aux)) ∨
    ¬ w ∧ ∀ σ output aux, p σ output aux = .error .overrun

lemma Printer.Tells.after {p q : Printer} {w w' : Prop} (h : q.Tells w') (hw : w ↔ w') (text : List UInt8)
    (heq : ∀ σ output aux, p σ output aux = q σ output (outputAll output text aux)) : p.Tells w := by
  obtain ⟨hw', text', htext⟩ | ⟨hw', hover⟩ := h
  · refine .inl ⟨hw.mpr hw', text ++ text', fun σ output aux => ?_⟩
    rw [heq, htext, outputAll_append]
  · refine .inr ⟨fun h => hw' (hw.mp h), fun σ output aux => ?_⟩
    rw [heq, hover]

lemma peek_eq (s : List UInt8) : peek (s ++ [0]) = .ok (s.headD 0) := by
  cases s <;> rfl

/-- The loop of `__vprintf`, from an argument on. -/
abbrev loopPrinter (turns : ℕ) (format : List UInt8) (a : ℕ) : Printer :=
  fun _ output aux => vprintfLoop output e (printfUnknown output) turns format a aux

variable {e}

lemma loopPrinter_conversion (turns : ℕ) {a a' : ℕ} {s s' : List UInt8} {c : PrintfConversion}
    (hhead : s.head? ≠ some (ascii '%')) (hc : parseConversion e (s ++ [0]) a = .ok (c, s' ++ [0], a'))
    {σ : Type} (output : UInt8 → σ → σ) (aux : σ) :
    loopPrinter e (turns + 1) (ascii '%' :: s ++ [0]) a σ output aux =
      convert output e (printfUnknown output) (s'.headD 0) c a' aux >>= fun r =>
        loopPrinter e turns (s' ++ [0]).tail r.1 σ output r.2 := by
  have hne : s.headD 0 ≠ ascii '%' := by
    cases s with
    | nil => decide
    | cons ch s => exact fun h => hhead (congrArg some h)
  have hzero : ascii '%' ≠ 0 := by decide
  rw [loopPrinter, cons_append, vprintfLoop, peek, ok_bind]
  dsimp only [tail_cons]
  rw [peek_eq, ok_bind, if_neg hne, hc, ok_bind]
  rw [peek_eq]
  rfl

lemma tells_conversion {turns : ℕ} (hhead : s.head? ≠ some (ascii '%')) (a : ℕ)
    (hrest : ∀ letter s' a', afterOptions s = letter :: s' → (loopPrinter e turns (s' ++ [0]) a').Tells (Whole s')) :
    (loopPrinter e (turns + 1) (ascii '%' :: s ++ [0]) a).Tells (Whole (ascii '%' :: s)) := by
  obtain ⟨c, a₁, hc⟩ := parseConversion_eq e s a
  obtain ⟨a₂, text, htext⟩ := convert_eq e ((afterOptions s).headD 0) c a₁
  have hstep (σ : Type) (output : UInt8 → σ → σ) (aux : σ) :
      loopPrinter e (turns + 1) (ascii '%' :: s ++ [0]) a σ output aux =
        loopPrinter e turns (afterOptions s ++ [0]).tail a₂ σ output (outputAll output text aux) := by
    rw [loopPrinter_conversion turns hhead hc, htext, ok_bind]
  cases hletter : afterOptions s with
  | nil =>
    -- the letter is the null character, and the format ends with it
    refine .inr ⟨fun h => ?_, fun σ output aux => ?_⟩
    · obtain ⟨letter, s', heq, -⟩ := (whole_conversion hhead).mp h
      cases heq.symm.trans hletter
    · rw [hstep, hletter]
      cases turns <;> rfl
  | cons letter s' =>
    rw [hletter] at hstep
    refine (hrest letter s' a₂ hletter).after ?_ text hstep
    rw [whole_conversion hhead, hletter]
    constructor
    · rintro ⟨_, _, heq, h⟩
      cases heq
      exact h
    · exact fun h => ⟨letter, s', rfl, h⟩

lemma tells_vprintfLoop {turns : ℕ} (hs : 0 ∉ s) (hturns : s.length < turns) (a : ℕ) :
    (loopPrinter e turns (s ++ [0]) a).Tells (Whole s) := by
  induction turns generalizing s a with
  | zero => exact absurd hturns (Nat.not_lt_zero _)
  | succ turns ih =>
    cases s with
    | nil => exact .inl ⟨.nil, [], fun _ _ _ => rfl⟩
    | cons ch s =>
      have hch : ch ≠ 0 := fun h => hs (h ▸ mem_cons_self)
      have hrest {s' : List UInt8} (h : s' <:+ s) (a' : ℕ) : (loopPrinter e turns (s' ++ [0]) a').Tells (Whole s') :=
        ih (fun hmem => hs (mem_cons_of_mem _ (h.mem hmem)))
          (h.length_le.trans_lt (Nat.lt_of_succ_lt_succ hturns)) a'
      by_cases hpercent : ch = ascii '%'
      · subst hpercent
        by_cases hhead : s.head? = some (ascii '%')
        · obtain ⟨s', rfl⟩ : ∃ s', s = ascii '%' :: s' := ⟨_, eq_cons_of_mem_head? hhead⟩
          exact (hrest (suffix_cons _ s') a).after whole_percent [ascii '%'] fun _ _ _ => rfl
        · refine tells_conversion hhead a fun letter s' a' heq => hrest ?_ a'
          exact (suffix_cons letter s').trans (heq ▸ afterOptions_suffix s)
      · refine (hrest (suffix_refl s) a).after (whole_char hpercent) [ch] fun σ output aux => ?_
        rw [loopPrinter, cons_append, vprintfLoop, peek, ok_bind, if_neg hch, if_pos hpercent]
        rfl

variable (e)

lemma tells_vprintf (format : CString) :
    Printer.Tells (fun _ output aux => vprintf output e (format.bytes ++ [0]) aux) (Whole format.bytes) :=
  tells_vprintfLoop format.noNul (by rw [length_append]; exact Nat.lt_succ_self _) 0

/-- **`__vprintf` returns just for a whole format**; otherwise it reads behind the null character.
-/
theorem vprintf_returns_iff (format : CString) {σ : Type} (output : UInt8 → σ → σ) (aux : σ) :
    ((∃ aux', vprintf output e (format.bytes ++ [0]) aux = .ok aux') ↔ Whole format.bytes) ∧
      (vprintf output e (format.bytes ++ [0]) aux = .error .overrun ↔ ¬ Whole format.bytes) := by
  obtain ⟨hwhole, text, htext⟩ | ⟨hnot, hover⟩ := tells_vprintf e format
  · have heq : vprintf output e (format.bytes ++ [0]) aux = .ok (outputAll output text aux) := htext σ output aux
    simp [heq, hwhole]
  · have heq : vprintf output e (format.bytes ++ [0]) aux = .error .overrun := hover σ output aux
    simp [heq, hnot]

theorem vprintf_percent_overrun :
    vprintf (fun ch out => out ++ [ch]) ⟨fun _ => 0, fun _ => 0⟩ [ascii '%', 0] [] = .error .overrun := rfl

end Pintos.Printf
