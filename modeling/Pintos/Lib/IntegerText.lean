import Pintos.Lib.FormatInteger
import Pintos.Machinery.Numerals

/-!
# Lib/IntegerText — an integer read back from its text

A text is taken apart from the outside in; what is left is digits, read in the base of the
conversion. Whatever the flags, this gives the number that was put in.

       "   -0x1,234  "   trim    "-0x1,234"   sign, mark   "1,234"   commas   "1234"
-/

namespace Pintos.Printf

open Text Machinery List Option Nat

/-! ## Taking a text apart -/

/-- The text without the spaces on both sides. -/
def trim (out : List UInt8) : List UInt8 :=
  ((out.dropWhile (· == ascii ' ')).reverse.dropWhile (· == ascii ' ')).reverse

/-- …without its sign… -/
def withoutSign (text : List UInt8) : List UInt8 :=
  if text.head? = some (ascii '-') ∨ text.head? = some (ascii '+') then text.tail else text

/-- …and without its `0x`. -/
def withoutMark (b : IntegerBase) (text : List UInt8) : List UInt8 :=
  if b.x.isSome ∧ text.take 2 = ascii '0' :: b.x.toList then text.drop 2 else text

/-- The digits, and commas between them. -/
def magnitude (b : IntegerBase) (out : List UInt8) : List UInt8 := withoutMark b (withoutSign (trim out))

/-- The number that a text denotes. -/
def denoted (b : IntegerBase) (out : List UInt8) : ℤ :=
  let n := reading b.base 0 (((magnitude b out).filter (· ≠ ascii ',')).map b.digits.idxOf)
  if (trim out).head? = some (ascii '-') then -n else n

lemma dropWhile_replicate (n : ℕ) {text : List UInt8} (h : text.head? ≠ some (ascii ' ')) :
    (List.replicate n (ascii ' ') ++ text).dropWhile (· == ascii ' ') = text := by
  induction n with
  | zero =>
    cases text with
    | nil => rfl
    | cons ch text =>
      refine dropWhile_cons_of_neg fun heq => h ?_
      rw [head?_cons, beq_iff_eq.mp heq]
  | succ n ih => exact ih

lemma trim_eq {text : List UInt8} (h : ascii ' ' ∉ text) (n k : ℕ) :
    trim (List.replicate n (ascii ' ') ++ text ++ List.replicate k (ascii ' ')) = text := by
  have hhead (l : List UInt8) (hl : ascii ' ' ∉ l) : l.head? ≠ some (ascii ' ') :=
    fun heq => hl (mem_of_head? heq)
  rw [trim, append_assoc]
  cases text with
  | nil =>
    have hnil : ([] : List UInt8).head? ≠ some (ascii ' ') := (some_ne_none _).symm
    rw [nil_append, replicate_append_replicate, ← append_nil (replicate _ _),
      dropWhile_replicate _ hnil]
    rfl
  | cons ch text =>
    have hfirst : (ch :: text ++ replicate k (ascii ' ')).head? ≠ some (ascii ' ') := by
      intro heq
      exact h (some.inj heq ▸ mem_cons_self)
    rw [dropWhile_replicate _ hfirst, reverse_append, reverse_replicate, dropWhile_replicate,
      reverse_reverse]
    exact hhead _ fun hmem => h (mem_reverse.mp hmem)

/-! ## The digits of the buffer -/

variable {ch : UInt8}

section

variable {b : IntegerBase} {value : ℕ}

def digit (b : IntegerBase) (d : ℕ) : UInt8 := b.digits.getD d 0

lemma Base.digit_ne (hb : Base b) {d : ℕ} (hd : d < b.base)
    (hch : ch ∈ [',', ' ', '-', '+'].map ascii) : digit b d ≠ ch := by
  rintro rfl
  exact hb.plain d hd hch

lemma filter_digitLoop (hb : Base b) {g : Bool} {turns : ℕ} (h : value < b.base ^ turns) (cnt : ℕ) :
    (digitLoop b g turns value cnt).filter (· ≠ ascii ',') =
      (Nat.digits b.base value).map (digit b) := by
  have hbase : 1 < b.base := Nat.lt_of_lt_of_le (by omega) hb.base
  induction turns generalizing value cnt with
  | zero =>
    obtain rfl : value = 0 := Nat.lt_one_iff.mp h
    rw [Nat.digits_zero]
    rfl
  | succ turns ih =>
    rw [digitLoop]
    split
    · next hzero => rw [hzero, Nat.digits_zero, filter_nil, map_nil]
    · next hzero =>
      have hquot : value / b.base < b.base ^ turns :=
        Nat.div_lt_of_lt_mul (by rwa [Nat.pow_succ'] at h)
      have hcomma : (if g && decide (0 < cnt) && cnt % b.group == 0 then [ascii ','] else []).filter
          (· ≠ ascii ',') = [] := by
        split <;> rfl
      have hne : digit b (value % b.base) ≠ ascii ',' :=
        hb.digit_ne (Nat.mod_lt _ (by omega)) mem_cons_self
      rw [filter_append, hcomma, nil_append, Nat.digits_def' hbase (Nat.pos_of_ne_zero hzero),
        map_cons, ← ih hquot (cnt + 1)]
      exact filter_cons_of_pos (decide_eq_true hne)

lemma comma_notMem_digitLoop (hb : Base b) {turns cnt : ℕ} :
    ascii ',' ∉ digitLoop b false turns value cnt := by
  induction turns generalizing value cnt with
  | zero => exact not_mem_nil
  | succ turns ih =>
    rw [digitLoop]
    split
    · exact not_mem_nil
    · intro hmem
      obtain hdigit | hrest := mem_cons.mp hmem
      · have hlt : value % b.base < b.base := Nat.mod_lt _ (Nat.lt_of_lt_of_le (by decide) hb.base)
        exact hb.digit_ne hlt mem_cons_self hdigit.symm
      · exact ih hrest

lemma integerBuf_eq (value : ℕ) (b : IntegerBase) (c : PrintfConversion) :
    ∃ k, integerBuf value b c =
      digitLoop b c.group 64 value 0 ++ List.replicate k (ascii '0') := by
  rw [integerBuf]
  split
  · refine ⟨min c.rendered.toNat 63 - (digitLoop b c.group 64 value 0).length + 1, ?_⟩
    rw [append_assoc, replicate_succ']
  · exact ⟨_, rfl⟩

lemma exists_digits (hb : Base b) (h : value < 2 ^ 64) (c : PrintfConversion) :
    ∃ ds : List ℕ, (∀ d ∈ ds, d < b.base) ∧ Nat.ofDigits b.base ds = value ∧
      (integerBuf value b c).filter (· ≠ ascii ',') = ds.map (digit b) := by
  have hbase : 1 < b.base := Nat.lt_of_lt_of_le (by omega) hb.base
  have hturns : value < b.base ^ 64 := h.trans_le (Nat.pow_le_pow_left (by omega) 64)
  obtain ⟨k, hk⟩ := integerBuf_eq value b c
  refine ⟨Nat.digits b.base value ++ replicate k 0, fun d hd => ?_, ?_, ?_⟩
  · obtain hd | hd := mem_append.mp hd
    · exact Nat.digits_lt_base hbase hd
    · rw [eq_of_mem_replicate hd]
      omega
  · rw [Nat.ofDigits_append_replicate_zero, Nat.ofDigits_digits]
  · have hzero : digit b 0 = ascii '0' := hb.zero
    rw [hk, filter_append, filter_digitLoop hb hturns, map_append, map_replicate, hzero,
      filter_replicate, if_pos (by decide)]

lemma mem_integerBuf (hb : Base b) (h : value < 2 ^ 64) {c : PrintfConversion}
    (hch : ch ∈ integerBuf value b c) : ch = ascii ',' ∨ ∃ d < b.base, ch = digit b d := by
  by_cases hcomma : ch = ascii ','
  · exact .inl hcomma
  · obtain ⟨ds, hds, -, hfilter⟩ := exists_digits hb h c
    have hmem : ch ∈ ds.map (digit b) := by
      rw [← hfilter]
      exact mem_filter.mpr ⟨hch, decide_eq_true hcomma⟩
    obtain ⟨d, hd, rfl⟩ := mem_map.mp hmem
    exact .inr ⟨d, hds d hd, rfl⟩

/-! ## The text, taken apart -/

def zeroPad (c : PrintfConversion) (padCnt : ℕ) : List UInt8 :=
  if c.zero then List.replicate padCnt (ascii '0') else []

/-- The digits and commas, with the zeros before them. -/
def body (value : ℕ) (b : IntegerBase) (c : PrintfConversion) (padCnt : ℕ) : List UInt8 :=
  zeroPad c padCnt ++ (integerBuf value b c).reverse

variable {c : PrintfConversion}

lemma mem_body (hb : Base b) (h : value < 2 ^ 64) {padCnt : ℕ}
    (hch : ch ∈ body value b c padCnt) : ch = ascii ',' ∨ ∃ d < b.base, ch = digit b d := by
  obtain hch | hch := mem_append.mp hch
  · rw [zeroPad] at hch
    split at hch
    · rw [eq_of_mem_replicate hch]
      exact .inr ⟨0, lt_of_lt_of_le (by omega) hb.base, hb.zero.symm⟩
    · exact absurd hch not_mem_nil
  · exact mem_integerBuf hb h (mem_reverse.mp hch)

lemma notMem_marked (hb : Base b) (h : value < 2 ^ 64) {padCnt : ℕ}
    (hch : ch ∈ [' ', '-', '+'].map ascii) : ch ∉ hexMark value b c ++ body value b c padCnt := by
  intro hmem
  have hmem' : ch ∈ [',', ' ', '-', '+'].map ascii := mem_cons_of_mem _ hch
  have hcomma : ch ≠ ascii ',' := by
    rintro rfl
    revert hch
    decide
  have hzero : ch ≠ ascii '0' := by
    rintro rfl
    revert hch
    decide
  obtain hx | hbody := mem_append.mp hmem
  · rw [hexMark] at hx
    split at hx
    · cases hbx : b.x with
      | none =>
        rw [hbx] at hx
        exact absurd hx not_mem_nil
      | some x =>
        rw [hbx] at hx
        obtain hx | hx := mem_cons.mp hx
        · exact hzero hx
        · rw [mem_singleton.mp hx] at hmem'
          exact (hb.x x hbx).1 hmem'
    · exact absurd hx not_mem_nil
  · obtain hch | ⟨d, hd, hch⟩ := mem_body hb h hbody
    · exact hcomma hch
    · exact hb.digit_ne hd hmem' hch.symm

/-- The sign that is not a space. -/
def signMark (isSigned negative : Bool) (c : PrintfConversion) : List UInt8 :=
  (signOf isSigned negative c).toList.filter (· ≠ ascii ' ')

lemma signMark_cases (isSigned negative : Bool) (c : PrintfConversion) :
    (isSigned && negative) = true ∧ signMark isSigned negative c = [ascii '-'] ∨
      (isSigned && negative) = false ∧
        (signMark isSigned negative c = [] ∨ signMark isSigned negative c = [ascii '+']) := by
  unfold signMark signOf
  generalize c.plus = plus
  generalize c.space = space
  cases isSigned <;> cases negative <;> cases plus <;> cases space <;> decide

lemma exists_signOf (isSigned negative : Bool) (c : PrintfConversion) : ∃ n,
    (signOf isSigned negative c).toList = List.replicate n (ascii ' ') ++ signMark isSigned negative c := by
  obtain hsign | hsign := Decidable.eq_or_ne (signOf isSigned negative c) (some (ascii ' '))
  · refine ⟨1, ?_⟩
    rw [signMark, hsign]
    rfl
  · refine ⟨0, ?_⟩
    rw [signMark]
    cases hch : signOf isSigned negative c with
    | none => rfl
    | some ch =>
      have hne : ch ≠ ascii ' ' := fun heq => hsign (heq ▸ hch)
      simp [hne]

lemma exists_replicate (p : Bool) (n : ℕ) (ch : UInt8) :
    ∃ k, (if p then List.replicate n ch else []) = List.replicate k ch := by
  cases p
  · exact ⟨0, rfl⟩
  · exact ⟨n, rfl⟩

/-- The text of an integer: spaces, the sign, the mark, the digits, and spaces. -/
lemma exists_layOut (value : ℕ) (b : IntegerBase) (isSigned negative : Bool) (padCnt : ℕ) : ∃ n k,
    layOut c padCnt (signOf isSigned negative c).toList (hexMark value b c)
      (integerBuf value b c).reverse = replicate n (ascii ' ') ++
        (signMark isSigned negative c ++ (hexMark value b c ++ body value b c padCnt)) ++
          replicate k (ascii ' ') := by
  obtain ⟨n, hn⟩ := exists_replicate (!c.minus && !c.zero) padCnt (ascii ' ')
  obtain ⟨k, hk⟩ := exists_replicate c.minus padCnt (ascii ' ')
  obtain ⟨j, hj⟩ := exists_signOf isSigned negative c
  refine ⟨n + j, k, ?_⟩
  rw [layOut, hn, hk, hj, ← replicate_append_replicate, body, zeroPad]
  simp only [append_assoc]

section

variable (hb : Base b) (h : value < 2 ^ 64)

include hb h

/-- Without the spaces: the sign, the mark and the digits. -/
lemma trim_layOut (isSigned negative : Bool) (padCnt : ℕ) :
    trim (layOut c padCnt (signOf isSigned negative c).toList (hexMark value b c)
      (integerBuf value b c).reverse) =
      signMark isSigned negative c ++ (hexMark value b c ++ body value b c padCnt) := by
  have hnone : ascii ' ' ∉ signMark isSigned negative c ++ (hexMark value b c ++ body value b c padCnt) := by
    intro hmem
    obtain hmem | hmem := mem_append.mp hmem
    · exact of_decide_eq_true (mem_filter.mp hmem).2 rfl
    · exact notMem_marked hb h mem_cons_self hmem
  obtain ⟨n, k, heq⟩ := exists_layOut value b isSigned negative padCnt
  rw [heq, trim_eq hnone]

lemma withoutSign_eq (isSigned negative : Bool) (padCnt : ℕ) :
    withoutSign (signMark isSigned negative c ++ (hexMark value b c ++ body value b c padCnt)) =
      hexMark value b c ++ body value b c padCnt := by
  have hhead (ch : UInt8) (hch : ch ∈ [' ', '-', '+'].map ascii) :
      (hexMark value b c ++ body value b c padCnt).head? ≠ some ch :=
    fun heq => notMem_marked hb h hch (mem_of_head? heq)
  rw [withoutSign]
  obtain ⟨-, hsign⟩ | ⟨-, hsign | hsign⟩ := signMark_cases isSigned negative c
  · rw [hsign]
    rfl
  · rw [hsign, nil_append, if_neg]
    exact not_or.mpr ⟨hhead _ (by decide), hhead _ (by decide)⟩
  · rw [hsign]
    rfl

lemma withoutMark_eq (padCnt : ℕ) :
    withoutMark b (hexMark value b c ++ body value b c padCnt) = body value b c padCnt := by
  rw [withoutMark, hexMark]
  cases hbx : b.x with
  | none => split <;> rfl
  | some x =>
    split
    · rw [if_pos ⟨rfl, rfl⟩]
      rfl
    · rw [nil_append, if_neg]
      rintro ⟨-, htake⟩
      have hx : x ∈ body value b c padCnt := by
        refine mem_of_mem_take (i := 2) ?_
        rw [htake]
        exact mem_cons_of_mem _ mem_cons_self
      obtain hcomma | ⟨d, hd, hdigit⟩ := mem_body hb h hx
      · exact (hb.x x hbx).1 (hcomma ▸ mem_cons_self)
      · exact (hb.x x hbx).2 d hd hdigit.symm

lemma reading_body (padCnt : ℕ) :
    reading b.base 0 (((body value b c padCnt).filter (· ≠ ascii ',')).map b.digits.idxOf) = value := by
  obtain ⟨ds, hds, hvalue, hfilter⟩ := exists_digits hb h c
  have hbase : 0 < b.base := lt_of_lt_of_le (by omega) hb.base
  have hidx (d : ℕ) (hd : d < b.base) : b.digits.idxOf (digit b d) = d := hb.value d hd
  have hzeros : ((zeroPad c padCnt).filter (· ≠ ascii ',')).map b.digits.idxOf =
      List.replicate (zeroPad c padCnt).length 0 := by
    obtain ⟨k, hk⟩ := exists_replicate c.zero padCnt (ascii '0')
    have hzero : ascii '0' = digit b 0 := hb.zero.symm
    rw [zeroPad, hk, filter_replicate, if_pos (by decide), map_replicate, length_replicate,
      hzero, hidx 0 hbase]
  have hdigits : (ds.map (digit b)).map b.digits.idxOf = ds := by
    rw [List.map_map]
    exact (map_congr_left fun d hd => hidx d (hds d hd)).trans (map_id ds)
  rw [body, filter_append, map_append, hzeros, filter_reverse, hfilter, map_reverse,
    hdigits, reading_append, reading_replicate_zero, reading_reverse, hvalue]

end

variable (hb : Base b) (h : value < 2 ^ 64)

include hb h

lemma magnitude_integerText (isSigned negative : Bool) (c : PrintfConversion) :
    magnitude b (integerText value isSigned negative b c) =
      body value b c (toInt (c.width - coreLength value isSigned negative b c)).toNat := by
  rw [magnitude, integerText, trim_layOut hb h, withoutSign_eq hb h, withoutMark_eq hb h]

lemma denoted_integerText (isSigned negative : Bool) (c : PrintfConversion) :
    denoted b (integerText value isSigned negative b c) =
      if isSigned && negative then -(value : ℤ) else value := by
  have htrim : trim (integerText value isSigned negative b c) = _ := trim_layOut hb h isSigned negative _
  rw [denoted, magnitude_integerText hb h, reading_body hb h, htrim]
  generalize (toInt (c.width - coreLength value isSigned negative b c)).toNat = padCnt
  obtain ⟨hneg, hsign⟩ | ⟨hneg, hsign | hsign⟩ := signMark_cases isSigned negative c
  · rw [hsign, hneg]
    exact if_pos rfl
  · have hhead : (hexMark value b c ++ body value b c padCnt).head? ≠ some (ascii '-') :=
      fun heq => notMem_marked hb h (by decide) (mem_of_head? heq)
    rw [hsign, hneg, nil_append, if_neg hhead, if_neg Bool.false_ne_true]
  · have hplus : some (ascii '+') ≠ some (ascii '-') := by decide
    rw [hsign, hneg]
    exact if_neg hplus

end

/-! ## How long it is -/

variable {c : PrintfConversion}

section

variable {b : IntegerBase} {value : ℕ}

/-- How many paddings are put out. -/
def paddings (c : PrintfConversion) : ℕ :=
  (if !c.minus && !c.zero then 1 else 0) + (if c.zero then 1 else 0) + (if c.minus then 1 else 0)

lemma length_layOut (c : PrintfConversion) (padCnt : ℕ) (sign x body : List UInt8) :
    (layOut c padCnt sign x body).length =
      sign.length + x.length + body.length + paddings c * padCnt := by
  have hite (p : Bool) (ch : UInt8) : (if p then replicate padCnt ch else []).length =
      (if p then 1 else 0) * padCnt := by
    cases p <;> simp
  rw [layOut, paddings]
  simp only [length_append, hite, add_mul]
  omega

lemma length_integerText (hb : Base b) (h : value < 2 ^ 64) (h0 : 0 ≤ c.width)
    (h1 : c.width < 2 ^ 31) (isSigned negative : Bool) :
    (integerText value isSigned negative b c).length =
      coreLength value isSigned negative b c +
        paddings c * (c.width.toNat - coreLength value isSigned negative b c) := by
  rw [integerText, length_layOut, toNat_padding hb h h0 h1, length_reverse, coreLength]
  omega

/-- The text is as long as the width asks for, unless there are two paddings. -/
lemma length_integerText_eq_max_iff (hb : Base b) (h : value < 2 ^ 64) (h0 : 0 ≤ c.width)
    (h1 : c.width < 2 ^ 31) (isSigned negative : Bool) :
    (integerText value isSigned negative b c).length =
        max c.width.toNat (integerText value isSigned negative b { c with width := 0 }).length ↔
      ¬ (c.zero = true ∧ c.minus = true ∧
        ((integerText value isSigned negative b { c with width := 0 }).length : ℤ) < c.width) := by
  have hplain : (integerText value isSigned negative b { c with width := 0 }).length =
      coreLength value isSigned negative b c := by
    have hsmall : (0 : ℤ) < 2 ^ 31 := by decide
    rw [length_integerText hb h le_rfl hsmall]
    change coreLength value isSigned negative b c + _ * (0 - _) = _
    rw [Nat.zero_sub, Nat.mul_zero, Nat.add_zero]
  rw [hplain, length_integerText hb h h0 h1, paddings]
  cases c.zero <;> cases c.minus <;> simp <;> omega

end

/-! ## Where the commas are -/

/-- Commas separate the groups: those at `g`, `2g + 1`, … from the right. -/
structure Grouped (g : ℕ) (text : List UInt8) : Prop where
  comma : ∀ k ch, text.reverse[k]? = some ch → (ch = ascii ',' ↔ k % (g + 1) = g)
  first : text.head? ≠ some (ascii ',')

section

variable {b : IntegerBase} {value : ℕ}

lemma comma_due {g cnt u r : ℕ} (hcnt : cnt = g * u + r) (hr : r ≤ g) (hr0 : r = 0 → u = 0) (hg : 0 < g) :
    (decide (0 < cnt) && cnt % g == 0) = true ↔ r = g := by
  have hmod : cnt % g = r % g := by rw [hcnt, mul_add_mod]
  rw [Bool.and_eq_true, decide_eq_true_iff, beq_iff_eq, hmod]
  constructor
  · rintro ⟨hpos, hzero⟩
    by_contra hne
    rw [mod_eq_of_lt (by omega)] at hzero
    rw [hcnt, hzero, hr0 hzero] at hpos
    exact absurd hpos (lt_irrefl 0)
  · rintro rfl
    exact ⟨by omega, mod_self r⟩

lemma comma_digitLoop (hb : Base b) {turns cnt u r : ℕ} (hcnt : cnt = b.group * u + r)
    (hr : r ≤ b.group) (hr0 : r = 0 → u = 0) {k : ℕ}
    (hk : (digitLoop b true turns value cnt)[k]? = some ch) :
    ch = ascii ',' ↔ (r + k) % (b.group + 1) = b.group := by
  induction turns generalizing value cnt u r k with
  | zero => exact absurd hk (some_ne_none ch).symm
  | succ turns ih =>
    have hdigit : digit b (value % b.base) ≠ ascii ',' :=
      hb.digit_ne (mod_lt _ (lt_of_lt_of_le (by omega) hb.base)) mem_cons_self
    have hdue := comma_due hcnt hr hr0 hb.group
    rw [digitLoop, Bool.true_and] at hk
    split at hk
    · exact absurd hk (some_ne_none ch).symm
    · by_cases hfull : r = b.group
      · -- the group is full: a comma, and the first digit of the next group
        have hnext : cnt + 1 = b.group * (u + 1) + 1 := by rw [hcnt, hfull, mul_succ]
        rw [if_pos (hdue.mpr hfull)] at hk
        obtain _ | _ | k := k
        · cases hk
          rw [hfull, mod_eq_of_lt (lt_succ_self _)]
          exact iff_of_true rfl rfl
        · cases hk
          have hgroup := hb.group
          rw [hfull, mod_self]
          exact iff_of_false hdigit (by omega)
        · have hrest := ih hnext hb.group (fun hone => absurd hone one_ne_zero) hk
          have hpos : r + (k + 1 + 1) = 1 + k + (b.group + 1) := by omega
          rw [hrest, hpos, add_mod_right]
      · have hnext : cnt + 1 = b.group * u + (r + 1) := by rw [hcnt, add_assoc]
        rw [if_neg (mt hdue.mp hfull)] at hk
        obtain _ | k := k
        · cases hk
          have hlt : r < b.group + 1 := lt_succ_of_le hr
          rw [add_zero, mod_eq_of_lt hlt]
          exact iff_of_false hdigit hfull
        · have hrest := ih hnext (by omega) (fun hone => absurd hone (succ_ne_zero r)) hk
          have hpos : r + (k + 1) = r + 1 + k := by omega
          rw [hrest, hpos]

lemma getLast?_digitLoop (hb : Base b) {g : Bool} {turns cnt : ℕ} :
    (digitLoop b g turns value cnt).getLast? ≠ some (ascii ',') := by
  induction turns generalizing value cnt with
  | zero => exact (some_ne_none _).symm
  | succ turns ih =>
    have hdigit : digit b (value % b.base) ≠ ascii ',' :=
      hb.digit_ne (mod_lt _ (lt_of_lt_of_le (by omega) hb.base)) mem_cons_self
    rw [digitLoop]
    split
    · exact (some_ne_none _).symm
    · rw [getLast?_append, getLast?_cons]
      intro heq
      cases hlast : (digitLoop b g turns (value / b.base) (cnt + 1)).getLast? with
      | none =>
        rw [hlast] at heq
        exact hdigit (some.inj heq)
      | some ch =>
        rw [hlast] at heq
        exact ih (hlast.trans heq)

lemma grouped_body (hb : Base b) (hgroup : c.group = true) (hprecision : c.precision < 0)
    (hpound : c.pound = false) (hzero : c.zero = false) (padCnt : ℕ) :
    Grouped b.group (body value b c padCnt) := by
  have hbuf : integerBuf value b c = digitLoop b true 64 value 0 ++
      List.replicate (1 - (digitLoop b true 64 value 0).length) (ascii '0') := by
    rw [integerBuf, PrintfConversion.rendered, if_pos hprecision, hgroup, hpound]
    rfl
  have hbody : (body value b c padCnt).reverse = integerBuf value b c := by
    rw [body, zeroPad, hzero, if_neg Bool.false_ne_true, nil_append, reverse_reverse]
  have hdigits : digitLoop b true 64 value 0 = [] ∧ integerBuf value b c = [ascii '0'] ∨
      integerBuf value b c = digitLoop b true 64 value 0 := by
    rw [hbuf]
    cases digitLoop b true 64 value 0 with
    | nil => exact .inl ⟨rfl, rfl⟩
    | cons ch l =>
      refine .inr ?_
      rw [length_cons, Nat.sub_eq_zero_of_le (Nat.le_add_left 1 _), replicate_zero, append_nil]
  have hgpos := hb.group
  constructor
  · intro k ch hk
    rw [hbody] at hk
    obtain ⟨-, hsingle⟩ | hloop := hdigits
    · rw [hsingle] at hk
      obtain rfl : k = 0 := by
        have hlt := (List.getElem?_eq_some_iff.mp hk).1
        rw [length_singleton] at hlt
        omega
      cases hk
      exact iff_of_false (by decide) (by rw [Nat.zero_mod]; omega)
    · rw [hloop] at hk
      have hcomma := comma_digitLoop hb rfl (Nat.zero_le _) (fun _ => rfl) hk
      rwa [Nat.zero_add] at hcomma
  · rw [← getLast?_reverse, hbody]
    obtain ⟨-, hsingle⟩ | hloop := hdigits
    · rw [hsingle]
      decide
    · rw [hloop]
      exact getLast?_digitLoop hb

end

end Pintos.Printf
