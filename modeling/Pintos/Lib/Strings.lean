import Pintos.Lib.Text
import Pintos.Machinery.Stopping

/-!
# Lib/Strings — the string functions, in a buffer

The functions of `string.c` walk through memory until they meet a null character. Here they do so
in a buffer of `size` bytes, and stop where they would leave it. A copy to the left of where it
comes from may overlap it.
-/

namespace Pintos.Strings

open Machinery Function EStateM List Nat

/-- Why a string function does not return. -/
inductive Stray where
  | outside (p : ℕ)
  | endless
  deriving DecidableEq, Repr

abbrev BufM := EStateM Stray (ℕ → UInt8)

section

variable (size : ℕ)

def peek (p : ℕ) : BufM UInt8 := do
  require (.outside p) (p < size)
  return (← get) p

def poke (p : ℕ) (b : UInt8) : BufM Unit := do
  require (.outside p) (p < size)
  modify fun m => update m p b

/-- The loop of `strlen`: where the string ends. -/
def strend : ℕ → ℕ → BufM ℕ
  | 0, _ => throw .endless
  | fuel + 1, p => do
    if (← peek size p) = 0 then return p else strend fuel (p + 1)

/-- `strlen`. -/
def strlen (string : ℕ) : BufM ℕ := do
  let p ← strend size (size + 1) string
  return p - string

/-- `memcpy`, which copies forwards. -/
def memcpy : ℕ → ℕ → ℕ → BufM Unit
  | _, _, 0 => pure ()
  | dst, src, n + 1 => do
    poke size dst (← peek size src)
    memcpy (dst + 1) (src + 1) n

/-- `strlcpy`, from a string in the buffer. -/
def strlcpy (dst src n : ℕ) : BufM ℕ := do
  let srcLen ← strlen size src
  if 0 < n then
    let dstLen := if srcLen < n - 1 then srcLen else n - 1
    memcpy size dst src dstLen
    poke size (dst + dstLen) 0
  return srcLen

/-! ## `strtok_r` -/

/-- Does `strchr (delimiters, c)` find anything? The null character is in every string. -/
def strchr (delimiters : CString) (c : UInt8) : Bool := decide (c ∈ delimiters.bytes ++ [0])

variable (delimiters : CString)

/-- Past the delimiters: to a token, or to the end of the string. -/
def skipDelimiters : ℕ → ℕ → BufM (Bool × ℕ)
  | 0, _ => throw .endless
  | fuel + 1, s => do
    let c ← peek size s
    if strchr delimiters c then
      if c = 0 then return (false, s) else skipDelimiters fuel (s + 1)
    else return (true, s)

/-- Past the token, to what delimits it. -/
def skipToken : ℕ → ℕ → BufM ℕ
  | 0, _ => throw .endless
  | fuel + 1, s => do
    if strchr delimiters (← peek size s) then return s else skipToken fuel (s + 1)

/-- `strtok_r` from `s` on: the token, if there is one, and the new `*save_ptr`. -/
def strtokR (s : ℕ) : BufM (Option ℕ × ℕ) := do
  let (found, token) ← skipDelimiters size delimiters (size + 1) s
  if found then
    let s ← skipToken size delimiters (size + 1) token
    if (← peek size s) ≠ 0 then
      poke size s 0
      return (some token, s + 1)
    else return (some token, s)
  else return (none, token)

end

/-! ## Strings in memory -/

/-- The string `l` is at `p`. -/
def StrAt (m : ℕ → UInt8) : ℕ → List UInt8 → Prop
  | p, [] => m p = 0
  | p, c :: l => m p = c ∧ StrAt m (p + 1) l

section

variable {m m' : ℕ → UInt8} {p : ℕ} {l l' : List UInt8}

lemma StrAt.append (h : StrAt m p (l ++ l')) : StrAt m (p + l.length) l' := by
  induction l generalizing p with
  | nil => exact h
  | cons c l ih =>
    rw [length_cons, add_comm l.length, ← add_assoc]
    exact ih h.2

lemma StrAt.cut (h : StrAt m p (l ++ l')) (hsame : ∀ q, p ≤ q → q < p + l.length → m' q = m q)
    (hend : m' (p + l.length) = 0) : StrAt m' p l := by
  induction l generalizing p with
  | nil => exact hend
  | cons c l ih =>
    rw [length_cons] at hsame hend
    refine ⟨(hsame p le_rfl (by omega)).trans h.1, ih h.2 (fun q hq hlt => ?_) ?_⟩
    · exact hsame q (by omega) (by omega)
    · rwa [add_assoc, add_comm 1]

lemma StrAt.congr (h : StrAt m p l) (hsame : ∀ q, p ≤ q → m' q = m q) : StrAt m' p l := by
  induction l generalizing p with
  | nil => exact (hsame p le_rfl).trans h
  | cons c l ih => exact ⟨(hsame p le_rfl).trans h.1, ih h.2 fun q hq => hsame q (by omega)⟩

lemma StrAt.end_eq (h : StrAt m p l) : m (p + l.length) = 0 := by
  have hnil : StrAt m p (l ++ []) := by rwa [append_nil]
  exact hnil.append

lemma StrAt.get (h : StrAt m p l) {i : ℕ} (hi : i < l.length) : m (p + i) = l.get ⟨i, hi⟩ := by
  induction l generalizing p i with
  | nil => cases hi
  | cons c l ih =>
    cases i with
    | zero => exact h.1
    | succ i =>
      have hnext := ih h.2 (lt_of_succ_lt_succ hi)
      rwa [add_assoc, add_comm 1] at hnext

lemma strAt_of_get (hget : ∀ i (hi : i < l.length), m (p + i) = l.get ⟨i, hi⟩)
    (hend : m (p + l.length) = 0) : StrAt m p l := by
  induction l generalizing p with
  | nil => exact hend
  | cons c l ih =>
    refine ⟨hget 0 (zero_lt_succ _), ih (fun i hi => ?_) ?_⟩
    · rw [add_assoc, add_comm 1]
      exact hget (i + 1) (succ_lt_succ hi)
    · rwa [add_assoc, add_comm 1]

lemma strAt_store (m : ℕ → UInt8) (p : ℕ) (l : List UInt8) : StrAt (Text.store m p (l ++ [0])) p l := by
  have hlen : (l ++ [(0 : UInt8)]).length = l.length + 1 := length_append
  refine strAt_of_get (fun i hi => ?_) ?_
  · rw [Text.store_add (by omega)]
    exact getElem_append_left hi
  · rw [Text.store_add (by omega)]
    exact (getElem_append_right le_rfl).trans (by simp)

end

/-! ## What the functions do -/

variable {l : List UInt8}

section

variable {size : ℕ} {m : ℕ → UInt8} {p : ℕ}

lemma peek_run (m : ℕ → UInt8) (h : p < size) : (peek size p).run m = .ok (m p) m := by
  simp only [peek, require, if_pos h, run_bind, run_pure, run_get]

lemma poke_run (m : ℕ → UInt8) (h : p < size) (b : UInt8) :
    (poke size p b).run m = .ok () (update m p b) := by
  simp only [poke, require, if_pos h, run_bind, run_pure, run_modify]

lemma strend_run {fuel : ℕ} (h : StrAt m p l) (hnul : 0 ∉ l) (hsize : p + l.length < size)
    (hfuel : l.length < fuel) : (strend size fuel p).run m = .ok (p + l.length) m := by
  induction l generalizing p fuel with
  | nil =>
    obtain ⟨fuel, rfl⟩ := succ_of_lt hfuel
    have hp : m p = 0 := h
    simp only [strend, run_bind, peek_run m (show p < size from hsize), hp, if_true]
    rfl
  | cons c l ih =>
    obtain ⟨fuel, rfl⟩ := succ_of_lt hfuel
    rw [length_cons] at hsize hfuel
    have hc : m p ≠ 0 := fun hz => hnul (by rw [← h.1, hz]; exact mem_cons_self)
    have hrest := ih h.2 (fun hmem => hnul (mem_cons_of_mem c hmem)) (by omega)
      (show l.length < fuel by omega)
    simp only [strend, run_bind, peek_run m (show p < size by omega), if_neg hc, hrest,
      length_cons]
    congr 1
    omega

lemma strlen_run (h : StrAt m p l) (hnul : 0 ∉ l) (hsize : p + l.length < size) :
    (strlen size p).run m = .ok l.length m := by
  simp only [strlen, run_bind, strend_run h hnul hsize (show l.length < size + 1 by omega),
    run_pure, Nat.add_sub_cancel_left]

/-- A copy to the left reads what was there before. -/
lemma memcpy_run {dst src n : ℕ} (hle : dst ≤ src) (hsize : src + n ≤ size) :
    (memcpy size dst src n).run m = .ok () (overwrite m dst n fun i => m (src + i)) := by
  induction n generalizing dst src m with
  | zero => rw [overwrite_zero]; rfl
  | succ n ih =>
    simp only [memcpy, run_bind, peek_run m (show src < size by omega),
      poke_run m (show dst < size by omega), ih (Nat.succ_le_succ hle) (by omega)]
    congr 1
    funext q
    obtain hq | rfl | hq := lt_trichotomy q dst
    · rw [overwrite_of_notMem (.inl (by omega)), overwrite_of_notMem (.inl hq),
        update_of_ne hq.ne]
    · rw [overwrite_of_notMem (.inl (by omega)), overwrite_of_mem le_rfl (by omega),
        update_self, Nat.sub_self, Nat.add_zero]
    · obtain hlt | hge := Nat.lt_or_ge q (dst + 1 + n)
      · rw [overwrite_of_mem hq hlt, overwrite_of_mem hq.le (by omega), update_of_ne (by omega)]
        congr 1
        omega
      · rw [overwrite_of_notMem (.inr hge), overwrite_of_notMem (.inr (by omega)),
          update_of_ne hq.ne']

lemma strlcpy_run {dst src : ℕ} (h : StrAt m src l) (hnul : 0 ∉ l) (hle : dst ≤ src)
    (hsize : src + l.length < size) :
    (strlcpy size dst src (l.length + 1)).run m = .ok l.length (Text.store m dst (l ++ [0])) := by
  have hlen : (l ++ [(0 : UInt8)]).length = l.length + 1 := length_append
  simp only [strlcpy, run_bind, strlen_run h hnul hsize, if_pos (Nat.succ_pos _),
    Nat.add_sub_cancel, if_neg (lt_irrefl _), memcpy_run hle hsize.le,
    poke_run _ (show dst + l.length < size by omega), run_pure]
  congr 1
  funext q
  obtain hq | hq := Nat.lt_or_ge q dst
  · rw [Text.store_of_lt hq, update_of_ne (by omega), overwrite_of_notMem (.inl hq)]
  obtain ⟨i, rfl⟩ := Nat.exists_eq_add_of_le hq
  obtain hi | rfl | hi := lt_trichotomy i l.length
  · rw [Text.store_add (by omega), update_of_ne (by omega), overwrite_of_mem hq (by omega),
      Nat.add_sub_cancel_left, h.get hi]
    exact (getElem_append_left hi).symm
  · rw [update_self, (strAt_store m dst l).end_eq]
  · rw [Text.store_of_ge (by omega), update_of_ne (by omega),
      overwrite_of_notMem (.inr (by omega))]

end

/-! ## Tokens

From where `strtok_r` starts, a string is delimiters and then a token, or nothing but delimiters. -/

section

variable {size : ℕ} {delimiters : CString} {m : ℕ → UInt8} {s : ℕ} {lead w tail : List UInt8}

lemma strchr_of_mem {c : UInt8} (h : c ∈ delimiters.bytes) : strchr delimiters c = true :=
  decide_eq_true (mem_append_left _ h)

lemma strchr_nul : strchr delimiters 0 = true :=
  decide_eq_true (mem_append_right _ mem_cons_self)

lemma strchr_of_notMem {c : UInt8} (h : c ∉ delimiters.bytes) (hc : c ≠ 0) :
    strchr delimiters c = false := by
  refine decide_eq_false fun hmem => ?_
  obtain hmem | hmem := mem_append.mp hmem
  · exact h hmem
  · exact hc (mem_singleton.mp hmem)

lemma skipDelimiters_append (fuel : ℕ) (h : StrAt m s (lead ++ l))
    (hlead : ∀ d ∈ lead, d ∈ delimiters.bytes) (hsize : s + lead.length ≤ size) :
    (skipDelimiters size delimiters (fuel + lead.length) s).run m =
      (skipDelimiters size delimiters fuel (s + lead.length)).run m := by
  induction lead generalizing s with
  | nil => rfl
  | cons d lead ih =>
    rw [length_cons] at hsize
    have hd := hlead d mem_cons_self
    have hrest := ih h.2 (fun e he => hlead e (mem_cons_of_mem d he)) (by omega)
    rw [length_cons, ← add_assoc, skipDelimiters]
    simp only [run_bind, peek_run m (show s < size by omega), h.1, strchr_of_mem hd, if_true,
      if_neg (ne_of_mem_of_not_mem hd delimiters.noNul), hrest]
    rw [add_assoc, add_comm 1]

lemma skipDelimiters_run (h : StrAt m s (lead ++ l)) (hlead : ∀ d ∈ lead, d ∈ delimiters.bytes)
    (hsize : s + lead.length < size)
    (hstop : strchr delimiters (m (s + lead.length)) = true → m (s + lead.length) = 0) :
    (skipDelimiters size delimiters (size + 1) s).run m =
      .ok (!strchr delimiters (m (s + lead.length)), s + lead.length) m := by
  rw [show size + 1 = size - lead.length + 1 + lead.length by omega,
    skipDelimiters_append _ h hlead hsize.le, skipDelimiters]
  simp only [run_bind, peek_run m hsize]
  split_ifs with hfound hz
  · rw [hfound]
    rfl
  · exact absurd (hstop hfound) hz
  · rw [Bool.not_eq_true] at hfound
    rw [hfound]
    rfl

lemma skipDelimiters_token {t : List UInt8} (h : StrAt m s (lead ++ (w ++ t)))
    (hlead : ∀ d ∈ lead, d ∈ delimiters.bytes) (hne : w ≠ []) (hw : ∀ d ∈ w, d ∉ delimiters.bytes)
    (hnul : 0 ∉ w) (hsize : s + lead.length < size) :
    (skipDelimiters size delimiters (size + 1) s).run m = .ok (true, s + lead.length) m := by
  obtain ⟨a, w', rfl⟩ := exists_cons_of_ne_nil hne
  have ha : m (s + lead.length) = a := h.append.1
  have hchr : strchr delimiters a = false :=
    strchr_of_notMem (hw a mem_cons_self) fun hz => hnul (hz ▸ mem_cons_self)
  rw [skipDelimiters_run h hlead hsize fun hfound => ?_, ha, hchr]
  · rfl
  · rw [ha, hchr] at hfound
    cases hfound

lemma skipToken_run {fuel : ℕ} (h : StrAt m s (w ++ tail)) (hw : ∀ c ∈ w, c ∉ delimiters.bytes)
    (hnul : 0 ∉ w) (hend : strchr delimiters (m (s + w.length)) = true) (hsize : s + w.length < size)
    (hfuel : w.length < fuel) :
    (skipToken size delimiters fuel s).run m = .ok (s + w.length) m := by
  induction w generalizing s fuel with
  | nil =>
    obtain ⟨fuel, rfl⟩ := succ_of_lt hfuel
    simp only [skipToken, run_bind, peek_run m (show s < size from hsize),
      show strchr delimiters (m s) = true from hend, if_true]
    rfl
  | cons c w ih =>
    obtain ⟨fuel, rfl⟩ := succ_of_lt hfuel
    rw [length_cons] at hsize hfuel hend
    have hc : strchr delimiters c = false :=
      strchr_of_notMem (hw c mem_cons_self) fun hz => hnul (hz ▸ mem_cons_self)
    have hrest := ih h.2 (fun d hd => hw d (mem_cons_of_mem c hd))
      (fun hmem => hnul (mem_cons_of_mem c hmem)) (by rwa [add_assoc, add_comm 1])
      (by omega) (show w.length < fuel by omega)
    simp only [skipToken, run_bind, peek_run m (show s < size by omega), h.1, hc,
      Bool.false_eq_true, if_false, hrest, length_cons]
    congr 1
    omega

lemma strtokR_none (h : StrAt m s lead) (hlead : ∀ d ∈ lead, d ∈ delimiters.bytes)
    (hsize : s + lead.length < size) :
    (strtokR size delimiters s).run m = .ok (none, s + lead.length) m := by
  have hnil : StrAt m s (lead ++ []) := by rwa [append_nil]
  have hend : m (s + lead.length) = 0 := h.end_eq
  simp only [strtokR, run_bind, skipDelimiters_run hnil hlead hsize fun _ => hend, hend, strchr_nul,
    Bool.not_true, Bool.false_eq_true, if_false]
  rfl

/-- The next token, at which the string is cut: the scan goes on behind the cut. -/
lemma strtokR_some {c : UInt8} (h : StrAt m s (lead ++ (w ++ c :: tail)))
    (hlead : ∀ d ∈ lead, d ∈ delimiters.bytes) (hne : w ≠ []) (hw : ∀ d ∈ w, d ∉ delimiters.bytes)
    (hnul : 0 ∉ w) (hc : c ∈ delimiters.bytes) (hsize : s + lead.length + w.length < size) :
    (strtokR size delimiters s).run m = .ok (some (s + lead.length), s + lead.length + w.length + 1)
      (update m (s + lead.length + w.length) 0) := by
  have htok := h.append
  have hmc : m (s + lead.length + w.length) = c := htok.append.1
  have hlt : w.length < size + 1 := by omega
  have hskip := skipDelimiters_token h hlead hne hw hnul (show s + lead.length < size by omega)
  simp only [strtokR, run_bind, hskip, if_true,
    skipToken_run htok hw hnul (hmc ▸ strchr_of_mem hc) hsize hlt, peek_run m hsize, hmc, ne_eq,
    ne_of_mem_of_not_mem hc delimiters.noNul, not_false_eq_true, poke_run m hsize]
  rfl

lemma strtokR_last (h : StrAt m s (lead ++ w)) (hlead : ∀ d ∈ lead, d ∈ delimiters.bytes)
    (hne : w ≠ []) (hw : ∀ d ∈ w, d ∉ delimiters.bytes) (hnul : 0 ∉ w)
    (hsize : s + lead.length + w.length < size) :
    (strtokR size delimiters s).run m = .ok (some (s + lead.length), s + lead.length + w.length) m := by
  have htok : StrAt m (s + lead.length) (w ++ []) := by
    rw [append_nil]
    exact h.append
  have hmc : m (s + lead.length + w.length) = 0 := htok.append
  have hlt : w.length < size + 1 := by omega
  have hskip := skipDelimiters_token (by rwa [append_nil]) hlead hne hw hnul
    (show s + lead.length < size by omega)
  simp only [strtokR, run_bind, hskip, if_true,
    skipToken_run htok hw hnul (hmc ▸ strchr_nul) hsize hlt, peek_run m hsize, hmc, ne_eq,
    not_true_eq_false, if_false]
  rfl

end

end Pintos.Strings
