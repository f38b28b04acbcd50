import Pintos.Lib.Strings

/-!
# Lib/Tokens — `strtok_r`, call after call

The string is cut while it is scanned, and where to go on is handed from call to call:

    m      │  d d a a a d d b b 0        p = start of the string
    m'     │  d d a a a 0 d b b 0        p = behind the cut, token = the first `a`

A call may read up to the null character and no further, which is where the buffer ends here.
-/

namespace Pintos.Strings

open Machinery Function EStateM List

/-! ## The tokens of a text -/

/-- The maximal runs of characters that are not delimiters. -/
def tokensOf (delimiters : CString) (text : List UInt8) : List (List UInt8) :=
  (text.splitOnP (· ∈ delimiters.bytes)).filter (· ≠ [])

section

variable {delimiters : CString} {lead w : List UInt8}

lemma tokensOf_lead (hlead : ∀ c ∈ lead, c ∈ delimiters.bytes) (l : List UInt8) :
    tokensOf delimiters (lead ++ l) = tokensOf delimiters l := by
  induction lead with
  | nil => rfl
  | cons c lead ih =>
    rw [← ih fun d hd => hlead d (mem_cons_of_mem _ hd), tokensOf, cons_append,
      splitOnP_cons_eq_if_modifyHead, if_pos (decide_eq_true (hlead c mem_cons_self))]
    rfl

lemma tokensOf_word (hne : w ≠ []) (hw : ∀ c ∈ w, c ∉ delimiters.bytes) :
    tokensOf delimiters w = [w] := by
  rw [tokensOf, splitOnP_eq_singleton fun c hc => decide_eq_false (hw c hc)]
  exact filter_cons_of_pos (decide_eq_true hne)

lemma tokensOf_word_append (hne : w ≠ []) (hw : ∀ c ∈ w, c ∉ delimiters.bytes) {c : UInt8}
    (hc : c ∈ delimiters.bytes) (l : List UInt8) :
    tokensOf delimiters (w ++ c :: l) = w :: tokensOf delimiters l := by
  rw [tokensOf, splitOnP_append_cons w l (decide_eq_true hc), filter_append]
  exact congrArg (· ++ _) (tokensOf_word hne hw)

lemma dropWhile_cases (p : UInt8 → Bool) (l : List UInt8) :
    l.dropWhile p = [] ∨ ∃ c l', l.dropWhile p = c :: l' ∧ p c = false := by
  induction l with
  | nil => exact .inl rfl
  | cons d l ih =>
    rw [dropWhile_cons]
    split_ifs with hd
    · exact ih
    · exact .inr ⟨d, l, rfl, Bool.eq_false_iff.mpr hd⟩

/-- Delimiters alone, or delimiters and a token, which a delimiter or the end follows. -/
lemma tokensOf_cases (delimiters : CString) (text : List UInt8) :
    (∀ c ∈ text, c ∈ delimiters.bytes) ∨ ∃ lead w, (∀ c ∈ lead, c ∈ delimiters.bytes) ∧ w ≠ [] ∧
      (∀ c ∈ w, c ∉ delimiters.bytes) ∧
      (text = lead ++ w ∨ ∃ c tail, c ∈ delimiters.bytes ∧ text = lead ++ (w ++ c :: tail)) := by
  have htext := text.takeWhile_append_dropWhile (p := (· ∈ delimiters.bytes))
  have hlead (c : UInt8) (hc : c ∈ text.takeWhile (· ∈ delimiters.bytes)) : c ∈ delimiters.bytes :=
    of_decide_eq_true (mem_takeWhile_imp (p := (· ∈ delimiters.bytes)) hc)
  generalize text.takeWhile (· ∈ delimiters.bytes) = lead at hlead htext
  obtain hnil | ⟨a, l, hcons, ha⟩ := dropWhile_cases (· ∈ delimiters.bytes) text
  · rw [hnil, append_nil] at htext
    exact .inl (htext ▸ hlead)
  rw [hcons] at htext
  have hrest := (a :: l).takeWhile_append_dropWhile (p := (· ∉ delimiters.bytes))
  refine .inr ⟨lead, (a :: l).takeWhile (· ∉ delimiters.bytes), hlead, ?_, fun c hc => ?_, ?_⟩
  · rw [takeWhile_cons, if_pos (decide_eq_true (of_decide_eq_false ha))]
    exact cons_ne_nil _ _
  · exact of_decide_eq_true (mem_takeWhile_imp (p := (· ∉ delimiters.bytes)) hc)
  obtain hnil | ⟨c, tail, htail, hc⟩ := dropWhile_cases (· ∉ delimiters.bytes) (a :: l)
  · rw [hnil, append_nil] at hrest
    exact .inl (htext.symm.trans (by rw [hrest]))
  · rw [htail] at hrest
    exact .inr ⟨c, tail, not_not.mp (of_decide_eq_false hc), htext.symm.trans (by rw [hrest])⟩

end

/-! ## One call -/

section

variable {size p : ℕ} {delimiters : CString} {m m' : ℕ → UInt8} {text : List UInt8}

/-- A string stays where it is as long as its characters and its null character do. -/
lemma StrAt.keep (h : StrAt m p text) (hsame : ∀ q ≤ p + text.length, m' q = m q) : StrAt m' p text := by
  have hnil : StrAt m p (text ++ []) := by rwa [append_nil]
  exact hnil.cut (fun q _ hq => hsame q hq.le) ((hsame _ le_rfl).trans h.end_eq)

/-- A call of `strtok_r` at `p`: memory is changed at one delimiter at most, and the rest `tail` is
at `save`. -/
structure Call (delimiters : CString) (m : ℕ → UInt8) (p : ℕ) (text : List UInt8) (token : Option ℕ)
    (save : ℕ) (m' : ℕ → UInt8) (tail : List UInt8) : Prop where
  le : p ≤ save
  rest : StrAt m' save tail
  ends : save + tail.length = p + text.length
  sub : tail ⊆ text
  cut : ∀ x, m' x ≠ m x → p ≤ x ∧ x < save ∧ m x ∈ delimiters.bytes ∧ m' x = 0
  found : (token = none ∧ tokensOf delimiters text = [] ∧ tokensOf delimiters tail = []) ∨
    ∃ q w, token = some q ∧ p ≤ q ∧ q < save ∧ q + w.length ≤ save ∧ StrAt m' q w ∧
      tokensOf delimiters text = w :: tokensOf delimiters tail

lemma strtokR_run (delimiters : CString) (h : StrAt m p text) (hnul : 0 ∉ text)
    (hsize : p + text.length < size) :
    ∃ token save m' tail, (strtokR size delimiters p).run m = .ok (token, save) m' ∧
      Call delimiters m p text token save m' tail := by
  have hnone : tokensOf delimiters [] = [] := rfl
  obtain hlead | ⟨lead, w, hlead, hne, hw, rfl | ⟨c, tail, hc, rfl⟩⟩ := tokensOf_cases delimiters text
  · refine ⟨_, _, _, [], strtokR_none h hlead hsize, Nat.le_add_right _ _, h.end_eq, rfl, nil_subset _,
      fun x hx => absurd rfl hx, .inl ⟨rfl, ?_, hnone⟩⟩
    rw [← append_nil text, tokensOf_lead hlead, hnone]
  · have hpos := length_pos_iff.mpr hne
    rw [length_append, ← Nat.add_assoc] at hsize
    refine ⟨_, _, _, [], strtokR_last h hlead hne hw (fun hz => hnul (mem_append_right _ hz)) hsize,
      by omega, h.append.end_eq, by simp only [length_append, length_nil]; omega, nil_subset _,
      fun x hx => absurd rfl hx,
      .inr ⟨_, w, rfl, Nat.le_add_right _ _, by omega, le_rfl, h.append, ?_⟩⟩
    rw [tokensOf_lead hlead, tokensOf_word hne hw, hnone]
  · have htok := h.append
    have hmc : m (p + lead.length + w.length) = c := htok.append.1
    simp only [length_append, length_cons] at hsize
    refine ⟨_, _, _, tail, strtokR_some h hlead hne hw
      (fun hz => hnul (mem_append_right _ (mem_append_left _ hz))) hc (by omega), by omega, ?_, ?_, ?_,
      fun x hx => ?_, .inr ⟨_, w, rfl, Nat.le_add_right _ _, by omega, by omega, ?_, ?_⟩⟩
    · exact htok.append.2.congr fun q hq => update_of_ne (Nat.lt_of_succ_le hq).ne' _ _
    · simp only [length_append, length_cons]
      omega
    · exact fun x hx => mem_append_right _ (mem_append_right _ (mem_cons_of_mem _ hx))
    · obtain rfl : x = p + lead.length + w.length := by
        by_contra hne
        exact hx (update_of_ne hne _ _)
      exact ⟨by omega, by omega, hmc ▸ hc, update_self ..⟩
    · exact htok.cut (fun q _ hlt => update_of_ne hlt.ne _ _) (update_self ..)
    · rw [tokensOf_lead hlead, tokensOf_word_append hne hw hc]

end

/-! ## Call after call -/

/-- `n` calls of `strtok_r`: the first one with `s`, the others with a null pointer. -/
def strtokCalls (size : ℕ) (delimiters : CString) : ℕ → Option ℕ → ℕ → BufM (List (Option ℕ))
  | 0, _, _ => return []
  | n + 1, s, savePtr => do
    let (token, savePtr) ← strtokR size delimiters (s.getD savePtr)
    return token :: (← strtokCalls size delimiters n none savePtr)

/-- The results of `n` calls: the tokens, in place, and then null pointers. Only delimiters are
overwritten. -/
structure Tokenised (delimiters : CString) (m : ℕ → UInt8) (p : ℕ) (text : List UInt8) (n : ℕ)
    (starts : List ℕ) (results : List (Option ℕ)) (m' : ℕ → UInt8) : Prop where
  results_eq : results = starts.map some ++ replicate (n - starts.length) none
  tokens : Forall₂ (StrAt m') starts ((tokensOf delimiters text).take n)
  ordered : (∀ q ∈ starts, p ≤ q) ∧ starts.Pairwise (· < ·)
  cut : ∀ x, m' x ≠ m x → p ≤ x ∧ x < p + text.length ∧ m x ∈ delimiters.bytes ∧ m' x = 0

lemma strtokCalls_run {size p : ℕ} {delimiters : CString} {m : ℕ → UInt8} {text : List UInt8}
    (h : StrAt m p text) (hnul : 0 ∉ text) (hsize : p + text.length < size) {s : Option ℕ} {savePtr : ℕ}
    (hs : s.getD savePtr = p) (n : ℕ) :
    ∃ results m' starts, (strtokCalls size delimiters n s savePtr).run m = .ok results m' ∧
      Tokenised delimiters m p text n starts results m' := by
  induction n generalizing p m text s savePtr with
  | zero =>
    exact ⟨[], m, [], rfl, rfl, .nil, ⟨fun q hq => absurd hq not_mem_nil, .nil⟩, fun x hx => absurd rfl hx⟩
  | succ n ih =>
    obtain ⟨token, save, m₁, tail, hrun, hcall⟩ := strtokR_run delimiters h hnul hsize
    obtain ⟨results, m', starts, hrest, htok⟩ := ih hcall.rest (fun hz => hnul (hcall.sub hz))
      (hcall.ends ▸ hsize) (s := none) rfl
    have hle := hcall.le
    have hends := hcall.ends
    have hall : (strtokCalls size delimiters (n + 1) s savePtr).run m = .ok (token :: results) m' := by
      rw [strtokCalls, hs, run_bind, hrun]
      simp only [run_bind, hrest]
      rfl
    have hcut (x : ℕ) (hx : m' x ≠ m x) :
        p ≤ x ∧ x < p + text.length ∧ m x ∈ delimiters.bytes ∧ m' x = 0 := by
      by_cases hsame : m' x = m₁ x
      · rw [hsame] at hx ⊢
        obtain ⟨hpx, hxs, hmem, hz⟩ := hcall.cut x hx
        exact ⟨hpx, by omega, hmem, hz⟩
      · obtain ⟨hsx, hxe, hmem, hz⟩ := htok.cut x hsame
        have hm : m₁ x = m x := by
          by_contra hne
          have := (hcall.cut x hne).2.1
          omega
        exact ⟨by omega, by omega, hm ▸ hmem, hz⟩
    have htokens := htok.tokens
    obtain ⟨rfl, hnone, htail⟩ | ⟨q, w, rfl, hpq, hq, hw, hstr, hsome⟩ := hcall.found
    · rw [htail, take_nil] at htokens
      cases htokens
      refine ⟨_, m', [], hall, by rw [htok.results_eq]; rfl, ?_, htok.ordered.imp_left fun _ q hq => ?_, hcut⟩
      · rw [hnone]
        exact .nil
      · exact absurd hq not_mem_nil
    · refine ⟨_, m', q :: starts, hall, ?_, ?_, ⟨fun x hx => ?_, ?_⟩, hcut⟩
      · rw [htok.results_eq, length_cons, Nat.add_sub_add_right]
        rfl
      · rw [hsome]
        refine .cons (hstr.keep fun x hx => ?_) htokens
        -- the null character of the token is no delimiter
        by_contra hne
        obtain ⟨hsx, -, hmem, -⟩ := htok.cut x hne
        rw [show x = q + w.length by omega, hstr.end_eq] at hmem
        exact delimiters.noNul hmem
      · obtain rfl | hx := mem_cons.mp hx
        · exact hpq
        · exact hle.trans (htok.ordered.1 x hx)
      · exact pairwise_cons.mpr ⟨fun x hx => hq.trans_le (htok.ordered.1 x hx), htok.ordered.2⟩

/-- **`strtok_r` tokenises.** In a buffer that ends with the string, any number of calls return the
tokens in order, and then null pointers. -/
theorem strtok_r_tokenises (delimiters s : CString) (m : ℕ → UInt8) (p savePtr n : ℕ) :
    ∃ results m' starts, (strtokCalls (p + s.bytes.length + 1) delimiters n (some p) savePtr).run
        (Text.store m p (s.bytes ++ [0])) = .ok results m' ∧
      Tokenised delimiters (Text.store m p (s.bytes ++ [0])) p s.bytes n starts results m' :=
  strtokCalls_run (strAt_store m p s.bytes) s.noNul (Nat.lt_succ_self _) rfl n

end Pintos.Strings
