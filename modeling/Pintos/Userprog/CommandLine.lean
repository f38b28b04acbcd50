import Pintos.Lib.Tokens
import Pintos.Machinery.Runs
import Pintos.Threads.Vaddr

/-!
# Userprog/CommandLine — `process_execute` splits the command line

The command line is copied to a page and split there, each word moved to the left as soon as
`strtok_r` has found it. A word never moves to the right, so that it is read before it is
overwritten; and with its null character it ends where the rest begins, or before.
-/

namespace Pintos.CommandLine

open Machinery Strings Function EStateM List Nat

def space : CString := ⟨[0x20], by decide⟩

/-! ## The code -/

/-- The variables of the loop over the tokens. -/
structure Split where
  token : Option ℕ
  savePtr : ℕ
  indexer : ℕ
  deriving DecidableEq, Repr

/-- A call of `strtok_r` at `s`, in the head of the loop. -/
def next (indexer s : ℕ) : BufM Split := do
  let (token, savePtr) ← strtokR pgSize space s
  return ⟨token, savePtr, indexer⟩

/-- The body of the loop, and the call behind it. -/
def turn (c : Split) (token : ℕ) : BufM Split := do
  let length ← strlen pgSize token
  let _ ← strlcpy pgSize c.indexer token (length + 1)
  next (c.indexer + (length + 1)) c.savePtr

/-- The loop over the tokens: the `indexer` at its end. -/
def splitLoop : ℕ → Split → BufM ℕ
  | 0, _ => throw .endless
  | fuel + 1, c =>
    match c.token with
    | none => return c.indexer
    | some token => do splitLoop fuel (← turn c token)

def fill : ℕ → ℕ → BufM Unit
  | 0, _ => throw .endless
  | fuel + 1, indexer =>
    if indexer ≠ pgSize then do
      poke pgSize indexer 0
      fill fuel (indexer + 1)
    else pure ()

/-- The page `arg_copy`, once the command line is in it. -/
def splitPage : BufM Unit := do
  let indexer ← splitLoop (pgSize + 1) (← next 0 0)
  fill (pgSize + 1) indexer

/-- The loop that copies the page, with `n` bytes to go. -/
def copyPage (argCopy : ℕ → UInt8) : ℕ → (ℕ → UInt8) → ℕ → UInt8
  | 0, fnCopy => fnCopy
  | n + 1, fnCopy => copyPage argCopy n
      (update fnCopy (pgSize - (n + 1)) (argCopy (pgSize - (n + 1))))

/-! ## The words of a text -/

/-- The maximal runs of characters other than a space. -/
def wordsOf (text : List UInt8) : List (List UInt8) := (text.splitOn 0x20).filter (· ≠ [])

/-- The words one after the other, each with a null character. -/
def encode (words : List (List UInt8)) : List UInt8 := words.flatMap (· ++ [0])

lemma encode_cons (w : List UInt8) (ws : List (List UInt8)) :
    encode (w :: ws) = w ++ 0 :: encode ws := by
  rw [encode, flatMap_cons, append_assoc]
  rfl

lemma encode_append (ws : List (List UInt8)) (w : List UInt8) :
    encode (ws ++ [w]) = encode ws ++ (w ++ [0]) := by
  rw [encode, flatMap_append, flatMap_singleton]
  rfl

/-- A text and its words, from left to right. -/
inductive Words : List UInt8 → List (List UInt8) → Prop
  | blank {lead : List UInt8} (hlead : ∀ c ∈ lead, c ∈ space.bytes) : Words lead []
  | last {lead w : List UInt8} (hlead : ∀ c ∈ lead, c ∈ space.bytes) (hne : w ≠ [])
      (hw : ∀ c ∈ w, c ∉ space.bytes) : Words (lead ++ w) [w]
  | more {lead w tail : List UInt8} {ws : List (List UInt8)} (hlead : ∀ c ∈ lead, c ∈ space.bytes)
      (hne : w ≠ []) (hw : ∀ c ∈ w, c ∉ space.bytes) (htail : Words tail ws) :
      Words (lead ++ (w ++ 0x20 :: tail)) (w :: ws)

lemma mem_space {c : UInt8} : c ∈ space.bytes ↔ c = 0x20 := mem_singleton

lemma wordsOf_eq (text : List UInt8) : wordsOf text = tokensOf space text := by
  have hsep : (fun c : UInt8 => c == 0x20) = fun c => decide (c ∈ space.bytes) :=
    funext fun c => Bool.eq_iff_iff.mpr (by rw [beq_iff_eq, decide_eq_true_iff, mem_space])
  rw [wordsOf, List.splitOn, hsep]
  rfl

variable {w : List UInt8}

lemma wordsOf_word_append (hne : w ≠ []) (hw : ∀ c ∈ w, c ∉ space.bytes) (l : List UInt8) :
    wordsOf (w ++ 0x20 :: l) = w :: wordsOf l := by
  rw [wordsOf_eq, wordsOf_eq, tokensOf_word_append hne hw (mem_space.mpr rfl)]

lemma words_wordsOf (text : List UInt8) : Words text (wordsOf text) := by
  rw [wordsOf_eq]
  induction hn : text.length using Nat.strong_induction_on generalizing text with
  | _ n ih =>
  obtain hlead | ⟨lead, w, hlead, hne, hw, rfl | ⟨c, tail, hc, rfl⟩⟩ := tokensOf_cases space text
  · have hnone := tokensOf_lead hlead []
    rw [append_nil] at hnone
    rw [hnone]
    exact .blank hlead
  · rw [tokensOf_lead hlead, tokensOf_word hne hw]
    exact .last hlead hne hw
  · obtain rfl := mem_space.mp hc
    simp only [length_append, length_cons] at hn
    rw [tokensOf_lead hlead, tokensOf_word_append hne hw hc]
    exact .more hlead hne hw (ih _ (by omega) tail rfl)

variable {ws : List (List UInt8)}

lemma Words.length_le {text : List UInt8} (h : Words text ws) : ws.length ≤ text.length := by
  induction h with
  | blank _ => exact zero_le _
  | last _ hne _ =>
    rw [length_append]
    exact (length_pos_iff.mpr hne).trans_le (le_add_left _ _)
  | more _ _ _ _ ih =>
    simp only [length_append, length_cons]
    omega

lemma Words.length_encode_le {text : List UInt8} (h : Words text ws) :
    (encode ws).length ≤ text.length + 1 := by
  induction h with
  | blank _ => exact zero_le _
  | last _ _ _ =>
    rw [encode_cons, length_append, length_append]
    exact succ_le_succ (le_add_left _ _)
  | more _ _ _ _ ih =>
    rw [encode_cons]
    simp only [length_append, length_cons]
    omega

/-- The words of a text are not empty, and have no null character if the text has none. -/
lemma mem_wordsOf {text w : List UInt8} (h : w ∈ wordsOf text) (hnul : 0 ∉ text) : w ≠ [] ∧ 0 ∉ w := by
  have hwords := words_wordsOf text
  generalize wordsOf text = ws at h hwords
  induction hwords with
  | blank _ => cases h
  | last _ hne _ =>
    obtain rfl := mem_singleton.mp h
    exact ⟨hne, fun hz => hnul (mem_append_right _ hz)⟩
  | more _ hne _ _ ih =>
    obtain rfl | h := mem_cons.mp h
    · exact ⟨hne, fun hz => hnul (mem_append_right _ (mem_append_left _ hz))⟩
    · refine ih (fun hz => hnul ?_) h
      exact mem_append_right _ (mem_append_right _ (mem_cons_of_mem _ hz))

/-! ## The loop -/

/-- Memory begins with `l`. -/
def StartsWith (m : ℕ → UInt8) (l : List UInt8) : Prop :=
  ∀ k (h : k < l.length), m k = l.get ⟨k, h⟩

lemma StartsWith.store {m : ℕ → UInt8} {l : List UInt8} (h : StartsWith m l) (l' : List UInt8) :
    StartsWith (Text.store m l.length l') (l ++ l') := by
  intro k hk
  obtain hlt | hge := Nat.lt_or_ge k l.length
  · rw [Text.store_of_lt hlt, h k hlt]
    exact (getElem_append_left hlt).symm
  · obtain ⟨i, rfl⟩ := Nat.exists_eq_add_of_le hge
    rw [length_append] at hk
    rw [Text.store_add (Nat.lt_of_add_lt_add_left hk)]
    refine ((getElem_append_right hge).trans ?_).symm
    simp

/-- What is left at the head of the loop: nothing, or a word cut out at the token and a text from
`savePtr` on. -/
inductive Pending (m : ℕ → UInt8) (indexer savePtr : ℕ) : Option ℕ → List (List UInt8) → Prop
  | none : Pending m indexer savePtr none []
  | some {token : ℕ} {w rest : List UInt8} {ws : List (List UInt8)} (hw : StrAt m token w)
      (hnul : 0 ∉ w) (hle : indexer ≤ token) (hend : token + w.length < pgSize)
      (hsave : token + w.length ≤ savePtr) (hcut : rest ≠ [] → token + w.length < savePtr)
      (hrest : StrAt m savePtr rest) (hnul' : 0 ∉ rest) (hsize : savePtr + rest.length < pgSize)
      (hws : Words rest ws) : Pending m indexer savePtr (some token) (w :: ws)

/-- The head of the loop, with the words `done` behind it and `ws` before it; `orig` is the page at
first. -/
structure Head (orig : ℕ → UInt8) (done ws : List (List UInt8)) (c : Split) (m : ℕ → UInt8) : Prop where
  indexer : c.indexer = (encode done).length
  bound : c.indexer ≤ pgSize
  starts : StartsWith m (encode done)
  -- what has not been looked at is as it was
  intact : ∀ p, c.savePtr ≤ p → m p = orig p
  within : c.savePtr ≤ pgSize
  pending : Pending m c.indexer c.savePtr c.token ws

section

variable {orig m : ℕ → UInt8} {done ws : List (List UInt8)} {rest : List UInt8} {s : ℕ}

/-- `strtok_r` leads to the head of the loop, from a place behind the words so far. -/
lemma next_run (hstarts : StartsWith m (encode done)) (hbound : (encode done).length ≤ pgSize)
    (hws : Words rest ws) (hrest : StrAt m s rest) (hnul : 0 ∉ rest) (hsize : s + rest.length < pgSize)
    (hle : rest ≠ [] → (encode done).length ≤ s) (hintact : ∀ p, s ≤ p → m p = orig p) :
    ∃ c m', (next (encode done).length s).run m = .ok c m' ∧ Head orig done ws c m' := by
  have hrun {token : Option ℕ} {savePtr : ℕ} {m' : ℕ → UInt8}
      (h : (strtokR pgSize space s).run m = .ok (token, savePtr) m') :
      (next (encode done).length s).run m = .ok ⟨token, savePtr, (encode done).length⟩ m' := by
    simp only [next, run_bind, h]
    rfl
  cases hws with
  | blank hlead =>
    refine ⟨_, _, hrun (strtokR_none hrest hlead hsize), ⟨rfl, hbound, hstarts, ?_, hsize.le, .none⟩⟩
    exact fun p hp => hintact p ((le_add_right _ _).trans hp)
  | @last lead w hlead hne hw =>
    rw [length_append, ← add_assoc] at hsize
    have hnulw : 0 ∉ w := fun h => hnul (mem_append_right _ h)
    have hle : (encode done).length ≤ s + lead.length :=
      (hle (append_ne_nil_of_right_ne_nil _ hne)).trans (le_add_right _ _)
    have hs : s ≤ s + lead.length + w.length := by omega
    refine ⟨_, _, hrun (strtokR_last hrest hlead hne hw hnulw hsize),
      ⟨rfl, hbound, hstarts, fun p hp => hintact p (hs.trans hp), hsize.le, ?_⟩⟩
    exact .some hrest.append hnulw hle hsize le_rfl (fun h => absurd rfl h) hrest.append.end_eq
      not_mem_nil hsize (.blank fun c hc => absurd hc not_mem_nil)
  | @more lead w tail ws hlead hne hw htail =>
    simp only [length_append, length_cons] at hsize
    have hnulw : 0 ∉ w := fun h => hnul (mem_append_right _ (mem_append_left _ h))
    have hnult : 0 ∉ tail := fun h =>
      hnul (mem_append_right _ (mem_append_right _ (mem_cons_of_mem _ h)))
    have hle : (encode done).length ≤ s + lead.length :=
      (hle (by simp)).trans (le_add_right _ _)
    have hs : s ≤ s + lead.length + w.length + 1 := by omega
    have hcut := strtokR_some hrest hlead hne hw hnulw (mem_space.mpr rfl)
      (show s + lead.length + w.length < pgSize by omega)
    refine ⟨_, _, hrun hcut, ⟨rfl, hbound, fun k hk => ?_, fun p hp => ?_, ?_, ?_⟩⟩
    · rw [update_of_ne (by omega)]
      exact hstarts k hk
    · rw [update_of_ne (lt_of_succ_le hp).ne']
      exact hintact p (hs.trans hp)
    · show s + lead.length + w.length + 1 ≤ pgSize
      omega
    · exact .some (hrest.append.cut (fun q _ hlt => update_of_ne hlt.ne _ _)
        (update_self ..)) hnulw hle (by omega) (le_succ _) (fun _ => lt_succ_self _)
        (hrest.append.append.2.congr fun q hq => update_of_ne (lt_of_succ_le hq).ne' _ _)
        hnult (show s + lead.length + w.length + 1 + tail.length < pgSize by omega) htail

/-- A turn of the loop moves one word from what is before it to what is behind it. -/
lemma turn_run {c : Split} {token : ℕ} (h : Head orig done (w :: ws) c m)
    (htoken : c.token = some token) :
    ∃ c' m', (turn c token).run m = .ok c' m' ∧ Head orig (done ++ [w]) ws c' m' := by
  have hpending := h.pending
  rw [htoken] at hpending
  cases hpending with
  | @some _ _ rest _ hw hnul hle hend hsave hcut hrest hnul' hsize hws =>
  have hlen : (w ++ [(0 : UInt8)]).length = w.length + 1 := length_append
  have hdone : (encode (done ++ [w])).length = c.indexer + (w.length + 1) := by
    rw [encode_append, length_append, hlen, h.indexer]
  have hbehind (q : ℕ) (hq : c.savePtr ≤ q) : Text.store m c.indexer (w ++ [0]) q = m q := by
    obtain heq | hne := eq_or_lt_of_le (show c.indexer + w.length ≤ q by omega)
    · -- the null character of the word, on top of the one that it had
      rw [← heq, (strAt_store m c.indexer w).end_eq, show c.indexer + w.length = token + w.length by omega,
        hw.end_eq]
    · exact Text.store_of_ge (by omega)
  have hstarts : StartsWith (Text.store m c.indexer (w ++ [0])) (encode (done ++ [w])) := by
    rw [encode_append, h.indexer]
    exact h.starts.store _
  obtain ⟨c', m', hrun, hhead⟩ := next_run hstarts (by omega) hws (hrest.congr hbehind) hnul'
    hsize (fun hne => by have := hcut hne; omega) fun p hp => (hbehind p hp).trans (h.intact p hp)
  refine ⟨c', m', ?_, hhead⟩
  rw [hdone] at hrun
  simp only [turn, run_bind, strlen_run hw hnul hend, strlcpy_run hw hnul hle hend, hrun]

lemma splitLoop_run {c : Split} {fuel : ℕ} (h : Head orig done ws c m) (hfuel : ws.length < fuel) :
    ∃ m', (splitLoop fuel c).run m = .ok (encode (done ++ ws)).length m' ∧
      (encode (done ++ ws)).length ≤ pgSize ∧ StartsWith m' (encode (done ++ ws)) ∧
      ∀ p, pgSize ≤ p → m' p = orig p := by
  induction ws generalizing done c m fuel with
  | nil =>
    obtain ⟨fuel, rfl⟩ := succ_of_lt hfuel
    have htoken : c.token = none := by
      have hpending := h.pending
      generalize c.token = token at hpending
      cases hpending
      rfl
    rw [append_nil]
    refine ⟨m, ?_, h.indexer ▸ h.bound, h.starts, fun p hp => h.intact p (h.within.trans hp)⟩
    rw [splitLoop, htoken, ← h.indexer]
    rfl
  | cons w ws ih =>
    obtain ⟨fuel, rfl⟩ := succ_of_lt hfuel
    obtain ⟨token, htoken⟩ : ∃ token, c.token = some token := by
      have hpending := h.pending
      generalize c.token = token at hpending
      cases hpending
      exact ⟨_, rfl⟩
    obtain ⟨c', m', hrun, hhead⟩ := turn_run h htoken
    obtain ⟨m'', hloop, hrest⟩ := ih hhead (lt_of_succ_lt_succ hfuel)
    rw [append_assoc, singleton_append] at hloop hrest
    refine ⟨m'', ?_, hrest⟩
    rw [splitLoop, htoken]
    simp only [run_bind, hrun, hloop]

lemma fill_run {i fuel : ℕ} (hle : i ≤ pgSize) (hfuel : pgSize - i < fuel) :
    (fill fuel i).run m = .ok () (overwrite m i (pgSize - i) fun _ => 0) := by
  induction fuel generalizing i m with
  | zero => cases hfuel
  | succ fuel ih =>
    obtain rfl | hlt := Nat.eq_or_lt_of_le hle
    · rw [fill, Nat.sub_self, overwrite_zero]
      rfl
    · have hone : update m i 0 = overwrite m i 1 fun _ => 0 := by
        funext q
        obtain rfl | hq := eq_or_ne q i
        · rw [update_self, overwrite_of_mem le_rfl (Nat.lt_succ_self _)]
        · rw [update_of_ne hq, overwrite_of_notMem (by omega)]
      rw [fill, if_pos hlt.ne, run_bind, poke_run m hlt]
      show (fill fuel (i + 1)).run (update m i 0) = _
      rw [ih hlt (by omega), hone, overwrite_append m i 1 _ fun _ => 0]
      congr 2
      omega

end

lemma copyPage_eq {argCopy fnCopy : ℕ → UInt8} {n i : ℕ} (hn : n ≤ pgSize) (hi : i < pgSize) :
    copyPage argCopy n fnCopy i = if pgSize - n ≤ i then argCopy i else fnCopy i := by
  induction n generalizing fnCopy with
  | zero => rw [if_neg (by omega)]; rfl
  | succ n ih =>
    rw [copyPage, ih (le_of_succ_le hn)]
    split_ifs with hge hge' hge'
    · rfl
    · omega
    · rw [show pgSize - (n + 1) = i by omega, update_self]
    · rw [update_of_ne (by omega)]

/-! ## The whole command line -/

lemma wordsOf_command (command : CString) :
    ∀ w ∈ wordsOf (command.bytes.take (pgSize - 1)), w ≠ [] ∧ 0 ∉ w := fun _ hw =>
  mem_wordsOf hw fun h => command.noNul (mem_of_mem_take h)

lemma length_encode_wordsOf_le (command : CString) :
    (encode (wordsOf (command.bytes.take (pgSize - 1)))).length ≤ pgSize := by
  have hwords := (words_wordsOf (command.bytes.take (pgSize - 1))).length_encode_le
  have hlen : (command.bytes.take (pgSize - 1)).length ≤ pgSize - 1 := length_take_le _ _
  have hpos : 0 < pgSize := by decide
  omega

/-- The page once the command line is in it, and whatever was there before behind it. -/
def commandPage (stale : ℕ → UInt8) (command : CString) : ℕ → UInt8 :=
  Text.strlcpy stale 0 command.bytes pgSize

/-- The loop over the tokens, head by head; a step is labelled with its token. -/
def splitting (text : ℕ → UInt8) : System (Split × (ℕ → UInt8)) ℕ where
  init x := (next 0 0).run text = .ok x.1 x.2
  step x token y := x.1.token = some token ∧ (turn x.1 token).run x.2 = .ok y.1 y.2

section

variable (stale : ℕ → UInt8) (command : CString)

lemma next_commandPage : ∃ c m, (next 0 0).run (commandPage stale command) = .ok c m ∧
    Head (commandPage stale command) [] (wordsOf (command.bytes.take (pgSize - 1))) c m := by
  have hstr : StrAt (commandPage stale command) 0 (command.bytes.take (pgSize - 1)) :=
    strAt_store stale 0 _
  have hlen : (command.bytes.take (pgSize - 1)).length < pgSize :=
    (length_take_le _ _).trans_lt (by decide)
  have hempty : StartsWith (commandPage stale command) (encode []) := fun k hk =>
    absurd hk (not_lt_zero k)
  refine next_run hempty (zero_le _) (words_wordsOf _) hstr
    (fun h => command.noNul (mem_of_mem_take h)) ?_ (fun _ => le_rfl) fun _ _ => rfl
  rwa [zero_add]

lemma head_of_reachable {x : Split × (ℕ → UInt8)}
    (h : (splitting (commandPage stale command)).Reachable x) :
    ∃ done ws, Head (commandPage stale command) done ws x.1 x.2 := by
  refine h.invariant (I := fun y => ∃ done ws, Head (commandPage stale command) done ws y.1 y.2)
    (fun y hy => ?_) fun y token z hy _ hstep => ?_
  · obtain ⟨c, m, hrun, hhead⟩ := next_commandPage stale command
    cases hrun.symm.trans hy
    exact ⟨_, _, hhead⟩
  · obtain ⟨done, ws, hhead⟩ := hy
    obtain ⟨htoken, hturn⟩ := hstep
    obtain ⟨w, ws, rfl⟩ : ∃ w ws', ws = w :: ws' := by
      have hpending := hhead.pending
      rw [htoken] at hpending
      cases hpending
      exact ⟨_, _, rfl⟩
    obtain ⟨c, m, hrun, hhead'⟩ := turn_run hhead htoken
    cases hrun.symm.trans hturn
    exact ⟨_, _, hhead'⟩

lemma splitPage_run : ∃ page, splitPage.run (commandPage stale command) = .ok () page ∧
    (∀ i < pgSize, page i = (encode (wordsOf (command.bytes.take (pgSize - 1)))).getD i 0) ∧
    ∀ i, pgSize ≤ i → page i = stale i := by
  obtain ⟨c, m, hnext, hhead⟩ := next_commandPage stale command
  have hfuel : (wordsOf (command.bytes.take (pgSize - 1))).length < pgSize + 1 :=
    ((words_wordsOf _).length_le.trans (length_take_le _ _)).trans_lt (by decide)
  obtain ⟨m', hloop, hle, hstarts, hout⟩ := splitLoop_run hhead hfuel
  rw [nil_append] at hloop hle hstarts
  generalize encode (wordsOf (command.bytes.take (pgSize - 1))) = text at hloop hle hstarts ⊢
  refine ⟨overwrite m' text.length (pgSize - text.length) fun _ => 0, ?_, fun i hi => ?_, fun i hi => ?_⟩
  · simp only [splitPage, run_bind, hnext, hloop]
    exact fill_run hle (by omega)
  · obtain hlt | hge := lt_or_ge i text.length
    · rw [overwrite_of_notMem (.inl hlt), hstarts i hlt]
      exact (getD_eq_getElem _ 0 hlt).symm
    · rw [overwrite_of_mem hge (by omega), getD_eq_default _ _ hge]
  · rw [overwrite_of_notMem (.inr (by omega)), hout i hi]
    refine Text.store_of_ge (le_trans ?_ hi)
    rw [zero_add]
    exact Text.length_terminated_le _ _

/-- **Command-line splitting.** `arg_copy` and `fn_copy` end up with the words of the first `PGSIZE
- 1` characters, each with a null character; nothing is written outside the page, and what
`strtok_r` has not looked at yet is as it was. -/
theorem command_line_splitting (staleFn : ℕ → UInt8) :
    ∃ page, splitPage.run (commandPage stale command) = .ok () page ∧
      (∀ i < pgSize, page i = (encode (wordsOf (command.bytes.take (pgSize - 1)))).getD i 0) ∧
      (∀ i, pgSize ≤ i → page i = stale i) ∧
      (∀ i < pgSize, copyPage page pgSize staleFn i = page i) ∧
      ∀ x, (splitting (commandPage stale command)).Reachable x →
        ∀ p, x.1.savePtr ≤ p → x.2 p = commandPage stale command p := by
  obtain ⟨page, hrun, hpage, hout⟩ := splitPage_run stale command
  refine ⟨page, hrun, hpage, hout, fun i hi => ?_, fun x hx => ?_⟩
  · rw [copyPage_eq le_rfl hi, if_pos (by omega)]
  · obtain ⟨done, ws, h⟩ := head_of_reachable stale command hx
    exact h.intact

/-- The page `fn_copy`, which goes to the new process. -/
def argumentPage (staleFn : ℕ → UInt8) : ℕ → UInt8 :=
  copyPage (final (splitPage.run (commandPage stale command))) pgSize staleFn

lemma argumentPage_eq (staleFn : ℕ → UInt8) {i : ℕ} (hi : i < pgSize) :
    argumentPage stale command staleFn i =
      (encode (wordsOf (command.bytes.take (pgSize - 1)))).getD i 0 := by
  obtain ⟨page, hrun, hpage, -⟩ := splitPage_run stale command
  rw [argumentPage, hrun, copyPage_eq le_rfl hi]
  exact hpage i hi

end

end Pintos.CommandLine
