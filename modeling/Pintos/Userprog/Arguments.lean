import Mathlib.Data.List.Chain
import Pintos.Machinery.LittleEndian
import Pintos.Userprog.CommandLine
import Pintos.Userprog.Exception

/-!
# Userprog/Arguments — `setup_stack` puts the arguments on the stack

The arguments go to the top of the stack page as they are, one string after the other. Below them go
the addresses at which they start, found by walking down through the strings:

    esp ▸  │    │ argc │ argv │ &argv[0] … │    │ 0 0 │ argv[0] '\0' …  │  PHYS_BASE

Only the strings are held against a limit; the addresses take four bytes for each argument.
-/

namespace Pintos.Arguments

open Machinery CommandLine List Nat

/-- The user memory, and the addresses that have been written to. -/
structure Stack where
  mem : ℕ → UInt8
  written : List ℕ

def minus (p k : ℕ) : ℕ := (p + (2 ^ 32 - k)) % 2 ^ 32

namespace Stack

def put (s : Stack) (p : ℕ) (b : UInt8) : Stack := ⟨Function.update s.mem p b, p :: s.written⟩

def putWord (s : Stack) (p w : ℕ) : Stack :=
  (((s.put p (leByte w 0)).put (p + 1) (leByte w 1)).put (p + 2) (leByte w 2)).put (p + 3) (leByte w 3)

def word (s : Stack) (p : ℕ) : ℕ := leWord fun j => s.mem (p + j)

end Stack

/-! ## The code -/

/-- The bytes of a `struct thread` up to and with its `magic`: `tid`, `status`, `name`, `stack`,
`priority`, `allelem`, `elem`, `pagedir`, `executable`, `wait_sema`, `children`, `open_files`,
`parent`, `load_sema`, `child_list_elem`, `SP_table`, `stack_pointer`, `esp`, `magic`. -/
def actualThreadSize : ℕ :=
  4 + 4 + 16 + 4 + 4 + 8 + 8 + 4 + 4 + 20 + 16 + 16 + 4 + 20 + 4 + 24 + 4 + 4 + 4

/-- The loop that looks for two null characters in a row, with `n` bytes to go. -/
def scan (argArray : ℕ → UInt8) : ℕ → ℕ → ℕ
  | 0, idx => idx
  | n + 1, idx =>
    if idx ≠ 0 ∧ argArray idx = 0 ∧ argArray (idx - 1) = 0 then idx else scan argArray n (idx + 1)

/-- The loop that copies the strings. -/
def copyStrings (argArray : ℕ → UInt8) (myEsp maxIdx : ℕ) : ℕ → Stack → Stack
  | 0, s => s
  | idx + 1, s => copyStrings argArray myEsp maxIdx idx
      (s.put (minus myEsp (idx + 1)) (argArray (maxIdx - (idx + 1))))

/-- The loop that pads them. -/
def pad (myEsp : ℕ) : ℕ → Stack → Stack
  | 0, s => s
  | remain + 1, s => pad myEsp remain (s.put (minus myEsp (remain + 1)) 0)

/-- The loop that looks for the strings, with `n` bytes to go: `my_cpp`, `argc`, and the stack. -/
def pushAddresses : ℕ → ℕ → ℕ → ℕ → Stack → ℕ × ℕ × Stack
  | 0, _, myCpp, argc, s => (myCpp, argc, s)
  | n + 1, idx, myCpp, argc, s =>
    if s.mem (minus physBase idx) = 0 then
      pushAddresses n (idx + 1) (minus myCpp 4) (argc + 1) (s.putWord myCpp (minus physBase idx + 1))
    else pushAddresses n (idx + 1) myCpp argc s

/-- What `setup_stack` returns, and leaves behind. -/
structure Result where
  success : Bool
  esp : ℕ
  stack : Stack

/-- `setup_stack`, once `install_page` has mapped the page or not; `esp` is `*esp` before. -/
def setupStack (installed : Bool) (esp : ℕ) (argArray : ℕ → UInt8) (mem : ℕ → UInt8) : Result :=
  let top := if installed then physBase else esp
  let maxIdx := scan argArray pgSize 0
  if pgSize - actualThreadSize < maxIdx then ⟨false, top, ⟨mem, []⟩⟩
  else
    let s := copyStrings argArray top maxIdx maxIdx ⟨mem, []⟩
    let myEsp := minus top maxIdx
    let remain := 4 - maxIdx % 4
    let s := pad myEsp remain s
    let myEsp := minus (minus myEsp remain) 8
    let (myCpp, argc, s) := pushAddresses maxIdx 2 myEsp 0 s
    let s := s.putWord myCpp (myCpp + 4)
    let myCpp := minus myCpp 4
    let s := s.putWord myCpp argc
    ⟨installed, minus myCpp 4, s⟩

/-! ## What is written, and where -/

lemma minus_eq {p k : ℕ} (h : k ≤ p) (hp : p < 2 ^ 32) : minus p k = p - k := by
  rw [minus]
  omega

/-- From `s` to `s'`, only addresses from `lo` up to `hi` are written to. -/
structure Within (lo hi : ℕ) (s s' : Stack) : Prop where
  mem : ∀ p, p < lo ∨ hi ≤ p → s'.mem p = s.mem p
  written : ∀ p ∈ s'.written, p ∈ s.written ∨ lo ≤ p ∧ p < hi

namespace Within

variable {lo hi lo' hi' : ℕ} {s s' s'' : Stack}

lemma refl (lo hi : ℕ) (s : Stack) : Within lo hi s s := ⟨fun _ _ => rfl, fun _ h => .inl h⟩

variable (h : Within lo hi s s')

include h

lemma mono (hlo : lo' ≤ lo) (hhi : hi ≤ hi') : Within lo' hi' s s' where
  mem p hp := h.mem p (by omega)
  written p hp := (h.written p hp).imp_right fun hin => by omega

lemma trans (h' : Within lo hi s' s'') : Within lo hi s s'' where
  mem p hp := (h'.mem p hp).trans (h.mem p hp)
  written p hp := (h'.written p hp).elim (h.written p) .inr

lemma word {p : ℕ} (hp : p + 4 ≤ lo ∨ hi ≤ p) : s'.word p = s.word p :=
  leWord_congr fun j hj => h.mem (p + j) (by omega)

end Within

lemma within_put (s : Stack) (p : ℕ) (b : UInt8) : Within p (p + 1) s (s.put p b) where
  mem q hq := Function.update_of_ne (by omega) _ _
  written q hq := by
    obtain rfl | hq := mem_cons.mp hq
    · exact .inr ⟨le_rfl, lt_succ_self _⟩
    · exact .inl hq

lemma within_putWord (s : Stack) (p w : ℕ) : Within p (p + 4) s (s.putWord p w) := by
  have hput (s : Stack) (j : ℕ) (hj : j < 4) (b : UInt8) : Within p (p + 4) s (s.put (p + j) b) :=
    (within_put s (p + j) b).mono (by omega) (by omega)
  exact (((hput s 0 (by omega) _).trans (hput _ 1 (by omega) _)).trans (hput _ 2 (by omega) _)).trans
    (hput _ 3 (by omega) _)

lemma word_putWord (s : Stack) (p : ℕ) {w : ℕ} (hw : w < 2 ^ 32) : (s.putWord p w).word p = w := by
  refine (leWord_congr fun j hj => ?_).trans (leWord_leByte hw)
  obtain rfl | rfl | rfl | rfl : j = 0 ∨ j = 1 ∨ j = 2 ∨ j = 3 := by omega
  all_goals simp [Stack.putWord, Stack.put]

/-! ## The loops -/

section

variable {s : Stack}

lemma copyStrings_spec (argArray : ℕ → UInt8) (maxIdx : ℕ) {top idx : ℕ} (htop : top < 2 ^ 32)
    (hidx : idx ≤ top) (s : Stack) :
    Within (top - idx) top s (copyStrings argArray top maxIdx idx s) ∧
      ∀ k, 1 ≤ k → k ≤ idx →
        (copyStrings argArray top maxIdx idx s).mem (top - k) = argArray (maxIdx - k) := by
  induction idx generalizing s with
  | zero => exact ⟨.refl _ _ _, fun k h1 h0 => absurd (h1.trans h0) (by decide)⟩
  | succ idx ih =>
    obtain ⟨hwithin, hmem⟩ := ih (le_of_succ_le hidx)
      (s.put (minus top (idx + 1)) (argArray (maxIdx - (idx + 1))))
    rw [copyStrings, minus_eq hidx htop] at *
    have hput := within_put s (top - (idx + 1)) (argArray (maxIdx - (idx + 1)))
    refine ⟨(hput.mono le_rfl (by omega)).trans (hwithin.mono (by omega) le_rfl), fun k h1 hk => ?_⟩
    obtain rfl | hlt := eq_or_lt_of_le hk
    · rw [hwithin.mem _ (.inl (by omega))]
      exact Function.update_self ..
    · exact hmem k h1 (le_of_lt_succ hlt)

lemma pad_eq (myEsp maxIdx remain : ℕ) (s : Stack) :
    pad myEsp remain s = copyStrings (fun _ => 0) myEsp maxIdx remain s := by
  induction remain generalizing s with
  | zero => rfl
  | succ remain ih => exact ih _

lemma pushAddresses_skip {k n idx myCpp argc : ℕ} (hidx : idx + k ≤ physBase)
    (hmem : ∀ j < k, s.mem (physBase - (idx + j)) ≠ 0) :
    pushAddresses (n + k) idx myCpp argc s = pushAddresses n (idx + k) myCpp argc s := by
  induction k generalizing idx with
  | zero => rfl
  | succ k ih =>
    have hne : s.mem (minus physBase idx) ≠ 0 := by
      rw [minus_eq (by omega) (by decide)]
      exact hmem 0 (succ_pos k)
    rw [← add_assoc, pushAddresses, if_neg hne, ih (by omega) fun j hj => ?_, add_assoc,
      add_comm 1]
    rw [add_assoc, add_comm 1]
    exact hmem (j + 1) (succ_lt_succ hj)

end

/-- The bytes that the strings take. -/
abbrev size (ws : List (List UInt8)) : ℕ := (encode ws).length

lemma size_append (ws : List (List UInt8)) (w : List UInt8) :
    size (ws ++ [w]) = size ws + (w.length + 1) := by
  rw [size, encode_append, length_append, length_append, length_singleton]

lemma size_cons (w : List UInt8) (ws : List (List UInt8)) :
    size (w :: ws) = w.length + 1 + size ws := by
  rw [size, encode_cons, length_append, length_cons, add_assoc, add_comm 1]

variable {ws : List (List UInt8)}

lemma encode_getD_last {j : ℕ} (hlast : j + 1 = size ws) :
    (encode ws).getD j 0 = 0 := by
  induction ws using List.reverseRecOn with
  | nil => cases hlast
  | append_singleton ws w _ =>
    rw [size_append] at hlast
    obtain rfl : j = (encode ws ++ w).length := by
      rw [length_append]
      exact Nat.succ.inj hlast
    rw [encode_append, ← append_assoc, getD_append_right _ _ _ _ le_rfl, Nat.sub_self]
    rfl

/-- The addresses of the strings that end `e` bytes below `PHYS_BASE`, from the last to the
first. -/
lemma pushAddresses_spec (ws : List (List UInt8)) (hnul : ∀ w ∈ ws, 0 ∉ w) (e myCpp argc : ℕ) (s : Stack)
    (hmem : ∀ j < size ws,
      s.mem (physBase - (e + size ws) + j) = (encode ws).getD j 0)
    (hzero : s.mem (physBase - (e + size ws + 1)) = 0)
    (hbelow : myCpp + 4 ≤ physBase - (e + size ws + 1))
    (hcpp : 4 * ws.length ≤ myCpp) (he : e + size ws + 1 ≤ physBase) :
    ∃ s', pushAddresses (size ws) (e + 2) myCpp argc s =
        (myCpp - 4 * ws.length, argc + ws.length, s') ∧
      Within (myCpp + 4 - 4 * ws.length) (myCpp + 4) s s' ∧
      ∀ i < ws.length, s'.word (myCpp + 4 - 4 * ws.length + 4 * i) =
        physBase - (e + size ws) + size (ws.take i) := by
  induction ws using List.reverseRecOn generalizing e myCpp argc s with
  | nil => exact ⟨s, rfl, .refl _ _ _, fun i hi => absurd hi (Nat.not_lt_zero i)⟩
  | append_singleton ws w ih =>
    have hlen := size_append ws w
    have hphys : physBase < 2 ^ 32 := by decide
    have hget (j : ℕ) (hj : j < size ws) :
        s.mem (physBase - (e + size (ws ++ [w])) + j) = (encode ws).getD j 0 := by
      rw [hmem j (by omega), encode_append, getD_append _ _ _ _ hj]
    have hgetw (j : ℕ) (hj : j < w.length) :
        s.mem (physBase - (e + size (ws ++ [w])) + (size ws + j)) = w.getD j 0 := by
      rw [hmem _ (by omega), encode_append, getD_append_right _ _ _ _ (Nat.le_add_right _ _),
        Nat.add_sub_cancel_left, getD_append _ _ _ _ hj]
    rw [length_append, length_singleton] at hcpp
    -- the characters of the string, from the last to the first
    have hchars (j : ℕ) (hj : j < w.length) : s.mem (physBase - (e + 2 + j)) ≠ 0 := by
      rw [show physBase - (e + 2 + j) = physBase - (e + size (ws ++ [w])) +
        (size ws + (w.length - 1 - j)) by omega, hgetw _ (by omega),
        getD_eq_getElem _ _ (by omega)]
      exact fun hz => hnul w (mem_append_right _ mem_cons_self) (hz ▸ getElem_mem _)
    -- the null character before it, that of another string or of the padding
    have hbefore : s.mem (minus physBase (e + 2 + w.length)) = 0 := by
      rw [minus_eq (by omega) hphys]
      obtain hz | hpos := Nat.eq_zero_or_pos (size ws)
      · rwa [show e + 2 + w.length = e + size (ws ++ [w]) + 1 by omega]
      · rw [show physBase - (e + 2 + w.length) = physBase - (e + size (ws ++ [w])) +
          (size ws - 1) by omega, hget _ (by omega)]
        exact encode_getD_last (by omega)
    have haddr : minus physBase (e + 2 + w.length) + 1 = physBase - (e + w.length + 1) := by
      rw [minus_eq (by omega) hphys]
      omega
    have hput := within_putWord s myCpp (physBase - (e + w.length + 1))
    obtain ⟨s', hrun, hwithin, hwords⟩ := ih (fun v hv => hnul v (mem_append_left _ hv))
      (e + w.length + 1) (myCpp - 4) (argc + 1) (s.putWord myCpp (physBase - (e + w.length + 1)))
      (fun j hj => by
        rw [hput.mem _ (.inr (by omega)), ← hget j hj]
        congr 2
        omega)
      (by
        rw [hput.mem _ (.inr (by omega))]
        exact (congrArg (fun k => s.mem (physBase - k)) (by omega)).trans hzero)
      (by omega) (by omega) (by omega)
    rw [show myCpp - 4 + 4 = myCpp by omega] at hwithin hwords
    refine ⟨s', ?_, ?_, fun i hi => ?_⟩
    · rw [hlen, show size ws + (w.length + 1) = size ws + 1 + w.length by omega,
        pushAddresses_skip (by omega) hchars, pushAddresses, if_pos hbefore, haddr,
        minus_eq (by omega) (by omega), show e + 2 + w.length + 1 = e + w.length + 1 + 2 by omega, hrun,
        length_append, length_singleton]
      congr 1
      · omega
      · congr 1
        omega
    · rw [length_append, length_singleton]
      exact (hput.mono (by omega) le_rfl).trans (hwithin.mono (by omega) (by omega))
    · rw [length_append, length_singleton] at hi ⊢
      obtain rfl | hlt := Nat.eq_or_lt_of_le (Nat.le_of_lt_succ hi)
      · rw [show myCpp + 4 - 4 * (ws.length + 1) + 4 * ws.length = myCpp by omega,
          hwithin.word (.inr le_rfl), word_putWord _ _ (by omega), take_left]
        omega
      · rw [show myCpp + 4 - 4 * (ws.length + 1) + 4 * i = myCpp - 4 * ws.length + 4 * i by omega,
          hwords i hlt, take_append_of_le_length hlt.le]
        omega

/-! ## How long the strings are -/

variable {argArray : ℕ → UInt8}

lemma scan_eq {len n idx : ℕ} (hidx : idx ≤ len) (hn : idx + n = pgSize) (hle : len ≤ pgSize)
    (hbefore : ∀ j, 0 < j → j < len → ¬ (argArray j = 0 ∧ argArray (j - 1) = 0)) (hpos : 0 < len)
    (hfound : len < pgSize → argArray len = 0 ∧ argArray (len - 1) = 0) :
    scan argArray n idx = len := by
  induction n generalizing idx with
  | zero =>
    rw [scan]
    omega
  | succ n ih =>
    obtain rfl | hlt := eq_or_lt_of_le hidx
    · rw [scan, if_pos ⟨hpos.ne', hfound (by omega)⟩]
    · rw [scan, if_neg fun h => hbefore idx (pos_of_ne_zero h.1) hlt h.2]
      exact ih hlt (by omega)

lemma encode_isChain (h : ∀ w ∈ ws, w ≠ [] ∧ 0 ∉ w) :
    (encode ws).IsChain fun a b => ¬ (a = 0 ∧ b = 0) := by
  induction ws with
  | nil => exact .nil
  | cons w ws ih =>
    obtain ⟨hne, hnul⟩ := h w mem_cons_self
    have hrest := fun v hv => h v (mem_cons_of_mem w hv)
    have hword : w.IsChain fun a b => ¬ (a = 0 ∧ b = 0) :=
      List.Pairwise.isChain <| pairwise_of_forall_mem_list fun a ha _ _ hab => hnul (hab.1 ▸ ha)
    rw [encode_cons, isChain_append, isChain_cons]
    refine ⟨hword, ⟨fun y hy hz => ?_, ih hrest⟩, fun x hx y _ hz => ?_⟩
    · -- the next string begins with a character
      obtain _ | ⟨v, ws⟩ := ws
      · cases hy
      · obtain ⟨hne, hnul⟩ := hrest v mem_cons_self
        obtain ⟨c, v, rfl⟩ := exists_cons_of_ne_nil hne
        cases hy
        exact hnul (hz.2 ▸ mem_cons_self)
    · exact hnul (hz.1 ▸ mem_of_getLast? hx)

lemma length_le_encode (ws : List (List UInt8)) : ws.length ≤ size ws := by
  induction ws with
  | nil => exact le_rfl
  | cons w ws ih =>
    rw [size_cons, length_cons]
    omega

lemma strAt_of_encode {m : ℕ → UInt8} {p : ℕ}
    (hmem : ∀ j < size ws, m (p + j) = (encode ws).getD j 0) {i : ℕ}
    (hi : i < ws.length) : Strings.StrAt m (p + size (ws.take i)) (ws.get ⟨i, hi⟩) := by
  induction ws generalizing p i with
  | nil => cases hi
  | cons w ws ih =>
    simp only [size_cons, encode_cons] at hmem
    cases i with
    | zero =>
      refine Strings.strAt_of_get (l := w) (fun j hj => ?_) ?_
      · exact (hmem j (by omega)).trans ((getD_append _ _ _ _ hj).trans (getD_eq_getElem _ _ hj))
      · refine (hmem w.length (by omega)).trans ?_
        rw [getD_append_right _ _ _ _ le_rfl, Nat.sub_self]
        rfl
    | succ i =>
      have hnext := ih (p := p + (w.length + 1)) (fun j hj => ?_) (Nat.lt_of_succ_lt_succ hi)
      · have hlen : p + size ((w :: ws).take (i + 1)) =
            p + (w.length + 1) + size (ws.take i) := by
          rw [take_succ_cons, size_cons, ← add_assoc]
        rwa [hlen]
      · rw [Nat.add_assoc, hmem _ (by omega), getD_append_right _ _ _ _ (by omega)]
        rw [show w.length + 1 + j - w.length = j + 1 by omega]
        rfl

/-! ## The stack page -/

/-- From `PHYS_BASE` down to `argc`. -/
def imageSize (args : List (List UInt8)) : ℕ :=
  size args + (4 - size args % 4) + 4 + 4 * args.length + 8

/-- Where `argc` goes. -/
abbrev argcAt (args : List (List UInt8)) : ℕ := physBase - imageSize args

/-- The stack that `setup_stack` leaves, for strings that `arg_array` begins with. -/
structure Pushed (args : List (List UInt8)) (mem : ℕ → UInt8) (r : Result) : Prop where
  success : r.success = true
  esp : r.esp + 4 = argcAt args
  within : Within (argcAt args) physBase ⟨mem, []⟩ r.stack
  written : argcAt args ∈ r.stack.written
  argc : r.stack.word (argcAt args) = args.length
  array : r.stack.word (argcAt args + 4) = argcAt args + 8
  address : ∀ i < args.length, r.stack.word (argcAt args + 8 + 4 * i) =
    physBase - size args + size (args.take i)
  bytes : ∀ j < size args,
    r.stack.mem (physBase - size args + j) = (encode args).getD j 0

lemma pad_copyStrings_spec (argArray : ℕ → UInt8) {len remain : ℕ} (hle : len + remain ≤ physBase)
    (s : Stack) :
    Within (physBase - (len + remain)) physBase s
      (pad (minus physBase len) remain (copyStrings argArray physBase len len s)) ∧
    (∀ j < len, (pad (minus physBase len) remain (copyStrings argArray physBase len len s)).mem
      (physBase - len + j) = argArray j) ∧
    (0 < remain → (pad (minus physBase len) remain (copyStrings argArray physBase len len s)).mem
      (physBase - (len + 1)) = 0) := by
  have hphys : physBase < 2 ^ 32 := by decide
  obtain ⟨hcopy, hcopied⟩ := copyStrings_spec argArray len hphys (show len ≤ physBase by omega) s
  generalize copyStrings argArray physBase len len s = s₁ at hcopy hcopied
  rw [minus_eq (by omega) hphys, pad_eq _ len]
  obtain ⟨hpad, hpadded⟩ := copyStrings_spec (fun _ => 0) len (by omega)
    (show remain ≤ physBase - len by omega) s₁
  refine ⟨?_, fun j hj => ?_, fun hpos => ?_⟩
  · exact (hcopy.mono (by omega) le_rfl).trans (hpad.mono (by omega) (by omega))
  · rw [hpad.mem _ (.inr (by omega)), show physBase - len + j = physBase - (len - j) by omega,
      hcopied _ (by omega) (by omega)]
    congr 1
    omega
  · exact hpadded 1 le_rfl hpos

/-- The two words at the end. -/
def pushCounts : ℕ × ℕ × Stack → Result
  | (myCpp, argc, s) =>
    ⟨true, minus (minus myCpp 4) 4, (s.putWord myCpp (myCpp + 4)).putWord (minus myCpp 4) argc⟩

lemma setupStack_eq {len : ℕ} (esp : ℕ) (mem : ℕ → UInt8) (hscan : scan argArray pgSize 0 = len)
    (hlimit : len ≤ pgSize - actualThreadSize) :
    setupStack true esp argArray mem = pushCounts (pushAddresses len 2
      (minus (minus (minus physBase len) (4 - len % 4)) 8) 0
      (pad (minus physBase len) (4 - len % 4) (copyStrings argArray physBase len len ⟨mem, []⟩))) := by
  rw [setupStack, hscan]
  exact if_neg (not_lt.mpr hlimit)

variable {args : List (List UInt8)}

lemma setupStack_pushed (esp : ℕ) (mem : ℕ → UInt8) (hnul : ∀ w ∈ args, 0 ∉ w)
    (hscan : scan argArray pgSize 0 = size args)
    (hbytes : ∀ j < size args, argArray j = (encode args).getD j 0)
    (hlimit : size args ≤ pgSize - actualThreadSize) :
    Pushed args mem (setupStack true esp argArray mem) := by
  have hcount := length_le_encode args
  have hphys : physBase < 2 ^ 32 := by decide
  have hsmall : 8 * size args + 100 ≤ physBase := by
    rw [show pgSize - actualThreadSize = 3924 from rfl] at hlimit
    rw [physBase]
    omega
  have hat : argcAt args = physBase - imageSize args := rfl
  have himage : imageSize args = size args + (4 - size args % 4) + 4 + 4 * args.length + 8 := rfl
  have hrem : 0 < 4 - size args % 4 ∧ 4 - size args % 4 ≤ 4 := by omega
  rw [setupStack_eq esp mem hscan hlimit]
  generalize 4 - size args % 4 = remain at himage hrem ⊢
  obtain ⟨hstrings, hcopied, hzero⟩ := pad_copyStrings_spec argArray
    (show size args + remain ≤ physBase by omega) ⟨mem, []⟩
  generalize pad _ remain _ = s₁ at hstrings hcopied hzero ⊢
  -- the addresses, below a word that is skipped
  have htop : minus (minus (minus physBase (size args)) remain) 8 =
      argcAt args + 4 + 4 * args.length := by
    rw [minus_eq (by omega) hphys,
      minus_eq (show _ ≤ physBase - size args by omega) (by omega), minus_eq (by omega) (by omega)]
    omega
  rw [htop]
  obtain ⟨s₂, hrun, haddresses, hwords⟩ := pushAddresses_spec args hnul 0
    (argcAt args + 4 + 4 * args.length) 0 s₁
    (fun j hj => by rw [Nat.zero_add, hcopied j hj, hbytes j hj])
    (by rw [Nat.zero_add]; exact hzero hrem.1) (by omega) (by omega) (by omega)
  rw [hrun, pushCounts, Nat.zero_add, Nat.add_sub_cancel,
    minus_eq (show 4 ≤ argcAt args + 4 by omega) (by omega),
    minus_eq (by omega) (by omega)]
  have hargv := within_putWord s₂ (argcAt args + 4) (argcAt args + 4 + 4)
  have hargv' : (s₂.putWord (argcAt args + 4) (argcAt args + 4 + 4)).word
    (argcAt args + 4) = argcAt args + 4 + 4 := word_putWord _ _ (by omega)
  generalize s₂.putWord (argcAt args + 4) (argcAt args + 4 + 4) = s₃
    at hargv hargv' ⊢
  have hargc := within_putWord s₃ (argcAt args) args.length
  rw [show argcAt args + 4 + 4 * args.length + 4 - 4 * args.length =
    argcAt args + 8 by omega] at haddresses hwords
  refine ⟨rfl, ?_, ?_, ?_, ?_, ?_, fun i hi => ?_, fun j hj => ?_⟩
  · show argcAt args - 4 + 4 = _
    omega
  · exact (((hstrings.mono (by omega) le_rfl).trans (haddresses.mono (by omega) (by omega))).trans
      (hargv.mono (by omega) (by omega))).trans (hargc.mono le_rfl (by omega))
  · simp [Stack.putWord, Stack.put]
  · exact word_putWord _ _ (by omega)
  · exact (hargc.word (.inr le_rfl)).trans hargv'
  · refine (hargc.word (.inr (by omega))).trans ((hargv.word (.inr (by omega))).trans ?_)
    have hword := hwords i hi
    rwa [Nat.zero_add] at hword
  · refine (hargc.mem _ (.inr (by omega))).trans ((hargv.mem _ (.inr (by omega))).trans ?_)
    rw [haddresses.mem _ (.inr (by omega)), hcopied j hj, hbytes j hj]

lemma scan_encode (hne : args ≠ []) (hargs : ∀ w ∈ args, w ≠ [] ∧ 0 ∉ w)
    (harray : ∀ i < pgSize, argArray i = (encode args).getD i 0)
    (hle : size args ≤ pgSize) : scan argArray pgSize 0 = size args := by
  have hpos : 0 < size args := (length_pos_iff.mpr hne).trans_le (length_le_encode args)
  refine scan_eq (Nat.zero_le _) (Nat.zero_add _) hle (fun j hj hlt hzero => ?_) hpos fun hlt => ⟨?_, ?_⟩
  · rw [harray j (by omega), harray (j - 1) (by omega), getD_eq_getElem _ _ hlt,
      getD_eq_getElem _ _ (j.sub_le 1 |>.trans_lt hlt)] at hzero
    have hchain := isChain_iff_getElem.mp (encode_isChain hargs) (j - 1) (by rwa [Nat.sub_add_cancel hj])
    simp only [Nat.sub_add_cancel hj] at hchain
    exact hchain hzero.symm
  · rw [harray _ hlt, getD_eq_default _ _ le_rfl]
  · rw [harray _ (by omega), encode_getD_last (by omega)]

/-! ## What `main` finds -/

def argv (r : Result) : ℕ := r.stack.word (r.esp + 8)

/-- `argv[i]`, as the program reads it. -/
def argvAt (r : Result) (i : ℕ) : ℕ := r.stack.word (argv r + 4 * i)

/-- The arguments of `main`, in place, aligned, and one above the other in the stack page. -/
structure Layout (args : List (List UInt8)) (r : Result) : Prop where
  argc : r.stack.word (r.esp + 4) = args.length
  strings : ∀ i (h : i < args.length), Strings.StrAt r.stack.mem (argvAt r i) (args.get ⟨i, h⟩)
  aligned : 4 ∣ r.esp + 4 ∧ 4 ∣ r.esp + 8 ∧ 4 ∣ argv r
  inside : stackPage ≤ r.esp + 4
  argv_above : r.esp + 12 ≤ argv r
  strings_above : ∀ i < args.length, argv r + 4 * args.length ≤ argvAt r i
  strings_apart : ∀ i j (h : j < args.length) (hij : i < j),
    argvAt r i + ((args.get ⟨i, hij.trans h⟩).length + 1) ≤ argvAt r j
  strings_below : ∀ i (h : i < args.length), argvAt r i + ((args.get ⟨i, h⟩).length + 1) ≤ physBase

lemma encode_take_succ {i : ℕ} (hi : i < args.length) : size (args.take (i + 1)) =
      size (args.take i) + ((args.get ⟨i, hi⟩).length + 1) := by
  rw [take_succ_eq_append_getElem hi, size_append]
  rfl

lemma encode_take_mono {i j : ℕ} (hij : i ≤ j) :
    size (args.take i) ≤ size (args.take j) := by
  obtain ⟨rest, hrest⟩ : args.take i <+: args.take j := take_prefix_take_left hij
  rw [← hrest, size, size, encode, encode, flatMap_append, length_append]
  exact le_add_right _ _

lemma Pushed.layout {mem : ℕ → UInt8} {r : Result} (h : Pushed args mem r)
    (hfit : imageSize args ≤ pgSize) : Layout args r := by
  have hat : argcAt args = physBase - imageSize args := rfl
  have himage : imageSize args = size args + (4 - size args % 4) + 4 + 4 * args.length + 8 := rfl
  have hphys : physBase = 3 * 2 ^ 30 := rfl
  have hargv : argv r = argcAt args + 8 := by
    rw [argv, show r.esp + 8 = r.esp + 4 + 4 from rfl, h.esp]
    exact h.array
  have hat (i : ℕ) (hi : i < args.length) :
      argvAt r i = physBase - size args + size (args.take i) := by
    rw [argvAt, hargv]
    exact h.address i hi
  have hesp := h.esp
  have hend (i : ℕ) (hi : i < args.length) :
      size (args.take i) + ((args.get ⟨i, hi⟩).length + 1) ≤ size args := by
    rw [← encode_take_succ hi]
    exact (encode_take_mono hi).trans_eq (by rw [take_length])
  refine ⟨?_, fun i hi => ?_, ?_, ?_, ?_, fun i hi => ?_, fun i j hj hij => ?_, fun i hi => ?_⟩
  · rw [hesp]
    exact h.argc
  · rw [hat i hi]
    exact strAt_of_encode h.bytes hi
  · omega
  · rw [stackPage]
    omega
  · omega
  · rw [hat i hi]
    omega
  · rw [hat i (hij.trans hj), hat j hj, Nat.add_assoc, ← encode_take_succ (hij.trans hj)]
    exact Nat.add_le_add_left (encode_take_mono hij) _
  · have hle := hend i hi
    rw [hat i hi]
    omega

/-- A run succeeds if there is a page, and the strings are within the limit. -/
lemma setupStack_success (installed : Bool) (esp : ℕ) (argArray mem : ℕ → UInt8) :
    (setupStack installed esp argArray mem).success = true ↔
      installed = true ∧ scan argArray pgSize 0 ≤ pgSize - actualThreadSize := by
  rw [setupStack]
  by_cases hlimit : pgSize - actualThreadSize < scan argArray pgSize 0
  · rw [if_pos hlimit]
    exact iff_of_false Bool.false_ne_true fun h => not_le.mpr hlimit h.2
  · rw [if_neg hlimit]
    exact (and_iff_left (not_lt.mp hlimit)).symm

/-- **Initial stack layout.** Arguments whose image fits in the stack page are left for `main` to
find. -/
theorem initial_stack_layout {args : List (List UInt8)} {argArray : ℕ → UInt8} (installed : Bool) (esp : ℕ)
    (mem : ℕ → UInt8) (hne : args ≠ []) (hargs : ∀ w ∈ args, w ≠ [] ∧ 0 ∉ w)
    (harray : ∀ i < pgSize, argArray i = (encode args).getD i 0) (hfit : imageSize args ≤ pgSize)
    (htrue : (setupStack installed esp argArray mem).success = true) :
    Layout args (setupStack installed esp argArray mem) := by
  have hle : size args ≤ pgSize := by
    rw [imageSize] at hfit
    omega
  have hscan := scan_encode hne hargs harray hle
  obtain ⟨rfl, hlimit⟩ := (setupStack_success ..).mp htrue
  rw [hscan] at hlimit
  exact (setupStack_pushed esp mem (fun w hw => (hargs w hw).2) hscan
    (fun j hj => harray j (hj.trans_le hle)) hlimit).layout hfit

/-- The command line `ls -l`. -/
theorem initial_stack_layout_ls : ∃ r, r = setupStack true 0
    (fun i => (encode [[0x6c, 0x73], [0x2d, 0x6c]]).getD i 0) (fun _ => 0xcc) ∧ r.success = true ∧
      Layout [[0x6c, 0x73], [0x2d, 0x6c]] r :=
  ⟨_, rfl, by decide, initial_stack_layout true 0 _ (by decide) (by decide) (fun _ _ => rfl) (by decide)
    (by decide)⟩

/-! ## What stays in the page -/

/-- The arguments stay in the stack page, if and only if the addresses have room below the
strings. -/
lemma Pushed.inside_iff {mem : ℕ → UInt8} {r : Result} (h : Pushed args mem r)
    (hphys : imageSize args ≤ physBase) :
    (∀ p ∈ r.stack.written, stackPage ≤ p ∧ p < physBase) ↔ imageSize args ≤ pgSize := by
  have hat : argcAt args = physBase - imageSize args := rfl
  have hpage : stackPage = physBase - pgSize := rfl
  constructor
  · intro hall
    have hlast := (hall _ h.written).1
    omega
  · intro hfit p hp
    obtain hnone | hin := h.within.written p hp
    · cases hnone
    · exact ⟨by omega, hin.2⟩

lemma scan_empty (harray : ∀ i < pgSize, argArray i = 0) : scan argArray pgSize 0 = 1 :=
  scan_eq (Nat.zero_le _) (Nat.zero_add _) (by decide) (fun j hj hlt => absurd hlt (Nat.not_lt.mpr hj))
    Nat.one_pos fun hlt => ⟨harray 1 hlt, harray 0 (by decide)⟩

section

variable {argArray : ℕ → UInt8} {ws : List (List UInt8)} (hws : ∀ w ∈ ws, w ≠ [] ∧ 0 ∉ w)
  (hle : size ws ≤ pgSize) (harray : ∀ i < pgSize, argArray i = (encode ws).getD i 0)

include hws hle harray

lemma limit_lt_scan : pgSize - actualThreadSize < scan argArray pgSize 0 ↔
    pgSize - actualThreadSize < size ws := by
  obtain rfl | hne := eq_or_ne ws []
  · rw [scan_empty harray]
    exact iff_of_false (by decide) (by decide)
  · rw [scan_encode hne hws harray hle]

/-- What `setup_stack` takes the strings of a command line for. -/
lemma exists_pushed (hlimit : size ws ≤ pgSize - actualThreadSize) (esp : ℕ)
    (mem : ℕ → UInt8) : ∃ args, Pushed args mem (setupStack true esp argArray mem) ∧
      imageSize args ≤ physBase ∧ (imageSize args ≤ pgSize ↔ imageSize ws ≤ pgSize) := by
  obtain rfl | hne := eq_or_ne ws []
  · refine ⟨[[]], setupStack_pushed esp mem (fun w hw => ?_) (scan_empty harray) (fun j hj => ?_)
      (by decide), by decide, by decide⟩
    · obtain rfl := mem_singleton.mp hw
      exact not_mem_nil
    · obtain rfl : j = 0 := lt_one_iff.mp hj
      exact harray 0 (by decide)
  · have hlen := scan_encode hne hws harray hle
    have hcount := length_le_encode ws
    refine ⟨ws, setupStack_pushed esp mem (fun w hw => (hws w hw).2) hlen
      (fun j hj => harray j (hj.trans_le hle)) hlimit, ?_, Iff.rfl⟩
    rw [imageSize, physBase]
    rw [pgSize] at hle
    omega

lemma inside_iff (installed : Bool) (esp : ℕ) (mem : ℕ → UInt8) :
    ((setupStack installed esp argArray mem).success = false ∨
      ∀ p ∈ (setupStack installed esp argArray mem).stack.written, stackPage ≤ p ∧ p < physBase) ↔
    installed = false ∨ pgSize - actualThreadSize < size ws ∨ imageSize ws ≤ pgSize := by
  have hsuccess := setupStack_success installed esp argArray mem
  have hlimit := limit_lt_scan hws hle harray
  cases installed with
  | false =>
    refine iff_of_true (.inl (Bool.eq_false_iff.mpr fun h => ?_)) (.inl rfl)
    exact Bool.false_ne_true (hsuccess.mp h).1
  | true =>
    obtain hlt | hge := lt_or_ge (pgSize - actualThreadSize) (size ws)
    · refine iff_of_true (.inl (Bool.eq_false_iff.mpr fun h => ?_)) (.inr (.inl hlt))
      exact not_le.mpr (hlimit.mpr hlt) (hsuccess.mp h).2
    · obtain ⟨args, hpushed, hphys, hsize⟩ := exists_pushed hws hle harray hge esp mem
      rw [or_iff_right (ne_of_eq_of_ne hpushed.success Bool.true_eq_false.mp), hpushed.inside_iff hphys,
    hsize]
      simp [not_lt.mpr hge]

end

/-- **Argument passing stays inside the stack page** just if there is no page, the strings are above
the limit, or there is room for the addresses below them. -/
theorem arguments_stay_in_page (stale staleFn : ℕ → UInt8) (command : CString) (installed : Bool) (esp : ℕ)
    (mem : ℕ → UInt8) :
    ((setupStack installed esp (argumentPage stale command staleFn) mem).success = false ∨
      ∀ p ∈ (setupStack installed esp (argumentPage stale command staleFn) mem).stack.written,
        stackPage ≤ p ∧ p < physBase) ↔
    installed = false ∨
      pgSize - actualThreadSize < (encode (wordsOf (command.bytes.take (pgSize - 1)))).length ∨
      imageSize (wordsOf (command.bytes.take (pgSize - 1))) ≤ pgSize := by
  exact inside_iff (wordsOf_command command) (length_encode_wordsOf_le command)
    (fun i => argumentPage_eq stale command staleFn) installed esp mem

/-- `n` words of one letter. -/
def manyWords (n : ℕ) : CString where
  bytes := (List.replicate n [0x61, 0x20]).flatten
  noNul h := by
    obtain ⟨l, hl, hmem⟩ := mem_flatten.mp h
    rw [eq_of_mem_replicate hl] at hmem
    revert hmem
    decide

lemma length_manyWords (n : ℕ) : (manyWords n).bytes.length = 2 * n := by
  induction n with
  | zero => rfl
  | succ n ih =>
    have hcons : (manyWords (n + 1)).bytes = [0x61, 0x20] ++ (manyWords n).bytes := rfl
    rw [hcons, length_append, ih, add_comm]
    rfl

lemma length_encode_replicate (n : ℕ) : size (List.replicate n [0x61]) = 2 * n := by
  induction n with
  | zero => rfl
  | succ n ih =>
    rw [replicate_succ, size_cons, ih, length_singleton]
    omega

lemma wordsOf_manyWords (n : ℕ) : wordsOf (manyWords n).bytes = List.replicate n [0x61] := by
  induction n with
  | zero => rfl
  | succ n ih =>
    have hcons : (manyWords (n + 1)).bytes = [0x61] ++ 0x20 :: (manyWords n).bytes := rfl
    have hword : ∀ c ∈ [(0x61 : UInt8)], c ∉ space.bytes := forall_mem_singleton.mpr (by decide)
    rw [hcons, wordsOf_word_append (cons_ne_nil _ _) hword, ih]
    rfl

/-- Below the page: a thousand words of one letter. -/
theorem arguments_leave_page : ¬ ((setupStack true 0 (argumentPage (fun _ => 0) (manyWords 1000) fun _ => 0)
      fun _ => 0).success = false ∨
    ∀ p ∈ (setupStack true 0 (argumentPage (fun _ => 0) (manyWords 1000) fun _ => 0)
      fun _ => 0).stack.written, stackPage ≤ p ∧ p < physBase) := by
  have hwords : wordsOf ((manyWords 1000).bytes.take (pgSize - 1)) = List.replicate 1000 [0x61] := by
    rw [take_of_length_le, wordsOf_manyWords]
    rw [length_manyWords]
    decide
  rw [inside_iff (wordsOf_command (manyWords 1000)) (length_encode_wordsOf_le (manyWords 1000))
    (fun i => argumentPage_eq (fun _ => 0) (manyWords 1000) fun _ => 0), hwords, imageSize,
    length_encode_replicate, length_replicate]
  decide

end Pintos.Arguments
