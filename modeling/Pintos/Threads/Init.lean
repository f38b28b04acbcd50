import Mathlib.Algebra.Group.Int.Defs
import Mathlib.Data.Nat.Count

/-!
# Threads/Init — `read_command_line`

The loader leaves the number of arguments, and 128 bytes with the arguments. `argv` has room for 64
of them, which is enough if each has a character besides its null character; but nothing makes sure
of that, nor that the last argument has its null character.
-/

namespace Pintos.Init

open Function Nat

/-- `LOADER_ARGS_LEN`. -/
def loaderArgsLen : ℕ := 128

/-- `strnlen`, for the string at `p`. -/
def strnlen (m : ℕ → UInt8) : ℕ → ℕ → ℕ
  | _, 0 => 0
  | p, maxlen + 1 => if m p = 0 then 0 else strnlen m (p + 1) maxlen + 1

/-- `argv`, and the indexes that were stored to. Addresses are counted from `LOADER_ARGS` on. -/
structure Argv where
  entry : ℤ → Option ℕ
  stores : List ℤ

def Argv.set (argv : Argv) (i : ℤ) (p : Option ℕ) : Argv :=
  ⟨update argv.entry i p, i :: argv.stores⟩

/-- The loop over the arguments, with `left` turns to go; `none` when it panics. -/
def readLoop (m : ℕ → UInt8) : ℕ → ℕ → ℕ → Argv → Option Argv
  | 0, _, _, argv => some argv
  | left + 1, i, p, argv =>
    if loaderArgsLen ≤ p then none
    else readLoop m left (i + 1) (p + (strnlen m p (loaderArgsLen - p) + 1)) (argv.set i (some p))

/-- `read_command_line`, up to the printing: `none` when it panics. -/
def readCommandLine (m : ℕ → UInt8) (argc : BitVec 32) : Option Argv :=
  (readLoop m argc.toInt.toNat 0 0 ⟨fun _ => none, []⟩).map fun argv => argv.set argc.toInt none

/-- The arguments are strings, one after the other among the 128 bytes, and then comes a null. -/
def Argv.Strings (argv : Argv) (m : ℕ → UInt8) (argc : ℤ) : Prop :=
  argv.entry argc = none ∧ ∃ p : ℕ → ℕ, p 0 = 0 ∧ ∀ i : ℕ, i < argc →
    argv.entry i = some (p i) ∧ p i < p (i + 1) ∧ p (i + 1) ≤ loaderArgsLen ∧
      m (p (i + 1) - 1) = 0 ∧ ∀ a, p i ≤ a → a < p (i + 1) - 1 → m a ≠ 0

/-- What is asked of `read_command_line`, unless it panics. -/
def Sound (m : ℕ → UInt8) (argc : BitVec 32) : Prop :=
  ∀ argv, readCommandLine m argc = some argv →
    (∀ i ∈ argv.stores, 0 ≤ i ∧ i < loaderArgsLen / 2 + 1) ∧ argv.Strings m argc.toInt

/-- The null characters among the first `k` bytes. -/
def nuls (m : ℕ → UInt8) (k : ℕ) : ℕ := Nat.count (fun a => m a = 0) k

/-! ## Where the arguments start -/

section

variable {m : ℕ → UInt8}

lemma strnlen_le (p n : ℕ) : strnlen m p n ≤ n := by
  induction n generalizing p with
  | zero => exact le_refl 0
  | succ n ih =>
    rw [strnlen]
    split
    · exact zero_le _
    · exact succ_le_succ (ih _)

lemma ne_zero_of_strnlen {p n i : ℕ} (h : i < strnlen m p n) : m (p + i) ≠ 0 := by
  induction n generalizing p i with
  | zero => cases h
  | succ n ih =>
    rw [strnlen] at h
    split at h
    · cases h
    next hp =>
      cases i with
      | zero => exact hp
      | succ i =>
        rw [← Nat.add_assoc, Nat.add_right_comm]
        exact ih (Nat.lt_of_succ_lt_succ h)

lemma strnlen_end {p n : ℕ} (h : strnlen m p n < n) : m (p + strnlen m p n) = 0 := by
  induction n generalizing p with
  | zero => cases h
  | succ n ih =>
    rw [strnlen] at h ⊢
    split at h
    next hp => rwa [if_pos hp]
    next hp =>
      rw [if_neg hp, ← Nat.add_assoc, Nat.add_right_comm]
      exact ih (Nat.lt_of_succ_lt_succ h)

/-- Where the `i`-th argument starts. -/
def start (m : ℕ → UInt8) : ℕ → ℕ
  | 0 => 0
  | i + 1 => start m i + (strnlen m (start m i) (loaderArgsLen - start m i) + 1)

lemma start_succ (m : ℕ → UInt8) (j : ℕ) : ∃ n, start m (j + 1) = start m j + n + 1 ∧
    n ≤ loaderArgsLen - start m j ∧ (∀ i < n, m (start m j + i) ≠ 0) ∧
      (n < loaderArgsLen - start m j → m (start m j + n) = 0) :=
  ⟨_, rfl, strnlen_le _ _, fun _ => ne_zero_of_strnlen, strnlen_end⟩

lemma nuls_mono : Monotone (nuls m) := Nat.count_monotone _

lemma nuls_succ (m : ℕ → UInt8) (p : ℕ) : nuls m (p + 1) = nuls m p + if m p = 0 then 1 else 0 :=
  Nat.count_succ _ _

lemma nuls_of_ne {p n : ℕ} (h : ∀ i < n, m (p + i) ≠ 0) : nuls m (p + n) = nuls m p := by
  induction n with
  | zero => rfl
  | succ n ih =>
    rw [← add_assoc, nuls_succ, if_neg (h n n.lt_succ_self), ih fun i hi => h i (lt_succ_of_lt hi)]
    rfl

lemma nuls_start {j : ℕ} (h : start m j ≤ loaderArgsLen) : nuls m (start m j) = j := by
  induction j with
  | zero => exact count_zero _
  | succ j ih =>
    obtain ⟨n, hnext, -, hne, hend⟩ := start_succ m j
    rw [hnext, nuls_succ, if_pos (hend (by omega)), nuls_of_ne hne, ih (by omega)]

lemma start_le_iff {j : ℕ} : start m j ≤ loaderArgsLen ↔ j ≤ nuls m loaderArgsLen := by
  refine ⟨fun h => (nuls_start h).symm.trans_le (nuls_mono h), fun h => ?_⟩
  induction j with
  | zero => exact Nat.zero_le _
  | succ j ih =>
    have hle := ih (Nat.le_of_succ_le h)
    obtain ⟨n, hnext, -, hne, -⟩ := start_succ m j
    by_contra hgt
    -- there is no null character from the start of the argument on
    have hcount := nuls_of_ne fun i (hi : i < loaderArgsLen - start m j) => hne i (by omega)
    rw [Nat.add_sub_cancel' hle, nuls_start hle] at hcount
    omega

lemma start_lt_iff {j : ℕ} : start m j < loaderArgsLen ↔ j ≤ nuls m (loaderArgsLen - 1) := by
  constructor
  · intro h
    rw [← nuls_start h.le]
    exact nuls_mono (le_pred_of_lt h)
  · intro h
    refine lt_of_le_of_ne (start_le_iff.mpr (h.trans (nuls_mono (sub_le _ _)))) fun heq => ?_
    cases j with
    | zero => cases heq
    | succ j =>
      obtain ⟨n, hnext, -, -, hend⟩ := start_succ m j
      have hcount := nuls_start heq.le
      rw [hnext, nuls_succ, if_pos (hend (by omega)), show start m j + n = loaderArgsLen - 1 by omega] at hcount
      omega

/-! ## The loop -/

lemma readLoop_none {left i j : ℕ} (hge : i ≤ j) (hlt : j < i + left) (h : loaderArgsLen ≤ start m j)
    (argv : Argv) : readLoop m left i (start m i) argv = none := by
  induction left generalizing i argv with
  | zero => omega
  | succ left ih =>
    rw [readLoop]
    split_ifs with hpanic
    · rfl
    · have hne : i ≠ j := by
        rintro rfl
        exact hpanic h
      exact ih (by omega) (by omega) _

lemma readLoop_some {left i : ℕ} (h : ∀ j < i + left, start m j < loaderArgsLen) (argv : Argv) :
    ∃ argv', readLoop m left i (start m i) argv = some argv' ∧
      (∀ k : ℕ, i ≤ k → k < i + left → argv'.entry k = some (start m k)) ∧
      (∀ k < (i : ℤ), argv'.entry k = argv.entry k) ∧
      ∀ k, k ∈ argv'.stores ↔ k ∈ argv.stores ∨ (i ≤ k ∧ k < i + left) := by
  induction left generalizing i argv with
  | zero => exact ⟨argv, rfl, fun k _ _ => by omega, fun _ _ => rfl, fun k => (or_iff_left (by omega)).symm⟩
  | succ left ih =>
    obtain ⟨argv', hrun, hentry, hkeep, hstores⟩ := ih (i := i + 1) (fun j hj => h j (by omega))
      (argv.set i (some (start m i)))
    refine ⟨argv', ?_, fun k hk hlt => ?_, fun k hk => ?_, fun k => ?_⟩
    · rwa [readLoop, if_neg (not_le.mpr (h i (by omega)))]
    · obtain rfl | hne := eq_or_ne i k
      · rw [hkeep i (by omega)]
        exact update_self ..
      · exact hentry k (by omega) (by omega)
    · rw [hkeep k (by omega)]
      exact update_of_ne hk.ne ..
    · rw [hstores, Argv.set, List.mem_cons, or_comm (b := k ∈ argv.stores), or_assoc]
      refine or_congr_right ?_
      omega

/-- Unless it panics, as it does for want of null characters. -/
lemma readCommandLine_cases {argc : BitVec 32} {n : ℕ} (hn : argc.toInt = n) :
    (nuls m (loaderArgsLen - 1) + 1 < n ∧ readCommandLine m argc = none) ∨
      n ≤ nuls m (loaderArgsLen - 1) + 1 ∧ ∃ argv, readCommandLine m argc = some argv ∧
        argv.entry n = none ∧ (∀ k < n, argv.entry (k : ℕ) = some (start m k)) ∧
        ∀ k, k ∈ argv.stores ↔ 0 ≤ k ∧ k ≤ n := by
  obtain hlt | hle := lt_or_ge (nuls m (loaderArgsLen - 1) + 1) n
  · have hover := start_lt_iff.not.mpr (not_le.mpr (lt_succ_self (nuls m (loaderArgsLen - 1))))
    refine .inl ⟨hlt, ?_⟩
    exact congrArg _ (readLoop_none (zero_le _) (by omega) (not_lt.mp hover) _)
  · obtain ⟨argv, hrun, hentry, -, hstores⟩ := readLoop_some (i := 0)
      (show ∀ j < 0 + n, start m j < _ from fun j hj => start_lt_iff.mpr (by omega)) ⟨fun _ => none, []⟩
    refine .inr ⟨hle, argv.set n none, ?_, update_self .., fun k hk => ?_, fun k => ?_⟩
    · rw [readCommandLine, hn]
      exact congrArg _ hrun
    · exact (update_of_ne (by omega) ..).trans (hentry k (zero_le k) (by omega))
    · rw [Argv.set, List.mem_cons, hstores]
      simp only [List.not_mem_nil, false_or]
      omega

end

/-- **The kernel command line is read soundly** just if its number of arguments is not negative, and
either `read_command_line` panics or there is room for them and a null character for each. -/
theorem command_line_sound_iff (m : ℕ → UInt8) (argc : BitVec 32) :
    Sound m argc ↔ 0 ≤ argc.toInt ∧ (nuls m 127 + 1 < argc.toInt ∨
      argc.toInt ≤ 64 ∧ argc.toInt ≤ nuls m 128) := by
  have hlen : loaderArgsLen = 128 := rfl
  obtain hneg | hpos := Int.lt_or_le argc.toInt 0
  · -- the loop is not entered, and `argv[argc]` is before the array
    refine iff_of_false (fun h => ?_) fun h => by omega
    have hrun : readCommandLine m argc = some (Argv.set ⟨fun _ => none, []⟩ argc.toInt none) := by
      rw [readCommandLine, Int.toNat_of_nonpos hneg.le]
      rfl
    have := ((h _ hrun).1 _ List.mem_cons_self).1
    omega
  · obtain ⟨n, hn⟩ := Int.eq_ofNat_of_zero_le hpos
    obtain ⟨hlt, hrun⟩ | ⟨hle, argv, hrun, hnull, hentry, hstores⟩ := readCommandLine_cases hn
    · refine iff_of_true (fun argv h => ?_) ⟨hpos, .inl ?_⟩
      · cases hrun.symm.trans h
      · rw [hn]
        exact Int.ofNat_lt.mpr hlt
    · have hle : n ≤ nuls m 127 + 1 := hle
      rw [hn, ← hlen]
      constructor
      · intro h
        obtain ⟨hin, -, p, -, hp⟩ := h argv hrun
        have hroom := (hin n ((hstores n).mpr (by omega))).2
        refine ⟨by omega, .inr ⟨by omega, Int.ofNat_le.mpr ?_⟩⟩
        cases n with
        | zero => exact Nat.zero_le _
        | succ n =>
          obtain ⟨hp, hlt, hend, hz, -⟩ := hp n (by omega)
          have hstart := Option.some.inj ((hentry n n.lt_succ_self).symm.trans hp)
          have hcount := nuls_start (m := m) (j := n) (by omega)
          have hsucc := nuls_succ m (p (n + 1) - 1)
          have hmono := nuls_mono (m := m) (show start m n ≤ p (n + 1) - 1 by omega)
          rw [if_pos hz, Nat.sub_add_cancel (by omega)] at hsucc
          have := nuls_mono (m := m) hend
          omega
      · rintro ⟨-, hor⟩ argv' hrun'
        obtain rfl := Option.some.inj (hrun.symm.trans hrun')
        refine ⟨fun i hi => ?_, hn ▸ hnull, start m, rfl, fun i hi => ?_⟩
        · have := (hstores i).mp hi
          omega
        · have hnext := start_le_iff.mpr (show i + 1 ≤ nuls m loaderArgsLen by omega)
          obtain ⟨k, hstart, -, hne, hend⟩ := start_succ m i
          rw [hstart] at hnext ⊢
          refine ⟨hentry i (by omega), by omega, hnext, hend (by omega), fun a ha hlt => ?_⟩
          obtain ⟨x, rfl⟩ := Nat.exists_eq_add_of_le ha
          exact hne x (by omega)

/-- 66 empty arguments go past the end of `argv`; and one of 128 characters has no null character. -/
theorem command_line_unsound :
    (∃ argv, readCommandLine (fun _ => 0) 66 = some argv ∧ 66 ∈ argv.stores) ∧
      ¬ Sound (fun _ => 0) 66 ∧ ¬ Sound (fun _ => 0x41) 1 := by
  refine ⟨⟨_, rfl, by decide⟩, fun h => ?_, fun h => ?_⟩
  · exact absurd ((h _ rfl).1 66 (by decide)).2 (by decide)
  · obtain ⟨-, -, p, -, hp⟩ := h _ rfl
    have hz : (0x41 : UInt8) = 0 := (hp 0 (by decide)).2.2.2.1
    exact absurd hz (by decide)

end Pintos.Init
