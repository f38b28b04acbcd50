import Mathlib.Algebra.Group.Nat.Defs
import Mathlib.Data.Nat.Find
import Mathlib.Data.Nat.Size

/-!
# Devices/Timer — `timer_calibrate`

`loops_per_tick` is doubled until twice as many loops would take more than a tick; then its next nine
bits are tried, from the highest on. Each is tried on top of the leading bit alone, and not of the
bits that were accepted before it, so that every bit below an accepted one is accepted as well.
-/

namespace Pintos.Timer

/-- Why `timer_calibrate` does not return. -/
inductive Failure where
  | assertion
  | endless

/-- `ticks`, after so many turns of a loop. Interrupts are on, and it never stops. -/
structure Ticker where
  ticks : ℕ → ℕ
  goesOn : ∀ now, ∃ n, ticks (now + n) ≠ ticks now

variable (c : Ticker)

/-- `while (ticks == start) barrier ()`: when the loop ends. -/
def Ticker.nextTick (now : ℕ) : ℕ := now + Nat.find (c.goesOn now)

/-- `too_many_loops`, and when it returns. -/
def tooManyLoops (loops now : ℕ) : Bool × ℕ :=
  (decide (c.ticks (c.nextTick now) ≠ c.ticks (c.nextTick now + loops)), c.nextTick now + loops)

/-- The loop that doubles `loops_per_tick`. -/
def doubleLoop : ℕ → ℕ → ℕ → Except Failure (ℕ × ℕ)
  | 0, _, _ => .error .endless
  | fuel + 1, loopsPerTick, now =>
    let tried := tooManyLoops c (loopsPerTick * 2 % 2 ^ 32) now
    if tried.1 then .ok (loopsPerTick, tried.2)
    else if loopsPerTick * 2 % 2 ^ 32 = 0 then .error .assertion
    else doubleLoop fuel (loopsPerTick * 2 % 2 ^ 32) tried.2

/-- The loop over the bits below `high_bit`. -/
def refineLoop (highBit : ℕ) : ℕ → ℕ → ℕ → ℕ → Except Failure (ℕ × ℕ)
  | 0, _, _, _ => .error .endless
  | fuel + 1, testBit, loopsPerTick, now =>
    if testBit = highBit / 2 ^ 10 then .ok (loopsPerTick, now)
    else
      let tried := tooManyLoops c (highBit ||| testBit) now
      refineLoop highBit fuel (testBit / 2)
        (if tried.1 then loopsPerTick else loopsPerTick ||| testBit) tried.2

/-- `timer_calibrate`: `loops_per_tick`, and when it returns. -/
def timerCalibrate (now : ℕ) : Except Failure (ℕ × ℕ) :=
  (doubleLoop c 32 (2 ^ 10) now).bind fun r => refineLoop c r.1 32 (r.1 / 2) r.1 r.2

/-- More than `T` loops are too many. -/
def Threshold (T : ℕ) : Prop :=
  ∀ loops < 2 ^ 32, ∀ now, (tooManyLoops c loops now).1 = true ↔ T < loops

/-- `loops_per_tick` does not overshoot, and is right but for the last bits. -/
def Calibrated (T loopsPerTick : ℕ) : Prop :=
  loopsPerTick ≤ T ∧ (T - loopsPerTick) * 2 ^ 8 < 2 ^ loopsPerTick.log2

/-! ## The loops -/

lemma or_eq_add {b i n : ℕ} (hb : b < 2 ^ i) (hn : 2 ^ i ∣ n) : n ||| b = n + b := by
  obtain ⟨a, rfl⟩ := hn
  exact (Nat.two_pow_add_eq_or_of_lt hb a).symm

/-- The leading bit, in units of the lowest bit that is tried. -/
lemma two_pow_add_ten (d : ℕ) : 2 ^ (d + 10) = 2 ^ (d + 1) * 2 ^ 9 := by rw [← Nat.pow_add]

section

variable {c} {T d k q : ℕ} (h : Threshold c T) (hT : T < 2 ^ 31)

include h hT

lemma doubleLoop_eq (hlow : 2 ^ k ≤ T) (hhigh : T < 2 ^ (k + 1)) {fuel i j : ℕ} (hk : i + j = k)
    (hfuel : j < fuel) (now : ℕ) : ∃ now', doubleLoop c fuel (2 ^ i) now = .ok (2 ^ k, now') := by
  induction j generalizing i fuel now with
  | zero =>
    obtain ⟨fuel, rfl⟩ := Nat.exists_eq_add_one_of_ne_zero (Nat.ne_zero_of_lt hfuel)
    obtain rfl : i = k := hk
    exact ⟨_, if_pos ((h _ (by omega) now).mpr (by omega))⟩
  | succ j ih =>
    obtain ⟨fuel, rfl⟩ := Nat.exists_eq_add_one_of_ne_zero (Nat.ne_zero_of_lt hfuel)
    have hle : 2 ^ (i + 1) ≤ 2 ^ k := Nat.pow_le_pow_right Nat.two_pos (by omega)
    have hpos := Nat.two_pow_pos i
    have hmod : 2 ^ i * 2 % 2 ^ 32 = 2 ^ (i + 1) := Nat.mod_eq_of_lt (by omega)
    obtain ⟨now', hrun⟩ := ih (i := i + 1) (by omega) (show j < fuel by omega)
      (tooManyLoops c (2 ^ i * 2 % 2 ^ 32) now).2
    refine ⟨now', ?_⟩
    rw [doubleLoop, if_neg fun hmany => ?_, if_neg (by omega), ← hrun, hmod]
    have := (h _ (by omega) now).mp hmany
    omega

omit hT in
/-- With `j` bits to go, those are accepted that would be alone. -/
lemma refineLoop_eq (hq : T / 2 ^ (d + 1) = 2 ^ 9 + q) {fuel j L : ℕ} (hL : 2 ^ (d + 1 + j) ∣ L)
    (hj : j ≤ 9) (hd : d + 10 < 31) (hfuel : j < fuel) (now : ℕ) :
    ∃ now', refineLoop c (2 ^ (d + 10)) fuel (2 ^ (d + j)) L now =
      .ok (L + 2 ^ (d + 1) * (2 ^ min j q.size - 1), now') := by
  have hend : 2 ^ (d + 10) / 2 ^ 10 = 2 ^ d := by
    rw [Nat.pow_add, Nat.mul_div_cancel _ (Nat.two_pow_pos 10)]
  induction j generalizing fuel L now with
  | zero =>
    obtain ⟨fuel, rfl⟩ := Nat.exists_eq_add_one_of_ne_zero (Nat.ne_zero_of_lt hfuel)
    exact ⟨now, if_pos hend.symm⟩
  | succ j ih =>
    obtain ⟨fuel, rfl⟩ := Nat.exists_eq_add_one_of_ne_zero (Nat.ne_zero_of_lt hfuel)
    have hlt : 2 ^ (d + (j + 1)) < 2 ^ (d + 10) := Nat.pow_lt_pow_right (by decide) (by omega)
    have hle : 2 ^ (d + 10) ≤ 2 ^ 30 := Nat.pow_le_pow_right Nat.two_pos (by omega)
    have hgt : 2 ^ d < 2 ^ (d + (j + 1)) := Nat.pow_lt_pow_right (by decide) (by omega)
    have hhalf : 2 ^ (d + (j + 1)) / 2 = 2 ^ (d + j) := Nat.mul_div_cancel _ Nat.two_pos
    have hbit : 2 ^ (d + (j + 1)) = 2 ^ (d + 1) * 2 ^ j := by
      rw [← Nat.pow_add, Nat.add_right_comm, Nat.add_assoc]
    have htried := or_eq_add hlt (Nat.dvd_refl _)
    have hmany : (tooManyLoops c (2 ^ (d + 10) ||| 2 ^ (d + (j + 1))) now).1 = true ↔ q.size ≤ j := by
      have hsum : 2 ^ (d + 10) + 2 ^ (d + (j + 1)) = (2 ^ 9 + 2 ^ j) * 2 ^ (d + 1) := by
        rw [two_pow_add_ten, hbit, ← Nat.mul_add, Nat.mul_comm]
      rw [h _ (by omega), htried, hsum, ← Nat.div_lt_iff_lt_mul (Nat.two_pow_pos _), hq,
        Nat.add_lt_add_iff_left, Nat.size_le]
    have haccept : L ||| 2 ^ (d + (j + 1)) = L + 2 ^ (d + (j + 1)) :=
      or_eq_add (Nat.pow_lt_pow_right (by decide) (by omega)) hL
    have hdvd : 2 ^ (d + 1 + j) ∣ L := Nat.dvd_trans (Nat.pow_dvd_pow 2 (by omega)) hL
    rw [refineLoop, if_neg (by omega), hhalf]
    dsimp only
    by_cases hsize : q.size ≤ j
    · rw [if_pos (hmany.mpr hsize), min_eq_right (by omega), ← min_eq_right hsize]
      exact ih hdvd (by omega) (by omega) _
    · rw [if_neg (hmany.not.mpr hsize), haccept, min_eq_left (by omega)]
      have hdvd' : 2 ^ (d + 1 + j) ∣ 2 ^ (d + (j + 1)) := Nat.pow_dvd_pow 2 (by omega)
      obtain ⟨now', hrun⟩ := ih (Nat.dvd_add hdvd hdvd') (by omega)
        (show j < fuel by omega) (tooManyLoops c (2 ^ (d + 10) ||| 2 ^ (d + (j + 1))) now).2
      refine ⟨now', hrun.trans ?_⟩
      rw [min_eq_left (by omega), hbit, Nat.add_assoc, ← Nat.mul_add]
      have hpos := Nat.two_pow_pos j
      congr 4
      omega

/-- The bits below the first that is accepted are all accepted. -/
lemma timerCalibrate_eq (hlow : 2 ^ (d + 10) ≤ T) (hhigh : T < 2 ^ (d + 11))
    (hq : T / 2 ^ (d + 1) = 2 ^ 9 + q) (now : ℕ) :
    ∃ now', timerCalibrate c now = .ok (2 ^ (d + 10) + 2 ^ (d + 1) * (2 ^ q.size - 1), now') := by
  have hd : d + 10 < 31 := (Nat.pow_lt_pow_iff_right Nat.one_lt_two).mp (Nat.lt_of_le_of_lt hlow hT)
  have hsize : q.size ≤ 9 := by
    refine Nat.size_le.mpr ?_
    have := Nat.div_lt_of_lt_mul (Nat.pow_add 2 (d + 1) 10 ▸ hhigh)
    omega
  obtain ⟨now₁, hdouble⟩ := doubleLoop_eq h hT hlow hhigh (Nat.add_comm 10 d)
    (show d < 32 by omega) now
  obtain ⟨now₂, hrefine⟩ := refineLoop_eq h hq (j := 9) (L := 2 ^ (d + 10))
    (Nat.pow_dvd_pow 2 (by omega)) (by decide) hd (show 9 < 32 by decide) now₁
  rw [min_eq_right hsize] at hrefine
  refine ⟨now₂, ?_⟩
  rw [timerCalibrate, hdouble, ← hrefine]
  have hhalf : 2 ^ (d + 10) / 2 = 2 ^ (d + 9) := Nat.mul_div_cancel _ Nat.two_pos
  show refineLoop c (2 ^ (d + 10)) 32 (2 ^ (d + 10) / 2) _ _ = _
  rw [hhalf]

end

/-! ## What is left -/

/-- The nine bits behind the leading one. -/
def nextBits (T : ℕ) : ℕ := T / 2 ^ (T.log2 - 9) % 2 ^ 9

lemma exists_bits {T : ℕ} (h : 2 ^ 11 ≤ T) : ∃ d, 2 ^ (d + 10) ≤ T ∧ T < 2 ^ (d + 11) ∧
    T / 2 ^ (d + 1) = 2 ^ 9 + nextBits T := by
  have hne : T ≠ 0 := by omega
  have hlog : 11 ≤ T.log2 := (Nat.le_log2 hne).mpr h
  obtain ⟨d, hd⟩ : ∃ d, T.log2 = d + 10 := ⟨T.log2 - 10, by omega⟩
  obtain ⟨hlow, hhigh⟩ := (Nat.log2_eq_iff hne).mp hd
  refine ⟨d, hlow, hhigh, ?_⟩
  have hge : 2 ^ 9 ≤ T / 2 ^ (d + 1) := by
    rwa [Nat.le_div_iff_mul_le (Nat.two_pow_pos _), ← Nat.pow_add, Nat.add_comm 9]
  have hlt : T / 2 ^ (d + 1) < 2 ^ 10 := Nat.div_lt_of_lt_mul (Nat.pow_add 2 (d + 1) 10 ▸ hhigh)
  rw [nextBits, hd, show d + 10 - 9 = d + 1 by omega]
  omega

/-- All bits below an accepted one must be there. -/
lemma calibrated_iff {T d q : ℕ} (hq : T / 2 ^ (d + 1) = 2 ^ 9 + q) (hlt : q < 2 ^ 9) :
    Calibrated T (2 ^ (d + 10) + 2 ^ (d + 1) * (2 ^ q.size - 1)) ↔ q + 1 = 2 ^ q.size := by
  have hsize : q < 2 ^ q.size := Nat.lt_size_self q
  have hhigh := two_pow_add_ten d
  have hT := hq ▸ Nat.div_add_mod T _
  rw [Nat.mul_add] at hT
  constructor
  · rintro ⟨hle, -⟩
    have hmul : 2 ^ (d + 1) * (2 ^ q.size - 1) < 2 ^ (d + 1) * (q + 1) := by
      rw [Nat.mul_succ]
      omega
    have := Nat.lt_of_mul_lt_mul_left hmul
    omega
  · intro h
    rw [← h, Nat.add_sub_cancel]
    have hlog : (2 ^ (d + 10) + 2 ^ (d + 1) * q).log2 = d + 10 := by
      have hnext : 2 ^ (d + 10 + 1) = 2 ^ (d + 10) * 2 := Nat.pow_succ ..
      have := Nat.mul_lt_mul_of_pos_left hlt (Nat.two_pow_pos (d + 1))
      rw [Nat.log2_eq_iff (by omega)]
      omega
    refine ⟨by omega, ?_⟩
    rw [hlog]
    omega

/-- **Timer calibration overshoots**, unless the nine bits behind the threshold's leading one are
zeros and then ones. -/
theorem timer_calibrated_iff (c : Ticker) (now : ℕ) {T : ℕ} (h : Threshold c T) (hlow : 2 ^ 11 ≤ T)
    (hT : T < 2 ^ 31) :
    (∃ loopsPerTick now', timerCalibrate c now = .ok (loopsPerTick, now') ∧ Calibrated T loopsPerTick) ↔
      ∃ ones, nextBits T + 1 = 2 ^ ones := by
  obtain ⟨d, hlow, hhigh, hq⟩ := exists_bits hlow
  obtain ⟨now', hrun⟩ := timerCalibrate_eq h hT hlow hhigh hq now
  have hiff := calibrated_iff hq (Nat.mod_lt _ (Nat.two_pow_pos 9))
  constructor
  · rintro ⟨loopsPerTick, now'', hrun', hcal⟩
    cases hrun.symm.trans hrun'
    exact ⟨_, hiff.mp hcal⟩
  · rintro ⟨ones, hones⟩
    refine ⟨_, now', hrun, hiff.mpr (Nat.le_antisymm (Nat.lt_size_self _) ?_)⟩
    rw [hones]
    exact Nat.pow_le_pow_right Nat.two_pos (Nat.size_le.mpr (by omega))

/-! ## A clock that ticks regularly -/

/-- A tick comes after every `T + 1` turns. -/
def steady (T : ℕ) : Ticker where
  ticks now := now / (T + 1)
  goesOn now := ⟨T + 1, by rw [Nat.add_div_right _ T.succ_pos]; exact Nat.succ_ne_self _⟩

lemma threshold_steady (T : ℕ) : Threshold (steady T) T := by
  intro loops _ now
  obtain ⟨x, hx⟩ : T + 1 ∣ (steady T).nextTick now := by
    have hfind := Nat.find_spec ((steady T).goesOn now)
    obtain ⟨n, hn⟩ := Nat.exists_eq_add_one_of_ne_zero
      fun hzero : Nat.find ((steady T).goesOn now) = 0 => hfind (by rw [hzero]; rfl)
    have hlast := Nat.find_min ((steady T).goesOn now) (show n < _ by omega)
    rw [hn] at hfind
    rw [Ticker.nextTick, hn]
    by_contra hdvd
    refine hlast fun heq => hfind ?_
    exact (Nat.succ_div_of_not_dvd hdvd).trans heq
  have hstart : (steady T).ticks ((T + 1) * x) = x := Nat.mul_div_cancel_left x T.succ_pos
  have hend : (steady T).ticks ((T + 1) * x + loops) = x + loops / (T + 1) :=
    Nat.mul_add_div T.succ_pos ..
  have hpos : 0 < loops / (T + 1) ↔ T < loops := Nat.div_pos_iff.trans (and_iff_right T.succ_pos)
  rw [tooManyLoops, decide_eq_true_iff, hx, hstart, hend, ← hpos, Nat.pos_iff_ne_zero]
  exact Nat.left_eq_add.not

theorem timer_calibrated_iff_high : ∃ loopsPerTick now',
    timerCalibrate (steady (2 ^ 12 - 1)) 0 = .ok (loopsPerTick, now') ∧
      Calibrated (2 ^ 12 - 1) loopsPerTick :=
  (timer_calibrated_iff _ 0 (threshold_steady _) (by decide) (by decide)).mpr ⟨9, by decide⟩

/-- As ones, the bits of a number are not less, and at most twice as much. -/
lemma lt_two_pow_size (q : ℕ) : q < 2 ^ q.size ∧ 2 ^ q.size ≤ 2 * q + 1 := by
  refine ⟨Nat.lt_size_self q, ?_⟩
  cases hsize : q.size with
  | zero => exact Nat.le_add_left ..
  | succ k =>
    have hle : 2 ^ k ≤ q := Nat.lt_size.mp (hsize ▸ Nat.lt_succ_self k)
    rw [Nat.pow_succ]
    omega

/-- **Timer calibration** is at most one part in 512 too low, and less than a third too high. -/
theorem timer_calibration_error (c : Ticker) (now : ℕ) {T : ℕ} (h : Threshold c T)
    (hlow : 2 ^ 11 ≤ T) (hT : T < 2 ^ 31) :
    ∃ loopsPerTick now', timerCalibrate c now = .ok (loopsPerTick, now') ∧
      512 * T < 513 * loopsPerTick ∧ 3 * loopsPerTick < 4 * T := by
  obtain ⟨d, hle, hlt, hq⟩ := exists_bits hlow
  obtain ⟨now', hrun⟩ := timerCalibrate_eq h hT hle hlt hq now
  obtain ⟨hones, hones'⟩ := lt_two_pow_size (nextBits T)
  have hnine : 2 ^ (nextBits T).size ≤ 2 ^ 9 :=
    Nat.pow_le_pow_right Nat.two_pos (Nat.size_le.mpr (Nat.mod_lt _ (Nat.two_pow_pos 9)))
  have hpos := Nat.two_pow_pos (d + 1)
  refine ⟨_, now', hrun, ?_, ?_⟩ <;> rw [two_pow_add_ten, ← Nat.mul_add]
  · have hsucc : T < 2 ^ (d + 1) * (2 ^ 9 + nextBits T + 1) := hq ▸ Nat.lt_mul_div_succ T hpos
    calc 512 * T < 512 * (2 ^ (d + 1) * (2 ^ 9 + nextBits T + 1)) := by omega
      _ = 2 ^ (d + 1) * (512 * (2 ^ 9 + nextBits T + 1)) := Nat.mul_left_comm ..
      _ ≤ 2 ^ (d + 1) * (513 * (2 ^ 9 + (2 ^ (nextBits T).size - 1))) :=
        Nat.mul_le_mul_left _ (by omega)
      _ = _ := Nat.mul_left_comm ..
  · calc 3 * (2 ^ (d + 1) * (2 ^ 9 + (2 ^ (nextBits T).size - 1)))
        = 2 ^ (d + 1) * (3 * (2 ^ 9 + (2 ^ (nextBits T).size - 1))) := Nat.mul_left_comm ..
      _ < 2 ^ (d + 1) * (4 * (2 ^ 9 + nextBits T)) := Nat.mul_lt_mul_of_pos_left (by omega) hpos
      _ = 4 * (2 ^ (d + 1) * (2 ^ 9 + nextBits T)) := Nat.mul_left_comm ..
      _ ≤ 4 * T := Nat.mul_le_mul_left _ (hq ▸ Nat.mul_div_le T _)

theorem timer_calibration_error_middle : ∃ loopsPerTick now',
    timerCalibrate (steady 2560) 0 = .ok (loopsPerTick, now') ∧
      512 * 2560 < 513 * loopsPerTick ∧ 3 * loopsPerTick < 4 * 2560 :=
  timer_calibration_error _ 0 (threshold_steady _) (by decide) (by decide)

/-- With 2560 loops to a tick, `loops_per_tick` ends up as 3068. -/
theorem timer_overshoots : Threshold (steady 2560) 2560 ∧
    (∃ now', timerCalibrate (steady 2560) 0 = .ok (3068, now')) ∧ ¬ Calibrated 2560 3068 := by
  have h := threshold_steady 2560
  refine ⟨h, ?_, fun hcal => absurd hcal.1 (by decide)⟩
  exact timerCalibrate_eq (d := 1) (q := 128) h (by decide) (by decide) (by decide) (by decide) 0

end Pintos.Timer
