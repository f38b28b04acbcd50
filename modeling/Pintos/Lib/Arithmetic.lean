import Mathlib.Tactic.Ring
import Mathlib.Tactic.Linarith

/-!
# Lib/Arithmetic — 64-bit division

The processor divides 64 bits by 32 bits, and traps when the quotient has more than 32. A divisor
below `2 ^ 32` takes two such divisions. A larger one is moved up until its top bit is set, and its
upper half divides half of `n`; what is lost of it is so little that the result is at most one too
many, and one comparison corrects that.

The remainders are computed in 64 bits, but returned through functions of 32.
-/

namespace Pintos.Arithmetic

open BitVec Nat

/-! ## The functions -/

/-- `divl`; `none` is the divide error, for a quotient of more than 32 bits too. -/
def divl (n : BitVec 64) (d : BitVec 32) : Option (BitVec 32) :=
  if d = 0 then none
  else if n.toNat / d.toNat < 2 ^ 32 then some (BitVec.ofNat 32 (n.toNat / d.toNat))
  else none

/-- One of the first four steps of `nlz`: the count, and the number moved up. -/
def nlzStep (bound : BitVec 32) (k : ℕ) (p : ℕ × BitVec 32) : ℕ × BitVec 32 :=
  if p.2 ≤ bound then (p.1 + k, p.2 <<< k) else p

/-- `nlz`: the number of leading zeros, by halves. -/
def nlz (x : BitVec 32) : ℕ :=
  let p := nlzStep 0x0000FFFF 16 (0, x)
  let p := nlzStep 0x00FFFFFF 8 p
  let p := nlzStep 0x0FFFFFFF 4 p
  let p := nlzStep 0x3FFFFFFF 2 p
  if p.2 ≤ 0x7FFFFFFF then p.1 + 1 else p.1

/-- `udiv64`: by digits of 32 bits, or with a quotient digit that may be one too large. -/
def udiv64 (n d : BitVec 64) : Option (BitVec 64) :=
  if d >>> 32 = 0 then do
    let b := 1#64 <<< 32
    let n1 := (n >>> 32).setWidth 32
    let n0 := n.setWidth 32
    let d0 := d.setWidth 32
    let q ← divl (b * (n1 % d0).setWidth 64 + n0.setWidth 64) d0
    return q.setWidth 64 + b * (n1 / d0).setWidth 64
  else if n < d then return 0
  else do
    let d1 := (d >>> 32).setWidth 32
    let s := nlz d1
    let q ← divl (n >>> 1) (((d <<< s) >>> 32).setWidth 32)
    let q := (q >>> (31 - s)).setWidth 64
    return if n - (q - 1) * d < d then q - 1 else q

/-- `umod64`, which returns 32 bits. -/
def umod64 (n d : BitVec 64) : Option (BitVec 32) := do
  let q ← udiv64 n d
  return (n - d * q).setWidth 32

def abs64 (n : BitVec 64) : BitVec 64 := if 0 ≤ n.toInt then n else -n

/-- `sdiv64`. -/
def sdiv64 (n d : BitVec 64) : Option (BitVec 64) := do
  let q ← udiv64 (abs64 n) (abs64 d)
  return if decide (n.toInt < 0) = decide (d.toInt < 0) then q else -q

/-- `smod64`, which returns 32 bits. -/
def smod64 (n d : BitVec 64) : Option (BitVec 32) := do
  let q ← sdiv64 n d
  return (n - d * q).setWidth 32

/-- `__moddi3`: the 32 bits are signed. -/
def moddi3 (n d : BitVec 64) : Option (BitVec 64) := (smod64 n d).map fun r => r.signExtend 64

/-- `__umoddi3`: the 32 bits are unsigned. -/
def umoddi3 (n d : BitVec 64) : Option (BitVec 64) := (umod64 n d).map fun r => r.setWidth 64

/-! ## Leading zeros -/

lemma nlzStep_spec (bound : BitVec 32) (k : ℕ) {x : ℕ} {p : ℕ × BitVec 32} (hk : k ≤ 16)
    (hbound : bound.toNat + 1 = 2 ^ (32 - k)) (hp : p.2.toNat = x * 2 ^ p.1)
    (hle : 2 ^ (32 - 2 * k) ≤ p.2.toNat) :
    (nlzStep bound k p).2.toNat = x * 2 ^ (nlzStep bound k p).1 ∧
      2 ^ (32 - k) ≤ (nlzStep bound k p).2.toNat := by
  have hpow : 2 ^ (32 - k) * 2 ^ k = 2 ^ 32 := by rw [← Nat.pow_add, Nat.sub_add_cancel (by omega)]
  have hpow' : 2 ^ (32 - 2 * k) * 2 ^ k = 2 ^ (32 - k) := by
    rw [← Nat.pow_add]
    congr 1
    omega
  rw [nlzStep]
  split
  · next h =>
    have hlt : p.2.toNat < 2 ^ (32 - k) := by
      have := le_def.mp h
      omega
    have hmoved : (p.2 <<< k).toNat = p.2.toNat * 2 ^ k := by
      rw [toNat_shiftLeft, Nat.shiftLeft_eq, Nat.mod_eq_of_lt]
      rw [← hpow]
      exact Nat.mul_lt_mul_of_pos_right hlt (Nat.two_pow_pos k)
    refine ⟨?_, ?_⟩
    · rw [hmoved, hp, Nat.mul_assoc, ← Nat.pow_add]
    · rw [hmoved, ← hpow']
      exact Nat.mul_le_mul_right _ hle
  · next h =>
    refine ⟨hp, ?_⟩
    have := le_def.not.mp h
    omega

/-- `nlz` says how far a number can be moved up. -/
lemma nlz_spec {x : BitVec 32} (hx : x ≠ 0) :
    2 ^ 31 ≤ x.toNat * 2 ^ nlz x ∧ x.toNat * 2 ^ nlz x < 2 ^ 32 := by
  have hpos : 1 ≤ x.toNat := pos_of_ne_zero fun h => hx (eq_of_toNat_eq h)
  have h₁ := nlzStep_spec 0x0000FFFF 16 (x := x.toNat) (p := (0, x)) (by omega) rfl
    (mul_one _).symm hpos
  have h₂ := nlzStep_spec 0x00FFFFFF 8 (by omega) rfl h₁.1 h₁.2
  have h₃ := nlzStep_spec 0x0FFFFFFF 4 (by omega) rfl h₂.1 h₂.2
  have h₄ := nlzStep_spec 0x3FFFFFFF 2 (by omega) rfl h₃.1 h₃.2
  rw [nlz]
  generalize nlzStep 0x3FFFFFFF 2 (nlzStep 0x0FFFFFFF 4 (nlzStep 0x00FFFFFF 8
    (nlzStep 0x0000FFFF 16 (0, x)))) = p at h₄
  obtain ⟨hp, hle⟩ := h₄
  split
  · next h =>
    have hhalf : p.2.toNat ≤ 2 ^ 31 - 1 := le_def.mp h
    have hmore : x.toNat * 2 ^ (p.1 + 1) = p.2.toNat * 2 := by rw [hp, pow_succ, mul_assoc]
    omega
  · next h =>
    have hhalf : ¬ p.2.toNat ≤ 2 ^ 31 - 1 := le_def.not.mp h
    omega

/-! ## Quotients -/

lemma divl_eq {n : BitVec 64} {d : BitVec 32} (hd : 0 < d.toNat)
    (h : n.toNat / d.toNat < 2 ^ 32) :
    ∃ q, divl n d = some q ∧ q.toNat = n.toNat / d.toNat := by
  have hne : d ≠ 0 := by
    rintro rfl
    exact absurd hd (lt_irrefl 0)
  refine ⟨BitVec.ofNat 32 (n.toNat / d.toNat), ?_, ?_⟩
  · rw [divl, if_neg hne, if_pos h]
  · rw [toNat_ofNat, mod_eq_of_lt h]

lemma div_two_digits (b n₁ n₀ d : ℕ) (hd : 0 < d) :
    (b * (n₁ % d) + n₀) / d + b * (n₁ / d) = (b * n₁ + n₀) / d := by
  have hsplit : b * n₁ + n₀ = b * (n₁ % d) + n₀ + d * (b * (n₁ / d)) := by
    conv_lhs => rw [← mod_add_div n₁ d]
    ring
  rw [hsplit, add_mul_div_left _ _ hd]

lemma div_digit_lt {b n₀ d : ℕ} (n₁ : ℕ) (hn₀ : n₀ < b) (hd : 0 < d) :
    (b * (n₁ % d) + n₀) / d < b := by
  have hrem : n₁ % d + 1 ≤ d := mod_lt _ hd
  refine (div_lt_iff_lt_mul hd).mpr ?_
  calc b * (n₁ % d) + n₀ < b * (n₁ % d) + b := by omega
    _ = b * (n₁ % d + 1) := by ring
    _ ≤ b * d := mul_le_mul_left b hrem

/-- A divisor a little too small gives a quotient at most one too large. -/
lemma div_le_div_add_one {n d e : ℕ} (he : 0 < e) (hed : e ≤ d)
    (h : (n / d + 1) * (d - e) ≤ e) : n / e ≤ n / d + 1 := by
  have hn : n < (n / d + 1) * d := Nat.lt_mul_of_div_lt (Nat.lt_succ_self _) (he.trans_le hed)
  have hlt : n < (n / d + 2) * e := by
    calc n < (n / d + 1) * d := hn
      _ = (n / d + 1) * (e + (d - e)) := by rw [Nat.add_sub_cancel' hed]
      _ = (n / d + 1) * e + (n / d + 1) * (d - e) := by ring
      _ ≤ (n / d + 1) * e + e := Nat.add_le_add_left h _
      _ = (n / d + 2) * e := by ring
  exact Nat.le_of_lt_succ ((Nat.div_lt_iff_lt_mul he).mpr hlt)

lemma correct_quotient {n d q : ℕ} (hd : 0 < d) (hle : n / d ≤ q) (hle' : q ≤ n / d + 1)
    (hq : 0 < q) :
    (q - 1) * d ≤ n ∧ (if n - (q - 1) * d < d then q - 1 else q) = n / d := by
  have hquot : n / d * d ≤ n := Nat.div_mul_le_self n d
  have hlt : n < (n / d + 1) * d := Nat.lt_mul_of_div_lt (Nat.lt_succ_self _) hd
  have hpred : (q - 1) * d ≤ n / d * d := Nat.mul_le_mul_right d (by omega)
  refine ⟨hpred.trans hquot, ?_⟩
  obtain rfl | rfl : q = n / d ∨ q = n / d + 1 := by omega
  · -- what is left after one less is another divisor
    have hone : (n / d - 1) * d + d = n / d * d := by
      rw [← Nat.succ_mul, Nat.succ_eq_add_one, Nat.sub_add_cancel hq]
    rw [if_neg (by omega)]
  · rw [Nat.add_sub_cancel, if_pos]
    rw [Nat.succ_mul] at hlt
    omega

/-- What is lost of the divisor is little enough: the quotient is right, or one too many. -/
lemma div_estimate {n d s : ℕ} (hs : s ≤ 31) (hn : n < 2 ^ 64) (hd : 2 ^ 31 ≤ d / 2 ^ (32 - s)) :
    n / d ≤ n / (d / 2 ^ (32 - s) * 2 ^ (32 - s)) ∧
      n / (d / 2 ^ (32 - s) * 2 ^ (32 - s)) ≤ n / d + 1 := by
  have hkm : 2 ^ (s + 1) * 2 ^ (32 - s) = 2 ^ 33 := by
    rw [← Nat.pow_add]
    congr 1
    omega
  have hsmall : 2 ^ (s + 1) * (2 ^ (32 - s) - 1) ≤ 2 ^ 31 * 2 ^ (32 - s) := by
    obtain rfl | hlt : s = 31 ∨ s ≤ 30 := by omega
    · decide
    · have hk : 2 ^ 2 ≤ 2 ^ (32 - s) := Nat.pow_le_pow_right (Nat.succ_pos 1) (by omega)
      rw [Nat.mul_sub]
      omega
  generalize hk : 2 ^ (32 - s) = k at *
  generalize 2 ^ (s + 1) = m at *
  have hkpos : 0 < k := hk ▸ Nat.two_pow_pos _
  have he : d / k * k ≤ d := Nat.div_mul_le_self d k
  have hele : 2 ^ 31 * k ≤ d / k * k := Nat.mul_le_mul_right k hd
  have hepos : 0 < d / k * k := (Nat.mul_pos (Nat.two_pow_pos 31) hkpos).trans_le hele
  refine ⟨Nat.div_le_div_left he hepos, div_le_div_add_one hepos he ?_⟩
  have hlost : d - d / k * k ≤ k - 1 := by
    have := Nat.mod_lt d hkpos
    have := Nat.div_add_mod' d k
    omega
  have hquot : n / d + 1 ≤ m := by
    refine (Nat.div_lt_iff_lt_mul (hepos.trans_le he)).mpr (hn.trans_le ?_)
    calc 2 ^ 64 = 2 ^ 31 * (m * k) := by rw [hkm, ← Nat.pow_add]
      _ = m * (2 ^ 31 * k) := by ring
      _ ≤ m * d := Nat.mul_le_mul_left m (hele.trans he)
  calc (n / d + 1) * (d - d / k * k) ≤ m * (k - 1) := Nat.mul_le_mul hquot hlost
    _ ≤ 2 ^ 31 * k := hsmall
    _ ≤ d / k * k := hele

section

variable {n d : BitVec 64}

lemma toNat_high (x : BitVec 64) : ((x >>> 32).setWidth 32).toNat = x.toNat / 2 ^ 32 := by
  rw [toNat_setWidth, toNat_ushiftRight, shiftRight_eq_div_pow]
  omega

lemma toNat_low (x : BitVec 64) : (x.setWidth 32).toNat = x.toNat % 2 ^ 32 := toNat_setWidth ..

lemma toNat_widen (x : BitVec 32) : (x.setWidth 64).toNat = x.toNat := by
  rw [toNat_setWidth]
  omega

lemma toNat_base : (1#64 <<< 32).toNat = 2 ^ 32 := rfl

lemma high_eq_zero : d >>> 32 = 0 ↔ d.toNat < 2 ^ 32 := by
  rw [← toNat_inj, toNat_ushiftRight, Nat.shiftRight_eq_div_pow]
  exact Nat.div_eq_zero_iff_lt (Nat.two_pow_pos 32)

lemma udiv64_of_lt (hd : d ≠ 0) (hlt : d.toNat < 2 ^ 32) :
    ∃ q, udiv64 n d = some q ∧ q.toNat = n.toNat / d.toNat := by
  have hpos : 0 < d.toNat := Nat.pos_of_ne_zero fun h => hd (eq_of_toNat_eq h)
  have hn₀ : n.toNat % 2 ^ 32 < 2 ^ 32 := Nat.mod_lt _ (Nat.two_pow_pos 32)
  have hdigit := div_digit_lt (n.toNat / 2 ^ 32) hn₀ hpos
  have hsum := div_two_digits (2 ^ 32) (n.toNat / 2 ^ 32) (n.toNat % 2 ^ 32) d.toNat hpos
  have hd₀ : (d.setWidth 32).toNat = d.toNat := (toNat_low d).trans (Nat.mod_eq_of_lt hlt)
  have hrem : n.toNat / 2 ^ 32 % d.toNat < d.toNat := Nat.mod_lt _ hpos
  have hdividend : (1#64 <<< 32 * ((n >>> 32).setWidth 32 % d.setWidth 32).setWidth 64 +
      (n.setWidth 32).setWidth 64).toNat =
      2 ^ 32 * (n.toNat / 2 ^ 32 % d.toNat) + n.toNat % 2 ^ 32 := by
    rw [toNat_add, toNat_mul, toNat_widen, toNat_widen, toNat_umod, toNat_high, hd₀,
      toNat_low, toNat_base]
    omega
  obtain ⟨q, hq, hval⟩ := divl_eq
    (hd₀ ▸ hpos) (by rwa [hdividend, hd₀])
  refine ⟨q.setWidth 64 + 1#64 <<< 32 * ((n >>> 32).setWidth 32 / d.setWidth 32).setWidth 64, ?_, ?_⟩
  · rw [udiv64, if_pos (high_eq_zero.mpr hlt)]
    dsimp only
    rw [hq]
    rfl
  · rw [hdividend, hd₀] at hval
    have hle : n.toNat / d.toNat < 2 ^ 64 := (Nat.div_le_self _ _).trans_lt n.isLt
    have htop : n.toNat / 2 ^ 32 / d.toNat ≤ n.toNat / 2 ^ 32 := Nat.div_le_self _ _
    rw [toNat_add, toNat_mul, toNat_widen, toNat_widen, toNat_udiv, toNat_high, hd₀,
      hval, toNat_base, Nat.mod_eq_of_lt (a := 2 ^ 32 * _) (by omega), hsum, Nat.div_add_mod,
      Nat.mod_eq_of_lt hle]

lemma toNat_normalised (hd : 2 ^ 32 ≤ d.toNat) {s : ℕ} (hs : s = nlz ((d >>> 32).setWidth 32)) :
    s ≤ 31 ∧ (((d <<< s) >>> 32).setWidth 32).toNat = d.toNat / 2 ^ (32 - s) ∧
      2 ^ 31 ≤ d.toNat / 2 ^ (32 - s) := by
  have hhigh := toNat_high d
  have hone : 1 ≤ d.toNat / 2 ^ 32 := (Nat.one_le_div_iff (Nat.two_pow_pos 32)).mpr hd
  have hne : (d >>> 32).setWidth 32 ≠ 0 := by
    intro h
    rw [h] at hhigh
    exact absurd (hhigh.symm.le) (Nat.not_le.mpr hone)
  obtain ⟨hle, hlt⟩ := nlz_spec hne
  rw [hhigh, ← hs] at hle hlt
  have hs31 : s ≤ 31 := by
    by_contra h
    have hpow : 2 ^ 32 ≤ 2 ^ s := Nat.pow_le_pow_right (Nat.succ_pos 1) (by omega)
    have := Nat.mul_le_mul hone hpow
    omega
  have hsplit : 2 ^ 32 = 2 ^ (32 - s) * 2 ^ s := by rw [← Nat.pow_add, Nat.sub_add_cancel (by omega)]
  have hpos : 0 < 2 ^ s := Nat.two_pow_pos s
  -- moved up, nothing of the divisor is lost
  have htop : d.toNat / 2 ^ 32 < 2 ^ (32 - s) := by
    have hlt' := hlt.trans_eq hsplit
    exact Nat.lt_of_mul_lt_mul_right hlt'
  have hfits : d.toNat * 2 ^ s < 2 ^ 64 := by
    have hd' : d.toNat < 2 ^ (32 - s) * 2 ^ 32 := (Nat.div_lt_iff_lt_mul (Nat.two_pow_pos 32)).mp htop
    calc d.toNat * 2 ^ s < 2 ^ (32 - s) * 2 ^ 32 * 2 ^ s := Nat.mul_lt_mul_of_pos_right hd' hpos
      _ = 2 ^ (32 - s) * 2 ^ s * 2 ^ 32 := by ring
      _ = 2 ^ 64 := by rw [← hsplit, ← Nat.pow_add]
  have hval : d.toNat * 2 ^ s / 2 ^ 32 = d.toNat / 2 ^ (32 - s) := by
    rw [hsplit, Nat.mul_div_mul_right _ _ hpos]
  refine ⟨hs31, ?_, ?_⟩
  · rw [toNat_high, toNat_shiftLeft, Nat.shiftLeft_eq, Nat.mod_eq_of_lt hfits, hval]
  · rw [← hval]
    refine (Nat.le_div_iff_mul_le (Nat.two_pow_pos 32)).mpr ?_
    calc 2 ^ 31 * 2 ^ 32 ≤ d.toNat / 2 ^ 32 * 2 ^ s * 2 ^ 32 := Nat.mul_le_mul_right _ hle
      _ = d.toNat / 2 ^ 32 * 2 ^ 32 * 2 ^ s := by ring
      _ ≤ d.toNat * 2 ^ s := Nat.mul_le_mul_right _ (Nat.div_mul_le_self _ _)

lemma udiv64_of_ge (hd : 2 ^ 32 ≤ d.toNat) :
    ∃ q, udiv64 n d = some q ∧ q.toNat = n.toNat / d.toNat := by
  have hpos : 0 < d.toNat := (Nat.two_pow_pos 32).trans_le hd
  rw [udiv64, if_neg fun h => absurd (high_eq_zero.mp h) (Nat.not_lt.mpr hd)]
  split
  · next h =>
    exact ⟨0, rfl, (Nat.div_eq_of_lt (lt_def.mp h)).symm⟩
  · next h =>
    have hdn : d.toNat ≤ n.toNat := Nat.not_lt.mp fun hlt => h (lt_def.mpr hlt)
    obtain ⟨hs, hv, hle⟩ := toNat_normalised hd rfl
    dsimp only
    generalize nlz ((d >>> 32).setWidth 32) = s at *
    generalize ((d <<< s) >>> 32).setWidth 32 = v at *
    have hhalf : (n >>> 1).toNat = n.toNat / 2 := by
      rw [toNat_ushiftRight, Nat.shiftRight_eq_div_pow]
    have hn := n.isLt
    -- the division does not trap
    have htrap : (n >>> 1).toNat / v.toNat < 2 ^ 32 := by
      refine (Nat.div_lt_iff_lt_mul (by omega)).mpr ?_
      omega
    obtain ⟨q, hq, hval⟩ := divl_eq (by omega) htrap
    have hquot : ((q >>> (31 - s)).setWidth 64).toNat =
        n.toNat / (d.toNat / 2 ^ (32 - s) * 2 ^ (32 - s)) := by
      have hpow : 2 * (v.toNat * 2 ^ (31 - s)) = v.toNat * 2 ^ (32 - s) := by
        have hsucc : 32 - s = 31 - s + 1 := by omega
        rw [hsucc]
        ring
      rw [toNat_widen, toNat_ushiftRight, Nat.shiftRight_eq_div_pow, hval, hhalf,
        Nat.div_div_eq_div_mul, Nat.div_div_eq_div_mul, hpow, hv]
    obtain ⟨hest, hest'⟩ := div_estimate hs hn hle
    rw [← hquot] at hest hest'
    rw [hq]
    simp only [Option.bind_eq_bind, Option.bind_some]
    generalize (q >>> (31 - s)).setWidth 64 = q₀ at *
    have hq₀ : 0 < q₀.toNat := (Nat.div_pos hdn hpos).trans_le hest
    obtain ⟨hback, hcorrect⟩ := correct_quotient hpos hest hest' hq₀
    have hpred : (q₀ - 1).toNat = q₀.toNat - 1 := toNat_sub_of_le (le_def.mpr hq₀)
    have hmul : ((q₀ - 1) * d).toNat = (q₀.toNat - 1) * d.toNat := by
      rw [toNat_mul, hpred, Nat.mod_eq_of_lt (hback.trans_lt hn)]
    have hleft : (n - (q₀ - 1) * d).toNat = n.toNat - (q₀.toNat - 1) * d.toNat := by
      rw [toNat_sub_of_le (le_def.mpr (hmul ▸ hback)), hmul]
    refine ⟨_, rfl, ?_⟩
    simp only [← hcorrect, apply_ite BitVec.toNat, hpred, lt_def, hleft]

/-- The quotient of unsigned numbers. -/
lemma udiv64_eq (n : BitVec 64) (hd : d ≠ 0) : udiv64 n d = some (n / d) := by
  obtain ⟨q, hq, hval⟩ : ∃ q, udiv64 n d = some q ∧ q.toNat = n.toNat / d.toNat := by
    obtain hlt | hge := lt_or_ge d.toNat (2 ^ 32)
    · exact udiv64_of_lt hd hlt
    · exact udiv64_of_ge hge
  rw [hq]
  congr 1
  exact eq_of_toNat_eq (hval.trans toNat_udiv.symm)

lemma abs64_eq (x : BitVec 64) : abs64 x = x.abs := by
  rw [abs64, abs_eq]
  simp only [msb_eq_toInt, decide_eq_true_eq]
  split
  · rw [if_neg (by omega)]
  · rw [if_pos (by omega)]

lemma abs64_ne_zero (hd : d ≠ 0) : abs64 d ≠ 0 := by
  rw [abs64]
  split
  · exact hd
  · exact fun h => hd (neg_eq_zero_iff.mp h)

/-- The quotient of signed numbers. -/
lemma sdiv64_eq (n : BitVec 64) (hd : d ≠ 0) : sdiv64 n d = some (n.sdiv d) := by
  have hn : decide (n.toInt < 0) = n.msb := msb_eq_toInt.symm
  have hd' : decide (d.toInt < 0) = d.msb := msb_eq_toInt.symm
  rw [sdiv64, udiv64_eq _ (abs64_ne_zero hd), hn, hd', abs64_eq, abs64_eq, abs_eq, abs_eq,
    sdiv_eq]
  cases n.msb <;> cases d.msb <;> rfl

lemma sub_mul_sdiv (n d : BitVec 64) : n - d * n.sdiv d = n.srem d := by
  refine eq_of_toInt_eq ?_
  have hrem : n.toInt - d.toInt * n.toInt.tdiv d.toInt = n.toInt.tmod d.toInt := by
    have := Int.mul_tdiv_add_tmod n.toInt d.toInt
    omega
  have hself : ((n.srem d).toInt).bmod (2 ^ 64) = (n.srem d).toInt := toInt_bmod_cancel _
  rw [toInt_sub, toInt_mul, toInt_sdiv, Int.mul_bmod_bmod, Int.sub_bmod_bmod, hrem,
    ← toInt_srem, hself]

end

/-! ## Division -/

/-- **64-bit division is exact and never traps.** -/
theorem division_exact {n d : BitVec 64} (hd : d ≠ 0) :
    (∃ q, udiv64 n d = some q ∧ q.toNat = n.toNat / d.toNat) ∧
      sdiv64 n d = some (BitVec.ofInt 64 (n.toInt.tdiv d.toInt)) := by
  refine ⟨⟨n / d, udiv64_eq n hd, toNat_udiv⟩, ?_⟩
  rw [sdiv64_eq n hd]
  congr 1
  refine eq_of_toInt_eq ?_
  rw [toInt_sdiv, toInt_ofInt]

/-- A division for which the first estimate is one too large. -/
theorem division_exact_corrected : 0x1_0000_0001#64 ≠ 0 ∧
    (∃ q, udiv64 0xFFFF_FFFF_FFFF_FFFE 0x1_0000_0001 = some q ∧ q.toNat = 0xFFFF_FFFE) ∧
      sdiv64 0xFFFF_FFFF_FFFF_FFFE 0x1_0000_0001 = some 0 := by
  have hd : 0x1_0000_0001#64 ≠ 0 := by decide
  obtain ⟨⟨q, hq, hval⟩, hs⟩ := division_exact hd
  exact ⟨hd, ⟨q, hq, hval.trans (by decide)⟩, hs.trans (by decide)⟩

/-! ## Remainders -/

section

variable {n d : BitVec 64}

lemma umoddi3_eq (n : BitVec 64) (hd : d ≠ 0) :
    ∃ r, umoddi3 n d = some r ∧ r.toNat = n.toNat % d.toNat % 2 ^ 32 := by
  have hle : d.toNat * (n.toNat / d.toNat) ≤ n.toNat := mul_div_le _ _
  have hmul : (d * (n / d)).toNat = d.toNat * (n.toNat / d.toNat) := by
    rw [toNat_mul, toNat_udiv, mod_eq_of_lt (hle.trans_lt n.isLt)]
  have hleft : n - d * (n / d) = n % d := by
    refine eq_of_toNat_eq ?_
    rw [toNat_sub_of_le (le_def.mpr (hmul ▸ hle)), hmul, toNat_umod, mod_eq_sub]
  refine ⟨((n % d).setWidth 32).setWidth 64, ?_, ?_⟩
  · rw [umoddi3, umod64, udiv64_eq n hd, ← hleft]
    rfl
  · rw [toNat_widen, toNat_low, toNat_umod]

lemma moddi3_eq (n : BitVec 64) (hd : d ≠ 0) :
    ∃ r, moddi3 n d = some r ∧ r.toInt = (n.toInt.tmod d.toInt).bmod (2 ^ 32) := by
  refine ⟨((n.srem d).setWidth 32).signExtend 64, ?_, ?_⟩
  · rw [moddi3, smod64, sdiv64_eq n hd, ← sub_mul_sdiv]
    rfl
  · rw [toInt_signExtend_of_le (by omega), toInt_setWidth, ← toInt_srem,
      toInt_eq_toNat_bmod (n.srem d), Int.bmod_bmod_of_dvd]
    exact pow_dvd_pow 2 (by omega)

end

lemma bmod_eq_self_iff (x : ℤ) : x.bmod (2 ^ 32) = x ↔ -2 ^ 31 ≤ x ∧ x < 2 ^ 31 := by
  constructor
  · intro h
    have hle := Int.le_bmod (x := x) (m := 2 ^ 32) (by decide)
    have hlt := Int.bmod_lt (x := x) (m := 2 ^ 32) (by decide)
    omega
  · rintro ⟨hle, hlt⟩
    exact Int.bmod_eq_of_le (by omega) (by omega)

/-- **64-bit remainders are exact** just where they fit in 32 bits, unsigned and signed. -/
theorem remainders_exact_iff {n d : BitVec 64} (hd : d ≠ 0) :
    ((∃ r, umoddi3 n d = some r ∧ r.toNat = n.toNat % d.toNat) ↔ n.toNat % d.toNat < 2 ^ 32) ∧
      ((∃ r, moddi3 n d = some r ∧ r.toInt = n.toInt - d.toInt * n.toInt.tdiv d.toInt) ↔
        -2 ^ 31 ≤ n.toInt.tmod d.toInt ∧ n.toInt.tmod d.toInt < 2 ^ 31) := by
  constructor
  · obtain ⟨r, hr, hval⟩ := umoddi3_eq n hd
    rw [hr]
    simp only [Option.some.injEq, exists_eq_left', hval]
    exact ⟨fun h => h ▸ Nat.mod_lt _ (Nat.two_pow_pos 32), Nat.mod_eq_of_lt⟩
  · obtain ⟨r, hr, hval⟩ := moddi3_eq n hd
    have hrem : n.toInt - d.toInt * n.toInt.tdiv d.toInt = n.toInt.tmod d.toInt := by
      have := Int.mul_tdiv_add_tmod n.toInt d.toInt
      omega
    rw [hr, hrem]
    simp only [Option.some.injEq, exists_eq_left', hval]
    exact bmod_eq_self_iff _

/-- Remainders by ten fit. -/
theorem remainders_exact_iff_ten : 10#64 ≠ 0 ∧
    (∃ r, umoddi3 0xFFFF_FFFF_FFFF_FFFF 10 = some r ∧ r.toNat = 5) ∧
      ∃ r, moddi3 0xFFFF_FFFF_FFFF_FFFF 10 = some r ∧ r.toInt = -1 := by
  have hd : 10#64 ≠ 0 := by decide
  obtain ⟨hu, hs⟩ := remainders_exact_iff (n := 0xFFFF_FFFF_FFFF_FFFF) hd
  obtain ⟨r, hr, hval⟩ := hu.mpr (by decide)
  obtain ⟨r', hr', hval'⟩ := hs.mpr (by decide)
  exact ⟨hd, ⟨r, hr, hval.trans (by decide)⟩, r', hr', hval'.trans (by decide)⟩

/-- A remainder of 33 bits is lost: `2 ^ 32` modulo `2 ^ 33` comes out as 0. -/
theorem remainder_lost : ¬ ∀ n d : BitVec 64, d ≠ 0 →
    ((∃ r, umoddi3 n d = some r ∧ r.toNat = n.toNat % d.toNat) ∧
      ∃ r, moddi3 n d = some r ∧ r.toInt = n.toInt - d.toInt * n.toInt.tdiv d.toInt) := by
  intro h
  obtain ⟨⟨r, hr, hval⟩, -⟩ := h 0x1_0000_0000 0x2_0000_0000 (by decide)
  have hzero : umoddi3 0x1_0000_0000 0x2_0000_0000 = some 0 := by decide
  obtain rfl := Option.some.inj (hzero.symm.trans hr)
  exact absurd hval (by decide)

end Pintos.Arithmetic
