import Inferenced.Client.Tables

/-!
# Sizes in the tables (format.rs:35-53)

A size goes through a floating point number, a unit and two decimals at most;
rounding happens twice and the unit changes on the way up. What is shown still
grows with the size, also where the unit changes, and is off by no more than
half of the last decimal and the conversion.
-/

namespace Inferenced.Client
open Lib Lib.Binary

structure Shown where
  digits : ℕ
  number : ℕ
  unit : ℕ
  name : String

def Shown.text (s : Shown) : String := decimalText s.digits s.number ++ " " ++ s.name

/-- The size that is shown, in hundredths of a byte. -/
def Shown.value (s : Shown) : ℕ := s.number * s.unit * 10 ^ (2 - s.digits)

/-- Decimals, exponent of the unit and its name for a size (format.rs:42-52). -/
def scale (b : ℕ) : ℕ × ℕ × String :=
  if 2 ^ 40 ≤ b then (2, 40, "TB")
  else if 2 ^ 30 ≤ b then (1, 30, "GB")
  else if 2 ^ 20 ≤ b then (0, 20, "MB")
  else if 2 ^ 10 ≤ b then (0, 10, "KB")
  else (0, 0, "B")

def shown (bytes : UInt64) : Shown :=
  let b := asF64 bytes
  let s := scale b
  { digits := s.1, number := divRound (b * 10 ^ s.1) (2 ^ s.2.1), unit := 2 ^ s.2.1, name := s.2.2 }

theorem asF64_of_lt {bytes : UInt64} (h : bytes.toNat < 2 ^ 53) : asF64 bytes = bytes.toNat := by
  have hulp : ulp 53 bytes.toNat = 1 := by
    have hlog : Nat.log2 bytes.toNat + 1 ≤ 53 := by
      by_cases hzero : bytes.toNat = 0
      · rw [hzero]
        decide
      · exact (Nat.log2_lt hzero).mpr h
    rw [ulp, Nat.sub_eq_zero_of_le hlog, Nat.pow_zero]
  have hmul := roundBits_mul (p := 53) (k := bytes.toNat) Nat.one_pos (by rw [hulp]; exact Nat.one_dvd _)
  rw [Nat.mul_one] at hmul
  exact hmul

theorem asF64_mono {a b : UInt64} (h : a ≤ b) : asF64 a ≤ asF64 b :=
  roundBits_mono (by decide) Nat.one_pos (UInt64.le_iff_toNat_le.mp h)

theorem toNat_of_small {bytes : UInt64} (h : asF64 bytes < 2 ^ 10) : asF64 bytes = bytes.toNat := by
  refine asF64_of_lt (Nat.lt_of_not_le fun hle => ?_)
  have hpow : (2 : ℕ) ^ 53 ≤ asF64 bytes := by
    refine two_pow_le_roundBits (e := 53) Nat.one_pos ?_ (by rw [Nat.mul_one]; exact hle)
    have hlt : Nat.log2 (bytes.toNat / 1) < 64 := by
      rw [Nat.div_one]
      exact (Nat.log2_lt (by omega)).mpr bytes.toNat_lt
    omega
  omega

theorem formatBytes_eq_text (bytes : UInt64) : formatBytes bytes = (shown bytes).text := by
  have hname : ∀ t n : String, t ++ (" " ++ n) = t ++ " " ++ n := fun t n => (String.append_assoc ..).symm
  have hsmall : asF64 bytes < 2 ^ 10 → asF64 bytes = bytes.toNat := toNat_of_small
  unfold formatBytes shown scale Shown.text fixed
  simp only [Nat.reduceMul, Nat.reducePow] at hsmall ⊢
  generalize asF64 bytes = b at *
  by_cases htb : 1099511627776 ≤ b
  · simp only [if_pos htb]
    exact hname _ "TB"
  · by_cases hgb : 1073741824 ≤ b
    · simp only [if_neg htb, if_pos hgb]
      exact hname _ "GB"
    · by_cases hmb : 1048576 ≤ b
      · simp only [if_neg htb, if_neg hgb, if_pos hmb]
        exact hname _ "MB"
      · by_cases hkb : 1024 ≤ b
        · simp only [if_neg htb, if_neg hgb, if_neg hmb, if_pos hkb]
          exact hname _ "KB"
        · simp only [if_neg htb, if_neg hgb, if_neg hmb, if_neg hkb]
          rw [Nat.pow_zero, Nat.pow_zero, divRound_mul b Nat.one_pos, decimalText_zero, ← hsmall (by omega)]
          exact hname _ "B"

/-! ### Order -/

/-- The value shown of `n` bytes with this unit and number of decimals. -/
def rounded (digits exponent n : ℕ) : ℕ :=
  divRound (n * 10 ^ digits) (2 ^ exponent) * 2 ^ exponent * 10 ^ (2 - digits)

theorem rounded_mono {digits exponent n m : ℕ} (h : n ≤ m) :
    rounded digits exponent n ≤ rounded digits exponent m :=
  Nat.mul_le_mul_right _ (Nat.mul_le_mul_right _
    (divRound_mono (Nat.two_pow_pos _) (Nat.mul_le_mul_right _ h)))

/-- A power of two that is not below the unit is shown as it is. -/
theorem rounded_two_pow {digits exponent k : ℕ} (hd : digits ≤ 2) (hk : exponent ≤ k) :
    rounded digits exponent (2 ^ k) = 100 * 2 ^ k := by
  obtain ⟨q, hq⟩ := Nat.pow_dvd_pow 2 hk
  have hmul : 2 ^ exponent * q * 10 ^ digits = q * 10 ^ digits * 2 ^ exponent := by ring
  have hpow : 10 ^ digits * 10 ^ (2 - digits) = 100 := by
    rw [← Nat.pow_add, Nat.add_sub_cancel' hd]
  rw [rounded, hq, hmul, divRound_mul _ (Nat.two_pow_pos _)]
  calc q * 10 ^ digits * 2 ^ exponent * 10 ^ (2 - digits)
      = 10 ^ digits * 10 ^ (2 - digits) * (2 ^ exponent * q) := by ring
    _ = 100 * (2 ^ exponent * q) := by rw [hpow]

theorem scale_spec (b : ℕ) :
    (scale b).1 ≤ 2 ∧ ((scale b).2.1 = 0 ∨ 2 ^ (scale b).2.1 ≤ b) := by
  unfold scale
  split
  · exact ⟨Nat.le_refl 2, Or.inr ‹_›⟩
  · split
    · exact ⟨by decide, Or.inr ‹_›⟩
    · split
      · exact ⟨by decide, Or.inr ‹_›⟩
      · split
        · exact ⟨by decide, Or.inr ‹_›⟩
        · exact ⟨by decide, Or.inl rfl⟩

/-- The unit changes at these powers of two only. -/
theorem scale_eq {a b : ℕ} (h : ∀ k ∈ [10, 20, 30, 40], 2 ^ k ≤ a ↔ 2 ^ k ≤ b) : scale a = scale b := by
  simp only [scale, h 10 (by decide), h 20 (by decide), h 30 (by decide), h 40 (by decide)]

def displayed (b : ℕ) : ℕ := rounded (scale b).1 (scale b).2.1 b

theorem displayed_le {b k : ℕ} (h : b < 2 ^ k) : displayed b ≤ 100 * 2 ^ k := by
  obtain ⟨hd, hunit⟩ := scale_spec b
  have hk : (scale b).2.1 ≤ k := by
    rcases hunit with hzero | hle
    · omega
    · exact Nat.le_of_lt ((Nat.pow_lt_pow_iff_right (by decide)).mp (Nat.lt_of_le_of_lt hle h))
  rw [← rounded_two_pow hd hk]
  exact rounded_mono (Nat.le_of_lt h)

theorem le_displayed {b k : ℕ} (h : 2 ^ k ≤ b) : 100 * 2 ^ k ≤ displayed b := by
  obtain ⟨hd, hunit⟩ := scale_spec b
  rcases Nat.le_total (scale b).2.1 k with hk | hk
  · rw [← rounded_two_pow hd hk]
    exact rounded_mono h
  · -- the unit itself is at least as large
    have hle : 2 ^ (scale b).2.1 ≤ b := by
      rcases hunit with hzero | hle
      · rw [hzero] at hk ⊢
        rw [Nat.le_zero] at hk
        rw [hk] at h
        exact h
      · exact hle
    calc 100 * 2 ^ k
        ≤ 100 * 2 ^ (scale b).2.1 := Nat.mul_le_mul_left _ (Nat.pow_le_pow_right (by decide) hk)
      _ = rounded (scale b).1 (scale b).2.1 (2 ^ (scale b).2.1) := (rounded_two_pow hd (Nat.le_refl _)).symm
      _ ≤ displayed b := rounded_mono hle

theorem displayed_mono {a b : ℕ} (h : a ≤ b) : displayed a ≤ displayed b := by
  by_cases hsame : ∀ k ∈ [10, 20, 30, 40], 2 ^ k ≤ a ↔ 2 ^ k ≤ b
  · rw [displayed, displayed, scale_eq hsame]
    exact rounded_mono h
  · -- a threshold lies between them
    simp only [not_forall] at hsame
    obtain ⟨k, -, hk⟩ := hsame
    have hbetween : a < 2 ^ k ∧ 2 ^ k ≤ b := by omega
    exact Nat.le_trans (displayed_le hbetween.1) (le_displayed hbetween.2)

theorem shown_value (bytes : UInt64) : (shown bytes).value = displayed (asF64 bytes) := by
  simp only [shown, Shown.value, displayed, rounded]

/-! ### Error -/

/-- The conversion is off by 1 KB at most. -/
theorem asF64_close (bytes : UInt64) : bytes.toNat ≤ asF64 bytes + 2 ^ 10 ∧ asF64 bytes ≤ bytes.toNat + 2 ^ 10 := by
  have hulp : ulp 53 (bytes.toNat / 1) ≤ 2 ^ 11 := by
    rw [Nat.div_one]
    refine Nat.pow_le_pow_right (by decide) ?_
    by_cases hzero : bytes.toNat = 0
    · rw [hzero]
      decide
    · have hlt := (Nat.log2_lt hzero).mpr bytes.toNat_lt
      omega
  have hlower := le_roundBits 53 bytes.toNat Nat.one_pos
  have hupper := roundBits_le 53 bytes.toNat 1
  rw [← asF64] at hlower hupper
  omega

theorem displayed_close (b : ℕ) :
    2 * (100 * b) ≤ 2 * displayed b + 2 ^ (scale b).2.1 * 10 ^ (2 - (scale b).1) ∧
      2 * displayed b ≤ 2 * (100 * b) + 2 ^ (scale b).2.1 * 10 ^ (2 - (scale b).1) := by
  obtain ⟨hd, -⟩ := scale_spec b
  have hpow : 10 ^ (scale b).1 * 10 ^ (2 - (scale b).1) = 100 := by
    rw [← Nat.pow_add, Nat.add_sub_cancel' hd]
  have hlower := Nat.mul_le_mul_right (10 ^ (2 - (scale b).1))
    (le_divRound (b * 10 ^ (scale b).1) (Nat.two_pow_pos (scale b).2.1))
  have hupper := Nat.mul_le_mul_right (10 ^ (2 - (scale b).1))
    (divRound_le (b * 10 ^ (scale b).1) (2 ^ (scale b).2.1))
  have hbytes : 2 * (b * 10 ^ (scale b).1) * 10 ^ (2 - (scale b).1) = 2 * (100 * b) := by
    rw [← hpow]
    ring
  rw [Nat.add_mul, hbytes, Nat.mul_assoc 2 _ (10 ^ (2 - (scale b).1))] at hlower hupper
  exact ⟨hlower, hupper⟩

/-- Sizes are shown in their order and to the last decimal: of two sizes the
larger one is never shown as the smaller one, also where the unit changes, and
what is shown of a size differs from it by half of the last decimal shown and
1 KB at most. -/
theorem sizes_shown (a b : UInt64) :
    formatBytes a = (shown a).text ∧ formatBytes b = (shown b).text ∧
    (a ≤ b → (shown a).value ≤ (shown b).value) ∧
    2 * (100 * a.toNat) ≤ 2 * (shown a).value + (shown a).unit * 10 ^ (2 - (shown a).digits) + 200 * 1024 ∧
    2 * (shown a).value ≤ 2 * (100 * a.toNat) + (shown a).unit * 10 ^ (2 - (shown a).digits) + 200 * 1024 := by
  have hclose := displayed_close (asF64 a)
  have hconversion := asF64_close a
  refine ⟨formatBytes_eq_text a, formatBytes_eq_text b, fun h => ?_, ?_, ?_⟩
  · rw [shown_value, shown_value]
    exact displayed_mono (asF64_mono h)
  · rw [shown_value]
    simp only [shown]
    omega
  · rw [shown_value]
    simp only [shown]
    omega

end Inferenced.Client
