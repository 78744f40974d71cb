import Mathlib.Algebra.Order.Ring.Nat
import Mathlib.Data.Nat.Log
import Mathlib.Tactic.Ring

/-! # Binary floating point numbers in fixed point

A nonnegative floating point number is a natural multiple of one fixed unit.
`roundBits p n d` is the quotient `n / d` rounded to `p` binary digits, to the
nearest and to the even one of two: what conversions and divisions of a format
with a `p` bit significand return, as long as they do not overflow. -/

namespace Inferenced.Lib.Binary

variable {n m d p k : ℕ}

/-- The integer nearest to `n / d`, the even one of two. -/
def divRound (n d : ℕ) : ℕ :=
  if 2 * (n % d) < d ∨ (2 * (n % d) = d ∧ n / d % 2 = 0) then n / d else n / d + 1

theorem le_divRound (n : ℕ) (hd : 0 < d) : 2 * n ≤ 2 * (divRound n d * d) + d := by
  have hdiv := Nat.div_add_mod n d
  have hmod := Nat.mod_lt n hd
  rw [Nat.mul_comm d] at hdiv
  unfold divRound
  split
  · omega
  · rw [Nat.add_mul]
    omega

theorem divRound_le (n d : ℕ) : 2 * (divRound n d * d) ≤ 2 * n + d := by
  have hdiv := Nat.div_add_mod n d
  rw [Nat.mul_comm d] at hdiv
  unfold divRound
  split
  · omega
  · rw [Nat.add_mul]
    omega

theorem divRound_mono (hd : 0 < d) (h : n ≤ m) : divRound n d ≤ divRound m d := by
  by_contra hlt
  have hupper := divRound_le n d
  have hlower := le_divRound m hd
  -- a unit apart, so both are halfway and equal
  have hmul : (divRound m d + 1) * d ≤ divRound n d * d := Nat.mul_le_mul_right d (by omega)
  rw [Nat.add_mul] at hmul
  obtain rfl : n = m := by omega
  omega

theorem divRound_mul (k : ℕ) (hd : 0 < d) : divRound (k * d) d = k := by
  rw [divRound, Nat.mul_mod_left, Nat.mul_div_cancel k hd, if_pos (Or.inl (by omega))]

/-! ### Significant digits -/

/-- The distance of two neighbours with `p` digits at `n`. -/
def ulp (p n : ℕ) : ℕ := 2 ^ (Nat.log2 n + 1 - p)

theorem ulp_pos (p n : ℕ) : 0 < ulp p n := Nat.two_pow_pos _

theorem ulp_dvd_two_pow {e : ℕ} (h : Nat.log2 n + 1 ≤ e + p) : ulp p n ∣ 2 ^ e :=
  Nat.pow_dvd_pow 2 (by omega)

def roundBits (p n d : ℕ) : ℕ := divRound n (d * ulp p (n / d)) * ulp p (n / d)

theorem le_roundBits (p n : ℕ) (hd : 0 < d) : 2 * n ≤ 2 * (roundBits p n d * d) + d * ulp p (n / d) := by
  have h := le_divRound n (Nat.mul_pos hd (ulp_pos p (n / d)))
  rw [roundBits, Nat.mul_assoc, Nat.mul_comm (ulp p (n / d))]
  exact h

theorem roundBits_le (p n d : ℕ) : 2 * (roundBits p n d * d) ≤ 2 * n + d * ulp p (n / d) := by
  have h := divRound_le n (d * ulp p (n / d))
  rw [roundBits, Nat.mul_assoc, Nat.mul_comm (ulp p (n / d))]
  exact h

/-- A multiple of the distance is not changed. -/
theorem divRound_ulp {u : ℕ} (hd : 0 < d) (hu : 0 < u) (h : u ∣ k) : divRound (k * d) (d * u) * u = k := by
  obtain ⟨q, rfl⟩ := h
  have hmul : u * q * d = q * (d * u) := by ring
  rw [hmul, divRound_mul q (Nat.mul_pos hd hu), Nat.mul_comm]

theorem roundBits_mul (hd : 0 < d) (h : ulp p k ∣ k) : roundBits p (k * d) d = k := by
  rw [roundBits, Nat.mul_div_cancel k hd]
  exact divRound_ulp hd (ulp_pos p k) h

theorem roundBits_le_two_pow {e : ℕ} (hd : 0 < d) (he : Nat.log2 (n / d) + 1 ≤ e + p)
    (h : n ≤ 2 ^ e * d) : roundBits p n d ≤ 2 ^ e := by
  calc roundBits p n d
      ≤ divRound (2 ^ e * d) (d * ulp p (n / d)) * ulp p (n / d) :=
        Nat.mul_le_mul_right _ (divRound_mono (Nat.mul_pos hd (ulp_pos p _)) h)
    _ = 2 ^ e := divRound_ulp hd (ulp_pos p _) (ulp_dvd_two_pow he)

theorem two_pow_le_roundBits {e : ℕ} (hd : 0 < d) (he : Nat.log2 (n / d) + 1 ≤ e + p)
    (h : 2 ^ e * d ≤ n) : 2 ^ e ≤ roundBits p n d := by
  calc 2 ^ e
      = divRound (2 ^ e * d) (d * ulp p (n / d)) * ulp p (n / d) :=
        (divRound_ulp hd (ulp_pos p _) (ulp_dvd_two_pow he)).symm
    _ ≤ roundBits p n d := Nat.mul_le_mul_right _ (divRound_mono (Nat.mul_pos hd (ulp_pos p _)) h)

theorem roundBits_mono (hp : 0 < p) (hd : 0 < d) (h : n ≤ m) : roundBits p n d ≤ roundBits p m d := by
  have hdiv : n / d ≤ m / d := Nat.div_le_div_right h
  by_cases hlog : Nat.log2 (n / d) = Nat.log2 (m / d)
  · have hulp : ulp p (n / d) = ulp p (m / d) := by rw [ulp, ulp, hlog]
    rw [roundBits, roundBits, hulp]
    exact Nat.mul_le_mul_right _ (divRound_mono (Nat.mul_pos hd (ulp_pos p _)) h)
  · -- a power of two lies between them
    have hne : m / d ≠ 0 := by
      intro hzero
      rw [hzero, Nat.le_zero] at hdiv
      rw [hdiv, hzero] at hlog
      exact hlog rfl
    have hle : Nat.log2 (n / d) ≤ Nat.log2 (m / d) := by
      rw [Nat.log2_eq_log_two, Nat.log2_eq_log_two]
      exact Nat.log_mono_right hdiv
    have hpow : 2 ^ Nat.log2 (m / d) ≤ m / d := Nat.log2_self_le hne
    have hbelow : n / d < 2 ^ Nat.log2 (m / d) := by
      have hlt : Nat.log2 (n / d) < Nat.log2 (m / d) := by omega
      by_cases hzero : n / d = 0
      · rw [hzero]
        exact Nat.two_pow_pos _
      · exact (Nat.log2_lt hzero).mp hlt
    refine Nat.le_trans (roundBits_le_two_pow hd (by omega) ?_)
      (two_pow_le_roundBits hd (by omega) ((Nat.le_div_iff_mul_le hd).mp hpow))
    exact Nat.le_of_lt ((Nat.div_lt_iff_lt_mul hd).mp hbelow)

/-! ### Decimals -/

/-- The decimals of `k / 10 ^ digits`. -/
def fraction (digits k : ℕ) : List Char :=
  let low := Nat.toDigits 10 (k % 10 ^ digits)
  List.replicate (digits - low.length) '0' ++ low

/-- The decimal number `k / 10 ^ digits`. -/
def decimalChars (digits k : ℕ) : List Char :=
  if digits = 0 then Nat.toDigits 10 k
  else Nat.toDigits 10 (k / 10 ^ digits) ++ '.' :: fraction digits k

def decimalText (digits k : ℕ) : String := String.ofList (decimalChars digits k)

/-- `n / d` with this many decimals, rounded to the nearest. -/
def fixed (digits n d : ℕ) : String := decimalText digits (divRound (n * 10 ^ digits) d)

theorem decimalText_zero (k : ℕ) : decimalText 0 k = toString k := Nat.toString_eq_ofList_toDigits.symm

theorem isDigit_of_mem_fraction {digits k : ℕ} {c : Char} (h : c ∈ fraction digits k) : c.isDigit = true := by
  rcases List.mem_append.mp h with hzero | hlow
  · rw [List.eq_of_mem_replicate hzero]
    rfl
  · exact Nat.isDigit_of_mem_toDigits (by decide) (by decide) hlow

theorem mem_decimalChars {digits k : ℕ} {c : Char} (h : c ∈ decimalChars digits k) :
    c.isDigit = true ∨ c = '.' := by
  have hdigits : ∀ {n : ℕ}, c ∈ Nat.toDigits 10 n → c.isDigit = true :=
    fun hc => Nat.isDigit_of_mem_toDigits (by decide) (by decide) hc
  unfold decimalChars at h
  split at h
  · exact Or.inl (hdigits h)
  · rcases List.mem_append.mp h with hwhole | hrest
    · exact Or.inl (hdigits hwhole)
    · rcases List.mem_cons.mp hrest with hpoint | hfraction
      · exact Or.inr hpoint
      · exact Or.inl (isDigit_of_mem_fraction hfraction)

theorem length_fraction {digits : ℕ} (hd : 0 < digits) (k : ℕ) : (fraction digits k).length = digits := by
  have hle : (Nat.toDigits 10 (k % 10 ^ digits)).length ≤ digits :=
    (Nat.length_toDigits_le_iff (by decide) hd).mpr (Nat.mod_lt _ (Nat.pow_pos (by decide)))
  rw [fraction, List.length_append, List.length_replicate]
  omega

/-- The digits before and after the point together are those of `k`. -/
theorem ofDigitChars_decimal {digits : ℕ} (hd : 0 < digits) (k : ℕ) :
    Nat.ofDigitChars 10 (Nat.toDigits 10 (k / 10 ^ digits) ++ fraction digits k) 0 = k := by
  have hlow : Nat.ofDigitChars 10 (fraction digits k) 0 = k % 10 ^ digits := by
    rw [fraction, Nat.ofDigitChars_append, Nat.ofDigitChars_replicate_zero, Nat.mul_zero]
    exact Nat.ofDigitChars_ten_toDigits
  rw [Nat.ofDigitChars_append, Nat.ofDigitChars_ten_toDigits, Nat.ofDigitChars_eq_ofDigitChars_zero,
    length_fraction hd, hlow]
  exact Nat.div_add_mod k (10 ^ digits)

end Inferenced.Lib.Binary
