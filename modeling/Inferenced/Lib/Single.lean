import Inferenced.Lib.Binary
import Mathlib.Data.List.TakeWhile

/-! # Single precision numbers as texts

`f32` by value: a finite number is a multiple of `2 ^ -149`. A text is read as
the nearest number of the format, to the even one of two, and two decimals of a
number are printed as the nearest. Decimals in the hundreds with two digits
behind the point come back unchanged, and compare with whole numbers as they
stand. -/

namespace Inferenced.Lib.Single
open Binary

inductive F32 where
  | nan
  | infinite (negative : Bool)
  /-- `magnitude / 2 ^ 149`, with its sign. -/
  | finite (negative : Bool) (magnitude : ℕ)
  deriving DecidableEq

/-- The number nearest to `n / d`; from `2 ^ 128` on it is infinite. -/
def ofRatio (negative : Bool) (n d : ℕ) : F32 :=
  let magnitude := roundBits 24 (n * 2 ^ 149) d
  if magnitude < 2 ^ 128 * 2 ^ 149 then .finite negative magnitude else .infinite negative

/-- `m * 10 ^ e`. -/
def ofScientific (negative : Bool) (m : ℕ) (e : ℤ) : F32 :=
  if 0 ≤ e then ofRatio negative (m * 10 ^ e.toNat) 1 else ofRatio negative m (10 ^ (-e).toNat)

/-- A sign and what follows it. -/
def splitSign : List Char → Bool × List Char
  | '-' :: text => (true, text)
  | '+' :: text => (false, text)
  | text => (false, text)

/-- The exponent, if there is one, up to the end of the text. -/
def parseExponent : List Char → Option ℤ
  | [] => some 0
  | c :: text =>
    let (negative, digits) := splitSign text
    if c.toLower = 'e' ∧ digits ≠ [] ∧ digits.all Char.isDigit then
      let n := Nat.ofDigitChars 10 digits 0
      some (if negative then -(n : ℤ) else n)
    else none

/-- `str::parse::<f32>`. -/
def parseF32 (text : List Char) : Option F32 :=
  let (negative, body) := splitSign text
  let word := body.map Char.toLower
  if word = "inf".toList ∨ word = "infinity".toList then some (.infinite negative)
  else if word = "nan".toList then some .nan
  else
    let whole := body.takeWhile Char.isDigit
    let (decimals, rest) := match body.dropWhile Char.isDigit with
      | '.' :: text => (text.takeWhile Char.isDigit, text.dropWhile Char.isDigit)
      | text => ([], text)
    if whole = [] ∧ decimals = [] then none
    else (parseExponent rest).map fun e =>
      ofScientific negative (Nat.ofDigitChars 10 (whole ++ decimals) 0) (e - decimals.length)

/-- `x > t` for a whole number `t` of the format. -/
def above : F32 → ℕ → Bool
  | .nan, _ => false
  | .infinite negative, _ => !negative
  | .finite negative magnitude, t => !negative && decide (t * 2 ^ 149 < magnitude)

/-- `{:.2}`. -/
def fixed2 : F32 → String
  | .nan => "NaN"
  | .infinite negative => if negative then "-inf" else "inf"
  | .finite negative magnitude => (if negative then "-" else "") ++ fixed 2 magnitude (2 ^ 149)

/-! ### Hundredths -/

variable {n t : ℕ}

/-- The number nearest to `n` hundredths. -/
def hundredths (n : ℕ) : ℕ := roundBits 24 (n * 2 ^ 149) 100

theorem ulp_hundredths (h : n ≤ 12700) : ulp 24 (n * 2 ^ 149 / 100) ≤ 2 ^ 132 := by
  refine Nat.pow_le_pow_right (by decide) ?_
  by_cases hzero : n * 2 ^ 149 / 100 = 0
  · rw [hzero]
    decide
  · have hlt : n * 2 ^ 149 / 100 < 2 ^ 156 := by
      rw [Nat.div_lt_iff_lt_mul (by decide)]
      omega
    have hlog := (Nat.log2_lt hzero).mpr hlt
    omega

theorem hundredths_close (h : n ≤ 12700) :
    n * 2 ^ 149 ≤ hundredths n * 100 + 50 * 2 ^ 132 ∧ hundredths n * 100 ≤ n * 2 ^ 149 + 50 * 2 ^ 132 := by
  have hulp := ulp_hundredths h
  have hlower := le_roundBits 24 (n * 2 ^ 149) (d := 100) (by decide)
  have hupper := roundBits_le 24 (n * 2 ^ 149) 100
  rw [← hundredths] at hlower hupper
  omega

/-- Whole numbers are exact. -/
theorem hundredths_whole (ht : t ≤ 127) : hundredths (t * 100) = t * 2 ^ 149 := by
  have hmul : t * 100 * 2 ^ 149 = t * 2 ^ 149 * 100 := by ring
  have hlog : Nat.log2 (t * 2 ^ 149) + 1 - 24 ≤ 149 := by
    by_cases hzero : t * 2 ^ 149 = 0
    · rw [hzero]
      decide
    · have hlt := (Nat.log2_lt hzero).mpr (show t * 2 ^ 149 < 2 ^ 156 by omega)
      omega
  rw [hundredths, hmul]
  exact roundBits_mul (by decide) (Nat.dvd_mul_left_of_dvd (Nat.pow_dvd_pow 2 hlog) t)

theorem above_hundredths (h : n ≤ 12700) (ht : t ≤ 127) :
    above (.finite false (hundredths n)) t = decide (100 * t < n) := by
  simp only [above, Bool.not_false, Bool.true_and, decide_eq_decide]
  constructor
  · intro hlt
    by_contra hle
    have hmono : hundredths n ≤ hundredths (t * 100) :=
      roundBits_mono (by decide) (by decide) (Nat.mul_le_mul_right _ (by omega))
    rw [hundredths_whole ht] at hmono
    omega
  · intro hlt
    have hclose := (hundredths_close h).1
    omega

/-- Two decimals are printed as they were read. -/
theorem fixed2_hundredths (h : n ≤ 12700) : fixed2 (.finite false (hundredths n)) = decimalText 2 n := by
  have hclose := hundredths_close h
  have hlower := le_divRound (hundredths n * 100) (Nat.two_pow_pos 149)
  have hupper := divRound_le (hundredths n * 100) (2 ^ 149)
  have hn : divRound (hundredths n * 10 ^ 2) (2 ^ 149) = n := by
    show divRound (hundredths n * 100) (2 ^ 149) = n
    omega
  simp only [fixed2, Bool.false_eq_true, if_false, String.empty_append, fixed, hn]

/-! ### Reading of decimals -/

theorem isDigit_bounds {c : Char} (h : c.isDigit = true) : 48 ≤ c.toNat ∧ c.toNat ≤ 57 := by
  simp only [Char.isDigit, Bool.and_eq_true, decide_eq_true_eq, ge_iff_le, UInt32.le_iff_toNat_le] at h
  exact h

theorem splitSign_of_isDigit {c : Char} (h : c.isDigit = true) (text : List Char) :
    splitSign (c :: text) = (false, c :: text) := by
  unfold splitSign
  split
  · rename_i heq
    cases heq
    exact absurd h (by decide)
  · rename_i heq
    cases heq
    exact absurd h (by decide)
  · rfl

theorem toLower_of_isDigit {c : Char} (h : c.isDigit = true) : c.toLower = c := by
  have hbounds := isDigit_bounds h
  unfold Char.toLower
  split
  · rename_i hupper
    simp only [ge_iff_le, UInt32.le_iff_toNat_le] at hupper
    have hlow : 65 ≤ c.toNat := hupper.1
    omega
  · rfl

/-- A text of digits is none of the words. -/
theorem map_toLower_ne {c first : Char} (h : c.isDigit = true) (hfirst : first.isDigit = false)
    (text rest : List Char) : (c :: text).map Char.toLower ≠ first :: rest := by
  intro heq
  rw [List.map_cons, toLower_of_isDigit h] at heq
  cases heq
  rw [h] at hfirst
  cases hfirst

theorem takeWhile_isDigit {l : List Char} (h : ∀ c ∈ l, c.isDigit = true) :
    l.takeWhile Char.isDigit = l ∧ l.dropWhile Char.isDigit = [] := by
  refine ⟨List.takeWhile_eq_self_iff.mpr h, List.dropWhile_eq_nil_iff.mpr h⟩

theorem ofScientific_hundredths (h : n ≤ 12700) :
    ofScientific false n (0 - (2 : ℕ)) = .finite false (hundredths n) := by
  have hnegative : ¬ (0 : ℤ) ≤ 0 - (2 : ℕ) := by decide
  have hexponent : (-((0 : ℤ) - (2 : ℕ))).toNat = 2 := by decide
  have hlt : hundredths n < 2 ^ 128 * 2 ^ 149 := by
    have hclose := (hundredths_close h).2
    omega
  rw [ofScientific, if_neg hnegative, hexponent, ofRatio]
  simp only [Nat.reducePow, hundredths] at hlt ⊢
  rw [if_pos hlt]

theorem parseF32_decimal (h : n ≤ 12700) :
    parseF32 (decimalChars 2 n) = some (.finite false (hundredths n)) := by
  have hwhole : ∀ c ∈ Nat.toDigits 10 (n / 10 ^ 2), c.isDigit = true :=
    fun c hc => Nat.isDigit_of_mem_toDigits (by decide) (by decide) hc
  obtain ⟨htake, hdrop⟩ := takeWhile_isDigit (fun c (hc : c ∈ fraction 2 n) => isDigit_of_mem_fraction hc)
  have hvalue : Nat.ofDigitChars 10 (Nat.toDigits 10 (n / 10 ^ 2) ++ fraction 2 n) 0 = n :=
    ofDigitChars_decimal (by decide) n
  have hchars : decimalChars 2 n = Nat.toDigits 10 (n / 10 ^ 2) ++ '.' :: fraction 2 n := rfl
  rw [hchars]
  cases hdigits : Nat.toDigits 10 (n / 10 ^ 2) with
  | nil => exact absurd hdigits Nat.toDigits_ne_nil
  | cons c rest =>
    rw [hdigits] at hwhole hvalue
    have hc : c.isDigit = true := hwhole c (List.mem_cons_self ..)
    have htakeWhole : (c :: rest ++ '.' :: fraction 2 n).takeWhile Char.isDigit = c :: rest := by
      rw [List.takeWhile_append_of_pos hwhole, List.takeWhile_cons_of_neg (by decide), List.append_nil]
    have hdropWhole : (c :: rest ++ '.' :: fraction 2 n).dropWhile Char.isDigit = '.' :: fraction 2 n := by
      rw [List.dropWhile_append_of_pos hwhole, List.dropWhile_cons_of_neg (by decide)]
    have hlength : (fraction 2 n).length = 2 := length_fraction (by decide) n
    have hword : ∀ first word, first.isDigit = false →
        (c :: (rest ++ '.' :: fraction 2 n)).map Char.toLower ≠ first :: word :=
      fun first word hfirst => map_toLower_ne hc hfirst _ _
    have hinf : (c :: (rest ++ '.' :: fraction 2 n)).map Char.toLower ≠ "inf".toList :=
      hword 'i' ['n', 'f'] rfl
    have hinfinity : (c :: (rest ++ '.' :: fraction 2 n)).map Char.toLower ≠ "infinity".toList :=
      hword 'i' ['n', 'f', 'i', 'n', 'i', 't', 'y'] rfl
    have hnan : (c :: (rest ++ '.' :: fraction 2 n)).map Char.toLower ≠ "nan".toList :=
      hword 'n' ['a', 'n'] rfl
    simp only [List.cons_append] at htakeWhole hdropWhole hvalue ⊢
    unfold parseF32
    simp only [splitSign_of_isDigit hc]
    rw [if_neg (not_or.mpr ⟨hinf, hinfinity⟩), if_neg hnan]
    simp only [htakeWhole, hdropWhole, htake, hdrop, reduceCtorEq, false_and, if_false, parseExponent,
      Option.map_some, hlength, List.cons_append, hvalue, ofScientific_hundredths h]

end Inferenced.Lib.Single
