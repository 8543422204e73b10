import Mathlib.Algebra.Order.Field.Power
import Mathlib.Tactic.FieldSimp
import Mathlib.Tactic.Linarith
import Mathlib.Tactic.NormNum
import Mathlib.Tactic.Ring
/-!
# Decimals — decimal numbers that keep the digits they were written with

A finite decimal is a sign, a coefficient and an exponent: `0.10` and `0.1` are equal and are not the same value.  What is
compared is the number; what is printed, rounded and stored is the digits.
-/
namespace Decimals

theorem dropWhile_of_head {p : Char → Bool} {l : List Char} (h : ∀ c ∈ l.head?, p c = false) : l.dropWhile p = l := by
  cases l with
  | nil => rfl
  | cons c l => rw [List.dropWhile_cons_of_neg (by simp [h c rfl])]

theorem dropWhile_of_all {p : Char → Bool} {l : List Char} (h : ∀ c ∈ l, p c = false) : l.dropWhile p = l :=
  dropWhile_of_head fun c hc => h c (List.mem_of_mem_head? hc)

/-- A finite decimal, `(-1) ^ sign * coefficient * 10 ^ exponent`. -/
structure Finite where
  negative : Bool
  coefficient : ℕ
  exponent : ℤ
deriving DecidableEq

inductive Decimal
  | finite (d : Finite)
  | infinity (negative : Bool)
  | nan
deriving DecidableEq

/-- The digits a coefficient is printed with: zero has one. -/
def numDigits (c : ℕ) : ℕ := (Nat.toDigits 10 c).length

theorem numDigits_le {c k : ℕ} (hk : 0 < k) (h : c < 10 ^ k) : numDigits c ≤ k :=
  (Nat.length_toDigits_le_iff (by norm_num) hk).2 h

namespace Finite

def value (d : Finite) : ℚ := (if d.negative then -1 else 1) * (d.coefficient * (10 : ℚ) ^ d.exponent)

/-- Divide the trailing zeros out of a coefficient, at most `fuel` of them. -/
def stripZeros : ℕ → ℕ → ℤ → ℕ × ℤ
  | 0, c, e => (c, e)
  | fuel + 1, c, e => if c % 10 = 0 then stripZeros fuel (c / 10) (e + 1) else (c, e)

/-- Round to `p` significant digits, half to even. -/
def roundTo (p : ℕ) (d : Finite) : Finite :=
  let n := numDigits d.coefficient
  if n ≤ p then d
  else
    let k := n - p
    let q := d.coefficient / 10 ^ k
    let r := d.coefficient % 10 ^ k
    let q := if 10 ^ k < 2 * r ∨ (2 * r = 10 ^ k ∧ q % 2 = 1) then q + 1 else q
    if q = 10 ^ p then ⟨d.negative, q / 10, d.exponent + k + 1⟩ else ⟨d.negative, q, d.exponent + k⟩

/-- The digits of a context. -/
def precision : ℕ := 28

/-- `Decimal.normalize`: rounded to the context, and without trailing zeros. -/
def normalize (d : Finite) : Finite :=
  let r := d.roundTo precision
  if r.coefficient = 0 then ⟨r.negative, 0, 0⟩
  else ⟨r.negative, (stripZeros (numDigits r.coefficient) r.coefficient r.exponent).1,
    (stripZeros (numDigits r.coefficient) r.coefficient r.exponent).2⟩

/-- `Decimal.quantize` to an exponent that is not above the decimal's own; `none` where the digits do not fit the context. -/
def rescale (d : Finite) (exponent : ℤ) : Option Finite :=
  let c := d.coefficient * 10 ^ (d.exponent - exponent).toNat
  if numDigits c ≤ precision then some ⟨d.negative, c, exponent⟩ else none

/-- `str(d)` uses no exponent. -/
def Plain (d : Finite) : Prop := d.exponent ≤ 0 ∧ -6 < d.exponent + numDigits d.coefficient

instance (d : Finite) : Decidable d.Plain := inferInstanceAs (Decidable (_ ∧ _))

/-- `%+d`. -/
def signedText (n : ℤ) : List Char := (if n < 0 then '-' else '+') :: Nat.toDigits 10 n.natAbs

def signText (negative : Bool) : List Char := if negative then ['-'] else []

/-- **`Decimal.__str__`**: the point is put into the digits, unless that needs more than six zeros before them or any after
them; then it follows the first digit, and an exponent says where it belongs. -/
def str (d : Finite) : List Char :=
  let int := Nat.toDigits 10 d.coefficient
  let leftDigits : ℤ := d.exponent + int.length
  let dotPlace : ℤ := if d.exponent ≤ 0 ∧ -6 < leftDigits then leftDigits else 1
  let mantissa :=
    if dotPlace ≤ 0 then '0' :: '.' :: (List.replicate (-dotPlace).toNat '0' ++ int)
    else if (int.length : ℤ) ≤ dotPlace then int ++ List.replicate (dotPlace - int.length).toNat '0'
    else int.take dotPlace.toNat ++ '.' :: int.drop dotPlace.toNat
  let exponent := if leftDigits = dotPlace then [] else 'E' :: signedText (leftDigits - dotPlace)
  signText d.negative ++ mantissa ++ exponent

theorem value_eq_of {d d' : Finite} (hs : d.negative = d'.negative)
    (h : (d.coefficient : ℚ) * 10 ^ d.exponent = d'.coefficient * 10 ^ d'.exponent) : d.value = d'.value := by
  rw [value, value, hs, h]

theorem value_pos_iff {d : Finite} : 0 < d.value ↔ d.negative = false ∧ 0 < d.coefficient := by
  have h10 : (0 : ℚ) < 10 ^ d.exponent := by positivity
  unfold value
  cases hs : d.negative
  · simp [h10]
  · have : (0 : ℚ) ≤ d.coefficient * 10 ^ d.exponent := by positivity
    simp only [if_true, Bool.true_eq_false, false_and, iff_false]
    linarith

theorem stripZeros_value : ∀ (fuel c : ℕ) (e : ℤ),
    ((stripZeros fuel c e).1 : ℚ) * 10 ^ (stripZeros fuel c e).2 = c * 10 ^ e
  | 0, _, _ => rfl
  | fuel + 1, c, e => by
    unfold stripZeros
    split
    · next h =>
      have hc : (c : ℚ) = (c / 10 : ℕ) * 10 := by exact_mod_cast (by omega : c = c / 10 * 10)
      rw [stripZeros_value fuel, hc, zpow_add₀ (by norm_num)]
      ring
    · rfl

theorem stripZeros_le : ∀ (fuel c : ℕ) (e : ℤ), (stripZeros fuel c e).1 ≤ c ∧ e ≤ (stripZeros fuel c e).2
  | 0, _, _ => ⟨le_rfl, le_rfl⟩
  | fuel + 1, c, e => by
    unfold stripZeros
    split
    · obtain ⟨hc, he⟩ := stripZeros_le fuel (c / 10) (e + 1)
      exact ⟨by omega, by omega⟩
    · exact ⟨le_rfl, le_rfl⟩

theorem roundTo_eq {d : Finite} {p : ℕ} (h : numDigits d.coefficient ≤ p) : d.roundTo p = d := by
  simp [roundTo, h]

/-- **Normalising keeps the number**, where its digits fit the context. -/
theorem normalize_value {d : Finite} (h : numDigits d.coefficient ≤ precision) : d.normalize.value = d.value := by
  simp only [normalize, roundTo_eq h]
  split
  · next h0 => simp [value, h0]
  · exact value_eq_of rfl (stripZeros_value _ _ _)

/-- Normalising adds no decimals: the exponent does not fall below the decimal's own, or below zero for a zero. -/
theorem le_normalize_exponent {d : Finite} (h : numDigits d.coefficient ≤ precision) :
    min d.exponent 0 ≤ d.normalize.exponent := by
  simp only [normalize, roundTo_eq h]
  split
  · exact min_le_right _ _
  · exact (min_le_left _ _).trans (stripZeros_le _ _ _).2

theorem rescale_value {d d' : Finite} {e : ℤ} (he : e ≤ d.exponent) (h : d.rescale e = some d') :
    d'.value = d.value ∧ d'.exponent = e := by
  simp only [rescale] at h
  split at h
  · cases h
    refine ⟨value_eq_of rfl ?_, rfl⟩
    have hexp : d.exponent = (d.exponent - e).toNat + e := by omega
    conv_rhs => rw [hexp, zpow_add₀ (by norm_num), zpow_natCast]
    push_cast
    ring
  · cases h

/-! ### The text -/

/-- A fraction behind its point, or nothing. -/
def pointed (fraction : List Char) : List Char := if fraction = [] then [] else '.' :: fraction

def AllDigits (l : List Char) : Prop := ∀ c ∈ l, c.isDigit = true

theorem allDigits_toDigits (n : ℕ) : AllDigits (Nat.toDigits 10 n) := fun _ hc =>
  Nat.isDigit_of_mem_toDigits (by norm_num) (by norm_num) hc

/-- **A decimal without an exponent is printed digit for digit**: its coefficient, with the point where its exponent puts
it. -/
theorem str_plain {d : Finite} (h : d.Plain) : ∃ integer fraction, d.str = signText d.negative ++ integer ++ pointed fraction ∧
    integer ≠ [] ∧ AllDigits (integer ++ fraction) ∧ fraction.length = (-d.exponent).toNat ∧
    Nat.ofDigitChars 10 (integer ++ fraction) 0 = d.coefficient := by
  obtain ⟨he, hleft⟩ := h
  have hdigits := allDigits_toDigits d.coefficient
  have hvalue : Nat.ofDigitChars 10 (Nat.toDigits 10 d.coefficient) 0 = d.coefficient := Nat.ofDigitChars_ten_toDigits
  have hlength : 0 < (Nat.toDigits 10 d.coefficient).length := Nat.length_toDigits_pos
  unfold numDigits at hleft
  simp only [str, he, hleft, and_self, if_true]
  generalize Nat.toDigits 10 d.coefficient = int at *
  by_cases h0 : d.exponent + int.length ≤ 0
  · refine ⟨['0'], List.replicate (-(d.exponent + int.length)).toNat '0' ++ int, ?_, by simp, ?_, ?_, ?_⟩
    · have hne : List.replicate (-(d.exponent + int.length)).toNat '0' ++ int ≠ [] := by
        intro h
        rw [List.append_eq_nil_iff] at h
        rw [h.2] at hlength
        cases hlength
      rw [if_pos h0, pointed, if_neg hne]
      simp
    · intro c hc
      rw [List.mem_append, List.mem_append, List.mem_singleton, List.mem_replicate] at hc
      rcases hc with rfl | ⟨-, rfl⟩ | hc
      · decide
      · decide
      · exact hdigits c hc
    · rw [List.length_append, List.length_replicate]
      omega
    · rw [Nat.ofDigitChars_append, Nat.ofDigitChars_append, Nat.ofDigitChars_replicate_zero]
      simpa [Nat.ofDigitChars_cons] using hvalue
  · rw [if_neg h0]
    by_cases h1 : (int.length : ℤ) ≤ d.exponent + int.length
    · refine ⟨int, [], ?_, List.ne_nil_of_length_pos hlength, by simpa using hdigits, by simp; omega, by simpa using hvalue⟩
      have hz : (d.exponent + int.length - int.length).toNat = 0 := by omega
      rw [if_pos h1, hz]
      simp [pointed]
    · refine ⟨int.take (d.exponent + int.length).toNat, int.drop (d.exponent + int.length).toNat, ?_, ?_, ?_, ?_, ?_⟩
      · have hne : int.drop (d.exponent + int.length).toNat ≠ [] := by
          rw [Ne, List.drop_eq_nil_iff]
          omega
        rw [if_neg h1, pointed, if_neg hne]
        simp
      · rw [Ne, List.take_eq_nil_iff, not_or]
        exact ⟨by omega, List.ne_nil_of_length_pos hlength⟩
      · rwa [List.take_append_drop]
      · rw [List.length_drop]
        omega
      · rwa [List.take_append_drop]

/-- **Every other decimal is printed with an exponent.** -/
theorem str_exponent {d : Finite} (h : ¬d.Plain) : 'E' ∈ d.str := by
  have hlength : 0 < (Nat.toDigits 10 d.coefficient).length := Nat.length_toDigits_pos
  have hnot : ¬(d.exponent ≤ 0 ∧ -6 < d.exponent + (Nat.toDigits 10 d.coefficient).length) := h
  simp only [str, if_neg hnot]
  refine List.mem_append_right _ ?_
  rw [if_neg fun h1 => hnot ⟨by omega, by omega⟩]
  exact List.mem_cons_self

end Finite

namespace Decimal

/-- Equality, which no NaN has with anything. -/
def eqv : Decimal → Decimal → Prop
  | .finite d, .finite e => d.value = e.value
  | .infinity s, .infinity t => s = t
  | _, _ => False

/-- `d <= x` for a number `x`; `none` where the comparison raises. -/
def le? (d : Decimal) (x : ℚ) : Option Bool :=
  match d with
  | .finite d => some (decide (d.value ≤ x))
  | .infinity negative => some negative
  | .nan => none

/-- `x <= d`. -/
def ge? (d : Decimal) (x : ℚ) : Option Bool :=
  match d with
  | .finite d => some (decide (x ≤ d.value))
  | .infinity negative => some !negative
  | .nan => none

/-- `d > e`. -/
def gt? : Decimal → Decimal → Option Bool
  | .nan, _ | _, .nan => none
  | .finite d, .finite e => some (decide (e.value < d.value))
  | .infinity s, .infinity t => some (!s && t)
  | .infinity s, .finite _ => some !s
  | .finite _, .infinity t => some t

end Decimal
end Decimals
