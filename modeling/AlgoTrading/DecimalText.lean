import Mathlib.Data.List.TakeWhile
import AlgoTrading.Decimals
/-!
# DecimalText — reading a decimal back from its text

`Decimal(text)` of a string, on the ASCII texts.  `ofText_str`: what `str` prints of a finite decimal reads back as that
decimal, sign, digits and exponent.
-/
namespace Decimals
namespace Decimal

open Decimals.Finite

/-- A sign, if there is one. -/
def splitSign : List Char → Bool × List Char
  | '-' :: l => (true, l)
  | '+' :: l => (false, l)
  | l => (false, l)

/-- What follows the digits: nothing, or an exponent. -/
def exponentOf : List Char → Option ℤ
  | [] => some 0
  | c :: l =>
    if c = 'E' ∨ c = 'e' then
      let digits := (splitSign l).2
      if digits ≠ [] ∧ digits.all Char.isDigit then
        some ((if (splitSign l).1 then -1 else 1) * (Nat.ofDigitChars 10 digits 0 : ℤ))
      else none
    else none

/-- `inf`, `infinity`, and `nan` or `snan` with a payload of digits. -/
def special (negative : Bool) (body : List Char) : Option Decimal :=
  let name := (body.takeWhile fun c => ¬c.isDigit).map Char.toLower
  let payload := body.dropWhile fun c => ¬c.isDigit
  if (name = ['i', 'n', 'f'] ∨ name = ['i', 'n', 'f', 'i', 'n', 'i', 't', 'y']) ∧ payload = [] then some (.infinity negative)
  else if (name = ['n', 'a', 'n'] ∨ name = ['s', 'n', 'a', 'n']) ∧ payload.all Char.isDigit then some .nan
  else none

/-- What follows the integer digits, if a fraction does: its digits, and what follows those. -/
def splitFraction : List Char → List Char × List Char
  | '.' :: l => (l.takeWhile Char.isDigit, l.dropWhile Char.isDigit)
  | l => ([], l)

/-- Digits with a point among them or not, and an exponent. -/
def number (negative : Bool) (body : List Char) : Option Decimal :=
  let integer := body.takeWhile Char.isDigit
  let fraction := (splitFraction (body.dropWhile Char.isDigit)).1
  if integer ++ fraction = [] then none
  else (exponentOf (splitFraction (body.dropWhile Char.isDigit)).2).map fun e =>
    .finite ⟨negative, Nat.ofDigitChars 10 (integer ++ fraction) 0, e - fraction.length⟩

/-- `value.strip().replace("_", "")`. -/
def stripped (text : List Char) : List Char :=
  (((text.dropWhile Char.isWhitespace).reverse.dropWhile Char.isWhitespace).reverse).filter (· ≠ '_')

/-- **`Decimal(text)`**; `none` is `InvalidOperation`. -/
def ofText (text : List Char) : Option Decimal :=
  let s := splitSign (stripped text)
  (special s.1 s.2).or (number s.1 s.2)

/-! ## What is printed reads back -/

/-- What may follow the digits of a number. -/
def Ends (l : List Char) : Prop := ∀ c ∈ l.head?, c.isDigit = false ∧ c ≠ '.'

theorem isDigit_plain {c : Char} (h : c.isDigit = true) : c.isWhitespace = false ∧ c ≠ '_' ∧ c ≠ '-' ∧ c ≠ '+' := by
  have hdigits : ∀ n, n < 58 → 48 ≤ n → (Char.ofNat n).isWhitespace = false ∧ Char.ofNat n ≠ '_' ∧ Char.ofNat n ≠ '-' ∧
      Char.ofNat n ≠ '+' := by decide
  obtain ⟨hlow, hhigh⟩ := Char.isDigit_iff_toNat.1 h
  rw [← Char.ofNat_toNat c]
  exact hdigits c.toNat (Nat.lt_succ_of_le hhigh) hlow

theorem exponentOf_signedText (n : ℤ) : exponentOf ('E' :: signedText n) = some n := by
  have hdigits : Nat.toDigits 10 n.natAbs ≠ [] := List.ne_nil_of_length_pos Nat.length_toDigits_pos
  have hall : (Nat.toDigits 10 n.natAbs).all Char.isDigit = true := List.all_eq_true.2 (allDigits_toDigits _)
  unfold exponentOf signedText
  by_cases hn : n < 0
  · simp only [hn, if_true, splitSign, true_or, hdigits, hall, ne_eq, not_false_eq_true, and_self, Nat.ofDigitChars_ten_toDigits]
    congr 1
    omega
  · simp only [hn, if_false, splitSign, true_or, hdigits, hall, ne_eq, not_false_eq_true, and_self, if_true,
      Nat.ofDigitChars_ten_toDigits]
    congr 1
    simp only [Bool.false_eq_true, if_false]
    omega

/-- **Digits, a point among them or not, and an exponent or none**: how every finite decimal is printed. -/
theorem str_shape (d : Finite) : ∃ integer fraction exponent e, d.str = signText d.negative ++ (integer ++ (pointed fraction ++ exponent)) ∧
    integer ≠ [] ∧ AllDigits (integer ++ fraction) ∧ Nat.ofDigitChars 10 (integer ++ fraction) 0 = d.coefficient ∧
    Ends exponent ∧ (∀ c ∈ exponent, c.isWhitespace = false ∧ c ≠ '_') ∧ exponentOf exponent = some e ∧ e - fraction.length = d.exponent := by
  by_cases hd : d.Plain
  · obtain ⟨integer, fraction, hstr, hne, hdigits, hlength, hvalue⟩ := str_plain hd
    have hexp := hd.1
    refine ⟨integer, fraction, [], 0, by rw [hstr, List.append_nil, List.append_assoc], hne, hdigits, hvalue, ?_, ?_, rfl, by omega⟩
    · intro c hc
      cases hc
    · intro c hc
      cases hc
  · have hdigits := allDigits_toDigits d.coefficient
    have hvalue : Nat.ofDigitChars 10 (Nat.toDigits 10 d.coefficient) 0 = d.coefficient := Nat.ofDigitChars_ten_toDigits
    have hlength : 0 < (Nat.toDigits 10 d.coefficient).length := Nat.length_toDigits_pos
    have hnot : ¬(d.exponent ≤ 0 ∧ -6 < d.exponent + (Nat.toDigits 10 d.coefficient).length) := hd
    have hfar : d.exponent + (Nat.toDigits 10 d.coefficient).length ≠ 1 := fun h1 => hnot ⟨by omega, by omega⟩
    simp only [str, if_neg hnot, if_neg hfar]
    generalize Nat.toDigits 10 d.coefficient = int at *
    obtain ⟨c, cs, rfl⟩ := List.exists_cons_of_length_pos hlength
    refine ⟨[c], cs, 'E' :: signedText (d.exponent + (c :: cs).length - 1), _, ?_, by simp, hdigits, hvalue, ?_, ?_,
      exponentOf_signedText _, ?_⟩
    · rw [if_neg (by decide), List.append_assoc]
      congr 1
      split
      · have hcs : cs = [] := by
          rw [List.length_cons] at *
          exact List.length_eq_zero_iff.1 (by omega)
        subst hcs
        rfl
      · have hcs : cs ≠ [] := by
          rintro rfl
          simp at *
        simp [pointed, hcs]
    · intro b hb
      cases hb
      decide
    · intro b hb
      obtain rfl | hb := List.mem_cons.1 hb
      · decide
      · obtain rfl | hb := List.mem_cons.1 hb
        · split <;> decide
        · exact ⟨(isDigit_plain (allDigits_toDigits _ b hb)).1, (isDigit_plain (allDigits_toDigits _ b hb)).2.1⟩
    · rw [List.length_cons]
      omega

/-- The digits of a text that goes on with something else. -/
theorem span_digits {digits rest : List Char} (hdigits : AllDigits digits) (hrest : ∀ c ∈ rest.head?, c.isDigit = false) :
    (digits ++ rest).takeWhile Char.isDigit = digits ∧ (digits ++ rest).dropWhile Char.isDigit = rest := by
  have htake : rest.takeWhile Char.isDigit = [] := by
    cases rest with
    | nil => rfl
    | cons c rest => rw [List.takeWhile_cons_of_neg (by simpa using hrest c rfl)]
  rw [List.takeWhile_append_of_pos hdigits, List.dropWhile_append_of_pos hdigits, htake, dropWhile_of_head hrest,
    List.append_nil]
  exact ⟨rfl, rfl⟩

theorem splitFraction_pointed {fraction rest : List Char} (hdigits : AllDigits fraction) (hrest : Ends rest) :
    splitFraction (pointed fraction ++ rest) = (fraction, rest) := by
  unfold pointed
  split
  · rename_i hnil
    subst hnil
    cases rest with
    | nil => rfl
    | cons c rest =>
      have hc := (hrest c rfl).2
      unfold splitFraction
      split
      · rename_i heq
        cases heq
        exact absurd rfl hc
      · rfl
  · obtain ⟨htake, hdrop⟩ := span_digits hdigits fun c hc => (hrest c hc).1
    show ((fraction ++ rest).takeWhile Char.isDigit, (fraction ++ rest).dropWhile Char.isDigit) = _
    rw [htake, hdrop]

/-- A printed decimal is what it is after stripping. -/
theorem stripped_str (d : Finite) : stripped d.str = d.str := by
  obtain ⟨integer, fraction, exponent, e, hstr, -, hdigits, -, -, hplain, -, -⟩ := str_shape d
  have hall : ∀ c ∈ d.str, c.isWhitespace = false ∧ c ≠ '_' := by
    intro c hc
    have hdigit (h : c ∈ integer ++ fraction) : c.isWhitespace = false ∧ c ≠ '_' :=
      ⟨(isDigit_plain (hdigits c h)).1, (isDigit_plain (hdigits c h)).2.1⟩
    simp only [hstr, List.mem_append] at hc
    rcases hc with hc | hc | hc | hc
    · unfold signText at hc
      split at hc
      · obtain rfl := List.mem_singleton.1 hc
        decide
      · cases hc
    · exact hdigit (List.mem_append_left _ hc)
    · unfold pointed at hc
      split at hc
      · cases hc
      · obtain rfl | hc := List.mem_cons.1 hc
        · decide
        · exact hdigit (List.mem_append_right _ hc)
    · exact hplain c hc
  unfold stripped
  rw [dropWhile_of_all fun c hc => (hall c hc).1, dropWhile_of_all fun c hc => (hall c (List.mem_reverse.1 hc)).1,
    List.reverse_reverse]
  exact List.filter_eq_self.2 fun c hc => by simpa using (hall c hc).2

/-- **What `str` prints reads back as the decimal it printed.** -/
theorem ofText_str (d : Finite) : ofText d.str = some (.finite d) := by
  obtain ⟨integer, fraction, exponent, e, hstr, hne, hdigits, hvalue, hends, -, hexp, he⟩ := str_shape d
  have hinteger : AllDigits integer := fun c hc => hdigits c (List.mem_append_left _ hc)
  have hfraction : AllDigits fraction := fun c hc => hdigits c (List.mem_append_right _ hc)
  have hsplit : splitSign d.str = (d.negative, integer ++ (pointed fraction ++ exponent)) := by
    rw [hstr]
    obtain ⟨c, cs, rfl⟩ := List.exists_cons_of_ne_nil hne
    obtain ⟨-, -, hminus, hplus⟩ := isDigit_plain (hinteger c List.mem_cons_self)
    cases d.negative
    · simp only [signText, Bool.false_eq_true, if_false, List.nil_append, List.cons_append]
      unfold splitSign
      split
      · rename_i heq
        cases heq
        exact absurd rfl hminus
      · rename_i heq
        cases heq
        exact absurd rfl hplus
      · rfl
    · rfl
  have hrest : ∀ c ∈ (pointed fraction ++ exponent).head?, c.isDigit = false := by
    intro c hc
    unfold pointed at hc
    split at hc
    · exact (hends c hc).1
    · cases hc
      rfl
  have hspan := span_digits hinteger hrest
  unfold ofText
  rw [stripped_str]
  dsimp only
  rw [hsplit]
  have hspecial : special d.negative (integer ++ (pointed fraction ++ exponent)) = none := by
    obtain ⟨c, cs, rfl⟩ := List.exists_cons_of_ne_nil hne
    have hc : c.isDigit = true := hinteger c List.mem_cons_self
    simp [special, hc]
  rw [hspecial, Option.none_or]
  unfold number
  dsimp only
  rw [hspan.1, hspan.2, splitFraction_pointed hfraction hends, if_neg (by simp [hne]), hexp, hvalue, Option.map_some, he]

end Decimal
end Decimals
