import Mathlib.Algebra.Order.Floor.Ring
import Mathlib.Algebra.Order.Floor.Semifield
import Mathlib.Data.Rat.Floor
import Mathlib.Data.Sign.Defs
import AlgoTrading.Decimals
/-!
# Money — decimals as the dashboard shows them

`parse` and the formatters of the web client's `money.ts`, over the text the server sends for a decimal, `str(d)`.  The
formatters never leave the digits: they split at the point, group, pad and cut.  What they show is the decimal truncated to
the places asked for, with its sign, for every decimal the server prints without an exponent, and the placeholder for every
other one (`rendered_iff`).
-/
namespace Atp
namespace Money

open Decimals (Finite)
open Decimals.Finite (AllDigits pointed signText)

/-! ## The client -/

/-- `UNKNOWN`. -/
def unknown : List Char := ['—']

structure Parts where
  negative : Bool
  integer : List Char
  fraction : List Char
deriving DecidableEq

/-- White space and line ends, as `String.prototype.trim` knows them. -/
def isSpace (c : Char) : Bool :=
  [0x9, 0xA, 0xB, 0xC, 0xD, 0x20, 0xA0, 0x1680, 0x2028, 0x2029, 0x202F, 0x205F, 0x3000, 0xFEFF].contains c.toNat ||
    decide (0x2000 ≤ c.toNat ∧ c.toNat ≤ 0x200A)

def trim (l : List Char) : List Char := ((l.dropWhile isSpace).reverse.dropWhile isSpace).reverse

/-- `\\d+`, the whole of it. -/
def digits (l : List Char) : Bool := !l.isEmpty && l.all Char.isDigit

/-- **`parse`**: `/^-?\\d+(\\.\\d+)?$/`, split at its point. -/
def parse (value : List Char) : Option Parts :=
  let trimmed := trim value
  let negative := trimmed.head? == some '-'
  let unsigned := if negative then trimmed.tail else trimmed
  let integer := unsigned.takeWhile (· != '.')
  match unsigned.dropWhile (· != '.') with
  | [] => if digits integer then some ⟨negative, integer, []⟩ else none
  | _ :: fraction => if digits integer && digits fraction then some ⟨negative, integer, fraction⟩ else none

/-- `group`: a comma before every digit that has a positive multiple of three after and with it. -/
def group : List Char → List Char
  | [] => []
  | c :: l => if l ≠ [] ∧ l.length % 3 = 0 then c :: ',' :: group l else c :: group l

/-- `fixFraction`. -/
def fixFraction (fraction : List Char) (places : ℕ) : List Char :=
  if places = 0 then []
  else fraction.take places ++ List.replicate (places - (fraction.take places).length) '0'

def Parts.isZero (p : Parts) : Bool := p.integer.all (· == '0') && p.fraction.all (· == '0')

/-- `FormatOptions`. -/
structure FormatOptions where
  places : Option ℕ := none
  signed : Bool := false

/-- **`formatDecimal`**. -/
def formatDecimal (value : Option (List Char)) (options : FormatOptions) : List Char :=
  match value.bind parse with
  | none => unknown
  | some parts =>
    let fraction := match options.places with
      | none => parts.fraction
      | some places => fixFraction parts.fraction places
    let body := group parts.integer ++ pointed fraction
    if parts.negative then '-' :: body
    else if options.signed && !parts.isZero then '+' :: body else body

/-- `formatMoney`: two places, unless the options say otherwise. -/
def formatMoney (value : Option (List Char)) (options : FormatOptions) : List Char :=
  formatDecimal value { options with places := some (options.places.getD 2) }

/-- `integer.replace(/^0+(?=\\d)/, '')`: leading zeros, but not the last digit. -/
def stripLeading : List Char → List Char
  | '0' :: c :: l => stripLeading (c :: l)
  | l => l

/-- `shiftPointRight`. -/
def shiftPointRight (parts : Parts) (by_ : ℕ) : List Char :=
  let all := parts.integer ++ parts.fraction
  let pointAt := parts.integer.length + by_
  let padded := all ++ List.replicate (pointAt - all.length) '0'
  signText parts.negative ++ stripLeading (padded.take pointAt) ++ pointed (padded.drop pointAt)

/-- **`formatPercent`**. -/
def formatPercent (value : Option (List Char)) (options : FormatOptions) : List Char :=
  match value.bind parse with
  | none => unknown
  | some parts =>
    let rendered := formatDecimal (some (shiftPointRight parts 2)) { options with places := some (options.places.getD 2) }
    if rendered = unknown then unknown else rendered ++ ['%']

/-- **`signOf`**. -/
def signOf (value : Option (List Char)) : ℤ :=
  match value.bind parse with
  | none => 0
  | some parts => if parts.isZero then 0 else if parts.negative then -1 else 1

/-! ## What a text shows -/

/-- A text that shows the number `n / 10 ^ places` behind a sign: digits, grouped before the point. -/
def Shows (text sign : List Char) (places n : ℕ) : Prop :=
  ∃ integer fraction, integer ≠ [] ∧ AllDigits (integer ++ fraction) ∧ fraction.length = places ∧
    Nat.ofDigitChars 10 (integer ++ fraction) 0 = n ∧ text = sign ++ group integer ++ pointed fraction

/-- The sign shown before a decimal. -/
def shownSign (d : Finite) (signed : Bool) : List Char :=
  if d.negative then ['-'] else if signed && d.coefficient != 0 then ['+'] else []

/-- A magnitude cut to so many places, in units of the last one. -/
def cut (x : ℚ) (places : ℕ) : ℕ := ⌊|x| * 10 ^ places⌋₊

theorem group_cons (c : Char) (l : List Char) : ∃ rest, group (c :: l) = c :: rest := by
  unfold group
  split <;> exact ⟨_, rfl⟩

/-- Grouping adds commas and nothing else. -/
theorem group_digits : ∀ {l : List Char}, AllDigits l → (group l).filter (· != ',') = l
  | [], _ => rfl
  | c :: l, h => by
    have hc : (c != ',') = true := by
      rw [bne_iff_ne]
      rintro rfl
      exact absurd (h ',' List.mem_cons_self) (by decide)
    have ih := group_digits fun d hd => h d (List.mem_cons_of_mem _ hd)
    unfold group
    split
    · simp only [List.filter_cons, hc, if_true, bne_self_eq_false, Bool.false_eq_true, if_false, ih]
    · simp only [List.filter_cons, hc, if_true, ih]

/-- A number that is shown is not the placeholder. -/
theorem Shows.known {text : List Char} {d : Finite} {signed : Bool} {places n : ℕ}
    (h : Shows text (shownSign d signed) places n) : text ≠ unknown := by
  obtain ⟨integer, fraction, hne, hdigits, -, -, rfl⟩ := h
  obtain ⟨c, l, rfl⟩ := List.exists_cons_of_ne_nil hne
  obtain ⟨rest, hrest⟩ := group_cons c l
  have hc := hdigits c (by simp)
  rw [hrest, shownSign, unknown]
  split
  · simp
  · split
    · simp
    · rintro heq
      simp only [List.nil_append, List.cons_append, List.cons.injEq] at heq
      rw [heq.1] at hc
      exact absurd hc (by decide)

/-- The dashboard shows the decimal the server printed. -/
structure Rendered (d : Finite) : Prop where
  asSent : ∀ signed, Shows (formatDecimal (some d.str) ⟨none, signed⟩) (shownSign d signed) (-d.exponent).toNat d.coefficient
  decimal : ∀ places signed, Shows (formatDecimal (some d.str) ⟨some places, signed⟩) (shownSign d signed) places
    (cut d.value places)
  money : ∀ options : FormatOptions, Shows (formatMoney (some d.str) options) (shownSign d options.signed)
    (options.places.getD 2) (cut d.value (options.places.getD 2))
  percent : ∀ options : FormatOptions, ∃ text, formatPercent (some d.str) options = text ++ ['%'] ∧
    Shows text (shownSign d options.signed) (options.places.getD 2) (cut (d.value * 100) (options.places.getD 2))
  sign : signOf (some d.str) = SignType.sign d.value

/-! ## Digits -/

theorem digit_ne {c d : Char} (h : c.isDigit = true) (hd : d.isDigit = false) : c ≠ d := by
  rintro rfl
  simp [h] at hd

theorem AllDigits.append {l m : List Char} : AllDigits (l ++ m) ↔ AllDigits l ∧ AllDigits m := List.forall_mem_append

theorem allDigits_zeros (n : ℕ) : AllDigits (List.replicate n '0') := fun c hc => by
  rw [(List.mem_replicate.1 hc).2]
  decide

/-- A digit is worth less than ten. -/
theorem digit_lt {c : Char} (h : c.isDigit = true) : c.toNat - '0'.toNat < 10 := by
  simp only [Char.isDigit, Bool.and_eq_true, decide_eq_true_eq] at h
  have h9 : c.toNat ≤ 57 := h.2
  have h0 : '0'.toNat = 48 := by decide
  omega

theorem ofDigitChars_lt {l : List Char} (h : AllDigits l) : Nat.ofDigitChars 10 l 0 < 10 ^ l.length := by
  induction l with
  | nil => simp
  | cons c l ih =>
    have hc := digit_lt (h c List.mem_cons_self)
    have hl := ih fun d hd => h d (List.mem_cons_of_mem _ hd)
    rw [Nat.ofDigitChars_cons, Nat.ofDigitChars_eq_ofDigitChars_zero, List.length_cons, pow_succ]
    calc 10 ^ l.length * (10 * 0 + (c.toNat - '0'.toNat)) + Nat.ofDigitChars 10 l 0
        < 10 ^ l.length * (10 * 0 + (c.toNat - '0'.toNat)) + 10 ^ l.length := by omega
      _ = 10 ^ l.length * (c.toNat - '0'.toNat + 1) := by ring
      _ ≤ 10 ^ l.length * 10 := Nat.mul_le_mul_left _ (by omega)

/-- Digits cut off the end of a number divide it. -/
theorem ofDigitChars_take {l : List Char} (h : AllDigits l) (k : ℕ) :
    Nat.ofDigitChars 10 (l.take k) 0 = Nat.ofDigitChars 10 l 0 / 10 ^ (l.length - k) := by
  have hrest : AllDigits (l.drop k) := fun c hc => h c (List.mem_of_mem_drop hc)
  have hlt := ofDigitChars_lt hrest
  have hsplit : Nat.ofDigitChars 10 l 0 =
      10 ^ (l.length - k) * Nat.ofDigitChars 10 (l.take k) 0 + Nat.ofDigitChars 10 (l.drop k) 0 := by
    rw [← List.length_drop, ← Nat.ofDigitChars_eq_ofDigitChars_zero, ← Nat.ofDigitChars_append, List.take_append_drop]
  rw [List.length_drop] at hlt
  rw [hsplit, Nat.mul_add_div (by positivity), Nat.div_eq_of_lt hlt, Nat.add_zero]

theorem ofDigitChars_zeros (l : List Char) (n : ℕ) :
    Nat.ofDigitChars 10 (l ++ List.replicate n '0') 0 = Nat.ofDigitChars 10 l 0 * 10 ^ n := by
  rw [Nat.ofDigitChars_append, Nat.ofDigitChars_replicate_zero, Nat.mul_comm]

theorem ofDigitChars_eq_zero {l : List Char} (h : AllDigits l) :
    Nat.ofDigitChars 10 l 0 = 0 ↔ l.all (· == '0') = true := by
  induction l with
  | nil => simp
  | cons c l ih =>
    have hc := h c List.mem_cons_self
    have hzero : c.toNat - '0'.toNat = 0 ↔ c = '0' := by
      simp only [Char.isDigit, Bool.and_eq_true, decide_eq_true_eq] at hc
      have h0 : 48 ≤ c.toNat := hc.1
      have h48 : '0'.toNat = 48 := by decide
      rw [← Char.toNat_inj]
      omega
    rw [Nat.ofDigitChars_cons, Nat.ofDigitChars_eq_ofDigitChars_zero, List.all_cons, Bool.and_eq_true, beq_iff_eq,
      ← ih fun d hd => h d (List.mem_cons_of_mem _ hd), ← hzero]
    simp

/-! ## Parsing what is printed -/

theorem isSpace_digit {c : Char} (h : c.isDigit = true) : isSpace c = false := by
  simp only [Char.isDigit, Bool.and_eq_true, decide_eq_true_eq] at h
  have h0 : 48 ≤ c.toNat := h.1
  have h9 : c.toNat ≤ 57 := h.2
  simp only [isSpace, List.contains_cons, List.contains_nil, Bool.or_eq_false_iff, beq_eq_false_iff_ne,
    decide_eq_false_iff_not, and_true]
  omega

theorem trim_of_all {l : List Char} (h : ∀ c ∈ l, isSpace c = false) : trim l = l := by
  rw [trim, Decimals.dropWhile_of_all h, Decimals.dropWhile_of_all (by simpa using h), List.reverse_reverse]

theorem mem_trim {l : List Char} {c : Char} (h : c ∈ l) (hc : isSpace c = false) : c ∈ trim l := by
  have hdrop : ∀ l : List Char, c ∈ l → c ∈ l.dropWhile isSpace := by
    intro l h
    have hsplit := List.takeWhile_append_dropWhile (p := isSpace) (l := l)
    rw [← hsplit, List.mem_append] at h
    refine h.resolve_left fun ht => ?_
    have := List.all_eq_true.1 List.all_takeWhile c ht
    rw [hc] at this
    cases this
  exact List.mem_reverse.2 (hdrop _ (List.mem_reverse.2 (hdrop l h)))

theorem digits_of_all {l : List Char} (hne : l ≠ []) (h : AllDigits l) : digits l = true := by
  rw [digits, Bool.and_eq_true, List.all_eq_true]
  exact ⟨by simpa using hne, h⟩

/-- **What is printed without an exponent is parsed into its digits.** -/
theorem parse_text {negative : Bool} {integer fraction : List Char} (hne : integer ≠ [])
    (h : AllDigits (integer ++ fraction)) :
    parse (signText negative ++ integer ++ pointed fraction) = some ⟨negative, integer, fraction⟩ := by
  obtain ⟨hi, hf⟩ := AllDigits.append.1 h
  have hspace : ∀ c ∈ signText negative ++ integer ++ pointed fraction, isSpace c = false := by
    intro c hc
    rw [List.mem_append, List.mem_append] at hc
    rcases hc with (hc | hc) | hc
    · cases negative with
      | true => rw [List.mem_singleton.1 hc]; decide
      | false => cases hc
    · exact isSpace_digit (hi c hc)
    · unfold pointed at hc
      split at hc
      · cases hc
      · rcases List.mem_cons.1 hc with rfl | hc
        · decide
        · exact isSpace_digit (hf c hc)
  have hpoint : ∀ c ∈ integer, (c != '.') = true := fun c hc => by simpa using digit_ne (hi c hc) (by decide)
  have hhead : ((signText negative ++ integer ++ pointed fraction).head? == some '-') = negative := by
    cases negative with
    | true => rfl
    | false =>
      obtain ⟨c, l, rfl⟩ := List.exists_cons_of_ne_nil hne
      have := digit_ne (hi c List.mem_cons_self) (show '-'.isDigit = false by decide)
      simpa [signText] using this
  have hunsigned : (if negative then (signText negative ++ integer ++ pointed fraction).tail
      else signText negative ++ integer ++ pointed fraction) = integer ++ pointed fraction := by
    cases negative <;> simp [signText]
  have htake : (integer ++ pointed fraction).takeWhile (· != '.') = integer := by
    rw [List.takeWhile_append_of_pos hpoint]
    unfold pointed
    split <;> simp
  have hdrop : (integer ++ pointed fraction).dropWhile (· != '.') = pointed fraction := by
    rw [List.dropWhile_append_of_pos hpoint]
    unfold pointed
    split <;> simp
  unfold parse
  rw [trim_of_all hspace]
  simp only [hhead, hunsigned, htake, hdrop]
  cases fraction with
  | nil => simp [pointed, digits_of_all hne hi]
  | cons c l => simp [pointed, digits_of_all hne hi, digits_of_all (List.cons_ne_nil c l) hf]

/-- Everything that is parsed is digits, a point and a sign. -/
theorem parse_chars {t : List Char} {parts : Parts} (h : parse t = some parts) :
    ∀ c ∈ trim t, c = '-' ∨ c = '.' ∨ c.isDigit = true := by
  simp only [parse] at h
  generalize trim t = trimmed at h ⊢
  set unsigned := if (trimmed.head? == some '-') = true then trimmed.tail else trimmed with hu
  have hin : ∀ c ∈ trimmed, c = '-' ∨ c ∈ unsigned := by
    rw [hu]
    cases trimmed with
    | nil => simp
    | cons d l =>
      intro c hc
      by_cases hd : d = '-'
      · rcases List.mem_cons.1 hc with rfl | hc
        · exact .inl hd
        · exact .inr (by simpa [hd] using hc)
      · exact .inr (by simpa [hd] using hc)
  have hunsigned : ∀ c ∈ unsigned, c = '.' ∨ c.isDigit = true := by
    intro c hc
    have hsplit := List.takeWhile_append_dropWhile (p := (· != '.')) (l := unsigned)
    rw [← hsplit, List.mem_append] at hc
    cases hrest : unsigned.dropWhile (· != '.') with
    | nil =>
      rw [hrest] at h hc
      simp only [Option.ite_none_right_eq_some, digits, Bool.and_eq_true, List.all_eq_true] at h
      exact .inr (h.1.2 c (hc.resolve_right (by simp)))
    | cons d fraction =>
      have hd : (d != '.') = false := by
        have := List.head?_dropWhile_not (· != '.') unsigned
        rwa [hrest] at this
      rw [hrest] at h hc
      simp only [Option.ite_none_right_eq_some, digits, Bool.and_eq_true, List.all_eq_true] at h
      rcases hc with hc | hc
      · exact .inr (h.1.1.2 c hc)
      · rcases List.mem_cons.1 hc with rfl | hc
        · exact .inl (by simpa using hd)
        · exact .inr (h.1.2.2 c hc)
  exact fun c hc => (hin c hc).imp_right (hunsigned c)

/-! ## Formatting what was parsed -/

/-- The sign shown before parts. -/
def partsSign (parts : Parts) (signed : Bool) : List Char :=
  if parts.negative then ['-'] else if signed && !parts.isZero then ['+'] else []

theorem formatDecimal_parts {t : List Char} {parts : Parts} (h : parse t = some parts) (places : Option ℕ) (signed : Bool) :
    formatDecimal (some t) ⟨places, signed⟩ = partsSign parts signed ++ group parts.integer ++
      pointed (places.elim parts.fraction (fixFraction parts.fraction)) := by
  unfold formatDecimal partsSign
  rw [Option.bind_some, h]
  cases places <;> dsimp only [Option.elim] <;> split <;> (try split) <;> simp

theorem fixFraction_eq (fraction : List Char) (p : ℕ) :
    fixFraction fraction p = fraction.take p ++ List.replicate (p - fraction.length) '0' := by
  unfold fixFraction
  rw [List.length_take, show p - min p fraction.length = p - fraction.length by omega]
  split
  · next h => simp [h]
  · rfl

/-- **Cutting and padding a fraction truncates the number.** -/
theorem fixFraction_value {integer fraction : List Char} (h : AllDigits (integer ++ fraction)) (p : ℕ) :
    AllDigits (integer ++ fixFraction fraction p) ∧ (fixFraction fraction p).length = p ∧
      Nat.ofDigitChars 10 (integer ++ fixFraction fraction p) 0 =
        Nat.ofDigitChars 10 (integer ++ fraction) 0 * 10 ^ p / 10 ^ fraction.length := by
  obtain ⟨hi, hf⟩ := AllDigits.append.1 h
  rw [fixFraction_eq]
  refine ⟨?_, by simp; omega, ?_⟩
  · exact AllDigits.append.2 ⟨hi, AllDigits.append.2 ⟨fun c hc => hf c (List.mem_of_mem_take hc), allDigits_zeros _⟩⟩
  · rcases le_total p fraction.length with hp | hp
    · have htake : integer ++ fraction.take p = (integer ++ fraction).take (integer.length + p) := by
        rw [List.take_append, List.take_of_length_le (Nat.le_add_right _ _), Nat.add_sub_cancel_left]
      have hpow : 10 ^ fraction.length = 10 ^ (fraction.length - p) * 10 ^ p := by rw [← pow_add]; congr 1; omega
      rw [Nat.sub_eq_zero_of_le hp, List.replicate_zero, List.append_nil, htake, ofDigitChars_take h, hpow,
        Nat.mul_div_mul_right _ _ (by positivity), List.length_append]
      congr 2
      omega
    · have hpow : 10 ^ p = 10 ^ (p - fraction.length) * 10 ^ fraction.length := by rw [← pow_add]; congr 1; omega
      rw [List.take_of_length_le hp, ← List.append_assoc, ofDigitChars_zeros, hpow, ← Nat.mul_assoc,
        Nat.mul_div_cancel _ (by positivity)]

/-- Parsed digits are shown cut to the places asked for. -/
theorem shows_parts {t : List Char} {parts : Parts} (h : parse t = some parts) (hne : parts.integer ≠ [])
    (hd : AllDigits (parts.integer ++ parts.fraction)) {x : ℚ}
    (hx : |x| * 10 ^ parts.fraction.length = Nat.ofDigitChars 10 (parts.integer ++ parts.fraction) 0) (p : ℕ) (signed : Bool) :
    Shows (formatDecimal (some t) ⟨some p, signed⟩) (partsSign parts signed) p (cut x p) := by
  obtain ⟨hall, hlength, hvalue⟩ := fixFraction_value hd p
  refine ⟨parts.integer, fixFraction parts.fraction p, hne, hall, hlength, ?_, formatDecimal_parts h _ _⟩
  rw [hvalue, cut, ← Nat.floor_div_eq_div (K := ℚ)]
  congr 1
  push_cast
  rw [← hx]
  field_simp

theorem stripLeading_spec : ∀ {l : List Char}, l ≠ [] → AllDigits l → stripLeading l ≠ [] ∧ AllDigits (stripLeading l) ∧
    Nat.ofDigitChars 10 (stripLeading l) 0 = Nat.ofDigitChars 10 l 0
  | [], hne, _ => absurd rfl hne
  | [c], _, h => by
    have hs : stripLeading [c] = [c] := by
      unfold stripLeading
      split
      · next heq => cases heq
      · rfl
    rw [hs]
    exact ⟨by simp, h, rfl⟩
  | c :: d :: l, _, h => by
    by_cases hc : c = '0'
    · subst hc
      obtain ⟨hne, hall, hv⟩ := stripLeading_spec (List.cons_ne_nil d l) fun x hx => h x (List.mem_cons_of_mem _ hx)
      rw [show stripLeading ('0' :: d :: l) = stripLeading (d :: l) from rfl]
      refine ⟨hne, hall, hv.trans ?_⟩
      rw [Nat.ofDigitChars_cons]
      rfl
    · have hs : stripLeading (c :: d :: l) = c :: d :: l := by
        unfold stripLeading
        split
        · next heq => exact absurd (List.cons.inj heq).1 hc
        · rfl
      rw [hs]
      exact ⟨by simp, h, rfl⟩

/-- **The point moves right by two places**: the text is parsed as a hundred times the number. -/
theorem shift_spec (parts : Parts) (hne : parts.integer ≠ []) (hd : AllDigits (parts.integer ++ parts.fraction)) :
    ∃ shifted, parse (shiftPointRight parts 2) = some shifted ∧ shifted.negative = parts.negative ∧ shifted.integer ≠ [] ∧
      AllDigits (shifted.integer ++ shifted.fraction) ∧
      (Nat.ofDigitChars 10 (shifted.integer ++ shifted.fraction) 0 : ℚ) * 10 ^ parts.fraction.length =
        Nat.ofDigitChars 10 (parts.integer ++ parts.fraction) 0 * 100 * 10 ^ shifted.fraction.length := by
  have hlen : 0 < parts.integer.length := List.length_pos_of_ne_nil hne
  have hpad : parts.integer.length + 2 - (parts.integer ++ parts.fraction).length = 2 - parts.fraction.length := by
    rw [List.length_append]
    omega
  unfold shiftPointRight
  dsimp only
  rw [hpad]
  have hall := AllDigits.append.2 ⟨hd, allDigits_zeros (2 - parts.fraction.length)⟩
  have hvalue := ofDigitChars_zeros (parts.integer ++ parts.fraction) (2 - parts.fraction.length)
  have hlength : (parts.integer ++ parts.fraction ++ List.replicate (2 - parts.fraction.length) '0').length =
      parts.integer.length + parts.fraction.length + (2 - parts.fraction.length) := by simp [Nat.add_assoc]
  generalize parts.integer ++ parts.fraction ++ List.replicate (2 - parts.fraction.length) '0' = padded at *
  have htake : padded.take (parts.integer.length + 2) ≠ [] := by
    rw [Ne, List.take_eq_nil_iff, not_or]
    exact ⟨by omega, List.ne_nil_of_length_pos (by omega)⟩
  obtain ⟨hs, hsd, hsv⟩ := stripLeading_spec htake fun c hc => hall c (List.mem_of_mem_take hc)
  have hfd : AllDigits (padded.drop (parts.integer.length + 2)) := fun c hc => hall c (List.mem_of_mem_drop hc)
  refine ⟨_, parse_text hs (AllDigits.append.2 ⟨hsd, hfd⟩), rfl, hs, AllDigits.append.2 ⟨hsd, hfd⟩, ?_⟩
  have hwhole : Nat.ofDigitChars 10 (stripLeading (padded.take (parts.integer.length + 2)) ++
      padded.drop (parts.integer.length + 2)) 0 = Nat.ofDigitChars 10 padded 0 := by
    rw [Nat.ofDigitChars_append, hsv, ← Nat.ofDigitChars_append, List.take_append_drop]
  rw [hwhole, hvalue, List.length_drop, hlength]
  have hexp : parts.integer.length + parts.fraction.length + (2 - parts.fraction.length) - (parts.integer.length + 2) =
      parts.fraction.length - 2 := by omega
  have hpow : (10 : ℚ) ^ (2 - parts.fraction.length) * 10 ^ parts.fraction.length = 100 * 10 ^ (parts.fraction.length - 2) := by
    rw [← pow_add, show (100 : ℚ) = 10 ^ 2 by norm_num, ← pow_add]
    congr 1
    omega
  rw [hexp]
  push_cast
  rw [mul_assoc, hpow, mul_assoc]

/-! ## Every decimal the server prints -/

theorem partsSign_eq {d : Finite} (parts : Parts) (hn : parts.negative = d.negative)
    (hd : AllDigits (parts.integer ++ parts.fraction))
    (hz : Nat.ofDigitChars 10 (parts.integer ++ parts.fraction) 0 = 0 ↔ d.coefficient = 0) (signed : Bool) :
    partsSign parts signed = shownSign d signed := by
  have hzero : parts.isZero = (d.coefficient == 0) := by
    rw [Bool.eq_iff_iff, beq_iff_eq, ← hz, ofDigitChars_eq_zero hd, List.all_append]
    rfl
  rw [partsSign, shownSign, hn, hzero]
  rfl

theorem abs_value (d : Finite) : |d.value| = d.coefficient * (10 : ℚ) ^ d.exponent := by
  have h : (0 : ℚ) ≤ d.coefficient * 10 ^ d.exponent := by positivity
  unfold Finite.value
  split
  · rw [neg_one_mul, abs_neg, abs_of_nonneg h]
  · rw [one_mul, abs_of_nonneg h]

theorem sign_value (d : Finite) : (SignType.sign d.value : ℤ) =
    if d.coefficient = 0 then 0 else if d.negative then -1 else 1 := by
  by_cases h0 : d.coefficient = 0
  · simp [Finite.value, h0]
  · have hpos : (0 : ℚ) < d.coefficient * 10 ^ d.exponent := by positivity
    rw [if_neg h0, Finite.value]
    cases d.negative
    · simp [sign_pos hpos]
    · have hneg : -(d.coefficient * (10 : ℚ) ^ d.exponent) < 0 := by linarith
      simp only [if_true, neg_one_mul, sign_neg hneg]
      rfl

/-- **What is printed without an exponent is shown.** -/
theorem rendered_of_plain {d : Finite} (h : d.Plain) : Rendered d := by
  obtain ⟨integer, fraction, htext, hne, hdigits, hlength, hvalue⟩ := Finite.str_plain h
  have hparse : parse d.str = some ⟨d.negative, integer, fraction⟩ := htext ▸ parse_text hne hdigits
  have hsign := partsSign_eq (d := d) ⟨d.negative, integer, fraction⟩ rfl hdigits (by rw [hvalue])
  have hmagnitude : |d.value| * 10 ^ fraction.length = Nat.ofDigitChars 10 (integer ++ fraction) 0 := by
    have hexp : d.exponent = -((-d.exponent).toNat : ℤ) := by
      have := h.1
      omega
    rw [hvalue, abs_value, hlength]
    conv_lhs => rw [hexp]
    rw [neg_neg, Int.toNat_natCast, zpow_neg, zpow_natCast, mul_assoc, inv_mul_cancel₀ (by positivity), mul_one]
  obtain ⟨shifted, hshifted, hneg, hne', hdigits', hshift⟩ :=
    shift_spec ⟨d.negative, integer, fraction⟩ hne hdigits
  have hmagnitude' : |d.value * 100| * 10 ^ shifted.fraction.length =
      Nat.ofDigitChars 10 (shifted.integer ++ shifted.fraction) 0 := by
    have hpow : (0 : ℚ) < 10 ^ fraction.length := by positivity
    have hcancel : |d.value| * 100 * 10 ^ shifted.fraction.length * 10 ^ fraction.length =
        Nat.ofDigitChars 10 (shifted.integer ++ shifted.fraction) 0 * 10 ^ fraction.length := by
      rw [hshift, ← hmagnitude]
      ring
    rw [abs_mul, abs_of_pos (by norm_num : (0 : ℚ) < 100)]
    exact mul_right_cancel₀ hpow.ne' hcancel
  have hzero : Nat.ofDigitChars 10 (shifted.integer ++ shifted.fraction) 0 = 0 ↔ d.coefficient = 0 := by
    have hiff : (Nat.ofDigitChars 10 (shifted.integer ++ shifted.fraction) 0 : ℚ) = 0 ↔ d.value = 0 := by
      rw [← hmagnitude', mul_eq_zero, abs_eq_zero, mul_eq_zero]
      simp
    have hval : d.value = 0 ↔ d.coefficient = 0 := by
      rw [← abs_eq_zero, abs_value, mul_eq_zero, Nat.cast_eq_zero]
      simp [zpow_ne_zero]
    rw [← hval, ← hiff, Nat.cast_eq_zero]
  have hsign' := partsSign_eq (d := d) shifted hneg hdigits' hzero
  exact {
    asSent := fun signed => ⟨integer, fraction, hne, hdigits, hlength, hvalue, by
      rw [formatDecimal_parts hparse, hsign]
      rfl⟩
    decimal := fun places signed => by
      rw [← hsign]
      exact shows_parts hparse hne hdigits hmagnitude places signed
    money := fun options => by
      rw [← hsign]
      exact shows_parts hparse hne hdigits hmagnitude _ options.signed
    percent := fun options => by
      have hshows := shows_parts hshifted hne' hdigits' hmagnitude' (options.places.getD 2) options.signed
      rw [hsign'] at hshows
      refine ⟨_, ?_, hshows⟩
      unfold formatPercent
      rw [Option.bind_some, hparse]
      exact if_neg hshows.known
    sign := by
      have hz : Parts.isZero ⟨d.negative, integer, fraction⟩ = (d.coefficient == 0) := by
        rw [Bool.eq_iff_iff, beq_iff_eq, ← hvalue, ofDigitChars_eq_zero hdigits, List.all_append]
        rfl
      rw [sign_value, signOf, Option.bind_some, hparse]
      simp [hz] }

/-- **The dashboard renders a decimal exactly when the server prints it without an exponent**, and shows the placeholder for
every other one. -/
theorem rendered_iff (d : Finite) : Rendered d ↔ d.Plain := by
  refine ⟨fun h => ?_, rendered_of_plain⟩
  by_contra hplain
  have hnone : parse d.str = none := by
    cases hp : parse d.str with
    | none => rfl
    | some parts =>
      have hE := parse_chars hp 'E' (mem_trim (Finite.str_exponent hplain) (by decide))
      exact absurd hE (by decide)
  apply (h.asSent false).known
  rw [formatDecimal, Option.bind_some, hnone]

/-- **A zero restored from its column is shown as unknown**: it is printed as `0E-8`. -/
theorem restored_zero_unknown : Finite.str ⟨false, 0, -8⟩ = ['0', 'E', '-', '8'] ∧
    formatDecimal (some (Finite.str ⟨false, 0, -8⟩)) {} = unknown ∧
    formatMoney (some (Finite.str ⟨false, 0, -8⟩)) {} = unknown ∧
    formatPercent (some (Finite.str ⟨false, 0, -8⟩)) {} = unknown := by decide

end Money
end Atp
