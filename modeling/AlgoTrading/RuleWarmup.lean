import AlgoTrading.RuleWindows
import AlgoTrading.SimulatedBroker
/-!
# RuleWarmup — how much history a tree needs, and what it says with less

`required_warmup` is enough for a verdict (`walk_definite`).  With a shorter history some reads cannot answer, and a
verdict that is given anyway is that of every completion of them, as long as none of them is answered from the wrong bar:
`bars[: len(bars) - offset]` counts an end below zero from the back.  The memo's key is the label's text, which no two
operands that compile share (`labelText_inj`).
-/
namespace Atp
namespace Rules

open Raising Backtest

/-! ## A label as text -/

/-- `str` of an `int` and of a `Decimal`: the digits of a natural number, and no two numbers alike. -/
structure Numerals where
  str : ℚ → String
  str_nat : ∀ n : ℕ, str n = Nat.repr n
  str_inj : Function.Injective str
  str_plain : ∀ v, ∀ c ∈ (str v).toList, c.isDigit ∨ c ∈ ['.', '-', '+', 'E']

/-- Natural numbers by their digits, any other as a signed quotient. -/
def written (q : ℚ) : String :=
  if q = q.num.toNat then Nat.repr q.num.toNat
  else (if q < 0 then "-" else "+") ++ (Nat.repr q.num.natAbs ++ ("E" ++ Nat.repr q.den))

def Numerals.piece (numerals : Numerals) : Piece → String
  | .lit s => s
  | .dec x => numerals.str x
  | .ts t => numerals.str t

/-- The text an f-string renders to. -/
def Numerals.text (numerals : Numerals) : List Piece → String
  | [] => ""
  | p :: l => numerals.piece p ++ numerals.text l

/-- A text is read back up to the first of a character. -/
theorem split_inj {c : Char} : ∀ {x y r t : List Char}, c ∉ x → c ∉ y → x ++ c :: r = y ++ c :: t → x = y ∧ r = t
  | [], [], _, _, _, _, h => ⟨rfl, (List.cons.inj h).2⟩
  | [], b :: y, _, _, _, hy, h => absurd ((List.cons.inj h).1 ▸ List.mem_cons_self) hy
  | a :: x, [], _, _, hx, _, h => absurd ((List.cons.inj h).1 ▸ List.mem_cons_self) hx
  | a :: x, b :: y, _, _, hx, hy, h => by
    obtain ⟨rfl, htail⟩ := List.cons.inj h
    obtain ⟨hxy, hrt⟩ := split_inj (List.not_mem_of_not_mem_cons hx) (List.not_mem_of_not_mem_cons hy) htail
    exact ⟨congrArg _ hxy, hrt⟩

theorem digit_of_repr {n : ℕ} {c : Char} (h : c ∈ (Nat.repr n).toList) : c.isDigit := by
  rw [Nat.toList_repr] at h
  exact Nat.isDigit_of_mem_toDigits (by decide) (by decide) h

theorem toList_written {q : ℚ} (h : q ≠ q.num.toNat) : (written q).toList =
    (if q < 0 then '-' else '+') :: ((Nat.repr q.num.natAbs).toList ++ 'E' :: (Nat.repr q.den).toList) := by
  rw [written, if_neg h]
  split <;> simp

theorem written_plain (q : ℚ) : ∀ c ∈ (written q).toList, c.isDigit ∨ c ∈ ['.', '-', '+', 'E'] := by
  intro c hc
  by_cases h : q = q.num.toNat
  · rw [written, if_pos h] at hc
    exact .inl (digit_of_repr hc)
  · rw [toList_written h] at hc
    simp only [List.mem_cons, List.mem_append] at hc
    obtain rfl | hc | rfl | hc := hc
    · split <;> decide
    · exact .inl (digit_of_repr hc)
    · decide
    · exact .inl (digit_of_repr hc)

theorem written_whole_ne {q q' : ℚ} (h : q = q.num.toNat) (h' : q' ≠ q'.num.toNat) : written q ≠ written q' := by
  intro heq
  have heq := congrArg String.toList heq
  rw [toList_written h', written, if_pos h] at heq
  have hdigit := digit_of_repr (heq ▸ List.mem_cons_self)
  split at hdigit <;> exact absurd hdigit (by decide)

theorem written_inj : Function.Injective written := by
  intro q q' heq
  by_cases h : q = q.num.toNat <;> by_cases h' : q' = q'.num.toNat
  · rw [written, written, if_pos h, if_pos h'] at heq
    rw [h, h', natRepr_inj heq]
  · exact absurd heq (written_whole_ne h h')
  · exact absurd heq.symm (written_whole_ne h' h)
  · have heq := congrArg String.toList heq
    rw [toList_written h, toList_written h'] at heq
    obtain ⟨hsign, heq⟩ := List.cons.inj heq
    have hE (k : ℕ) : 'E' ∉ (Nat.repr k).toList := fun hmem => absurd (digit_of_repr hmem) (by decide)
    obtain ⟨hnum, hden⟩ := split_inj (hE _) (hE _) heq
    have hnum := natRepr_inj (String.toList_inj.1 hnum)
    have hsigns : q < 0 ↔ q' < 0 := by
      split_ifs at hsign with hneg hneg' hneg'
      · exact ⟨fun _ => hneg', fun _ => hneg⟩
      · exact absurd hsign (by decide)
      · exact absurd hsign (by decide)
      · exact ⟨fun hlt => absurd hlt hneg, fun hlt => absurd hlt hneg'⟩
    rw [← Rat.num_neg, ← Rat.num_neg] at hsigns
    exact Rat.ext (by omega) (natRepr_inj (String.toList_inj.1 hden))

/-- Numbers can be written so. -/
def writtenNumerals : Numerals where
  str := written
  str_nat n := by rw [written, if_pos (by simp)]; simp
  str_inj := written_inj
  str_plain := written_plain

/-- What compiling lets through of an indicator, its field and params included. -/
theorem refuseOperand_indicator {site : String} {i : IndicatorOperand} (h : refuseOperand site (.indicator i) = .ok ()) :
    i.indicator ∈ Dispatch.knownIndicators ∧ (∃ p : ℕ, i.period = some (p : ℤ)) ∧ i.field = .close ∧ i.params = [] := by
  obtain ⟨hname, p, -, hp⟩ := refuseOperand_ok h
  unfold refuseOperand at h
  dsimp only at h
  split_ifs at h
  rename_i hfield hparams
  exact ⟨hname, ⟨p, hp⟩, not_not.1 hfield, not_not.1 hparams⟩

/-- The letters of the names a label starts with. -/
theorem indicator_letters {name : String} (h : name ∈ Dispatch.knownIndicators) : ∀ c ∈ name.toList, c.isLower := by
  simp only [Dispatch.knownIndicators, List.mem_cons, List.not_mem_nil, or_false] at h
  obtain rfl | rfl | rfl | rfl | rfl := h <;> simp

theorem price_letters (field : PriceField) : ∀ c ∈ field.value.toList, c.isLower := by
  cases field <;> simp [PriceField.value]

/-- The first is in no number. -/
theorem price_starts (field : PriceField) :
    ∃ c l, field.value.toList = c :: l ∧ ¬(c.isDigit ∨ c ∈ ['.', '-', '+', 'E']) := by
  cases field <;> simp [PriceField.value]

section
variable {numerals : Numerals}

/-- How a label ends when it looks back. -/
def backText (offset : ℕ) : List Char := if offset = 0 then [] else '[' :: '-' :: ((Nat.repr offset).toList ++ [']'])

theorem text_back (offset : ℕ) : (numerals.text (label.back offset)).toList = backText offset := by
  unfold label.back backText
  split
  · rfl
  · simp [Numerals.text, Numerals.piece, numerals.str_nat]

theorem text_price (field : PriceField) (offset : ℕ) :
    (numerals.text (label (.price field offset))).toList = field.value.toList ++ backText offset := by
  simp [label, Numerals.text, Numerals.piece, text_back]

theorem text_indicator {i : IndicatorOperand} {p : ℕ} (hp : i.period = some (p : ℤ)) :
    (numerals.text (label (.indicator i))).toList =
      i.indicator.toList ++ '(' :: ((Nat.repr p).toList ++ ')' :: backText i.offset) := by
  simp [label, Numerals.text, Numerals.piece, text_back, hp, numerals.str_nat]

theorem text_constant (v : ℚ) : (numerals.text (label (.constant v))).toList = (numerals.str v).toList := by
  simp [label, Numerals.text, Numerals.piece]

theorem not_mem_backText {c : Char} (hc : c ∉ ['[', '-', ']']) (hdigit : ¬c.isDigit) (offset : ℕ) : c ∉ backText offset := by
  intro h
  unfold backText at h
  split at h
  · cases h
  · simp only [List.mem_cons, List.mem_append, List.not_mem_nil, or_false, not_or] at h hc
    obtain h | h | h | h := h
    · exact hc.1 h
    · exact hc.2.1 h
    · exact hdigit (digit_of_repr h)
    · exact hc.2.2 h

theorem backText_inj {m n : ℕ} (h : backText m = backText n) : m = n := by
  unfold backText at h
  split_ifs at h with hm hn hn
  · rw [hm, hn]
  · simp only [List.cons.injEq, true_and, List.append_cancel_right_eq] at h
    exact natRepr_inj (String.toList_inj.1 h)

theorem backText_bracket (offset : ℕ) : backText offset = [] ∨ ∃ l, backText offset = '[' :: l := by
  unfold backText
  split
  · exact .inl rfl
  · exact .inr ⟨_, rfl⟩

/-- Only an indicator's label has a parenthesis. -/
theorem paren_price (field : PriceField) (offset : ℕ) : '(' ∉ (numerals.text (label (.price field offset))).toList := by
  rw [text_price, List.mem_append, not_or]
  constructor
  · intro h
    exact absurd (price_letters field _ h) (by decide)
  · exact not_mem_backText (by decide) (by decide) offset

theorem paren_constant (v : ℚ) : '(' ∉ (numerals.text (label (.constant v))).toList := by
  rw [text_constant]
  intro h
  exact absurd (numerals.str_plain v _ h) (by decide)

theorem paren_indicator {i : IndicatorOperand} {p : ℕ} (hp : i.period = some (p : ℤ)) :
    '(' ∈ (numerals.text (label (.indicator i))).toList := by
  rw [text_indicator hp]
  simp

/-- A price's label has a letter, a number's has none. -/
theorem price_ne_constant (field : PriceField) (offset : ℕ) (v : ℚ) :
    (numerals.text (label (.price field offset))).toList ≠ (numerals.text (label (.constant v))).toList := by
  intro h
  rw [text_price, text_constant] at h
  obtain ⟨c, l, hc, hnumber⟩ := price_starts field
  exact hnumber (numerals.str_plain v c (by rw [← h, hc]; simp))

theorem price_text_inj {field field' : PriceField} {offset offset' : ℕ}
    (h : field.value.toList ++ backText offset = field'.value.toList ++ backText offset') : field = field' ∧ offset = offset' := by
  have hbracket (f : PriceField) : '[' ∉ f.value.toList := by
    intro h
    exact absurd (price_letters f _ h) (by decide)
  have hvalue {f f' : PriceField} (h : f.value.toList = f'.value.toList) : f = f' := by
    cases f <;> cases f' <;> simp [PriceField.value] at h ⊢
  obtain hb | ⟨l, hb⟩ := backText_bracket offset
  · obtain hb' | ⟨l', hb'⟩ := backText_bracket offset'
    · rw [hb, hb', List.append_nil, List.append_nil] at h
      exact ⟨hvalue h, backText_inj (hb.trans hb'.symm)⟩
    · rw [hb, hb', List.append_nil] at h
      exact absurd (h ▸ List.mem_append_right _ List.mem_cons_self) (hbracket field)
  · obtain hb' | ⟨l', hb'⟩ := backText_bracket offset'
    · rw [hb, hb', List.append_nil] at h
      exact absurd (h ▸ List.mem_append_right _ List.mem_cons_self) (hbracket field')
    · rw [hb, hb'] at h
      obtain ⟨hf, hl⟩ := split_inj (hbracket field) (hbracket field') h
      exact ⟨hvalue hf, backText_inj (by rw [hb, hb', hl])⟩

theorem indicator_text_inj {name name' : String} {p p' offset offset' : ℕ} (hname : name ∈ Dispatch.knownIndicators)
    (hname' : name' ∈ Dispatch.knownIndicators)
    (h : name.toList ++ '(' :: ((Nat.repr p).toList ++ ')' :: backText offset) =
      name'.toList ++ '(' :: ((Nat.repr p').toList ++ ')' :: backText offset')) :
    name = name' ∧ p = p' ∧ offset = offset' := by
  have hopen {n : String} (hn : n ∈ Dispatch.knownIndicators) : '(' ∉ n.toList := by
    intro h
    exact absurd (indicator_letters hn _ h) (by decide)
  have hclose (k : ℕ) : ')' ∉ (Nat.repr k).toList := by
    intro h
    exact absurd (digit_of_repr h) (by decide)
  obtain ⟨hn, h⟩ := split_inj (hopen hname) (hopen hname') h
  obtain ⟨hp, h⟩ := split_inj (hclose p) (hclose p') h
  exact ⟨String.toList_inj.1 hn, natRepr_inj (String.toList_inj.1 hp), backText_inj h⟩

/-- **No two operands that compile share a label**, read as text. -/
theorem labelText_inj {site : String} {o o' : Operand} (ho : refuseOperand site o = .ok ())
    (ho' : refuseOperand site o' = .ok ()) (h : numerals.text (label o) = numerals.text (label o')) : o = o' := by
  have h := congrArg String.toList h
  cases o with
  | constant v =>
    cases o' with
    | constant v' =>
      rw [text_constant, text_constant] at h
      rw [numerals.str_inj (String.toList_inj.1 h)]
    | price f n => exact absurd h.symm (price_ne_constant f n v)
    | indicator i =>
      obtain ⟨-, ⟨p, hp⟩, -⟩ := refuseOperand_indicator ho'
      have hparen := @paren_indicator numerals _ _ hp
      rw [← h] at hparen
      exact absurd hparen (paren_constant v)
  | price f n =>
    cases o' with
    | constant v => exact absurd h (price_ne_constant f n v)
    | price f' n' =>
      rw [text_price, text_price] at h
      obtain ⟨rfl, rfl⟩ := price_text_inj h
      rfl
    | indicator i =>
      obtain ⟨-, ⟨p, hp⟩, -⟩ := refuseOperand_indicator ho'
      have hparen := @paren_indicator numerals _ _ hp
      rw [← h] at hparen
      exact absurd hparen (paren_price f n)
  | indicator i =>
    obtain ⟨hname, ⟨p, hp⟩, hfield, hparams⟩ := refuseOperand_indicator ho
    have hparen := @paren_indicator numerals _ _ hp
    rw [h] at hparen
    cases o' with
    | constant v => exact absurd hparen (paren_constant v)
    | price f n => exact absurd hparen (paren_price f n)
    | indicator i' =>
      obtain ⟨hname', ⟨p', hp'⟩, hfield', hparams'⟩ := refuseOperand_indicator ho'
      rw [text_indicator hp, text_indicator hp'] at h
      obtain ⟨hn, rfl, hoffset⟩ := indicator_text_inj hname hname' h
      cases i
      cases i'
      simp_all

end

/-! ## What a read needs -/

/-- A read the history is long enough for; a number needs none. -/
def Known (n : ℕ) (leg : Leg) : Prop := (∃ v, leg.1 = .constant v) ∨ Covers n leg

/-- How many bars back an operand looks. -/
def Operand.offset : Operand → ℕ
  | .indicator x => x.offset
  | .price _ offset => offset
  | .constant _ => 0

/-- **A read answered from the wrong bar**: it looks further back than the history goes, and the slice that then counts
from the back still holds what it needs. -/
def Wraps (n : ℕ) (o : Operand) : Prop := n < o.offset ∧ ∃ m, operandBars o = .ok m ∧ m ≤ 2 * n

theorem length_cutBack (back : ℕ) (bars : List Bar) :
    (cutBack back bars).length = if back ≤ bars.length then bars.length - back else 2 * bars.length - back := by
  unfold cutBack
  split <;> rw [List.length_take] <;> omega

end Rules

namespace Dispatch

open Ta

theorem orNone_short {α : Type} {name : String} {needed got : ℕ} {f : α → Unit → Except Exc ℚ} (h : got < needed) {x : Except Exc α}
    (hx : ∀ e, x = .error e → e.cls = .valueError) : orNone (x >>= fun a => requireLength name needed got >>= f a) = .ok none := by
  cases x with
  | ok a =>
    rw [requireLength, if_pos h]
    rfl
  | error e =>
    show orNone (.error e) = _
    rw [orNone, hx e rfl]
    rfl

/-- A series shorter than its shortest is no value. -/
theorem compute_short {sqrt : ℚ → ℚ} {bars : List Bar} {name : String} {period n : ℕ} (hmin : minBars name period = .ok n)
    (h : bars.length < n) : compute sqrt name bars period = .ok none := by
  have hcloses : (bars.map Bar.close).length < n := by simpa using h
  obtain ⟨rfl | rfl | rfl, rfl⟩ | ⟨rfl | rfl, rfl⟩ := minBars_cases hmin <;>
    simp only [compute, String.reduceEq, if_true, if_false, sma, ema, stddev, rsi, atr]
  · rw [requireLength, if_pos hcloses]
    rfl
  · exact orNone_short hcloses (guarded_period _ _)
  · exact orNone_short hcloses (guarded_period _ _)
  · exact orNone_short hcloses (guarded_period _ _)
  · exact orNone_short h (guarded_period _ _)

/-- **An indicator answers exactly when its shortest series is there.** -/
theorem compute_isSome {sqrt : ℚ → ℚ} {bars : List Bar} {name : String} {period n : ℕ} (hmin : minBars name period = .ok n)
    (hp : 1 ≤ period) : (∃ v, compute sqrt name bars period = .ok (some v)) ↔ n ≤ bars.length := by
  constructor
  · rintro ⟨v, hv⟩
    by_contra hlen
    rw [compute_short hmin (not_le.1 hlen)] at hv
    cases hv
  · intro hlen
    have hp' : ¬period < 1 := by omega
    have hlen' : ¬bars.length < n := by omega
    obtain ⟨rfl | rfl | rfl, rfl⟩ | ⟨rfl | rfl, rfl⟩ := minBars_cases hmin
    · exact ⟨_, by simp only [compute, if_true, sma, requireLength, List.length_map, hlen', if_false]; rfl⟩
    · exact ⟨_, compute_ema hp hlen⟩
    · refine ⟨sqrt (variance (lastSlice n (bars.map Bar.close))), ?_⟩
      simp only [compute, String.reduceEq, if_true, stddev, requirePeriod, requireLength, List.length_map, hp', hlen', if_false]
      rfl
    · exact ⟨_, compute_rsi hp hlen⟩
    · exact ⟨_, compute_atr hp hlen⟩

end Dispatch

namespace Rules

open Raising Backtest

theorem offset_lt {o : Operand} (ho : o.Runnable) {m : ℕ} (hm : operandBars o = .ok m) (hv : ∀ v, o ≠ .constant v) :
    o.offset < m := by
  cases o with
  | constant v => exact absurd rfl (hv v)
  | price f k =>
    cases hm
    exact Nat.lt_succ_self k
  | indicator i =>
    obtain ⟨n, hn, hm⟩ := ok_of_bind hm
    cases hm
    have hpos := minBars_pos hn (periodOr0_pos ho)
    show i.offset < n + i.offset
    omega

section
variable {sqrt : ℚ → ℚ} {bars : List Bar}

/-- **An operand has a value when the slice it is cut to, and its offset, come to its bars.** -/
theorem operandValue_isSome {o : Operand} (ho : o.Runnable) {m : ℕ} (hm : operandBars o = .ok m) (hv : ∀ v, o ≠ .constant v)
    (back : ℕ) : (∃ v, operandValue sqrt bars o back = some v) ↔ m ≤ (cutBack (o.offset + back) bars).length + o.offset := by
  have hlt := offset_lt ho hm hv
  have hcomp : computeOperand sqrt bars o back = .ok (operandValue sqrt bars o back) := computeOperand_runnable ho back
  cases o with
  | constant v => exact absurd rfl (hv v)
  | price f k =>
    cases hm
    have hval : operandValue sqrt bars (.price f k) back = (cutBack (k + back) bars).getLast?.map fun bar => f.of bar := rfl
    rw [hval, Operand.offset]
    cases h : (cutBack (k + back) bars).getLast? with
    | none =>
      rw [List.getLast?_eq_none_iff] at h
      simp [h]
    | some b =>
      have hpos : 0 < (cutBack (k + back) bars).length := List.length_pos_of_mem (List.mem_of_getLast? h)
      simp only [Option.map_some, Option.some.injEq, exists_eq', true_iff]
      omega
  | indicator i =>
    obtain ⟨n, hn, hm⟩ := ok_of_bind hm
    cases hm
    have hpos := minBars_pos hn (periodOr0_pos ho)
    show _ ↔ n + i.offset ≤ (cutBack (i.offset + back) bars).length + i.offset
    rw [Nat.add_le_add_iff_right]
    rw [computeOperand] at hcomp
    generalize operandValue sqrt bars (.indicator i) back = found at hcomp ⊢
    split at hcomp
    · rename_i hnil
      cases hcomp
      rw [hnil, List.length_nil]
      simp only [reduceCtorEq, exists_false, false_iff]
      omega
    · rw [← @Dispatch.compute_isSome sqrt _ _ _ _ hn (periodOr0_pos ho), hcomp]
      simp

/-- A read the history is long enough for answers. -/
theorem answered {o : Operand} (ho : o.Runnable) {back : ℕ} (h : Known bars.length (o, back)) :
    ∃ v, operandValue sqrt bars o back = some v := by
  obtain ⟨v, rfl⟩ | ⟨m, hm, hle⟩ := h
  · exact ⟨v, rfl⟩
  · by_cases hv : ∀ v, o ≠ .constant v
    · have hlt := offset_lt ho hm hv
      have hle : m + back ≤ bars.length := hle
      rw [operandValue_isSome ho hm hv, length_cutBack, if_pos (by omega)]
      omega
    · obtain ⟨v, hv⟩ := not_forall.1 hv
      rw [not_not.1 hv]
      exact ⟨v, rfl⟩

/-- **A current value is known**, unless it is read off the wrong bar. -/
theorem known_now {o : Operand} (ho : o.Runnable) {m : ℕ} (hm : operandBars o = .ok m) (hw : ¬Wraps bars.length o) {v : ℚ}
    (h : operandValue sqrt bars o 0 = some v) : Known bars.length (o, 0) := by
  by_cases hv : ∀ v, o ≠ .constant v
  · have hlt := offset_lt ho hm hv
    have hfit := (operandValue_isSome ho hm hv 0).1 ⟨v, h⟩
    have hfar : ¬(bars.length < o.offset ∧ m ≤ 2 * bars.length) := fun hfar => hw ⟨hfar.1, m, hm, hfar.2⟩
    refine .inr ⟨m, hm, ?_⟩
    rw [length_cutBack] at hfit
    split at hfit <;> omega
  · obtain ⟨v, hv⟩ := not_forall.1 hv
    exact .inl ⟨v, not_not.1 hv⟩

/-- Of an operand known now, a value a bar ago is known. -/
theorem known_before {o : Operand} (ho : o.Runnable) (hnow : Known bars.length (o, 0)) {v : ℚ}
    (h : operandValue sqrt bars o 1 = some v) : Known bars.length (o, 1) := by
  obtain hc | ⟨m, hm, hle⟩ := hnow
  · exact .inl hc
  · by_cases hv : ∀ v, o ≠ .constant v
    · have hlt := offset_lt ho hm hv
      have hle : m ≤ bars.length := hle
      have hfit := (operandValue_isSome ho hm hv 1).1 ⟨v, h⟩
      refine .inr ⟨m, hm, ?_⟩
      rw [length_cutBack, if_pos (by omega)] at hfit
      omega
    · obtain ⟨v, hv⟩ := not_forall.1 hv
      exact .inl ⟨v, not_not.1 hv⟩

/-! ## Enough history -/

theorem meaning_definite {read : Operand → ℕ → Option ℚ} {c : Condition} (h : ∀ leg ∈ c.legs, ∃ v, read leg.1 leg.2 = some v) :
    ∃ b, c.meaning read = some b := by
  unfold Condition.legs at h
  obtain ⟨l, hl⟩ := h (c.left, 0) (by simp)
  obtain ⟨r, hr⟩ := h (c.right, 0) (by simp)
  unfold Condition.meaning
  rw [hl, hr]
  dsimp only
  split
  · rename_i hcross
    obtain ⟨wl, hwl⟩ := h (c.left, 1) (by simp [hcross])
    obtain ⟨wr, hwr⟩ := h (c.right, 1) (by simp [hcross])
    rw [hwl, hwr]
    exact ⟨_, rfl⟩
  · exact ⟨_, rfl⟩

/-- Children that all say something settle their group. -/
theorem groupVerdict_definite {kind : GroupKind} {verdicts : List (Option Bool)} (h : none ∉ verdicts) :
    ∃ b, groupVerdict kind verdicts = some b := by
  unfold groupVerdict
  cases kind <;> dsimp only <;> split_ifs <;> exact ⟨_, rfl⟩

mutual
theorem node_definite {read : Operand → ℕ → Option ℚ} : ∀ {node : ConditionNode},
    (∀ leg ∈ node.legs, ∃ v, read leg.1 leg.2 = some v) → ∃ b, node.meaning read = some b
  | .condition c, h => by
    rw [ConditionNode.meaning]
    exact meaning_definite h
  | .group kind children, h => by
    rw [ConditionNode.meaning]
    exact groupVerdict_definite (nodes_definite h)

theorem nodes_definite {read : Operand → ℕ → Option ℚ} : ∀ {nodes : List ConditionNode},
    (∀ leg ∈ legsAll nodes, ∃ v, read leg.1 leg.2 = some v) → none ∉ meanings read nodes
  | [], _ => by simp [meanings]
  | node :: rest, h => by
    obtain ⟨b, hb⟩ := node_definite fun leg hleg => h leg (List.mem_append_left _ hleg)
    have hrest := nodes_definite fun leg hleg => h leg (List.mem_append_right _ hleg)
    rw [meanings, hb]
    simpa using hrest
end

/-- **With the history a tree asks for, a walk gives a verdict.** -/
theorem walk_definite {tree : ConditionNode} (h : ∀ leg ∈ tree.legs, leg.1.Runnable) {n : ℕ} (hn : barsNeeded tree = .ok n)
    (hlen : n ≤ bars.length) : ∃ b, walk sqrt bars tree = .ok (some b) := by
  obtain ⟨b, hb⟩ := @node_definite (operandValue sqrt bars) tree fun leg hleg =>
    answered (h leg hleg) (.inr ((barsNeeded_covers hn leg hleg).mono hlen))
  exact ⟨b, by rw [walk_meaning h, hb]⟩

/-! ## Less history -/

/-- **A completion of what is unknown**: a value for every read, the computed one where the history is long enough. -/
def Completes (sqrt : ℚ → ℚ) (bars : List Bar) (read : Operand → ℕ → ℚ) : Prop :=
  ∀ o back, Operand.Runnable o → Known bars.length (o, back) → computeOperand sqrt bars o back = .ok (some (read o back))

/-- What a tree says under a completion. -/
def ConditionNode.completed (read : Operand → ℕ → ℚ) (tree : ConditionNode) : Option Bool :=
  tree.meaning fun o back => some (read o back)

theorem completes_value {read : Operand → ℕ → ℚ} (hread : Completes sqrt bars read) {o : Operand} (ho : o.Runnable) {back : ℕ}
    (h : Known bars.length (o, back)) : operandValue sqrt bars o back = some (read o back) := by
  have hval := hread o back ho h
  rwa [computeOperand_runnable ho, Except.ok.injEq] at hval

theorem condition_completed {read : Operand → ℕ → ℚ} (hread : Completes sqrt bars read) {c : Condition} {m n : ℕ}
    (hl : c.left.Runnable) (hlm : operandBars c.left = .ok m) (hlw : ¬Wraps bars.length c.left) (hr : c.right.Runnable)
    (hrm : operandBars c.right = .ok n) (hrw : ¬Wraps bars.length c.right) {b : Bool}
    (h : c.meaning (operandValue sqrt bars) = some b) : c.meaning (fun o back => some (read o back)) = some b := by
  unfold Condition.meaning at h ⊢
  cases hlv : operandValue sqrt bars c.left 0 with
  | none => rw [hlv] at h; cases h
  | some l =>
    cases hrv : operandValue sqrt bars c.right 0 with
    | none => rw [hlv, hrv] at h; cases h
    | some r =>
      have hlk := known_now hl hlm hlw hlv
      have hrk := known_now hr hrm hrw hrv
      rw [completes_value hread hl hlk, completes_value hread hr hrk] at h
      dsimp only at h ⊢
      split at h
      · rename_i hcross
        rw [if_pos hcross]
        cases hlb : operandValue sqrt bars c.left 1 with
        | none => rw [hlb] at h; cases h
        | some wl =>
          cases hrb : operandValue sqrt bars c.right 1 with
          | none => rw [hlb, hrb] at h; cases h
          | some wr =>
            rwa [completes_value hread hl (known_before hl hlk hlb), completes_value hread hr (known_before hr hrk hrb)] at h
      · rename_i hcross
        rwa [if_neg hcross]

/-- What some verdicts already say, others say too. -/
def Extends : List (Option Bool) → List (Option Bool) → Prop := List.Forall₂ fun v v' => ∀ b, v = some b → v' = some b

theorem mem_extends {l l' : List (Option Bool)} (h : Extends l l') {b : Bool} (hb : some b ∈ l) : some b ∈ l' := by
  induction h with
  | nil => cases hb
  | cons hv _ ih =>
    obtain hb | hb := List.mem_cons.1 hb
    · exact List.mem_cons.2 (.inl (hv b hb.symm).symm)
    · exact List.mem_cons_of_mem _ (ih hb)

theorem eq_of_extends {l l' : List (Option Bool)} (h : Extends l l') (hdef : none ∉ l) : l' = l := by
  induction h with
  | nil => rfl
  | @cons v v' _ _ hv _ ih =>
    simp only [List.mem_cons, not_or] at hdef
    obtain ⟨b, rfl⟩ := Option.ne_none_iff_exists'.1 (Ne.symm hdef.1)
    rw [hv b rfl, ih hdef.2]

/-- **A group's verdict is one that what is unknown cannot change.** -/
theorem groupVerdict_extends {kind : GroupKind} {l l' : List (Option Bool)} (h : Extends l l') {b : Bool}
    (hb : groupVerdict kind l = some b) : groupVerdict kind l' = some b := by
  by_cases hdef : none ∈ l
  · unfold groupVerdict at hb ⊢
    cases kind <;> dsimp only at hb ⊢ <;> split_ifs at hb with hsettled
    · rw [if_pos (mem_extends h hsettled), hb]
    · rw [if_pos (mem_extends h hsettled), hb]
    · rw [if_pos (mem_extends h hsettled), hb]
  · rwa [eq_of_extends h hdef]

theorem operandBars_ok {o : Operand} (ho : o.Runnable) : ∃ m, operandBars o = .ok m := by
  cases o with
  | constant v => exact ⟨_, rfl⟩
  | price f k => exact ⟨_, rfl⟩
  | indicator i =>
    obtain ⟨n, hn⟩ : ∃ n, Dispatch.minBars i.indicator i.periodOr0 = .ok n := ⟨_, if_neg (not_not.2 ho.1)⟩
    exact ⟨n + i.offset, by rw [operandBars, hn]; rfl⟩

mutual
theorem barsNeeded_ok : ∀ {node : ConditionNode}, (∀ leg ∈ node.legs, leg.1.Runnable) → ∃ n, barsNeeded node = .ok n
  | .condition c, h => by
    obtain ⟨l, hl⟩ := operandBars_ok (h (c.left, 0) (by simp [ConditionNode.legs, Condition.legs]))
    obtain ⟨r, hr⟩ := operandBars_ok (h (c.right, 0) (by simp [ConditionNode.legs, Condition.legs]))
    exact ⟨_, by rw [barsNeeded, hl, hr]; rfl⟩
  | .group _ children, h => barsNeededAll_ok h

theorem barsNeededAll_ok : ∀ {nodes : List ConditionNode}, (∀ leg ∈ legsAll nodes, leg.1.Runnable) →
    ∃ n, barsNeededAll nodes = .ok n
  | [], _ => ⟨_, rfl⟩
  | node :: rest, h => by
    obtain ⟨here, hhere⟩ := barsNeeded_ok fun leg hleg => h leg (List.mem_append_left _ hleg)
    obtain ⟨there, hthere⟩ := barsNeededAll_ok fun leg hleg => h leg (List.mem_append_right _ hleg)
    exact ⟨_, by rw [barsNeededAll, hhere, hthere]; rfl⟩
end

mutual
theorem node_completed {read : Operand → ℕ → ℚ} (hread : Completes sqrt bars read) : ∀ {node : ConditionNode},
    (∀ leg ∈ node.legs, leg.1.Runnable ∧ ¬Wraps bars.length leg.1) → ∀ b, node.meaning (operandValue sqrt bars) = some b →
      node.completed read = some b
  | .condition c, h, b, hb => by
    obtain ⟨hl, hlw⟩ := h (c.left, 0) (by simp [ConditionNode.legs, Condition.legs])
    obtain ⟨hr, hrw⟩ := h (c.right, 0) (by simp [ConditionNode.legs, Condition.legs])
    obtain ⟨m, hm⟩ := operandBars_ok hl
    obtain ⟨n, hn⟩ := operandBars_ok hr
    rw [ConditionNode.meaning] at hb
    rw [ConditionNode.completed, ConditionNode.meaning]
    exact condition_completed hread hl hm hlw hr hn hrw hb
  | .group kind children, h, b, hb => by
    rw [ConditionNode.meaning] at hb
    rw [ConditionNode.completed, ConditionNode.meaning]
    exact groupVerdict_extends (nodes_completed hread h) hb

theorem nodes_completed {read : Operand → ℕ → ℚ} (hread : Completes sqrt bars read) : ∀ {nodes : List ConditionNode},
    (∀ leg ∈ legsAll nodes, leg.1.Runnable ∧ ¬Wraps bars.length leg.1) →
      Extends (meanings (operandValue sqrt bars) nodes) (meanings (fun o back => some (read o back)) nodes)
  | [], _ => .nil
  | node :: rest, h => by
    rw [meanings, meanings]
    exact .cons (node_completed hread fun leg hleg => h leg (List.mem_append_left _ hleg))
      (nodes_completed hread fun leg hleg => h leg (List.mem_append_right _ hleg))
end

/-! ## Warmed up -/

/-- **What warming up promises of a tree over a history**: enough bars for a verdict, a verdict with fewer only where no
completion says otherwise, and a memo that answers every read with its own operand's value. -/
structure WarmedUp (sqrt : ℚ → ℚ) (numerals : Numerals) (tree : ConditionNode) (bars : List Bar) : Prop where
  enough : ∃ n, barsNeeded tree = .ok n ∧ (n ≤ bars.length → ∃ b, walk sqrt bars tree = .ok (some b))
  settled : ∀ b, walk sqrt bars tree = .ok (some b) → ∀ read, Completes sqrt bars read → tree.completed read = some b
  own : ∀ w, Reached sqrt bars tree w → ∀ leg ∈ tree.legs,
    (exec (value sqrt bars leg.1 leg.2) w).1 = computeOperand sqrt bars leg.1 leg.2
  apart : ∀ leg ∈ tree.legs, ∀ leg' ∈ tree.legs, numerals.text (label leg.1) = numerals.text (label leg'.1) → leg.1 = leg'.1

theorem warmedUp {site : String} {tree : ConditionNode} (htree : refuseNode site tree = .ok ()) (numerals : Numerals)
    (h : ∀ leg ∈ tree.legs, ¬Wraps bars.length leg.1) : WarmedUp sqrt numerals tree bars := by
  have haccepted := refuseNode_ok htree
  have hrun : ∀ leg ∈ tree.legs, leg.1.Runnable := fun leg hleg => refuseOperand_ok (haccepted leg hleg)
  constructor
  · obtain ⟨n, hn⟩ := barsNeeded_ok hrun
    exact ⟨n, hn, walk_definite hrun hn⟩
  · intro b hb read hread
    rw [walk_meaning hrun, Except.ok.injEq] at hb
    exact node_completed hread (fun leg hleg => ⟨hrun leg hleg, h leg hleg⟩) b hb
  · exact fun w hw leg hleg => read_eq hrun hw hleg
  · exact fun leg hleg leg' hleg' => labelText_inj (haccepted leg hleg) (haccepted leg' hleg')

end

/-! ## The operand that is misread -/

/-- One operand against a number. -/
def atLeast (o : Operand) (c : ℚ) : ConditionNode := .condition ⟨o, .ge, .constant c⟩

theorem atLeast_legs {o : Operand} {c : ℚ} {leg : Leg} (h : leg ∈ (atLeast o c).legs) :
    leg.1 = o ∨ leg.1 = .constant c := (Condition.mem_legs h).1

/-- A completion that answers as the window does, but for one operand. -/
def instead (sqrt : ℚ → ℚ) (bars : List Bar) (o : Operand) (v : ℚ) (o' : Operand) (back : ℕ) : ℚ :=
  if o' = o then v else (operandValue sqrt bars o' back).getD 0

section
variable {sqrt : ℚ → ℚ} {bars : List Bar}

theorem wraps_unknown {o : Operand} (h : Wraps bars.length o) (ho : o.Runnable) (back : ℕ) :
    ¬Known bars.length (o, back) ∧ ∃ v, operandValue sqrt bars o 0 = some v := by
  obtain ⟨hfar, m, hm, hle⟩ := h
  have hv : ∀ v, o ≠ .constant v := by
    rintro v rfl
    cases hfar
  have hlt := offset_lt ho hm hv
  constructor
  · rintro (⟨v, rfl⟩ | ⟨k, hk, hfit⟩)
    · exact hv v rfl
    · cases hm.symm.trans hk
      have hfit : m + back ≤ bars.length := hfit
      omega
  · rw [operandValue_isSome ho hm hv, length_cutBack, if_neg (by omega)]
    omega

theorem instead_completes {o : Operand} (h : Wraps bars.length o) (v : ℚ) : Completes sqrt bars (instead sqrt bars o v) := by
  intro o' back ho' hknown
  rw [computeOperand_runnable ho', instead, if_neg]
  · obtain ⟨w, hw⟩ := @answered sqrt _ _ ho' _ hknown
    rw [hw, Option.getD_some]
  · rintro rfl
    exact (@wraps_unknown sqrt _ _ h ho' back).1 hknown

theorem misread {site : String} {o : Operand} (ho : refuseOperand site o = .ok ()) (h : Wraps bars.length o)
    (numerals : Numerals) : ∃ c, refuseNode site (atLeast o c) = .ok () ∧ ¬WarmedUp sqrt numerals (atLeast o c) bars := by
  have hrun := refuseOperand_ok ho
  obtain ⟨-, v, hv⟩ := @wraps_unknown sqrt _ _ h hrun 0
  have haccepted : refuseNode site (atLeast o v) = .ok () := by
    show (do refuseOperand site o; refuseOperand site (.constant v)) = .ok ()
    rw [ho]
    rfl
  have hlegs : ∀ leg ∈ (atLeast o v).legs, leg.1.Runnable := fun leg hleg => refuseOperand_ok (refuseNode_ok haccepted leg hleg)
  refine ⟨v, haccepted, fun hwarm => ?_⟩
  -- the window's value is at least itself, and a completion may hold less
  have hwalk : walk sqrt bars (atLeast o v) = .ok (some true) := by
    rw [walk_meaning hlegs, atLeast, ConditionNode.meaning, Condition.meaning, hv]
    simp [operandValue, computeOperand, Comparator.isCrossing, Comparator.holds, Except.toOption]
  have hless := hwarm.settled true hwalk (instead sqrt bars o (v - 1)) (instead_completes h (v - 1))
  have hne : Operand.constant v ≠ o := by
    rintro rfl
    exact absurd h.1 (by simp [Operand.offset])
  rw [ConditionNode.completed, atLeast, ConditionNode.meaning, Condition.meaning] at hless
  simp [instead, hne, operandValue, computeOperand, Comparator.isCrossing, Comparator.holds, Except.toOption] at hless
  exact absurd hless (by norm_num)

end

/-- **Over some operands and a history of `n` bars, every tree is warmed up as promised exactly when none of the operands
looks further back than the history by a slice that still holds what it needs.** -/
theorem warmed_up_iff (sqrt : ℚ → ℚ) (numerals : Numerals) (site : String) (timeframe : Timeframe) (named : Operand → Prop)
    (n : ℕ) :
    (∀ tree, refuseNode site tree = .ok () → (∀ leg ∈ tree.legs, named leg.1 ∨ ∃ v, leg.1 = .constant v) →
      ∀ symbol bars, Series symbol timeframe bars → bars.length = n → WarmedUp sqrt numerals tree bars) ↔
      ∀ o, named o → refuseOperand site o = .ok () → ¬Wraps n o := by
  constructor
  · intro h o hnamed ho hwraps
    obtain ⟨m, rfl⟩ : ∃ m, n = m + 1 := by
      obtain ⟨hfar, k, hk, hle⟩ := hwraps
      have hlt := offset_lt (refuseOperand_ok ho) hk (by rintro v rfl; cases hfar)
      exact Nat.exists_eq_add_of_le' (by omega)
    have hlen : (spiked "SPY" timeframe m).length = m + 1 := by simp [spiked]
    obtain ⟨c, haccepted, hnot⟩ := @misread sqrt _ _ _ ho (hlen ▸ hwraps) numerals
    refine hnot (h _ haccepted (fun leg hleg => ?_) "SPY" _ (series_spiked "SPY" timeframe m) hlen)
    obtain heq | heq := atLeast_legs hleg
    · exact .inl (heq ▸ hnamed)
    · exact .inr ⟨c, heq⟩
  · rintro h tree htree hlegs symbol bars - rfl
    apply warmedUp htree numerals
    intro leg hleg
    obtain hnamed | ⟨v, hv⟩ := hlegs leg hleg
    · exact h _ hnamed (refuseNode_ok htree leg hleg)
    · rintro ⟨hfar, -⟩
      rw [hv] at hfar
      cases hfar

/-- The close three bars ago, at least two. -/
def threeBack : ConditionNode := atLeast (.price .close 3) 2

/-- Closes of two and one, and a close three bars ago that is not there: it is read as the first close. -/
theorem early_answer : refuseNode "entry_long" threeBack = .ok () ∧ barsNeeded threeBack = .ok 4 ∧
    Series "SPY" .d1 (spiked "SPY" .d1 1) ∧ walk Rat.sqrt (spiked "SPY" .d1 1) threeBack = .ok (some true) ∧
    Completes Rat.sqrt (spiked "SPY" .d1 1) (instead Rat.sqrt (spiked "SPY" .d1 1) (.price .close 3) 1) ∧
    threeBack.completed (instead Rat.sqrt (spiked "SPY" .d1 1) (.price .close 3) 1) = some false ∧
    ∀ numerals, ¬WarmedUp Rat.sqrt numerals threeBack (spiked "SPY" .d1 1) := by
  have hwalk : walk Rat.sqrt (spiked "SPY" .d1 1) threeBack = .ok (some true) := by decide +kernel
  have hwraps : Wraps (spiked "SPY" .d1 1).length (.price .close 3) := ⟨by decide, 4, rfl, by decide⟩
  have hcompletes := @instead_completes Rat.sqrt _ _ hwraps 1
  have hless : threeBack.completed (instead Rat.sqrt (spiked "SPY" .d1 1) (.price .close 3) 1) = some false := by decide +kernel
  refine ⟨rfl, rfl, series_spiked _ _ _, hwalk, hcompletes, hless, fun numerals h => ?_⟩
  exact absurd ((h.settled true hwalk _ hcompletes).symm.trans hless) (by decide)

end Rules
end Atp
