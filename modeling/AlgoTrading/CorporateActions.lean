import AlgoTrading.Dict
import AlgoTrading.Market
import AlgoTrading.Ranks
import Mathlib.Algebra.Order.Field.Basic
import Mathlib.Tactic.Linarith
/-!
# CorporateActions — a restated history, read as one factor

`data/corporate_actions.py`: two fetches of one adjusted history are compared bar by bar, and the middle of the ratios that
moved is named as the factor.  A ratio of closes rounded to the cent is off by as much as the factor over two hundred times the
fresh close, and the tolerance it is given is one for all prices: one action is recognised exactly when the ratios gather
(`detectAdjustment_iff`).  The ratios are the quotients of the Decimal context, which is a parameter; their differences are
exact wherever a tolerance is decided by them.
-/
namespace Atp
namespace CorporateActions

open Ranks

/-- `UNCHANGED_TOLERANCE`. -/
def unchangedTolerance : ℚ := 5 / 10000

/-- `AGREEMENT_TOLERANCE`. -/
def agreementTolerance : ℚ := 5 / 1000

/-- `MIN_BARS_COMPARED`. -/
def minBarsCompared : ℕ := 3

/-- `Adjustment`. -/
structure Adjustment where
  symbol : String
  factor : ℚ
  barsCompared : ℕ
  barsAgreeing : ℕ
  earliestMovedAt : Option ℤ
deriving DecidableEq

def Adjustment.isConsistent (a : Adjustment) : Bool := minBarsCompared ≤ a.barsCompared ∧ a.barsAgreeing = a.barsCompared

def freshByTs (fresh : List Bar) : Dict ℤ Bar := fresh.foldl (fun d bar => d.set bar.ts bar) .empty

/-- What a stored close is to the fresh one of its instant, where both are there and positive; `quotient` is the context's
division. -/
def ratioOf (quotient : ℚ → ℚ → ℚ) (byTs : Dict ℤ Bar) (old : Bar) : Option (ℤ × ℚ) :=
  match byTs.get? old.ts with
  | none => none
  | some new =>
    match old.adjClose, new.adjClose with
    | some p, some q => if p ≤ 0 ∨ q ≤ 0 then none else some (old.ts, quotient p q)
    | _, _ => none

def ratios (quotient : ℚ → ℚ → ℚ) (stored fresh : List Bar) : List (ℤ × ℚ) :=
  stored.filterMap (ratioOf quotient (freshByTs fresh))

def movedOf (ratios : List (ℤ × ℚ)) : List (ℤ × ℚ) := ratios.filter fun p => unchangedTolerance < |p.2 - 1|

/-- **`detect_adjustment`.** -/
def detectAdjustment (quotient : ℚ → ℚ → ℚ) (symbol : String) (stored fresh : List Bar) : Option Adjustment :=
  let ratios := ratios quotient stored fresh
  let moved := movedOf ratios
  (middle (moved.map Prod.snd)).map fun factor =>
    { symbol := symbol
      factor := factor
      barsCompared := ratios.length
      barsAgreeing := ratios.countP fun p => |p.2 - factor| ≤ agreementTolerance
      earliestMovedAt := (moved.map Prod.fst).min? }

/-! ### The context's division -/

/-- What twenty-eight digits can write, at most twenty-eight of them decimals. -/
def Short (c : ℚ) : Prop := ∃ n : ℤ, ∃ k ≤ 28, |n| < 10 ^ 28 ∧ c = n / 10 ^ k

/-- **A quotient rounded to twenty-eight digits**: on the side of every short number that the exact one is on, and off by the
last digit at most. -/
structure Rounds (quotient : ℚ → ℚ → ℚ) : Prop where
  atMost : ∀ c p q, Short c → 0 < q → p ≤ c * q → quotient p q ≤ c
  atLeast : ∀ c p q, Short c → 0 < q → c * q ≤ p → c ≤ quotient p q
  near : ∀ p q, 0 < q → q ≤ 10 ^ 9 * p → |quotient p q - p / q| ≤ p / q / 10 ^ 27

/-- Division without a rounding is one. -/
theorem Rounds.exact : Rounds fun p q => p / q := by
  constructor
  case atMost => exact fun c p q _ hq hle => (div_le_iff₀ hq).2 hle
  case atLeast => exact fun c p q _ hq hle => (le_div_iff₀ hq).2 hle
  case near =>
    intro p q hq hshare
    have hp : 0 ≤ p := by linarith
    rw [sub_self, abs_zero]
    positivity

/-! ### When the ratios gather -/

/-- No more than half of a list lies below a band around a value, and more than half not above it. -/
def Around (l : List ℚ) (c width : ℚ) : Prop :=
  l.countP (fun r => r < c - width) ≤ l.length / 2 ∧ l.length / 2 < l.countP fun r => r ≤ c + width

instance (l : List ℚ) (c width : ℚ) : Decidable (Around l c width) := inferInstanceAs (Decidable (_ ∧ _))

/-- **The ratios gather** around each of their own, and around a factor. -/
structure Gathered (l : List ℚ) (f : ℚ) : Prop where
  agree : ∀ r ∈ l, Around l r agreementTolerance
  near : Around l f (agreementTolerance * f)

/-- The middle is within a band exactly when the list lies around its centre. -/
theorem middle_within {l : List ℚ} {m : ℚ} (h : middle l = some m) (c width : ℚ) : |c - m| ≤ width ↔ Around l c width := by
  unfold Around
  rw [← le_middle h, ← middle_le h, abs_le]
  constructor
  · rintro ⟨hlow, hhigh⟩
    exact ⟨by linarith, by linarith⟩
  · rintro ⟨hlow, hhigh⟩
    exact ⟨by linarith, by linarith⟩

section
variable {quotient : ℚ → ℚ → ℚ} {stored fresh : List Bar} {f : ℚ} {price refreshed : Bar → ℚ}

/-- What is looked up among the fresh bars is a bar of that instant, where there is one. -/
theorem freshByTs_get? (fresh : List Bar) (ts : ℤ) :
    (freshByTs fresh).get? ts = (fresh.filter fun bar => bar.ts = ts).getLast? := by
  unfold freshByTs
  rw [Dict.get?_foldl_set]
  simp

theorem freshByTs_mem {ts : ℤ} {new : Bar} (h : (freshByTs fresh).get? ts = some new) : new ∈ fresh ∧ new.ts = ts := by
  rw [freshByTs_get?] at h
  simpa using List.mem_filter.1 (List.mem_of_getLast? h)

theorem ratioOf_some {byTs : Dict ℤ Bar} {old : Bar} {r : ℤ × ℚ} (h : ratioOf quotient byTs old = some r) :
    ∃ new p q, byTs.get? old.ts = some new ∧ old.adjClose = some p ∧ new.adjClose = some q ∧ 0 < q ∧
      r = (old.ts, quotient p q) := by
  unfold ratioOf at h
  split at h
  · cases h
  · rename_i new hnew
    split at h
    · rename_i p q hp hq
      split at h
      · cases h
      · rename_i hpositive
        cases h
        exact ⟨new, p, q, hnew, hp, hq, not_le.1 fun hle => hpositive (.inr hle), rfl⟩
    · cases h

/-- A nearest whole cent, of one kind of rounding or another. -/
def Cents (x q : ℚ) : Prop := (∃ n : ℤ, q = n / 100) ∧ |q - x| ≤ 1 / 200

/-- **A history restated by one action**: every bar is fetched anew, at its close over the factor, rounded to the cent. -/
structure Restated (stored fresh : List Bar) (f : ℚ) (price refreshed : Bar → ℚ) : Prop where
  enough : 3 ≤ stored.length
  adjusted : ∀ b ∈ stored, b.adjClose = some (price b)
  dollar : ∀ b ∈ stored, 1 ≤ price b
  fetched : ∀ b ∈ stored, ∃ new ∈ fresh, new.ts = b.ts
  anew : ∀ b ∈ stored, ∀ new ∈ fresh, new.ts = b.ts → new.adjClose = some (refreshed b)
  rounded : ∀ b ∈ stored, Cents (price b / f) (refreshed b)
  positive : ∀ b ∈ stored, 0 < refreshed b

theorem Restated.ratioOf (h : Restated stored fresh f price refreshed) {b : Bar} (hb : b ∈ stored) :
    CorporateActions.ratioOf quotient (freshByTs fresh) b = some (b.ts, quotient (price b) (refreshed b)) := by
  obtain ⟨n, hn, hts⟩ := h.fetched b hb
  have hsome : (freshByTs fresh).get? b.ts ≠ none := by
    rw [freshByTs_get?, Ne, List.getLast?_eq_none_iff]
    exact List.ne_nil_of_mem (List.mem_filter.2 ⟨hn, by simpa using hts⟩)
  obtain ⟨new, hnew⟩ := Option.ne_none_iff_exists'.1 hsome
  obtain ⟨hmem, heq⟩ := freshByTs_mem hnew
  have hdollar := h.dollar b hb
  unfold CorporateActions.ratioOf
  rw [hnew]
  dsimp only
  rw [h.adjusted b hb, h.anew b hb new hmem heq]
  dsimp only
  rw [if_neg]
  rintro (hle | hle)
  · linarith
  · exact absurd hle (not_le.2 (h.positive b hb))

theorem Restated.ratios (h : Restated stored fresh f price refreshed) :
    CorporateActions.ratios quotient stored fresh = stored.map fun b => (b.ts, quotient (price b) (refreshed b)) := by
  unfold CorporateActions.ratios
  rw [← List.filterMap_eq_map]
  exact List.filterMap_congr fun b hb => h.ratioOf hb

/-- The factor of a positive restatement is positive. -/
theorem Restated.factor_pos (h : Restated stored fresh f price refreshed) {b : Bar} (hb : b ∈ stored) : 0 < f := by
  obtain ⟨⟨n, hn⟩, hround⟩ := h.rounded b hb
  have hpos := h.positive b hb
  have hdollar := h.dollar b hb
  have hn : 1 ≤ n := by
    rw [hn] at hpos
    have : (0 : ℚ) < n := by linarith
    exact_mod_cast this
  have hcent : (1 : ℚ) ≤ n := by exact_mod_cast hn
  have hshare : 0 < price b / f := by
    have := (abs_le.1 hround).2
    linarith
  rcases div_pos_iff.1 hshare with ⟨-, hpos⟩ | ⟨hneg, -⟩
  · exact hpos
  · linarith

/-- **An action of more than one percent moves every close of a dollar**, rounded as it may be. -/
theorem Restated.moves (hquotient : Rounds quotient) (h : Restated stored fresh f price refreshed) (hf : 1 / 100 < |f - 1|)
    {b : Bar} (hb : b ∈ stored) : unchangedTolerance < |quotient (price b) (refreshed b) - 1| := by
  have hfactor := h.factor_pos hb
  have hq := h.positive b hb
  have hdollar := h.dollar b hb
  obtain ⟨hlow, hhigh⟩ := abs_le.1 (h.rounded b hb).2
  have hprice : price b = price b / f * f := (div_mul_cancel₀ _ hfactor.ne').symm
  have hshare : 0 < price b / f := div_pos (by linarith) hfactor
  unfold unchangedTolerance
  rcases lt_abs.1 hf with hup | hdown
  · have hfall : price b / f * (101 / 100) < price b := by
      conv_rhs => rw [hprice]
      exact mul_lt_mul_of_pos_left (by linarith) hshare
    have habove : 1001 / 1000 ≤ quotient (price b) (refreshed b) :=
      hquotient.atLeast _ _ _ ⟨1001, 3, by decide, by decide, by norm_num⟩ hq (by linarith)
    exact lt_abs.2 (.inl (by linarith))
  · have hrise : price b < price b / f * (99 / 100) := by
      conv_lhs => rw [hprice]
      exact mul_lt_mul_of_pos_left (by linarith) hshare
    have hbelow : quotient (price b) (refreshed b) ≤ 999 / 1000 :=
      hquotient.atMost _ _ _ ⟨999, 3, by decide, by decide, by norm_num⟩ hq (by linarith)
    exact lt_abs.2 (.inr (by linarith))

/-- What is reported of a history restated by one action. -/
theorem Restated.detected (hquotient : Rounds quotient) (symbol : String) (h : Restated stored fresh f price refreshed)
    (hf : 1 / 100 < |f - 1|) :
    ∃ a, detectAdjustment quotient symbol stored fresh = some a ∧
      middle (stored.map fun b => quotient (price b) (refreshed b)) = some a.factor ∧
      (a.isConsistent = true ↔
        ∀ r ∈ stored.map fun b => quotient (price b) (refreshed b), |r - a.factor| ≤ agreementTolerance) := by
  have hmoved : movedOf (CorporateActions.ratios quotient stored fresh) = CorporateActions.ratios quotient stored fresh := by
    rw [h.ratios]
    refine List.filter_eq_self.2 fun p hp => ?_
    obtain ⟨b, hb, rfl⟩ := List.mem_map.1 hp
    exact decide_eq_true (h.moves hquotient hf hb)
  have hsnd : (CorporateActions.ratios quotient stored fresh).map Prod.snd =
      stored.map fun b => quotient (price b) (refreshed b) := by
    rw [h.ratios, List.map_map]
    rfl
  have henough := h.enough
  have hne : middle (stored.map fun b => quotient (price b) (refreshed b)) ≠ none := by
    rw [Ne, middle_eq_none, List.map_eq_nil_iff]
    rintro rfl
    simp at henough
  obtain ⟨factor, hfactor⟩ := Option.ne_none_iff_exists'.1 hne
  unfold detectAdjustment
  dsimp only
  rw [hmoved, hsnd, hfactor]
  refine ⟨_, rfl, rfl, ?_⟩
  have hlength : (CorporateActions.ratios quotient stored fresh).length = stored.length := by rw [h.ratios, List.length_map]
  unfold Adjustment.isConsistent minBarsCompared
  rw [decide_eq_true_eq, hlength, and_iff_right henough, ← hlength, List.countP_eq_length, ← hsnd, List.forall_mem_map]
  simp only [decide_eq_true_eq]

theorem around_all {l : List ℚ} {c width : ℚ} (hne : l ≠ []) (h : ∀ r ∈ l, |r - c| ≤ width) : Around l c width := by
  have hlow : l.countP (fun r => r < c - width) = 0 := by
    refine List.countP_eq_zero.2 fun r hr => ?_
    have := (abs_le.1 (h r hr)).1
    rw [decide_eq_true_eq, not_lt]
    linarith
  have hhigh : l.countP (fun r => r ≤ c + width) = l.length := by
    refine List.countP_eq_length.2 fun r hr => ?_
    have := (abs_le.1 (h r hr)).2
    rw [decide_eq_true_eq]
    linarith
  have hpos : 0 < l.length := List.length_pos_iff.2 hne
  unfold Around
  rw [hlow, hhigh]
  omega

/-- A ratio is off the factor by what the rounding was, times the factor over the fresh close. -/
theorem Restated.off (h : Restated stored fresh f price refreshed) {b : Bar} (hb : b ∈ stored) :
    |price b / refreshed b - f| * refreshed b ≤ f / 200 := by
  have hfactor := h.factor_pos hb
  have hq := h.positive b hb
  have hgap : (price b / refreshed b - f) * refreshed b = f * (price b / f - refreshed b) := by
    rw [sub_mul, mul_sub, div_mul_cancel₀ _ hq.ne', mul_div_cancel₀ _ hfactor.ne']
  have hround : |price b / f - refreshed b| ≤ 1 / 200 := by
    rw [abs_sub_comm]
    exact (h.rounded b hb).2
  calc |price b / refreshed b - f| * refreshed b = f * |price b / f - refreshed b| := by
        rw [← abs_of_pos hq, ← abs_mul, abs_of_pos hq, hgap, abs_mul, abs_of_pos hfactor]
    _ ≤ f * (1 / 200) := mul_le_mul_of_nonneg_left hround hfactor.le
    _ = f / 200 := by ring

/-- The context's quotient is off the factor by little more. -/
theorem Restated.ratio_near (hquotient : Rounds quotient) (h : Restated stored fresh f price refreshed)
    (hlow : 1 / 10 ^ 8 ≤ f) {b : Bar} (hb : b ∈ stored) (htwo : 2 ≤ refreshed b) (hthrice : 3 * f ≤ refreshed b) :
    |quotient (price b) (refreshed b) - f| ≤ 1 / 600 + 2 * f / 10 ^ 27 ∧
      |quotient (price b) (refreshed b) - f| ≤ agreementTolerance * f := by
  have hfactor := h.factor_pos hb
  have hq := h.positive b hb
  have hdollar := h.dollar b hb
  have hoff := h.off hb
  have hround : |price b / refreshed b - f| ≤ 1 / 600 := by
    refine le_of_mul_le_mul_right (hoff.trans ?_) hq
    linarith
  have hshare : |price b / refreshed b - f| ≤ f / 400 := by
    refine le_of_mul_le_mul_right (hoff.trans ?_) hq
    have : f / 400 * 2 ≤ f / 400 * refreshed b := mul_le_mul_of_nonneg_left htwo (by linarith)
    linarith
  have hprice : refreshed b ≤ 10 ^ 9 * price b := by
    have hcent := (abs_le.1 (h.rounded b hb).2).2
    have hquarter : price b / f ≤ 10 ^ 8 * price b := by
      rw [div_le_iff₀ hfactor]
      have : price b * 1 ≤ price b * (10 ^ 8 * f) := mul_le_mul_of_nonneg_left (by linarith) (by linarith)
      linarith
    linarith
  have hlast := hquotient.near _ _ hq hprice
  have hdouble := (abs_le.1 hshare).2
  have hsplit := abs_sub_le (quotient (price b) (refreshed b)) (price b / refreshed b) f
  unfold agreementTolerance
  constructor
  · linarith
  · linarith

/-- **On fresh closes of two dollars, and of three times the factor in dollars, the ratios gather** whatever the rounding did. -/
theorem Restated.gathered (hquotient : Rounds quotient) (h : Restated stored fresh f price refreshed) (hlow : 1 / 10 ^ 8 ≤ f)
    (hhigh : f ≤ 10 ^ 20) (hclose : ∀ b ∈ stored, 2 ≤ refreshed b ∧ 3 * f ≤ refreshed b) :
    Gathered (stored.map fun b => quotient (price b) (refreshed b)) f := by
  have hne : (stored.map fun b => quotient (price b) (refreshed b)) ≠ [] := by
    have henough := h.enough
    rw [Ne, List.map_eq_nil_iff]
    rintro rfl
    simp at henough
  have hfar : ∀ r ∈ stored.map fun b => quotient (price b) (refreshed b), |r - f| ≤ 1 / 400 ∧ |r - f| ≤ agreementTolerance * f := by
    intro r hr
    obtain ⟨b, hb, rfl⟩ := List.mem_map.1 hr
    obtain ⟨htwo, hthrice⟩ := hclose b hb
    obtain ⟨hcent, hshare⟩ := h.ratio_near hquotient hlow hb htwo hthrice
    exact ⟨hcent.trans (by linarith), hshare⟩
  refine ⟨fun r hr => around_all hne fun r' hr' => ?_, around_all hne fun r hr => (hfar r hr).2⟩
  have hsplit := abs_sub_le r' f r
  have hleft := (hfar r' hr').1
  have hright := (hfar r hr).1
  rw [abs_sub_comm] at hright
  unfold agreementTolerance
  linarith

/-- **One action is recognised as one exactly when the ratios gather**, and no change of a cent on closes of twenty dollars is
taken for one. -/
theorem detectAdjustment_iff (hquotient : Rounds quotient) (symbol : String) :
    (∀ stored fresh f price refreshed, 1 / 100 < |f - 1| → Restated stored fresh f price refreshed →
      ((∃ a, detectAdjustment quotient symbol stored fresh = some a ∧ a.isConsistent = true ∧
          |a.factor - f| ≤ agreementTolerance * f) ↔
        Gathered (stored.map fun b => quotient (price b) (refreshed b)) f)) ∧
      ∀ stored fresh, (∀ b ∈ stored, ∀ new ∈ fresh, new.ts = b.ts → ∀ p ∈ b.adjClose, ∀ q ∈ new.adjClose,
        20 ≤ q ∧ |p - q| ≤ 1 / 100) → detectAdjustment quotient symbol stored fresh = none := by
  constructor
  · intro stored fresh f price refreshed hf h
    obtain ⟨a, ha, hmiddle, hconsistent⟩ := h.detected hquotient symbol hf
    constructor
    · rintro ⟨a', ha', hagree, hnear⟩
      rw [ha] at ha'
      cases ha'
      refine ⟨fun r hr => (middle_within hmiddle r _).1 (hconsistent.1 hagree r hr), ?_⟩
      rw [abs_sub_comm] at hnear
      exact (middle_within hmiddle f _).1 hnear
    · rintro ⟨hagree, hnear⟩
      refine ⟨a, ha, hconsistent.2 fun r hr => (middle_within hmiddle r _).2 (hagree r hr), ?_⟩
      rw [abs_sub_comm]
      exact (middle_within hmiddle f _).2 hnear
  · intro stored fresh h
    unfold detectAdjustment
    dsimp only
    have hnone : movedOf (ratios quotient stored fresh) = [] := by
      refine List.filter_eq_nil_iff.2 fun p hp => ?_
      obtain ⟨b, hb, hratio⟩ := List.mem_filterMap.1 hp
      obtain ⟨new, x, y, hnew, hx, hy, hpos, rfl⟩ := ratioOf_some hratio
      obtain ⟨hmem, hts⟩ := freshByTs_mem hnew
      obtain ⟨htwenty, hcent⟩ := h b hb new hmem hts x hx y hy
      obtain ⟨hless, hmore⟩ := abs_le.1 hcent
      have hbelow : quotient x y ≤ 10005 / 10000 :=
        hquotient.atMost _ _ _ ⟨10005, 4, by decide, by decide, by norm_num⟩ hpos (by linarith)
      have habove : 9995 / 10000 ≤ quotient x y :=
        hquotient.atLeast _ _ _ ⟨9995, 4, by decide, by decide, by norm_num⟩ hpos (by linarith)
      unfold unchangedTolerance
      rw [decide_eq_true_eq, not_lt, abs_le]
      constructor <;> linarith
    rw [hnone]
    rfl

end

theorem unmoved (price : ℚ) : price ≤ price ∧ price ≤ price := ⟨le_rfl, le_rfl⟩

/-- A bar that did not move, with an adjusted close. -/
def adjustedBar (ts : ℤ) (close : ℚ) : Bar where
  symbol := "X"
  ts := ts
  timeframe := .d1
  «open» := close
  high := close
  low := close
  close := close
  volume := 1
  adjClose := some close
  openInside := unmoved close
  closeInside := unmoved close

def history (days : List ℤ) (close : ℤ → ℚ) : List Bar := days.map fun d => adjustedBar d (close d)

theorem history_restated {days : List ℤ} {f : ℚ} {p q : ℤ → ℚ} (henough : 3 ≤ days.length)
    (h : ∀ d ∈ days, 1 ≤ p d ∧ Cents (p d / f) (q d) ∧ 0 < q d) :
    Restated (history days p) (history days q) f (fun b => p b.ts) fun b => q b.ts := by
  have hday {b : Bar} {close : ℤ → ℚ} (hb : b ∈ history days close) : b.ts ∈ days ∧ b = adjustedBar b.ts (close b.ts) := by
    obtain ⟨d, hd, rfl⟩ := List.mem_map.1 hb
    exact ⟨hd, rfl⟩
  constructor
  case enough => simpa [history] using henough
  case adjusted =>
    intro b hb
    rw [(hday hb).2]
    rfl
  case dollar => exact fun b hb => (h b.ts (hday hb).1).1
  case fetched => exact fun b hb => ⟨adjustedBar b.ts (q b.ts), List.mem_map.2 ⟨b.ts, (hday hb).1, rfl⟩, rfl⟩
  case anew =>
    intro b _ new hnew hts
    rw [(hday hnew).2, hts]
    rfl
  case rounded => exact fun b hb => (h b.ts (hday hb).1).2.1
  case positive => exact fun b hb => (h b.ts (hday hb).1).2.2

theorem detectAdjustment_iff_split : ∃ a,
    detectAdjustment (fun p q => p / q) "X" (history [0, 1, 2] fun d => 400 + 4 * d) (history [0, 1, 2] fun d => 100 + d) =
        some a ∧
      a.isConsistent = true ∧ |a.factor - 4| ≤ agreementTolerance * 4 := by
  have hrestated : Restated (history [0, 1, 2] fun d => 400 + 4 * d) (history [0, 1, 2] fun d => 100 + d) 4
      (fun b => 400 + 4 * b.ts) fun b => 100 + b.ts := by
    refine history_restated (by decide) fun d hd => ?_
    have hpos : (0 : ℚ) ≤ d := by
      have : ∀ d ∈ [(0 : ℤ), 1, 2], 0 ≤ d := by decide
      exact_mod_cast this d hd
    refine ⟨by linarith, ⟨⟨100 * (100 + d), by push_cast; ring⟩, ?_⟩, by linarith⟩
    have hzero : (100 + d : ℚ) - (400 + 4 * d) / 4 = 0 := by ring
    rw [hzero]
    norm_num
  refine ((detectAdjustment_iff Rounds.exact "X").1 _ _ 4 _ _ (by norm_num) hrestated).2
    (hrestated.gathered Rounds.exact (by norm_num) (by norm_num) fun b hb => ?_)
  have hpos : ∀ b ∈ history [0, 1, 2] fun d => 400 + 4 * (d : ℚ), 0 ≤ b.ts := by decide +kernel
  have : (0 : ℚ) ≤ b.ts := by exact_mod_cast hpos b hb
  exact ⟨by linarith, by linarith⟩

/-- Ten dollars and a cent, and on the last day two cents more. -/
def tenDollars (d : ℤ) : ℚ := if d = 2 then 1003 / 100 else 1001 / 100

/-- The same at a quarter, to the cent. -/
def tenDollarsQuartered (d : ℤ) : ℚ := if d = 2 then 251 / 100 else 250 / 100

theorem tenDollars_restated : Restated (history [0, 1, 2] tenDollars) (history [0, 1, 2] tenDollarsQuartered) 4
    (fun b => tenDollars b.ts) fun b => tenDollarsQuartered b.ts := by
  refine history_restated (by decide) fun d hd => ?_
  have hcases : d = 0 ∨ d = 1 ∨ d = 2 := by simpa using hd
  rcases hcases with rfl | rfl | rfl
  · exact ⟨by decide +kernel, ⟨⟨250, by decide +kernel⟩, by decide +kernel⟩, by decide +kernel⟩
  · exact ⟨by decide +kernel, ⟨⟨250, by decide +kernel⟩, by decide +kernel⟩, by decide +kernel⟩
  · exact ⟨by decide +kernel, ⟨⟨251, by decide +kernel⟩, by decide +kernel⟩, by decide +kernel⟩

/-- **A split of a ten dollar name is reported inconsistent**, by every rounding of the quotients: the cents are off by less than
half, the ratios by more than the tolerance. -/
theorem split_inconsistent :
    Restated (history [0, 1, 2] tenDollars) (history [0, 1, 2] tenDollarsQuartered) 4 (fun b => tenDollars b.ts)
        (fun b => tenDollarsQuartered b.ts) ∧
      ∀ quotient, Rounds quotient → ∃ a,
        detectAdjustment quotient "X" (history [0, 1, 2] tenDollars) (history [0, 1, 2] tenDollarsQuartered) = some a ∧
          a.isConsistent = false := by
  refine ⟨tenDollars_restated, fun quotient hquotient => ?_⟩
  obtain ⟨a, ha, hmiddle, hconsistent⟩ := tenDollars_restated.detected hquotient "X" (by norm_num)
  refine ⟨a, ha, Bool.eq_false_iff.2 fun hagree => ?_⟩
  have hearly : 4004 / 1000 ≤ quotient (1001 / 100) (250 / 100) :=
    hquotient.atLeast _ _ _ ⟨4004, 3, by decide, by decide, by norm_num⟩ (by norm_num) (by norm_num)
  have hlate : quotient (1003 / 100) (251 / 100) ≤ 3997 / 1000 :=
    hquotient.atMost _ _ _ ⟨3997, 3, by decide, by decide, by norm_num⟩ (by norm_num) (by norm_num)
  have hratios : (history [0, 1, 2] tenDollars).map (fun b => quotient (tenDollars b.ts) (tenDollarsQuartered b.ts)) =
      [quotient (1001 / 100) (250 / 100), quotient (1001 / 100) (250 / 100), quotient (1003 / 100) (251 / 100)] := rfl
  rw [hratios] at hmiddle hconsistent
  -- Two of the three ratios lie above the band around the third, so the middle one does.
  obtain ⟨-, hupper⟩ := (middle_within hmiddle _ _).1 (hconsistent.1 hagree (quotient (1003 / 100) (251 / 100)) (by simp))
  have hfar : ¬quotient (1001 / 100) (250 / 100) ≤ quotient (1003 / 100) (251 / 100) + agreementTolerance := by
    unfold agreementTolerance
    linarith
  simp [List.countP_cons, hfar] at hupper
  split at hupper
  · omega
  · omega

end CorporateActions
end Atp
