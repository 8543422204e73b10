import AlgoTrading.Denials
import AlgoTrading.RateLimit
/-!
# Inspection — what a validation leaves of the book it reads

The nine rules of `default_rules`, and `RiskEngine.validate` with its two books as the objects they are: where nothing in
flight is projected the committed book is the caller's own portfolio, and `MaxExposureRule` asks it for a position by the
accessor that inserts one.  `reads_only_iff` is when that shows.
-/
namespace Atp
namespace Inspection

open Ceilings Projection InFlight

/-- `RiskLimits`, with the two ceilings only the rules that measure no book read. -/
structure Limits extends RiskLimits where
  maxOrdersPerMinute : ℕ := 30
  maxQuoteAgeSeconds : ℕ

/-- **A rule of the nine**, with what it was built over and what its clock reads when it is asked. -/
inductive Rule
  | killSwitch (switch : HaltStore)
  | tradingHours (exchange : String) (isOpen : ℚ → Bool) (now : ℚ) (allowExtendedHours : Bool)
  | rateLimit (now : ℚ) (recent : List ℚ)
  | staleData (now : ℚ) (lastTickAt : String → Option ℚ)
  | maxPositionSize
  | maxExposure
  | maxOpenPositions
  | dailyLossLimit (dayStartEquity : Option ℚ)
  | buyingPower

/-- `TradingHoursRule.check`. -/
def tradingHoursCheck (exchange : String) (isOpen : ℚ → Bool) (now : ℚ) (allowExtendedHours : Bool) : RiskDecision :=
  if allowExtendedHours then .allow
  else if !isOpen now then .deny "trading_hours" [.lit exchange, .lit " is closed at ", .dec now]
  else .allow

/-- `StaleDataRule.check`. -/
def staleDataCheck (now : ℚ) (lastTickAt : String → Option ℚ) (o : Order) (limits : Limits) : RiskDecision :=
  match lastTickAt o.symbol with
  | none => .deny "stale_data" [.lit "no market data has arrived for ", .lit o.symbol]
  | some seen =>
    if limits.maxQuoteAgeSeconds < now - seen then
      .deny "stale_data" [.lit o.symbol, .lit " data is ", .dec (now - seen), .lit "s old, over the ",
        .dec limits.maxQuoteAgeSeconds, .lit "s limit"]
    else .allow

namespace Rule

/-- The verdict of a rule on two books. -/
def check (o : Order) (books : RiskBooks) (limits : Limits) : Rule → RiskDecision
  | killSwitch switch => killSwitchCheck switch o books
  | tradingHours exchange isOpen now allowExtendedHours => tradingHoursCheck exchange isOpen now allowExtendedHours
  | rateLimit now recent => (RateLimit.check now limits.maxOrdersPerMinute recent).1
  | staleData now lastTickAt => staleDataCheck now lastTickAt o limits
  | maxPositionSize => maxPositionSizeCheck o books limits.toRiskLimits
  | maxExposure => maxExposureCheck o books limits.toRiskLimits
  | maxOpenPositions => maxOpenPositionsCheck o books limits.toRiskLimits
  | dailyLossLimit dayStartEquity => dailyLossLimitCheck dayStartEquity o books limits.toRiskLimits
  | buyingPower => buyingPowerCheck o books

def name : Rule → String
  | killSwitch _ => "kill_switch"
  | tradingHours _ _ _ _ => "trading_hours"
  | rateLimit _ _ => "rate_limit"
  | staleData _ _ => "stale_data"
  | maxPositionSize => Ceilings.maxPositionSize
  | maxExposure => maxGrossExposure
  | maxOpenPositions => Ceilings.maxOpenPositions
  | dailyLossLimit _ => Ceilings.dailyLossLimit
  | buyingPower => Ceilings.buyingPower

def isExposure : Rule → Bool
  | maxExposure => true
  | _ => false

end Rule

/-! ## The books as objects -/

/-- **The two books of a validation**: no projection where the committed book is the settled one itself. -/
structure Books where
  settled : Portfolio
  projection : Option Portfolio
  inFlight : Dict String (ℚ × ℚ)

/-- What `validate` builds: `project_pending` returns its own argument where it projects nothing. -/
def Books.of (p : Portfolio) (pending : List Order) : Books where
  settled := p
  projection := if projected p pending = [] then none else some (projectPending p pending)
  inFlight := inFlightBySymbol pending

/-- `Portfolio.position`, for what it does to the book. -/
def insertFlat (p : Portfolio) (symbol : String) : Portfolio :=
  { p with positions := p.positions.setdefault symbol { symbol := symbol } }

namespace Books

def reads (b : Books) : RiskBooks where
  committed := b.projection.getD b.settled
  settled := b.settled
  inFlight := b.inFlight

/-- `books.committed.position(symbol)`. -/
def position (b : Books) (symbol : String) : Books :=
  match b.projection with
  | none => { b with settled := insertFlat b.settled symbol }
  | some c => { b with projection := some (insertFlat c symbol) }

theorem reads_of (p : Portfolio) (pending : List Order) : (Books.of p pending).reads = booksOf p pending := by
  unfold reads Books.of booksOf
  by_cases h : projected p pending = []
  · rw [if_pos h, projectPending_eq, h]
    rfl
  · rw [if_neg h]
    rfl

end Books

/-- `MaxExposureRule.check` comes as far as asking for the position: the order is no exit, and the book can be valued. -/
def asksPosition (o : Order) (books : RiskBooks) : Bool :=
  !closesWithoutReversing o books.settled && books.committed.unmarkedSymbols.isEmpty &&
    (priceFor o books.committed).isSome && decide (0 < books.committed.equity)

/-- The books a rule leaves: one of the nine inserts, the others read. -/
def Rule.leaves (o : Order) (b : Books) (r : Rule) : Books :=
  if r.isExposure && asksPosition o b.reads then b.position o.symbol else b

/-- The loop of `validate`. -/
def inspectRules (limits : Limits) : List Rule → Order → Option { q : ℚ // 0 < q } → Books → RiskDecision × Order × Books
  | [], o, adjusted, b => ({ approved := true, adjustedQty := adjusted }, o, b)
  | r :: rules, o, adjusted, b =>
    let d := r.check o b.reads limits
    if !d.approved then (d, o, r.leaves o b)
    else match d.adjustedQty with
      | none => inspectRules limits rules o adjusted (r.leaves o b)
      | some q => inspectRules limits rules { o with qty := q.1 } (some q) (r.leaves o b)

/-- **`RiskEngine.validate`**: the verdict, the order, and the caller's portfolio as it is afterwards. -/
def inspect (limits : Limits) (rules : List Rule) (o : Order) (p : Portfolio) (pending : List Order) :
    RiskDecision × Order × Portfolio :=
  let r := inspectRules limits rules o none (Books.of p pending)
  (r.1, r.2.1, r.2.2.settled)

/-- No rule of the nine shrinks an order. -/
theorem check_keeps_size (o : Order) (books : RiskBooks) (limits : Limits) (r : Rule) :
    (r.check o books limits).adjustedQty = none := by
  have hfive := Denials.backtestRules_plain
  simp only [backtestRules, List.forall_mem_cons] at hfive
  obtain ⟨hsize, hexposure, hopen, hloss, hpower, -⟩ := hfive
  cases r with
  | killSwitch switch =>
    show (killSwitchCheck switch o books).adjustedQty = none
    unfold killSwitchCheck
    dsimp only
    split
    · rfl
    split
    · rfl
    split
    · rfl
    split <;> rfl
  | tradingHours exchange isOpen now extended =>
    show (tradingHoursCheck exchange isOpen now extended).adjustedQty = none
    unfold tradingHoursCheck
    split
    · rfl
    split <;> rfl
  | rateLimit now recent =>
    show (RateLimit.check now limits.maxOrdersPerMinute recent).1.adjustedQty = none
    unfold RateLimit.check
    dsimp only
    split <;> rfl
  | staleData now lastTickAt =>
    show (staleDataCheck now lastTickAt o limits).adjustedQty = none
    unfold staleDataCheck
    split
    · rfl
    split <;> rfl
  | maxPositionSize => exact (hsize o books limits.toRiskLimits none).2
  | maxExposure => exact (hexposure o books limits.toRiskLimits none).2
  | maxOpenPositions => exact (hopen o books limits.toRiskLimits none).2
  | dailyLossLimit start => exact (hloss o books limits.toRiskLimits start).2
  | buyingPower => exact (hpower o books limits.toRiskLimits none).2

/-! ## The row that is inserted -/

section
variable {p c : Portfolio} {o : Order} {limits : Limits} {symbol : String} {b : Books}

theorem get?_insertFlat (p : Portfolio) (symbol s : String) : (insertFlat p symbol).positions.get? s =
    if s = symbol then some ((p.positions.get? symbol).getD { symbol := symbol }) else p.positions.get? s := by
  unfold insertFlat
  split
  · rename_i h
    rw [h, Dict.get?_setdefault_self]
  · rename_i h
    exact Dict.get?_setdefault_ne _ _ h

/-- A book that has the row keeps it as it is. -/
theorem insertFlat_present (h : symbol ∈ p.positions.keys) : insertFlat p symbol = p := by
  have hcontains : p.positions.contains symbol = true := (p.positions.mem_keys_iff symbol).1 h
  unfold insertFlat Dict.setdefault
  rw [if_pos hcontains]

/-- What a check leaves of the settled book: itself, or itself with the row. -/
theorem leaves_settled (r : Rule) : (r.leaves o b).settled =
    if r.isExposure ∧ asksPosition o b.reads ∧ b.projection = none then insertFlat b.settled o.symbol else b.settled := by
  unfold Rule.leaves Books.position
  cases hr : r.isExposure <;> cases ha : asksPosition o b.reads <;> cases hb : b.projection <;> simp

/-- A projection is a copy: nothing done to it reaches the caller's book. -/
theorem leaves_projection (r : Rule) : (r.leaves o b).projection = none ↔ b.projection = none := by
  unfold Rule.leaves Books.position
  cases hr : r.isExposure <;> cases ha : asksPosition o b.reads <;> cases hb : b.projection <;> simp [hb]

/-- The rows a chain finds, it leaves. -/
theorem inspectRules_present : ∀ {rules : List Rule} {adjusted : Option { q : ℚ // 0 < q }} {b : Books},
    o.symbol ∈ b.settled.positions.keys → (inspectRules limits rules o adjusted b).2.2.settled = b.settled
  | [], _, _, _ => rfl
  | r :: rules, adjusted, b, h => by
    have hleaves : (r.leaves o b).settled = b.settled := by
      rw [leaves_settled]
      split
      · exact insertFlat_present h
      · rfl
    unfold inspectRules
    simp only [check_keeps_size]
    split
    · exact hleaves
    · rw [inspectRules_present (hleaves ▸ h), hleaves]

theorem inspectRules_copied : ∀ {rules : List Rule} {adjusted : Option { q : ℚ // 0 < q }} {b : Books},
    b.projection ≠ none → (inspectRules limits rules o adjusted b).2.2.settled = b.settled
  | [], _, _, _ => rfl
  | r :: rules, adjusted, b, h => by
    have hleaves : (r.leaves o b).settled = b.settled := by
      rw [leaves_settled, if_neg fun hn => h hn.2.2]
    unfold inspectRules
    simp only [check_keeps_size]
    split
    · exact hleaves
    · rw [inspectRules_copied ((not_congr (leaves_projection r)).2 h), hleaves]

end

/-! ## The row changes no verdict -/

/-- Two books a rule cannot tell apart. -/
structure Same (p q : Portfolio) : Prop where
  held : ∀ s, q.held s = p.held s
  mark : ∀ s, (q.positions.get? s).bind Position.lastPrice = (p.positions.get? s).bind Position.lastPrice
  reduces : ∀ o, reducesPosition o q = reducesPosition o p
  cash : q.cash = p.cash
  equity : q.equity = p.equity
  grossExposure : q.grossExposure = p.grossExposure
  openPositions : q.openPositions = p.openPositions
  unmarked : q.unmarkedSymbols = p.unmarkedSymbols

theorem Same.refl (p : Portfolio) : Same p p := ⟨fun _ => rfl, fun _ => rfl, fun _ => rfl, rfl, rfl, rfl, rfl, rfl⟩

theorem Same.trans {p q r : Portfolio} (h : Same p q) (h' : Same q r) : Same p r :=
  ⟨fun s => (h'.held s).trans (h.held s), fun s => (h'.mark s).trans (h.mark s), fun o => (h'.reduces o).trans (h.reduces o),
    h'.cash.trans h.cash, h'.equity.trans h.equity, h'.grossExposure.trans h.grossExposure,
    h'.openPositions.trans h.openPositions, h'.unmarked.trans h.unmarked⟩

/-- **A flat row without a mark is as good as none.** -/
theorem insertFlat_same (p : Portfolio) (symbol : String) : Same p (insertFlat p symbol) := by
  by_cases hrow : symbol ∈ p.positions.keys
  · rw [insertFlat_present hrow]
    exact .refl p
  · have hnone : p.positions.get? symbol = none := by
      rw [Dict.mem_keys_iff, Option.not_isSome_iff_eq_none] at hrow
      exact hrow
    have hvalues : (insertFlat p symbol).positions.values = p.positions.values ++ [{ symbol := symbol }] := by
      have hcontains : p.positions.contains symbol = false := by rw [Dict.contains, hnone]; rfl
      unfold insertFlat Dict.setdefault
      rw [if_neg (by rw [hcontains]; decide)]
      exact Dict.values_set_new _ hnone
    have hget := get?_insertFlat p symbol
    constructor
    · intro s
      simp only [Portfolio.held, Portfolio.position, hget]
      split
      · rename_i h
        rw [h, hnone]
        rfl
      · rfl
    · intro s
      rw [hget]
      split
      · rename_i h
        rw [h, hnone]
        rfl
      · rfl
    · intro o
      unfold reducesPosition
      rw [hget]
      by_cases hs : o.symbol = symbol
      · rw [if_pos hs, hs, hnone]
        rfl
      · rw [if_neg hs]
    · rfl
    · unfold Portfolio.equity Portfolio.totalMarketValue
      rw [hvalues]
      simp [insertFlat, Position.marketValue]
    · unfold Portfolio.grossExposure
      rw [hvalues]
      simp [Position.exposure, Position.marketValue]
    · unfold Portfolio.openPositions
      rw [hvalues]
      simp [Position.isFlat]
    · unfold Portfolio.unmarkedSymbols
      rw [hvalues]
      simp [Position.isFlat]

theorem Same.closes {p q : Portfolio} (h : Same p q) (o : Order) : closesWithoutReversing o q = closesWithoutReversing o p := by
  unfold closesWithoutReversing
  rw [h.reduces, h.held]

theorem Same.priceFor {p q : Portfolio} (h : Same p q) (o : Order) : priceFor o q = priceFor o p := by
  unfold Ceilings.priceFor referencePrice
  rw [h.mark]

theorem Same.producible {b b' : RiskBooks} (hc : Same b.committed b'.committed) (hs : Same b.settled b'.settled)
    (hf : b'.inFlight = b.inFlight) (symbol : String) : producibleQuantities symbol b' = producibleQuantities symbol b := by
  unfold producibleQuantities
  rw [hs.held, hc.held, hf]

theorem Same.addWorking {b b' : RiskBooks} (hc : Same b.committed b'.committed) (hs : Same b.settled b'.settled)
    (hf : b'.inFlight = b.inFlight) (o : Order) : ∀ (l : List String) (total : ℚ), addWorking o b' l total = addWorking o b l total
  | [], _ => rfl
  | symbol :: rest, total => by
    unfold Ceilings.addWorking worstMagnitude
    simp only [hc.held, hc.mark, Same.producible hc hs hf, Same.addWorking hc hs hf o rest]

/-- **No rule tells them apart.** -/
theorem Same.check {b b' : RiskBooks} (hc : Same b.committed b'.committed) (hs : Same b.settled b'.settled)
    (hf : b'.inFlight = b.inFlight) (o : Order) (limits : Limits) (r : Rule) : r.check o b' limits = r.check o b limits := by
  have hproducible := Same.producible hc hs hf
  have hvalued (rule : String) (measure : ℚ → ℚ → RiskDecision) : valued rule o b' measure = valued rule o b measure := by
    unfold valued unpricedBook
    rw [hs.closes, hc.unmarked, hc.priceFor, hc.equity]
  cases r with
  | killSwitch switch =>
    show killSwitchCheck switch o b' = killSwitchCheck switch o b
    unfold killSwitchCheck
    rw [hs.reduces, hs.closes, hs.held]
  | tradingHours | rateLimit | staleData => rfl
  | maxPositionSize =>
    show maxPositionSizeCheck o b' _ = maxPositionSizeCheck o b _
    unfold maxPositionSizeCheck worstResultingQty
    rw [hvalued, hproducible]
  | maxExposure =>
    show maxExposureCheck o b' _ = maxExposureCheck o b _
    unfold maxExposureCheck ownExposure worstResultingQty
    rw [hvalued, hproducible, hc.held, hc.grossExposure, hf]
    simp only [Same.addWorking hc hs hf]
  | maxOpenPositions =>
    show maxOpenPositionsCheck o b' _ = maxOpenPositionsCheck o b _
    unfold maxOpenPositionsCheck
    rw [hc.held, hc.openPositions]
  | dailyLossLimit start =>
    show dailyLossLimitCheck start o b' _ = dailyLossLimitCheck start o b _
    unfold dailyLossLimitCheck unpricedBook
    rw [hs.reduces, hc.unmarked, hc.equity]
  | buyingPower =>
    show buyingPowerCheck o b' = buyingPowerCheck o b
    unfold buyingPowerCheck
    rw [hs.reduces, hc.priceFor, hc.cash]

theorem Books.position_same (b : Books) (symbol : String) : Same b.reads.committed (b.position symbol).reads.committed ∧
    Same b.reads.settled (b.position symbol).reads.settled ∧ (b.position symbol).reads.inFlight = b.reads.inFlight := by
  unfold Books.position Books.reads
  cases hb : b.projection with
  | none => exact ⟨by simpa [hb] using insertFlat_same b.settled symbol, insertFlat_same b.settled symbol, rfl⟩
  | some c => exact ⟨by simpa using insertFlat_same c symbol, .refl _, rfl⟩

/-- A rule of the nine in a chain that takes the books as values. -/
def Rule.onValues (r : Rule) : RiskRule Limits Unit where
  name := r.name
  check o books limits s := (r.check o books limits, s)

theorem inspectRules_answers (limits : Limits) (o : Order) : ∀ (rules : List Rule) (b : Books) (books : RiskBooks),
    Same books.committed b.reads.committed → Same books.settled b.reads.settled → b.reads.inFlight = books.inFlight →
      ((inspectRules limits rules o none b).1, (inspectRules limits rules o none b).2.1, ()) =
        runRules books limits (rules.map Rule.onValues) o none ()
  | [], _, _, _, _, _ => rfl
  | r :: rules, b, books, hc, hs, hf => by
    have hcheck := Same.check hc hs hf o limits r
    have ih : ((inspectRules limits rules o none (r.leaves o b)).1, (inspectRules limits rules o none (r.leaves o b)).2.1, ()) =
        runRules books limits (rules.map Rule.onValues) o none () := by
      obtain ⟨hc', hs', hf'⟩ := b.position_same o.symbol
      apply inspectRules_answers limits o rules
      · unfold Rule.leaves
        split
        · exact hc.trans hc'
        · exact hc
      · unfold Rule.leaves
        split
        · exact hs.trans hs'
        · exact hs
      · unfold Rule.leaves
        split
        · exact hf'.trans hf
        · exact hf
    unfold inspectRules runRules
    simp only [Rule.onValues, hcheck, check_keeps_size, List.map_cons]
    cases (r.check o books limits).approved with
    | false => rfl
    | true => exact ih

/-- **What is inserted changes no answer**: verdict and order are those of the chain over books that nothing touches. -/
theorem inspect_answers (limits : Limits) (rules : List Rule) (o : Order) (p : Portfolio) (pending : List Order) :
    ((inspect limits rules o p pending).1, (inspect limits rules o p pending).2.1, ()) =
      validate limits (rules.map Rule.onValues) o p pending () := by
  refine inspectRules_answers limits o rules (Books.of p pending) (booksOf p pending) ?_ ?_ ?_ <;> rw [Books.reads_of]
  · exact .refl _
  · exact .refl _

/-! ## When a validation only reads -/

/-- The chain comes to its first exposure rule: every rule before it approves. -/
def Reached (limits : Limits) (books : RiskBooks) (o : Order) (rules : List Rule) : Prop :=
  ∃ pre post, rules = pre ++ .maxExposure :: post ∧ ∀ r ∈ pre, r.isExposure = false ∧ (r.check o books limits).approved = true

/-- **The chain comes to its exposure rule with a new symbol to value**: every rule before it approves, the order has a limit
price and a symbol the book has no row of, nothing in flight is projected, and the book is marked and worth something. -/
structure OpensRow (limits : Limits) (rules : List Rule) (o : Order) (p : Portfolio) (pending : List Order) : Prop where
  reached : Reached limits (booksOf p pending) o rules
  absent : o.symbol ∉ p.positions.keys
  alone : projected p pending = []
  priced : o.limitPrice.isSome
  marked : p.unmarkedSymbols = []
  funded : 0 < p.equity

section
variable {p : Portfolio} {o : Order} {limits : Limits} {b : Books}

/-- Where the book cannot be valued for the order, no rule inserts. -/
theorem inspectRules_quiet (h : asksPosition o b.reads = false) : ∀ {rules : List Rule} {adjusted : Option { q : ℚ // 0 < q }},
    (inspectRules limits rules o adjusted b).2.2.settled = b.settled
  | [], _ => rfl
  | r :: rules, adjusted => by
    have hleaves : r.leaves o b = b := by
      unfold Rule.leaves
      rw [h, Bool.and_false]
      rfl
    unfold inspectRules
    simp only [check_keeps_size, hleaves]
    split
    · rfl
    · exact inspectRules_quiet h

theorem reached_cons {books : RiskBooks} {r : Rule} {rules : List Rule} (hr : r.isExposure = false) :
    Reached limits books o (r :: rules) ↔ (r.check o books limits).approved = true ∧ Reached limits books o rules := by
  constructor
  · rintro ⟨pre, post, hsplit, hpre⟩
    cases pre with
    | nil =>
      rw [List.nil_append, List.cons.injEq] at hsplit
      rw [hsplit.1] at hr
      cases hr
    | cons x pre =>
      rw [List.cons_append, List.cons.injEq] at hsplit
      obtain ⟨rfl, rfl⟩ := hsplit
      exact ⟨(hpre r (by simp)).2, pre, post, rfl, fun y hy => hpre y (List.mem_cons_of_mem _ hy)⟩
  · rintro ⟨happroved, pre, post, rfl, hpre⟩
    refine ⟨r :: pre, post, rfl, fun y hy => ?_⟩
    obtain rfl | hy := List.mem_cons.1 hy
    · exact ⟨hr, happroved⟩
    · exact hpre y hy

/-- **What is inserted, and when**: over a book without the row, that no projection stands before. -/
theorem inspectRules_settled (habsent : o.symbol ∉ b.settled.positions.keys) (hshared : b.projection = none)
    (hasks : asksPosition o b.reads = true) : ∀ {rules : List Rule} {adjusted : Option { q : ℚ // 0 < q }},
    ((inspectRules limits rules o adjusted b).2.2.settled = b.settled ↔ ¬Reached limits b.reads o rules)
  | [], adjusted => by
    refine iff_of_true rfl ?_
    rintro ⟨pre, post, hsplit, -⟩
    exact List.append_ne_nil_of_right_ne_nil pre (List.cons_ne_nil _ post) hsplit.symm
  | r :: rules, adjusted => by
    cases hr : r.isExposure with
    | true =>
      have hleaves : (r.leaves o b).settled = insertFlat b.settled o.symbol := by rw [leaves_settled, if_pos ⟨hr, hasks, hshared⟩]
      have hrow : o.symbol ∈ (r.leaves o b).settled.positions.keys := by
        rw [hleaves, Dict.mem_keys_iff, get?_insertFlat, if_pos rfl]
        rfl
      have hchanged : (r.leaves o b).settled ≠ b.settled := fun heq => habsent (heq ▸ hrow)
      have hreached : Reached limits b.reads o (r :: rules) := by
        refine ⟨[], rules, ?_, by simp⟩
        cases r <;> first | rfl | cases hr
      refine iff_of_false ?_ (not_not.2 hreached)
      unfold inspectRules
      simp only [check_keeps_size]
      split
      · exact hchanged
      · rw [inspectRules_present hrow]
        exact hchanged
    | false =>
      have hleaves : r.leaves o b = b := by
        unfold Rule.leaves
        rw [hr, Bool.false_and]
        rfl
      rw [reached_cons hr]
      unfold inspectRules
      simp only [check_keeps_size, hleaves]
      cases happroved : (r.check o b.reads limits).approved with
      | false => simp
      | true =>
        simp only [Bool.not_true, Bool.false_eq_true, if_false, true_and]
        exact inspectRules_settled habsent hshared hasks

/-- The book can be valued for an order in a new symbol exactly where the order brings its own price. -/
theorem asksPosition_iff {pending : List Order} (habsent : o.symbol ∉ p.positions.keys) (halone : projected p pending = []) :
    asksPosition o (booksOf p pending) = true ↔ o.limitPrice.isSome ∧ p.unmarkedSymbols = [] ∧ 0 < p.equity := by
  have hnone : p.positions.get? o.symbol = none := by
    rw [Dict.mem_keys_iff, Option.not_isSome_iff_eq_none] at habsent
    exact habsent
  have hcommitted : (booksOf p pending).committed = p := by
    show projectPending p pending = p
    rw [projectPending_eq, halone]
    rfl
  have hexit : closesWithoutReversing o (booksOf p pending).settled = false := by
    show closesWithoutReversing o p = false
    simp [closesWithoutReversing, reducesPosition, hnone]
  have hprice : priceFor o p = o.limitPrice := by
    unfold priceFor referencePrice
    rw [hnone]
    cases o.limitPrice <;> rfl
  unfold asksPosition
  rw [hexit, hcommitted, hprice]
  simp only [Bool.not_false, Bool.true_and, Bool.and_eq_true, List.isEmpty_iff, decide_eq_true_eq]
  tauto

end

/-- **Validation only reads the book, unless it opens a row**: the portfolio is as it was, rows and cash, exactly where the
chain does not come to value an order in a symbol it has none of. -/
theorem reads_only_iff (limits : Limits) (rules : List Rule) (o : Order) (p : Portfolio) (pending : List Order) :
    (inspect limits rules o p pending).2.2 = p ↔ ¬OpensRow limits rules o p pending := by
  unfold inspect
  dsimp only
  have hreads := Books.reads_of p pending
  by_cases hrow : o.symbol ∈ p.positions.keys
  · exact iff_of_true (inspectRules_present (b := Books.of p pending) hrow) fun h => h.absent hrow
  by_cases halone : projected p pending = []
  · have hshared : (Books.of p pending).projection = none := if_pos halone
    cases hasks : asksPosition o (booksOf p pending) with
    | false =>
      refine iff_of_true (inspectRules_quiet (b := Books.of p pending) (hreads ▸ hasks)) fun h => ?_
      rw [(asksPosition_iff hrow halone).2 ⟨h.priced, h.marked, h.funded⟩] at hasks
      cases hasks
    | true =>
      have hsettled : (inspectRules limits rules o none (Books.of p pending)).2.2.settled = p ↔
          ¬Reached limits (Books.of p pending).reads o rules := inspectRules_settled hrow hshared (hreads ▸ hasks)
      rw [hreads] at hsettled
      refine hsettled.trans (not_congr ⟨fun h => ?_, fun h => h.reached⟩)
      obtain ⟨hpriced, hmarked, hfunded⟩ := (asksPosition_iff hrow halone).1 hasks
      exact ⟨h, hrow, halone, hpriced, hmarked, hfunded⟩
  · have hcopied : (Books.of p pending).projection ≠ none := by
      show ¬(if projected p pending = [] then none else some (projectPending p pending)) = none
      rw [if_neg halone]
      simp
    exact iff_of_true (inspectRules_copied hcopied) fun h => halone h.alone

/-! ## A limit entry into an empty book -/

def emptyBook : Portfolio where
  cash := 10000
  startingEquity := 10000

def limitBuy : Order where
  symbol := "AAPL"
  side := .buy
  qty := 10
  orderType := .limit
  limitPrice := some 50
  id := "o-1"
  clientOrderId := "c-1"

def fresh95 : Limits := { limits95 with maxQuoteAgeSeconds := 30 }

/-- `default_rules` on a quiet morning. -/
def defaultRules : List Rule :=
  [.killSwitch { stored := fun _ => none }, .tradingHours "NYSE" (fun _ => true) 1000 false, .rateLimit 1000 [],
    .staleData 1000 (fun _ => some 999), .maxPositionSize, .maxExposure, .maxOpenPositions, .dailyLossLimit (some 10000),
    .buyingPower]

/-- **An approved entry leaves a row behind**, in the book it was only judged against. -/
theorem limit_entry_inserts : (inspect fresh95 defaultRules limitBuy emptyBook []).1.approved = true ∧
    (inspect fresh95 defaultRules limitBuy emptyBook []).2.2.positions.keys = ["AAPL"] ∧ emptyBook.positions.keys = [] ∧
      ¬ ∀ (limits : Limits) (rules : List Rule) (o : Order) (p : Portfolio) (pending : List Order),
        (inspect limits rules o p pending).2.2 = p := by
  have hkeys : (inspect fresh95 defaultRules limitBuy emptyBook []).2.2.positions.keys = ["AAPL"] := by decide +kernel
  refine ⟨by decide +kernel, hkeys, rfl, fun h => ?_⟩
  rw [h fresh95 defaultRules limitBuy emptyBook []] at hkeys
  exact absurd hkeys (by decide +kernel)

end Inspection
end Atp
