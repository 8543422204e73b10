import AlgoTrading.Columns
import AlgoTrading.FirstWrites
import AlgoTrading.Market
/-!
# DecisionStorage — strategies and their decisions, stored once

`PostgresStrategyRepository` of `persistence/strategies.py` and `PostgresSignalRepository` of `persistence/signals.py`.  A booting
worker and an author may both make a strategy's row, and a decision is saved as often as its outcome is known; what stands in a
row is what its first write put there, less what a later write may move.  The JSON columns are dictionaries whose values nothing
here reads.
-/
namespace Atp
namespace DecisionStorage

open Columns (rounded Holds)
open FirstWrites

/-- A JSON object, its values any. -/
abbrev JsonDict (J : Type) := List (String × J)

/-! ## Strategies -/

inductive StrategyState where
  | draft
  | backtesting
  | paper
  | live
  | paused
  | halted
deriving DecidableEq, Repr

structure StrategyRecord (J : Type) where
  id : String
  name : String
  kind : String
  className : Option String := none
  params : Option (JsonDict J) := none
  «universe» : List String := []
  timeframe : String := "1d"

structure NewStrategy (J : Type) where
  id : String
  name : String
  kind : String
  description : String := ""
  className : Option String := none
  params : JsonDict J := []
  ruleset : Option (JsonDict J) := none
  «universe» : List String := []
  timeframe : String := "1d"
  riskConfig : JsonDict J := []

/-- A row of `strategies`. -/
structure StrategyRow (J : Type) where
  id : String
  name : String
  description : String
  kind : String
  className : Option String
  params : JsonDict J
  ruleset : Option (JsonDict J)
  state : StrategyState
  «universe» : List String
  timeframe : String
  riskConfig : JsonDict J
  createdAt : ℤ
  updatedAt : ℤ

variable {J : Type}

/-- **`first_boot_values`**; `risk_config` is the column's default. -/
def firstBootValues (record : StrategyRecord J) (now : ℤ) : StrategyRow J where
  id := record.id
  name := record.name
  description := ""
  kind := record.kind
  className := record.className
  params := record.params.getD []
  ruleset := none
  state := .draft
  «universe» := record.universe
  timeframe := record.timeframe
  riskConfig := []
  createdAt := now
  updatedAt := now

/-- **`authored_values`**. -/
def authoredValues (new : NewStrategy J) (now : ℤ) : StrategyRow J where
  id := new.id
  name := new.name
  description := new.description
  kind := new.kind
  className := new.className
  params := new.params
  ruleset := new.ruleset
  state := .draft
  «universe» := new.universe
  timeframe := new.timeframe
  riskConfig := new.riskConfig
  createdAt := now
  updatedAt := now

/-- `set_={"updated_at": now}`. -/
def touched (old proposed : StrategyRow J) : StrategyRow J := { old with updatedAt := proposed.updatedAt }

/-- The columns take the row. -/
def StrategyRow.Fits (row : StrategyRow J) : Prop :=
  row.id.length ≤ 36 ∧ row.name.length ≤ 100 ∧ row.kind.length ≤ 20 ∧ (∀ c ∈ row.className, c.length ≤ 100) ∧
    row.timeframe.length ≤ 8

instance (row : StrategyRow J) : Decidable row.Fits := inferInstanceAs (Decidable (_ ∧ _))

/-! ## Signals -/

/-- A `Signal` as far as it is stored; the prices it carries are not. -/
structure Decision (V : Type) where
  strategyId : String
  symbol : String
  action : SignalAction
  ts : ℤ
  id : String
  strength : ℚ := 1
  reason : String := ""
  indicators : List (String × V) := []
deriving DecidableEq

structure SignalOutcome where
  actedOn : Bool
  rejectionReason : Option String := none
  rejectedBy : Option String := none
deriving DecidableEq, Repr

structure SignalRow where
  id : String
  strategyId : String
  symbol : String
  action : SignalAction
  ts : ℤ
  strength : ℚ
  reason : String
  indicators : List (String × String)
  actedOn : Bool
  rejectionReason : Option String
  rejectedBy : Option String
deriving DecidableEq

/-- The row `save` proposes; `str` is Python's. -/
def signalRow {V : Type} (str : V → String) (signal : Decision V) (outcome : SignalOutcome) : SignalRow where
  id := signal.id
  strategyId := signal.strategyId
  symbol := signal.symbol
  action := signal.action
  ts := signal.ts
  strength := rounded signal.strength
  reason := signal.reason
  indicators := signal.indicators.map fun (k, v) => (k, str v)
  actedOn := outcome.actedOn
  rejectionReason := outcome.rejectionReason
  rejectedBy := outcome.rejectedBy

/-- The outcome is the half that a later save moves. -/
def settled (old proposed : SignalRow) : SignalRow :=
  { old with
    actedOn := proposed.actedOn
    rejectionReason := proposed.rejectionReason
    rejectedBy := proposed.rejectedBy }

def SignalRow.Fits (row : SignalRow) : Prop :=
  row.id.length ≤ 36 ∧ row.strategyId.length ≤ 36 ∧ row.symbol.length ≤ 20 ∧ Holds row.strength ∧
    ∀ rule ∈ row.rejectedBy, rule.length ≤ 50

instance (row : SignalRow) : Decidable row.Fits := inferInstanceAs (Decidable (_ ∧ _))

/-- **`_split_reason`**: the packed form of older rows; `strip` is Python's. -/
def splitReason (strip : String → String) : Option String → Option String × Option String
  | none => (none, none)
  | some text =>
    match text.toList with
    | '[' :: tail =>
      if ']' ∈ tail then
        let rest := strip (String.ofList (tail.dropWhile (· ≠ ']')).tail)
        (if rest = "" then none else some rest, some (String.ofList (tail.takeWhile (· ≠ ']'))))
      else (some text, none)
    | _ => (some text, none)

/-- **`_to_signal`**. -/
def toSignal (strip : String → String) (row : SignalRow) : Decision String × SignalOutcome :=
  let (reason, rejectedBy) :=
    match row.rejectedBy with
    | some rule => (row.rejectionReason, some rule)
    | none => splitReason strip row.rejectionReason
  (⟨row.strategyId, row.symbol, row.action, row.ts, row.id, row.strength, row.reason, row.indicators⟩,
    ⟨row.actedOn, reason, rejectedBy⟩)

/-! ## Both tables -/

structure Store (J : Type) where
  strategies : Dict String (StrategyRow J) := .empty
  signals : Dict String SignalRow := .empty

inductive Refused where
  | strategyExists
  | integrity
  | data
deriving DecidableEq, Repr

/-- One transaction of either repository. -/
inductive Event (J V : Type) where
  | create (new : NewStrategy J) (now : ℤ)
  | ensure (record : StrategyRecord J) (now : ℤ)
  | save (signal : Decision V) (outcome : SignalOutcome)

variable {V : Type} (str : V → String)

/-- A strategy of another id has the name. -/
def nameTaken (s : Store J) (row : StrategyRow J) : Bool :=
  s.strategies.values.any fun other => other.name = row.name ∧ other.id ≠ row.id

/-- **`create`, `ensure` and `save`**: what is refused changes nothing. -/
def step (s : Store J) : Event J V → Except Refused (Store J)
  | .create new now =>
    let row := authoredValues new now
    if ¬ row.Fits then .error .data
    else if s.strategies.contains row.id ∨ nameTaken s row then .error .strategyExists
    else .ok { s with strategies := s.strategies.set row.id row }
  | .ensure record now =>
    let row := firstBootValues record now
    if ¬ row.Fits then .error .data
    else if ¬ s.strategies.contains row.id ∧ nameTaken s row then .error .integrity
    else .ok { s with strategies := write StrategyRow.id touched s.strategies row }
  | .save signal outcome =>
    let row := signalRow str signal outcome
    if ¬ row.Fits then .error .data
    else if ¬ s.signals.contains row.id ∧ ¬ s.strategies.contains row.strategyId then .error .integrity
    else .ok { s with signals := write SignalRow.id settled s.signals row }

def run (s : Store J) (events : List (Event J V)) : Store J := events.foldl (fun s e => (step str s e).toOption.getD s) s

/-- The transactions of a run that committed. -/
def committed : Store J → List (Event J V) → List (Event J V)
  | _, [] => []
  | s, e :: events =>
    match step str s e with
    | .ok s' => e :: committed s' events
    | .error _ => committed s events

/-! ## Runs -/

/-- The row of `strategies` a transaction proposes. -/
def Event.strategy : Event J V → Option (StrategyRow J)
  | .create new now => some (authoredValues new now)
  | .ensure record now => some (firstBootValues record now)
  | .save .. => none

/-- The row of `signals`. -/
def Event.signal : Event J V → Option (Decision V × SignalOutcome)
  | .save signal outcome => some (signal, outcome)
  | _ => none

variable {str} {s s' : Store J} {events : List (Event J V)} {e : Event J V}

/-- **What a transaction that commits does**: it writes the row it proposes, an author's only where there is none; a decision is
first written under a strategy that is there. -/
theorem step_ok (h : step str s e = .ok s') :
    (∃ row, e.strategy = some row ∧ e.signal = none ∧ s'.signals = s.signals ∧
        s'.strategies = write StrategyRow.id touched s.strategies row ∧
        (s.strategies.contains row.id = true → ∃ record now, e = .ensure record now)) ∨
      ∃ signal outcome, e = .save signal outcome ∧ s'.strategies = s.strategies ∧
        s'.signals = write SignalRow.id settled s.signals (signalRow str signal outcome) ∧
        (s.signals.contains signal.id = true ∨ s.strategies.contains signal.strategyId = true) := by
  cases e with
  | create new now =>
    simp only [step] at h
    split_ifs at h with hfits htaken
    cases h
    rw [not_or] at htaken
    refine .inl ⟨_, rfl, rfl, rfl, ?_, fun hin => absurd hin htaken.1⟩
    have hnone : s.strategies.get? (authoredValues new now).id = none := by
      cases hget : s.strategies.get? (authoredValues new now).id with
      | none => rfl
      | some row =>
        have hin : s.strategies.contains (authoredValues new now).id = true := by
          unfold Dict.contains
          rw [hget]
          rfl
        exact absurd hin htaken.1
    unfold write
    rw [hnone]
    rfl
  | ensure record now =>
    simp only [step] at h
    split_ifs at h
    cases h
    exact .inl ⟨_, rfl, rfl, rfl, rfl, fun _ => ⟨record, now, rfl⟩⟩
  | save signal outcome =>
    simp only [step] at h
    split_ifs at h with hfits hmissing
    cases h
    refine .inr ⟨signal, outcome, rfl, rfl, rfl, ?_⟩
    by_contra hneither
    rw [not_or] at hneither
    exact hmissing hneither

/-- A run is its committed transactions, one after the other. -/
theorem run_cons : run str s (e :: events) = run str ((step str s e).toOption.getD s) events := rfl

/-- **The strategies of a run are the rows its transactions proposed, written in order.** -/
theorem run_strategies : ∀ (events : List (Event J V)) (s : Store J), (run str s events).strategies =
    ((committed str s events).filterMap Event.strategy).foldl (write StrategyRow.id touched) s.strategies
  | [], s => rfl
  | e :: events, s => by
    rw [run_cons]
    unfold committed
    cases h : step str s e with
    | error r => exact run_strategies events s
    | ok s' =>
      refine (run_strategies events s').trans ?_
      rcases step_ok h with ⟨row, hrow, -, -, hset, -⟩ | ⟨signal, outcome, rfl, hsame, -⟩
      · rw [List.filterMap_cons_some hrow, List.foldl_cons, hset]
      · rw [hsame]
        rfl

/-- **The signals of a run are the decisions saved, written in order.** -/
theorem run_signals : ∀ (events : List (Event J V)) (s : Store J), (run str s events).signals =
    (((committed str s events).filterMap Event.signal).map fun p => signalRow str p.1 p.2).foldl
      (write SignalRow.id settled) s.signals
  | [], s => rfl
  | e :: events, s => by
    rw [run_cons]
    unfold committed
    cases h : step str s e with
    | error r => exact run_signals events s
    | ok s' =>
      refine (run_signals events s').trans ?_
      rcases step_ok h with ⟨row, -, hnone, hsame, -⟩ | ⟨signal, outcome, rfl, -, hset, -⟩
      · rw [List.filterMap_cons_none hnone, hsame]
      · rw [hset]
        rfl

theorem contains_write {κ ρ : Type} [DecidableEq κ] {key : ρ → κ} {amend : ρ → ρ → ρ} {d : Dict κ ρ} {r : ρ} {k : κ} :
    (write key amend d r).contains k = true ↔ k = key r ∨ d.contains k = true := by
  unfold write Dict.contains
  rw [Dict.get?_set]
  split_ifs with h
  · simp [h]
  · simp [h]

/-- A strategy that is there stays. -/
theorem step_contains (h : step str s e = .ok s') {id : String} (hin : s.strategies.contains id = true) :
    s'.strategies.contains id = true := by
  rcases step_ok h with ⟨row, -, -, -, hset, -⟩ | ⟨signal, outcome, -, hsame, -⟩
  · rw [hset, contains_write]
    exact .inr hin
  · rw [hsame]
    exact hin

/-- **What every transaction keeps, every run keeps.** -/
theorem run_keeps {P : Store J → Prop} (hstep : ∀ s e s', step str s e = .ok s' → P s → P s') :
    ∀ (events : List (Event J V)) (s : Store J), P s → P (run str s events)
  | [], _, h => h
  | e :: events, s, h => by
    rw [run_cons]
    cases hs : step str s e with
    | error r => exact run_keeps hstep events s h
    | ok s' => exact run_keeps hstep events s' (hstep s e s' hs h)

/-- Every decision is under a strategy that is there. -/
def Referenced (s : Store J) : Prop := ∀ id row, s.signals.get? id = some row → s.strategies.contains row.strategyId = true

theorem step_referenced (s : Store J) (e : Event J V) (s' : Store J) (h : step str s e = .ok s') (hs : Referenced s) :
    Referenced s' := by
  intro id row hrow
  rcases step_ok h with ⟨_, -, -, hsame, -⟩ | ⟨signal, outcome, -, hsame, hset, hthere⟩
  · rw [hsame] at hrow
    exact step_contains h (hs id row hrow)
  · rw [hsame]
    rw [hset] at hrow
    unfold write at hrow
    rw [Dict.get?_set] at hrow
    split_ifs at hrow
    · cases hold : s.signals.get? (signalRow str signal outcome).id with
      | none =>
        rw [hold] at hrow
        cases hrow
        rcases hthere with hin | hin
        · unfold Dict.contains at hin
          rw [show s.signals.get? signal.id = none from hold] at hin
          cases hin
        · exact hin
      | some old =>
        rw [hold] at hrow
        cases hrow
        exact hs _ old hold
    · exact hs id row hrow

/-- Once a strategy is there only a boot writes its row. -/
theorem committed_ensures {id : String} : ∀ (events : List (Event J V)) (s : Store J), s.strategies.contains id = true →
    ∀ e ∈ committed str s events, ∀ row, e.strategy = some row → row.id = id → ∃ record now, e = .ensure record now
  | [], _, _, _, he, _, _, _ => absurd he List.not_mem_nil
  | e :: events, s, hin, e', he, row, hrow, hid => by
    unfold committed at he
    cases h : step str s e with
    | error r =>
      rw [h] at he
      exact committed_ensures events s hin e' he row hrow hid
    | ok s' =>
      rw [h] at he
      rcases List.mem_cons.1 he with rfl | he
      · rcases step_ok h with ⟨row', hrow', -, -, -, honly⟩ | ⟨signal, outcome, rfl, -⟩
        · cases hrow.symm.trans hrow'
          exact honly (hid ▸ hin)
        · cases hrow
      · exact committed_ensures events s' (step_contains h hin) e' he row hrow hid

/-- The transactions of a run that wrote a strategy's row. -/
def writesOf (id : String) (l : List (Event J V)) : List (Event J V) :=
  l.filter fun e => e.strategy.any fun row => row.id = id

/-- **All writes of a strategy's row but the first are boots.** -/
theorem writesOf_committed {id : String} {first : Event J V} {rest : List (Event J V)} : ∀ (events : List (Event J V))
    (s : Store J), writesOf id (committed str s events) = first :: rest → ∀ e ∈ rest, ∃ record now, e = .ensure record now
  | [], _, h => by cases h
  | e :: events, s, h => by
    unfold committed at h
    cases hs : step str s e with
    | error r =>
      rw [hs] at h
      exact writesOf_committed events s h
    | ok s' =>
      rw [hs] at h
      unfold writesOf at h
      rw [List.filter_cons] at h
      split_ifs at h with hwrites
      · obtain ⟨-, hrest⟩ := List.cons.inj h
        intro x hx
        rw [← hrest] at hx
        obtain ⟨hmem, hany⟩ := List.mem_filter.1 hx
        obtain ⟨row, hrow, hid⟩ := (Option.any_eq_true _ _).1 hany
        obtain ⟨row', hrow', hid'⟩ := (Option.any_eq_true _ _).1 hwrites
        refine committed_ensures events s' ?_ x hmem row hrow (of_decide_eq_true hid)
        rcases step_ok hs with ⟨row'', hrow'', -, -, hset, -⟩ | ⟨signal, outcome, rfl, -⟩
        · cases hrow'.symm.trans hrow''
          rw [hset, contains_write]
          exact .inl (of_decide_eq_true hid').symm
        · cases hrow'
      · exact writesOf_committed events s' h

/-- The rows that were proposed for an id. -/
theorem filter_strategy (id : String) (l : List (Event J V)) :
    ((l.filterMap Event.strategy).filter fun row => row.id = id) = (writesOf id l).filterMap Event.strategy := by
  unfold writesOf
  rw [List.filter_filterMap, List.filterMap_filter]
  refine List.filterMap_congr fun e _ => ?_
  cases e.strategy with
  | none => rfl
  | some row => by_cases h : row.id = id <;> simp [h]

/-- **A strategy's row is its first write's for good**: what a later boot moves is the time it was last started, an author's create
takes no row over, and no row is ever above the first rung. -/
theorem strategy_kept (id : String) (events : List (Event J V)) :
    (writesOf id (committed str {} events) = [] → (run str {} events).strategies.get? id = none) ∧
      ∀ e rest, writesOf id (committed str {} events) = e :: rest → (∀ x ∈ rest, ∃ record now, x = .ensure record now) ∧
        ∃ first last row, e.strategy = some first ∧ (e :: rest).getLast?.bind Event.strategy = some last ∧
          (run str {} events).strategies.get? id = some row ∧ row = { first with updatedAt := last.updatedAt } ∧
          row.state = .draft := by
  have hget : (run str {} events).strategies.get? id =
      ((writesOf id (committed str {} events)).filterMap Event.strategy).foldl (writeRow touched) none := by
    rw [run_strategies, get?_writes, filter_strategy, Dict.get?_empty]
  constructor
  · intro hnone
    rw [hget, hnone]
    rfl
  · intro e rest hwrites
    refine ⟨writesOf_committed events {} hwrites, ?_⟩
    have hall : ∀ x ∈ e :: rest, ∃ row, x.strategy = some row := fun x hx => by
      obtain ⟨-, hany⟩ := List.mem_filter.1 (hwrites ▸ hx : x ∈ writesOf id (committed str {} events))
      obtain ⟨row, hrow, -⟩ := (Option.any_eq_true _ _).1 hany
      exact ⟨row, hrow⟩
    obtain ⟨first, hfirst⟩ := hall e List.mem_cons_self
    obtain ⟨final, hfinal⟩ : ∃ final, (e :: rest).getLast? = some final := ⟨_, List.getLast?_cons⟩
    obtain ⟨init, hinit⟩ := List.getLast?_eq_some_iff.1 hfinal
    obtain ⟨last, hlast⟩ := hall final (by rw [hinit]; simp)
    have hrows : ((e :: rest).filterMap Event.strategy).head? = some first := by
      rw [List.filterMap_cons_some hfirst, List.head?_cons]
    have hend : ((e :: rest).filterMap Event.strategy).getLast? = some last := by
      rw [hinit, List.filterMap_append, List.filterMap_cons_some hlast, List.filterMap_nil, List.getLast?_concat]
    rw [hwrites] at hget
    obtain ⟨row, hrow⟩ := Option.isSome_iff_exists.1 (writes_isSome touched
      (l := (e :: rest).filterMap Event.strategy) (fun hnil => by rw [hnil] at hrows; cases hrows) none)
    obtain ⟨first', hfirst', hkept⟩ := written_first touched (π := fun r : StrategyRow J => { r with updatedAt := 0 })
      (fun o r => rfl) hrow
    obtain ⟨last', hlast', hmoved⟩ := written_last touched (φ := StrategyRow.updatedAt) (fun o r => rfl) hrow
    cases hrows.symm.trans hfirst'
    cases hend.symm.trans hlast'
    have heq : row = { first with updatedAt := last.updatedAt } := by
      rw [← hmoved]
      exact congrArg (fun r : StrategyRow J => { r with updatedAt := row.updatedAt }) hkept
    refine ⟨first, last, row, hfirst, by rw [hfinal]; exact hlast, hget.trans hrow, heq, ?_⟩
    rw [heq]
    cases e with
    | create new now =>
      cases hfirst
      rfl
    | ensure record now =>
      cases hfirst
      rfl
    | save signal outcome => cases hfirst

/-! ## Decisions read back -/

/-- A reason that reads as the packed form of older rows. -/
def Packed (reason : Option String) : Prop := ∃ text tail, reason = some text ∧ text.toList = '[' :: tail ∧ ']' ∈ tail

variable (str) in
/-- A decision as its row holds it. -/
def asStored (d : Decision V) : Decision String :=
  { d with strength := rounded d.strength, indicators := d.indicators.map fun (k, v) => (k, str v) }

theorem splitReason_eq {strip : String → String} {reason : Option String} :
    splitReason strip reason = (reason, none) ↔ ¬ Packed reason := by
  constructor
  · rintro hsplit ⟨text, tail, rfl, htext, hmem⟩
    simp only [splitReason, htext, if_pos hmem] at hsplit
    have hrule := congrArg Prod.snd hsplit
    cases hrule
  · intro hnot
    unfold splitReason
    split
    · rfl
    · rename_i text
      split
      · rename_i tail htail
        rw [if_neg fun hmem => hnot ⟨text, tail, rfl, htail, hmem⟩]
      · rfl

/-- **A row reads back as what was saved**, unless it has no rule and a reason in the packed form. -/
theorem toSignal_iff (strip : String → String) (d : Decision V) (outcome : SignalOutcome) (o : SignalOutcome) :
    toSignal strip (settled (signalRow str d o) (signalRow str d outcome)) = (asStored str d, outcome) ↔
      outcome.rejectedBy ≠ none ∨ ¬ Packed outcome.rejectionReason := by
  obtain ⟨actedOn, reason, rejectedBy⟩ := outcome
  cases rejectedBy with
  | some rule =>
    refine iff_of_true rfl (.inl ?_)
    simp
  | none =>
    have hread : toSignal strip (settled (signalRow str d o) (signalRow str d ⟨actedOn, reason, none⟩)) =
        (asStored str d, ⟨actedOn, (splitReason strip reason).1, (splitReason strip reason).2⟩) := rfl
    rw [hread, Prod.mk.injEq, SignalOutcome.mk.injEq]
    have hpair : ((splitReason strip reason).1 = reason ∧ (splitReason strip reason).2 = none) ↔
        splitReason strip reason = (reason, none) := by
      rw [Prod.ext_iff]
    simp only [true_and, hpair, splitReason_eq, ne_eq, not_true_eq_false, false_or]

theorem filter_signal (id : String) (l : List (Event J V)) :
    (((l.filterMap Event.signal).map fun p => signalRow str p.1 p.2).filter fun row => row.id = id) =
      ((l.filterMap Event.signal).filter fun p => p.1.id = id).map fun p => signalRow str p.1 p.2 := by
  rw [List.filter_map]
  rfl

/-- **A decision is kept as it was first saved, with the outcome it was last saved with**: its strategy is there, and it reads back
unless the outcome looks packed. -/
theorem decision_kept (strip : String → String) (id : String) (events : List (Event J V)) :
    let saves := ((committed str {} events).filterMap Event.signal).filter fun p => p.1.id = id
    (saves = [] → (run str {} events).signals.get? id = none) ∧
      ∀ first last, saves.head? = some first → saves.getLast? = some last →
        let row := settled (signalRow str first.1 first.2) (signalRow str last.1 last.2)
        (run str {} events).signals.get? id = some row ∧
          (run str {} events).strategies.contains first.1.strategyId = true ∧
          (toSignal strip row = (asStored str first.1, last.2) ↔
            last.2.rejectedBy ≠ none ∨ ¬ Packed last.2.rejectionReason) := by
  intro saves
  have hget : (run str {} events).signals.get? id =
      (saves.map fun p => signalRow str p.1 p.2).foldl (writeRow settled) none := by
    rw [run_signals, get?_writes, filter_signal, Dict.get?_empty]
  constructor
  · intro hnone
    rw [hget, hnone]
    rfl
  · intro first last hfirst hlast
    obtain ⟨row, hrow⟩ := Option.isSome_iff_exists.1 (writes_isSome settled
      (l := saves.map fun p => signalRow str p.1 p.2)
      (fun hnil => by rw [List.map_eq_nil_iff.1 hnil] at hfirst; cases hfirst) none)
    obtain ⟨first', hfirst', hkept⟩ := written_first settled
      (π := fun r : SignalRow => { r with actedOn := false, rejectionReason := none, rejectedBy := none }) (fun o r => rfl) hrow
    obtain ⟨last', hlast', hmoved⟩ := written_last settled
      (φ := fun r : SignalRow => (r.actedOn, r.rejectionReason, r.rejectedBy)) (fun o r => rfl) hrow
    rw [List.head?_map, hfirst] at hfirst'
    rw [List.getLast?_map, hlast] at hlast'
    cases hfirst'
    cases hlast'
    have heq : row = settled (signalRow str first.1 first.2) (signalRow str last.1 last.2) := by
      obtain ⟨id, strategyId, symbol, action, ts, strength, reason, indicators, actedOn, rejectionReason, rejectedBy⟩ := row
      cases hmoved
      cases hkept
      rfl
    have hreferenced : Referenced (run str {} events) :=
      run_keeps step_referenced events {} fun id row h => by rw [Dict.get?_empty] at h; cases h
    rw [heq] at hrow
    exact ⟨hget.trans hrow, hreferenced id _ (hget.trans hrow), toSignal_iff strip first.1 last.2 first.2⟩

end DecisionStorage
end Atp
