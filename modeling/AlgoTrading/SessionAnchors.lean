import AlgoTrading.Calendar
import AlgoTrading.DecimalText
import AlgoTrading.Inspection
/-!
# SessionAnchors — where the day's loss is measured from

`_anchor_if_pending` and `_session_day` of `atp_worker/runner.py`, `RiskEngine.anchor_session`, and `RedisSessionAnchorStore`
with the text it keeps an equity as.  A run is of passes, warmups, fills and restarts of one worker after another; `evaluate`
asks the clock twice, when it begins and again where the anchor is taken.  `granted_once` is what the two readings have to
have in common for a session to grant its allowance once.
-/
namespace Atp

/-- `RunMode.value`. -/
def RunMode.value : RunMode → String
  | .backtest => "backtest"
  | .paper => "paper"
  | .live => "live"

namespace SessionAnchors

open Inspection Ceilings Projection InFlight Runs Decimals

/-! ## The store -/

/-- `SessionAnchorUnreadableError`. -/
structure Unreadable where
  message : List Piece

/-- What Redis holds: each key's text, and when it goes. -/
abbrev AnchorStore := Dict (List Piece) (List Char × ℤ)

namespace AnchorStore

/-- `DEFAULT_TTL_SECONDS`. -/
def ttlSeconds : ℤ := 7 * 24 * 60 * 60

/-- `_key`; a day is printed by its date. -/
def key (mode : RunMode) (day : ℤ) : List Piece := [.lit "atp:risk:session_anchor:", .lit mode.value, .lit ":", .ts day]

/-- **`get`.** -/
def get (store : AnchorStore) (mode : RunMode) (day now : ℤ) : Except Unreadable (Option Finite) :=
  match store.get? (key mode day) with
  | none => .ok none
  | some (text, expires) =>
    if expires ≤ now then .ok none
    else
      match Decimal.ofText text with
      | none => .error ⟨[.lit "the ", .lit mode.value, .lit " anchor for ", .ts day, .lit " is not a number"]⟩
      | some (.finite equity) => .ok (some equity)
      | some _ => .error ⟨[.lit "the ", .lit mode.value, .lit " anchor for ", .ts day, .lit " is not finite"]⟩

/-- **`put`.** -/
def put (store : AnchorStore) (mode : RunMode) (day : ℤ) (equity : Finite) (now : ℤ) : AnchorStore :=
  store.set (key mode day) (equity.str, now + ttlSeconds)

/-- What was put is read back, within the time it is kept. -/
theorem get_put {store : AnchorStore} {mode : RunMode} {day at' now : ℤ} {equity : Finite}
    (h : store.get? (key mode day) = some (equity.str, at' + ttlSeconds)) (hnow : now < at' + ttlSeconds) :
    store.get mode day now = .ok (some equity) := by
  unfold get
  rw [h]
  dsimp only
  rw [if_neg (by omega), Decimal.ofText_str]

end AnchorStore

/-! ## The worker -/

/-- The `anchor` of a rule that has one. -/
def anchored (equity : ℚ) : Rule → Rule
  | .dailyLossLimit _ => .dailyLossLimit (some equity)
  | rule => rule

/-- **`RiskEngine.anchor_session`.** -/
def anchorSession (equity : ℚ) (rules : List Rule) : List Rule := rules.map (anchored equity)

/-- `_session_day`: the session in progress, or the next one. -/
def sessionDay (cal : TradingCalendar) (now : ℤ) : Except Exc ℤ :=
  let today := now / 86400
  match (cal.sessions (today - 1) (today + 1)).find? (·.inProgress now) with
  | some s => .ok s.day
  | none => (cal.nextOpen now).map cal.localDate

/-- One pass: the clock as `_loop` read it and as the anchor reads it, the prices found for the marks, and the digits of
the equity they make. -/
structure Pass where
  startedAt : ℤ
  now : ℤ
  marks : List (String × ℚ)
  equity : Finite

/-- A worker's process.  `evaluated` is the session of its last pass since it last warmed up. -/
structure Process where
  rules : List Rule
  portfolio : Portfolio
  warm : Bool := false
  anchorPending : Bool := false
  evaluated : Option ℤ := none

/-- `_mark`: every price found is the last price of its position. -/
def mark (p : Portfolio) (marks : List (String × ℚ)) : Portfolio :=
  marks.foldl (fun p m => p.setPosition m.1 { p.position m.1 with lastPrice := some m.2 }) p

/-- **`_anchor_if_pending`.**  A stored anchor wins, and one that cannot be read leaves the rules unanchored. -/
def anchorIfPending (cal : TradingCalendar) (mode : RunMode) (p : Pass) (k : Process) (store : AnchorStore) :
    Except Exc (Process × AnchorStore) :=
  if !k.anchorPending then .ok (k, store)
  else if k.portfolio.unmarkedSymbols ≠ [] then .ok (k, store)
  else
    match sessionDay cal p.now with
    | .error e => .error e
    | .ok day =>
      match store.get mode day p.now with
      | .error _ => .ok ({ k with anchorPending := false }, store)
      | .ok (some equity) => .ok ({ k with rules := anchorSession equity.value k.rules, anchorPending := false }, store)
      | .ok none =>
        .ok ({ k with rules := anchorSession p.equity.value k.rules, anchorPending := false }, store.put mode day p.equity p.now)

/-- A pass as it went: its session, the marked equity where every open position had a price, and the rules its orders were
judged by. -/
structure Evaluated where
  day : ℤ
  equity : Option ℚ
  rules : List Rule

structure World where
  anchors : AnchorStore := .empty
  process : Option Process := none
  log : List Evaluated := []

/-- What moves: a new process over a book restored from storage, a clean warmup, a fill, a venue's charge, a pass. -/
inductive Step
  | restart (rules : List Rule) (portfolio : Portfolio)
  | warmup
  | fill (o : Order) (f : Fill)
  | charge (owed : ℚ)
  | pass (p : Pass)

/-- No daily loss limit has been anchored: how the rules are built. -/
def Unanchored (rules : List Rule) : Prop := ∀ s, Rule.dailyLossLimit s ∈ rules → s = none

/-- **`evaluate`**, as far as the anchor goes: what raises there ends the pass with the anchor still owed. -/
def evaluate (cal : TradingCalendar) (mode : RunMode) (p : Pass) (k : Process) (store : AnchorStore) : Process × AnchorStore :=
  let k := { k with portfolio := mark k.portfolio p.marks, evaluated := some (cal.localDate p.startedAt) }
  match anchorIfPending cal mode p k store with
  | .ok r => r
  | .error _ => (k, store)

/-- How a pass went. -/
def evaluated (cal : TradingCalendar) (mode : RunMode) (p : Pass) (k : Process) (store : AnchorStore) : Evaluated where
  day := cal.localDate p.startedAt
  equity := if (mark k.portfolio p.marks).unmarkedSymbols = [] then some (mark k.portfolio p.marks).equity else none
  rules := (evaluate cal mode p k store).1.rules

def World.passed (cal : TradingCalendar) (mode : RunMode) (w : World) (k : Process) (p : Pass) : World where
  anchors := (evaluate cal mode p k w.anchors).2
  process := some (evaluate cal mode p k w.anchors).1
  log := w.log ++ [evaluated cal mode p k w.anchors]

inductive Moves (cal : TradingCalendar) (mode : RunMode) : World → Step → World → Prop
  | restart {w : World} {rules : List Rule} {portfolio : Portfolio} (h : Unanchored rules) :
    Moves cal mode w (.restart rules portfolio) { w with process := some { rules, portfolio } }
  | warmup {w : World} {k : Process} (h : w.process = some k) :
    Moves cal mode w .warmup { w with process := some { k with warm := true, anchorPending := true, evaluated := none } }
  | fill {w : World} {k : Process} {o : Order} {f : Fill} {p : Portfolio} (h : w.process = some k)
    (hf : k.portfolio.applyToPortfolio o f = .ok p) : Moves cal mode w (.fill o f) { w with process := some { k with portfolio := p } }
  | charge {w : World} {k : Process} {owed : ℚ} (h : w.process = some k) :
    Moves cal mode w (.charge owed)
      { w with process := some { k with portfolio := { k.portfolio with cash := k.portfolio.cash - owed } } }
  | pass {w : World} {k : Process} {p : Pass} (h : w.process = some k) (hwarm : k.warm = true)
    (hopen : cal.isOpen p.startedAt = true) (hequity : p.equity.value = (mark k.portfolio p.marks).equity) :
    Moves cal mode w (.pass p) (w.passed cal mode k p)

/-- The marked equity of the first pass of a session that found every open position priced. -/
def firstPriced (log : List Evaluated) (day : ℤ) : Option ℚ := (log.filter (·.day = day)).findSome? Evaluated.equity

/-- **A pass keeps to its session**: its process has passed in no other session since it warmed up, and where it takes the
anchor the session it began in is still in progress. -/
def KeepsSession (cal : TradingCalendar) (w : World) : Step → Prop
  | .pass p => ∀ k ∈ w.process, (∀ day ∈ k.evaluated, day = cal.localDate p.startedAt) ∧
      (k.anchorPending = true → (mark k.portfolio p.marks).unmarkedSymbols = [] →
        cal.isOpen p.now = true ∧ cal.localDate p.now = cal.localDate p.startedAt)
  | _ => True

/-! ## What a pass leaves of the marks and of the clock -/

section
variable {cal : TradingCalendar} {mode : RunMode} {w w' : World} {k : Process} {p : Pass} {store : AnchorStore}

theorem unmarked_setPosition {b : Portfolio} {symbol : String} {q : Position} (hq : q.lastPrice.isSome)
    (h : b.unmarkedSymbols = []) : (b.setPosition symbol q).unmarkedSymbols = [] := by
  rw [unmarkedSymbols_eq_nil] at h ⊢
  intro t ht
  unfold markIn
  rw [Portfolio.held_setPosition] at ht
  show (((b.positions.set symbol q).get? t).bind Position.lastPrice).isSome
  rw [Dict.get?_set]
  split
  · exact hq
  · rename_i hne
    rw [if_neg hne] at ht
    exact h t ht

/-- Marking unprices nothing. -/
theorem mark_marked : ∀ {marks : List (String × ℚ)} {b : Portfolio}, b.unmarkedSymbols = [] → (mark b marks).unmarkedSymbols = []
  | [], _, h => h
  | _ :: marks, _, h => @mark_marked marks _ (unmarked_setPosition rfl h)

/-- Nor does a fill, which leaves its price behind. -/
theorem fill_marked {b b' : Portfolio} {o : Order} {f : Fill} (h : b.unmarkedSymbols = []) (hf : b.applyToPortfolio o f = .ok b') :
    b'.unmarkedSymbols = [] := by
  unfold Portfolio.applyToPortfolio at hf
  split at hf
  · cases hf
  · rename_i q x hq
    cases hf
    obtain ⟨-, -, -, rfl, -⟩ := Position.applyFill_ok.1 hq
    have hprice : ((b.position o.symbol).settled f (f.qty * o.side.sign)).lastPrice.isSome := by
      unfold Position.settled
      dsimp only
      split <;> rfl
    exact unmarked_setPosition hprice h

/-- Two instants of one local day are less than three days apart. -/
theorem localDate_near {a b : ℤ} (h : cal.localDate a = cal.localDate b) : a < b + 3 * 86400 := by
  have ha := (cal.dated a).2
  have hb := (cal.dated b).1
  rw [h] at ha
  have := (cal.offset (cal.localDate b)).1
  have := (cal.offset (cal.localDate b + 1)).2
  omega

/-- **In a session, the session's day is the exchange's date.** -/
theorem sessionDay_open {now : ℤ} (h : cal.isOpen now = true) : sessionDay cal now = .ok (cal.localDate now) := by
  unfold TradingCalendar.isOpen at h
  obtain ⟨s, hs, hin⟩ := (Option.any_eq_true _ _).1 h
  have hlow := (cal.dated now).1
  have hhigh := (cal.dated now).2
  have hoffset := (cal.offset (cal.localDate now)).1
  have hoffset' := (cal.offset (cal.localDate now + 1)).2
  have hmem : s ∈ cal.sessions (now / 86400 - 1) (now / 86400 + 1) :=
    TradingCalendar.mem_sessions.2 ⟨cal.localDate now, by omega, by omega, hs⟩
  unfold sessionDay
  dsimp only
  cases hfind : (cal.sessions (now / 86400 - 1) (now / 86400 + 1)).find? (·.inProgress now) with
  | none => exact absurd hin (List.find?_eq_none.1 hfind s hmem)
  | some t =>
    have htin := List.find?_some hfind
    obtain ⟨d, -, -, ht⟩ := TradingCalendar.mem_sessions.1 (List.mem_of_find?_eq_some hfind)
    -- no two sessions are in progress at once
    have hday : d = cal.localDate now := by
      simp only [Session.inProgress, Bool.and_eq_true, decide_eq_true_eq] at hin htin
      rcases lt_trichotomy d (cal.localDate now) with hlt | heq | hlt
      · have := cal.ordered ht hs hlt
        omega
      · exact heq
      · have := cal.ordered hs ht hlt
        omega
    dsimp only
    rw [cal.named ht, hday]

/-! ## What has been granted -/

theorem firstPriced_append {log : List Evaluated} {e : Evaluated} {day : ℤ} :
    firstPriced (log ++ [e]) day = (firstPriced log day).or (if e.day = day then e.equity else none) := by
  unfold firstPriced
  rw [List.filter_append, List.findSome?_append]
  congr 1
  split
  · rename_i h
    rw [List.filter_cons_of_pos (by simpa using h), List.filter_nil, List.findSome?_cons, List.findSome?_nil]
    cases e.equity <;> rfl
  · rename_i h
    rw [List.filter_cons_of_neg (by simpa using h)]
    rfl

/-- The store has the equity a session's first priced pass found, from an instant of the session's day. -/
def Stored (cal : TradingCalendar) (mode : RunMode) (store : AnchorStore) (log : List Evaluated) : Prop :=
  ∀ day, (firstPriced log day = none ∧ store.get? (AnchorStore.key mode day) = none) ∨
    ∃ (d : Finite) (at' : ℤ), firstPriced log day = some d.value ∧ cal.localDate at' = day ∧
      store.get? (AnchorStore.key mode day) = some (d.str, at' + AnchorStore.ttlSeconds)

/-- Every daily loss limit of some rules is where the session's first priced pass put it. -/
def AnchoredTo (rules : List Rule) (equity : Option ℚ) : Prop := ∀ s, Rule.dailyLossLimit s ∈ rules → s = equity

/-- What a process is at: unanchored, or anchored and with every open position priced; and once nothing is owed, anchored to
what its session granted. -/
structure Standing (log : List Evaluated) (k : Process) : Prop where
  marked : Unanchored k.rules ∨ k.portfolio.unmarkedSymbols = []
  paid : k.warm = true → k.anchorPending = false → k.portfolio.unmarkedSymbols = [] ∧
    ∃ day, k.evaluated = some day ∧ firstPriced log day ≠ none ∧ AnchoredTo k.rules (firstPriced log day)

/-- How a pass went: its rules are anchored to what the session has granted, or its book was unpriced and none is anchored. -/
def Judged (before : List Evaluated) (e : Evaluated) : Prop :=
  (firstPriced (before ++ [e]) e.day ≠ none ∧ AnchoredTo e.rules (firstPriced (before ++ [e]) e.day)) ∨
    (e.equity = none ∧ Unanchored e.rules)

structure Granted (cal : TradingCalendar) (mode : RunMode) (w : World) : Prop where
  stored : Stored cal mode w.anchors w.log
  standing : ∀ k ∈ w.process, Standing w.log k
  judged : ∀ before e, before ++ [e] <+: w.log → Judged before e

theorem anchoredTo_anchorSession (equity : ℚ) (rules : List Rule) : AnchoredTo (anchorSession equity rules) (some equity) := by
  intro s hs
  obtain ⟨rule, -, hrule⟩ := List.mem_map.1 hs
  cases rule <;> cases hrule
  rfl

theorem key_inj {day day' : ℤ} (h : AnchorStore.key mode day = AnchorStore.key mode day') : day = day' := by
  simpa [AnchorStore.key] using h

theorem Stored.unpriced {log : List Evaluated} {e : Evaluated} (h : Stored cal mode store log)
    (he : e.equity = none ∨ firstPriced log e.day ≠ none) : Stored cal mode store (log ++ [e]) := by
  have hsame (day : ℤ) : firstPriced (log ++ [e]) day = firstPriced log day := by
    rw [firstPriced_append]
    split
    · rename_i hday
      subst hday
      obtain he | he := he
      · rw [he, Option.or_none]
      · obtain ⟨q, hq⟩ := Option.ne_none_iff_exists'.1 he
        rw [hq, Option.some_or]
    · rw [Option.or_none]
  intro day
  rw [hsame]
  exact h day

theorem Stored.put {log : List Evaluated} {e : Evaluated} {d : Finite} {now : ℤ} (h : Stored cal mode store log)
    (hnow : cal.localDate now = e.day) (hfirst : firstPriced log e.day = none) (he : e.equity = some d.value) :
    Stored cal mode (store.put mode e.day d now) (log ++ [e]) := by
  intro day
  rw [firstPriced_append]
  show _ ∨ ∃ d' at', _ ∧ _ ∧ (Dict.set store _ _).get? _ = _
  by_cases hday : e.day = day
  · subst hday
    refine .inr ⟨d, now, ?_, hnow, ?_⟩
    · rw [hfirst, if_pos rfl, Option.none_or, he]
    · rw [Dict.get?_set, if_pos rfl]
  · rw [if_neg hday, Option.or_none]
    have hkey : AnchorStore.key mode day ≠ AnchorStore.key mode e.day := fun heq => hday (key_inj heq).symm
    show (_ ∧ (Dict.set store _ _).get? _ = _) ∨ _
    rw [Dict.get?_set, if_neg hkey]
    exact h day

theorem marked_or {log : List Evaluated} (h : Standing log k) (marks : List (String × ℚ)) :
    Unanchored k.rules ∨ (mark k.portfolio marks).unmarkedSymbols = [] :=
  h.marked.imp_right mark_marked

/-- **One pass.**  By cases on what `_anchor_if_pending` meets: nothing owed, an unpriced book, a stored anchor, none. -/
theorem pass_granted {log : List Evaluated} (hstore : Stored cal mode store log) (hk : Standing log k) (hwarm : k.warm = true)
    (hsession : ∀ day ∈ k.evaluated, day = cal.localDate p.startedAt)
    (hopen : k.anchorPending = true → (mark k.portfolio p.marks).unmarkedSymbols = [] →
      cal.isOpen p.now = true ∧ cal.localDate p.now = cal.localDate p.startedAt)
    (hequity : p.equity.value = (mark k.portfolio p.marks).equity) :
    Stored cal mode (evaluate cal mode p k store).2 (log ++ [evaluated cal mode p k store]) ∧
      Standing (log ++ [evaluated cal mode p k store]) (evaluate cal mode p k store).1 ∧
      Judged log (evaluated cal mode p k store) := by
  have hday : (evaluated cal mode p k store).day = cal.localDate p.startedAt := rfl
  have hpriced : (evaluated cal mode p k store).equity =
      if (mark k.portfolio p.marks).unmarkedSymbols = [] then some (mark k.portfolio p.marks).equity else none := rfl
  have hrules : (evaluated cal mode p k store).rules = (evaluate cal mode p k store).1.rules := rfl
  generalize evaluated cal mode p k store = e at *
  by_cases howed : k.anchorPending = true
  · by_cases hmarked : (mark k.portfolio p.marks).unmarkedSymbols = []
    · obtain ⟨hnow, hsame⟩ := hopen howed hmarked
      rw [if_pos hmarked] at hpriced
      have hsessionDay : sessionDay cal p.now = .ok e.day := by rw [sessionDay_open hnow, hsame, hday]
      obtain ⟨hnone, hget⟩ | ⟨d, at', hfirst, hat, hget⟩ := hstore e.day
      · -- nothing stored: what this pass marks is what the session grants
        have hread : AnchorStore.get store mode e.day p.now = .ok none := by
          unfold AnchorStore.get
          rw [hget]
        have heval : evaluate cal mode p k store =
            ({ k with
              portfolio := mark k.portfolio p.marks, evaluated := some (cal.localDate p.startedAt),
              rules := anchorSession p.equity.value k.rules, anchorPending := false },
              AnchorStore.put store mode e.day p.equity p.now) := by
          simp [evaluate, anchorIfPending, howed, hmarked, hsessionDay, hread]
        have hgranted : firstPriced (log ++ [e]) e.day = some p.equity.value := by
          rw [firstPriced_append, hnone, if_pos rfl, Option.none_or, hpriced, hequity]
        rw [heval] at hrules ⊢
        have hanchored : AnchoredTo (anchorSession p.equity.value k.rules) (firstPriced (log ++ [e]) e.day) :=
          hgranted ▸ anchoredTo_anchorSession _ _
        refine ⟨hstore.put (hsame.trans hday.symm) hnone (by rw [hpriced, hequity]),
          ⟨.inr hmarked, fun _ _ => ⟨hmarked, e.day, by rw [hday], by rw [hgranted]; simp, hanchored⟩⟩, .inl ⟨by rw [hgranted]; simp, ?_⟩⟩
        rw [hrules]
        exact hanchored
      · -- an earlier pass of the session stored what it granted
        have hread : AnchorStore.get store mode e.day p.now = .ok (some d) := by
          refine AnchorStore.get_put hget ?_
          have hnear : p.now < at' + 3 * 86400 := localDate_near (by rw [hsame, hat, hday])
          unfold AnchorStore.ttlSeconds
          omega
        have heval : evaluate cal mode p k store =
            ({ k with
              portfolio := mark k.portfolio p.marks, evaluated := some (cal.localDate p.startedAt),
              rules := anchorSession d.value k.rules, anchorPending := false }, store) := by
          simp [evaluate, anchorIfPending, howed, hmarked, hsessionDay, hread]
        have hgranted : firstPriced (log ++ [e]) e.day = some d.value := by
          rw [firstPriced_append, hfirst, Option.some_or]
        rw [heval] at hrules ⊢
        have hanchored : AnchoredTo (anchorSession d.value k.rules) (firstPriced (log ++ [e]) e.day) :=
          hgranted ▸ anchoredTo_anchorSession _ _
        refine ⟨hstore.unpriced (.inr (by rw [hfirst]; simp)),
          ⟨.inr hmarked, fun _ _ => ⟨hmarked, e.day, by rw [hday], by rw [hgranted]; simp, hanchored⟩⟩, .inl ⟨by rw [hgranted]; simp, ?_⟩⟩
        rw [hrules]
        exact hanchored
    · -- an unpriced book: the anchor stays owed, and no process with an anchor has one
      rw [if_neg hmarked] at hpriced
      have heval : evaluate cal mode p k store =
          ({ k with portfolio := mark k.portfolio p.marks, evaluated := some (cal.localDate p.startedAt) }, store) := by
        simp [evaluate, anchorIfPending, howed, hmarked]
      have hunanchored : Unanchored k.rules := (marked_or hk p.marks).resolve_right hmarked
      rw [heval] at hrules ⊢
      refine ⟨hstore.unpriced (.inl hpriced), ⟨.inl hunanchored, fun _ hpaid => absurd howed (by simp_all)⟩, .inr ⟨hpriced, ?_⟩⟩
      rw [hrules]
      exact hunanchored
  · have hpaid : k.anchorPending = false := by simpa using howed
    have heval : evaluate cal mode p k store =
        ({ k with portfolio := mark k.portfolio p.marks, evaluated := some (cal.localDate p.startedAt) }, store) := by
      simp [evaluate, anchorIfPending, hpaid]
    obtain ⟨hmarked, day, hevaluated, hsome, hanchored⟩ := hk.paid hwarm hpaid
    have hsame : day = e.day := (hsession day hevaluated).trans hday.symm
    subst hsame
    have hgranted : firstPriced (log ++ [e]) e.day = firstPriced log e.day := by
      obtain ⟨q, hq⟩ := Option.ne_none_iff_exists'.1 hsome
      rw [firstPriced_append, hq, Option.some_or]
    rw [heval] at hrules ⊢
    refine ⟨hstore.unpriced (.inr hsome), ⟨.inr (mark_marked hmarked), fun _ _ => ⟨mark_marked hmarked, e.day, by rw [hday],
      by rwa [hgranted], by rwa [hgranted]⟩⟩, .inl ⟨by rwa [hgranted], ?_⟩⟩
    rw [hrules, hgranted]
    exact hanchored

/-- **What one step keeps.** -/
theorem moves_granted {i : Step} (h : Granted cal mode w) (hkeeps : KeepsSession cal w i) (hmove : Moves cal mode w i w') :
    Granted cal mode w' := by
  cases hmove with
  | restart hrules =>
    refine ⟨h.stored, fun k hk => ?_, h.judged⟩
    cases hk
    exact ⟨.inl hrules, fun hwarm => absurd hwarm (by simp)⟩
  | warmup hk =>
    refine ⟨h.stored, fun k' hk' => ?_, h.judged⟩
    cases hk'
    exact ⟨(h.standing _ hk).marked, fun _ hpaid => absurd hpaid (by simp)⟩
  | fill hk hf =>
    refine ⟨h.stored, fun k' hk' => ?_, h.judged⟩
    cases hk'
    have hstanding := h.standing _ hk
    exact ⟨hstanding.marked.imp_right fun hm => fill_marked hm hf, fun hwarm hpaid =>
      ⟨fill_marked (hstanding.paid hwarm hpaid).1 hf, (hstanding.paid hwarm hpaid).2⟩⟩
  | charge hk =>
    refine ⟨h.stored, fun k' hk' => ?_, h.judged⟩
    cases hk'
    exact ⟨(h.standing _ hk).marked, (h.standing _ hk).paid⟩
  | pass hk hwarm hopen hequity =>
    obtain ⟨hsession, hlater⟩ := hkeeps _ hk
    obtain ⟨hstored, hstanding, hjudged⟩ := pass_granted h.stored (h.standing _ hk) hwarm hsession hlater hequity
    refine ⟨hstored, fun k' hk' => ?_, fun before e hprefix => ?_⟩
    · cases hk'
      exact hstanding
    · obtain heq | hprefix := List.prefix_concat_iff.1 hprefix
      · obtain ⟨hbefore, hlast⟩ := List.append_inj' heq rfl
        subst hbefore
        obtain rfl := List.singleton_inj.1 hlast
        exact hjudged
      · exact h.judged before e hprefix

theorem unanchored_denies (o : Order) (books : RiskBooks) (limits : Limits) (h : reducesPosition o books.settled = false) :
    (Rule.check o books limits (.dailyLossLimit none)).approved = false := by
  show (dailyLossLimitCheck none o books limits.toRiskLimits).approved = false
  unfold dailyLossLimitCheck
  rw [h]
  rfl

/-- **A session grants its allowance once.**  In every run whose passes keep to their sessions, a daily loss limit a pass
judges by is anchored, if it is, to the marked equity of the first pass of the session that found every open position priced;
a pass that finds that anchors it; and while it is not, it denies every order that does not reduce a settled position. -/
theorem granted_once {steps : List Step} (h : Run (guarded (Moves cal mode) (KeepsSession cal)) {} steps w) {before : List Evaluated}
    {e : Evaluated} (he : before ++ [e] <+: w.log) {s : Option ℚ} (hs : Rule.dailyLossLimit s ∈ e.rules) :
    (s ≠ none → s = firstPriced (before ++ [e]) e.day) ∧ (e.equity ≠ none → s ≠ none) ∧
      (s = none → ∀ o books limits, reducesPosition o books.settled = false →
        (Rule.check o books limits (.dailyLossLimit s)).approved = false) := by
  have hstart : Granted cal mode {} := by
    refine ⟨fun day => .inl ⟨rfl, rfl⟩, fun k hk => (nomatch hk), fun before e hprefix => ?_⟩
    exact absurd (List.prefix_nil.1 hprefix) (by simp)
  have hgranted : Granted cal mode w :=
    run_guarded (KeepsSession cal) (Granted cal mode) (fun _ _ _ hI hkeeps hmove => moves_granted hI hkeeps hmove) hstart h
  refine ⟨fun hne => ?_, fun hpriced => ?_, fun hnone o books limits hreduces => hnone ▸ unanchored_denies o books limits hreduces⟩
  · obtain ⟨-, hanchored⟩ | ⟨-, hunanchored⟩ := hgranted.judged before e he
    · exact hanchored s hs
    · exact absurd (hunanchored s hs) hne
  · obtain ⟨hsome, hanchored⟩ | ⟨hunpriced, -⟩ := hgranted.judged before e he
    · rw [hanchored s hs]
      exact hsome
    · exact absurd hunpriced hpriced

end

/-! ## Concretely -/

/-- Ten shares, marked at ten, and a thousand in cash. -/
def tenHeld : Portfolio where
  cash := 1000
  startingEquity := 1100
  positions := Dict.empty.set "SPY" { symbol := "SPY", qty := 10, avgEntryPrice := 10, lastPrice := some 10 }

/-- A pass over ten shares at a price. -/
def passAt (startedAt now : ℤ) (price : ℚ) (equity : ℕ) : Pass := ⟨startedAt, now, [("SPY", price)], ⟨false, equity, 0⟩⟩

/-- The days' starts that some rules hold. -/
def dayStarts (rules : List Rule) : List (Option ℚ) :=
  rules.filterMap fun rule =>
    match rule with
    | .dailyLossLimit s => some s
    | _ => none

theorem lossOnly_unanchored : Unanchored [.dailyLossLimit none] := by
  intro s hs
  cases List.mem_singleton.1 hs
  rfl

/-- A worker booted and warmed up over ten shares. -/
def booted : Process where
  rules := [.dailyLossLimit none]
  portfolio := tenHeld
  warm := true
  anchorPending := true

def booting : List Step := [.restart [.dailyLossLimit none] tenHeld, .warmup]

theorem booting_run (G : World → Step → Prop) (h : ∀ w, G w (.restart [.dailyLossLimit none] tenHeld) ∧ G w .warmup) (w : World) :
    Run (guarded (Moves .everyDay .paper) G) w booting { w with process := some booted } :=
  .cons ⟨.restart lossOnly_unanchored, (h _).1⟩ (.cons ⟨.warmup rfl, (h _).2⟩ (.nil _))

theorem booted_pass {w : World} (hw : w.process = some booted) {p : Pass}
    (hopen : TradingCalendar.everyDay.isOpen p.startedAt = true) (hequity : p.equity.value = (mark tenHeld p.marks).equity)
    (hnow : TradingCalendar.everyDay.isOpen p.now = true ∧
      TradingCalendar.everyDay.localDate p.now = TradingCalendar.everyDay.localDate p.startedAt) :
    guarded (Moves .everyDay .paper) (KeepsSession .everyDay) w (.pass p) (w.passed .everyDay .paper booted p) := by
  refine ⟨.pass hw rfl hopen hequity, fun k hk => ?_⟩
  rw [hw] at hk
  cases hk
  exact ⟨fun day hday => (nomatch hday), fun _ _ => hnow⟩

def morning : Pass := passAt 50000 50001 10 1100

def noon : Pass := passAt 52000 52001 5 1050

/-- The worker of the morning's pass gone, and another in its place. -/
def replaced : World := { World.passed .everyDay .paper { process := some booted } booted morning with process := some booted }

/-- **A worker that takes over in a session**: its book has lost fifty, and its limit is where the session's first pass put it. -/
theorem granted_once_booted : ∃ w before e, Run (guarded (Moves .everyDay .paper) (KeepsSession .everyDay)) {}
      (booting ++ .pass morning :: (booting ++ [.pass noon])) w ∧
    before ++ [e] <+: w.log ∧ e.equity = some 1050 ∧ ∀ s, Rule.dailyLossLimit s ∈ e.rules → s = some 1100 := by
  have hboot := booting_run (KeepsSession .everyDay) fun _ => ⟨trivial, trivial⟩
  have hmorning := booted_pass (w := { process := some booted }) rfl (p := morning) (by decide) (by decide +kernel) (by decide)
  have hnoon := booted_pass (w := replaced) rfl (p := noon) (by decide) (by decide +kernel) (by decide)
  have hagain := run_append_iff.2 ⟨_, hboot _, .cons hnoon (.nil _)⟩
  have hrun := run_append_iff.2 ⟨_, hboot {}, .cons hmorning hagain⟩
  refine ⟨_, replaced.log, evaluated .everyDay .paper noon booted replaced.anchors, hrun, List.prefix_rfl, by decide +kernel,
    fun s hs => ?_⟩
  obtain ⟨hfirst, hpriced, -⟩ := granted_once hrun List.prefix_rfl hs
  rw [hfirst (hpriced (by decide +kernel))]
  decide +kernel

def lastPass : Pass := passAt 59998 60000 10 1100

def nextPass : Pass := passAt 136400 136401 5 1050

/-- The worker of the last pass, warmed up for the next session. -/
def rewarmed : Process :=
  { (evaluate .everyDay .paper lastPass booted .empty).1 with warm := true, anchorPending := true, evaluated := none }

/-- **The close falls within a pass**: a worker boots two seconds before it and takes its anchor at the close, and what it
stores is where the next session's loss is measured from, on a book that opened lower. -/
theorem granted_across : ∃ w, Run (Moves .everyDay .paper) {} (booting ++ [.pass lastPass, .warmup, .pass nextPass]) w ∧
    w.log.map (fun e => (e.day, e.equity, dayStarts e.rules)) =
      [(0, some 1100, [some 1100]), (1, some 1050, [some 1100])] := by
  have hbooting := run_mono (fun _ _ _ h => h.1) (booting_run (fun _ _ => True) (fun _ => ⟨trivial, trivial⟩) {})
  have hlast : Moves .everyDay .paper { process := some booted } (.pass lastPass)
      (World.passed .everyDay .paper { process := some booted } booted lastPass) :=
    .pass rfl rfl (by decide) (by decide +kernel)
  refine ⟨_, run_append_iff.2 ⟨_, hbooting, .cons hlast (.cons (.warmup rfl)
    (.cons (.pass (k := rewarmed) rfl rfl (by decide) ?_) (.nil _)))⟩, ?_⟩
  · decide +kernel
  · decide +kernel

end SessionAnchors
end Atp
