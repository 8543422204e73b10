import Mathlib.Data.List.Sublists
import AlgoTrading.Dict
import AlgoTrading.Market
import AlgoTrading.Raising
import AlgoTrading.Runs
/-!
# BarFeed — how stored bars reach a live strategy

From `atp_worker/runner.py`: what `warmup` loads of each symbol, `_refresh_bars`, and the part of a pass that asks the
strategy (`_poll_strategy`), over the bar repository of `persistence/bars.py`, whose upsert keeps an adjusted close that
the new bar lacks.  What the steps between do is not modelled, only that they may raise.  Bars of one symbol are read at
one instant of a pass, so a pass reads the store as it stands: a bar that lands meanwhile counts as stored before the
pass or after it.
-/
namespace Atp

open Raising Runs

/-! ## The store -/

/-- The row a bar leaves of the one stored at its instant: an adjusted close it does not carry stays. -/
def Bar.onConflict (stored bar : Bar) : Bar := { bar with adjClose := bar.adjClose.or stored.adjClose }

/-- A row into the rows of its series: a row of the same instant is updated. -/
def place (bar : Bar) : List Bar → List Bar
  | [] => [bar]
  | b :: rest =>
    if bar.ts < b.ts then bar :: b :: rest
    else if b.ts = bar.ts then b.onConflict bar :: rest
    else b :: place bar rest

theorem mem_place {bar x : Bar} : ∀ {rows : List Bar}, x ∈ place bar rows →
    (x.symbol = bar.symbol ∧ x.ts = bar.ts) ∨ x ∈ rows
  | [], h => .inl (by rw [List.mem_singleton.1 h]; exact ⟨rfl, rfl⟩)
  | b :: rest, h => by
    unfold place at h
    split_ifs at h
    · obtain rfl | h := List.mem_cons.1 h
      · exact .inl ⟨rfl, rfl⟩
      · exact .inr h
    · obtain rfl | h := List.mem_cons.1 h
      · exact .inl ⟨rfl, rfl⟩
      · exact .inr (List.mem_cons_of_mem _ h)
    · obtain h | h := List.mem_cons.1 h
      · exact .inr (List.mem_cons.2 (.inl h))
      · exact (mem_place h).imp_right (List.mem_cons_of_mem _)

/-- What is placed is there, and no instant is lost. -/
theorem place_ts {bar : Bar} {t : ℤ} : ∀ {rows : List Bar},
    t ∈ (place bar rows).map Bar.ts ↔ t = bar.ts ∨ t ∈ rows.map Bar.ts
  | [] => by simp [place]
  | b :: rest => by
    unfold place
    split_ifs with hlt heq
    · simp
    · simp [heq, Bar.onConflict]
    · rw [List.map_cons, List.mem_cons, place_ts, List.map_cons, List.mem_cons]
      tauto

theorem sorted_place {bar : Bar} : ∀ {rows : List Bar}, (rows.Pairwise fun a b => a.ts < b.ts) →
    (place bar rows).Pairwise fun a b => a.ts < b.ts
  | [], _ => by simp [place]
  | b :: rest, h => by
    obtain ⟨hb, hrest⟩ := List.pairwise_cons.1 h
    unfold place
    split_ifs with hlt heq
    · refine List.pairwise_cons.2 ⟨fun x hx => ?_, h⟩
      obtain rfl | hx := List.mem_cons.1 hx
      · exact hlt
      · exact hlt.trans (hb x hx)
    · refine List.pairwise_cons.2 ⟨fun x hx => ?_, hrest⟩
      show bar.ts < x.ts
      exact heq ▸ hb x hx
    · refine List.pairwise_cons.2 ⟨fun x hx => ?_, sorted_place hrest⟩
      obtain ⟨-, hts⟩ | hx := mem_place hx
      · omega
      · exact hb x hx

/-- The `bars` table: each series in the order of its key, one row an instant. -/
structure BarTable where
  rows : String → Timeframe → List Bar
  sorted : ∀ symbol timeframe, (rows symbol timeframe).Pairwise fun a b => a.ts < b.ts
  named : ∀ symbol timeframe, ∀ b ∈ rows symbol timeframe, b.symbol = symbol

namespace BarTable

def empty : BarTable where
  rows _ _ := []
  sorted _ _ := .nil
  named _ _ _ h := by cases h

/-- `upsert_bars`, a row at a time. -/
def upsert (table : BarTable) (bar : Bar) : BarTable where
  rows symbol timeframe :=
    if symbol = bar.symbol ∧ timeframe = bar.timeframe then place bar (table.rows symbol timeframe)
    else table.rows symbol timeframe
  sorted symbol timeframe := by
    split
    · exact sorted_place (table.sorted _ _)
    · exact table.sorted _ _
  named symbol timeframe b hb := by
    split at hb
    · rename_i h
      obtain ⟨hname, -⟩ | hb := mem_place hb
      · rw [hname, h.1]
      · exact table.named _ _ b hb
    · exact table.named _ _ b hb

/-- **`get_last_n_bars`**: the most recent `n`, chronological; `n` is at least one wherever it is called. -/
def lastBars (table : BarTable) (symbol : String) (timeframe : Timeframe) (n : ℕ) (notBefore : Option ℤ := none) : List Bar :=
  let rows := (table.rows symbol timeframe).filter fun b => notBefore.all (· ≤ b.ts)
  rows.drop (rows.length - n)

end BarTable

/-! ## The runner's bars -/

/-- What a runner reads bars by.  `decision` is the day of the session it takes its decision on, where it takes one at
the open. -/
structure BarReader where
  symbols : List String
  timeframe : Timeframe
  warmAfter : ℤ
  localDate : ℤ → ℤ
  decision : Option ℤ := none

structure Feed where
  store : BarTable
  bars : Dict String (List Bar) := .empty
  shown : List Bar := []
  discardedCold : ℕ := 0

/-- What a pass meets: the reads that raise, whether a step before the strategy is asked raises, what it says of a bar,
and what the book holds. -/
structure FeedPass where
  reads : String → Option Exc := fun _ => none
  before : Option Exc := none
  onBar : Bar → Except Exc (List Signal) := fun _ => .ok []
  holds : String → Bool := fun _ => false

/-- `self._bars.get(symbol) or []`. -/
def Feed.held (f : Feed) (symbol : String) : List Bar := (f.bars.get? symbol).getD []

/-- `_IN_PROGRESS_BARS`. -/
def inProgressBars : ℕ := 1

namespace BarReader

variable (w : BarReader)

/-- The session of a bar has closed, as far as this runner is bound to ask. -/
def decides (ts : ℤ) : Bool := w.decision.all (w.localDate ts ≤ ·)

/-- `bars_to_load`. -/
def barsToLoad : ℕ := max w.warmAfter.toNat 1

/-- What `warmup` keeps of a symbol: the bar the decision is about is held back. -/
def loaded (table : BarTable) (floor : Option ℤ) (symbol : String) : List Bar :=
  match w.decision with
  | none => table.lastBars symbol w.timeframe w.barsToLoad floor
  | some day =>
    let bars := (table.lastBars symbol w.timeframe (w.barsToLoad + 1) floor).filter fun b => w.decides b.ts
    if bars.getLast?.any fun b => w.localDate b.ts = day then bars.dropLast else bars

/-- **`warmup`**, as far as it loads bars. -/
def warmup (table : BarTable) (floor : Option ℤ) : Feed where
  store := table
  bars := w.symbols.foldl (fun bars symbol => bars.set symbol (w.loaded table floor symbol)) .empty

/-- How many of the newest rows a pass reads. -/
def wanted : ℕ := if w.decision.isNone then 1 else inProgressBars + 1

/-- The bar a pass takes up: the last it may decide on of the rows it reads, if it is past the last one held. -/
def newBar (f : Feed) (symbol : String) : Option Bar :=
  match ((f.store.lastBars symbol w.timeframe w.wanted).filter fun b => w.decides b.ts).getLast? with
  | none => none
  | some bar =>
    match (f.held symbol).getLast? with
    | none => some bar
    | some last => if bar.ts ≤ last.ts then none else some bar

/-- **`_refresh_bars`**, from some symbol on. -/
def refreshFrom (p : FeedPass) : List String → Prog Feed Exc (List Bar)
  | [] => return []
  | symbol :: rest => do
    match p.reads symbol with
    | some exc => throw exc
    | none =>
      let f ← get
      match w.newBar f symbol with
      | none => refreshFrom p rest
      | some bar =>
        modify fun f => { f with bars := f.bars.set symbol (f.held symbol ++ [bar]) }
        let justClosed ← refreshFrom p rest
        return bar :: justClosed

/-- `_stamp`. -/
def stamp (bar : Bar) (signal : Signal) : Signal :=
  if w.decision.isNone then signal else { signal with ts := bar.ts + w.timeframe.seconds }

/-- What passes while a symbol is cold: an exit of what is held. -/
def admitsCold (p : FeedPass) (signal : Signal) : Bool := signal.action = .exit && p.holds signal.symbol

/-- **`_poll_strategy`**: the strategy is asked about each bar, and heard once the symbol is warm. -/
def pollStrategy (p : FeedPass) : List Bar → Prog Feed Exc (List Signal)
  | [] => return []
  | bar :: rest => do
    modify fun f => { f with shown := f.shown ++ [bar] }
    let produced ← fromExcept (p.onBar bar)
    let produced := produced.map (w.stamp bar)
    let f ← get
    let warm : Bool := w.warmAfter < (f.held bar.symbol).length
    let heard := produced.filter fun s => warm || admitsCold p s
    let discarded := produced.filter fun s => !(warm || admitsCold p s || s.action = .hold)
    modify fun f => { f with discardedCold := f.discardedCold + discarded.length }
    let signals ← pollStrategy p rest
    return heard ++ signals

/-- **`_evaluate_once`**, as far as bars are concerned; `evaluate` lets a raise go. -/
def evaluate (p : FeedPass) : Prog Feed Exc (List Signal) := do
  let closed ← w.refreshFrom p w.symbols
  match p.before with
  | some exc => throw exc
  | none => w.pollStrategy p closed

/-! ## The bar a pass takes up -/

/-- The last of a series is its newest. -/
theorem getLast_sorted {x : Bar} : ∀ {l : List Bar}, (l.Pairwise fun a b => a.ts < b.ts) →
    (l.getLast? = some x ↔ x ∈ l ∧ ∀ y ∈ l, y.ts ≤ x.ts)
  | [], _ => by simp
  | [b], _ => by
    simp only [List.getLast?_singleton, Option.some.injEq, List.mem_singleton, forall_eq]
    constructor
    · rintro rfl
      exact ⟨rfl, le_rfl⟩
    · exact fun h => h.1.symm
  | b :: c :: l, h => by
    obtain ⟨hb, hrest⟩ := List.pairwise_cons.1 h
    rw [List.getLast?_cons_cons, getLast_sorted hrest]
    constructor
    · rintro ⟨hx, hmax⟩
      refine ⟨List.mem_cons_of_mem _ hx, fun y hy => ?_⟩
      obtain rfl | hy := List.mem_cons.1 hy
      · exact (hb x hx).le
      · exact hmax y hy
    · rintro ⟨hx, hmax⟩
      refine ⟨?_, fun y hy => hmax y (List.mem_cons_of_mem _ hy)⟩
      obtain rfl | hx := List.mem_cons.1 hx
      · have := hb c (by simp)
        have := hmax c (by simp)
        omega
      · exact hx

/-- The newest `n` of a series: fewer than `n` rows are newer. -/
theorem mem_newest {x : Bar} {n : ℕ} : ∀ {rows : List Bar}, (rows.Pairwise fun a b => a.ts < b.ts) →
    (x ∈ rows.drop (rows.length - n) ↔ x ∈ rows ∧ (rows.filter fun y => x.ts < y.ts).length < n)
  | [], _ => by simp
  | b :: rest, h => by
    obtain ⟨hb, hrest⟩ := List.pairwise_cons.1 h
    have hfilter : ((b :: rest).filter fun y => b.ts < y.ts).length = rest.length := by
      rw [List.filter_cons_of_neg (by simp), List.filter_eq_self.2 (by simpa using hb)]
    have hkept {y : Bar} (hy : y ∈ rest) : ((b :: rest).filter fun z => y.ts < z.ts).length =
        (rest.filter fun z => y.ts < z.ts).length := by
      have hby : ¬y.ts < b.ts := by
        have := hb y hy
        omega
      rw [List.filter_cons_of_neg (by simpa using hby)]
    obtain hn | hn := Nat.lt_or_ge rest.length n
    · rw [Nat.sub_eq_zero_of_le (by rw [List.length_cons]; omega), List.drop_zero]
      refine ⟨fun hx => ⟨hx, ?_⟩, fun hx => hx.1⟩
      obtain rfl | hx := List.mem_cons.1 hx
      · rwa [hfilter]
      · rw [hkept hx]
        exact (List.length_filter_le _ _).trans_lt hn
    · rw [List.length_cons, Nat.sub_add_comm hn, List.drop_succ_cons, mem_newest hrest]
      constructor
      · rintro ⟨hx, hlt⟩
        exact ⟨List.mem_cons_of_mem _ hx, by rwa [hkept hx]⟩
      · rintro ⟨hx, hlt⟩
        obtain rfl | hx := List.mem_cons.1 hx
        · rw [hfilter] at hlt
          omega
        · exact ⟨hx, by rwa [hkept hx] at hlt⟩

/-- **The next bar of a symbol**: decidable, past every bar held, the newest such row, and not behind more rows than a
pass reads. -/
structure Next (w : BarReader) (f : Feed) (symbol : String) (ts : ℤ) : Prop where
  decided : w.decides ts = true
  stored : ∃ x ∈ f.store.rows symbol w.timeframe, x.ts = ts
  later : ∀ h ∈ f.held symbol, h.ts < ts
  newest : ∀ x ∈ f.store.rows symbol w.timeframe, w.decides x.ts = true → x.ts ≤ ts
  near : ((f.store.rows symbol w.timeframe).filter fun x => ts < x.ts).length < w.wanted

section
variable {w} {f : Feed} {symbol : String} {x : Bar}

theorem lastBars_eq (table : BarTable) (timeframe : Timeframe) (n : ℕ) :
    table.lastBars symbol timeframe n = (table.rows symbol timeframe).drop ((table.rows symbol timeframe).length - n) := by
  have hall : ((table.rows symbol timeframe).filter fun b => (none : Option ℤ).all (· ≤ b.ts)) =
      table.rows symbol timeframe := List.filter_eq_self.2 fun _ _ => rfl
  rw [BarTable.lastBars, hall]

/-- What the rows a pass reads end with, of those it may decide on. -/
theorem newest_read : ((f.store.lastBars symbol w.timeframe w.wanted).filter fun b => w.decides b.ts).getLast? = some x ↔
    x ∈ f.store.rows symbol w.timeframe ∧ w.decides x.ts = true ∧
      (∀ y ∈ f.store.rows symbol w.timeframe, w.decides y.ts = true → y.ts ≤ x.ts) ∧
      ((f.store.rows symbol w.timeframe).filter fun y => x.ts < y.ts).length < w.wanted := by
  have hsorted := f.store.sorted symbol w.timeframe
  rw [lastBars_eq, getLast_sorted ((hsorted.drop).filter _)]
  simp only [List.mem_filter, mem_newest hsorted]
  constructor
  · rintro ⟨⟨⟨hx, hnear⟩, hdec⟩, hmax⟩
    refine ⟨hx, hdec, fun y hy hyd => ?_, hnear⟩
    by_contra hlt
    -- a newer row has fewer rows newer than it, so it was read too
    have hsub : ((f.store.rows symbol w.timeframe).filter fun z => y.ts < z.ts).length ≤
        ((f.store.rows symbol w.timeframe).filter fun z => x.ts < z.ts).length := by
      apply List.Sublist.length_le
      apply List.monotone_filter_right
      intro z hz
      simp only [decide_eq_true_eq] at hz ⊢
      omega
    exact hlt (hmax y ⟨⟨hy, hsub.trans_lt hnear⟩, hyd⟩)
  · rintro ⟨hx, hdec, hmax, hnear⟩
    exact ⟨⟨⟨hx, hnear⟩, hdec⟩, fun y hy => hmax y hy.1.1 hy.2⟩

/-- **A pass takes up the next bar, and no other.** -/
theorem newBar_iff (hheld : (f.held symbol).Pairwise fun a b => a.ts < b.ts) :
    w.newBar f symbol = some x ↔ x ∈ f.store.rows symbol w.timeframe ∧ w.Next f symbol x.ts := by
  have hlater : (∀ l, (f.held symbol).getLast? = some l → l.ts < x.ts) ↔ ∀ h ∈ f.held symbol, h.ts < x.ts := by
    constructor
    · intro h y hy
      cases hl : (f.held symbol).getLast? with
      | none =>
        rw [List.getLast?_eq_none_iff] at hl
        rw [hl] at hy
        cases hy
      | some l => exact (((getLast_sorted hheld).1 hl).2 y hy).trans_lt (h l hl)
    · exact fun h l hl => h l (List.mem_of_getLast? hl)
  have hnext : x ∈ f.store.rows symbol w.timeframe ∧ w.Next f symbol x.ts ↔
      ((f.store.lastBars symbol w.timeframe w.wanted).filter fun b => w.decides b.ts).getLast? = some x ∧
        ∀ l, (f.held symbol).getLast? = some l → l.ts < x.ts := by
    rw [hlater, newest_read]
    constructor
    · rintro ⟨hx, h⟩
      exact ⟨⟨hx, h.decided, h.newest, h.near⟩, h.later⟩
    · rintro ⟨⟨hx, hdec, hmax, hnear⟩, hlate⟩
      exact ⟨hx, hdec, ⟨x, hx, rfl⟩, hlate, hmax, hnear⟩
  rw [hnext, newBar]
  cases ((f.store.lastBars symbol w.timeframe w.wanted).filter fun b => w.decides b.ts).getLast? with
  | none => simp
  | some y =>
    cases (f.held symbol).getLast? with
    | none => simp
    | some l =>
      dsimp only
      split
      · rename_i hle
        simp only [reduceCtorEq, Option.some.injEq, forall_eq', false_iff, not_and, not_lt]
        rintro rfl
        exact hle
      · rename_i hlt
        simp only [Option.some.injEq, forall_eq']
        constructor
        · rintro rfl
          exact ⟨rfl, not_le.1 hlt⟩
        · exact fun h => h.1

end

/-! ## What a pass does -/

/-- **What a pass appends**: to each symbol the bars it took up, each of them its symbol's next, one a symbol and in the
order of the watchlist. -/
structure Appended (w : BarReader) (f f' : Feed) (closed : List Bar) : Prop where
  store : f'.store = f.store
  held : ∀ symbol, f'.held symbol = f.held symbol ++ closed.filter (·.symbol = symbol)
  taken : ∀ x ∈ closed, w.newBar f x.symbol = some x
  distinct : (closed.map Bar.symbol).Nodup

section
variable {w} {f : Feed} {symbol : String}

theorem held_set (bars : List Bar) (symbol' : String) :
    ({ f with bars := f.bars.set symbol bars } : Feed).held symbol' = if symbol' = symbol then bars else f.held symbol' := by
  unfold Feed.held
  rw [Dict.get?_set]
  split <;> rfl

theorem newBar_symbol {x : Bar} (h : w.newBar f symbol = some x) : x.symbol = symbol := by
  unfold newBar at h
  split at h
  · cases h
  · rename_i bar hbar
    have hx := f.store.named _ _ bar (newest_read.1 hbar).1
    split at h
    · cases h
      exact hx
    · split at h <;> cases h
      exact hx

/-- What a symbol's next bar is depends on its rows and on what is held of it. -/
theorem newBar_congr {g : Feed} (hstore : g.store = f.store) (hheld : g.held symbol = f.held symbol) :
    w.newBar g symbol = w.newBar f symbol := by
  unfold newBar
  rw [hstore, hheld]

/-- Once taken up, a bar is not taken up again. -/
theorem newBar_taken {x : Bar} (h : w.newBar f symbol = some x) :
    w.newBar { f with bars := f.bars.set symbol (f.held symbol ++ [x]) } symbol = none := by
  have hread : ((f.store.lastBars symbol w.timeframe w.wanted).filter fun b => w.decides b.ts).getLast? = some x := by
    unfold newBar at h
    split at h
    · cases h
    · rename_i bar hbar
      split at h
      · cases h
        exact hbar
      · split at h <;> cases h
        exact hbar
  unfold newBar
  rw [held_set, if_pos rfl, List.getLast?_concat]
  dsimp only
  rw [hread]
  exact if_pos le_rfl

/-- **What `_refresh_bars` leaves**, when it returns and when a read raises. -/
structure Refreshed (w : BarReader) (p : FeedPass) (symbols : List String) (f : Feed) (out : Except Exc (List Bar) × Feed)
    (closed : List Bar) : Prop extends Appended w f out.2 closed where
  shown : out.2.shown = f.shown
  order : (closed.map Bar.symbol).Sublist symbols
  returned : ∀ r, out.1 = .ok r → r = closed
  complete : (∀ s ∈ symbols, p.reads s = none) →
    out.1 = .ok closed ∧ ∀ s ∈ symbols, ∀ x, w.newBar f s = some x → x ∈ closed

theorem refreshed_nothing {p : FeedPass} {symbols : List String} {out : Except Exc (List Bar)}
    (hreturned : ∀ r, out = .ok r → r = [])
    (hcomplete : (∀ s ∈ symbols, p.reads s = none) → out = .ok [] ∧ ∀ s ∈ symbols, ∀ x, w.newBar f s = some x → x ∈ []) :
    Refreshed w p symbols f (out, f) [] where
  store := rfl
  held symbol := (List.append_nil _).symm
  taken _ h := by cases h
  distinct := .nil
  shown := rfl
  order := List.nil_sublist _
  returned := hreturned
  complete := hcomplete

theorem refreshed_skip {p : FeedPass} {rest : List String} {out : Except Exc (List Bar) × Feed} {closed : List Bar}
    (h : Refreshed w p rest f out closed) (hnone : w.newBar f symbol = none) : Refreshed w p (symbol :: rest) f out closed :=
  { h with
    order := h.order.trans (List.sublist_cons_self _ _)
    complete := by
      intro hreads
      obtain ⟨hok, hall⟩ := h.complete fun s hs => hreads s (List.mem_cons_of_mem _ hs)
      refine ⟨hok, fun s hs x hx => ?_⟩
      obtain rfl | hs := List.mem_cons.1 hs
      · rw [hnone] at hx
        cases hx
      · exact hall s hs x hx }

/-- A bar taken up, before what the rest of the watchlist takes up. -/
theorem refreshed_take {p : FeedPass} {rest : List String} {out : Except Exc (List Bar)} {f' : Feed} {closed : List Bar}
    {x : Bar} (hx : w.newBar f symbol = some x)
    (h : Refreshed w p rest { f with bars := f.bars.set symbol (f.held symbol ++ [x]) } (out, f') closed) :
    Refreshed w p (symbol :: rest) f (out.map fun r => x :: r, f') (x :: closed) := by
  have hname := newBar_symbol hx
  have htaken := newBar_taken hx
  have hother {y : Bar} (hy : y ∈ closed) : y.symbol ≠ symbol := by
    intro heq
    have hnone := h.taken y hy
    rw [heq, htaken] at hnone
    cases hnone
  have hcongr {s : String} (hs : s ≠ symbol) :
      w.newBar { f with bars := f.bars.set symbol (f.held symbol ++ [x]) } s = w.newBar f s :=
    newBar_congr rfl (by rw [held_set, if_neg hs])
  constructor
  · constructor
    · exact h.store
    · intro s
      rw [h.held s, held_set, List.filter_cons]
      by_cases hs : s = symbol
      · subst hs
        rw [if_pos rfl, if_pos (by simpa using hname), List.append_assoc]
        rfl
      · rw [if_neg hs, if_neg (by rw [hname]; simpa using Ne.symm hs)]
    · intro y hy
      obtain rfl | hy := List.mem_cons.1 hy
      · rw [hname, hx]
      · rw [← hcongr (hother hy)]
        exact h.taken y hy
    · rw [List.map_cons, List.nodup_cons, List.mem_map]
      refine ⟨?_, h.distinct⟩
      rintro ⟨y, hy, heq⟩
      exact hother hy (heq.trans hname)
  · exact h.shown
  · rw [List.map_cons, hname]
    exact h.order.cons_cons symbol
  · intro r hr
    cases out with
    | error e => cases hr
    | ok r' =>
      cases hr
      rw [h.returned r' rfl]
  · intro hreads
    obtain ⟨hok, hall⟩ := h.complete fun s hs => hreads s (List.mem_cons_of_mem _ hs)
    refine ⟨?_, fun s hs y hy => ?_⟩
    · have hok : out = .ok closed := hok
      rw [hok]
      rfl
    · by_cases hs' : s = symbol
      · rw [hs', hx] at hy
        cases hy
        exact List.mem_cons_self
      · obtain rfl | hs := List.mem_cons.1 hs
        · exact absurd rfl hs'
        · exact List.mem_cons_of_mem _ (hall s hs y (by rw [hcongr hs', hy]))

theorem refreshFrom_spec (p : FeedPass) : ∀ (symbols : List String) (f : Feed),
    ∃ closed, Refreshed w p symbols f (exec (w.refreshFrom p symbols) f) closed
  | [], f => ⟨[], refreshed_nothing (fun r hr => by cases hr; rfl) fun _ => ⟨rfl, fun s hs => by cases hs⟩⟩
  | symbol :: rest, f => by
    rw [refreshFrom]
    cases hread : p.reads symbol with
    | some exc =>
      refine ⟨[], refreshed_nothing (fun r hr => by cases hr) fun hreads => ?_⟩
      rw [hreads symbol List.mem_cons_self] at hread
      cases hread
    | none =>
      dsimp only
      rw [exec_bind, exec_get]
      dsimp only
      cases hx : w.newBar f symbol with
      | none =>
        obtain ⟨closed, h⟩ := refreshFrom_spec p rest f
        exact ⟨closed, refreshed_skip h hx⟩
      | some x =>
        dsimp only
        rw [exec_bind, exec_modify]
        dsimp only
        rw [exec_bind]
        obtain ⟨closed, h⟩ := refreshFrom_spec p rest { f with bars := f.bars.set symbol (f.held symbol ++ [x]) }
        generalize exec (w.refreshFrom p rest) { f with bars := f.bars.set symbol (f.held symbol ++ [x]) } = out at h ⊢
        obtain ⟨_ | r, f'⟩ := out <;> exact ⟨x :: closed, refreshed_take hx h⟩

/-- **Which bars the strategy is asked about**: all, or up to the first on which it raises. -/
theorem pollStrategy_spec (p : FeedPass) : ∀ (closed : List Bar) (f : Feed), ∃ asked unasked,
    closed = asked ++ unasked ∧ (exec (w.pollStrategy p closed) f).2.shown = f.shown ++ asked ∧
      (exec (w.pollStrategy p closed) f).2.store = f.store ∧ (exec (w.pollStrategy p closed) f).2.bars = f.bars ∧
      (unasked = [] ∨ ∃ pre x e, asked = pre ++ [x] ∧ p.onBar x = .error e)
  | [], f => ⟨[], [], rfl, (List.append_nil _).symm, rfl, rfl, .inl rfl⟩
  | bar :: rest, f => by
    rw [pollStrategy, exec_bind, exec_modify]
    dsimp only
    rw [exec_bind, exec_fromExcept]
    cases hbar : p.onBar bar with
    | error e => exact ⟨[bar], rest, rfl, rfl, rfl, rfl, .inr ⟨[], bar, e, rfl, hbar⟩⟩
    | ok produced =>
      dsimp only
      rw [exec_bind, exec_get]
      dsimp only
      rw [exec_bind, exec_modify]
      dsimp only
      rw [exec_bind]
      generalize hg : ({ f with shown := f.shown ++ [bar], discardedCold := _ } : Feed) = g
      obtain ⟨asked, unasked, hsplit, hshown, hstore, hbars, hall⟩ := pollStrategy_spec p rest g
      have hshown' : g.shown = f.shown ++ [bar] := by rw [← hg]
      have hstore' : g.store = f.store := by rw [← hg]
      have hbars' : g.bars = f.bars := by rw [← hg]
      refine ⟨bar :: asked, unasked, by rw [hsplit, List.cons_append], ?_⟩
      rw [hshown', List.append_assoc, List.singleton_append] at hshown
      rw [hstore'] at hstore
      rw [hbars'] at hbars
      have hall : unasked = [] ∨ ∃ pre x e, bar :: asked = pre ++ [x] ∧ p.onBar x = .error e := by
        obtain hnil | ⟨pre, x, e, hpre, hx⟩ := hall
        · exact .inl hnil
        · exact .inr ⟨bar :: pre, x, e, by rw [hpre, List.cons_append], hx⟩
      generalize exec (w.pollStrategy p rest) g = out at hshown hstore hbars ⊢
      obtain ⟨_ | r, f'⟩ := out <;> exact ⟨hshown, hstore, hbars, hall⟩

end

end BarReader

end Atp
