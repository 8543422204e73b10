import Mathlib.Data.List.Sort
import AlgoTrading.Acts
/-!
# Lookahead — a run up to an instant depends on the bars up to it

`_validate` and `_to_adjusted` of `backtest/engine.py`, and what they give the loop: series in time order, whose candles
were adjusted one by one.  Two bar sets that agree up to `T` then give one run up to `T` (`no_lookahead`), and what a run
does later only adds to what it had reported by then.
-/
namespace Atp
namespace Backtest

open Raising Runs

/-! ## What a run accepts -/

/-- `DataGapError`, `UnadjustedDataError`, or what building a candle raises. -/
inductive Refusal
  | dataGap (why : List Piece)
  | unadjusted (symbols : List String)
  | valueError (why : List Piece)
  | divisionByZero

def adjusted (b : Bar) : Except Refusal Bar :=
  match b.adjClose with
  | none => .error (.valueError [.lit b.symbol, .lit " @ ", .ts b.ts, .lit " has no adj_close, so it cannot be adjusted; ",
      .lit "backfill the range without --raw-only"])
  | some adj =>
    if b.close ≤ 0 then
      .error (.valueError [.lit "cannot adjust ", .lit b.symbol, .lit " @ ", .ts b.ts, .lit ": the close is ", .dec b.close,
        .lit ", so the adjustment factor is undefined"])
    else if adj = b.close then .ok b
    else
      let factor := adj / b.close
      if factor = 0 then .error .divisionByZero
      else if h : (b.low * factor ≤ b.open * factor ∧ b.open * factor ≤ b.high * factor) ∧
          (b.low * factor ≤ b.close * factor ∧ b.close * factor ≤ b.high * factor) then
        .ok { b with
          «open» := b.open * factor, high := b.high * factor, low := b.low * factor, close := b.close * factor
          volume := b.volume / factor, adjClose := some (b.close * factor), openInside := h.1, closeInside := h.2 }
      else .error (.valueError [.lit "inconsistent OHLC for ", .lit b.symbol, .lit " @ ", .ts b.ts, .lit ": O=",
        .dec (b.open * factor), .lit " H=", .dec (b.high * factor), .lit " L=", .dec (b.low * factor), .lit " C=",
        .dec (b.close * factor)])

def Timeframe.label : Timeframe → String
  | .m1 => "1m"
  | .m5 => "5m"
  | .m15 => "15m"
  | .m30 => "30m"
  | .h1 => "1h"
  | .h4 => "4h"
  | .d1 => "1d"

/-- The holes of `_refuse_holes`: bars either side of a stretch, none inside. -/
def holes (gapLimit : ℤ) (timestamps : List ℤ) : List (ℤ × ℤ) :=
  (timestamps.zip timestamps.tail).filter (fun p => gapLimit < p.2 - p.1)

/-- `_refuse_holes`. -/
def refuseHoles (timeframe : Timeframe) (maxGapDays : ℤ) (symbol : String) (timestamps : List ℤ) : Except Refusal Unit :=
  match holes (86400 * maxGapDays) timestamps with
  | [] => .ok ()
  | (first, second) :: rest =>
    let found := (first, second) :: rest
    let shown := (found.take 3).flatMap (fun p =>
      [.ts p.1, .lit " → ", .ts p.2, .lit " (", .dec ((p.2 - p.1) / 86400 : ℤ), .lit "d)", .lit "; "])
    .error (.dataGap ([.lit symbol, .lit " has ", .dec found.length, .lit " hole(s) in its stored history, each longer than the ",
        .dec maxGapDays, .lit "-day `max_gap_days`: "] ++ shown.dropLast ++
      (if found.length ≤ 3 then [] else [.lit ", and ", .dec (found.length - 3 : ℕ), .lit " more"]) ++
      [.lit ". Backfill before running: scripts/backfill_bars.py --symbols ", .lit symbol, .lit " --start ", .ts first,
        .lit " --end ", .ts second, .lit " --timeframe ", .lit (Timeframe.label timeframe)]))

/-- What `_validate` asks of one series. -/
def validateSeries (timeframe : Timeframe) (maxGapDays : ℤ) (symbol : String) (l : List Bar) : Except Refusal Unit :=
  let timestamps := l.map Bar.ts
  if timestamps ≠ timestamps.insertionSort (· ≤ ·) then
    .error (.dataGap [.lit symbol, .lit " bars are not in chronological order"])
  else if ¬timestamps.Nodup then .error (.dataGap [.lit symbol, .lit " has duplicate bar timestamps"])
  else
    let wrong := l.filter (fun b => b.timeframe ≠ timeframe)
    if wrong ≠ [] then
      .error (.dataGap [.lit symbol, .lit " has ", .dec wrong.length, .lit " bar(s) that are not ",
        .lit (Timeframe.label timeframe)])
    else refuseHoles timeframe maxGapDays symbol timestamps

/-- `_validate`, less the coverage warnings it returns. -/
def validateBars (config : BacktestConfig) (maxGapDays : ℤ) (bars : Dict String (List Bar)) : Except Refusal Unit :=
  let missing := config.symbols.filter (fun symbol => ((bars.get? symbol).getD []).isEmpty)
  if missing ≠ [] then .error (.dataGap (.lit "no bars supplied for " :: (missing.map Piece.lit).intersperse (.lit ", ")))
  else bars.entries.forM (fun p => validateSeries config.timeframe maxGapDays p.1 p.2)

/-- `_to_adjusted`: every candle moved into adjusted space, one by one. -/
def toAdjusted (bars : Dict String (List Bar)) : Except Refusal (Dict String (List Bar)) :=
  let unadjusted := ((bars.entries.filter (fun p => p.2.any (fun b => b.adjClose.isNone))).map Prod.fst).insertionSort (· ≤ ·)
  if unadjusted ≠ [] then .error (.unadjusted unadjusted)
  else bars.entries.foldlM (fun d p => do return d.set p.1 (← p.2.mapM adjusted)) .empty

/-- What `run` walks: the bars it was given, accepted and adjusted. -/
def prepared (config : BacktestConfig) (maxGapDays : ℤ) (bars : Dict String (List Bar)) :
    Except Refusal (Dict String (List Bar)) := do
  validateBars config maxGapDays bars
  toAdjusted bars

def series (bars : Dict String (List Bar)) (symbol : String) : List Bar := (bars.get? symbol).getD []

/-- The bars of a series up to `T`. -/
def upTo (T : ℤ) (l : List Bar) : List Bar := l.filter (fun b => b.ts ≤ T)

/-- **Two bar sets agree on every bar up to `T`.** -/
def AgreeUpTo (T : ℤ) (bars bars' : Dict String (List Bar)) : Prop :=
  ∀ symbol, upTo T (series bars symbol) = upTo T (series bars' symbol)

/-- Every series is in time order, each instant once. -/
def Ascending (bars : Dict String (List Bar)) : Prop := ∀ symbol, ((series bars symbol).map Bar.ts).Pairwise (· < ·)

theorem adjusted_ts {b b' : Bar} (h : adjusted b = .ok b') : b'.ts = b.ts := by
  unfold adjusted at h
  split at h
  · cases h
  · dsimp only at h
    split at h
    · cases h
    · split at h
      · cases h
        rfl
      · split at h
        · cases h
        · split at h
          · cases h
            rfl
          · cases h

/-- Candles are adjusted one by one, so the adjusted bars up to `T` are the bars up to `T` adjusted. -/
theorem mapM_adjusted (T : ℤ) : ∀ {l l' : List Bar}, l.mapM adjusted = .ok l' →
    (upTo T l).mapM adjusted = .ok (upTo T l') ∧ l'.map Bar.ts = l.map Bar.ts
  | [], l', h => by
    cases h
    exact ⟨rfl, rfl⟩
  | b :: l, l', h => by
    rw [List.mapM_cons] at h
    cases hb : adjusted b with
    | error e => simp [hb, bind, Except.bind] at h
    | ok c =>
      cases hl : l.mapM adjusted with
      | error e => simp [hb, hl, bind, Except.bind] at h
      | ok m =>
        simp only [hb, hl, bind, Except.bind, pure, Except.pure, Except.ok.injEq] at h
        subst h
        obtain ⟨hup, hts⟩ := mapM_adjusted T hl
        have hc := adjusted_ts hb
        refine ⟨?_, by simp [hc, hts]⟩
        unfold upTo at hup ⊢
        by_cases hle : b.ts ≤ T
        · simp [hle, hc, hb, hup, bind, Except.bind, pure, Except.pure]
        · simp [hle, hc, hup]

theorem foldlM_adjusted (symbol : String) : ∀ (l : List (String × List Bar)) (d adj : Dict String (List Bar)),
    (l.map Prod.fst).Nodup → l.foldlM (fun d p => do return d.set p.1 (← p.2.mapM adjusted)) d = .ok adj →
    (Dict.lookup symbol l = none → adj.get? symbol = d.get? symbol) ∧
      ∀ m, Dict.lookup symbol l = some m → ∃ m', m.mapM adjusted = .ok m' ∧ adj.get? symbol = some m'
  | [], d, adj, _, h => by
    cases h
    exact ⟨fun _ => rfl, fun m hm => by cases hm⟩
  | p :: l, d, adj, hnd, h => by
    rw [List.foldlM_cons] at h
    cases hp : p.2.mapM adjusted with
    | error e => simp [hp, bind, Except.bind] at h
    | ok m' =>
      simp only [hp, bind, Except.bind, pure, Except.pure] at h
      obtain ⟨hnot, hnd⟩ := List.nodup_cons.1 hnd
      obtain ⟨hnone, hsome⟩ := foldlM_adjusted symbol l (d.set p.1 m') adj hnd h
      by_cases hs : p.1 = symbol
      · have habsent : Dict.lookup symbol l = none := by
          rw [Option.eq_none_iff_forall_ne_some]
          intro m hm
          exact hnot (hs ▸ List.mem_map.2 ⟨_, Dict.lookup_mem hm, rfl⟩)
        refine ⟨fun hn => by simp [Dict.lookup, hs] at hn, fun m hm => ?_⟩
        have hm : p.2 = m := by simpa [Dict.lookup, hs] using hm
        refine ⟨m', hm ▸ hp, ?_⟩
        rw [hnone habsent, hs, Dict.get?_set_self]
      · have hskip : Dict.lookup symbol (p :: l) = Dict.lookup symbol l := by simp [Dict.lookup, hs]
        rw [hskip]
        refine ⟨fun hn => ?_, hsome⟩
        rw [hnone hn, Dict.get?_set_ne _ _ (Ne.symm hs)]

theorem toAdjusted_series {bars adj : Dict String (List Bar)} (h : toAdjusted bars = .ok adj) (symbol : String) :
    (series bars symbol).mapM adjusted = .ok (series adj symbol) := by
  unfold toAdjusted at h
  dsimp only at h
  split at h
  · cases h
  · obtain ⟨hnone, hsome⟩ := foldlM_adjusted symbol bars.entries .empty adj bars.nodup h
    unfold series Dict.get? at *
    cases hl : Dict.lookup symbol bars.entries with
    | none =>
      rw [hnone hl]
      rfl
    | some m =>
      obtain ⟨m', hm, hget⟩ := hsome m hl
      rw [hget]
      exact hm

theorem validateSeries_ascending {timeframe : Timeframe} {maxGapDays : ℤ} {symbol : String} {l : List Bar}
    (h : validateSeries timeframe maxGapDays symbol l = .ok ()) : (l.map Bar.ts).Pairwise (· < ·) := by
  unfold validateSeries at h
  dsimp only at h
  split at h
  · cases h
  · rename_i hsorted
    split at h
    · cases h
    · rename_i hnodup
      rw [not_not] at hsorted hnodup
      have hle : (l.map Bar.ts).Pairwise (· ≤ ·) := hsorted ▸ List.pairwise_insertionSort (· ≤ ·) (l.map Bar.ts)
      exact (hle.and hnodup).imp (fun hp => lt_of_le_of_ne hp.1 hp.2)

theorem forM_ok {α : Type} {f : α → Except Refusal Unit} : ∀ {l : List α}, l.forM f = .ok () → ∀ a ∈ l, f a = .ok ()
  | [], _, a, ha => by cases ha
  | b :: l, h, a, ha => by
    change (f b >>= fun _ => l.forM f) = .ok () at h
    cases hb : f b with
    | error e => simp [hb, bind, Except.bind] at h
    | ok u =>
      simp only [hb, bind, Except.bind] at h
      rcases List.mem_cons.1 ha with rfl | ha
      · exact hb
      · exact forM_ok h a ha

/-- **What the loop walks is in time order, and agrees where the bars it was given did.** -/
theorem prepared_ascending {config : BacktestConfig} {maxGapDays : ℤ} {bars adj : Dict String (List Bar)}
    (h : prepared config maxGapDays bars = .ok adj) : Ascending adj ∧
      ∀ T symbol, (upTo T (series bars symbol)).mapM adjusted = .ok (upTo T (series adj symbol)) := by
  unfold prepared at h
  cases hv : validateBars config maxGapDays bars with
  | error e => simp [hv, bind, Except.bind] at h
  | ok u =>
    simp only [hv, bind, Except.bind] at h
    refine ⟨fun symbol => ?_, fun T symbol => (mapM_adjusted T (toAdjusted_series h symbol)).1⟩
    rw [(mapM_adjusted 0 (toAdjusted_series h symbol)).2]
    unfold validateBars at hv
    dsimp only at hv
    split at hv
    · cases hv
    · unfold series Dict.get?
      cases hl : Dict.lookup symbol bars.entries with
      | none => exact .nil
      | some l => exact validateSeries_ascending (forM_ok hv _ (Dict.lookup_mem hl))

theorem prepared_agree {config : BacktestConfig} {maxGapDays T : ℤ} {bars bars' adj adj' : Dict String (List Bar)}
    (h : prepared config maxGapDays bars = .ok adj) (h' : prepared config maxGapDays bars' = .ok adj')
    (hT : AgreeUpTo T bars bars') : AgreeUpTo T adj adj' := by
  intro symbol
  have hup := (prepared_ascending h).2 T symbol
  rw [hT symbol, (prepared_ascending h').2 T symbol] at hup
  exact (Except.ok.inj hup).symm

/-! ## The same instants, the same bars -/

theorem split_upTo (T : ℤ) : ∀ {l : List Bar}, (l.map Bar.ts).Pairwise (· < ·) →
    ∃ later, l = upTo T l ++ later ∧ ∀ b ∈ later, T < b.ts
  | [], _ => ⟨[], rfl, by simp⟩
  | b :: l, h => by
    obtain ⟨hb, hl⟩ := List.pairwise_cons.1 h
    by_cases hle : b.ts ≤ T
    · obtain ⟨later, heq, hlater⟩ := split_upTo T hl
      refine ⟨later, ?_, hlater⟩
      unfold upTo at heq ⊢
      rw [List.filter_cons_of_pos (by simpa using hle), List.cons_append, ← heq]
    · have hlater : ∀ c ∈ b :: l, T < c.ts := by
        intro c hc
        rcases List.mem_cons.1 hc with rfl | hc
        · exact lt_of_not_ge hle
        · exact (lt_of_not_ge hle).trans (hb _ (List.mem_map_of_mem hc))
      refine ⟨b :: l, ?_, hlater⟩
      have hnone : upTo T (b :: l) = [] := List.filter_eq_nil_iff.2 (fun c hc => by simpa using hlater c hc)
      rw [hnone, List.nil_append]

/-- Where a series prints at an instant. -/
def printedIn (l : List Bar) (ts : ℤ) : Option (ℕ × Bar) :=
  (l.findIdx? (fun b => b.ts = ts)).bind (fun i => l[i]?.map (fun b => (i, b)))

theorem printedAt_eq (bars : Dict String (List Bar)) (ts : ℤ) (symbol : String) :
    printedAt bars ts symbol = (printedIn (series bars symbol) ts).map (fun x => (symbol, x.1, x.2)) := by
  unfold printedAt printedIn series
  dsimp only
  cases ((bars.get? symbol).getD []).findIdx? (fun b => decide (b.ts = ts)) with
  | none => rfl
  | some i => simp [Function.comp_def]

/-- An instant up to `T` is looked up among the bars up to `T`. -/
theorem printedIn_upTo {T ts : ℤ} {l : List Bar} (h : (l.map Bar.ts).Pairwise (· < ·)) (hts : ts ≤ T) :
    printedIn l ts = printedIn (upTo T l) ts ∧
      ∀ x, printedIn l ts = some x → l.take (x.1 + 1) = (upTo T l).take (x.1 + 1) := by
  obtain ⟨later, heq, hlater⟩ := split_upTo T h
  have hnone : later.findIdx? (fun b => decide (b.ts = ts)) = none := by
    rw [List.findIdx?_eq_none_iff]
    intro b hb
    have := hlater b hb
    simp only [decide_eq_false_iff_not]
    omega
  have hidx : l.findIdx? (fun b => decide (b.ts = ts)) = (upTo T l).findIdx? (fun b => decide (b.ts = ts)) := by
    conv => lhs; rw [heq]
    rw [List.findIdx?_append, hnone]
    simp
  have hlt (i : ℕ) (hi : (upTo T l).findIdx? (fun b => decide (b.ts = ts)) = some i) : i < (upTo T l).length := by
    obtain ⟨hlt, -⟩ := List.findIdx?_eq_some_iff_getElem.1 hi
    exact hlt
  unfold printedIn
  rw [hidx]
  cases hi : (upTo T l).findIdx? (fun b => decide (b.ts = ts)) with
  | none => exact ⟨rfl, by simp⟩
  | some i =>
    have hget : l[i]? = (upTo T l)[i]? := by
      conv => lhs; rw [heq]
      exact List.getElem?_append_left (hlt i hi)
    refine ⟨by simp [hget], fun x hx => ?_⟩
    obtain ⟨b, -, hb⟩ := Option.map_eq_some_iff.1 hx
    rw [← hb]
    conv => lhs; rw [heq]
    exact List.take_append_of_le_length (hlt i hi)

theorem timeline_ascending (bars : Dict String (List Bar)) : (timeline bars).Pairwise (· < ·) := by
  unfold timeline
  have hle := (List.pairwise_insertionSort (· ≤ ·) (bars.values.flatMap fun l => l.map Bar.ts)).sublist (List.dedup_sublist _)
  exact (hle.and (List.nodup_dedup _)).imp (fun hp => lt_of_le_of_ne hp.1 hp.2)

theorem mem_timeline {bars : Dict String (List Bar)} {ts : ℤ} :
    ts ∈ timeline bars ↔ ∃ symbol, ∃ b ∈ series bars symbol, b.ts = ts := by
  unfold timeline series
  rw [List.mem_dedup, List.mem_insertionSort, List.mem_flatMap]
  constructor
  · rintro ⟨l, hl, hts⟩
    obtain ⟨symbol, hs⟩ := (Dict.mem_values_iff bars l).1 hl
    obtain ⟨b, hb, hts⟩ := List.mem_map.1 hts
    exact ⟨symbol, b, by rw [hs]; exact hb, hts⟩
  · rintro ⟨symbol, b, hb, hts⟩
    cases hs : bars.get? symbol with
    | none => simp [hs] at hb
    | some l =>
      rw [hs, Option.getD_some] at hb
      exact ⟨l, (Dict.mem_values_iff bars l).2 ⟨symbol, hs⟩, List.mem_map.2 ⟨b, hb, hts⟩⟩

/-- The instants of the timeline up to `T`. -/
def timelineUpTo (T : ℤ) (bars : Dict String (List Bar)) : List ℤ := (timeline bars).filter (fun ts => ts ≤ T)

theorem timelineUpTo_agree {T : ℤ} {bars bars' : Dict String (List Bar)} (hT : AgreeUpTo T bars bars') :
    timelineUpTo T bars = timelineUpTo T bars' := by
  have hsub (a b : Dict String (List Bar)) (h : AgreeUpTo T a b) (ts : ℤ) (hts : ts ∈ timelineUpTo T a) :
      ts ∈ timelineUpTo T b := by
    obtain ⟨hmem, hle⟩ := List.mem_filter.1 hts
    obtain ⟨symbol, c, hc, rfl⟩ := mem_timeline.1 hmem
    have hup : c ∈ upTo T (series b symbol) := h symbol ▸ List.mem_filter.2 ⟨hc, hle⟩
    exact List.mem_filter.2 ⟨mem_timeline.2 ⟨symbol, c, (List.mem_filter.1 hup).1, rfl⟩, hle⟩
  refine ((timeline_ascending bars).filter _).eq_of_mem_iff ((timeline_ascending bars').filter _) fun ts => ?_
  exact ⟨hsub bars bars' hT ts, hsub bars' bars (fun symbol => (hT symbol).symm) ts⟩

/-! ## Two runs side by side -/

section
variable {L σ τ α : Type} {eng : BacktestEngine L σ τ} {bars bars' : Dict String (List Bar)}

/-- Both bar sets show the same through the cursor. -/
def Synced (bars bars' : Dict String (List Bar)) (r : Replay σ τ) : Prop := visible bars r.state = visible bars' r.state

theorem visible_cursor {s t : EngineState σ τ} (h : t.cursor = s.cursor) : visible bars t = visible bars s := by
  funext symbol
  unfold visible
  rw [h]

theorem alike_observe {I : Replay σ τ → Prop} {f g : EngineState σ τ → Prog (Replay σ τ) Exc α}
    (h : ∀ r, I r → Alike I (f r.state) (g r.state)) : Alike I (observe >>= f) (observe >>= g) := by
  intro r hr
  rw [exec_bind, exec_bind]
  exact h r hr r hr

theorem synced_update {f : EngineState σ τ → EngineState σ τ} (h : ∀ s, (f s).cursor = s.cursor) :
    Alike (Synced bars bars') (update f) (update f) := by
  refine alike_of_keeps (triple_update _ fun r hr => ?_)
  show visible bars (f r.state) = visible bars' (f r.state)
  rw [visible_cursor (h _), visible_cursor (h _)]
  exact hr

theorem synced_pure (a : α) : Alike (Synced bars bars') (pure a : Prog (Replay σ τ) Exc α) (pure a) :=
  alike_of_keeps (keeps_pure a)

theorem synced_throw (e : Exc) : Alike (Synced bars bars') (throw e : Prog (Replay σ τ) Exc α) (throw e) :=
  alike_of_keeps (keeps_throw e)

theorem synced_note (e : Event σ τ) : Alike (Synced bars bars') (note e) (note e) :=
  alike_of_keeps (triple_note _ fun _ h => h)

variable {s : EngineState σ τ}

theorem atrOf_synced (h : visible bars s = visible bars' s) (symbol : String) :
    atrOf eng bars s symbol = atrOf eng bars' s symbol := by
  unfold atrOf
  rw [h]

theorem bookFill_synced (h : visible bars s = visible bars' s) (o : Order) (f : Fill) :
    bookFill eng bars o f s = bookFill eng bars' o f s := by
  have hatr (t : EngineState σ τ) (ht : t.cursor = s.cursor) : atrOf eng bars t o.symbol = atrOf eng bars' t o.symbol := by
    refine atrOf_synced ?_ o.symbol
    rw [visible_cursor ht, visible_cursor ht, h]
  unfold bookFill
  dsimp only
  rw [hatr _ (by rfl)]

theorem execute_synced (o : Order) (bar : Bar) (intended : ℚ) :
    Alike (Synced bars bars') (execute eng bars o bar intended) (execute eng bars' o bar intended) := by
  unfold execute
  refine alike_ite (synced_throw _) ?_
  refine alike_bind (synced_update fun s => ?_) fun _ => ?_
  · unfold warnCapped
    split <;> rfl
  refine alike_ite (synced_pure _) (alike_fromExcept_bind fun o' _ => alike_observe fun r hr => ?_)
  rw [bookFill_synced hr]
  refine alike_fromExcept_bind fun t ht => alike_bind (alike_of_keeps (triple_update _ fun q _ => ?_)) fun _ =>
    alike_bind (synced_note _) fun _ => synced_pure _
  have hcursor : (t.record o').cursor = r.state.cursor := (bookFill_frame ht).2.2.1
  show visible bars (t.record o') = visible bars' (t.record o')
  rw [visible_cursor hcursor, visible_cursor hcursor]
  exact hr

theorem maintainTrailing_synced (bar : Bar) :
    Alike (Synced bars bars') (maintainTrailing eng bars bar) (maintainTrailing eng bars' bar) := by
  unfold maintainTrailing
  refine alike_observe fun r hr => ?_
  have hratchet : ratchet eng bars r.state bar = ratchet eng bars' r.state bar := by
    unfold ratchet
    rw [atrOf_synced hr]
  rw [hratchet]
  refine alike_bind (synced_update fun _ => rfl) fun _ => ?_
  cases (ratchet eng bars' r.state bar).1 with
  | ok x => exact synced_pure _
  | error e => exact alike_ite (synced_pure _) (synced_throw _)

theorem checkStops_synced (bar : Bar) : Alike (Synced bars bars') (checkStops eng bars bar) (checkStops eng bars' bar) := by
  unfold checkStops
  refine alike_observe fun r _ => alike_bind (synced_note _) fun _ => alike_ite (synced_pure _) ?_
  refine alike_bind (maintainTrailing_synced bar) fun _ => alike_observe fun q _ => alike_fromExcept_bind fun due _ => ?_
  cases due with
  | none => exact synced_pure _
  | some due =>
    refine alike_fromExcept_bind fun o _ => alike_bind (synced_update fun _ => rfl) fun _ => ?_
    exact alike_bind (execute_synced o bar due.2) fun _ => synced_update fun _ => rfl

theorem fillResting_synced (bar : Bar) : ∀ l : List Order,
    Alike (Synced bars bars') (fillResting eng bars bar l) (fillResting eng bars' bar l)
  | [] => synced_pure _
  | o :: rest => by
    have hrest := fillResting_synced bar rest
    unfold fillResting
    refine alike_ite (alike_bind hrest fun _ => synced_pure _) (alike_fromExcept_bind fun price _ => ?_)
    cases price with
    | none =>
      exact alike_ite (alike_bind (synced_update fun _ => rfl) fun _ => hrest) (alike_bind hrest fun _ => synced_pure _)
    | some price =>
      refine alike_bind (execute_synced o bar price) fun o' => alike_ite ?_ hrest
      exact alike_ite (alike_bind (synced_update fun _ => rfl) fun _ => hrest) (alike_bind hrest fun _ => synced_pure _)

theorem queueOrder_synced (signal : Signal) (bar : Bar) (side : Side) (qty : ℚ) (purpose : Purpose) :
    Alike (Synced bars bars') (queueOrder eng signal bar side qty purpose) (queueOrder eng signal bar side qty purpose) := by
  unfold queueOrder
  refine alike_ite (synced_pure _) (alike_observe fun r _ => alike_fromExcept_bind fun o _ => ?_)
  refine alike_bind (synced_update fun _ => rfl) fun _ => alike_ite (synced_update fun _ => rfl) (synced_update fun _ => rfl)

theorem enter_synced (s : EngineState σ τ) (signal : Signal) (bar : Bar) (side : Side) :
    Alike (Synced bars bars') (enter eng s signal bar side) (enter eng s signal bar side) := by
  unfold enter
  cases eng.positionSizer with
  | none => exact synced_throw _
  | some sizer =>
    dsimp only
    cases sizer signal s.portfolio bar.close with
    | ok qty => exact queueOrder_synced signal bar side qty .entry
    | error e =>
      exact alike_ite (alike_bind (synced_update fun _ => rfl) fun _ => synced_update fun _ => rfl) (synced_throw _)

theorem handleSignal_synced (signal : Signal) (bar : Bar) :
    Alike (Synced bars bars') (handleSignal eng bars signal bar) (handleSignal eng bars' signal bar) := by
  unfold handleSignal
  refine alike_observe fun r hr => ?_
  have hstop : withDerivedStop eng bars r.state signal bar = withDerivedStop eng bars' r.state signal bar := by
    unfold withDerivedStop
    rw [atrOf_synced hr]
  cases signal.action with
  | hold => exact synced_pure _
  | scaleIn => exact synced_throw _
  | scaleOut => exact alike_ite (synced_pure _) (synced_throw _)
  | exit => exact alike_ite (synced_pure _) (queueOrder_synced _ _ _ _ _)
  | enterLong =>
    rw [hstop]
    exact enter_synced _ _ _ _
  | enterShort =>
    rw [hstop]
    exact enter_synced _ _ _ _

theorem signalPhase_synced (x : String × ℕ × Bar) :
    Alike (Synced bars bars') (signalPhase eng bars x) (signalPhase eng bars' x) := by
  unfold signalPhase
  refine alike_observe fun r hr => ?_
  have hcontext : contextOf eng bars r.state = contextOf eng bars' r.state := by
    unfold contextOf
    rw [hr]
  rw [hcontext]
  refine alike_bind (synced_update fun _ => rfl) fun _ => alike_fromExcept_bind fun signals _ => alike_ite (synced_pure _) ?_
  exact alike_bind (synced_update fun _ => rfl) fun _ => alike_forM _ fun signal _ => handleSignal_synced signal x.2.2

/-- A bar that both show the same leaves them showing the same. -/
theorem barPhase_synced {x : String × ℕ × Bar}
    (hx : (series bars x.1).take (x.2.1 + 1) = (series bars' x.1).take (x.2.1 + 1)) :
    Alike (Synced bars bars') (barPhase eng bars x) (barPhase eng bars' x) := by
  unfold barPhase
  refine alike_bind ?_ fun _ => alike_bind (checkStops_synced x.2.2) fun _ => ?_
  · unfold openBar
    refine alike_observe fun r _ => alike_ite (synced_throw _) (alike_of_keeps (triple_update _ fun q hq => ?_))
    funext symbol
    have hsame := congrFun hq symbol
    unfold visible at hsame ⊢
    dsimp only
    rw [Dict.get?_set]
    by_cases hs : symbol = x.1
    · rw [if_pos hs, hs]
      exact hx
    · rw [if_neg hs]
      exact hsame
  · unfold fillPendingFor
    exact alike_observe fun r _ => alike_bind (fillResting_synced x.2.2 _) fun _ => synced_update fun _ => rfl

/-- **An instant up to `T` is the same instant on both bar sets.** -/
theorem stepAt_synced {T ts : ℤ} (hts : ts ≤ T) (h : Ascending bars) (h' : Ascending bars') (hT : AgreeUpTo T bars bars') :
    Alike (Synced bars bars') (stepAt eng bars ts) (stepAt eng bars' ts) := by
  have hin (symbol : String) : printedIn (series bars symbol) ts = printedIn (series bars' symbol) ts := by
    rw [(printedIn_upTo (h symbol) hts).1, (printedIn_upTo (h' symbol) hts).1, hT symbol]
  have hprinted : printedAt bars ts = printedAt bars' ts := by
    funext symbol
    rw [printedAt_eq, printedAt_eq, hin]
  unfold stepAt
  rw [← hprinted]
  refine alike_bind (synced_update fun s => ?_) fun _ => ?_
  · unfold openInstant
    dsimp only
    split <;> rfl
  refine alike_bind (alike_forM _ fun x hx => barPhase_synced ?_) fun _ => ?_
  · obtain ⟨symbol, -, hx⟩ := List.mem_filterMap.1 hx
    rw [printedAt_eq] at hx
    obtain ⟨y, hy, rfl⟩ := Option.map_eq_some_iff.1 hx
    have hleft := (printedIn_upTo (h symbol) hts).2 y hy
    have hright := (printedIn_upTo (h' symbol) hts).2 y (hin symbol ▸ hy)
    rw [hleft, hright, hT symbol]
  refine alike_bind (synced_update fun s => ?_) fun _ => alike_forM _ fun x _ => signalPhase_synced x
  suffices hfold : ∀ (l : List (String × ℕ × Bar)) (s : EngineState σ τ), (l.foldl markClose s).cursor = s.cursor from
    hfold _ s
  intro l
  induction l with
  | nil => exact fun _ => rfl
  | cons x l ih => exact fun s => ih (markClose s x)

variable (eng bars) in
/-- The run cut after `T`. -/
def runUntil (T : ℤ) : Prog (Replay σ τ) Exc PUnit := (timelineUpTo T bars).forM (stepAt eng bars)

variable (eng bars) in
/-- What the run does past `T`. -/
def runPast (T : ℤ) : Prog (Replay σ τ) Exc PUnit := ((timeline bars).filter (fun ts => T < ts)).forM (stepAt eng bars)

theorem forM_append_prog {γ : Type} (f : γ → Prog (Replay σ τ) Exc PUnit) : ∀ (l m : List γ) (r : Replay σ τ),
    exec ((l ++ m).forM f) r = exec (l.forM f >>= fun _ => m.forM f) r
  | [], m, r => rfl
  | a :: l, m, r => by
    show exec (f a >>= fun _ => (l ++ m).forM f) r = exec ((f a >>= fun _ => l.forM f) >>= fun _ => m.forM f) r
    rw [bind_assoc, exec_bind, exec_bind]
    rcases exec (f a) r with ⟨_ | u, t⟩
    · rfl
    · exact forM_append_prog f l m t

/-- The whole run is the cut run and what comes past it. -/
theorem run_split (T : ℤ) (r : Replay σ τ) :
    exec (run eng bars) r = exec (runUntil eng bars T >>= fun _ => runPast eng bars T) r := by
  have hsplit : ∀ {l : List ℤ}, l.Pairwise (· < ·) → l = l.filter (fun ts => ts ≤ T) ++ l.filter (fun ts => T < ts) := by
    intro l hl
    induction l with
    | nil => rfl
    | cons a l ih =>
      obtain ⟨ha, hl⟩ := List.pairwise_cons.1 hl
      by_cases hle : a ≤ T
      · rw [List.filter_cons_of_pos (by simpa using hle), List.filter_cons_of_neg (by simpa using hle), List.cons_append,
          ← ih hl]
      · have hnone : (a :: l).filter (fun ts => decide (ts ≤ T)) = [] := by
          refine List.filter_eq_nil_iff.2 fun ts hts => ?_
          simp only [decide_eq_true_eq]
          rcases List.mem_cons.1 hts with rfl | hts
          · exact hle
          · have := ha ts hts
            omega
        have hall : (a :: l).filter (fun ts => decide (T < ts)) = a :: l := by
          refine List.filter_eq_self.2 fun ts hts => ?_
          simp only [decide_eq_true_eq]
          rcases List.mem_cons.1 hts with rfl | hts
          · omega
          · have := ha ts hts
            omega
        rw [hnone, hall, List.nil_append]
  unfold run runUntil runPast timelineUpTo
  conv => lhs; rw [hsplit (timeline_ascending bars)]
  exact forM_append_prog _ _ _ _

/-! ## What a run adds past an instant -/

/-- **Past `T` a run only adds to what it had reported**: signals, warnings, and points of the curve later than `T`. -/
structure Continues (T : ℤ) (s t : EngineState σ τ) : Prop where
  signals : s.signals <+: t.signals
  warnings : s.warnings <+: t.warnings
  equityCurve : t.equityCurve.filter (fun p => p.1 ≤ T) = s.equityCurve

/-- What `t` adds to `s` it adds at the instant `ts`. -/
structure Adds (ts : ℤ) (s t : EngineState σ τ) : Prop where
  signals : s.signals <+: t.signals
  warnings : s.warnings <+: t.warnings
  equityCurve : ∃ l, t.equityCurve = s.equityCurve ++ l ∧ ∀ p ∈ l, p.1 = ts

theorem Act.adds {s t : EngineState σ τ} {i : Deed} {ts : ℤ} (h : Act eng bars s i t) (hi : i.At ts) : Adds ts s t := by
  refine ⟨h.signals, h.warnings, ?_⟩
  have heffect := h.effect
  have hsame (hb : t.books.equityCurve = s.equityCurve) : ∃ l, t.equityCurve = s.equityCurve ++ l ∧ ∀ p ∈ l, p.1 = ts :=
    ⟨[], by rw [List.append_nil]; exact hb, by simp⟩
  cases i with
  | aside => exact hsame (congrArg Books.equityCurve heffect)
  | opened symbol i bar => exact hsame (congrArg Books.equityCurve heffect)
  | ratcheted bar => exact hsame (congrArg Books.equityCurve heffect)
  | queued o levels => exact hsame (congrArg Books.equityCurve heffect)
  | filled o f =>
    obtain ⟨u, hu, hb⟩ := heffect
    exact hsame ((congrArg Books.equityCurve hb).trans (bookFill_frame hu).2.2.2)
  | closed ts' =>
    obtain ⟨printed, hb⟩ := heffect
    refine ⟨[(ts', _)], (congrArg Books.equityCurve hb).trans (closeBook_curve ts' printed s), fun p hp => ?_⟩
    rw [List.mem_singleton.1 hp]
    exact hi

theorem Acted.adds {ts : ℤ} {s : EngineState σ τ} {r : Replay σ τ} (h : Acted eng bars ts s r) : Adds ts s r.state := by
  obtain ⟨l, hrun, hl⟩ := h
  have hall : ∀ {l : List Deed} {s t : EngineState σ τ}, Run (Act eng bars) s l t → (∀ i ∈ l, i.At ts) → Adds ts s t := by
    intro l s t hrun
    induction hrun with
    | nil s => exact fun _ => ⟨List.prefix_rfl, List.prefix_rfl, [], by simp, by simp⟩
    | cons ha _ ih =>
      intro hl
      have hfirst := ha.adds (hl _ (by simp))
      have hrest := ih (fun i hi => hl i (by simp [hi]))
      obtain ⟨l₁, h₁, hts₁⟩ := hfirst.equityCurve
      obtain ⟨l₂, h₂, hts₂⟩ := hrest.equityCurve
      refine ⟨hfirst.signals.trans hrest.signals, hfirst.warnings.trans hrest.warnings, l₁ ++ l₂, ?_, fun p hp => ?_⟩
      · rw [h₂, h₁, List.append_assoc]
      · exact (List.mem_append.1 hp).elim (hts₁ p) (hts₂ p)
  exact hall hrun hl

/-- Every point of the curve of a cut run is up to the cut. -/
theorem runUntil_curve (T : ℤ) : Keeps (fun r : Replay σ τ => ∀ p ∈ r.state.equityCurve, p.1 ≤ T) (runUntil eng bars T) := by
  refine triple_forM _ fun ts hts => triple_at fun r hr => ?_
  have hle : ts ≤ T := by simpa using (List.mem_filter.1 hts).2
  have hadds (q : Replay σ τ) (h : Acted eng bars ts r.state q) : ∀ p ∈ q.state.equityCurve, p.1 ≤ T := by
    obtain ⟨l, hl, hat⟩ := h.adds.equityCurve
    intro p hp
    rw [hl] at hp
    rcases List.mem_append.1 hp with hp | hp
    · exact hr p hp
    · rw [hat p hp]
      exact hle
  exact triple_conseq (stepAt_acted ts) (fun q hq => hq ▸ Acted.refl ts q) (fun _ q h => hadds q h) (fun _ q h => hadds q h)

theorem runPast_continues (T : ℤ) (s : EngineState σ τ) :
    Keeps (fun r : Replay σ τ => Continues T s r.state) (runPast eng bars T) := by
  refine triple_forM _ fun ts hts => triple_at fun r hr => ?_
  have hlt : T < ts := by simpa using (List.mem_filter.1 hts).2
  have hadds (q : Replay σ τ) (h : Acted eng bars ts r.state q) : Continues T s q.state := by
    obtain ⟨hs, hw, l, hl, hat⟩ := h.adds
    refine ⟨hr.signals.trans hs, hr.warnings.trans hw, ?_⟩
    have hnone : l.filter (fun p => decide (p.1 ≤ T)) = [] := by
      refine List.filter_eq_nil_iff.2 fun p hp => ?_
      rw [hat p hp]
      simpa using hlt
    rw [hl, List.filter_append, hnone, List.append_nil, hr.equityCurve]
  exact triple_conseq (stepAt_acted ts) (fun q hq => hq ▸ Acted.refl ts q) (fun _ q h => hadds q h) (fun _ q h => hadds q h)

/-- **No lookahead**: two accepted bar sets that agree on every bar up to `T` give, cut after `T`, one outcome and one state
of the run, and what either does past `T` only adds to it. -/
theorem no_lookahead {maxGapDays T : ℤ} {candles candles' : Dict String (List Bar)}
    (h : prepared eng.config maxGapDays candles = .ok bars) (h' : prepared eng.config maxGapDays candles' = .ok bars')
    (hT : AgreeUpTo T candles candles') (portfolio : Portfolio) (rules : σ) (strategy : τ) :
    exec (runUntil eng bars T) (fresh portfolio rules strategy) = exec (runUntil eng bars' T) (fresh portfolio rules strategy) ∧
      Continues T (exec (runUntil eng bars T) (fresh portfolio rules strategy)).2.state
        (exec (run eng bars') (fresh portfolio rules strategy)).2.state := by
  have hagree := prepared_agree h h' hT
  have hcut : exec (runUntil eng bars T) (fresh portfolio rules strategy) =
      exec (runUntil eng bars' T) (fresh portfolio rules strategy) := by
    unfold runUntil
    rw [← timelineUpTo_agree hagree]
    have hsynced : Alike (Synced bars bars') ((timelineUpTo T bars).forM (stepAt eng bars))
        ((timelineUpTo T bars).forM (stepAt eng bars')) := alike_forM _ fun ts hts =>
      stepAt_synced (by simpa using (List.mem_filter.1 hts).2) (prepared_ascending h).1 (prepared_ascending h').1 hagree
    exact (hsynced (fresh portfolio rules strategy) rfl).1
  refine ⟨hcut, ?_⟩
  rw [hcut, run_split T, exec_bind]
  have hkeeps : Keeps (fun r : Replay σ τ => ∀ p ∈ r.state.equityCurve, p.1 ≤ T) (runUntil eng bars' T) := runUntil_curve T
  have hcurve := triple_left hkeeps (s := fresh portfolio rules strategy) (fun p hp => by cases hp)
  rcases hr : exec (runUntil eng bars' T) (fresh portfolio rules strategy) with ⟨out, t⟩
  rw [hr] at hcurve
  have hself : Continues T t.state t.state :=
    ⟨List.prefix_rfl, List.prefix_rfl, List.filter_eq_self.2 (fun p hp => by simpa using hcurve p hp)⟩
  cases out with
  | error e => exact hself
  | ok u => exact triple_left (runPast_continues T t.state) hself

end

/-! ## A third day that falls -/

def dayCandle (day : ℤ) (low : ℚ) (h : low ≤ 100) : Bar := { dayBar day low h with adjClose := some 100 }

theorem rat_hundred_le : (100 : ℚ) ≤ 100 := by decide +kernel

def candlesTo (last : Bar) : Dict String (List Bar) :=
  Dict.empty.set "SPY" [dayCandle 1 100 rat_hundred_le, dayCandle 2 100 rat_hundred_le, last]

/-- Bought on the second day and held, whatever the third brings. -/
theorem no_lookahead_second_day : ∃ bars bars', prepared buyThenExit.config 5 (candlesTo (dayCandle 3 100 rat_hundred_le)) = .ok bars ∧
    prepared buyThenExit.config 5 (candlesTo (dayCandle 3 90 rat_ninety_le)) = .ok bars' ∧
      exec (runUntil buyThenExit bars 172800) freshBook = exec (runUntil buyThenExit bars' 172800) freshBook := by
  have hok (x : Except Refusal (Dict String (List Bar))) (h : x.isOk = true) : ∃ bars, x = .ok bars := by
    cases x with
    | error e => cases h
    | ok bars => exact ⟨bars, rfl⟩
  obtain ⟨bars, h⟩ := hok (prepared buyThenExit.config 5 (candlesTo (dayCandle 3 100 rat_hundred_le))) (by decide +kernel)
  obtain ⟨bars', h'⟩ := hok (prepared buyThenExit.config 5 (candlesTo (dayCandle 3 90 rat_ninety_le))) (by decide +kernel)
  refine ⟨bars, bars', h, h', (no_lookahead h h' (fun symbol => ?_) _ _ _).1⟩
  by_cases hs : symbol = "SPY"
  · rw [hs]
    decide +kernel
  · simp [series, candlesTo, Dict.get?_set, hs]

end Backtest
end Atp
