import AlgoTrading.Backfill
import AlgoTrading.FeePages
import AlgoTrading.Lookahead
import AlgoTrading.TokenPages
/-!
# BarPages — history as the venue pages it out

`AlpacaHistoricalProvider` of `data/providers/alpaca.py`: a page with its retries, the pages to the last, the two passes of
`get_bars`, and the bars made of the rows.  The venue answers each request as it likes, by its number.  The pacing of the
requests and the waits between attempts move no bar and are left out, as are rows that are no objects.
-/
namespace Atp
namespace BarPages

open Backfill
open Alpaca (AmountField RowError)
open TokenPages (Attempt)

/-! ## Rows -/

/-- What `_parse_ts` may make of a text. -/
inductive InstantField
  | «at» (ts : ℤ)
  | naive (raw : String)
  | unreadable (raw : String)

/-- A row of `bars`, each field `none` where it is absent, or null where it may be.  `n` is what `int` makes of the count, if it
does. -/
structure RawBar where
  t : Option InstantField := none
  o : Option AmountField := none
  h : Option AmountField := none
  l : Option AmountField := none
  c : Option AmountField := none
  v : Option AmountField := none
  vw : Option AmountField := none
  n : Option (Option ℤ) := none

/-- A bar with the two figures of the venue's that nothing trades on. -/
structure FullBar where
  bar : Bar
  vwap : Option ℚ
  tradeCount : Option ℤ
deriving DecidableEq

def keyError (name : String) : Exc := ⟨.exception, [.lit "'", .lit name, .lit "'"]⟩

/-- What `_as_decimal` raises. -/
def decimalExc : RowError → Exc
  | .invalidOperation => ⟨.invalidOperation, [.lit "[<class 'decimal.ConversionSyntax'>]"]⟩
  | _ => ⟨.exception, [.lit "cannot convert to Decimal exactly"]⟩

/-- `_as_decimal`. -/
def asDecimal (x : AmountField) : Except Exc ℚ := x.asDecimal.mapError decimalExc

/-- `_as_decimal(raw[name])`. -/
def amount (name : String) : Option AmountField → Except Exc ℚ
  | none => .error (keyError name)
  | some x => asDecimal x

/-- **`_parse_ts`.** -/
def parseTs : InstantField → Except Exc ℤ
  | .at ts => .ok ts
  | .naive raw => .error ⟨.dataError, [.lit "Alpaca returned a naive timestamp: '", .lit raw, .lit "'"]⟩
  | .unreadable raw => .error ⟨.valueError, [.lit "Invalid isoformat string: '", .lit raw, .lit "'"]⟩

/-- `_parse_ts(raw["t"])`. -/
def RawBar.ts (raw : RawBar) : Except Exc ℤ :=
  match raw.t with
  | none => .error (keyError "t")
  | some t => parseTs t

/-- `int(raw["n"])`. -/
def asInt : Option ℤ → Except Exc ℤ
  | some n => .ok n
  | none => .error ⟨.valueError, [.lit "invalid literal for int() with base 10"]⟩

/-- The conversion of a field that may be null. -/
def nullable {α β : Type} (read : α → Except Exc β) : Option α → Except Exc (Option β)
  | none => .ok none
  | some x => (read x).map some

/-- `Bar(...)`, with what `__post_init__` checks. -/
def makeBar (symbol : String) (ts : ℤ) (timeframe : Timeframe) («open» high low close volume : ℚ) (adjClose : Option ℚ) :
    Except Exc Bar :=
  if hopen : low ≤ «open» ∧ «open» ≤ high then
    if hclose : low ≤ close ∧ close ≤ high then
      .ok { symbol, ts, timeframe, «open», high, low, close, volume, adjClose, openInside := hopen, closeInside := hclose }
    else .error (inconsistent symbol ts «open» high low close)
  else .error (inconsistent symbol ts «open» high low close)
where
  inconsistent (symbol : String) (ts : ℤ) («open» high low close : ℚ) : Exc :=
    ⟨.valueError, [.lit "inconsistent OHLC for ", .lit symbol, .lit " @ ", .ts ts, .lit ": O=", .dec «open», .lit " H=",
      .dec high, .lit " L=", .dec low, .lit " C=", .dec close]⟩

/-- A turn of the loop of `_to_bars`: the row's instant and its bar. -/
def RawBar.read (symbol : String) (timeframe : Timeframe) (adjCloses : Dict (String × ℤ) ℚ) (raw : RawBar) :
    Except Exc (ℤ × FullBar) := do
  let ts ← raw.ts
  let «open» ← amount "o" raw.o
  let high ← amount "h" raw.h
  let low ← amount "l" raw.l
  let close ← amount "c" raw.c
  let volume ← amount "v" raw.v
  let vwap ← nullable asDecimal raw.vw
  let tradeCount ← nullable asInt raw.n
  let bar ← makeBar symbol ts timeframe «open» high low close volume (adjCloses.get? (symbol, ts))
  return (ts, { bar, vwap, tradeCount })

/-- **`_to_bars`**: the last row of an instant stands, and the bars are in order. -/
def toBars (symbol : String) (timeframe : Timeframe) (raws : List RawBar) (adjCloses : Dict (String × ℤ) ℚ) :
    Except Exc (List FullBar) := do
  let byTs ← raws.foldlM (fun d raw => (raw.read symbol timeframe adjCloses).map fun x => Dict.set d x.1 x.2) Dict.empty
  return (byTs.keys.insertionSort (· ≤ ·)).filterMap byTs.get?

/-! ## Pages -/

/-- What a page's text reads as. -/
structure Payload where
  bars : Option (Dict String (Option (List RawBar))) := none
  nextPageToken : Option String := none

/-- The parameters of `/v2/stocks/bars`. -/
structure BarsRequest where
  symbols : List String
  timeframe : String
  start : ℤ
  stop : ℤ
  limit : ℕ
  feed : String
  sort : String
  adjustment : String
  pageToken : Option String := none

/-- What a request comes to: no response, or one, with what `json.loads` makes of its text, if it does. -/
inductive Reply
  | failed (error : String)
  | response (status : ℕ) (text : String) (payload : Option Payload)

/-- What the venue answers, by the number of the request. -/
abbrev Venue := ℕ → BarsRequest → Reply

/-- `_MAX_PAGE_LIMIT`. -/
def maxPageLimit : ℕ := 10000

/-- `_MAX_PAGES`. -/
def maxPages : ℕ := 10000

/-- `_MAX_ATTEMPTS`. -/
def maxAttempts : ℕ := 5

/-- `_RETRY_STATUSES`. -/
def retryStatuses : List ℕ := [429, 500, 502, 503, 504]

def path : String := "/v2/stocks/bars"

/-- One turn of the loop of `_request_page`. -/
def attempt : Reply → Attempt Payload Exc
  | .failed _ => .again
  | .response status text payload =>
    if status = 200 then .done (payload.elim (.error ⟨.valueError, [.lit "not a JSON document"]⟩) .ok)
    else if retryStatuses.contains status then .again
    else .done (.error ⟨.dataError, [.lit "Alpaca ", .lit path, .lit " returned ", .ts status, .lit ": ",
      .lit (String.ofList (text.toList.take 400))]⟩)

def exhausted : Exc := ⟨.dataError, [.lit "Alpaca ", .lit path, .lit " failed after ", .ts maxAttempts, .lit " attempts"]⟩

/-- **`_request_page`**, from the `n`-th request on. -/
def requestPage (venue : Venue) (r : BarsRequest) (n : ℕ) : Except Exc Payload × ℕ :=
  TokenPages.retry (fun i => attempt (venue i r)) exhausted maxAttempts n

/-- The token a page names, if it is one. -/
def Payload.next (p : Payload) : Option String := p.nextPageToken.filter (· ≠ "")

/-- `merged.setdefault(symbol, []).extend(raw_bars or [])`, for each symbol of a page. -/
def mergePage (merged : Dict String (List RawBar)) (p : Payload) : Dict String (List RawBar) :=
  (p.bars.elim [] Dict.entries).foldl (fun d e => d.set e.1 ((d.get? e.1).getD [] ++ e.2.getD [])) merged

def runaway : Exc :=
  ⟨.dataError, [.lit "Alpaca ", .lit path, .lit " still paginating after ", .ts maxPages,
    .lit " pages — refusing to loop further; the cursor is probably not advancing"]⟩

/-- **`_fetch_all_pages`.** -/
def fetchAllPages (venue : Venue) (r : BarsRequest) (n : ℕ) : Except Exc (Dict String (List RawBar)) × ℕ :=
  TokenPages.follow (fun token => requestPage venue { r with pageToken := token }) Payload.next mergePage runaway maxPages none
    .empty n

/-! ## The window -/

/-- `_TIMEFRAME_PARAM`. -/
def timeframeParam : Timeframe → String
  | .m1 => "1Min"
  | .m5 => "5Min"
  | .m15 => "15Min"
  | .m30 => "30Min"
  | .h1 => "1Hour"
  | .h4 => "4Hour"
  | .d1 => "1Day"

/-- `base_params`, with an adjustment. -/
def windowRequest (feed : String) (symbols : List String) (timeframe : Timeframe) (start stop : ℤ) (adjustment : String) :
    BarsRequest :=
  { symbols, timeframe := timeframeParam timeframe, start, stop, limit := maxPageLimit, feed, sort := "asc", adjustment }

/-- What `adj_close_by_key` is filled from. -/
def RawBar.adjusted (x : String × RawBar) : Except Exc ((String × ℤ) × ℚ) := do
  let ts ← x.2.ts
  let close ← amount "c" x.2.c
  return ((x.1, ts), close)

/-- `adj_close_by_key` of the adjusted pages. -/
def adjClosesOf (pages : Dict String (List RawBar)) : Except Exc (Dict (String × ℤ) ℚ) :=
  (pages.entries.flatMap fun e => e.2.map fun raw => (e.1, raw)).foldlM
    (fun d x => (RawBar.adjusted x).map fun y => Dict.set d y.1 y.2) Dict.empty

/-- The second pass, where it is asked for. -/
def adjustedPass (venue : Venue) (r : BarsRequest) (adjusted : Bool) (n : ℕ) : Except Exc (Dict (String × ℤ) ℚ) :=
  if adjusted then (fetchAllPages venue r n).1 >>= adjClosesOf else .ok .empty

/-- No bars where there should be. -/
def gapExc (symbol : String) (timeframe : Timeframe) (start stop : ℤ) : Exc :=
  ⟨.dataGapError, [.lit "Alpaca returned no ", .lit (Backtest.Timeframe.label timeframe), .lit " bars for ", .lit symbol,
    .lit " between ", .ts start, .lit " and ", .ts stop,
    .lit ". Either the window contains no trading sessions, the symbol was not listed yet, or ",
    .lit "the feed is missing data — do not backtest over it."]⟩

/-- The loop over the symbols: what is had of each, and the ones with nothing. -/
def collect (rows : Dict String (List RawBar)) (adjCloses : Dict (String × ℤ) ℚ) (timeframe : Timeframe) (start stop : ℤ)
    (skipEmpty : Bool) :
    List String → Dict String (List FullBar) → List String → Except Exc (Dict String (List FullBar) × List String)
  | [], result, empty => .ok (result, empty)
  | symbol :: rest, result, empty =>
    match (rows.get? symbol).getD [] with
    | [] =>
      if skipEmpty then collect rows adjCloses timeframe start stop skipEmpty rest result (empty ++ [symbol])
      else .error (gapExc symbol timeframe start stop)
    | raw :: raws => do
      let bars ← toBars symbol timeframe (raw :: raws) adjCloses
      collect rows adjCloses timeframe start stop skipEmpty rest (result.set symbol bars) empty

/-- What `get_bars` refuses before it asks; `upper` is `str.upper`. -/
def refuseWindow (upper : String → String) (symbols : List String) (start stop : ℤ) : Except Exc Unit :=
  if stop ≤ start then .error ⟨.valueError, [.lit "start must be before end, got start=", .ts start, .lit " end=", .ts stop]⟩
  else match symbols.find? fun symbol => symbol ≠ upper symbol with
    | some symbol => .error ⟨.valueError, [.lit "symbol must be uppercase, got '", .lit symbol, .lit "'"]⟩
    | none => .ok ()

/-- **`get_bars`**, from the `n`-th request on: the bars, and the symbols it skipped. -/
def getBars (upper : String → String) (venue : Venue) (feed : String) (symbols : List String) (timeframe : Timeframe)
    (start stop : ℤ) (adjusted skipEmpty : Bool) (n : ℕ) : Except Exc (Dict String (List FullBar) × List String) :=
  if symbols.isEmpty then .ok (.empty, [])
  else do
    refuseWindow upper symbols start stop
    let raw := fetchAllPages venue (windowRequest feed symbols timeframe start stop "raw") n
    let rows ← raw.1
    let adjCloses ← adjustedPass venue (windowRequest feed symbols timeframe start stop "all") adjusted raw.2
    collect rows adjCloses timeframe start stop skipEmpty symbols .empty []

/-! ## What stands under a key -/

/-- The last of the rows that give a key gives it this value. -/
def Stands {ρ κ α : Type} (read : ρ → Except Exc (κ × α)) (rows : List ρ) (k : κ) (v : α) : Prop :=
  ∃ before row after, rows = before ++ row :: after ∧ read row = .ok (k, v) ∧ ∀ later ∈ after, ∀ w, read later ≠ .ok (k, w)

section Stands
variable {ρ κ α : Type} {read : ρ → Except Exc (κ × α)} {rows : List ρ} {k : κ} {v : α}

theorem stands_concat {row : ρ} : Stands read (rows ++ [row]) k v ↔
    read row = .ok (k, v) ∨ (Stands read rows k v ∧ ∀ w, read row ≠ .ok (k, w)) := by
  unfold Stands
  constructor
  · rintro ⟨before, x, after, heq, hx, hafter⟩
    rcases List.eq_nil_or_concat after with rfl | ⟨after, y, rfl⟩
    · obtain ⟨-, hlast⟩ := List.append_inj' heq rfl
      cases hlast
      exact .inl hx
    · have hsplit : rows ++ [row] = (before ++ x :: after) ++ [y] := by simp [heq]
      obtain ⟨rfl, hlast⟩ := List.append_inj' hsplit rfl
      cases hlast
      exact .inr ⟨⟨before, x, after, rfl, hx, fun z hz => hafter z (by simp [hz])⟩, hafter row (by simp)⟩
  · rintro (hx | ⟨⟨before, x, after, rfl, hx, hafter⟩, hnone⟩)
    · exact ⟨rows, row, [], by simp, hx, by simp⟩
    · refine ⟨before, x, after ++ [row], by simp, hx, fun z hz => ?_⟩
      rcases List.mem_append.1 hz with hz | hz
      · exact hafter z hz
      · rw [List.mem_singleton.1 hz]
        exact hnone

/-- Rows that never give the key may be left out. -/
theorem stands_filter (p : ρ → Bool) (h : ∀ row ∈ rows, p row = false → ∀ w, read row ≠ .ok (k, w)) :
    Stands read (rows.filter p) k v ↔ Stands read rows k v := by
  induction rows using List.reverseRecOn with
  | nil => rfl
  | append_singleton rows row ih =>
    have ih := ih fun x hx => h x (by simp [hx])
    rw [List.filter_append, stands_concat]
    cases hp : p row with
    | true => rw [List.filter_cons_of_pos hp, List.filter_nil, stands_concat, ih]
    | false =>
      have hnone := h row (by simp) hp
      rw [List.filter_cons_of_neg (by simp [hp]), List.filter_nil, List.append_nil, ih]
      exact ⟨fun hs => .inr ⟨hs, hnone⟩, fun hs => (hs.resolve_left (hnone v)).1⟩

theorem stands_map {σ : Type} (f : σ → ρ) {l : List σ} : Stands read (l.map f) k v ↔ Stands (fun x => read (f x)) l k v := by
  induction l using List.reverseRecOn with
  | nil => simp [Stands]
  | append_singleton l x ih => rw [List.map_append, List.map_singleton, stands_concat, stands_concat, ih]

/-- A row's key has one that stands. -/
theorem exists_stands {row : ρ} (hrow : row ∈ rows) (hread : read row = .ok (k, v)) : ∃ w, Stands read rows k w := by
  induction rows using List.reverseRecOn with
  | nil => cases hrow
  | append_singleton rows last ih =>
    by_cases hlast : ∃ w, read last = .ok (k, w)
    · obtain ⟨w, hw⟩ := hlast
      exact ⟨w, stands_concat.2 (.inl hw)⟩
    · rcases List.mem_append.1 hrow with hrow | hrow
      · obtain ⟨w, hw⟩ := ih hrow
        exact ⟨w, stands_concat.2 (.inr ⟨hw, fun w' hw' => hlast ⟨w', hw'⟩⟩)⟩
      · rw [List.mem_singleton.1 hrow] at hread
        exact absurd ⟨v, hread⟩ hlast

variable [DecidableEq κ]

/-- **A dictionary filled row by row** holds what stands, and every row was read. -/
theorem foldlM_set_get? {d : Dict κ α}
    (h : rows.foldlM (fun d row => (read row).map fun x => Dict.set d x.1 x.2) Dict.empty = .ok d) :
    (∀ k v, d.get? k = some v ↔ Stands read rows k v) ∧ ∀ row ∈ rows, ∃ x, read row = .ok x := by
  induction rows using List.reverseRecOn generalizing d with
  | nil =>
    cases h
    exact ⟨fun k v => by simp [Stands], by simp⟩
  | append_singleton rows row ih =>
    rw [List.foldlM_append] at h
    cases hrows : rows.foldlM (fun d row => (read row).map fun x => Dict.set d x.1 x.2) Dict.empty with
    | error e => rw [hrows] at h; cases h
    | ok d₀ =>
      obtain ⟨hget, hread⟩ := ih hrows
      rw [hrows] at h
      cases hrow : read row with
      | error e => simp [bind, Except.bind, hrow, Except.map] at h
      | ok x =>
        obtain rfl : d₀.set x.1 x.2 = d := by simpa [bind, Except.bind, hrow, Except.map, pure, Except.pure] using h
        refine ⟨fun k v => ?_, fun r hr => ?_⟩
        · rw [stands_concat, hrow, Dict.get?_set, ← hget]
          by_cases hk : k = x.1
          · subst hk
            rw [if_pos rfl]
            constructor
            · rintro ⟨⟩
              exact .inl rfl
            · rintro (heq | ⟨-, hnone⟩)
              · exact congrArg some (congrArg Prod.snd (Except.ok.inj heq))
              · exact absurd rfl (hnone x.2)
          · rw [if_neg hk]
            constructor
            · exact fun hs => .inr ⟨hs, fun w heq => hk (congrArg Prod.fst (Except.ok.inj heq)).symm⟩
            · rintro (heq | ⟨hs, -⟩)
              · exact absurd (congrArg Prod.fst (Except.ok.inj heq)).symm hk
              · exact hs
        · rcases List.mem_append.1 hr with hr | hr
          · exact hread r hr
          · rw [List.mem_singleton.1 hr]
            exact ⟨x, hrow⟩

end Stands

/-! ## What the venue's pages hold -/

/-- The rows of a symbol on a page. -/
def pageRows (symbol : String) (p : Payload) : List RawBar := ((p.bars.bind fun d => d.get? symbol).bind id).getD []

/-- The pages of a request, where each is as the venue keeps it. -/
abbrev Pages (page : BarsRequest → Payload) (r : BarsRequest) : List Payload → Prop :=
  TokenPages.Chain (fun token => page { r with pageToken := token }) Payload.next none

/-- **A venue that may fail, and never lies**: a page it serves is the page. -/
def Steady (venue : Venue) (page : BarsRequest → Payload) : Prop :=
  ∀ n r text p, venue n r = .response 200 text (some p) → p = page r

theorem mergePage_rows (symbol : String) (d : Dict String (List RawBar)) (p : Payload) :
    ((mergePage d p).get? symbol).getD [] = (d.get? symbol).getD [] ++ pageRows symbol p := by
  have hfold : ∀ (l : List (String × Option (List RawBar))) (d : Dict String (List RawBar)), (l.map Prod.fst).Nodup →
      ((l.foldl (fun d e => d.set e.1 ((d.get? e.1).getD [] ++ e.2.getD [])) d).get? symbol).getD [] =
        (d.get? symbol).getD [] ++ ((Dict.lookup symbol l).bind id).getD [] := by
    intro l
    induction l with
    | nil => intro d _; simp [Dict.lookup]
    | cons e l ih =>
      intro d hnodup
      obtain ⟨hfresh, hnodup⟩ := List.nodup_cons.1 hnodup
      rw [List.foldl_cons, ih _ hnodup, Dict.get?_set, Dict.lookup]
      by_cases he : symbol = e.1
      · subst he
        have hnone : Dict.lookup e.1 l = none :=
          Option.eq_none_iff_forall_ne_some.2 fun v hv => hfresh (List.mem_map.2 ⟨_, Dict.lookup_mem hv, rfl⟩)
        simp [hnone]
      · rw [if_neg he, if_neg (Ne.symm he)]
  unfold mergePage pageRows
  cases p.bars with
  | none => simp
  | some bars => exact hfold bars.entries d bars.nodup

theorem merged_rows (symbol : String) : ∀ (l : List Payload) (d : Dict String (List RawBar)),
    ((l.foldl mergePage d).get? symbol).getD [] = (d.get? symbol).getD [] ++ l.flatMap (pageRows symbol)
  | [], d => by simp
  | p :: l, d => by rw [List.foldl_cons, merged_rows symbol l, mergePage_rows, List.flatMap_cons, List.append_assoc]

variable {upper : String → String} {venue : Venue} {page : BarsRequest → Payload} {r : BarsRequest} {feed symbol : String} {symbols skipped : List String}
  {timeframe : Timeframe} {start stop : ℤ} {adjusted skipEmpty : Bool} {n m : ℕ} {bars : Dict String (List FullBar)}

theorem requestPage_ok (h : Steady venue page) {p : Payload} (hask : requestPage venue r n = (.ok p, m)) : p = page r := by
  obtain ⟨i, -, -, hi⟩ := TokenPages.retry_ok hask
  cases hreply : venue i r with
  | failed e => rw [hreply] at hi; cases hi
  | response status text payload =>
    rw [hreply, attempt] at hi
    split_ifs at hi with hstatus
    · subst hstatus
      cases payload with
      | none => cases hi
      | some q =>
        obtain rfl : q = p := by simpa using hi
        exact h i r text q hreply
    · cases hi

/-- **What all the pages are**: those of the request, however often each was asked for. -/
theorem fetchAllPages_ok (h : Steady venue page) {rows : Dict String (List RawBar)}
    (hfetch : fetchAllPages venue r n = (.ok rows, m)) :
    ∃ l, Pages page r l ∧ ∀ symbol, (rows.get? symbol).getD [] = l.flatMap (pageRows symbol) := by
  obtain ⟨l, hl, -, rfl⟩ := TokenPages.follow_ok (fun token => page { r with pageToken := token })
    (fun token n p m hask => requestPage_ok h hask) hfetch
  exact ⟨l, hl, fun symbol => by rw [merged_rows, Dict.get?_empty, Option.getD_none, List.nil_append]⟩

/-! ## The bars of a symbol -/

/-- **A series drawn from rows**: in order, one bar to an instant, and each the one of the last row of its instant, with the
close of the last adjusted row of the instant; and no row was passed over. -/
structure Drawn (symbol : String) (timeframe : Timeframe) (rows : List RawBar) (adjCloses : Dict (String × ℤ) ℚ)
    (series : List FullBar) : Prop where
  ascending : series.Pairwise fun a b => a.bar.ts < b.bar.ts
  stands : ∀ b, b ∈ series ↔ Stands (RawBar.read symbol timeframe adjCloses) rows b.bar.ts b
  every : ∀ row ∈ rows, ∃ b ∈ series, row.ts = .ok b.bar.ts
  named : ∀ b ∈ series, b.bar.symbol = symbol ∧ b.bar.timeframe = timeframe ∧ b.bar.adjClose = adjCloses.get? (symbol, b.bar.ts)

theorem makeBar_ok {ts : ℤ} {o h l c v : ℚ} {adjClose : Option ℚ} {bar : Bar}
    (hbar : makeBar symbol ts timeframe o h l c v adjClose = .ok bar) :
    bar.ts = ts ∧ bar.symbol = symbol ∧ bar.timeframe = timeframe ∧ bar.adjClose = adjClose := by
  unfold makeBar at hbar
  split_ifs at hbar
  cases hbar
  exact ⟨rfl, rfl, rfl, rfl⟩

/-- **What a row that is read gives.** -/
theorem read_ok {adjCloses : Dict (String × ℤ) ℚ} {raw : RawBar} {ts : ℤ} {b : FullBar}
    (h : raw.read symbol timeframe adjCloses = .ok (ts, b)) :
    raw.ts = .ok ts ∧ b.bar.ts = ts ∧ b.bar.symbol = symbol ∧ b.bar.timeframe = timeframe ∧
      b.bar.adjClose = adjCloses.get? (symbol, ts) := by
  unfold RawBar.read at h
  obtain ⟨t, ht, h⟩ := ok_of_bind h
  obtain ⟨_, -, h⟩ := ok_of_bind h
  obtain ⟨_, -, h⟩ := ok_of_bind h
  obtain ⟨_, -, h⟩ := ok_of_bind h
  obtain ⟨_, -, h⟩ := ok_of_bind h
  obtain ⟨_, -, h⟩ := ok_of_bind h
  obtain ⟨_, -, h⟩ := ok_of_bind h
  obtain ⟨_, -, h⟩ := ok_of_bind h
  obtain ⟨bar, hbar, h⟩ := ok_of_bind h
  cases h
  obtain ⟨hts, hsymbol, htimeframe, hadj⟩ := makeBar_ok hbar
  exact ⟨ht, hts, hsymbol, htimeframe, hadj⟩

theorem drawn_of_toBars {rows : List RawBar} {adjCloses : Dict (String × ℤ) ℚ} {series : List FullBar}
    (h : toBars symbol timeframe rows adjCloses = .ok series) : Drawn symbol timeframe rows adjCloses series := by
  obtain ⟨byTs, hfold, h⟩ := ok_of_bind h
  obtain ⟨hget, hread⟩ := foldlM_set_get? hfold
  cases h
  have hts : ∀ {k b}, byTs.get? k = some b → b.bar.ts = k := by
    intro k b hb
    obtain ⟨_, row, _, -, hrow, -⟩ := (hget k b).1 hb
    exact (read_ok hrow).2.1
  have hmem : ∀ b, b ∈ (byTs.keys.insertionSort (· ≤ ·)).filterMap byTs.get? ↔ byTs.get? b.bar.ts = some b := by
    intro b
    rw [List.mem_filterMap]
    constructor
    · rintro ⟨k, -, hb⟩
      rwa [hts hb]
    · intro hb
      refine ⟨b.bar.ts, ?_, hb⟩
      rw [List.mem_insertionSort, Dict.mem_keys_iff, hb]
      rfl
  refine ⟨?_, fun b => (hmem b).trans (hget _ b), fun row hrow => ?_, fun b hb => ?_⟩
  · have hnodup : (byTs.keys.insertionSort (· ≤ ·)).Nodup := (List.perm_insertionSort ..).nodup_iff.2 byTs.nodup
    refine List.pairwise_filterMap.2 (((List.pairwise_insertionSort (· ≤ ·) byTs.keys).and hnodup).imp ?_)
    intro k k' hk a ha b hb
    rw [hts ha, hts hb]
    exact lt_of_le_of_ne hk.1 hk.2
  · obtain ⟨⟨ts, b⟩, hb⟩ := hread row hrow
    obtain ⟨v, hv⟩ := exists_stands hrow hb
    have hv := (hget ts v).2 hv
    exact ⟨v, (hmem v).2 (by rw [hts hv]; exact hv), by rw [hts hv]; exact (read_ok hb).1⟩
  · obtain ⟨_, row, _, -, hrow, -⟩ := (hget _ b).1 ((hmem b).1 hb)
    obtain ⟨-, -, hsymbol, htimeframe, hadj⟩ := read_ok hrow
    exact ⟨hsymbol, htimeframe, hadj⟩

/-! ## The adjusted pass -/

/-- What the second pass fills: the close of the last adjusted row of a symbol's instant. -/
def closeOf (raw : RawBar) : Except Exc (ℤ × ℚ) := do
  let ts ← raw.ts
  let close ← amount "c" raw.c
  return (ts, close)

theorem adjusted_eq (symbol symbol' : String) (raw : RawBar) (ts : ℤ) (c : ℚ) :
    RawBar.adjusted (symbol, raw) = .ok ((symbol', ts), c) ↔ symbol = symbol' ∧ closeOf raw = .ok (ts, c) := by
  unfold RawBar.adjusted closeOf
  cases raw.ts with
  | error e => simp [bind, Except.bind]
  | ok t =>
    cases amount "c" raw.c with
    | error e => simp [bind, Except.bind]
    | ok close => simp [bind, Except.bind, pure, Except.pure, and_assoc]

theorem adjClosesOf_get? {pages : Dict String (List RawBar)} {adjCloses : Dict (String × ℤ) ℚ}
    (h : adjClosesOf pages = .ok adjCloses) (symbol : String) (ts : ℤ) (c : ℚ) :
    adjCloses.get? (symbol, ts) = some c ↔ Stands closeOf ((pages.get? symbol).getD []) ts c := by
  obtain ⟨hget, -⟩ := foldlM_set_get? h
  rw [hget, ← stands_filter (fun x => decide (x.1 = symbol)) fun x _ hx w hw => by
    obtain ⟨heq, -⟩ := (adjusted_eq ..).1 hw
    exact of_decide_eq_false hx heq]
  have hrows : ((pages.entries.flatMap fun e => e.2.map fun raw => (e.1, raw)).filter fun x => decide (x.1 = symbol)) =
      ((pages.get? symbol).getD []).map fun raw => (symbol, raw) := by
    rw [List.filter_flatMap]
    have hentry : ∀ e : String × List RawBar, (e.2.map fun raw => (e.1, raw)).filter (fun x => decide (x.1 = symbol)) =
        if e.1 = symbol then e.2.map fun raw => (symbol, raw) else [] := by
      intro e
      by_cases he : e.1 = symbol
      · simp [he]
      · simp [he]
    simp only [hentry]
    rw [Dict.flatMap_lookup (fun _ rows => rows.map fun raw => (symbol, raw)) symbol pages.nodup]
    unfold Dict.get?
    cases Dict.lookup symbol pages.entries <;> rfl
  rw [hrows, stands_map]
  unfold Stands
  simp only [adjusted_eq, true_and, ne_eq]

/-! ## The symbols asked for -/

section Collect
variable {rows : Dict String (List RawBar)} {adjCloses : Dict (String × ℤ) ℚ} {e : Exc}

/-- **What the loop over the symbols has made** when it ends. -/
theorem collect_ok : ∀ {symbols : List String} {result : Dict String (List FullBar)} {empty : List String},
    collect rows adjCloses timeframe start stop skipEmpty symbols result empty = .ok (bars, skipped) →
      (∀ symbol ∈ symbols, (rows.get? symbol).getD [] ≠ [] → ∃ series, bars.get? symbol = some series ∧
        toBars symbol timeframe ((rows.get? symbol).getD []) adjCloses = .ok series) ∧
      (∀ symbol, symbol ∉ symbols ∨ (rows.get? symbol).getD [] = [] → bars.get? symbol = result.get? symbol) ∧
      skipped = empty ++ symbols.filter (fun symbol => ((rows.get? symbol).getD []).isEmpty) ∧
      (skipEmpty = false → ∀ symbol ∈ symbols, (rows.get? symbol).getD [] ≠ [])
  | [], result, empty, h => by
    unfold collect at h
    cases h
    simp
  | s :: rest, result, empty, h => by
    unfold collect at h
    split at h
    · rename_i hrows
      split_ifs at h with hskip
      obtain ⟨hmade, helse, hskipped, hnone⟩ := collect_ok h
      refine ⟨fun x hx hxrows => ?_, fun x hx => ?_, ?_, fun hno => absurd hskip (by simp [hno])⟩
      · rcases List.mem_cons.1 hx with rfl | hx
        · exact absurd hrows hxrows
        · exact hmade x hx hxrows
      · exact helse x (hx.imp_left fun hnot hmem => hnot (List.mem_cons_of_mem _ hmem))
      · rw [hskipped, List.filter_cons_of_pos (by simp [hrows]), List.append_assoc, List.singleton_append]
    · rename_i raw raws hrows
      obtain ⟨series, hseries, h⟩ := ok_of_bind h
      obtain ⟨hmade, helse, hskipped, hnone⟩ := collect_ok h
      have hsome : (rows.get? s).getD [] ≠ [] := by simp [hrows]
      refine ⟨fun x hx hxrows => ?_, fun x hx => ?_, ?_, fun hno x hx => ?_⟩
      · by_cases hrest : x ∈ rest
        · exact hmade x hrest hxrows
        · obtain rfl : x = s := (List.mem_cons.1 hx).resolve_right hrest
          refine ⟨series, ?_, hrows ▸ hseries⟩
          rw [helse x (.inl hrest), Dict.get?_set_self]
      · have hne : x ≠ s := by
          rintro rfl
          exact hx.elim (fun hnot => hnot List.mem_cons_self) hsome
        rw [helse x (hx.imp_left fun hnot hmem => hnot (List.mem_cons_of_mem _ hmem)), Dict.get?_set_ne _ _ hne]
      · rw [hskipped, List.filter_cons_of_neg (by simp [hrows])]
      · rcases List.mem_cons.1 hx with rfl | hx
        · exact hsome
        · exact hnone hno x hx

theorem collect_error : ∀ {symbols : List String} {result : Dict String (List FullBar)} {empty : List String},
    collect rows adjCloses timeframe start stop skipEmpty symbols result empty = .error e →
      (∃ symbol ∈ symbols, (rows.get? symbol).getD [] = [] ∧ e = gapExc symbol timeframe start stop) ∨
        ∃ symbol raws, toBars symbol timeframe raws adjCloses = .error e
  | [], result, empty, h => by
    unfold collect at h
    cases h
  | s :: rest, result, empty, h => by
    unfold collect at h
    split at h
    · rename_i hrows
      split_ifs at h with hskip
      · exact (collect_error h).imp_left fun ⟨x, hx, hxrows⟩ => ⟨x, List.mem_cons_of_mem _ hx, hxrows⟩
      · cases h
        exact .inl ⟨s, List.mem_cons_self, hrows, rfl⟩
    · rename_i raw raws hrows
      cases hbars : toBars s timeframe (raw :: raws) adjCloses with
      | error e' =>
        rw [hbars] at h
        cases h
        exact .inr ⟨s, raw :: raws, hbars⟩
      | ok series =>
        rw [hbars] at h
        exact (collect_error h).imp_left fun ⟨x, hx, hxrows⟩ => ⟨x, List.mem_cons_of_mem _ hx, hxrows⟩

end Collect

/-! ## What a call gives -/

/-- **A window, whole**: of every symbol asked for the series drawn from all the rows of all its pages, with the adjusted closes
of the second pass; nothing of any other symbol; and the symbols with no row are told. -/
structure Whole (page : BarsRequest → Payload) (feed : String) (symbols : List String) (timeframe : Timeframe) (start stop : ℤ)
    (adjusted : Bool) (bars : Dict String (List FullBar)) (skipped : List String) (raw all : List Payload)
    (adjCloses : Dict (String × ℤ) ℚ) : Prop where
  raws : Pages page (windowRequest feed symbols timeframe start stop "raw") raw
  alls : adjusted = true → Pages page (windowRequest feed symbols timeframe start stop "all") all
  closes : ∀ symbol ts c, adjCloses.get? (symbol, ts) = some c ↔
    adjusted = true ∧ Stands closeOf (all.flatMap (pageRows symbol)) ts c
  drawn : ∀ symbol ∈ symbols, raw.flatMap (pageRows symbol) ≠ [] → ∃ series, bars.get? symbol = some series ∧
    Drawn symbol timeframe (raw.flatMap (pageRows symbol)) adjCloses series
  nothing : ∀ symbol, symbol ∉ symbols ∨ raw.flatMap (pageRows symbol) = [] → bars.get? symbol = none
  told : skipped = symbols.filter fun symbol => (raw.flatMap (pageRows symbol)).isEmpty

/-- **History is read whole or not at all**, whatever the venue made the reader try again. -/
theorem bars_whole (h : Steady venue page) (hne : symbols ≠ [])
    (hget : getBars upper venue feed symbols timeframe start stop adjusted skipEmpty n = .ok (bars, skipped)) :
    (∃ raw all adjCloses, Whole page feed symbols timeframe start stop adjusted bars skipped raw all adjCloses) ∧
      (skipEmpty = false → skipped = []) := by
  unfold getBars at hget
  rw [if_neg (by simpa using hne)] at hget
  obtain ⟨-, -, hget⟩ := ok_of_bind hget
  obtain ⟨rows, hrows, hget⟩ := ok_of_bind hget
  obtain ⟨adjCloses, hadj, hget⟩ := ok_of_bind hget
  obtain ⟨raw, hraw, hrawrows⟩ := fetchAllPages_ok h (Prod.ext hrows rfl :
    fetchAllPages venue (windowRequest feed symbols timeframe start stop "raw") n = (.ok rows, _))
  obtain ⟨hmade, helse, hskipped, hnone⟩ := collect_ok hget
  simp only [hrawrows] at hmade helse hskipped hnone
  have hall : ∃ all, (adjusted = true → Pages page (windowRequest feed symbols timeframe start stop "all") all) ∧
      ∀ symbol ts c, adjCloses.get? (symbol, ts) = some c ↔
        adjusted = true ∧ Stands closeOf (all.flatMap (pageRows symbol)) ts c := by
    cases adjusted with
    | false =>
      cases hadj
      exact ⟨[], by simp, by simp⟩
    | true =>
      obtain ⟨pages, hpages, hadj⟩ := ok_of_bind hadj
      obtain ⟨all, hall, hallrows⟩ := fetchAllPages_ok h (Prod.ext hpages rfl :
        fetchAllPages venue (windowRequest feed symbols timeframe start stop "all") _ = (.ok pages, _))
      refine ⟨all, fun _ => hall, fun symbol ts c => ?_⟩
      rw [adjClosesOf_get? hadj, hallrows]
      simp
  obtain ⟨all, hpages, hcloses⟩ := hall
  refine ⟨⟨raw, all, adjCloses, hraw, hpages, hcloses, fun symbol hsymbol hsome => ?_, helse, hskipped⟩, fun hno => ?_⟩
  · obtain ⟨series, hseries, hbars⟩ := hmade symbol hsymbol hsome
    exact ⟨series, hseries, drawn_of_toBars hbars⟩
  · rw [hskipped, List.nil_append, List.filter_eq_nil_iff]
    simpa using hnone hno

/-! ## What is raised -/

/-- An exception that says nothing of gaps. -/
def Plain (e : Exc) : Prop := e.cls.isA .dataGapError = false

/-- A computation that raises nothing of gaps. -/
def RaisesPlain {α : Type} (x : Except Exc α) : Prop := ∀ e, x = .error e → Plain e

section Plain
variable {α β : Type} {x : Except Exc α}

theorem plain_ok (a : α) : RaisesPlain (.ok a : Except Exc α) := fun _ h => by cases h

theorem plain_error {e : Exc} (h : Plain e) : RaisesPlain (.error e : Except Exc α) := fun _ he => by
  cases he
  exact h

theorem plain_bind {f : α → Except Exc β} (hx : RaisesPlain x) (hf : ∀ a, RaisesPlain (f a)) : RaisesPlain (x >>= f) := by
  intro e he
  cases x with
  | error e' => exact hx e (by cases he; rfl)
  | ok a => exact hf a e he

theorem plain_map {f : α → β} (hx : RaisesPlain x) : RaisesPlain (x.map f) := by
  intro e he
  cases x with
  | error e' => exact hx e (by cases he; rfl)
  | ok a => cases he

theorem plain_foldlM {ρ : Type} {f : α → ρ → Except Exc α} (h : ∀ a row, RaisesPlain (f a row)) :
    ∀ (rows : List ρ) (a : α), RaisesPlain (rows.foldlM f a)
  | [], a => plain_ok a
  | row :: rows, a => by
    rw [List.foldlM_cons]
    exact plain_bind (h a row) fun b => plain_foldlM h rows b

theorem plain_asDecimal (v : AmountField) : RaisesPlain (asDecimal v) := by
  rcases v with x | (_ | x) | _ <;> first | exact plain_ok _ | exact plain_error rfl

theorem plain_amount (name : String) (v : Option AmountField) : RaisesPlain (amount name v) := by
  cases v with
  | none => exact plain_error rfl
  | some v => exact plain_asDecimal v

theorem plain_ts (raw : RawBar) : RaisesPlain raw.ts := by
  unfold RawBar.ts
  rcases raw.t with _ | (ts | raw | raw) <;> first | exact plain_ok _ | exact plain_error rfl

theorem plain_nullable {read : α → Except Exc β} (h : ∀ a, RaisesPlain (read a)) (v : Option α) :
    RaisesPlain (nullable read v) := by
  cases v with
  | none => exact plain_ok _
  | some v => exact plain_map (h v)

theorem plain_asInt (v : Option ℤ) : RaisesPlain (asInt v) := by
  cases v with
  | none => exact plain_error rfl
  | some n => exact plain_ok _

theorem plain_makeBar {ts : ℤ} {o h l c v : ℚ} {adjClose : Option ℚ} :
    RaisesPlain (makeBar symbol ts timeframe o h l c v adjClose) := by
  unfold makeBar
  split_ifs
  · exact plain_ok _
  · exact plain_error rfl
  · exact plain_error rfl

theorem plain_toBars (rows : List RawBar) (adjCloses : Dict (String × ℤ) ℚ) :
    RaisesPlain (toBars symbol timeframe rows adjCloses) := by
  refine plain_bind (plain_foldlM (fun d raw => plain_map ?_) rows _) fun _ => plain_ok _
  unfold RawBar.read
  exact plain_bind (plain_ts raw) fun _ => plain_bind (plain_amount _ _) fun _ => plain_bind (plain_amount _ _) fun _ =>
    plain_bind (plain_amount _ _) fun _ => plain_bind (plain_amount _ _) fun _ => plain_bind (plain_amount _ _) fun _ =>
    plain_bind (plain_nullable plain_asDecimal _) fun _ => plain_bind (plain_nullable plain_asInt _) fun _ =>
    plain_bind plain_makeBar fun _ => plain_ok _

theorem plain_adjClosesOf (pages : Dict String (List RawBar)) : RaisesPlain (adjClosesOf pages) := by
  refine plain_foldlM (fun d x => plain_map ?_) _ _
  unfold RawBar.adjusted
  exact plain_bind (plain_ts x.2) fun _ => plain_bind (plain_amount _ _) fun _ => plain_ok _

theorem plain_fetchAllPages (venue : Venue) (r : BarsRequest) (n : ℕ) : RaisesPlain (fetchAllPages venue r n).1 := by
  intro e he
  rcases TokenPages.follow_error (Prod.ext he rfl : fetchAllPages venue r n = (.error e, _)) with rfl | ⟨token, n, m, hask⟩
  · rfl
  rcases TokenPages.retry_error hask with rfl | ⟨i, hi⟩
  · rfl
  cases hreply : venue i { r with pageToken := token } with
  | failed error => rw [hreply] at hi; cases hi
  | response status text payload =>
    rw [hreply, attempt] at hi
    split_ifs at hi
    · cases payload with
      | none => cases hi; rfl
      | some p => cases hi
    · cases hi
      rfl

/-- **Only a symbol with no row raises a gap.** -/
theorem getBars_gap {e : Exc} (hget : getBars upper venue feed symbols timeframe start stop adjusted skipEmpty n = .error e)
    (he : e.cls.isA .dataGapError = true) (h : Steady venue page) :
    ∃ raw, Pages page (windowRequest feed symbols timeframe start stop "raw") raw ∧
      ∃ symbol ∈ symbols, raw.flatMap (pageRows symbol) = [] := by
  have hnot : ¬Plain e := by
    unfold Plain
    rw [he]
    decide
  unfold getBars at hget
  split_ifs at hget
  cases hwindow : refuseWindow upper symbols start stop with
  | error e' =>
    rw [hwindow] at hget
    cases hget
    unfold refuseWindow at hwindow
    split_ifs at hwindow
    · cases hwindow
      exact absurd rfl hnot
    · split at hwindow
      · cases hwindow
        exact absurd rfl hnot
      · cases hwindow
  | ok u =>
    rw [hwindow] at hget
    cases hraw : fetchAllPages venue (windowRequest feed symbols timeframe start stop "raw") n with
    | mk answer m =>
      have hplain := plain_fetchAllPages venue (windowRequest feed symbols timeframe start stop "raw") n
      rw [hraw] at hget hplain
      cases answer with
      | error e' =>
        cases hget
        exact absurd (hplain _ rfl) hnot
      | ok rows =>
        obtain ⟨raw, hpages, hrows⟩ := fetchAllPages_ok h hraw
        refine ⟨raw, hpages, ?_⟩
        cases hadj : adjustedPass venue (windowRequest feed symbols timeframe start stop "all") adjusted m with
        | error e' =>
          have hpass : RaisesPlain (adjustedPass venue (windowRequest feed symbols timeframe start stop "all") adjusted m) := by
            unfold adjustedPass
            split_ifs
            · exact plain_bind (plain_fetchAllPages _ _ _) plain_adjClosesOf
            · exact plain_ok _
          have heq : e' = e := by simpa [bind, Except.bind, hadj] using hget
          exact absurd (heq ▸ hpass e' hadj) hnot
        | ok adjCloses =>
          have hcollect : collect rows adjCloses timeframe start stop skipEmpty symbols .empty [] = .error e := by
            simpa [bind, Except.bind, hadj] using hget
          rcases collect_error hcollect with ⟨symbol, hsymbol, hnone, -⟩ | ⟨symbol, raws, hbars⟩
          · exact ⟨symbol, hsymbol, by rw [← hrows]; exact hnone⟩
          · exact absurd (plain_toBars raws adjCloses e hbars) hnot

end Plain

/-! ## The table a backfill leaves -/

/-- **A venue that keeps the tape**: on the pages of a window are the tape's instants in it, of the symbols asked for. -/
def Keeps (page : BarsRequest → Payload) (feed : String) (tape : String → ℤ → Prop) (timeframe : Timeframe) : Prop :=
  ∀ symbols start stop adjustment l, Pages page (windowRequest feed symbols timeframe start stop adjustment) l →
    ∀ symbol ts, (∃ row ∈ l.flatMap (pageRows symbol), row.ts = .ok ts) ↔
      symbol ∈ symbols ∧ tape symbol ts ∧ start ≤ ts ∧ ts < stop

/-- The provider as a backfill asks it, each call at some moment of the venue's. -/
def ports (upper : String → String) (venue : Venue) (feed : String) (moment : List String → ℤ → ℤ → ℕ)
    (upsertRaises : List Bar → Option Exc) : Ports where
  getBars symbols timeframe start stop adjusted :=
    (getBars upper venue feed symbols timeframe start stop adjusted false (moment symbols start stop)).map fun x =>
      x.1.filterMap fun series => some (series.map FullBar.bar)
  upsertRaises := upsertRaises
  upper := upper

/-- **The provider honours the tape.** -/
theorem ports_honours (h : Steady venue page) {tape : String → ℤ → Prop} (hkeeps : Keeps page feed tape timeframe)
    (moment : List String → ℤ → ℤ → ℕ) (upsertRaises : List Bar → Option Exc) :
    Honours tape timeframe (ports upper venue feed moment upsertRaises) := by
  have hmap : ∀ {symbols start stop adjusted bars},
      (ports upper venue feed moment upsertRaises).getBars symbols timeframe start stop adjusted = .ok bars → ∃ full,
        (∃ skipped, getBars upper venue feed symbols timeframe start stop adjusted false (moment symbols start stop) =
          .ok (full, skipped)) ∧ ∀ symbol, bars.get? symbol = (full.get? symbol).map fun series => series.map FullBar.bar := by
    intro symbols start stop adjusted bars hget
    unfold ports at hget
    dsimp only at hget
    cases hfull : getBars upper venue feed symbols timeframe start stop adjusted false (moment symbols start stop) with
    | error e => rw [hfull] at hget; cases hget
    | ok x =>
      rw [hfull] at hget
      cases hget
      refine ⟨x.1, ⟨x.2, rfl⟩, fun symbol => ?_⟩
      rw [Dict.get?_filterMap]
      cases x.1.get? symbol <;> rfl
  refine ⟨fun {symbols start stop adjusted bars} hget symbol hsymbol ts htape hlow hhigh => ?_,
    fun {symbols start stop adjusted bars} hget symbol series hseries => ?_,
    fun {symbol start stop adjusted e} hget he ts htape hlow => ?_⟩
  · obtain ⟨full, ⟨skipped, hfull⟩, hbars⟩ := hmap hget
    obtain ⟨⟨raw, all, adjCloses, hwhole⟩, -⟩ := bars_whole h (List.ne_nil_of_mem hsymbol) hfull
    obtain ⟨row, hrow, hts⟩ := (hkeeps _ _ _ _ raw hwhole.raws symbol ts).2 ⟨hsymbol, htape, hlow, hhigh⟩
    obtain ⟨series, hseries, hdrawn⟩ := hwhole.drawn symbol hsymbol (List.ne_nil_of_mem hrow)
    obtain ⟨b, hb, hbts⟩ := hdrawn.every row hrow
    obtain ⟨hname, htimeframe, -⟩ := hdrawn.named b hb
    refine ⟨_, by rw [hbars, hseries]; rfl, b.bar, List.mem_map_of_mem hb, hname, htimeframe, ?_⟩
    rw [hts] at hbts
    exact (Except.ok.inj hbts).symm
  · obtain ⟨full, ⟨skipped, hfull⟩, hbars⟩ := hmap hget
    rw [hbars, Option.map_eq_some_iff] at hseries
    obtain ⟨l, hl, rfl⟩ := hseries
    have hne : symbols ≠ [] := by
      rintro rfl
      simp only [getBars, List.isEmpty_nil, if_true, Except.ok.injEq, Prod.mk.injEq] at hfull
      rw [← hfull.1] at hl
      cases hl
    obtain ⟨⟨raw, all, adjCloses, hwhole⟩, -⟩ := bars_whole h hne hfull
    have hmem : symbol ∈ symbols ∧ raw.flatMap (pageRows symbol) ≠ [] := by
      by_contra hnot
      have hnone := hwhole.nothing symbol (by tauto)
      rw [hnone] at hl
      cases hl
    obtain ⟨series, hseries, hdrawn⟩ := hwhole.drawn symbol hmem.1 hmem.2
    rw [hseries] at hl
    cases hl
    refine ⟨hmem.1, fun b hb => ?_⟩
    obtain ⟨full, hfull, rfl⟩ := List.mem_map.1 hb
    obtain ⟨before, row, after, hrows, hread, -⟩ := (hdrawn.stands full).1 hfull
    exact ((hkeeps _ _ _ _ raw hwhole.raws symbol full.bar.ts).1 ⟨row, by rw [hrows]; simp, (read_ok hread).1⟩).2.2
  · unfold ports at hget
    dsimp only at hget
    cases hfull : getBars upper venue feed [symbol] timeframe start stop adjusted false (moment [symbol] start stop) with
    | ok x => rw [hfull] at hget; cases hget
    | error e' =>
      rw [hfull] at hget
      cases hget
      obtain ⟨raw, hraw, s, hs, hnone⟩ := getBars_gap hfull he h
      obtain rfl := List.mem_singleton.1 hs
      by_contra hhigh
      obtain ⟨row, hrow, -⟩ := (hkeeps _ _ _ _ raw hraw s ts).2 ⟨List.mem_singleton_self s, htape, hlow, by omega⟩
      rw [hnone] at hrow
      cases hrow

/-- **A backfill over this provider has its range**, however often the venue had to be asked: the tape's bars of it are stored,
and nothing from outside it is. -/
theorem history_backfilled (h : Steady venue page) {tape : String → ℤ → Prop} (hkeeps : Keeps page feed tape timeframe)
    (moment : List String → ℤ → ℤ → ℕ) (upsertRaises : List Bar → Option Exc) (symbols : List String) (windowDays : Option ℤ)
    (batchSize : ℤ) (t : BarTable) :
    Raising.Triple (fun t' => t' = t)
      (backfillBars (ports upper venue feed moment upsertRaises) timeframe adjusted symbols start stop windowDays batchSize)
      (fun _ t' => Refetched tape timeframe (fun symbol ts => symbol ∈ symbols ∧ start ≤ ts ∧ ts < stop) t t')
      (fun _ _ => True) :=
  backfillBars_refetched (ports_honours h hkeeps moment upsertRaises) symbols windowDays batchSize t

/-! ## When a call answers -/

/-- **A venue that answers in the end**: within the attempts of a page there is one it serves, and none before it is refused. -/
def Patient (venue : Venue) (page : BarsRequest → Payload) : Prop :=
  ∀ n r, ∃ j < maxAttempts, (∀ i < j, attempt (venue (n + i) r) = .again) ∧
    ∃ text, venue (n + j) r = .response 200 text (some (page r))

/-- A row a bar can be made of, whatever its adjusted close. -/
def Readable (symbol : String) (timeframe : Timeframe) (row : RawBar) : Prop :=
  ∀ adjCloses, ∃ x, row.read symbol timeframe adjCloses = .ok x

theorem fetchAllPages_answers (h : Patient venue page) {l : List Payload} (hl : Pages page r l) (hlen : l.length ≤ maxPages)
    (n : ℕ) : ∃ rows m, fetchAllPages venue r n = (.ok rows, m) ∧
      ∀ symbol, (rows.get? symbol).getD [] = l.flatMap (pageRows symbol) := by
  have hask : ∀ (token : Option String) (n : ℕ), ∃ m,
      requestPage venue { r with pageToken := token } n = (.ok (page { r with pageToken := token }), m) := by
    intro token n
    obtain ⟨j, hj, hagain, text, hserved⟩ := h n { r with pageToken := token }
    refine ⟨_, TokenPages.retry_answers hj hagain ?_⟩
    rw [hserved]
    rfl
  obtain ⟨m, hm⟩ := TokenPages.follow_ends mergePage runaway hask hl hlen
  exact ⟨_, m, hm, fun symbol => by rw [merged_rows, Dict.get?_empty, Option.getD_none, List.nil_append]⟩

theorem foldlM_set_ok {ρ κ α : Type} [DecidableEq κ] (read : ρ → Except Exc (κ × α)) : ∀ {rows : List ρ} (d : Dict κ α),
    (∀ row ∈ rows, ∃ x, read row = .ok x) → ∃ d', rows.foldlM (fun d row => (read row).map fun x => Dict.set d x.1 x.2) d = .ok d'
  | [], d, _ => ⟨d, rfl⟩
  | row :: rows, d, h => by
    obtain ⟨x, hx⟩ := h row List.mem_cons_self
    obtain ⟨d', hd'⟩ := foldlM_set_ok read (d.set x.1 x.2) fun r hr => h r (List.mem_cons_of_mem _ hr)
    refine ⟨d', ?_⟩
    rw [List.foldlM_cons, hx]
    exact hd'

theorem collect_answers {rows : Dict String (List RawBar)} {adjCloses : Dict (String × ℤ) ℚ} : ∀ {symbols : List String}
    {result : Dict String (List FullBar)} {empty : List String},
    (∀ symbol ∈ symbols, ∀ row ∈ (rows.get? symbol).getD [], Readable symbol timeframe row) →
    (skipEmpty = true ∨ ∀ symbol ∈ symbols, (rows.get? symbol).getD [] ≠ []) →
      ∃ x, collect rows adjCloses timeframe start stop skipEmpty symbols result empty = .ok x
  | [], result, empty, _, _ => ⟨_, rfl⟩
  | s :: rest, result, empty, hread, hsome => by
    have hread' := fun symbol (hs : symbol ∈ rest) => hread symbol (List.mem_cons_of_mem _ hs)
    have hsome' := hsome.imp_right fun hall symbol (hs : symbol ∈ rest) => hall symbol (List.mem_cons_of_mem _ hs)
    unfold collect
    split
    · rename_i hrows
      rw [if_pos (hsome.resolve_right fun hall => hall s List.mem_cons_self hrows)]
      exact collect_answers hread' hsome'
    · rename_i raw raws hrows
      obtain ⟨byTs, hbyTs⟩ := foldlM_set_ok (RawBar.read s timeframe adjCloses) Dict.empty fun row hrow =>
        hread s List.mem_cons_self row (hrows ▸ hrow) adjCloses
      have hbars : toBars s timeframe (raw :: raws) adjCloses = .ok ((byTs.keys.insertionSort (· ≤ ·)).filterMap byTs.get?) := by
        unfold toBars
        rw [hbyTs]
        rfl
      rw [hbars]
      exact collect_answers hread' hsome'

/-- **A call answers exactly when there is something to give of every symbol**, or it may skip those with nothing: no outage the
attempts outlast, and no number of pages under the limit, keeps it from it. -/
theorem bars_answered (h : Patient venue page) (hwindow : refuseWindow upper symbols start stop = .ok ()) {raw all : List Payload}
    (hraw : Pages page (windowRequest feed symbols timeframe start stop "raw") raw) (hrawlen : raw.length ≤ maxPages)
    (hall : Pages page (windowRequest feed symbols timeframe start stop "all") all) (halllen : all.length ≤ maxPages)
    (hrows : ∀ symbol ∈ symbols, ∀ row ∈ raw.flatMap (pageRows symbol), Readable symbol timeframe row)
    (hcloses : ∀ symbol, ∀ row ∈ all.flatMap (pageRows symbol), ∃ x, closeOf row = .ok x) :
    (∃ out, getBars upper venue feed symbols timeframe start stop adjusted skipEmpty n = .ok out) ↔
      skipEmpty = true ∨ ∀ symbol ∈ symbols, raw.flatMap (pageRows symbol) ≠ [] := by
  obtain ⟨rows, m, hfetch, hrawrows⟩ := fetchAllPages_answers h hraw hrawlen n
  obtain ⟨adjCloses, hadj⟩ : ∃ adjCloses,
      adjustedPass venue (windowRequest feed symbols timeframe start stop "all") adjusted m = .ok adjCloses := by
    unfold adjustedPass
    cases adjusted with
    | false => exact ⟨_, rfl⟩
    | true =>
      obtain ⟨pages, m', hpages, hallrows⟩ := fetchAllPages_answers h hall halllen m
      rw [if_pos rfl, hpages]
      refine foldlM_set_ok RawBar.adjusted _ fun x hx => ?_
      obtain ⟨e, he, hx⟩ := List.mem_flatMap.1 hx
      obtain ⟨row, hrow, rfl⟩ := List.mem_map.1 hx
      have hget := (pages.mem_entries_iff e.1 e.2).1 he
      obtain ⟨⟨ts, c⟩, hc⟩ := hcloses e.1 row (by rw [← hallrows, hget]; exact hrow)
      exact ⟨_, (adjusted_eq e.1 e.1 row ts c).2 ⟨rfl, hc⟩⟩
  unfold getBars
  split
  · rename_i hempty
    obtain rfl := List.isEmpty_iff.1 hempty
    simp
  · have hloop : (do
        refuseWindow upper symbols start stop
        let raw := fetchAllPages venue (windowRequest feed symbols timeframe start stop "raw") n
        let rows ← raw.1
        let adjCloses ← adjustedPass venue (windowRequest feed symbols timeframe start stop "all") adjusted raw.2
        collect rows adjCloses timeframe start stop skipEmpty symbols .empty []) =
          collect rows adjCloses timeframe start stop skipEmpty symbols .empty [] := by
      simp [bind, Except.bind, hwindow, hfetch, hadj]
    rw [hloop]
    constructor
    · rintro ⟨⟨bars, skipped⟩, hout⟩
      obtain ⟨-, -, -, hnone⟩ := collect_ok hout
      simp only [hrawrows] at hnone
      cases skipEmpty with
      | true => exact .inl rfl
      | false => exact .inr (hnone rfl)
    · intro hsome
      refine collect_answers (fun symbol hs row hrow => hrows symbol hs row (hrawrows symbol ▸ hrow)) (hsome.imp_right ?_)
      intro hsome symbol hs
      rw [hrawrows]
      exact hsome symbol hs

/-! ## Two daily bars on two pages, the first of which is refused once -/

def spyRow (ts : ℤ) : RawBar :=
  { t := some (.at ts), o := some (.number 100), h := some (.number 101), l := some (.number 99), c := some (.text (some 100)),
    v := some (.number 5000) }

/-- The rows of some instants, where they are asked for. -/
def spyRows (r : BarsRequest) (instants : List ℤ) : Option (Dict String (Option (List RawBar))) :=
  if "SPY" ∈ r.symbols then
    some (Dict.empty.set "SPY" (some ((instants.filter fun ts => decide (r.start ≤ ts ∧ ts < r.stop)).map spyRow)))
  else none

def spyPage (r : BarsRequest) : Payload :=
  match r.pageToken with
  | none => ⟨spyRows r [0], some "a"⟩
  | some _ => ⟨spyRows r [86400], none⟩

def spyVenue : Venue := fun n r => if n = 0 then .response 429 "too many requests" none else .response 200 "" (some (spyPage r))

def spyPages (r : BarsRequest) : List Payload := [spyPage { r with pageToken := none }, spyPage { r with pageToken := some "a" }]

theorem spyVenue_steady : Steady spyVenue spyPage := by
  intro n r text p h
  unfold spyVenue at h
  split_ifs at h
  · cases h
  · cases h
    rfl

theorem spyVenue_patient : Patient spyVenue spyPage := by
  intro n r
  unfold spyVenue
  cases n with
  | zero =>
    refine ⟨1, by decide, fun i hi => ?_, "", rfl⟩
    obtain rfl : i = 0 := by omega
    rfl
  | succ n => exact ⟨0, by decide, fun i hi => absurd hi (Nat.not_lt_zero i), "", rfl⟩

theorem spy_pages (r : BarsRequest) : Pages spyPage r (spyPages r) := .more rfl (.last rfl)

theorem spy_rows (r : BarsRequest) (symbol : String) : (spyPages r).flatMap (pageRows symbol) =
    if "SPY" ∈ r.symbols ∧ symbol = "SPY" then
      ([0, 86400].filter fun ts => decide (r.start ≤ ts ∧ ts < r.stop)).map spyRow else [] := by
  have hrows : ∀ (instants : List ℤ) (token : Option String), pageRows symbol ⟨spyRows r instants, token⟩ =
      if "SPY" ∈ r.symbols ∧ symbol = "SPY" then
        (instants.filter fun ts => decide (r.start ≤ ts ∧ ts < r.stop)).map spyRow else [] := by
    intro instants token
    unfold pageRows spyRows
    by_cases hspy : "SPY" ∈ r.symbols
    · by_cases hsymbol : symbol = "SPY" <;> simp [hspy, hsymbol, Dict.get?_set]
    · simp [hspy]
  have hsplit : (spyPages r).flatMap (pageRows symbol) =
      pageRows symbol ⟨spyRows r [0], some "a"⟩ ++ pageRows symbol ⟨spyRows r [86400], none⟩ := by
    simp [spyPages, spyPage, spyRows]
  rw [hsplit, hrows, hrows]
  by_cases hboth : "SPY" ∈ r.symbols ∧ symbol = "SPY"
  · rw [if_pos hboth, if_pos hboth, if_pos hboth, ← List.map_append, ← List.filter_append]
    rfl
  · rw [if_neg hboth, if_neg hboth, if_neg hboth]
    rfl

theorem spyVenue_keeps : Keeps spyPage "iex" (fun symbol ts => symbol = "SPY" ∧ ts ∈ [0, 86400]) .d1 := by
  intro symbols start stop adjustment l hl symbol ts
  obtain rfl := hl.unique (spy_pages _)
  rw [spy_rows]
  change (∃ row ∈ if "SPY" ∈ symbols ∧ symbol = "SPY" then
      ([0, 86400].filter fun ts => decide (start ≤ ts ∧ ts < stop)).map spyRow else [], row.ts = .ok ts) ↔
    symbol ∈ symbols ∧ (symbol = "SPY" ∧ ts ∈ [0, 86400]) ∧ start ≤ ts ∧ ts < stop
  by_cases hboth : "SPY" ∈ symbols ∧ symbol = "SPY"
  · rw [if_pos hboth]
    obtain ⟨hspy, rfl⟩ := hboth
    constructor
    · rintro ⟨row, hrow, heq⟩
      obtain ⟨ts', hts', rfl⟩ := List.mem_map.1 hrow
      obtain ⟨hmem, hwithin⟩ := List.mem_filter.1 hts'
      obtain rfl : ts' = ts := Except.ok.inj heq
      exact ⟨hspy, ⟨rfl, hmem⟩, of_decide_eq_true hwithin⟩
    · rintro ⟨-, ⟨-, hts⟩, hwithin⟩
      exact ⟨spyRow ts, List.mem_map_of_mem (List.mem_filter.2 ⟨hts, decide_eq_true hwithin⟩), rfl⟩
  · rw [if_neg hboth]
    constructor
    · rintro ⟨row, hrow, -⟩
      cases hrow
    · rintro ⟨hmem, ⟨rfl, -⟩, -⟩
      exact absurd ⟨hmem, rfl⟩ hboth

theorem bars_whole_spy : ∃ bars skipped, getBars String.toUpper spyVenue "iex" ["SPY"] .d1 0 172800 true false 0 = .ok (bars, skipped) ∧
    (∃ raw all adjCloses, Whole spyPage "iex" ["SPY"] .d1 0 172800 true bars skipped raw all adjCloses) ∧ skipped = [] := by
  have hok : (getBars String.toUpper spyVenue "iex" ["SPY"] .d1 0 172800 true false 0).isOk = true := by decide +kernel
  cases hget : getBars String.toUpper spyVenue "iex" ["SPY"] .d1 0 172800 true false 0 with
  | error e => rw [hget] at hok; cases hok
  | ok out =>
    obtain ⟨hwhole, hskipped⟩ := bars_whole spyVenue_steady (by simp) hget
    exact ⟨out.1, out.2, rfl, hwhole, hskipped rfl⟩

theorem bars_answered_spy : ∃ out, getBars String.toUpper spyVenue "iex" ["SPY"] .d1 0 172800 true false 0 = .ok out := by
  have hread : ∀ ts symbol, Readable symbol .d1 (spyRow ts) := fun ts symbol adjCloses => by
    obtain ⟨bar, hbar⟩ : ∃ bar, makeBar symbol ts .d1 100 101 99 100 5000 (adjCloses.get? (symbol, ts)) = .ok bar := by
      unfold makeBar
      rw [dif_pos (by norm_num), dif_pos (by norm_num)]
      exact ⟨_, rfl⟩
    refine ⟨(ts, ⟨bar, none, none⟩), ?_⟩
    change (makeBar symbol ts .d1 100 101 99 100 5000 (adjCloses.get? (symbol, ts)) >>= fun bar =>
      (Except.ok (ts, FullBar.mk bar none none) : Except Exc (ℤ × FullBar))) = _
    rw [hbar]
    rfl
  have hrow : ∀ symbol, ∀ row ∈ (spyPages (windowRequest "iex" ["SPY"] .d1 0 172800 "raw")).flatMap (pageRows symbol),
      ∃ ts, row = spyRow ts := fun symbol row hrow => by
    rw [spy_rows] at hrow
    split_ifs at hrow
    · obtain ⟨ts, -, rfl⟩ := List.mem_map.1 hrow
      exact ⟨ts, rfl⟩
    · cases hrow
  have hwindow : refuseWindow String.toUpper ["SPY"] 0 172800 = .ok () := by decide +kernel
  refine (bars_answered spyVenue_patient hwindow (spy_pages _) (by decide) (spy_pages _) (by decide) (fun symbol _ row hmem => ?_)
    fun symbol row hmem => ?_).2 (.inr fun symbol hsymbol => ?_)
  · obtain ⟨ts, rfl⟩ := hrow symbol row hmem
    exact hread ts symbol
  · obtain ⟨ts, rfl⟩ := hrow symbol row hmem
    exact ⟨(ts, 100), rfl⟩
  · obtain rfl := List.mem_singleton.1 hsymbol
    rw [spy_rows]
    simp [windowRequest]

theorem history_backfilled_spy :
    Raising.Triple (fun t => t = BarTable.empty)
      (backfillBars (ports String.toUpper spyVenue "iex" (fun _ _ _ => 0) fun _ => none) .d1 true ["SPY"] 0 172800)
      (fun _ t => t.Has "SPY" .d1 0 ∧ t.Has "SPY" .d1 86400) (fun _ _ => True) :=
  Raising.triple_conseq (history_backfilled spyVenue_steady spyVenue_keeps (fun _ _ _ => 0) (fun _ => none) ["SPY"] none
    defaultBatchSize .empty) (fun _ h => h)
    (fun _ _ h => ⟨h.whole "SPY" 0 (by simp) (by simp), h.whole "SPY" 86400 (by simp) (by simp)⟩) fun _ _ h => h

end BarPages
end Atp
