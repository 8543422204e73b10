import AlgoTrading.BarFeed
/-!
# Backfill — re-fetching a range of history

From `data/backfill.py`: the windows and batches a range is asked for in, what a batch with an empty symbol costs, and
`backfill_bars` over the bar table.  The provider and the repository's failures are parameters.  `Honours` is what the
provider promises of the tape; `backfillBars_refetched` is what the table holds for it afterwards.
-/
namespace Atp

open Raising

/-- A row of that key is stored. -/
def BarTable.Has (table : BarTable) (symbol : String) (timeframe : Timeframe) (ts : ℤ) : Prop :=
  ts ∈ (table.rows symbol timeframe).map Bar.ts

instance (table : BarTable) (symbol : String) (timeframe : Timeframe) (ts : ℤ) : Decidable (table.Has symbol timeframe ts) :=
  inferInstanceAs (Decidable (_ ∈ _))

theorem BarTable.has_upsert {table : BarTable} {bar : Bar} {symbol : String} {timeframe : Timeframe} {ts : ℤ} :
    (table.upsert bar).Has symbol timeframe ts ↔
      (symbol = bar.symbol ∧ timeframe = bar.timeframe ∧ ts = bar.ts) ∨ table.Has symbol timeframe ts := by
  unfold Has upsert
  dsimp only
  split
  · rename_i h
    rw [place_ts]
    simp [h.1, h.2]
  · rename_i h
    refine ⟨.inr, fun hts => hts.resolve_left fun heq => h ⟨heq.1, heq.2.1⟩⟩

/-- **`upsert_bars`.** -/
def BarTable.upsertBars (table : BarTable) (bars : List Bar) : BarTable := bars.foldl .upsert table

theorem BarTable.has_upsertBars {symbol : String} {timeframe : Timeframe} {ts : ℤ} : ∀ {bars : List Bar} {table : BarTable},
    (table.upsertBars bars).Has symbol timeframe ts ↔
      (∃ b ∈ bars, symbol = b.symbol ∧ timeframe = b.timeframe ∧ ts = b.ts) ∨ table.Has symbol timeframe ts
  | [], table => by simp [upsertBars]
  | b :: bars, table => by
    show ((table.upsert b).upsertBars bars).Has symbol timeframe ts ↔ _
    rw [has_upsertBars, has_upsert, ← or_assoc, List.exists_mem_cons_iff]
    exact or_congr_left or_comm

namespace Backfill

/-! ## The range -/

/-- `_WINDOW_DAYS`. -/
def windowDaysFor : Timeframe → ℤ
  | .m1 => 30
  | .m5 => 120
  | .m15 => 365
  | .m30 => 365
  | .h1 => 730
  | .h4 => 1825
  | .d1 => 3650

/-- `DEFAULT_BATCH_SIZE`. -/
def defaultBatchSize : ℤ := 20

/-- `tuple(dict.fromkeys(symbols))`: each once, in the order given. -/
def fromKeys (symbols : List String) : List String := symbols.reverse.dedup.reverse

theorem mem_fromKeys {symbols : List String} {symbol : String} : symbol ∈ fromKeys symbols ↔ symbol ∈ symbols := by
  rw [fromKeys, List.mem_reverse, List.mem_dedup, List.mem_reverse]

/-- `timedelta.max.days`. -/
def maxDays : ℤ := 999999999

/-- `datetime.max`, to the second. -/
def latestInstant : ℤ := 253402300799

/-- What the windows of a generator are, and what it raises after them, if anything. -/
structure Windows where
  yielded : List (ℤ × ℤ) := []
  raised : Option Exc := none
deriving DecidableEq

def Windows.cons (w : ℤ × ℤ) (rest : Windows) : Windows := { rest with yielded := w :: rest.yielded }

/-- The loop of `iter_windows`: the step is added before it is cut to the end, and `latest` is as far as it adds. -/
def windowsFrom (latest step stop : ℤ) : ℕ → ℤ → Windows
  | 0, _ => {}
  | fuel + 1, cursor =>
    if cursor < stop then
      if latest < cursor + step then { raised := some ⟨.exception, [.lit "date value out of range"]⟩ }
      else (windowsFrom latest step stop fuel (min (cursor + step) stop)).cons (cursor, min (cursor + step) stop)
    else {}

/-- What `timedelta` says of more days than it holds. -/
def tooManyDays (days : ℤ) : List Piece :=
  if days ≤ 2147483647 then [.lit "days=", .ts days, .lit "; must have magnitude <= ", .ts maxDays]
  else [.lit "Python int too large to convert to C int"]

/-- **`iter_windows`**, of instants counted `day` to a day and up to `latest`.  Each window is an instant long at least, so there
are no more of them than instants. -/
def windowsIn (day latest start stop windowDays : ℤ) : Windows :=
  if windowDays < 1 then { raised := some ⟨.valueError, [.lit "window_days must be at least 1, got ", .ts windowDays]⟩ }
  else if maxDays < windowDays then { raised := some ⟨.exception, tooManyDays windowDays⟩ }
  else windowsFrom latest (windowDays * day) stop (stop - start).toNat start

/-- **`iter_windows`**, in seconds. -/
def iterWindows (start stop windowDays : ℤ) : Windows := windowsIn 86400 latestInstant start stop windowDays

/-- **`_batches`**: `symbols[i : i + size]` for each `i` in steps of `size`. -/
def batches (symbols : List String) (size : ℕ) : List (List String) :=
  (List.range ((symbols.length + size - 1) / size)).map fun i => (symbols.drop (i * size)).take size

section
variable {latest step start stop t : ℤ}

/-- **The windows cover the range, and nothing else**, where none raised. -/
theorem mem_windowsFrom (hstep : 0 < step) : ∀ {fuel : ℕ} {cursor : ℤ}, stop - cursor ≤ fuel →
    (windowsFrom latest step stop fuel cursor).raised = none →
      ((∃ w ∈ (windowsFrom latest step stop fuel cursor).yielded, w.1 ≤ t ∧ t < w.2) ↔ cursor ≤ t ∧ t < stop)
  | 0, cursor, h, _ => by
    simp only [windowsFrom, List.not_mem_nil, false_and, exists_false, false_iff]
    omega
  | fuel + 1, cursor, h, hraised => by
    unfold windowsFrom at hraised ⊢
    split_ifs at hraised ⊢ with hlt hlate
    · unfold Windows.cons at hraised ⊢
      dsimp only at hraised ⊢
      rw [List.exists_mem_cons_iff, mem_windowsFrom hstep (by omega) hraised]
      dsimp only
      omega
    · simp only [List.not_mem_nil, false_and, exists_false, false_iff]
      omega

theorem mem_iterWindows {windowDays : ℤ} (hraised : (iterWindows start stop windowDays).raised = none) :
    (∃ w ∈ (iterWindows start stop windowDays).yielded, w.1 ≤ t ∧ t < w.2) ↔ start ≤ t ∧ t < stop := by
  unfold iterWindows windowsIn at hraised ⊢
  split_ifs at hraised ⊢
  exact mem_windowsFrom (by omega) (Int.self_le_toNat _) hraised

/-- **Every symbol is asked for.** -/
theorem mem_batches {symbols : List String} {size : ℕ} (hsize : 0 < size) {symbol : String} :
    (∃ batch ∈ batches symbols size, symbol ∈ batch) ↔ symbol ∈ symbols := by
  constructor
  · rintro ⟨batch, hbatch, hsymbol⟩
    obtain ⟨i, -, rfl⟩ := List.mem_map.1 hbatch
    exact List.mem_of_mem_drop (List.mem_of_mem_take hsymbol)
  · intro h
    obtain ⟨i, hi, rfl⟩ := List.mem_iff_getElem.1 h
    have hlow : i / size * size ≤ i := Nat.div_mul_le_self i size
    have hhigh : i < i / size * size + size := Nat.lt_div_mul_add hsize
    refine ⟨_, List.mem_map.2 ⟨i / size, ?_, rfl⟩, ?_⟩
    · rw [List.mem_range, Nat.lt_div_iff_mul_lt hsize]
      omega
    · refine List.mem_iff_getElem.2 ⟨i - i / size * size, ?_, ?_⟩
      · rw [List.length_take, List.length_drop]
        omega
      · rw [List.getElem_take, List.getElem_drop]
        congr 1
        omega

end

/-! ## Asking -/

/-- The provider's `get_bars`, what a write of some rows raises, if anything, and `str.upper`. -/
structure Ports where
  getBars : List String → Timeframe → ℤ → ℤ → Bool → Except Exc (Dict String (List Bar))
  upsertRaises : List Bar → Option Exc := fun _ => none
  upper : String → String := String.toUpper

/-- A window a symbol returned nothing for. -/
structure EmptyWindow where
  symbol : String
  start : ℤ
  stop : ℤ
deriving DecidableEq

structure BackfillResult where
  symbols : List String
  barsWritten : ℕ := 0
  windows : ℕ := 0
  requests : ℕ := 0
  emptyWindows : List EmptyWindow := []
deriving DecidableEq

/-- Every symbol returned data for every window asked for. -/
def BackfillResult.ok (r : BackfillResult) : Bool := r.emptyWindows.isEmpty

/-- What `_fetch_window` returns: the bars, the symbols with none, the requests it took. -/
structure Fetched where
  bars : Dict String (List Bar)
  missing : List String := []
  used : ℕ

section
variable (p : Ports) (timeframe : Timeframe) (start stop : ℤ) (adjusted : Bool)

/-- One symbol at a time, to find out which were empty. -/
def isolate : List String → Fetched → Except Exc Fetched
  | [], f => .ok f
  | symbol :: rest, f =>
    match p.getBars [symbol] timeframe start stop adjusted with
    | .ok found => isolate rest { f with bars := f.bars.update found }
    | .error e => if e.cls.isA .dataGapError then isolate rest { f with missing := f.missing ++ [symbol] } else .error e

/-- **`_fetch_window`.** -/
def fetchWindow (symbols : List String) : Except Exc Fetched :=
  match p.getBars symbols timeframe start stop adjusted with
  | .ok bars => .ok { bars, used := 1 }
  | .error e =>
    if e.cls.isA .dataGapError then isolate p timeframe start stop adjusted symbols { bars := .empty, used := 1 + symbols.length }
    else .error e

/-- One window, a batch at a time: what came back of it is written, if anything did. -/
def storeBatches : List (List String) → BackfillResult → Prog BarTable Exc BackfillResult
  | [], r => return r
  | batch :: rest, r => do
    let fetched ← fromExcept (fetchWindow p timeframe start stop adjusted batch)
    let flat := fetched.bars.values.flatten
    let r := { r with
      requests := r.requests + fetched.used
      emptyWindows := r.emptyWindows ++ fetched.missing.map fun symbol => ⟨symbol, start, stop⟩ }
    if flat.isEmpty then storeBatches rest r
    else match p.upsertRaises flat with
      | some exc => throw exc
      | none =>
        modify fun table => table.upsertBars flat
        storeBatches rest { r with barsWritten := r.barsWritten + flat.length }

end

section
variable (p : Ports) (timeframe : Timeframe) (adjusted : Bool)

def storeWindows (asked : List (List String)) : List (ℤ × ℤ) → BackfillResult → Prog BarTable Exc BackfillResult
  | [], r => return r
  | w :: rest, r => do
    let r ← storeBatches p timeframe w.1 w.2 adjusted asked { r with windows := r.windows + 1 }
    storeWindows asked rest r

/-- What `backfill_bars` refuses: no symbols, a range that is none, a symbol that is not uppercase. -/
def refuseRange (symbols : List String) (start stop : ℤ) : Except Exc Unit :=
  if symbols.isEmpty then .error ⟨.valueError, [.lit "no symbols to backfill"]⟩
  else if stop ≤ start then
    .error ⟨.valueError, [.lit "start must be before end, got start=", .ts start, .lit " end=", .ts stop]⟩
  else match symbols.find? fun symbol => symbol ≠ p.upper symbol with
    | some symbol => .error ⟨.valueError, [.lit "symbol must be uppercase, got '", .lit symbol, .lit "'"]⟩
    | none => .ok ()

/-- **`backfill_bars`**.  The windows are fetched as they are yielded, and a batch is first taken in the first of them. -/
def backfillBars (symbols : List String) (start stop : ℤ) (windowDays : Option ℤ := none) (batchSize : ℤ := defaultBatchSize) :
    Prog BarTable Exc BackfillResult := do
  fromExcept (refuseRange p symbols start stop)
  let windows := iterWindows start stop (windowDays.getD (windowDaysFor timeframe))
  let ordered := fromKeys symbols
  if batchSize < 1 ∧ windows.yielded ≠ [] then
    throw ⟨.valueError, [.lit "batch_size must be at least 1, got ", .ts batchSize]⟩
  else
    let r ← storeWindows p timeframe adjusted (batches ordered batchSize.toNat) windows.yielded { symbols := ordered }
    match windows.raised with
    | some exc => throw exc
    | none => return r

end

/-! ## What the table holds afterwards -/

/-- **What the provider promises of the tape**: every bar of the window asked for, of every symbol asked for and no other,
none from outside the window, and a gap only where a symbol has none. -/
structure Honours (tape : String → ℤ → Prop) (timeframe : Timeframe) (p : Ports) : Prop where
  whole : ∀ {symbols start stop adjusted bars}, p.getBars symbols timeframe start stop adjusted = .ok bars →
    ∀ symbol ∈ symbols, ∀ ts, tape symbol ts → start ≤ ts → ts < stop →
      ∃ series, bars.get? symbol = some series ∧ ∃ b ∈ series, b.symbol = symbol ∧ b.timeframe = timeframe ∧ b.ts = ts
  keyed : ∀ {symbols start stop adjusted bars}, p.getBars symbols timeframe start stop adjusted = .ok bars →
    ∀ symbol series, bars.get? symbol = some series → symbol ∈ symbols ∧ ∀ b ∈ series, start ≤ b.ts ∧ b.ts < stop
  gap : ∀ {symbol start stop adjusted e}, p.getBars [symbol] timeframe start stop adjusted = .error e →
    e.cls.isA .dataGapError = true → ∀ ts, tape symbol ts → start ≤ ts → stop ≤ ts

/-- **The table with a range re-fetched**: nothing lost, the tape's bars of the range stored, and nothing new from outside
the range. -/
structure Refetched (tape : String → ℤ → Prop) (timeframe : Timeframe) (asked : String → ℤ → Prop) (before after : BarTable) :
    Prop where
  kept : ∀ symbol tf ts, before.Has symbol tf ts → after.Has symbol tf ts
  whole : ∀ symbol ts, tape symbol ts → asked symbol ts → after.Has symbol timeframe ts
  within : ∀ symbol tf ts, after.Has symbol tf ts → before.Has symbol tf ts ∨ ∃ symbol, asked symbol ts

section
variable {tape : String → ℤ → Prop} {timeframe : Timeframe} {asked asked' : String → ℤ → Prop} {t t' t'' : BarTable}

theorem Refetched.refl (h : ∀ symbol ts, ¬asked symbol ts) : Refetched tape timeframe asked t t where
  kept _ _ _ hts := hts
  whole symbol ts _ hasked := absurd hasked (h symbol ts)
  within _ _ _ hts := .inl hts

/-- One range after the other. -/
theorem Refetched.trans (h : Refetched tape timeframe asked t t') (h' : Refetched tape timeframe asked' t' t'') :
    Refetched tape timeframe (fun symbol ts => asked symbol ts ∨ asked' symbol ts) t t'' where
  kept symbol tf ts hts := h'.kept _ _ _ (h.kept symbol tf ts hts)
  whole symbol ts htape hasked := by
    obtain hasked | hasked := hasked
    · exact h'.kept _ _ _ (h.whole symbol ts htape hasked)
    · exact h'.whole symbol ts htape hasked
  within symbol tf ts hts := by
    obtain hts | ⟨s, hs⟩ := h'.within symbol tf ts hts
    · exact (h.within symbol tf ts hts).imp_right fun ⟨s, hs⟩ => ⟨s, .inl hs⟩
    · exact .inr ⟨s, .inr hs⟩

theorem Refetched.congr (h : Refetched tape timeframe asked t t') (hiff : ∀ symbol ts, asked symbol ts ↔ asked' symbol ts) :
    Refetched tape timeframe asked' t t' := by
  have heq : asked = asked' := funext fun symbol => funext fun ts => propext (hiff symbol ts)
  exact heq ▸ h

/-- **An answer to what was asked**: the tape's bars of it, and no others' instants. -/
structure Answers (tape : String → ℤ → Prop) (timeframe : Timeframe) (asked : String → ℤ → Prop)
    (bars : Dict String (List Bar)) : Prop where
  whole : ∀ symbol ts, tape symbol ts → asked symbol ts →
    ∃ series, bars.get? symbol = some series ∧ ∃ b ∈ series, b.symbol = symbol ∧ b.timeframe = timeframe ∧ b.ts = ts
  keyed : ∀ symbol series, bars.get? symbol = some series → ∀ b ∈ series, asked symbol b.ts

/-- **What is written of an answer.** -/
theorem Answers.refetched {bars : Dict String (List Bar)} (h : Answers tape timeframe asked bars) :
    Refetched tape timeframe asked t (t.upsertBars bars.values.flatten) where
  kept symbol tf ts hts := BarTable.has_upsertBars.2 (.inr hts)
  whole symbol ts htape hasked := by
    obtain ⟨series, hseries, b, hb, rfl, rfl, rfl⟩ := h.whole symbol ts htape hasked
    have hflat : b ∈ bars.values.flatten := List.mem_flatten.2 ⟨series, (bars.mem_values_iff series).2 ⟨_, hseries⟩, hb⟩
    exact BarTable.has_upsertBars.2 (.inl ⟨b, hflat, rfl, rfl, rfl⟩)
  within symbol tf ts hts := by
    obtain ⟨b, hb, rfl, rfl, rfl⟩ | hts := BarTable.has_upsertBars.1 hts
    · obtain ⟨series, hseries, hb⟩ := List.mem_flatten.1 hb
      obtain ⟨key, hkey⟩ := (bars.mem_values_iff series).1 hseries
      exact .inr ⟨key, h.keyed key series hkey b hb⟩
    · exact .inl hts

variable {p : Ports} {start stop : ℤ} {adjusted : Bool}

theorem isolate_answers (hp : Honours tape timeframe p) : ∀ {symbols done : List String} {f f' : Fetched},
    Answers tape timeframe (fun symbol ts => symbol ∈ done ∧ start ≤ ts ∧ ts < stop) f.bars →
    isolate p timeframe start stop adjusted symbols f = .ok f' →
    Answers tape timeframe (fun symbol ts => (symbol ∈ done ∨ symbol ∈ symbols) ∧ start ≤ ts ∧ ts < stop) f'.bars
  | [], done, f, f', h, hf => by
    unfold isolate at hf
    cases hf
    simpa using h
  | symbol :: rest, done, f, f', h, hf => by
    have hdone : ∀ s, (s ∈ done ++ [symbol] ∨ s ∈ rest) ↔ (s ∈ done ∨ s ∈ symbol :: rest) := fun s => by
      rw [List.mem_append, List.mem_singleton, List.mem_cons, or_assoc]
    simp only [← hdone]
    unfold isolate at hf
    split at hf
    · rename_i found hfound
      refine isolate_answers hp ⟨fun s ts htape hasked => ?_, fun s series hs b hb => ?_⟩ hf
      · dsimp only
        rw [Dict.get?_update]
        by_cases hs : s = symbol
        · obtain ⟨series, hseries, hb⟩ := hp.whole hfound s (by simp [hs]) ts htape hasked.2.1 hasked.2.2
          exact ⟨series, by rw [hseries]; rfl, hb⟩
        · have hnone : found.get? s = none := by
            cases hg : found.get? s with
            | none => rfl
            | some series => exact absurd (List.mem_singleton.1 (hp.keyed hfound s series hg).1) hs
          rw [hnone, Option.none_or]
          have hmem : s ∈ done := by
            have := hasked.1
            simpa [hs] using this
          exact h.whole s ts htape ⟨hmem, hasked.2⟩
      · dsimp only at hs
        rw [Dict.get?_update, Option.or_eq_some_iff] at hs
        obtain hs | ⟨-, hs⟩ := hs
        · obtain ⟨hs, hin⟩ := hp.keyed hfound s series hs
          exact ⟨List.mem_append.2 (.inr hs), hin b hb⟩
        · have := h.keyed s series hs b hb
          exact ⟨List.mem_append.2 (.inl this.1), this.2⟩
    · rename_i e he
      split at hf
      · rename_i hgap
        refine isolate_answers hp ⟨fun s ts htape hasked => ?_, fun s series hs b hb => ?_⟩ hf
        · by_cases hs : s = symbol
          · have := hp.gap he hgap ts (hs ▸ htape) hasked.2.1
            omega
          · have hmem : s ∈ done := by
              have := hasked.1
              simpa [hs] using this
            exact h.whole s ts htape ⟨hmem, hasked.2⟩
        · have := h.keyed s series hs b hb
          exact ⟨List.mem_append.2 (.inl this.1), this.2⟩
      · cases hf

/-- **What one window and batch fetches answers it**, asked for whole or a symbol at a time. -/
theorem fetchWindow_answers (hp : Honours tape timeframe p) {symbols : List String} {f : Fetched}
    (hf : fetchWindow p timeframe start stop adjusted symbols = .ok f) :
    Answers tape timeframe (fun symbol ts => symbol ∈ symbols ∧ start ≤ ts ∧ ts < stop) f.bars := by
  unfold fetchWindow at hf
  split at hf
  · rename_i bars hbars
    cases hf
    exact ⟨fun s ts htape hasked => hp.whole hbars s hasked.1 ts htape hasked.2.1 hasked.2.2,
      fun s series hs b hb => ⟨(hp.keyed hbars s series hs).1, (hp.keyed hbars s series hs).2 b hb⟩⟩
  · split at hf
    · have hempty : Answers tape timeframe (fun symbol ts => symbol ∈ ([] : List String) ∧ start ≤ ts ∧ ts < stop) .empty :=
        ⟨fun _ _ _ hasked => absurd hasked.1 List.not_mem_nil, fun _ _ hs => by cases hs⟩
      simpa using isolate_answers hp hempty hf
    · cases hf

theorem storeBatches_refetched (hp : Honours tape timeframe p) : ∀ (asked : List (List String)) (r : BackfillResult) (t : BarTable),
    Triple (fun t' => t' = t) (storeBatches p timeframe start stop adjusted asked r)
      (fun _ t' => Refetched tape timeframe (fun symbol ts => (∃ batch ∈ asked, symbol ∈ batch) ∧ start ≤ ts ∧ ts < stop) t t')
      (fun _ _ => True)
  | [], r, t => triple_pure _ fun t' ht => ht ▸ .refl (by simp)
  | batch :: rest, r, t => by
    have hrest (r : BackfillResult) : Triple
        (fun t' => Refetched tape timeframe (fun symbol ts => symbol ∈ batch ∧ start ≤ ts ∧ ts < stop) t t')
        (storeBatches p timeframe start stop adjusted rest r)
        (fun _ t' => Refetched tape timeframe
          (fun symbol ts => (∃ batch' ∈ batch :: rest, symbol ∈ batch') ∧ start ≤ ts ∧ ts < stop) t t')
        (fun _ _ => True) := by
      refine triple_at fun t' ht' => ?_
      refine triple_conseq (storeBatches_refetched hp rest r t') (fun _ h => h) (fun _ t'' h => ?_) fun _ _ h => h
      refine (ht'.trans h).congr fun symbol ts => ?_
      rw [List.exists_mem_cons_iff, ← or_and_right]
    unfold storeBatches
    refine triple_bind (R := fun f t' => t' = t ∧ fetchWindow p timeframe start stop adjusted batch = .ok f)
      (triple_fromExcept _ (fun f hf t' ht => ⟨ht, hf⟩) fun _ _ _ _ => trivial) fun f => ?_
    have hwritten (t' : BarTable) (h : t' = t ∧ fetchWindow p timeframe start stop adjusted batch = .ok f) :
        Refetched tape timeframe (fun symbol ts => symbol ∈ batch ∧ start ≤ ts ∧ ts < stop) t
          (t'.upsertBars f.bars.values.flatten) := by
      obtain ⟨rfl, hf⟩ := h
      exact (fetchWindow_answers hp hf).refetched
    dsimp only
    refine triple_ite (fun hflat => ?_) fun _ => ?_
    · -- nothing came back, and nothing is written
      refine triple_conseq (hrest _) (fun t' ht => ?_) (fun _ _ h => h) fun _ _ h => h
      have h := hwritten t' ht
      rwa [List.isEmpty_iff.1 hflat] at h
    · split
      · exact triple_throw _ fun _ _ => trivial
      · exact triple_bind (triple_modify _ hwritten) fun _ => hrest _

theorem storeWindows_refetched (hp : Honours tape timeframe p) (asked : List (List String)) :
    ∀ (windows : List (ℤ × ℤ)) (r : BackfillResult) (t : BarTable),
    Triple (fun t' => t' = t) (storeWindows p timeframe adjusted asked windows r)
      (fun _ t' => Refetched tape timeframe
        (fun symbol ts => (∃ batch ∈ asked, symbol ∈ batch) ∧ ∃ w ∈ windows, w.1 ≤ ts ∧ ts < w.2) t t')
      (fun _ _ => True)
  | [], r, t => triple_pure _ fun t' ht => ht ▸ .refl (by simp)
  | w :: rest, r, t => by
    unfold storeWindows
    refine triple_bind (storeBatches_refetched hp asked _ t) fun r' => triple_at fun t' ht' => ?_
    refine triple_conseq (storeWindows_refetched hp asked rest r' t') (fun _ h => h) (fun _ t'' h => ?_) fun _ _ h => h
    refine (ht'.trans h).congr fun symbol ts => ?_
    rw [List.exists_mem_cons_iff, ← and_or_left]

/-- **A backfill that returns has the range**: every bar of the tape in it is stored, and it wrote nothing else. -/
theorem backfillBars_refetched (hp : Honours tape timeframe p) (symbols : List String) (windowDays : Option ℤ) (batchSize : ℤ)
    (t : BarTable) : Triple (fun t' => t' = t) (backfillBars p timeframe adjusted symbols start stop windowDays batchSize)
      (fun _ t' => Refetched tape timeframe (fun symbol ts => symbol ∈ symbols ∧ start ≤ ts ∧ ts < stop) t t')
      (fun _ _ => True) := by
  unfold backfillBars
  refine triple_bind (R := fun _ t' => t' = t) (triple_fromExcept _ (fun _ _ _ h => h) fun _ _ _ _ => trivial) fun _ => ?_
  refine triple_ite (fun _ => triple_throw _ fun _ _ => trivial) fun hsize => ?_
  refine triple_bind (storeWindows_refetched hp _ _ _ t) fun r => ?_
  cases hraised : (iterWindows start stop (windowDays.getD (windowDaysFor timeframe))).raised with
  | some exc => exact triple_throw _ fun _ _ => trivial
  | none =>
    refine triple_pure _ fun t' h => h.congr fun symbol ts => ?_
    rw [mem_iterWindows hraised]
    refine and_congr_left fun hts => ?_
    have hsome : (iterWindows start stop (windowDays.getD (windowDaysFor timeframe))).yielded ≠ [] := fun hnil => by
      have hin := (mem_iterWindows hraised).2 hts
      rw [hnil] at hin
      simp at hin
    rw [mem_batches (by by_contra hnot; exact hsize ⟨by omega, hsome⟩), mem_fromKeys]

end

end Backfill
end Atp
