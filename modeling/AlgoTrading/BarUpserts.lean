import AlgoTrading.BackfillRequests
import Mathlib.Data.List.ReduceOption
/-!
# BarUpserts — the `bars` table, a statement at a time

From `persistence/bars.py`: the rows `upsert_bars` writes, the columns it merges, the statements it writes them in and the
transaction around them.  `foldl_put` says what a run of versions leaves of a key; `upsertBatches_iff` says when the
statements leave the same.
-/
namespace Atp
namespace Upserts

open Raising

/-! ## The table -/

/-- A bar with all its columns. -/
structure PrintedBar extends Bar where
  vwap : Option ℚ := none
  tradeCount : Option ℤ := none

/-- The natural key, `(symbol, timeframe, ts)`. -/
structure BarKey where
  symbol : String
  timeframe : Timeframe
  ts : ℤ
deriving DecidableEq

/-- The other columns of a `BarRow`. -/
structure BarColumns where
  «open» : ℚ
  high : ℚ
  low : ℚ
  close : ℚ
  volume : ℚ
  adjClose : Option ℚ
  vwap : Option ℚ
  tradeCount : Option ℤ
deriving DecidableEq

structure BarRow where
  key : BarKey
  columns : BarColumns

/-- `_to_row`. -/
def toRow (bar : PrintedBar) : BarRow where
  key := ⟨bar.symbol, bar.timeframe, bar.ts⟩
  columns := ⟨bar.open, bar.high, bar.low, bar.close, bar.volume, bar.adjClose, bar.vwap, bar.tradeCount⟩

/-- The table: one row a key. -/
abbrev BarRows := BarKey → Option BarColumns

/-- **`ON CONFLICT … DO UPDATE SET`**: the proposed prices, and `COALESCE(excluded.c, c)` for the columns a raw fetch lacks. -/
def BarColumns.onConflict (excluded existing : BarColumns) : BarColumns :=
  { excluded with
    adjClose := excluded.adjClose.or existing.adjClose
    vwap := excluded.vwap.or existing.vwap
    tradeCount := excluded.tradeCount.or existing.tradeCount }

/-- A row inserted, or the row of its key updated. -/
def BarRows.put (table : BarRows) (row : BarRow) : BarRows :=
  Function.update table row.key (some ((table row.key).elim row.columns row.columns.onConflict))

/-! ## What a run of versions leaves -/

section
variable {α : Type}

/-- The last value that is not null, or the one there was. -/
def lastSome (before : Option α) (values : List (Option α)) : Option α := values.reduceOption.getLast?.or before

theorem lastSome_cons (before value : Option α) (values : List (Option α)) :
    lastSome before (value :: values) = lastSome (value.or before) values := by
  unfold lastSome
  cases value with
  | none => rw [List.reduceOption_cons_of_none, Option.none_or]
  | some a =>
    rw [List.reduceOption_cons_of_some, List.getLast?_cons, Option.some_or]
    cases values.reduceOption.getLast? <;> rfl

theorem lastSome_again (before : Option α) (values : List (Option α)) :
    lastSome (lastSome before values) values = lastSome before values := by
  unfold lastSome
  cases values.reduceOption.getLast? <;> rfl

end

/-- **What is kept of a key's versions**: the last one's prices and volume, and of each other column the last value that
is not null. -/
def kept (stored : Option BarColumns) (versions : List BarColumns) : Option BarColumns :=
  versions.getLast?.elim stored fun last => some { last with
    adjClose := lastSome (stored.bind BarColumns.adjClose) (versions.map BarColumns.adjClose)
    vwap := lastSome (stored.bind BarColumns.vwap) (versions.map BarColumns.vwap)
    tradeCount := lastSome (stored.bind BarColumns.tradeCount) (versions.map BarColumns.tradeCount) }

/-- The versions of a key, in the order given. -/
def versionsOf (key : BarKey) (rows : List BarRow) : List BarColumns := (rows.filter (·.key = key)).map BarRow.columns

section
variable {key : BarKey} {table : BarRows} {rows : List BarRow}

theorem kept_cons (stored : Option BarColumns) (v : BarColumns) (versions : List BarColumns) :
    kept stored (v :: versions) = kept (some (stored.elim v v.onConflict)) versions := by
  unfold kept
  rw [List.getLast?_cons, List.map_cons, List.map_cons, List.map_cons, lastSome_cons, lastSome_cons, lastSome_cons]
  cases hlast : versions.getLast? with
  | none =>
    obtain rfl := List.getLast?_eq_none_iff.1 hlast
    cases stored <;> simp [lastSome, BarColumns.onConflict]
  | some last => cases stored <;> simp [BarColumns.onConflict]

theorem kept_again (stored : Option BarColumns) (versions : List BarColumns) :
    kept (kept stored versions) versions = kept stored versions := by
  unfold kept
  cases versions.getLast? with
  | none => rfl
  | some last => simp only [Option.elim_some, Option.bind_some, lastSome_again]

/-- **One at a time, the last prices win and the last value of each other column is kept.** -/
theorem foldl_put : ∀ (rows : List BarRow) (table : BarRows) (key : BarKey),
    rows.foldl .put table key = kept (table key) (versionsOf key rows)
  | [], table, key => rfl
  | row :: rows, table, key => by
    rw [List.foldl_cons, foldl_put rows]
    unfold BarRows.put versionsOf
    by_cases h : row.key = key
    · subst h
      rw [Function.update_self, List.filter_cons_of_pos (by simp), List.map_cons, kept_cons]
    · rw [Function.update_of_ne (Ne.symm h), List.filter_cons_of_neg (by simpa using h)]

/-- Writing the list again changes nothing. -/
theorem foldl_put_again (rows : List BarRow) (table : BarRows) : rows.foldl .put (rows.foldl .put table) = rows.foldl .put table := by
  ext1 key
  rw [foldl_put, foldl_put, kept_again]

end

/-! ## The statements -/

/-- What PostgreSQL answers a statement that proposes one key twice. -/
def secondTime : Exc := ⟨.exception, [.lit "ON CONFLICT DO UPDATE command cannot affect row a second time"]⟩

/-- No key is proposed twice. -/
def Distinct (rows : List BarRow) : Prop := (rows.map BarRow.key).Nodup

instance : DecidablePred Distinct := fun rows => inferInstanceAs (Decidable (rows.map BarRow.key).Nodup)

/-- `INSERT … VALUES … ON CONFLICT (symbol, timeframe, ts) DO UPDATE`. -/
def insertOnConflict (rows : List BarRow) (table : BarRows) : Except Exc BarRows :=
  if Distinct rows then .ok (rows.foldl .put table) else .error secondTime

/-- `_UPSERT_CHUNK_ROWS`. -/
def upsertChunkRows : ℕ := 2000

/-- The rows of one call, a statement each `_UPSERT_CHUNK_ROWS` of them. -/
def chunks (bars : List PrintedBar) : List (List BarRow) := slices (bars.map toRow) upsertChunkRows

/-- The statements of a transaction, with the rows written so far. -/
def execute : List (List BarRow) → BarRows → ℕ → Except Exc (BarRows × ℕ)
  | [], table, written => .ok (table, written)
  | chunk :: rest, table, written => do
    let table ← insertOnConflict chunk table
    execute rest table (written + chunk.length)

/-- **`upsert_bars`**: committed whole, or rolled back. -/
def upsertBars (bars : List PrintedBar) : Prog BarRows Exc ℕ := do
  if bars.isEmpty then return 0
  else
    let table ← get
    let (table, written) ← fromExcept (execute (chunks bars) table 0)
    set table
    return written

/-- One call a batch, in the order given. -/
def upsertBatches : List (List PrintedBar) → Prog BarRows Exc ℕ
  | [] => return 0
  | bars :: rest => do
    let written ← upsertBars bars
    let more ← upsertBatches rest
    return written + more

section

theorem execute_eq : ∀ (l : List (List BarRow)) (table : BarRows) (written : ℕ), execute l table written =
    if ∀ chunk ∈ l, Distinct chunk then .ok (l.flatten.foldl .put table, written + l.flatten.length) else .error secondTime
  | [], table, written => by simp [execute]
  | chunk :: rest, table, written => by
    unfold execute insertOnConflict
    by_cases h : Distinct chunk
    · rw [if_pos h]
      show execute rest _ _ = _
      rw [execute_eq rest]
      simp only [List.forall_mem_cons, h, true_and, List.flatten_cons, List.foldl_append, List.length_append, Nat.add_assoc]
    · rw [if_neg h, if_neg fun hall => h (hall chunk List.mem_cons_self)]
      rfl

theorem flatten_chunks (bars : List PrintedBar) : (chunks bars).flatten = bars.map toRow := flatten_slices (by decide)

/-- **One call**: the fold of its rows, where no statement of it proposes a key twice, and otherwise nothing. -/
theorem exec_upsertBars (bars : List PrintedBar) (table : BarRows) : exec (upsertBars bars) table =
    if ∀ chunk ∈ chunks bars, Distinct chunk then (.ok bars.length, (bars.map toRow).foldl .put table) else (.error secondTime, table) := by
  unfold upsertBars
  by_cases hnil : bars.isEmpty
  · obtain rfl := List.isEmpty_iff.1 hnil
    rw [if_pos (show ([] : List PrintedBar).isEmpty = true from rfl), if_pos (by simp [chunks, slices, upsertChunkRows])]
    rfl
  · rw [if_neg hnil, exec_bind, exec_get]
    dsimp only
    rw [exec_bind, exec_fromExcept, execute_eq, flatten_chunks]
    by_cases h : ∀ chunk ∈ chunks bars, Distinct chunk
    · rw [if_pos h, if_pos h]
      dsimp only
      rw [exec_bind, exec_set, Nat.zero_add, List.length_map]
      rfl
    · rw [if_neg h, if_neg h]

theorem upsertBatches_ok : ∀ {batches : List (List PrintedBar)}, (∀ bars ∈ batches, ∀ chunk ∈ chunks bars, Distinct chunk) →
    ∀ table : BarRows, exec (upsertBatches batches) table =
      (.ok batches.flatten.length, (batches.flatten.map toRow).foldl .put table)
  | [], _, table => rfl
  | bars :: rest, h, table => by
    obtain ⟨hbars, hrest⟩ := List.forall_mem_cons.1 h
    unfold upsertBatches
    rw [exec_bind, exec_upsertBars, if_pos hbars]
    dsimp only
    rw [exec_bind, upsertBatches_ok hrest]
    simp only [exec_pure, List.flatten_cons, List.length_append, List.map_append, List.foldl_append]

theorem upsertBatches_raises : ∀ {batches : List (List PrintedBar)}, ¬(∀ bars ∈ batches, ∀ chunk ∈ chunks bars, Distinct chunk) →
    ∀ table : BarRows, (exec (upsertBatches batches) table).1 = .error secondTime
  | [], h, table => absurd (by simp) h
  | bars :: rest, h, table => by
    unfold upsertBatches
    rw [exec_bind, exec_upsertBars]
    by_cases hbars : ∀ chunk ∈ chunks bars, Distinct chunk
    · have hrest : ¬∀ bars ∈ rest, ∀ chunk ∈ chunks bars, Distinct chunk := fun hrest => h (List.forall_mem_cons.2 ⟨hbars, hrest⟩)
      rw [if_pos hbars]
      dsimp only
      rw [exec_bind]
      have ih := upsertBatches_raises hrest ((bars.map toRow).foldl .put table)
      rcases hexec : exec (upsertBatches rest) ((bars.map toRow).foldl .put table) with ⟨r, t⟩
      rw [hexec] at ih
      subst ih
      rfl
    · rw [if_neg hbars]

end

/-- **Batched upserts are the fold of their bars exactly where no statement holds a key twice**: then every call succeeds,
what is stored is what one bar at a time leaves, whatever the batches, and the same bars again change nothing. -/
theorem upsertBatches_iff (batches : List (List PrintedBar)) (table : BarRows) :
    let rows := batches.flatten.map toRow
    let folded := rows.foldl .put table
    (∀ key, folded key = kept (table key) (versionsOf key rows)) ∧
    (exec (upsertBatches batches) table = (.ok rows.length, folded) ∧
        exec (upsertBatches batches) folded = (.ok rows.length, folded) ↔
      ∀ bars ∈ batches, ∀ chunk ∈ chunks bars, Distinct chunk) := by
  intro rows folded
  refine ⟨foldl_put rows table, fun h => ?_, fun h => ?_⟩
  · by_contra hnot
    have hraises := upsertBatches_raises hnot table
    rw [h.1] at hraises
    cases hraises
  · have hlength : rows.length = batches.flatten.length := List.length_map _
    rw [upsertBatches_ok h, upsertBatches_ok h, hlength]
    exact ⟨rfl, Prod.ext rfl (foldl_put_again rows table)⟩

/-- A minute bar, and a second version of it with its adjusted close. -/
def version (close : ℚ) (adjClose : Option ℚ) (hclose : 0 ≤ close ∧ close ≤ 100) : PrintedBar where
  symbol := "SPY"
  ts := 0
  timeframe := .m1
  «open» := 10
  high := 100
  low := 0
  close := close
  volume := 100
  adjClose := adjClose
  openInside := by norm_num
  closeInside := hclose

def first : PrintedBar := version 10 (some 5) (by norm_num)

def second : PrintedBar := version 11 none (by norm_num)

/-- **Two versions of a bar in one call**: the call raises and stores neither, where a call for each stores both. -/
theorem version_twice :
    (exec (upsertBatches [[first, second]]) fun _ => none).1 = .error secondTime ∧
      (exec (upsertBatches [[first, second]]) fun _ => none).2 ⟨"SPY", .m1, 0⟩ = none ∧
      (exec (upsertBatches [[first], [second]]) fun _ => none).1 = .ok 2 ∧
      ((exec (upsertBatches [[first], [second]]) fun _ => none).2 ⟨"SPY", .m1, 0⟩).map
        (fun c => (c.close, c.adjClose)) = some (11, some 5) := by
  refine ⟨?_, ?_, ?_, ?_⟩ <;> decide +kernel

end Upserts
end Atp
