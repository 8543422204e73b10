import Mathlib.Data.Rat.Floor
import AlgoTrading.Backfill
import AlgoTrading.Router
import AlgoTrading.SimulatedBroker
/-!
# Ingestor — the live stream, and the backfill after a reconnect

`StreamIngestor` of `data/stream.py`: what it knows of the data, what an event does, and how it closes the gap a reconnect
leaves.  A clock is read in rational seconds of the epoch; a bar is stamped on a whole one.  The quote cache, the publisher
and the metrics are left out: nothing here reads them.  `onReconnect_ok` is what a reconnect does.
-/
namespace Atp
namespace Stream

open Raising Backfill

/-- `int(ts.timestamp())`. -/
def wholeSeconds (ts : ℚ) : ℤ := if 0 ≤ ts then ⌊ts⌋ else ⌈ts⌉

/-- `_floor_to_grid`. -/
def floorToGrid (ts : ℚ) (timeframe : Timeframe) : ℤ := wholeSeconds ts - wholeSeconds ts % timeframe.seconds

/-- What a frame carries. -/
inductive Message
  | quote (q : Quote)
  | bar (b : Bar)
  | trade (symbol : String)

structure FeedReconnected where
  gapSince : ℚ
  reconnectedAt : ℚ

inductive StreamEvent
  | message (m : Message)
  | feedReconnected (event : FeedReconnected)

structure IngestorStats where
  connectedSince : Option ℚ := none
  messagesReceived : ℕ := 0
  reconnects : ℕ := 0
  lastMessageAt : Option ℚ := none
  gapsBackfilled : ℕ := 0
  symbols : List String := []
  lastTickAt : Dict String ℤ := .empty
  storageWatermark : Option ℚ := none

/-- `_GapRepair`: what one reconnect's backfill achieved. -/
structure GapRepair where
  barsWritten : ℕ
  recoveredTheWindow : Bool
deriving DecidableEq

/-- `StreamIngestor`, less its ports. -/
structure StreamIngestor where
  symbols : List String
  timeframe : Timeframe := .m1
  maxReconnectBackfill : ℚ := 21600
  /-- `str.upper`. -/
  upper : String → String := String.toUpper
  /-- A kill switch is bound. -/
  killSwitch : Bool := true

/-- The ingestor while it runs: its stats, the bar table, and the halts it has engaged. -/
structure Ingest where
  stats : IngestorStats
  table : BarTable
  halts : List Engagement := []

/-- `known_good`: the later of what the table and what this process last saw. -/
def IngestorStats.knownGood (s : IngestorStats) : Option ℚ :=
  match s.storageWatermark, s.lastMessageAt with
  | some watermark, some message => some (max watermark message)
  | some watermark, none => some watermark
  | none, message => message

/-- What a frame's message does: its arrival is noted, then a quote is remembered and a bar stored. -/
def receive (p : Ports) (now : ℚ) (m : Message) : Prog Ingest Exc PUnit := do
  modify fun s => { s with stats := { s.stats with
    messagesReceived := s.stats.messagesReceived + 1
    lastMessageAt := some now } }
  match m with
  | .quote q => modify fun s => { s with stats := { s.stats with lastTickAt := s.stats.lastTickAt.set q.symbol q.ts } }
  | .bar b =>
    match p.upsertRaises [b] with
    | some exc => throw exc
    | none => modify fun s => { s with table := s.table.upsertBars [b] }
  | .trade _ => return ⟨⟩

namespace StreamIngestor

variable (w : StreamIngestor)

/-- `_symbols`. -/
def watched : List String := fromKeys w.symbols

/-- **`_read_storage_watermark`**: the close of the newest bar of any symbol, or nothing from a table that cannot be read. -/
def readStorageWatermark (readable : Bool) (table : BarTable) : Option ℚ :=
  if readable then
    ((w.watched.filterMap fun symbol => (table.lastBars symbol w.timeframe 1).getLast?.map Bar.ts).max?).map fun ts =>
      ((ts + w.timeframe.seconds : ℤ) : ℚ)
  else none

/-- **`run`, up to the subscription.** -/
def start (now : ℚ) (readable : Bool) (table : BarTable) : Except Exc Ingest :=
  if w.symbols = [] then .error ⟨.valueError, [.lit "no symbols to ingest"]⟩
  else match w.symbols.find? fun symbol => symbol ≠ w.upper symbol with
    | some symbol => .error ⟨.valueError, [.lit "symbol must be uppercase, got '", .lit symbol, .lit "'"]⟩
    | none => .ok
      { stats := { symbols := w.watched, connectedSince := some now, storageWatermark := w.readStorageWatermark readable table }
        table }

/-- `_halt`. -/
def halt (reason : HaltReason) (detail : List Piece) : Prog Ingest Exc PUnit :=
  if w.killSwitch then
    modify fun s => { s with
      halts := s.halts ++ [{ scope := .global, reason := reason, engagedBy := "stream_ingestor", detail := detail }] }
  else pure ⟨⟩

/-- Where the refetch starts: the feed's origin of the gap, or what is known good when that is earlier. -/
def refetchFrom (s : IngestorStats) (since : ℚ) : ℤ :=
  match s.knownGood with
  | none => floorToGrid since w.timeframe
  | some good => min (floorToGrid since w.timeframe) (floorToGrid good w.timeframe)

/-- No further back than `max_reconnect_backfill`. -/
def truncated (start stop : ℤ) : ℤ :=
  if (start : ℚ) < stop - w.maxReconnectBackfill then floorToGrid (stop - w.maxReconnectBackfill) w.timeframe else start

/-- **`_backfill_gap`**: nothing at all when the gap could not be closed. -/
def backfillGap (p : Ports) (since now : ℚ) : Prog Ingest Exc (Option GapRepair) := do
  let s ← get
  let stop := floorToGrid now w.timeframe
  let start := w.refetchFrom s.stats since
  if stop ≤ start then return some ⟨0, false⟩
  else do
    let start := w.truncated start stop
    let result ← within Ingest.table (fun s table => { s with table })
      (tried (backfillBars p w.timeframe false w.watched start stop))
    match result with
    | .ok r => return some ⟨r.barsWritten, r.ok && decide (0 < r.barsWritten)⟩
    | .error e =>
      if e.cls.isA .dataError then do
        w.halt .dataFeedLost [.lit "could not backfill ", .ts start, .lit " to ", .ts stop,
          .lit " after a feed reconnect — the bar history has a hole in it"]
        return none
      else throw e

/-- **`_on_reconnect`**: the watermark moves only when the window came back whole. -/
def onReconnect (p : Ports) (event : FeedReconnected) (now : ℚ) : Prog Ingest Exc PUnit := do
  modify fun s => { s with stats := { s.stats with
    reconnects := s.stats.reconnects + 1
    connectedSince := some event.reconnectedAt } }
  let repair ← w.backfillGap p event.gapSince now
  match repair with
  | none => return ⟨⟩
  | some r => do
    modify fun s => { s with stats := { s.stats with gapsBackfilled := s.stats.gapsBackfilled + r.barsWritten } }
    if r.recoveredTheWindow then
      modify fun s => { s with stats := { s.stats with storageWatermark := some event.reconnectedAt } }

/-- **`_dispatch`.** -/
def dispatch (p : Ports) (now : ℚ) : StreamEvent → Prog Ingest Exc PUnit
  | .message m => receive p now m
  | .feedReconnected event => w.onReconnect p event now

end StreamIngestor

/-! ## The grid -/

section
variable {ts : ℚ} {n t : ℤ} {timeframe : Timeframe}

theorem seconds_pos (timeframe : Timeframe) : 0 < timeframe.seconds := by cases timeframe <;> decide

theorem floorToGrid_dvd (ts : ℚ) (timeframe : Timeframe) : timeframe.seconds ∣ floorToGrid ts timeframe := Int.dvd_self_sub_emod

theorem floorToGrid_le (h : ts ≤ n) : floorToGrid ts timeframe ≤ n := by
  have hwhole : wholeSeconds ts ≤ n := by
    have hceil : ⌈ts⌉ ≤ n := Int.ceil_le.2 h
    unfold wholeSeconds
    split
    · exact (Int.floor_le_ceil ts).trans hceil
    · exact hceil
  have hmod := Int.emod_nonneg (wholeSeconds ts) (seconds_pos timeframe).ne'
  unfold floorToGrid
  omega

/-- The greatest instant of the grid that is not after. -/
theorem le_floorToGrid (hn : timeframe.seconds ∣ n) (h : (n : ℚ) ≤ ts) : n ≤ floorToGrid ts timeframe := by
  have hwhole : n ≤ wholeSeconds ts := by
    have hfloor : n ≤ ⌊ts⌋ := Int.le_floor.2 h
    unfold wholeSeconds
    split
    · exact hfloor
    · exact hfloor.trans (Int.floor_le_ceil ts)
  obtain ⟨k, rfl⟩ := hn
  have hk : k ≤ wholeSeconds ts / timeframe.seconds :=
    Int.le_ediv_of_mul_le (seconds_pos timeframe) (by rwa [mul_comm] at hwhole)
  have hmul := mul_le_mul_of_nonneg_left hk (seconds_pos timeframe).le
  have hdiv := Int.mul_ediv_add_emod (wholeSeconds ts) timeframe.seconds
  unfold floorToGrid
  omega

end

/-! ## The window a reconnect refetches -/

namespace StreamIngestor

variable {w : StreamIngestor} {s : Ingest} {since now : ℚ} {start stop t : ℤ}

theorem lt_refetchFrom_iff {stats : IngestorStats} : t < w.refetchFrom stats since ↔
    t < floorToGrid since w.timeframe ∧ ∀ good ∈ stats.knownGood, t < floorToGrid good w.timeframe := by
  unfold refetchFrom
  cases stats.knownGood with
  | none => simp
  | some good => simp

theorem refetchFrom_dvd (stats : IngestorStats) (since : ℚ) : w.timeframe.seconds ∣ w.refetchFrom stats since := by
  unfold refetchFrom
  cases stats.knownGood with
  | none => exact floorToGrid_dvd _ _
  | some good =>
    dsimp only
    rcases min_choice (floorToGrid since w.timeframe) (floorToGrid good w.timeframe) with h | h
    · rw [h]
      exact floorToGrid_dvd _ _
    · rw [h]
      exact floorToGrid_dvd _ _

theorem le_truncated (stop : ℤ) (h : w.timeframe.seconds ∣ start) : start ≤ w.truncated start stop := by
  unfold truncated
  split
  · rename_i hlt
    exact le_floorToGrid h hlt.le
  · exact le_refl _

theorem lt_truncated_iff (h : w.timeframe.seconds ∣ start) : t < w.truncated start stop ↔
    t < start ∨ t < floorToGrid (stop - w.maxReconnectBackfill) w.timeframe := by
  unfold truncated
  split
  · rename_i hlt
    exact ⟨.inr, fun hor => hor.elim (fun ht => ht.trans_le (le_floorToGrid h hlt.le)) id⟩
  · rename_i hge
    exact ⟨.inl, fun hor => hor.elim id fun ht => ht.trans_le (floorToGrid_le (not_lt.1 hge))⟩

/-- The bars a reconnect asks for again. -/
def asked (w : StreamIngestor) (s : IngestorStats) (since now : ℚ) (symbol : String) (ts : ℤ) : Prop :=
  symbol ∈ w.symbols ∧
    w.truncated (w.refetchFrom s since) (floorToGrid now w.timeframe) ≤ ts ∧ ts < floorToGrid now w.timeframe

/-- What the backfill of a gap comes to: nothing to fetch, a window fetched, or a gap that stays. -/
inductive Closes (w : StreamIngestor) (p : Ports) (since now : ℚ) (s : Ingest) : Option GapRepair → Ingest → Prop
  | skipped : floorToGrid now w.timeframe ≤ w.refetchFrom s.stats since → Closes w p since now s (some ⟨0, false⟩) s
  | fetched {result : BackfillResult} {table : BarTable} :
      exec (backfillBars p w.timeframe false w.watched
        (w.truncated (w.refetchFrom s.stats since) (floorToGrid now w.timeframe)) (floorToGrid now w.timeframe)) s.table =
          (.ok result, table) →
      Closes w p since now s (some ⟨result.barsWritten, result.ok && decide (0 < result.barsWritten)⟩) { s with table }
  | failed {t : Ingest} : t.stats = s.stats → Closes w p since now s none t

theorem halt_ok (reason : HaltReason) (detail : List Piece) (s : Ingest) :
    ∃ halts, exec (w.halt reason detail) s = (.ok ⟨⟩, { s with halts := halts }) := by
  unfold halt
  split
  · exact ⟨_, rfl⟩
  · exact ⟨s.halts, rfl⟩

theorem backfillGap_ok {repair : Option GapRepair} {t : Ingest} (h : exec (w.backfillGap p since now) s = (.ok repair, t)) :
    Closes w p since now s repair t := by
  unfold backfillGap at h
  rw [exec_bind, exec_get] at h
  dsimp only at h
  split at h
  · rename_i hskip
    cases h
    exact .skipped hskip
  · rw [exec_bind, exec_within, exec_tried] at h
    dsimp only at h
    cases hrun : exec (backfillBars p w.timeframe false w.watched
        (w.truncated (w.refetchFrom s.stats since) (floorToGrid now w.timeframe)) (floorToGrid now w.timeframe)) s.table with
    | mk outcome table =>
      rw [hrun] at h
      cases outcome with
      | ok result =>
        cases h
        exact .fetched hrun
      | error e =>
        dsimp only at h
        split at h
        · obtain ⟨halts, hhalt⟩ := halt_ok (w := w) .dataFeedLost
            [.lit "could not backfill ", .ts (w.truncated (w.refetchFrom s.stats since) (floorToGrid now w.timeframe)), .lit " to ",
              .ts (floorToGrid now w.timeframe), .lit " after a feed reconnect — the bar history has a hole in it"]
            { s with table := table }
          rw [exec_bind, hhalt] at h
          cases h
          exact .failed rfl
        · cases h

theorem Closes.stats {repair : Option GapRepair} {t : Ingest} (h : Closes w p since now s repair t) : t.stats = s.stats := by
  cases h with
  | skipped => rfl
  | fetched => rfl
  | failed h => exact h

/-- **A gap that was closed has its window re-fetched.** -/
theorem Closes.refetched {tape : String → ℤ → Prop} (hp : Honours tape w.timeframe p) {r : GapRepair} {t : Ingest}
    (h : Closes w p since now s (some r) t) : Refetched tape w.timeframe (w.asked s.stats since now) s.table t.table := by
  cases h with
  | skipped hskip =>
    refine .refl fun symbol ts hasked => ?_
    have hle := le_truncated (floorToGrid now w.timeframe) (refetchFrom_dvd (w := w) s.stats since)
    have hin := hasked.2
    omega
  | fetched hrun =>
    refine (triple_ok (backfillBars_refetched hp w.watched none defaultBatchSize s.table) rfl hrun).congr fun symbol ts => ?_
    unfold asked watched
    rw [mem_fromKeys]

/-- The stats as a reconnect is noted. -/
def reconnected (event : FeedReconnected) (stats : IngestorStats) : IngestorStats :=
  { stats with reconnects := stats.reconnects + 1, connectedSince := some event.reconnectedAt }

/-- And as its repair is: the watermark moves on a window that came back whole. -/
def repaired (event : FeedReconnected) : Option GapRepair → IngestorStats → IngestorStats
  | none, stats => stats
  | some r, stats => { stats with
      gapsBackfilled := stats.gapsBackfilled + r.barsWritten
      storageWatermark := if r.recoveredTheWindow then some event.reconnectedAt else stats.storageWatermark }

/-- **What a reconnect does.** -/
theorem onReconnect_ok {event : FeedReconnected} {t : Ingest} (h : exec (w.onReconnect p event now) s = (.ok ⟨⟩, t)) :
    ∃ repair u, exec (w.backfillGap p event.gapSince now) { s with stats := reconnected event s.stats } = (.ok repair, u) ∧
      Closes w p event.gapSince now { s with stats := reconnected event s.stats } repair u ∧
      t = { u with stats := repaired event repair u.stats } := by
  unfold onReconnect at h
  rw [exec_bind, exec_modify] at h
  dsimp only at h
  rw [exec_bind] at h
  rcases hgap : exec (w.backfillGap p event.gapSince now) { s with stats := reconnected event s.stats } with ⟨_ | repair, u⟩
  · unfold reconnected at hgap
    rw [hgap] at h
    cases h
  · unfold reconnected at hgap
    rw [hgap] at h
    refine ⟨repair, u, rfl, backfillGap_ok hgap, ?_⟩
    cases repair with
    | none =>
      cases h
      rfl
    | some r =>
      dsimp only at h
      rw [exec_bind, exec_modify] at h
      unfold repaired
      dsimp only at h ⊢
      split at h
      · rename_i hwhole
        cases h
        rw [if_pos hwhole]
      · rename_i hpart
        cases h
        rw [if_neg hpart]

end StreamIngestor
end Stream
end Atp
