import AlgoTrading.Ingestor
import AlgoTrading.Runs
/-!
# StreamGaps — the feed's reconnects, and the bars they leave missing

`AlpacaRealtimeFeed._stream` between a socket and `StreamIngestor`.  A gap is taken to start where the last frame came in, and
a bar that had closed by then may still have been on its way: `reconnects_whole_iff` says that nothing else is ever missed.
The number of attempts paces the waits and is logged, and is left out.
-/
namespace Atp
namespace Stream

open Raising Backfill Runs

/-! ## The feed -/

/-- `is_flap`, at a `MIN_HEALTHY_UPTIME_SECONDS` of half a minute. -/
def isFlap (connectedAt now : ℚ) : Bool := now - connectedAt < 30

/-- `budget_exhausted`. -/
def budgetExhausted (firstFailureAt now budget : ℚ) : Bool := budget ≤ now - firstFailureAt

/-- What `_stream` holds while it waits.  `connectedAt` is when the connection that is open was established, and `inFrame` while
the events of a frame are being taken. -/
structure Feed where
  gapSince : ℚ
  lastMessageAt : Option ℚ := none
  reconnecting : Bool := false
  firstFailureAt : Option ℚ := none
  connectedAt : Option ℚ := none
  inFrame : Bool := false

namespace Feed

/-- A failed attempt, until the budget is spent. -/
def failed (budget now : ℚ) (f : Feed) : Option Feed :=
  let since := f.firstFailureAt.getD now
  if budgetExhausted since now budget then none
  else some { f with firstFailureAt := some since, reconnecting := true, connectedAt := none }

/-- A connection has ended: one too short to have been one counts as a failed attempt. -/
def ended (budget now : ℚ) (f : Feed) : Option Feed :=
  if f.connectedAt.any (isFlap · now) then f.failed budget now
  else some { f with firstFailureAt := none, reconnecting := true, connectedAt := none }

def opened (connectedAt : ℚ) (f : Feed) : Feed := { f with reconnecting := false, connectedAt := some connectedAt }

/-- A frame that parses, before its events are taken. -/
def received (receivedAt : ℚ) (f : Feed) : Feed := { f with lastMessageAt := some receivedAt, inFrame := true }

/-- Its events have all been taken: the data is known good up to it. -/
def taken (f : Feed) : Feed := { f with gapSince := f.lastMessageAt.getD f.gapSince, inFrame := false }

/-- The stream waits for a frame. -/
def listening (f : Feed) : Bool := f.connectedAt.isSome && !f.inFrame

end Feed

/-! ## The stream and its ingestor -/

structure Live where
  feed : Feed
  ingest : Ingest

/-- What happens to a live stream, with what the clock read: a refused connection, the first one, a reconnect and what its
backfill came to, a frame, a message of it, the end of it, a frame that does not parse, and a drop. -/
inductive Happening
  | refused (now : ℚ)
  | opened (connectedAt : ℚ)
  | reconnected (reconnectedAt now connectedAt : ℚ) (p : Ports) (repair : Option GapRepair)
  | received (receivedAt : ℚ)
  | message (now : ℚ) (p : Ports) (m : Message)
  | taken
  | garbled (receivedAt now : ℚ)
  | dropped (now : ℚ)

/-- **One turn of `_stream`**, with what the ingestor makes of what it yields. -/
inductive Act (w : StreamIngestor) (budget : ℚ) : Live → Happening → Live → Prop
  | refused {s : Live} {now : ℚ} {f : Feed} : s.feed.connectedAt = none → s.feed.failed budget now = some f →
      Act w budget s (.refused now) { s with feed := f }
  | opened {s : Live} {connectedAt : ℚ} : s.feed.connectedAt = none → s.feed.reconnecting = false →
      Act w budget s (.opened connectedAt) { s with feed := s.feed.opened connectedAt }
  | reconnected {s : Live} {reconnectedAt now connectedAt : ℚ} {p : Ports} {repair : Option GapRepair} {i : Ingest} :
      s.feed.connectedAt = none → s.feed.reconnecting = true →
      exec (w.dispatch p now (.feedReconnected ⟨s.feed.gapSince, reconnectedAt⟩)) s.ingest = (.ok ⟨⟩, i) →
      (exec (w.backfillGap p s.feed.gapSince now)
        { s.ingest with stats := StreamIngestor.reconnected ⟨s.feed.gapSince, reconnectedAt⟩ s.ingest.stats }).1 = .ok repair →
      Act w budget s (.reconnected reconnectedAt now connectedAt p repair) ⟨s.feed.opened connectedAt, i⟩
  | received {s : Live} {receivedAt : ℚ} : s.feed.listening = true →
      Act w budget s (.received receivedAt) { s with feed := s.feed.received receivedAt }
  | message {s : Live} {now : ℚ} {p : Ports} {m : Message} {i : Ingest} : s.feed.inFrame = true →
      exec (w.dispatch p now (.message m)) s.ingest = (.ok ⟨⟩, i) → Act w budget s (.message now p m) { s with ingest := i }
  | taken {s : Live} : s.feed.inFrame = true → Act w budget s .taken { s with feed := s.feed.taken }
  | garbled {s : Live} {receivedAt now : ℚ} {f : Feed} : s.feed.listening = true →
      ({ s.feed with lastMessageAt := some receivedAt } : Feed).ended budget now = some f →
      Act w budget s (.garbled receivedAt now) { s with feed := f }
  | dropped {s : Live} {now : ℚ} {f : Feed} : s.feed.listening = true → s.feed.ended budget now = some f →
      Act w budget s (.dropped now) { s with feed := f }

/-! ## What a reconnect leaves missing -/

/-- The bars there are: a bar opens on the grid of its timeframe. -/
structure Tape (timeframe : Timeframe) where
  prints : String → ℤ → Prop
  grid : ∀ {symbol ts}, prints symbol ts → timeframe.seconds ∣ ts

section
variable (w : StreamIngestor) (tape : Tape w.timeframe) (started : ℚ)

/-- A bar closes at or before the grid instant of `at_`. -/
def ClosedBy (at_ : ℚ) (ts : ℤ) : Prop := ts + w.timeframe.seconds ≤ floorToGrid at_ w.timeframe

instance (at_ : ℚ) (ts : ℤ) : Decidable (ClosedBy w at_ ts) := inferInstanceAs (Decidable (_ ≤ _))

/-- **No hole**: every bar of the watchlist that opened after the stream started, and has closed by `now`, is stored. -/
def Whole (now : ℚ) (table : BarTable) : Prop :=
  ∀ symbol ∈ w.symbols, ∀ ts, tape.prints symbol ts → started < ts → ClosedBy w now ts → table.Has symbol w.timeframe ts

/-- **Nothing is still on its way**: every such bar is stored that had closed when the last frame came in, and when data was
last known good or further back than a backfill goes. -/
def CaughtUp (now : ℚ) (s : Live) : Prop :=
  ∀ symbol ∈ w.symbols, ∀ ts, tape.prints symbol ts → started < ts → ClosedBy w now ts → ClosedBy w s.feed.gapSince ts →
    ((∀ good ∈ s.ingest.stats.knownGood, ClosedBy w good ts) ∨
      ClosedBy w (floorToGrid now w.timeframe - w.maxReconnectBackfill) ts) →
    s.ingest.table.Has symbol w.timeframe ts

/-- A reconnect whose backfill succeeds, from a provider that returns what it has, after an outage no longer than one goes. -/
def Mends (s : Live) (now : ℚ) (p : Ports) (repair : Option GapRepair) : Prop :=
  repair.isSome ∧ Honours tape.prints w.timeframe p ∧ floorToGrid now w.timeframe - s.feed.gapSince < w.maxReconnectBackfill

def LeavesWhole (s : Live) : Happening → Live → Prop
  | .reconnected _ now _ p repair, t => Mends w tape s now p repair → Whole w tape started now t.ingest.table
  | _, _ => True

def FindsCaughtUp (s : Live) : Happening → Prop
  | .reconnected _ now _ p repair => Mends w tape s now p repair → CaughtUp w tape started now s
  | _ => True

end

section
variable {w : StreamIngestor} {tape : Tape w.timeframe} {started now since : ℚ} {ts : ℤ}

theorem closedBy_iff (hgrid : w.timeframe.seconds ∣ ts) {at_ : ℚ} : ClosedBy w at_ ts ↔ ts < floorToGrid at_ w.timeframe := by
  obtain ⟨k, rfl⟩ := hgrid
  obtain ⟨m, hm⟩ := floorToGrid_dvd at_ w.timeframe
  have hpos := seconds_pos w.timeframe
  unfold ClosedBy
  rw [hm, show w.timeframe.seconds * k + w.timeframe.seconds = w.timeframe.seconds * (k + 1) by ring,
    mul_le_mul_iff_right₀ hpos, mul_lt_mul_iff_right₀ hpos, Int.add_one_le_iff]

theorem floorToGrid_mono {a b : ℚ} (h : a ≤ b) (timeframe : Timeframe) : floorToGrid a timeframe ≤ floorToGrid b timeframe := by
  have hwhole : wholeSeconds a ≤ wholeSeconds b := by
    unfold wholeSeconds
    split <;> split
    · exact Int.floor_le_floor h
    · rename_i ha hb
      exact absurd (ha.trans h) hb
    · rename_i ha hb
      exact (Int.ceil_le.2 (by simpa using (not_le.1 ha).le)).trans (Int.floor_nonneg.2 hb)
    · exact Int.ceil_le_ceil h
  have hpos := seconds_pos timeframe
  have hdiv := Int.mul_le_mul_of_nonneg_left (Int.ediv_le_ediv hpos hwhole) hpos.le
  have ha := Int.mul_ediv_add_emod (wholeSeconds a) timeframe.seconds
  have hb := Int.mul_ediv_add_emod (wholeSeconds b) timeframe.seconds
  unfold floorToGrid
  omega

/-- **What a refetch does not reach**, after an outage that is not too long. -/
theorem unasked_iff (hgrid : w.timeframe.seconds ∣ ts) (stats : IngestorStats) 
    (houtage : floorToGrid now w.timeframe - since < w.maxReconnectBackfill) :
    ts < w.truncated (w.refetchFrom stats since) (floorToGrid now w.timeframe) ↔
      ClosedBy w since ts ∧ ((∀ good ∈ stats.knownGood, ClosedBy w good ts) ∨
        ClosedBy w (floorToGrid now w.timeframe - w.maxReconnectBackfill) ts) := by
  rw [StreamIngestor.lt_truncated_iff (StreamIngestor.refetchFrom_dvd stats since), StreamIngestor.lt_refetchFrom_iff]
  simp only [closedBy_iff hgrid]
  have hold (h : ts < floorToGrid (floorToGrid now w.timeframe - w.maxReconnectBackfill) w.timeframe) :
      ts < floorToGrid since w.timeframe := h.trans_le (floorToGrid_mono (by linarith) w.timeframe)
  constructor
  · rintro (⟨hsince, hgood⟩ | hfar)
    · exact ⟨hsince, .inl hgood⟩
    · exact ⟨hold hfar, .inr hfar⟩
  · rintro ⟨hsince, hgood | hfar⟩
    · exact .inl ⟨hsince, hgood⟩
    · exact .inr hfar

/-- **A backfill that succeeds leaves a hole exactly where a bar was still on its way.** -/
theorem whole_iff {s : Live} {t : BarTable} (houtage : floorToGrid now w.timeframe - s.feed.gapSince < w.maxReconnectBackfill)
    (h : Refetched tape.prints w.timeframe (w.asked s.ingest.stats s.feed.gapSince now) s.ingest.table t) :
    Whole w tape started now t ↔ CaughtUp w tape started now s := by
  constructor
  · intro hwhole symbol hsymbol ts hprints hstarted hclosed hsince hgood
    have hbefore := (unasked_iff (tape.grid hprints) s.ingest.stats houtage).2 ⟨hsince, hgood⟩
    obtain hhas | ⟨other, -, hasked, -⟩ := h.within _ _ _ (hwhole symbol hsymbol ts hprints hstarted hclosed)
    · exact hhas
    · exact absurd hbefore (not_lt.2 hasked)
  · intro hcaught symbol hsymbol ts hprints hstarted hclosed
    rcases lt_or_ge ts (w.truncated (w.refetchFrom s.ingest.stats s.feed.gapSince) (floorToGrid now w.timeframe)) with hlt | hge
    · obtain ⟨hsince, hgood⟩ := (unasked_iff (tape.grid hprints) s.ingest.stats houtage).1 hlt
      exact h.kept _ _ _ (hcaught symbol hsymbol ts hprints hstarted hclosed hsince hgood)
    · exact h.whole symbol ts hprints ⟨hsymbol, hge, (closedBy_iff (tape.grid hprints)).1 hclosed⟩

/-- One turn of the stream leaves no hole exactly when it finds nothing on its way. -/
theorem Act.leavesWhole_iff {budget : ℚ} {s t : Live} {e : Happening} (h : Act w budget s e t) :
    LeavesWhole w tape started s e t ↔ FindsCaughtUp w tape started s e := by
  cases h with
  | reconnected _ _ hrun hcame =>
    refine forall_congr' fun hmends => ?_
    obtain ⟨repair', u, hgap, hcloses, rfl⟩ := StreamIngestor.onReconnect_ok hrun
    rw [hgap] at hcame
    cases hcame
    obtain ⟨r, rfl⟩ := Option.isSome_iff_exists.1 hmends.1
    exact whole_iff hmends.2.2 (hcloses.refetched hmends.2.1)
  | refused => exact Iff.rfl
  | opened => exact Iff.rfl
  | received => exact Iff.rfl
  | message => exact Iff.rfl
  | taken => exact Iff.rfl
  | garbled => exact Iff.rfl
  | dropped => exact Iff.rfl

/-- **A reconnect leaves no hole in a run** exactly when each of them finds that no bar was still on its way. -/
theorem reconnects_whole_iff (w : StreamIngestor) (tape : Tape w.timeframe) (started budget : ℚ) (s t : Live) (l : List Happening) :
    Run (fun s e t => Act w budget s e t ∧ LeavesWhole w tape started s e t) s l t ↔
      Run (guarded (Act w budget) (FindsCaughtUp w tape started)) s l t := by
  constructor
  · exact run_mono fun s e t h => ⟨h.1, h.1.leavesWhole_iff.1 h.2⟩
  · exact run_mono fun s e t h => ⟨h.1, h.1.leavesWhole_iff.2 h.2⟩

end

/-! ## A bar on its way -/

def minuteBar (ts : ℤ) : Bar where
  symbol := "SPY"
  timeframe := .m1
  ts := ts
  «open» := 10
  high := 10
  low := 10
  close := 10
  volume := 1
  openInside := by norm_num
  closeInside := by norm_num

/-- A tape of two minutes. -/
def twoMinutes : Tape .m1 where
  prints symbol ts := symbol = "SPY" ∧ (ts = 60 ∨ ts = 120)
  grid := by
    rintro symbol ts ⟨-, rfl | rfl⟩ <;> decide

/-- A provider that has these minutes. -/
def provider (minutes : List ℤ) : Ports where
  getBars symbols _ start stop _ :=
    .ok (if "SPY" ∈ symbols then Dict.empty.set "SPY" ((minutes.map minuteBar).filter fun b => start ≤ b.ts && b.ts < stop)
      else .empty)

theorem provider_honours : Honours twoMinutes.prints .m1 (provider [60, 120]) where
  whole h symbol hsymbol ts hts hstart hstop := by
    obtain ⟨rfl, hts⟩ := hts
    cases h
    rw [if_pos hsymbol]
    refine ⟨_, Dict.get?_set_self _ _ _, minuteBar ts, ?_, rfl, rfl, rfl⟩
    rcases hts with rfl | rfl <;> simp [minuteBar, hstart, hstop]
  keyed h symbol series hseries := by
    cases h
    split at hseries
    · rename_i hspy
      rw [Dict.get?_set] at hseries
      split at hseries
      · rename_i hsymbol
        cases hseries
        refine ⟨hsymbol ▸ hspy, fun b hb => ?_⟩
        simpa using (List.mem_filter.1 hb).2
      · cases hseries
    · cases hseries
  gap h := by cases h

def watching : StreamIngestor where symbols := ["SPY"]

/-- A quote of the third minute. -/
def lateQuote : Message := .quote { symbol := "SPY", ts := 121, bid := 10, ask := 10 }

/-- Started on an empty table at the epoch, and the quote taken. -/
def quoted : Ingest :=
  { stats :=
      { symbols := ["SPY"]
        connectedSince := some 0
        messagesReceived := 1
        lastMessageAt := some 121
        lastTickAt := Dict.empty.set "SPY" 121 }
    table := .empty }

/-- **The bar of the second minute closed a second before the last quote, and is not refetched.** -/
theorem bar_on_its_way :
    ∃ begun s t, watching.start 0 true .empty = .ok begun ∧
      Run (Act watching 900) ⟨{ gapSince := 0 }, begun⟩
        [.opened 0, .received 121, .message 121 (provider []) lateQuote, .taken, .dropped 122] s ∧
      Act watching 900 s (.reconnected 200 200 200 (provider [60, 120]) (some ⟨1, true⟩)) t ∧
      Mends watching twoMinutes s 200 (provider [60, 120]) (some ⟨1, true⟩) ∧ ¬Whole watching twoMinutes 0 200 t.ingest.table := by
  let begun : Ingest := { stats := { symbols := ["SPY"], connectedSince := some 0 }, table := .empty }
  let dropped : Live := ⟨{ gapSince := 121, lastMessageAt := some 121, reconnecting := true }, quoted⟩
  have hstart : watching.start 0 true .empty = .ok begun := by
    have hupper : (["SPY"].find? fun symbol => symbol ≠ watching.upper symbol) = none := by decide +kernel
    unfold StreamIngestor.start
    rw [if_neg (by decide), show watching.symbols = ["SPY"] from rfl, hupper]
    rfl
  have hended : ((({ gapSince := 0 } : Feed).opened 0).received 121).taken.ended 900 122 = some dropped.feed := by
    have hlong : isFlap 0 122 = false := by decide +kernel
    unfold Feed.ended
    rw [if_neg (by simpa [Feed.opened, Feed.received, Feed.taken] using hlong)]
    rfl
  have hrun : exec (watching.dispatch (provider [60, 120]) 200 (.feedReconnected ⟨121, 200⟩)) quoted =
      (.ok ⟨⟩, (exec (watching.dispatch (provider [60, 120]) 200 (.feedReconnected ⟨121, 200⟩)) quoted).2) :=
    Prod.ext (by decide +kernel) rfl
  refine ⟨begun, dropped, _, hstart, ?_, .reconnected rfl rfl hrun ?_, ?_, ?_⟩
  · exact .cons (.opened rfl rfl) (.cons (.received rfl) (.cons (.message rfl rfl) (.cons (.taken rfl)
      (.cons (.dropped rfl hended) (.nil _)))))
  · decide +kernel
  · refine ⟨rfl, provider_honours, ?_⟩
    decide +kernel
  · intro hwhole
    have hhas := hwhole "SPY" (by decide) 60 ⟨rfl, .inl rfl⟩ (by norm_num) (by decide +kernel)
    revert hhas
    decide +kernel

end Stream
end Atp
