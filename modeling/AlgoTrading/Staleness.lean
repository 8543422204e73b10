import AlgoTrading.Calendar
import AlgoTrading.StreamGaps
/-!
# Staleness — the watchdog of the live stream

`StalenessMonitor` of `data/stream.py` beside the stream it watches, over restarts of their process.  What is known of the data
is what a frame, a repair or the bar table said (`Known`), and an outage once declared stands until the market shuts or a frame
is current (`Declared`, `Settled`): `dead_tape_reported` is read off the two.
-/
namespace Atp
namespace Stream

open Raising Runs

/-! ## The verdict -/

/-- `:.0f`: the nearest whole number, and the even one of two. -/
def nearest (x : ℚ) : ℤ :=
  if x - ⌊x⌋ < 1 / 2 then ⌊x⌋
  else if 1 / 2 < x - ⌊x⌋ then ⌊x⌋ + 1
  else if ⌊x⌋ % 2 = 0 then ⌊x⌋
  else ⌊x⌋ + 1

structure StalenessVerdict where
  stale : Bool
  silentForSeconds : Option ℚ
  marketOpen : Bool
  dataIsCurrent : Bool
  reason : List Piece

/-- `StalenessMonitor`, less its ports. -/
structure StalenessMonitor where
  calendar : TradingCalendar
  maxSilenceSeconds : ℤ := 60
  positive : 1 ≤ maxSilenceSeconds := by decide
  /-- A kill switch is bound. -/
  killSwitch : Bool := true

/-- When data is known to have been fine: the latest witness of the data, or else the start of the process, and no sooner than
the open. -/
def IngestorStats.baseline (stats : IngestorStats) (session : Session) : ℚ :=
  (stats.knownGood.or stats.connectedSince).elim session.openAt (max session.openAt)

namespace StalenessMonitor

variable (m : StalenessMonitor)

/-- The session an instant falls in, if the market is open. -/
def openSession (now : ℚ) : Option Session :=
  (m.calendar.sessionOn (m.calendar.localDate ⌊now⌋)).filter fun s => (s.openAt : ℚ) ≤ now && now < (s.closeAt : ℚ)

/-- **`evaluate`.** -/
def evaluate (stats : IngestorStats) (now : ℚ) : StalenessVerdict :=
  match m.openSession now with
  | none =>
    { stale := false
      silentForSeconds := none
      marketOpen := false
      dataIsCurrent := false
      reason := [.lit "market is shut — silence is expected"] }
  | some session =>
    let silentFor := now - stats.baseline session
    let stale := decide ((m.maxSilenceSeconds : ℚ) < silentFor)
    let dataIsCurrent := stats.lastMessageAt.any fun newest =>
      (session.openAt : ℚ) ≤ newest && now - newest ≤ (m.maxSilenceSeconds : ℚ)
    { stale := stale
      silentForSeconds := some silentFor
      marketOpen := true
      dataIsCurrent := dataIsCurrent
      reason :=
        if stale then [.lit "no market data for ", .dec (nearest silentFor), .lit "s during the session"]
        else if dataIsCurrent then [.lit "feed is current"]
        else [.lit "no data yet this session — ", .dec (nearest silentFor), .lit "s since the open"] }

/-! ## The polls -/

/-- What a poll comes to. -/
inductive Notice
  | quiet
  | halted (engaged : Option Engagement)
  | unresolvedAtClose
  | recovered
deriving DecidableEq

/-- `_halt`: nothing is engaged where no switch is bound. -/
def halt (verdict : StalenessVerdict) : Option Engagement :=
  if m.killSwitch then
    some { scope := .global, reason := .dataFeedLost, engagedBy := "staleness_monitor", detail := verdict.reason }
  else none

/-- **`watch`**, one poll: what it comes to, and whether the outage counts as reported after it. -/
def watch (stats : IngestorStats) (now : ℚ) (alerted : Bool) : Notice × Bool :=
  let verdict := m.evaluate stats now
  if verdict.stale && !alerted then (.halted (m.halt verdict), true)
  else if !verdict.marketOpen && alerted then (.unresolvedAtClose, false)
  else if verdict.dataIsCurrent && alerted then (.recovered, false)
  else (.quiet, alerted)

end StalenessMonitor

open StalenessMonitor (Notice)

/-! ## A process and its restarts -/

/-- A bar of the watchlist is stored that closed then. -/
def Stored (w : StreamIngestor) (table : BarTable) (x : ℚ) : Prop :=
  ∃ symbol ∈ w.symbols, ∃ b ∈ table.rows symbol w.timeframe, x = ((b.ts + w.timeframe.seconds : ℤ) : ℚ)

/-- A process: its stream, and whether its watchdog has reported the outage. -/
structure Watched where
  live : Live
  alerted : Bool := false

inductive Turn
  | stream (e : Happening)
  | poll (now : ℚ) (notice : Notice)
  | restarted (now since : ℚ) (table : BarTable)

/-- **One turn**: the stream's, a poll, or a new process on a bar table that it can read and that is not empty.  A reconnect is one
turn: a poll in the middle of its backfill judges by what it judged by before. -/
inductive Step (w : StreamIngestor) (m : StalenessMonitor) (budget : ℚ) : Watched → Turn → Watched → Prop
  | stream {s : Watched} {e : Happening} {t : Live} : Act w budget s.live e t → Step w m budget s (.stream e) { s with live := t }
  | poll {s : Watched} {now : ℚ} {notice : Notice} {alerted : Bool} :
      m.watch s.live.ingest.stats now s.alerted = (notice, alerted) → Step w m budget s (.poll now notice) { s with alerted }
  | restarted {s : Watched} {now since : ℚ} {table : BarTable} {i : Ingest} : w.start now true table = .ok i →
      (∃ x, Stored w table x) → Step w m budget s (.restarted now since table) { live := ⟨{ gapSince := since }, i⟩ }

/-- A message of a frame came in then. -/
def Heard : Turn → ℚ → Prop
  | .stream (.message now _ _), x => now = x
  | _, _ => False

/-- **News of the data**: a message, a repair of the whole window, a bar stored when the process started. -/
def News (w : StreamIngestor) : Turn → ℚ → Prop
  | .stream (.message now _ _), x => now = x
  | .stream (.reconnected reconnectedAt _ _ _ repair), x => (∃ r ∈ repair, r.recoveredTheWindow = true) ∧ x = reconnectedAt
  | .restarted _ _ table, x => Stored w table x
  | _, _ => False

/-- The data-feed halt is engaged at this turn. -/
def Halts : Turn → Prop
  | .poll _ (.halted (some e)) => e.scope = .global ∧ e.reason = .dataFeedLost
  | _ => False

/-- The next outage can be reported: a poll found the market shut or a frame current, or the process is new. -/
def Rearms : Turn → Prop
  | .poll _ .unresolvedAtClose => True
  | .poll _ .recovered => True
  | .restarted _ _ _ => True
  | _ => False

section
variable {w : StreamIngestor} {m : StalenessMonitor} {budget now : ℚ} {stats : IngestorStats} {session : Session}

/-! ## What a verdict says -/

/-- What is known good is the latest of what a message and the bar table said. -/
theorem knownGood_witness {good : ℚ} (h : stats.knownGood = some good) :
    (good ∈ stats.lastMessageAt ∨ good ∈ stats.storageWatermark) ∧ ∀ x ∈ stats.lastMessageAt, x ≤ good := by
  unfold IngestorStats.knownGood at h
  split at h
  · rename_i watermark message hwatermark hmessage
    cases h
    rw [hwatermark, hmessage]
    refine ⟨?_, fun x hx => ?_⟩
    · rcases max_choice watermark message with hmax | hmax <;> simp [hmax]
    · cases hx
      exact le_max_right _ _
  · rename_i watermark hwatermark hmessage
    cases h
    rw [hwatermark, hmessage]
    exact ⟨.inr rfl, by simp⟩
  · rw [h]
    exact ⟨.inl rfl, fun x hx => (Option.some.inj hx).ge⟩

theorem StalenessMonitor.evaluate_open (h : m.openSession now = some session) :
    (m.evaluate stats now).stale = decide ((m.maxSilenceSeconds : ℚ) < now - stats.baseline session) ∧
      ((m.evaluate stats now).dataIsCurrent = stats.lastMessageAt.any fun newest =>
        (session.openAt : ℚ) ≤ newest && now - newest ≤ (m.maxSilenceSeconds : ℚ)) ∧
      (m.evaluate stats now).marketOpen = true := by
  unfold evaluate
  rw [h]
  exact ⟨rfl, rfl, rfl⟩

/-- A feed that is silent for too long, in a session that has been open for longer, is stale. -/
theorem StalenessMonitor.stale_of_silent {good : ℚ} (h : m.openSession now = some session) (hknown : stats.knownGood = some good)
    (hopen : (session.openAt : ℚ) < now - m.maxSilenceSeconds) (hgood : good < now - m.maxSilenceSeconds) :
    (m.evaluate stats now).stale = true := by
  rw [(evaluate_open h).1, decide_eq_true_eq]
  have hbase : stats.baseline session < now - m.maxSilenceSeconds := by
    unfold IngestorStats.baseline
    rw [hknown]
    exact max_lt hopen hgood
  linarith

/-- The last message of a stale feed is older than it may be. -/
theorem StalenessMonitor.old_of_stale (h : (m.evaluate stats now).stale = true) :
    ∀ x ∈ stats.lastMessageAt, x < now - m.maxSilenceSeconds := by
  intro x hx
  cases hsession : m.openSession now with
  | none =>
    unfold evaluate at h
    rw [hsession] at h
    cases h
  | some session =>
    rw [(evaluate_open hsession).1, decide_eq_true_eq] at h
    have hbase : x ≤ stats.baseline session := by
      unfold IngestorStats.baseline
      cases hknown : stats.knownGood with
      | none =>
        unfold IngestorStats.knownGood at hknown
        split at hknown <;> simp_all
      | some good => exact ((knownGood_witness hknown).2 x hx).trans (le_max_right _ _)
    linarith

theorem StalenessMonitor.recent_of_current (h : (m.evaluate stats now).dataIsCurrent = true) :
    ∃ x ∈ stats.lastMessageAt, now - m.maxSilenceSeconds ≤ x := by
  cases hsession : m.openSession now with
  | none =>
    unfold evaluate at h
    rw [hsession] at h
    cases h
  | some session =>
    rw [(evaluate_open hsession).2.1, Option.any_eq_true] at h
    obtain ⟨x, hx, hrecent⟩ := h
    simp only [Bool.and_eq_true, decide_eq_true_eq] at hrecent
    exact ⟨x, hx, by linarith [hrecent.2]⟩

/-- **What a poll can come to.** -/
theorem StalenessMonitor.watch_cases {alerted alerted' : Bool} {notice : Notice}
    (h : m.watch stats now alerted = (notice, alerted')) :
    (notice = .halted (m.halt (m.evaluate stats now)) ∧ alerted = false ∧ alerted' = true ∧ (m.evaluate stats now).stale = true) ∨
    (notice = .unresolvedAtClose ∧ alerted = true ∧ alerted' = false ∧ (m.evaluate stats now).marketOpen = false) ∨
    (notice = .recovered ∧ alerted = true ∧ alerted' = false ∧ (m.evaluate stats now).dataIsCurrent = true) ∨
    (notice = .quiet ∧ alerted' = alerted ∧ ((m.evaluate stats now).stale = true → alerted = true)) := by
  unfold watch at h
  dsimp only at h
  split at h
  · rename_i hstale
    cases h
    simp only [Bool.and_eq_true, Bool.not_eq_true'] at hstale
    exact .inl ⟨rfl, hstale.2, rfl, hstale.1⟩
  · rename_i hquiet
    split at h
    · rename_i hshut
      cases h
      simp only [Bool.and_eq_true, Bool.not_eq_true'] at hshut
      exact .inr (.inl ⟨rfl, hshut.2, rfl, hshut.1⟩)
    · split at h
      · rename_i hcurrent
        cases h
        simp only [Bool.and_eq_true] at hcurrent
        exact .inr (.inr (.inl ⟨rfl, hcurrent.2, rfl, hcurrent.1⟩))
      · cases h
        refine .inr (.inr (.inr ⟨rfl, rfl, fun hstale => ?_⟩))
        simpa [hstale] using hquiet

/-! ## What the stream says of the data -/

/-- The watermark a process starts with is the close of a stored bar, and there is one where there is a bar. -/
theorem readStorageWatermark_stored {table : BarTable} {x : ℚ} (h : w.readStorageWatermark true table = some x) : Stored w table x := by
  unfold StreamIngestor.readStorageWatermark at h
  rw [if_pos rfl, Option.map_eq_some_iff] at h
  obtain ⟨ts, hts, rfl⟩ := h
  obtain ⟨symbol, hsymbol, hlast⟩ := List.mem_filterMap.1 (List.max?_mem hts)
  obtain ⟨b, hb, rfl⟩ := Option.map_eq_some_iff.1 hlast
  have hmem := List.mem_of_getLast? hb
  unfold BarTable.lastBars at hmem
  exact ⟨symbol, Backfill.mem_fromKeys.1 hsymbol, b, (List.mem_filter.1 (List.mem_of_mem_drop hmem)).1, rfl⟩

theorem readStorageWatermark_isSome {table : BarTable} (h : ∃ x, Stored w table x) : (w.readStorageWatermark true table).isSome := by
  obtain ⟨x, symbol, hsymbol, b, hb, -⟩ := h
  have hlast : ((table.lastBars symbol w.timeframe 1).getLast?.map Bar.ts).isSome := by
    rw [Option.isSome_map]
    unfold BarTable.lastBars
    have hpos : 0 < ((table.rows symbol w.timeframe).filter fun b => (none : Option ℤ).all (· ≤ b.ts)).length :=
      List.length_pos_of_mem (List.mem_filter.2 ⟨hb, rfl⟩)
    rw [List.getLast?_drop, if_neg (by omega), List.getLast?_isSome]
    exact List.ne_nil_of_length_pos hpos
  obtain ⟨ts, hts⟩ := Option.isSome_iff_exists.1 hlast
  unfold StreamIngestor.readStorageWatermark
  rw [if_pos rfl, Option.isSome_map]
  cases hmax : (w.watched.filterMap fun symbol => (table.lastBars symbol w.timeframe 1).getLast?.map Bar.ts).max? with
  | some _ => rfl
  | none =>
    have hnil := List.filterMap_eq_nil_iff.1 (List.max?_eq_none_iff.1 hmax) symbol (Backfill.mem_fromKeys.2 hsymbol)
    rw [hts] at hnil
    cases hnil

theorem start_ok {table : BarTable} {i : Ingest} (h : w.start now true table = .ok i) :
    i.stats.lastMessageAt = none ∧ i.stats.storageWatermark = w.readStorageWatermark true table := by
  unfold StreamIngestor.start at h
  split at h
  · cases h
  · split at h
    · cases h
    · cases h
      exact ⟨rfl, rfl⟩

/-- A message leaves its own arrival as the last, and the watermark as it was. -/
theorem receive_told (p : Backfill.Ports) (at_ : ℚ) (msg : Message) (s : Ingest) :
    Triple (fun u => u = s) (receive p at_ msg)
      (fun _ u => u.stats.lastMessageAt = some at_ ∧ u.stats.storageWatermark = s.stats.storageWatermark) (fun _ _ => True) := by
  unfold receive
  refine triple_bind (R := fun _ u => u.stats.lastMessageAt = some at_ ∧ u.stats.storageWatermark = s.stats.storageWatermark)
    (triple_modify _ fun u hu => by subst hu; exact ⟨rfl, rfl⟩) fun _ => ?_
  cases msg with
  | quote q => exact triple_modify _ fun u hu => hu
  | bar b =>
    dsimp only
    split
    · exact triple_throw _ fun _ _ => trivial
    · exact triple_modify _ fun u hu => hu
  | trade symbol => exact triple_pure _ fun u hu => hu

/-- **What a turn of the stream tells of the data.** -/
theorem Act.told {s t : Live} {e : Happening} (h : Act w budget s e t) :
    (t.ingest.stats.lastMessageAt = s.ingest.stats.lastMessageAt ∨
      ∃ x, Heard (.stream e) x ∧ t.ingest.stats.lastMessageAt = some x) ∧
    (t.ingest.stats.storageWatermark = s.ingest.stats.storageWatermark ∨
      ∃ x, News w (.stream e) x ∧ t.ingest.stats.storageWatermark = some x) := by
  cases h with
  | refused => exact ⟨.inl rfl, .inl rfl⟩
  | opened => exact ⟨.inl rfl, .inl rfl⟩
  | garbled => exact ⟨.inl rfl, .inl rfl⟩
  | dropped => exact ⟨.inl rfl, .inl rfl⟩
  | received => exact ⟨.inl rfl, .inl rfl⟩
  | taken => exact ⟨.inl rfl, .inl rfl⟩
  | message _ hrun =>
    obtain ⟨hlast, hwatermark⟩ := triple_ok (receive_told _ _ _ _) rfl hrun
    exact ⟨.inr ⟨_, rfl, hlast⟩, .inl hwatermark⟩
  | @reconnected _ _ _ _ repair _ _ _ hrun hcame =>
    obtain ⟨repair', u, hgap, hcloses, rfl⟩ := StreamIngestor.onReconnect_ok hrun
    rw [hgap] at hcame
    cases hcame
    have hstats := hcloses.stats
    unfold StreamIngestor.repaired
    cases repair with
    | none =>
      dsimp only
      rw [hstats]
      exact ⟨.inl rfl, .inl rfl⟩
    | some r =>
      dsimp only
      rw [hstats]
      refine ⟨.inl rfl, ?_⟩
      split
      · rename_i hwhole
        exact .inr ⟨_, ⟨⟨r, rfl, hwhole⟩, rfl⟩, rfl⟩
      · exact .inl rfl

/-! ## What a process knows, and what it has reported -/

/-- **What a process knows of the data it was told**, and it was told something. -/
structure Known (w : StreamIngestor) (h : List Turn) (stats : IngestorStats) : Prop where
  told : ∀ x, x ∈ stats.lastMessageAt ∨ x ∈ stats.storageWatermark → ∃ e ∈ h, News w e x
  stored : stats.storageWatermark.isSome

/-- **An outage is declared**: the halt was engaged, no turn since has re-armed the watchdog, and the last message is either
older than that poll allowed or has come in since. -/
def Declared (m : StalenessMonitor) (h : List Turn) (stats : IngestorStats) : Prop :=
  ∃ before now notice after, h = before ++ .poll now notice :: after ∧ Halts (.poll now notice) ∧ (∀ e ∈ after, ¬Rearms e) ∧
    ∀ x ∈ stats.lastMessageAt, x < now - m.maxSilenceSeconds ∨ ∃ e ∈ after, Heard e x

/-- Every halt is behind a turn that re-armed the watchdog. -/
def Settled (h : List Turn) : Prop := ∀ before e after, h = before ++ e :: after → Halts e → ∃ e' ∈ after, Rearms e'

structure Accounted (w : StreamIngestor) (m : StalenessMonitor) (h : List Turn) (s : Watched) : Prop where
  known : Known w h s.live.ingest.stats
  declared : s.alerted = true → Declared m h s.live.ingest.stats
  settled : s.alerted = false → Settled h

variable {h : List Turn} {s t : Watched} {e : Turn}

theorem heard_news {x : ℚ} (hx : Heard e x) : News w e x := by
  cases e with
  | stream e =>
    cases e with
    | message => exact hx
    | reconnected => exact hx.elim
    | _ => exact hx
  | poll => exact hx
  | restarted => exact hx.elim

/-- A turn that is not a halt settles nothing anew. -/
theorem Settled.append (hs : Settled h) (he : ¬Halts e) : Settled (h ++ [e]) := by
  intro before e' after heq hhalts
  rcases List.eq_nil_or_concat' after with rfl | ⟨after, last, rfl⟩
  · obtain ⟨-, hlast⟩ := List.append_inj' heq rfl
    cases hlast
    exact absurd hhalts he
  · rw [← List.cons_append, ← List.append_assoc] at heq
    obtain ⟨heq, -⟩ := List.append_inj' heq rfl
    obtain ⟨e'', hmem, hrearms⟩ := hs before e' after heq hhalts
    exact ⟨e'', List.mem_append_left _ hmem, hrearms⟩

/-- One that re-arms settles all. -/
theorem settled_rearmed (h : List Turn) (he : Rearms e) (hhalts : ¬Halts e) : Settled (h ++ [e]) := by
  intro before e' after heq hhalts'
  rcases List.eq_nil_or_concat' after with rfl | ⟨after, last, rfl⟩
  · obtain ⟨-, hlast⟩ := List.append_inj' heq rfl
    cases hlast
    exact absurd hhalts' hhalts
  · rw [← List.cons_append, ← List.append_assoc] at heq
    obtain ⟨-, hlast⟩ := List.append_inj' heq rfl
    cases hlast
    exact ⟨e, List.mem_append_right _ (List.mem_singleton.2 rfl), he⟩

/-- A declared outage stands through a turn that does not re-arm the watchdog. -/
theorem Declared.append {stats' : IngestorStats} (hd : Declared m h stats) (he : ¬Rearms e)
    (hlast : stats'.lastMessageAt = stats.lastMessageAt ∨ ∃ x, Heard e x ∧ stats'.lastMessageAt = some x) :
    Declared m (h ++ [e]) stats' := by
  obtain ⟨before, now, notice, after, rfl, hhalts, hstands, hold⟩ := hd
  refine ⟨before, now, notice, after ++ [e], by simp, hhalts, fun e' he' => ?_, fun x hx => ?_⟩
  · rcases List.mem_append.1 he' with he' | he'
    · exact hstands e' he'
    · exact List.mem_singleton.1 he' ▸ he
  · obtain hsame | ⟨y, hy, hsome⟩ := hlast
    · rw [hsame] at hx
      exact (hold x hx).imp_right fun ⟨e', he', hheard⟩ => ⟨e', List.mem_append_left _ he', hheard⟩
    · rw [hsome] at hx
      obtain rfl : y = x := Option.some.inj hx
      exact .inr ⟨e, List.mem_append_right _ (List.mem_singleton.2 rfl), hy⟩

/-- What the stream tells is known. -/
theorem Known.append {stats' : IngestorStats} (hk : Known w h stats)
    (hlast : stats'.lastMessageAt = stats.lastMessageAt ∨ ∃ x, Heard e x ∧ stats'.lastMessageAt = some x)
    (hwatermark : stats'.storageWatermark = stats.storageWatermark ∨ ∃ x, News w e x ∧ stats'.storageWatermark = some x) :
    Known w (h ++ [e]) stats' where
  told x hx := by
    have hnew (hnews : News w e x) : ∃ e' ∈ h ++ [e], News w e' x :=
      ⟨e, List.mem_append_right _ (List.mem_singleton.2 rfl), hnews⟩
    have hbefore (hx : x ∈ stats.lastMessageAt ∨ x ∈ stats.storageWatermark) : ∃ e' ∈ h ++ [e], News w e' x := by
      obtain ⟨e', he', hnews⟩ := hk.told x hx
      exact ⟨e', List.mem_append_left _ he', hnews⟩
    obtain hx | hx := hx
    · obtain hsame | ⟨y, hy, hsome⟩ := hlast
      · exact hbefore (.inl (hsame ▸ hx))
      · obtain rfl : y = x := Option.some.inj (hsome.symm.trans hx)
        exact hnew (heard_news hy)
    · obtain hsame | ⟨y, hy, hsome⟩ := hwatermark
      · exact hbefore (.inr (hsame ▸ hx))
      · obtain rfl : y = x := Option.some.inj (hsome.symm.trans hx)
        exact hnew hy
  stored := by
    obtain hsame | ⟨y, -, hsome⟩ := hwatermark
    · rw [hsame]
      exact hk.stored
    · rw [hsome]
      rfl

/-- A new process knows what the bar table tells it, and has nothing to report. -/
theorem accounted_start {start since : ℚ} {table : BarTable} {i : Ingest} (hstart : w.start start true table = .ok i)
    (hstored : ∃ x, Stored w table x) (h : List Turn) :
    Accounted w m (h ++ [.restarted start since table]) { live := ⟨{ gapSince := since }, i⟩ } := by
  obtain ⟨hlast, hwatermark⟩ := start_ok hstart
  refine ⟨⟨fun x hx => ?_, ?_⟩, (fun halerted => by cases halerted), fun _ => settled_rearmed h trivial fun hh => hh⟩
  · rw [hlast, hwatermark] at hx
    obtain hx | hx := hx
    · cases hx
    · exact ⟨_, List.mem_append_right _ (List.mem_singleton.2 rfl), readStorageWatermark_stored hx⟩
  · rw [hwatermark]
    exact readStorageWatermark_isSome hstored

theorem halts_halt (hbound : m.killSwitch = true) (now : ℚ) (verdict : StalenessVerdict) :
    Halts (.poll now (.halted (m.halt verdict))) := by
  unfold StalenessMonitor.halt
  rw [if_pos hbound]
  exact ⟨rfl, rfl⟩

/-- **Every turn keeps the accounts.** -/
theorem Accounted.step (hbound : m.killSwitch = true) (ha : Accounted w m h s) (hstep : Step w m budget s e t) :
    Accounted w m (h ++ [e]) t := by
  cases hstep with
  | restarted hstart hstored => exact accounted_start hstart hstored h
  | stream hact =>
    obtain ⟨hlast, hwatermark⟩ := hact.told
    exact ⟨ha.known.append hlast hwatermark, fun halerted => (ha.declared halerted).append (fun hr => hr) hlast,
      fun halerted => (ha.settled halerted).append fun hh => hh⟩
  | @poll now notice alerted hwatch =>
    have hknown := ha.known.append (e := .poll now notice) (.inl rfl) (.inl rfl)
    obtain ⟨rfl, -, rfl, hstale⟩ | ⟨rfl, -, rfl, -⟩ | ⟨rfl, -, rfl, -⟩ | ⟨rfl, rfl, -⟩ :=
      StalenessMonitor.watch_cases hwatch
    · refine ⟨hknown, fun _ => ?_, fun halerted => by cases halerted⟩
      exact ⟨h, now, _, [], rfl, halts_halt hbound now _, (fun e he => by cases he),
        fun x hx => .inl (StalenessMonitor.old_of_stale hstale x hx)⟩
    · exact ⟨hknown, (fun halerted => by cases halerted), fun _ => settled_rearmed h trivial fun hh => hh⟩
    · exact ⟨hknown, (fun halerted => by cases halerted), fun _ => settled_rearmed h trivial fun hh => hh⟩
    · exact ⟨hknown, fun halerted => (ha.declared halerted).append (fun hr => hr) (.inl rfl),
        fun halerted => (ha.settled halerted).append fun hh => hh⟩

theorem Accounted.run (hbound : m.killSwitch = true) {l : List Turn} (hrun : Run (Step w m budget) s l t) :
    ∀ {h : List Turn}, Accounted w m h s → Accounted w m (h ++ l) t := by
  induction hrun with
  | nil s =>
    intro h ha
    rwa [List.append_nil]
  | @cons s t u e l hstep _ ih =>
    intro h ha
    have hnext := ih (ha.step hbound hstep)
    rwa [List.append_assoc, List.singleton_append] at hnext

/-- **What the notice of a poll says of the turns before it**: silence for too long has been reported by this process since it
was last re-armed, once, and a recovery is announced of a message that came in after the outage was declared. -/
structure Reports (w : StreamIngestor) (m : StalenessMonitor) (before : List Turn) (now : ℚ) (notice : Notice) : Prop where
  reported : ∀ session, m.openSession now = some session → (session.openAt : ℚ) < now - m.maxSilenceSeconds →
    (∀ e ∈ before, ∀ x, News w e x → x < now - m.maxSilenceSeconds) →
    ∃ a e b, before ++ [.poll now notice] = a ++ e :: b ∧ Halts e ∧ ∀ e' ∈ b, ¬Rearms e'
  once : Halts (.poll now notice) → ∀ a e b, before = a ++ e :: b → Halts e → ∃ e' ∈ b, Rearms e'
  heard : notice = .recovered → (∀ now' notice', .poll now' notice' ∈ before → now' ≤ now) →
    ∃ a now' notice' b, before = a ++ .poll now' notice' :: b ∧ Halts (.poll now' notice') ∧ (∀ e ∈ b, ¬Rearms e) ∧
      ∃ e ∈ b, ∃ x, Heard e x

/-- What is accounted for is reported. -/
theorem Accounted.reports (hbound : m.killSwitch = true) (ha : Accounted w m h s) {notice : Notice} {alerted : Bool}
    (hwatch : m.watch s.live.ingest.stats now s.alerted = (notice, alerted)) : Reports w m h now notice where
  reported session hsession hopen hsilent := by
    have hstale : (m.evaluate s.live.ingest.stats now).stale = true := by
      cases hgood : s.live.ingest.stats.knownGood with
      | none =>
        have hstored := ha.known.stored
        unfold IngestorStats.knownGood at hgood
        split at hgood <;> simp_all
      | some good =>
        obtain ⟨e, he, hnews⟩ := ha.known.told good (knownGood_witness hgood).1
        exact StalenessMonitor.stale_of_silent hsession hgood hopen (hsilent e he good hnews)
    obtain ⟨rfl, -⟩ | ⟨-, -, -, hshut⟩ | ⟨-, -, -, hcurrent⟩ | ⟨rfl, -, hquiet⟩ := StalenessMonitor.watch_cases hwatch
    · exact ⟨h, _, [], rfl, halts_halt hbound now _, fun e' he' => by cases he'⟩
    · rw [(StalenessMonitor.evaluate_open hsession).2.2] at hshut
      cases hshut
    · obtain ⟨x, hx, hrecent⟩ := StalenessMonitor.recent_of_current hcurrent
      obtain ⟨e, he, hnews⟩ := ha.known.told x (.inl hx)
      exact absurd (hsilent e he x hnews) (not_lt.2 hrecent)
    · obtain ⟨a, now', notice', b, rfl, hhalts, hstands, -⟩ := ha.declared (hquiet hstale)
      refine ⟨a, _, b ++ [.poll now .quiet], by simp, hhalts, fun e' he' => ?_⟩
      rcases List.mem_append.1 he' with he' | he'
      · exact hstands e' he'
      · rw [List.mem_singleton.1 he']
        exact fun hr => hr
  once hhalts a e b heq he := by
    obtain ⟨rfl, hwas, -⟩ | ⟨rfl, -⟩ | ⟨rfl, -⟩ | ⟨rfl, -⟩ := StalenessMonitor.watch_cases hwatch
    · exact ha.settled hwas a e b heq he
    · exact hhalts.elim
    · exact hhalts.elim
    · exact hhalts.elim
  heard hrecovered hpolls := by
    obtain ⟨rfl, -⟩ | ⟨rfl, -⟩ | ⟨-, hwas, -, hcurrent⟩ | ⟨rfl, -⟩ := StalenessMonitor.watch_cases hwatch
    · cases hrecovered
    · cases hrecovered
    · obtain ⟨a, now', notice', b, rfl, hhalts, hstands, hold⟩ := ha.declared hwas
      refine ⟨a, now', notice', b, rfl, hhalts, hstands, ?_⟩
      obtain ⟨x, hx, hrecent⟩ := StalenessMonitor.recent_of_current hcurrent
      have hle := hpolls now' notice' (List.mem_append_right _ List.mem_cons_self)
      obtain hlt | ⟨e, he, hheard⟩ := hold x hx
      · exact absurd hlt (not_lt.2 (by linarith))
      · exact ⟨e, he, x, hheard⟩
    · cases hrecovered

/-- **A dead tape is reported**, at every poll of every run of a process and of those that come after it. -/
theorem dead_tape_reported (hbound : m.killSwitch = true) {start since : ℚ} {table : BarTable} {l before after : List Turn}
    {notice : Notice} (hrun : Run (Step w m budget) s (.restarted start since table :: l) t)
    (hpoll : .restarted start since table :: l = before ++ .poll now notice :: after) : Reports w m before now notice := by
  rw [hpoll, run_append_iff] at hrun
  obtain ⟨u, hbefore, hrest⟩ := hrun
  cases before with
  | nil => cases hpoll
  | cons first before =>
    cases hpoll
    obtain ⟨v, hfirst, hbefore⟩ := run_cons_iff.1 hbefore
    obtain ⟨v', hturn, -⟩ := run_cons_iff.1 hrest
    cases hfirst with
    | restarted hstart hstored =>
      have hbooted := (accounted_start hstart hstored []).run hbound hbefore
      cases hturn with
      | poll hwatch => exact hbooted.reports hbound hwatch

end

/-! ## A poll that reports nothing -/

/-- Sessions from 50000 to 60000 of every day. -/
def afternoons : StalenessMonitor where calendar := .everyDay

def storedBar : BarTable := BarTable.empty.upsert (minuteBar 49920)

/-- Started ten seconds before the session. -/
def booted : Ingest where
  stats := { symbols := ["SPY"], connectedSince := some 49990, storageWatermark := some 49980 }
  table := storedBar

theorem booted_start : watching.start 49990 true storedBar = .ok booted := by
  have hupper : (["SPY"].find? fun symbol => symbol ≠ watching.upper symbol) = none := by decide +kernel
  have hwatermark : watching.readStorageWatermark true storedBar = some 49980 := by decide +kernel
  unfold StreamIngestor.start
  rw [if_neg (by decide), show watching.symbols = ["SPY"] from rfl, hupper, hwatermark]
  rfl

theorem storedBar_rows : storedBar.rows "SPY" .m1 = [minuteBar 49920] := by
  have hkey : ("SPY" = (minuteBar 49920).symbol ∧ Timeframe.m1 = (minuteBar 49920).timeframe) := ⟨rfl, rfl⟩
  have hplaced : (if "SPY" = (minuteBar 49920).symbol ∧ Timeframe.m1 = (minuteBar 49920).timeframe then
      place (minuteBar 49920) [] else []) = [minuteBar 49920] := if_pos hkey
  exact hplaced

theorem storedBar_stored {x : ℚ} : Stored watching storedBar x ↔ x = 49980 := by
  have hclose : (((minuteBar 49920).ts + watching.timeframe.seconds : ℤ) : ℚ) = 49980 := by
    norm_num [minuteBar, watching, Timeframe.seconds]
  constructor
  · rintro ⟨symbol, hsymbol, b, hb, rfl⟩
    obtain rfl : symbol = "SPY" := List.mem_singleton.1 hsymbol
    rw [show watching.timeframe = .m1 from rfl, storedBar_rows, List.mem_singleton] at hb
    rw [hb, hclose]
  · rintro rfl
    exact ⟨"SPY", List.mem_singleton.2 rfl, _, storedBar_rows ▸ List.mem_singleton.2 rfl, hclose.symm⟩

def repairing : Backfill.Ports := provider [49980, 50040, 50100]

/-- A repair that brings the whole window back, with no message before it or after. -/
def mended : Except Exc PUnit × Ingest := exec (watching.dispatch repairing 50200 (.feedReconnected ⟨49990, 50200⟩)) booted

def feedLost (silent : List Piece) : Engagement where
  scope := .global
  reason := .dataFeedLost
  engagedBy := "staleness_monitor"
  detail := silent

def silentFor (seconds : ℚ) : Notice :=
  .halted (some (feedLost [.lit "no market data for ", .dec seconds, .lit "s during the session"]))

/-- A feed that is dead as the session opens, and after a repair. -/
def deadTape : List Turn :=
  [.restarted 49990 49990 storedBar, .stream (.opened 49995), .poll 50010 .quiet, .poll 50070 (silentFor 70),
    .stream (.dropped 50080), .stream (.reconnected 50200 50200 50200 repairing (some ⟨3, true⟩)), .poll 50300 .quiet]

theorem deadTape_run : Run (Step watching afternoons 900) ⟨⟨{ gapSince := 0 }, booted⟩, false⟩ deadTape
    ⟨⟨{ gapSince := 49990, connectedAt := some 50200 }, mended.2⟩, true⟩ := by
  let connected : Live := ⟨{ gapSince := 49990, connectedAt := some 49995 }, booted⟩
  let lost : Live := ⟨{ gapSince := 49990, reconnecting := true }, booted⟩
  let back : Live := ⟨{ gapSince := 49990, connectedAt := some 50200 }, mended.2⟩
  have hended : connected.feed.ended 900 50080 = some lost.feed := by
    have hlong : isFlap 49995 50080 = false := by decide +kernel
    unfold Feed.ended
    rw [if_neg (by simpa [connected] using hlong)]
  have hmended : exec (watching.dispatch repairing 50200 (.feedReconnected ⟨49990, 50200⟩)) booted = (.ok ⟨⟩, mended.2) :=
    Prod.ext (by decide +kernel) rfl
  have hrepair : (exec (watching.backfillGap repairing 49990 50200)
      { booted with stats := StreamIngestor.reconnected ⟨49990, 50200⟩ booted.stats }).1 = .ok (some ⟨3, true⟩) := by
    decide +kernel
  have hopening : afternoons.watch booted.stats 50010 false = (.quiet, false) := by decide +kernel
  have hsilent : afternoons.watch booted.stats 50070 false = (silentFor 70, true) := by decide +kernel
  have hagain : afternoons.watch mended.2.stats 50300 true = (.quiet, true) := by decide +kernel
  have hboot : Step watching afternoons 900 ⟨⟨{ gapSince := 0 }, booted⟩, false⟩ (.restarted 49990 49990 storedBar)
      ⟨⟨{ gapSince := 49990 }, booted⟩, false⟩ := .restarted booted_start ⟨49980, storedBar_stored.2 rfl⟩
  have hopen : Step watching afternoons 900 ⟨⟨{ gapSince := 49990 }, booted⟩, false⟩ (.stream (.opened 49995)) ⟨connected, false⟩ :=
    .stream (.opened rfl rfl)
  have hdrop : Step watching afternoons 900 ⟨connected, true⟩ (.stream (.dropped 50080)) ⟨lost, true⟩ :=
    .stream (.dropped rfl hended)
  have hback : Step watching afternoons 900 ⟨lost, true⟩
      (.stream (.reconnected 50200 50200 50200 repairing (some ⟨3, true⟩))) ⟨back, true⟩ :=
    .stream (.reconnected rfl rfl hmended hrepair)
  exact .cons hboot (.cons hopen (.cons (.poll hopening) (.cons (.poll hsilent) (.cons hdrop (.cons hback
    (.cons (.poll hagain) (.nil _)))))))

/-- **Two polls that report nothing of a dead tape**: one in the first minute of a session, and one after a repair with no
message, of an outage that was reported before it. -/
theorem deadTape_unreported : (∃ s t, Run (Step watching afternoons 900) s deadTape t) ∧
    (∃ before after session, deadTape = before ++ .poll 50010 .quiet :: after ∧
      afternoons.openSession 50010 = some session ∧
      (∀ e ∈ before, ∀ x, News watching e x → x < max (session.openAt : ℚ) (50010 - afternoons.maxSilenceSeconds)) ∧
      ∀ e ∈ before, ¬Halts e) ∧
    ∃ before after session, deadTape = before ++ .poll 50300 .quiet :: after ∧
      afternoons.openSession 50300 = some session ∧
      (∀ e ∈ before, ∀ x, News watching e x → x < max (session.openAt : ℚ) (50300 - afternoons.maxSilenceSeconds)) ∧
      ∀ now notice, .poll now notice ∈ before → Halts (.poll now notice) → ∃ e ∈ before, ∃ x, News watching e x ∧ now < x := by
  have hstored : ∀ x : ℚ, News watching (.restarted 49990 49990 storedBar) x → x = 49980 := fun x hx => storedBar_stored.1 hx
  refine ⟨⟨_, _, deadTape_run⟩, ⟨deadTape.take 2, deadTape.drop 3, ⟨0, 50000, 60000⟩, rfl, by decide +kernel, ?_, ?_⟩,
    ⟨deadTape.take 6, [], ⟨0, 50000, 60000⟩, rfl, by decide +kernel, ?_, ?_⟩⟩
  · intro e he x hx
    simp only [deadTape, List.take_succ_cons, List.take_zero, List.mem_cons, List.not_mem_nil, or_false] at he
    obtain rfl | rfl := he
    · rw [hstored x hx]
      norm_num
    · exact hx.elim
  · intro e he
    simp only [deadTape, List.take_succ_cons, List.take_zero, List.mem_cons, List.not_mem_nil, or_false] at he
    obtain rfl | rfl := he <;> exact fun hh => hh
  · intro e he x hx
    simp only [deadTape, List.take_succ_cons, List.take_zero, List.mem_cons, List.not_mem_nil, or_false] at he
    obtain rfl | rfl | rfl | rfl | rfl | rfl := he
    · rw [hstored x hx]
      norm_num
    · exact hx.elim
    · exact hx.elim
    · exact hx.elim
    · exact hx.elim
    · rw [hx.2]
      norm_num [afternoons]
  · intro now notice hmem _
    have hnow : now < 50200 := by
      simp only [deadTape, List.take_succ_cons, List.take_zero, List.mem_cons, List.not_mem_nil, or_false, Turn.poll.injEq,
        reduceCtorEq, false_or] at hmem
      obtain ⟨rfl, -⟩ | ⟨rfl, -⟩ := hmem <;> norm_num
    exact ⟨.stream (.reconnected 50200 50200 50200 repairing (some ⟨3, true⟩)), by simp [deadTape], 50200, ⟨⟨_, rfl, rfl⟩, rfl⟩, hnow⟩

/-- What the poll that halts says of the two turns before it. -/
theorem dead_tape_reported_halt : Reports watching afternoons (deadTape.take 3) 50070 (silentFor 70) :=
  dead_tape_reported rfl deadTape_run rfl

end Stream
end Atp
