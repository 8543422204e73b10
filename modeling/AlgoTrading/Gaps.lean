import AlgoTrading.Backfill
import AlgoTrading.Calendar
import AlgoTrading.Lookahead
import AlgoTrading.Sorting
/-!
# Gaps — which bars a calendar expects, and which of them are missing

`data/gaps.py`: the expected windows of a range, the one pass that merges them with the stored timestamps, and the range those
are read from; with `find_gaps` over the bar table.  `scanGaps_windows` is the pass in closed form: the runs of the expected
windows that no stored timestamp falls in.
-/
namespace Atp
namespace Gaps

/-- A half-open window. -/
abbrev Window := ℤ × ℤ

def Inside (w : Window) (ts : ℤ) : Prop := w.1 ≤ ts ∧ ts < w.2

instance (w : Window) (ts : ℤ) : Decidable (Inside w ts) := inferInstanceAs (Decidable (_ ∧ _))

/-- `SUPPORTED_TIMEFRAMES`. -/
def supported : Timeframe → Bool
  | .m1 | .m5 | .m15 | .m30 | .d1 => true
  | .h1 | .h4 => false

/-- `require_supported`. -/
def requireSupported (timeframe : Timeframe) : Except Exc Unit :=
  if supported timeframe then .ok ()
  else
    .error ⟨.valueError, [.lit "gap detection does not support ", .lit (Backtest.Timeframe.label timeframe),
      .lit " bars: a ", .lit (Backtest.Timeframe.label timeframe),
      .lit (" grid does not divide a 390-minute session, and the vendor's alignment for the remainder is unverified. " ++
        "Supported: 1m, 5m, 15m, 30m, 1d")]⟩

/-- The slots of a session: as many whole steps from its open as fit before its close. -/
def slots (s : Session) (step : ℤ) : List Window :=
  (List.range ((s.closeAt - s.openAt) / step).toNat).map fun i : ℕ => (s.openAt + i * step, s.openAt + i * step + step)

/-- **`expected_windows`**, of a range that is one and a timeframe that is supported. -/
def expectedWindows (cal : TradingCalendar) (timeframe : Timeframe) (start stop : ℤ) : List Window :=
  let sessions := cal.sessions (cal.localDate start - 1) (cal.localDate stop + 1)
  if timeframe = .d1 then
    sessions.filterMap fun s =>
      let bounds := cal.dayBounds s.day
      if start ≤ bounds.1 ∧ s.closeAt ≤ stop then some bounds else none
  else
    sessions.flatMap fun s => (slots s timeframe.seconds).filter fun w => start ≤ w.1 ∧ w.2 ≤ stop

/-- `GapScan`. -/
structure GapScan where
  windows : List Window
  expected : ℕ
  missing : ℕ
  matched : ℕ
  unmatched : ℕ

/-- Where the scan stands: what it has counted, the run of missing windows it is in, and the timestamps it has not passed. -/
structure Scanning where
  found : GapScan
  run : Option Window
  rest : List ℤ

def Scanning.start (present : List ℤ) : Scanning := ⟨⟨[], 0, 0, 0, 0⟩, none, present⟩

/-- A run with one more missing window. -/
def grown (run : Option Window) (w : Window) : Window := run.elim w fun r => (r.1, w.2)

/-- **One expected window.** -/
def Scanning.window (s : Scanning) (w : Window) : Scanning :=
  let ahead := s.rest.dropWhile (· < w.1)
  let rest := ahead.dropWhile (· < w.2)
  let found := { s.found with
    expected := s.found.expected + 1
    unmatched := s.found.unmatched + (s.rest.length - ahead.length)
    matched := s.found.matched + (ahead.length - rest.length) }
  if ahead.head?.any (· < w.2) then ⟨{ found with windows := found.windows ++ s.run.toList }, none, rest⟩
  else ⟨{ found with missing := found.missing + 1 }, some (grown s.run w), rest⟩

/-- **`scan_gaps`.** -/
def scanGaps (expected : List Window) (present : List ℤ) : GapScan :=
  let s := expected.foldl Scanning.window (Scanning.start present)
  { s.found with windows := s.found.windows ++ s.run.toList }

/-- **`query_bounds`.** -/
def queryBounds (timeframe : Timeframe) (start stop : ℤ) : Window := if timeframe = .d1 then (start, stop + 86400) else (start, stop)

/-- `_stored_timestamps`. -/
def storedTimestamps (table : BarTable) (symbol : String) (timeframe : Timeframe) (start stop : ℤ) : List ℤ :=
  ((table.rows symbol timeframe).map Bar.ts).filter fun ts => start ≤ ts ∧ ts < stop

/-- **`find_gaps`.** -/
def findGaps (cal : TradingCalendar) (table : BarTable) (symbol : String) (timeframe : Timeframe) (start stop : ℤ) :
    Except Exc (List Window) :=
  if stop ≤ start then
    .error ⟨.valueError, [.lit "start must be before end, got start=", .ts start, .lit " end=", .ts stop]⟩
  else
    match requireSupported timeframe with
    | .error e => .error e
    | .ok () =>
      let bounds := queryBounds timeframe start stop
      .ok (scanGaps (expectedWindows cal timeframe start stop) (storedTimestamps table symbol timeframe bounds.1 bounds.2)).windows

/-! ## The runs of missing windows -/

/-- Consecutive missing windows, coalesced: those that follow a run join it. -/
def runsFrom (missing : Window → Bool) : Option Window → List Window → List Window
  | run, [] => run.toList
  | run, w :: l => if missing w then runsFrom missing (some (grown run w)) l else run.toList ++ runsFrom missing none l

/-- **The coalesced runs of the missing windows.** -/
def runs (missing : Window → Bool) (l : List Window) : List Window := runsFrom missing none l

/-- Windows one after the other. -/
structure Ascending (l : List Window) : Prop where
  forward : ∀ w ∈ l, w.1 ≤ w.2
  apart : l.Pairwise fun a b => a.2 ≤ b.1

/-- Windows that are some time long, one after the other. -/
structure Tiles (l : List Window) : Prop where
  proper : ∀ w ∈ l, w.1 < w.2
  apart : l.Pairwise fun a b => a.2 ≤ b.1

theorem Tiles.ascending {l : List Window} (h : Tiles l) : Ascending l := ⟨fun w hw => (h.proper w hw).le, h.apart⟩

theorem dropWhile_lt {c : ℤ} {l : List ℤ} (h : l.Pairwise (· ≤ ·)) : l.dropWhile (· < c) = l.filter (c ≤ ·) := by
  rw [Sorting.dropWhile_eq_filter (h.imp fun hle => by simpa using hle.trans_lt)]
  refine List.filter_congr fun a _ => ?_
  rw [← decide_not, decide_eq_decide, not_lt]

section
variable {w : Window} {l : List Window} {present : List ℤ} {s : Scanning}

/-- The first of the timestamps at or after a window's start is in it exactly when any is. -/
theorem head_inside (h : present.Pairwise (· ≤ ·)) :
    ((present.dropWhile (· < w.1)).head?.any (· < w.2)) = true ↔ ∃ ts ∈ present, Inside w ts := by
  have hrest : (present.filter (w.1 ≤ ·)).Pairwise (· ≤ ·) := h.filter _
  rw [dropWhile_lt h]
  have hmem (ts : ℤ) : ts ∈ present.filter (w.1 ≤ ·) ↔ ts ∈ present ∧ w.1 ≤ ts := by simp
  generalize present.filter (w.1 ≤ ·) = ahead at hrest hmem
  cases ahead with
  | nil => simpa [Inside] using fun ts hts hle => absurd ((hmem ts).2 ⟨hts, hle⟩) List.not_mem_nil
  | cons a ahead =>
    simp only [List.head?_cons, Option.any_some, decide_eq_true_eq]
    constructor
    · intro hlt
      obtain ⟨hts, hle⟩ := (hmem a).1 List.mem_cons_self
      exact ⟨a, hts, hle, hlt⟩
    · rintro ⟨ts, hts, hle, hlt⟩
      obtain rfl | hts := List.mem_cons.1 ((hmem ts).2 ⟨hts, hle⟩)
      · exact hlt
      · exact ((List.pairwise_cons.1 hrest).1 ts hts).trans_lt hlt

theorem window_rest (hs : s.rest.Pairwise (· ≤ ·)) (hw : w.1 ≤ w.2) : (s.window w).rest = s.rest.filter fun ts => w.2 ≤ ts := by
  have hahead : (s.rest.dropWhile (· < w.1)).dropWhile (· < w.2) = s.rest.filter fun ts => w.2 ≤ ts := by
    rw [dropWhile_lt hs, dropWhile_lt (hs.filter _), List.filter_filter]
    refine List.filter_congr fun ts _ => ?_
    rw [Bool.eq_iff_iff]
    simp only [Bool.and_eq_true, decide_eq_true_eq]
    omega
  unfold Scanning.window
  dsimp only
  split <;> exact hahead

theorem window_covered (hs : s.rest.Pairwise (· ≤ ·)) (h : ∃ ts ∈ s.rest, Inside w ts) :
    (s.window w).found.windows = s.found.windows ++ s.run.toList ∧ (s.window w).run = none := by
  unfold Scanning.window
  dsimp only
  rw [if_pos ((head_inside hs).2 h)]
  exact ⟨rfl, rfl⟩

theorem window_missing (hs : s.rest.Pairwise (· ≤ ·)) (h : ¬∃ ts ∈ s.rest, Inside w ts) :
    (s.window w).found.windows = s.found.windows ∧ (s.window w).run = some (grown s.run w) := by
  unfold Scanning.window
  dsimp only
  rw [if_neg (mt (head_inside hs).1 h)]
  exact ⟨rfl, rfl⟩

theorem runsFrom_congr {p q : Window → Bool} : ∀ {l : List Window} (run : Option Window), (∀ w ∈ l, p w = q w) →
    runsFrom p run l = runsFrom q run l
  | [], _, _ => rfl
  | w :: l, run, h => by
    have hl : ∀ v ∈ l, p v = q v := fun v hv => h v (List.mem_cons_of_mem _ hv)
    unfold runsFrom
    rw [h w List.mem_cons_self, runsFrom_congr _ hl, runsFrom_congr _ hl]

theorem Tiles.tail (h : Tiles (w :: l)) : Tiles l :=
  ⟨fun v hv => h.proper v (List.mem_cons_of_mem _ hv), (List.pairwise_cons.1 h.apart).2⟩

theorem Ascending.tail (h : Ascending (w :: l)) : Ascending l :=
  ⟨fun v hv => h.forward v (List.mem_cons_of_mem _ hv), (List.pairwise_cons.1 h.apart).2⟩

/-- **The pass, from where it stands**: the runs of the windows that none of the timestamps ahead falls in. -/
theorem scan_windows : ∀ {l : List Window} (s : Scanning), Ascending l → s.rest.Pairwise (· ≤ ·) →
    (l.foldl Scanning.window s).found.windows ++ (l.foldl Scanning.window s).run.toList =
      s.found.windows ++ runsFrom (fun w => ¬∃ ts ∈ s.rest, Inside w ts) s.run l
  | [], _, _, _ => rfl
  | w :: l, s, hl, hs => by
    have hrest := window_rest hs (hl.forward w List.mem_cons_self)
    -- what was passed lies before the end of this window, and so before every later one
    have hlater : ∀ v ∈ l, decide (¬∃ ts ∈ (s.window w).rest, Inside v ts) = decide (¬∃ ts ∈ s.rest, Inside v ts) := by
      intro v hv
      have hapart : w.2 ≤ v.1 := (List.pairwise_cons.1 hl.apart).1 v hv
      rw [hrest, decide_eq_decide, not_iff_not]
      constructor
      · rintro ⟨ts, hts, hin⟩
        exact ⟨ts, (List.mem_filter.1 hts).1, hin⟩
      · rintro ⟨ts, hts, hin⟩
        exact ⟨ts, List.mem_filter.2 ⟨hts, decide_eq_true (hapart.trans hin.1)⟩, hin⟩
    rw [List.foldl_cons, scan_windows (s.window w) hl.tail (hrest ▸ hs.filter _), runsFrom_congr _ hlater]
    conv => rhs; rw [runsFrom]
    by_cases hin : ∃ ts ∈ s.rest, Inside w ts
    · obtain ⟨hwindows, hrun⟩ := window_covered hs hin
      rw [hwindows, hrun, if_neg (by simpa using hin), List.append_assoc]
    · obtain ⟨hwindows, hrun⟩ := window_missing hs hin
      rw [hwindows, hrun, if_pos (by simpa using hin)]

/-- **What a scan reports missing**: the runs of the expected windows that no stored timestamp falls in. -/
theorem scanGaps_windows (hl : Ascending l) (hs : present.Pairwise (· ≤ ·)) :
    (scanGaps l present).windows = runs (fun w => ¬∃ ts ∈ present, Inside w ts) l := by
  have h := scan_windows (.start present) hl hs
  simpa [scanGaps, Scanning.start, runs] using h

theorem runs_congr {p q : Window → Bool} (h : ∀ w ∈ l, p w = q w) : runs p l = runs q l := runsFrom_congr none h

theorem runs_nil {missing : Window → Bool} (h : ∀ w ∈ l, missing w = false) : runs missing l = [] := by
  induction l with
  | nil => rfl
  | cons w l ih =>
    unfold runs runsFrom
    rw [h w List.mem_cons_self]
    exact ih fun v hv => h v (List.mem_cons_of_mem _ hv)

/-- From where a scan stands, the run it is in and every missing window ahead are part of a run it reports. -/
theorem runsFrom_covers (missing : Window → Bool) : ∀ {l : List Window} (run : Option Window), Tiles l →
    (∀ r ∈ run, ∀ w ∈ l, r.2 ≤ w.1) → ∀ r, (run = some r ∨ (r ∈ l ∧ missing r = true)) →
    (∀ s ∈ run, s.1 ≤ s.2) → ∃ g ∈ runsFrom missing run l, g.1 ≤ r.1 ∧ r.2 ≤ g.2
  | [], run, _, _, r, hr, _ => by
    obtain rfl | ⟨hr, -⟩ := hr
    · exact ⟨r, by simp [runsFrom], le_rfl, le_rfl⟩
    · exact absurd hr List.not_mem_nil
  | w :: l, run, hl, hahead, r, hr, hrun => by
    have hproper : w.1 < w.2 := hl.proper w List.mem_cons_self
    have hapart : ∀ v ∈ l, w.2 ≤ v.1 := (List.pairwise_cons.1 hl.apart).1
    unfold runsFrom
    split
    · -- the window joins the run: what is to be covered is in the run so grown, or lies ahead
      have hgrown : (grown run w).1 ≤ w.1 ∧ (grown run w).2 = w.2 ∧ ∀ s ∈ run, (grown run w).1 = s.1 := by
        cases run with
        | none => exact ⟨le_rfl, rfl, fun s hs => by cases hs⟩
        | some s =>
          have := hahead s rfl w List.mem_cons_self
          have := hrun s rfl
          refine ⟨?_, rfl, fun s' hs' => by cases hs'; rfl⟩
          show s.1 ≤ w.1
          omega
      have hnext (r : Window) := runsFrom_covers missing (some (grown run w)) hl.tail
        (fun s hs v hv => by cases hs; exact hgrown.2.1 ▸ hapart v hv) r
      have hle : ∀ s ∈ some (grown run w), s.1 ≤ s.2 := fun s hs => by cases hs; omega
      obtain rfl | ⟨hr, hm⟩ := hr
      · obtain ⟨g, hg, hlow, hhigh⟩ := hnext _ (.inl rfl) hle
        have := hgrown.2.2 r rfl
        have := hahead r rfl w List.mem_cons_self
        exact ⟨g, hg, by omega, by omega⟩
      · obtain rfl | hr := List.mem_cons.1 hr
        · obtain ⟨g, hg, hlow, hhigh⟩ := hnext _ (.inl rfl) hle
          exact ⟨g, hg, by omega, by omega⟩
        · exact hnext r (.inr ⟨hr, hm⟩) hle
    · rename_i hw
      obtain rfl | ⟨hr, hm⟩ := hr
      · exact ⟨r, by simp, le_rfl, le_rfl⟩
      · obtain rfl | hr := List.mem_cons.1 hr
        · exact absurd hm hw
        · obtain ⟨g, hg, hcover⟩ := runsFrom_covers missing none hl.tail (fun s hs => by cases hs) r (.inr ⟨hr, hm⟩)
            fun s hs => by cases hs
          exact ⟨g, List.mem_append.2 (.inr hg), hcover⟩

/-- **Every missing window is part of a run.** -/
theorem runs_covers {missing : Window → Bool} (hl : Tiles l) (hw : w ∈ l) (hm : missing w = true) :
    ∃ g ∈ runs missing l, g.1 ≤ w.1 ∧ w.2 ≤ g.2 :=
  runsFrom_covers missing none hl (fun s hs => by cases hs) w (.inr ⟨hw, hm⟩) fun s hs => by cases hs

end

/-! ## What a calendar expects -/

section
variable {cal : TradingCalendar} {timeframe : Timeframe} {start stop : ℤ}

theorem mem_slots {s : Session} {step : ℤ} (hstep : 0 < step) {w : Window} (hw : w ∈ slots s step) :
    s.openAt ≤ w.1 ∧ w.1 < w.2 ∧ w.2 ≤ s.closeAt := by
  obtain ⟨i, hi, rfl⟩ := List.mem_map.1 hw
  have hi : (i : ℤ) + 1 ≤ (s.closeAt - s.openAt) / step := by
    have := List.mem_range.1 hi
    omega
  have hmul : ((i : ℤ) + 1) * step ≤ s.closeAt - s.openAt := (Int.le_ediv_iff_mul_le hstep).1 hi
  have hpos : 0 ≤ (i : ℤ) * step := by positivity
  rw [add_mul, one_mul] at hmul
  dsimp only
  omega

theorem slots_apart (s : Session) {step : ℤ} (hstep : 0 < step) : (slots s step).Pairwise fun a b => a.2 ≤ b.1 := by
  unfold slots
  refine List.pairwise_map.2 (List.pairwise_lt_range.imp fun {i j} hij => ?_)
  have hmul : ((i : ℤ) + 1) * step ≤ (j : ℤ) * step := by
    have : (i : ℤ) + 1 ≤ j := by omega
    gcongr
  rw [add_mul, one_mul] at hmul
  dsimp only
  omega

/-- **The windows a calendar expects come one after the other.** -/
theorem expectedWindows_tiles : Tiles (expectedWindows cal timeframe start stop) := by
  have hstep : 0 < timeframe.seconds := by cases timeframe <;> decide
  have hordered : (cal.sessions (cal.localDate start - 1) (cal.localDate stop + 1)).Pairwise fun s t =>
      s.day < t.day ∧ s.closeAt ≤ t.openAt := TradingCalendar.sessions_ordered _ _
  unfold expectedWindows
  dsimp only
  split
  · constructor
    · intro w hw
      obtain ⟨s, -, hs⟩ := List.mem_filterMap.1 hw
      split at hs
      · cases hs
        exact cal.rising s.day
      · cases hs
    · rw [List.pairwise_filterMap]
      refine hordered.imp fun {s t} hst w hw v hv => ?_
      split at hw
      · split at hv
        · cases hw
          cases hv
          exact TradingCalendar.dayStart_lt hst.1
        · cases hv
      · cases hw
  · constructor
    · intro w hw
      obtain ⟨s, -, hs⟩ := List.mem_flatMap.1 hw
      exact (mem_slots hstep (List.mem_filter.1 hs).1).2.1
    · rw [List.pairwise_flatMap]
      refine ⟨fun s _ => (slots_apart s hstep).filter _, hordered.imp fun {s t} hst w hw v hv => ?_⟩
      have hw := mem_slots hstep (List.mem_filter.1 hw).1
      have hv := mem_slots hstep (List.mem_filter.1 hv).1
      omega

/-- Every session closes no more than 24 hours before its local day ends. -/
def EndsSoon (cal : TradingCalendar) : Prop := ∀ d s, cal.sessionOn d = some s → cal.dayStart (d + 1) ≤ s.closeAt + 86400

/-- **What is stored of an expected window is read.** -/
theorem expectedWindows_read (hcal : timeframe = .d1 → EndsSoon cal) {w : Window}
    (hw : w ∈ expectedWindows cal timeframe start stop) :
    (queryBounds timeframe start stop).1 ≤ w.1 ∧ w.2 ≤ (queryBounds timeframe start stop).2 := by
  unfold expectedWindows at hw
  unfold queryBounds
  dsimp only at hw
  split at hw
  · rename_i hdaily
    obtain ⟨s, hs, hbounds⟩ := List.mem_filterMap.1 hw
    obtain ⟨d, -, -, hon⟩ := TradingCalendar.mem_sessions.1 hs
    have hsoon := hcal hdaily d s hon
    have hnamed := cal.named hon
    split at hbounds
    · rename_i hin
      cases hbounds
      simp only [TradingCalendar.dayBounds, hnamed] at hin ⊢
      rw [if_pos hdaily]
      dsimp only
      omega
    · cases hbounds
  · rename_i hdaily
    obtain ⟨s, -, hs⟩ := List.mem_flatMap.1 hw
    have hin := of_decide_eq_true (List.mem_filter.1 hs).2
    rw [if_neg hdaily]
    exact hin

/-- No row of the series falls in the window. -/
def unstored (table : BarTable) (symbol : String) (timeframe : Timeframe) (w : Window) : Bool :=
  ¬∃ ts ∈ (table.rows symbol timeframe).map Bar.ts, Inside w ts

theorem unstored_iff {table : BarTable} {symbol : String} {w : Window} :
    unstored table symbol timeframe w = true ↔ ∀ ts, table.Has symbol timeframe ts → ¬Inside w ts := by
  simp [unstored, BarTable.Has]

/-- **What `find_gaps` reports**: the runs of the expected windows that no stored row falls in. -/
theorem findGaps_ok (hcal : timeframe = .d1 → EndsSoon cal) (hrange : start < stop) (hsupported : requireSupported timeframe = .ok ())
    (table : BarTable) (symbol : String) :
    findGaps cal table symbol timeframe start stop =
      .ok (runs (unstored table symbol timeframe) (expectedWindows cal timeframe start stop)) := by
  have hsorted : ((table.rows symbol timeframe).map Bar.ts).Pairwise (· ≤ ·) :=
    List.pairwise_map.2 ((table.sorted symbol timeframe).imp le_of_lt)
  unfold findGaps
  rw [if_neg (by omega), hsupported]
  dsimp only
  unfold storedTimestamps
  rw [scanGaps_windows expectedWindows_tiles.ascending (hsorted.filter _)]
  congr 1
  refine runs_congr fun w hw => ?_
  have hread := expectedWindows_read hcal hw
  unfold unstored
  rw [decide_eq_decide, not_iff_not]
  constructor
  · rintro ⟨ts, hts, hin⟩
    exact ⟨ts, (List.mem_filter.1 hts).1, hin⟩
  · rintro ⟨ts, hts, hlow, hhigh⟩
    exact ⟨ts, List.mem_filter.2 ⟨hts, by simp; omega⟩, hlow, hhigh⟩

end

end Gaps
end Atp
