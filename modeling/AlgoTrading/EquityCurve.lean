import AlgoTrading.BookStorage
import AlgoTrading.LastOfEach
/-!
# EquityCurve — the equity chart, thinned

`dashboard/curve.py`, `get_equity_curve` of `routers/dashboard.py`, `equity_history` of `persistence/positions.py` and
`daily_returns` of `analytics/performance.py`.  A chart holds the last observation of every bucket, the buckets counted from a
fixed instant.  An instant is its microseconds since then; `total_seconds` is a float, exact to the second below 2³⁴ seconds.
Rows that tie come in no stated order, so a history read is a relation.
-/
namespace Atp
namespace EquityCurve

open BookStorage (EquityRow Store)
open LastOfEach

structure EquityPoint where
  ts : ℤ
  equity : ℚ
  cash : ℚ
  grossExposure : ℚ
deriving DecidableEq, Repr

/-- The refusals: `ValueError` with what its text shows, and the division by a width of no whole second. -/
inductive Refused where
  | unknownResolution (resolution : String)
  | widthNotPositive (every : ℤ)
  | zeroDivision
deriving DecidableEq, Repr

def second : ℤ := 1000000

def minute : ℤ := 60 * second

def hour : ℤ := 60 * minute

def day : ℤ := 24 * hour

/-- `RESOLUTIONS`, a width a `timedelta` in microseconds. -/
def RESOLUTIONS : List (String × ℤ) :=
  [("1m", minute), ("5m", 5 * minute), ("15m", 15 * minute), ("1h", hour), ("4h", 4 * hour), ("1d", day)]

/-- **`resolve`**. -/
def resolve (resolution : String) : Except Refused ℤ :=
  match RESOLUTIONS.lookup resolution with
  | some every => .ok every
  | none => .error (.unknownResolution resolution)

/-- `int(delta.total_seconds())`: the fraction is cut off. -/
def totalSeconds (delta : ℤ) : ℤ := delta.tdiv second

/-- `int((point.ts - _EPOCH).total_seconds()) // width`. -/
def bucketOf (every ts : ℤ) : ℤ := totalSeconds ts / totalSeconds every

/-- **`downsample`**. -/
def downsample (points : List EquityPoint) (every : ℤ) : Except Refused (List EquityPoint) :=
  if every ≤ 0 then .error (.widthNotPositive every)
  else if totalSeconds every = 0 then
    -- only the first point divides
    match points with
    | [] => .ok []
    | _ :: _ => .error .zeroDivision
  else .ok (lastOfEach (fun point => bucketOf every point.ts) points)

def defaultResolutionFor (days : ℕ) : String :=
  if days ≤ 2 then "5m" else if days ≤ 14 then "1h" else if days ≤ 90 then "4h" else "1d"

/-! ## The endpoint -/

def MAX_CURVE_DAYS : ℕ := 365

def toPoint (row : EquityRow) : EquityPoint := ⟨row.ts, row.equity, row.cash, row.grossExposure⟩

/-- The rows `equity_history` selects. -/
def selected (store : Store) (runMode : RunMode) (first last : ℤ) : List EquityRow :=
  store.equity.filter fun row => row.runMode = runMode ∧ first ≤ row.ts ∧ row.ts ≤ last

/-- **What `equity_history` may return**: the rows of the mode in the window, the oldest first. -/
structure EquityHistory (store : Store) (runMode : RunMode) (first last : ℤ) (history : List EquityPoint) : Prop where
  rows : history.Perm ((selected store runMode first last).map toPoint)
  ordered : history.Pairwise fun p q => p.ts ≤ q.ts

structure EquityCurveView where
  runMode : RunMode
  start : ℤ
  last : ℤ
  resolution : String
  points : List EquityPoint
deriving DecidableEq, Repr

/-- `resolution or default_resolution_for(days)`. -/
def chosen (days : ℕ) (resolution : Option String) : String :=
  match resolution with
  | none => defaultResolutionFor days
  | some name => if name = "" then defaultResolutionFor days else name

/-- `now - timedelta(days=days)`. -/
def startOf (days : ℕ) (now : ℤ) : ℤ := now - days * day

/-- **`get_equity_curve`**, over what the read of its window returned. -/
def getEquityCurve (runMode : RunMode) (days : ℕ) (resolution : Option String) (now : ℤ) (history : List EquityPoint) :
    Except Refused EquityCurveView := do
  let every ← resolve (chosen days resolution)
  return ⟨runMode, startOf days now, now, chosen days resolution, ← downsample history every⟩

/-! ## Day returns -/

/-- `ts.astimezone(UTC).date()`, as days since the first. -/
def dateOf (ts : ℤ) : ℤ := ts / day

/-- The last point of each day wins. -/
def closes (equityCurve : List (ℤ × ℚ)) : Dict ℤ ℚ := equityCurve.foldl (fun d p => d.set (dateOf p.1) p.2) .empty

/-- **`daily_returns`**, in the order of its days; `quotient` is the context's division. -/
def dailyReturns (quotient : ℚ → ℚ → ℚ) (equityCurve : List (ℤ × ℚ)) : List (ℤ × ℚ) :=
  let byDay := closes equityCurve
  let days := byDay.keys.insertionSort (· ≤ ·)
  (days.zip days.tail).filterMap fun (previous, next) =>
    match byDay.get? previous, byDay.get? next with
    | some prior, some close => if 0 < prior then some (next, quotient (close - prior) prior) else none
    | _, _ => none

/-- A chart's points as the curve they draw. -/
def curveOf (points : List EquityPoint) : List (ℤ × ℚ) := points.map fun p => (p.ts, p.equity)

/-! ## Buckets -/

theorem offered {name : String} {every : ℤ} (h : resolve name = .ok every) :
    every ∈ [minute, 5 * minute, 15 * minute, hour, 4 * hour, day] := by
  unfold resolve at h
  split at h
  · rename_i every' hlookup
    cases h
    obtain ⟨l₁, l₂, heq, -⟩ := List.lookup_eq_some_iff.1 hlookup
    have hmem : (name, every) ∈ RESOLUTIONS := by
      rw [heq]
      simp
    exact List.mem_map_of_mem (f := Prod.snd) hmem
  · cases h

/-- Every width on offer is some whole seconds, and a day is some of them. -/
theorem offered_seconds {name : String} {every : ℤ} (h : resolve name = .ok every) :
    0 < every ∧ 0 < totalSeconds every ∧ every = second * totalSeconds every ∧ ∃ k, 0 < k ∧ day = every * k := by
  have hmem := offered h
  simp only [List.mem_cons, List.not_mem_nil, or_false] at hmem
  rcases hmem with rfl | rfl | rfl | rfl | rfl | rfl
  · exact ⟨by decide, by decide, by decide, 1440, by decide⟩
  · exact ⟨by decide, by decide, by decide, 288, by decide⟩
  · exact ⟨by decide, by decide, by decide, 96, by decide⟩
  · exact ⟨by decide, by decide, by decide, 24, by decide⟩
  · exact ⟨by decide, by decide, by decide, 6, by decide⟩
  · exact ⟨by decide, by decide, by decide, 1, by decide⟩

/-- Of two widths on offer the wider is some of the narrower. -/
theorem offered_divides {name name' : String} {narrow wide : ℤ} (h : resolve name = .ok narrow) (h' : resolve name' = .ok wide)
    (hle : narrow ≤ wide) : ∃ k, 0 < k ∧ totalSeconds wide = totalSeconds narrow * k := by
  have hmem := offered h
  have hmem' := offered h'
  have hall : ∀ narrow ∈ [minute, 5 * minute, 15 * minute, hour, 4 * hour, day],
      ∀ wide ∈ [minute, 5 * minute, 15 * minute, hour, 4 * hour, day], narrow ≤ wide →
        0 < totalSeconds wide / totalSeconds narrow ∧
          totalSeconds wide = totalSeconds narrow * (totalSeconds wide / totalSeconds narrow) := by decide
  exact ⟨_, hall narrow hmem wide hmem' hle⟩

theorem totalSeconds_mono {a b : ℤ} (h : a ≤ b) : totalSeconds a ≤ totalSeconds b := Int.tdiv_le_tdiv (by decide) h

theorem bucketOf_mono {every a b : ℤ} (hwidth : 0 < totalSeconds every) (h : a ≤ b) : bucketOf every a ≤ bucketOf every b :=
  Int.ediv_le_ediv hwidth (totalSeconds_mono h)

/-- Cutting fractions off brings two instants no further apart than they were. -/
theorem totalSeconds_add_le (a : ℤ) {n : ℤ} (hn : 0 ≤ n) : totalSeconds (a + second * n) ≤ totalSeconds a + n := by
  unfold totalSeconds second
  rw [Int.tdiv_eq_ediv, Int.tdiv_eq_ediv]
  have hsign : (1000000 : ℤ).sign = 1 := rfl
  split_ifs <;> omega

theorem bucketOf_add_le {every : ℤ} (hwidth : 0 < totalSeconds every) (hwhole : every = second * totalSeconds every) (a : ℤ)
    {k : ℤ} (hk : 0 ≤ k) : bucketOf every (a + every * k) ≤ bucketOf every a + k := by
  have hseconds : totalSeconds (a + every * k) ≤ totalSeconds a + k * totalSeconds every := by
    calc totalSeconds (a + every * k) = totalSeconds (a + second * (k * totalSeconds every)) := by
          rw [hwhole, mul_assoc, ← hwhole, mul_comm k]
      _ ≤ totalSeconds a + k * totalSeconds every := totalSeconds_add_le a (by positivity)
  calc bucketOf every (a + every * k) ≤ (totalSeconds a + k * totalSeconds every) / totalSeconds every :=
        Int.ediv_le_ediv hwidth hseconds
    _ = bucketOf every a + k := Int.add_mul_ediv_right _ _ (ne_of_gt hwidth)

/-- A wider bucket is read off the narrower. -/
theorem bucketOf_coarse {narrow wide k : ℤ} (hnarrow : 0 < totalSeconds narrow)
    (heq : totalSeconds wide = totalSeconds narrow * k) (ts : ℤ) : bucketOf wide ts = bucketOf narrow ts / k := by
  unfold bucketOf
  rw [heq, Int.ediv_ediv_of_nonneg hnarrow.le]

/-- From the fixed instant on a day is some of the buckets of any width on offer. -/
theorem dateOf_coarse {every k : ℤ} (hwidth : 0 < totalSeconds every) (hwhole : every = second * totalSeconds every)
    (hday : day = every * k) {ts : ℤ} (hts : 0 ≤ ts) : dateOf ts = bucketOf every ts / k := by
  unfold dateOf bucketOf
  have hevery : 0 ≤ every := by
    rw [hwhole]
    exact mul_nonneg (by decide) hwidth.le
  calc ts / day = ts / (every * k) := by rw [hday]
    _ = ts / (second * totalSeconds every) / k := by rw [← hwhole, Int.ediv_ediv_of_nonneg hevery]
    _ = ts / second / totalSeconds every / k := by rw [Int.ediv_ediv_of_nonneg (show 0 ≤ second by decide)]
    _ = totalSeconds ts / totalSeconds every / k := by
      unfold totalSeconds
      rw [Int.tdiv_eq_ediv_of_nonneg hts]

/-! ## A chart -/

/-- A width on offer is never refused. -/
theorem downsample_offered {name : String} {every : ℤ} (h : resolve name = .ok every) (points : List EquityPoint) :
    downsample points every = .ok (lastOfEach (fun point => bucketOf every point.ts) points) := by
  obtain ⟨hpos, hwidth, -⟩ := offered_seconds h
  unfold downsample
  rw [if_neg (not_le.2 hpos), if_neg (ne_of_gt hwidth)]

/-- The points as the history's buckets, in order. -/
theorem buckets_ordered {every : ℤ} (hwidth : 0 < totalSeconds every) {history : List EquityPoint}
    (h : history.Pairwise fun p q => p.ts ≤ q.ts) :
    history.Pairwise fun p q => bucketOf every p.ts ≤ bucketOf every q.ts :=
  h.imp (bucketOf_mono hwidth)

/-- What a chart of a history may be believed on. -/
structure Faithful (every : ℤ) (history points : List EquityPoint) : Prop where
  observed : points.Sublist history
  newest : points.getLast? = history.getLast?
  apart : points.Pairwise fun p q => bucketOf every p.ts < bucketOf every q.ts
  covered : ∀ p ∈ history, ∃ q ∈ points, bucketOf every q.ts = bucketOf every p.ts ∧ p.ts ≤ q.ts

theorem faithful {every : ℤ} (hwidth : 0 < totalSeconds every) {history : List EquityPoint}
    (h : history.Pairwise fun p q => p.ts ≤ q.ts) :
    Faithful every history (lastOfEach (fun point => bucketOf every point.ts) history) where
  observed := lastOfEach_sublist (buckets_ordered hwidth h)
  newest := getLast?_lastOfEach (buckets_ordered hwidth h)
  apart := lastOfEach_increasing _ _
  covered p hp := by
    obtain ⟨q, hq, hkey, l₁, l₂, rfl, hmem⟩ := exists_lastOfEach (fun point => bucketOf every point.ts) hp
    refine ⟨q, hq, hkey, ?_⟩
    obtain ⟨-, -, hbefore⟩ := List.pairwise_append.1 h
    rcases List.mem_append.1 hmem with hmem | hmem
    · exact hbefore p hmem q List.mem_cons_self
    · rw [List.mem_singleton.1 hmem]

theorem EquityHistory.mem_iff {store : Store} {runMode : RunMode} {first last : ℤ} {history : List EquityPoint}
    (h : EquityHistory store runMode first last history) {p : EquityPoint} : p ∈ history ↔
      first ≤ p.ts ∧ p.ts ≤ last ∧ ∃ row ∈ store.equity, row.runMode = runMode ∧ toPoint row = p := by
  rw [h.rows.mem_iff, List.mem_map]
  unfold selected
  constructor
  · rintro ⟨row, hrow, rfl⟩
    obtain ⟨hmem, hsel⟩ := List.mem_filter.1 hrow
    obtain ⟨hmode, hfirst, hlast⟩ := of_decide_eq_true hsel
    exact ⟨hfirst, hlast, row, hmem, hmode, rfl⟩
  · rintro ⟨hfirst, hlast, row, hmem, hmode, rfl⟩
    exact ⟨row, List.mem_filter.2 ⟨hmem, decide_eq_true ⟨hmode, hfirst, hlast⟩⟩, rfl⟩

theorem getEquityCurve_ok {runMode : RunMode} {days : ℕ} {resolution : Option String} {now every : ℤ}
    (h : resolve (chosen days resolution) = .ok every) (history : List EquityPoint) :
    getEquityCurve runMode days resolution now history = .ok ⟨runMode, startOf days now, now, chosen days resolution,
      lastOfEach (fun point => bucketOf every point.ts) history⟩ := by
  unfold getEquityCurve
  rw [h]
  simp only [bind, Except.bind, downsample_offered h]
  rfl

/-- No more points than the window has buckets. -/
theorem length_le {store : Store} {runMode : RunMode} {days : ℕ} {now every : ℤ} {name : String} {history : List EquityPoint}
    (h : EquityHistory store runMode (startOf days now) now history) (hname : resolve name = .ok every) :
    ((lastOfEach (fun point => bucketOf every point.ts) history).length : ℤ) ≤ days * (day / every) + 1 := by
  obtain ⟨hpos, hwidth, hwhole, k, hk, hday⟩ := offered_seconds hname
  have hquot : day / every = k := by
    rw [hday, Int.mul_ediv_cancel_left _ (ne_of_gt hpos)]
  have hspan : bucketOf every now ≤ bucketOf every (startOf days now) + days * k := by
    have hnow : startOf days now + every * (days * k) = now := by
      unfold startOf
      rw [hday]
      ring
    calc bucketOf every now = bucketOf every (startOf days now + every * (days * k)) := by rw [hnow]
      _ ≤ bucketOf every (startOf days now) + days * k := bucketOf_add_le hwidth hwhole _ (by positivity)
  have hlen := length_increasing (lastOfEach_increasing (fun point : EquityPoint => bucketOf every point.ts) history)
    fun p hp => by
      obtain ⟨hfirst, hlast, -⟩ := h.mem_iff.1 (mem_lastOfEach.1 hp).mem
      exact ⟨bucketOf_mono hwidth hfirst, bucketOf_mono hwidth hlast⟩
  have hle : ((lastOfEach (fun point : EquityPoint => bucketOf every point.ts) history).length : ℤ) ≤
      bucketOf every now - bucketOf every (startOf days now) + 1 := by
    have hmono : bucketOf every (startOf days now) ≤ bucketOf every now := by
      refine bucketOf_mono hwidth ?_
      unfold startOf
      have hnonneg : 0 ≤ (days : ℤ) * day := mul_nonneg (Int.natCast_nonneg days) (by decide)
      omega
    omega
  rw [hquot]
  omega

/-- **What a request for the chart is answered with**: a name that is not on offer is refused, and any other gives a faithful
chart of the window with no more points than it has buckets; of the default widths that is 577 at most. -/
theorem chart_faithful {store : Store} {runMode : RunMode} {days : ℕ} (hdays : days ≤ MAX_CURVE_DAYS) {now : ℤ}
    {history : List EquityPoint} (h : EquityHistory store runMode (startOf days now) now history) (resolution : Option String) :
    (chosen days resolution ∉ RESOLUTIONS.map Prod.fst ∧
        getEquityCurve runMode days resolution now history = .error (.unknownResolution (chosen days resolution))) ∨
      ∃ every view, resolve (chosen days resolution) = .ok every ∧
        getEquityCurve runMode days resolution now history = .ok view ∧ Faithful every history view.points ∧
        (view.points.length : ℤ) ≤ days * (day / every) + 1 ∧ (resolution = none → view.points.length ≤ 577) := by
  cases hevery : resolve (chosen days resolution) with
  | error e =>
    left
    unfold resolve at hevery
    split at hevery
    · cases hevery
    rename_i hnone
    cases hevery
    refine ⟨fun hmem => ?_, ?_⟩
    · obtain ⟨⟨name, every⟩, hpair, heq⟩ := List.mem_map.1 hmem
      rw [List.lookup_eq_none_iff] at hnone
      exact bne_iff_ne.1 (hnone _ hpair) heq.symm
    · unfold getEquityCurve resolve
      rw [hnone]
      rfl
  | ok every =>
    right
    obtain ⟨-, hwidth, -⟩ := offered_seconds hevery
    have hlen := length_le h hevery
    refine ⟨every, _, rfl, getEquityCurve_ok hevery history, faithful hwidth h.ordered, hlen, ?_⟩
    rintro rfl
    have hdefault : resolve (defaultResolutionFor days) = .ok every := hevery
    have hbound : (days : ℤ) * (day / every) ≤ 576 := by
      unfold defaultResolutionFor at hdefault
      unfold MAX_CURVE_DAYS at hdays
      split_ifs at hdefault
      · cases (show Except.ok (5 * minute) = Except.ok every from hdefault)
        have hquot : day / (5 * minute) = 288 := by decide
        rw [hquot]
        omega
      · cases (show Except.ok hour = Except.ok every from hdefault)
        have hquot : day / hour = 24 := by decide
        rw [hquot]
        omega
      · cases (show Except.ok (4 * hour) = Except.ok every from hdefault)
        have hquot : day / (4 * hour) = 6 := by decide
        rw [hquot]
        omega
      · cases (show Except.ok day = Except.ok every from hdefault)
        have hquot : day / day = 1 := by decide
        rw [hquot]
        omega
    change (lastOfEach (fun point => bucketOf every point.ts) history).length ≤ 577
    omega

/-- A row of the paper account. -/
def recorded (ts : ℤ) (equity : ℚ) : EquityRow := ⟨ts, equity, equity, 0, 0, .paper⟩

theorem chart_faithful_minutes :
    let store : Store := ⟨[recorded 0 100, recorded minute 101, recorded (5 * minute) 102], []⟩
    let history := store.equity.map toPoint
    (chosen 1 none ∉ RESOLUTIONS.map Prod.fst ∧
        getEquityCurve .paper 1 none (5 * minute) history = .error (.unknownResolution (chosen 1 none))) ∨
      ∃ every view, resolve (chosen 1 none) = .ok every ∧ getEquityCurve .paper 1 none (5 * minute) history = .ok view ∧
        Faithful every history view.points ∧ (view.points.length : ℤ) ≤ 1 * (day / every) + 1 ∧
        ((none : Option String) = none → view.points.length ≤ 577) :=
  @chart_faithful ⟨[recorded 0 100, recorded minute 101, recorded (5 * minute) 102], []⟩ .paper 1 (by decide) _ _
    ⟨by decide +kernel, by decide +kernel⟩ none

/-! ## The same chart a moment later -/

/-- A history of rows that do not tie has no two instants alike. -/
theorem EquityHistory.increasing {store : Store} {runMode : RunMode} {first last : ℤ} {history : List EquityPoint}
    (h : EquityHistory store runMode first last history)
    (hties : ((store.equity.filter fun row => row.runMode = runMode).map EquityRow.ts).Nodup) :
    history.Pairwise fun p q => p.ts < q.ts := by
  have hnodup : (history.map EquityPoint.ts).Nodup := by
    have hperm : (history.map EquityPoint.ts).Perm ((selected store runMode first last).map EquityRow.ts) := by
      have hmap := h.rows.map EquityPoint.ts
      rwa [List.map_map] at hmap
    refine hperm.nodup_iff.2 (hties.sublist (List.Sublist.map _ ?_))
    have hsel : selected store runMode first last =
        (store.equity.filter fun row => row.runMode = runMode).filter fun row => first ≤ row.ts ∧ row.ts ≤ last := by
      unfold selected
      rw [List.filter_filter]
      refine List.filter_congr fun row _ => ?_
      rw [← Bool.decide_and]
      exact decide_eq_decide.2 and_comm
    rw [hsel]
    exact List.filter_sublist
  exact (h.ordered.and (List.pairwise_map.1 hnodup)).imp fun hboth => lt_of_le_of_ne hboth.1 hboth.2

/-- **The line does not shift**: of two requests at one width, rows having been added in between, both show the same points in
every bucket between the later window's first and the bucket of the earlier request. -/
theorem chart_steady {store later : Store} {runMode : RunMode} {rows : List EquityRow} {days : ℕ} {resolution : Option String}
    {now now' every : ℤ} {history history' : List EquityPoint} {view view' : EquityCurveView}
    (hlater : later.equity = store.equity ++ rows) (hrows : ∀ row ∈ rows, row.runMode = runMode → now ≤ row.ts)
    (hnow : now ≤ now') (hties : ((later.equity.filter fun row => row.runMode = runMode).map EquityRow.ts).Nodup)
    (h : EquityHistory store runMode (startOf days now) now history)
    (h' : EquityHistory later runMode (startOf days now') now' history')
    (hevery : resolve (chosen days resolution) = .ok every)
    (hview : getEquityCurve runMode days resolution now history = .ok view)
    (hview' : getEquityCurve runMode days resolution now' history' = .ok view') :
    (view.points.filter fun p => bucketOf every (startOf days now') < bucketOf every p.ts ∧
        bucketOf every p.ts < bucketOf every now) =
      view'.points.filter fun p => bucketOf every (startOf days now') < bucketOf every p.ts ∧
        bucketOf every p.ts < bucketOf every now := by
  obtain ⟨-, hwidth, -⟩ := offered_seconds hevery
  have hstore : ((store.equity.filter fun row => row.runMode = runMode).map EquityRow.ts).Nodup := by
    rw [hlater, List.filter_append, List.map_append] at hties
    exact (List.nodup_append.1 hties).1
  cases (getEquityCurve_ok hevery history).symm.trans hview
  cases (getEquityCurve_ok hevery history').symm.trans hview'
  -- both reads have the same points of such a bucket
  have hshared (p : EquityPoint) (hfirst : bucketOf every (startOf days now') < bucketOf every p.ts)
      (hlast : bucketOf every p.ts < bucketOf every now) : p ∈ history ↔ p ∈ history' := by
    have hafter : startOf days now' < p.ts := lt_of_not_ge fun hle => absurd (bucketOf_mono hwidth hle) (not_le.2 hfirst)
    have hbefore : p.ts < now := lt_of_not_ge fun hle => absurd (bucketOf_mono hwidth hle) (not_le.2 hlast)
    have hstart : startOf days now ≤ startOf days now' := by
      unfold startOf
      omega
    rw [h.mem_iff, h'.mem_iff, hlater]
    constructor
    · rintro ⟨-, -, row, hmem, hrow⟩
      exact ⟨hafter.le, by omega, row, List.mem_append_left _ hmem, hrow⟩
    · rintro ⟨-, -, row, hmem, hmode, rfl⟩
      refine ⟨by omega, hbefore.le, row, (List.mem_append.1 hmem).resolve_right fun hadded => ?_, hmode, rfl⟩
      exact absurd (hrows row hadded hmode) (not_le.2 hbefore)
  refine increasing_ext ((lastOfEach_increasing _ _).filter _) ((lastOfEach_increasing _ _).filter _) fun p => ?_
  rw [List.mem_filter, List.mem_filter, mem_lastOfEach, mem_lastOfEach, isLast_iff (h.increasing hstore),
    isLast_iff (h'.increasing hties), decide_eq_true_eq]
  refine and_congr_left fun ⟨hfirst, hlast⟩ => and_congr (hshared p hfirst hlast) (forall_congr' fun q => ?_)
  constructor
  · intro htop hq heq
    exact htop ((hshared q (heq ▸ hfirst) (heq ▸ hlast)).2 hq) heq
  · intro htop hq heq
    exact htop ((hshared q (heq ▸ hfirst) (heq ▸ hlast)).1 hq) heq

theorem chart_steady_minutes :
    let store : Store := ⟨[recorded day 100, recorded (day + 6 * minute) 101, recorded (day + 10 * minute) 102], []⟩
    let before : EquityCurveView := ⟨.paper, 10 * minute, day + 10 * minute, "5m", store.equity.map toPoint⟩
    let after : EquityCurveView := ⟨.paper, 11 * minute, day + 11 * minute, "5m",
      [toPoint (recorded day 100), toPoint (recorded (day + 6 * minute) 101), toPoint (recorded (day + 11 * minute) 103)]⟩
    (before.points.filter fun p => bucketOf (5 * minute) (startOf 1 (day + 11 * minute)) < bucketOf (5 * minute) p.ts ∧
        bucketOf (5 * minute) p.ts < bucketOf (5 * minute) (day + 10 * minute)) =
      after.points.filter fun p => bucketOf (5 * minute) (startOf 1 (day + 11 * minute)) < bucketOf (5 * minute) p.ts ∧
        bucketOf (5 * minute) p.ts < bucketOf (5 * minute) (day + 10 * minute) := by
  intro store before after
  let later : Store := ⟨store.equity ++ [recorded (day + 11 * minute) 103], []⟩
  have hbefore : EquityHistory store .paper (startOf 1 (day + 10 * minute)) (day + 10 * minute) (store.equity.map toPoint) :=
    ⟨by decide +kernel, by decide +kernel⟩
  have hafter : EquityHistory later .paper (startOf 1 (day + 11 * minute)) (day + 11 * minute) (later.equity.map toPoint) :=
    ⟨by decide +kernel, by decide +kernel⟩
  exact @chart_steady store later .paper _ 1 none _ _ _ _ _ before after rfl (by decide +kernel) (by decide) (by decide +kernel)
    hbefore hafter rfl (by decide +kernel) (by decide +kernel)

/-! ## What is read off a chart -/

theorem closes_get? (points : List EquityPoint) (k : ℤ) :
    (closes (curveOf points)).get? k = ((kept (fun p : EquityPoint => dateOf p.ts) points).get? k).map EquityPoint.equity := by
  unfold closes curveOf
  rw [List.foldl_map, Dict.get?_foldl_set (fun p : EquityPoint => dateOf p.ts) EquityPoint.equity, Dict.get?_empty,
    Option.or_none, get?_kept]

/-- The returns are read off the closes. -/
theorem dailyReturns_congr (quotient : ℚ → ℚ → ℚ) {curve curve' : List (ℤ × ℚ)}
    (h : ∀ k, (closes curve).get? k = (closes curve').get? k) : dailyReturns quotient curve = dailyReturns quotient curve' := by
  have hkeys : (closes curve).keys.insertionSort (· ≤ ·) = (closes curve').keys.insertionSort (· ≤ ·) := by
    have hperm : ((closes curve).keys).Perm (closes curve').keys := by
      refine (List.perm_ext_iff_of_nodup (closes curve).nodup (closes curve').nodup).2 fun k => ?_
      exact (Dict.mem_keys_iff _ k).trans (h k ▸ (Dict.mem_keys_iff _ k).symm)
    refine List.Perm.eq_of_pairwise (fun a b _ _ hab hba => le_antisymm hab hba) (List.pairwise_insertionSort ..)
      (List.pairwise_insertionSort ..) ?_
    exact ((List.perm_insertionSort ..).trans hperm).trans (List.perm_insertionSort ..).symm
  unfold dailyReturns
  simp only [hkeys, h]

/-- **A chart is as good as what it was drawn from**: thinned again to a wider width it is the chart of that width, and its daily
returns are the account's. -/
theorem chart_reread {name name' : String} {narrow wide : ℤ} (hnarrow : resolve name = .ok narrow)
    (hwide : resolve name' = .ok wide) (hle : narrow ≤ wide) {history : List EquityPoint}
    (h : history.Pairwise fun p q => p.ts ≤ q.ts) :
    ∃ chart, downsample history narrow = .ok chart ∧ downsample chart wide = downsample history wide ∧
      ((∀ p ∈ history, 0 ≤ p.ts) → ∀ quotient : ℚ → ℚ → ℚ,
        dailyReturns quotient (curveOf chart) = dailyReturns quotient (curveOf history)) := by
  obtain ⟨hpos, hwidth, hwhole, k, hk, hday⟩ := offered_seconds hnarrow
  obtain ⟨j, hj, hcoarse⟩ := offered_divides hnarrow hwide hle
  have hordered := buckets_ordered hwidth h
  refine ⟨_, downsample_offered hnarrow history, ?_, fun hsince quotient => dailyReturns_congr quotient fun d => ?_⟩
  · rw [downsample_offered hwide, downsample_offered hwide]
    have hkey : (fun p : EquityPoint => bucketOf wide p.ts) = fun p : EquityPoint => bucketOf narrow p.ts / j := by
      funext p
      exact bucketOf_coarse hwidth hcoarse p.ts
    rw [hkey, lastOfEach_coarse (g := (· / j)) hordered]
  · rw [closes_get?, closes_get?]
    have hdate : ∀ p ∈ history, dateOf p.ts = bucketOf narrow p.ts / k := fun p hp =>
      dateOf_coarse hwidth hwhole hday (hsince p hp)
    have hchart : ∀ p ∈ lastOfEach (fun point => bucketOf narrow point.ts) history, dateOf p.ts = bucketOf narrow p.ts / k :=
      fun p hp => hdate p (mem_lastOfEach.1 hp).mem
    rw [get?_kept_congr hchart, get?_kept_congr hdate, kept_coarse (g := (· / k)) hordered]

theorem chart_reread_day :
    let history := [recorded 0 100, recorded hour 101, recorded (day + minute) 102].map toPoint
    ∃ chart, downsample history minute = .ok chart ∧ downsample chart day = downsample history day ∧
      ∀ quotient : ℚ → ℚ → ℚ, dailyReturns quotient (curveOf chart) = dailyReturns quotient (curveOf history) := by
  intro history
  obtain ⟨chart, hchart, hwider, hreturns⟩ := @chart_reread "1m" "1d" minute day rfl rfl (by decide) history (by decide +kernel)
  exact ⟨chart, hchart, hwider, hreturns (by decide +kernel)⟩

end EquityCurve
end Atp
