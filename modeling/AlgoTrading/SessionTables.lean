import AlgoTrading.Calendar
import Mathlib.Data.List.Sort
/-!
# SessionTables — the calendar's queries over a table of sessions

`TradingCalendar` of `clock.py` again, as it asks its sessions: a year at a time, from the exchange's library, and refusing
a year outside the holiday rules.  Each query by an instant is a walk of days from that instant's exchange-local date;
`walk_total` and `walk_some` say where a walk stops, and what the queries answer follows from the order of the sessions.
-/
namespace Atp

/-- What `pandas_market_calendars` lists for an exchange: the schedule of each year, ascending, each session on its own
exchange-local date.  `covered` is the years its holiday rules cover, where they say. -/
structure ExchangeSchedule where
  exchange : String := "NYSE"
  yearOf : ℤ → ℤ
  schedule : ℤ → List Session
  covered : Option (ℤ × ℤ) := none
  dayStart : ℤ → ℤ
  localDate : ℤ → ℤ
  years : ∀ {d e}, d ≤ e → yearOf d ≤ yearOf e
  ascending : ∀ y, (schedule y).Pairwise fun s t => s.day < t.day
  filed : ∀ {y s}, s ∈ schedule y → yearOf s.day = y
  sameDate : ∀ {y s}, s ∈ schedule y → dayStart s.day ≤ s.openAt ∧ s.openAt < s.closeAt ∧ s.closeAt < dayStart (s.day + 1)
  rising : ∀ d, dayStart d < dayStart (d + 1)
  offset : ∀ d, 86400 * (d - 1) < dayStart d ∧ dayStart d < 86400 * (d + 1)
  dated : ∀ ts, dayStart (localDate ts) ≤ ts ∧ ts < dayStart (localDate ts + 1)

namespace ExchangeSchedule

variable (sch : ExchangeSchedule)

/-- The holiday rules cover the year. -/
def Covers (year : ℤ) : Prop := ∀ range ∈ sch.covered, range.1 ≤ year ∧ year ≤ range.2

instance (year : ℤ) : Decidable (sch.Covers year) := inferInstanceAs (Decidable (∀ range ∈ sch.covered, _))

/-- **`_year`**: every session of a year, ascending. -/
def year (y : ℤ) : Except Exc (List Session) :=
  match sch.covered with
  | none => .ok (sch.schedule y)
  | some (first, last) =>
    if first ≤ y ∧ y ≤ last then .ok (sch.schedule y)
    else .error ⟨.valueError, [.lit sch.exchange, .lit " holiday rules only cover ", .ts first, .lit " to ", .ts last,
      .lit "; outside that range weekends are still excluded but holidays are not, so ", .ts y,
      .lit " would report closures as ordinary sessions"]⟩

/-- **`session_on`**. -/
def sessionOn (day : ℤ) : Except Exc (Option Session) := (sch.year (sch.yearOf day)).map (·.find? (·.day = day))

/-- **`sessions`**: every session of `[first, last]`, year by year. -/
def sessions (first last : ℤ) : Except Exc (List Session) :=
  if last < first then .error ⟨.valueError, [.lit "first must be on or before last, got ", .ts first, .lit " > ", .ts last]⟩
  else ((daysFrom (sch.yearOf first) (sch.yearOf last)).mapM sch.year).map fun years =>
    years.flatten.filter fun s => first ≤ s.day ∧ s.day ≤ last

/-- **`is_open`**. -/
def isOpen (ts : ℤ) : Except Exc Bool := (sch.sessionOn (sch.localDate ts)).map fun found => found.any (·.inProgress ts)

/-- A walk of so many days: the first session it takes. -/
def walk (step : ℤ) (takes : Session → Bool) : ℕ → ℤ → Except Exc (Option Session)
  | 0, _ => .ok none
  | fuel + 1, day =>
    match sch.sessionOn day with
    | .error e => .error e
    | .ok found =>
      match found.filter takes with
      | some s => .ok (some s)
      | none => walk step takes fuel (day + step)

/-- **`next_open`**: the first open strictly after. -/
def nextOpen (after : ℤ) : Except Exc ℤ :=
  match sch.walk 1 (fun s => after < s.openAt) TradingCalendar.maxLookaheadDays (sch.localDate after) with
  | .error e => .error e
  | .ok (some s) => .ok s.openAt
  | .ok none => .error ⟨.valueError, [.lit "no ", .lit sch.exchange, .lit " session opens within 400 days of ", .ts after]⟩

/-- **`previous_session`**: the last to have closed, at the instant or before it. -/
def previousSession (before : ℤ) : Except Exc (Option Session) :=
  sch.walk (-1) (fun s => s.closeAt ≤ before) TradingCalendar.maxLookaheadDays (sch.localDate before)

/-! ## The table -/

/-- A session of the table, of a year it covers. -/
def Listed (s : Session) : Prop := sch.Covers (sch.yearOf s.day) ∧ s ∈ sch.schedule (sch.yearOf s.day)

variable {sch}

theorem Covers.between {y z x : ℤ} (hy : sch.Covers y) (hz : sch.Covers z) (hyx : y ≤ x) (hxz : x ≤ z) : sch.Covers x :=
  fun range hrange => ⟨(hy range hrange).1.trans hyx, hxz.trans (hz range hrange).2⟩

theorem covers_days {d e x : ℤ} (hd : sch.Covers (sch.yearOf d)) (he : sch.Covers (sch.yearOf e)) (hdx : d ≤ x) (hxe : x ≤ e) :
    sch.Covers (sch.yearOf x) := hd.between he (sch.years hdx) (sch.years hxe)

theorem dayStart_mono {d e : ℤ} (h : d ≤ e) : sch.dayStart d ≤ sch.dayStart e := by
  induction e, h using Int.leInduction with
  | base => exact le_rfl
  | succ e _ ih => exact ih.trans (sch.rising e).le

theorem listed_unique {s t : Session} (hs : sch.Listed s) (ht : sch.Listed t) (h : s.day = t.day) : s = t := by
  have hnodup : ((sch.schedule (sch.yearOf t.day)).map Session.day).Nodup :=
    List.pairwise_map.2 ((sch.ascending _).imp ne_of_lt)
  exact List.inj_on_of_nodup_map hnodup (h ▸ hs.2) ht.2 h

/-- **The sessions of two days come one after the other.** -/
theorem listed_ordered {s t : Session} (hs : sch.Listed s) (ht : sch.Listed t) (h : s.day < t.day) : s.closeAt < t.openAt :=
  (sch.sameDate hs.2).2.2.trans_le ((dayStart_mono (by omega)).trans (sch.sameDate ht.2).1)

theorem year_ok {y : ℤ} (h : sch.Covers y) : sch.year y = .ok (sch.schedule y) := by
  unfold year
  cases hc : sch.covered with
  | none => rfl
  | some range => exact if_pos (h range hc)

theorem year_error {y : ℤ} (h : ¬sch.Covers y) : ∃ e, sch.year y = .error e := by
  unfold year
  cases hc : sch.covered with
  | none => exact absurd (fun range hrange => by rw [hc] at hrange; cases hrange) h
  | some range =>
    refine ⟨_, if_neg fun hin => h fun r hr => ?_⟩
    rw [hc] at hr
    cases hr
    exact hin

/-- **What the calendar answers of a day**: its session, where its year is covered. -/
theorem sessionOn_eq_ok {day : ℤ} {found : Option Session} (h : sch.sessionOn day = .ok found) :
    sch.Covers (sch.yearOf day) ∧ ∀ s, found = some s ↔ sch.Listed s ∧ s.day = day := by
  unfold sessionOn at h
  by_cases hc : sch.Covers (sch.yearOf day)
  · rw [year_ok hc] at h
    have hfind : (sch.schedule (sch.yearOf day)).find? (·.day = day) = found := Except.ok.inj h
    refine ⟨hc, fun s => ⟨fun hs => ?_, ?_⟩⟩
    · rw [hs] at hfind
      obtain rfl : s.day = day := by simpa using List.find?_some hfind
      exact ⟨⟨hc, List.mem_of_find?_eq_some hfind⟩, rfl⟩
    · rintro ⟨hs, rfl⟩
      cases found with
      | none => exact absurd (by simp) (List.find?_eq_none.1 hfind s hs.2)
      | some t =>
        have hday : t.day = s.day := by simpa using List.find?_some hfind
        have ht : sch.Listed t := by
          rw [Listed, hday]
          exact ⟨hc, List.mem_of_find?_eq_some hfind⟩
        rw [listed_unique ht hs hday]
  · obtain ⟨e, he⟩ := year_error hc
    rw [he] at h
    cases h

theorem sessionOn_ok {day : ℤ} (h : sch.Covers (sch.yearOf day)) : ∃ found, sch.sessionOn day = .ok found :=
  ⟨_, by rw [sessionOn, year_ok h]; rfl⟩

/-! ## Where a walk stops -/

section
variable {step : ℤ} {takes : Session → Bool}

/-- **A walk that took a session**: the days to it are covered, and none before it had one to take. -/
theorem walk_some : ∀ {fuel : ℕ} {day : ℤ} {s : Session}, sch.walk step takes fuel day = .ok (some s) →
    ∃ i : ℕ, i < fuel ∧ s.day = day + step * i ∧ sch.Listed s ∧ takes s = true ∧
      sch.Covers (sch.yearOf day) ∧ ∀ j : ℕ, j < i → ∀ t, sch.Listed t → t.day = day + step * j → takes t = false
  | 0, day, s, h => by cases h
  | fuel + 1, day, s, h => by
    unfold walk at h
    cases hfound : sch.sessionOn day with
    | error e =>
      rw [hfound] at h
      cases h
    | ok found =>
      obtain ⟨hc, hlisted⟩ := sessionOn_eq_ok hfound
      rw [hfound] at h
      dsimp only at h
      cases htaken : found.filter takes with
      | some t =>
        rw [htaken] at h
        cases h
        obtain ⟨ht, htakes⟩ := Option.filter_eq_some_iff.1 htaken
        obtain ⟨hs, hday⟩ := (hlisted s).1 ht
        exact ⟨0, by omega, by simpa using hday, hs, htakes, hc, fun j hj => absurd hj (Nat.not_lt_zero j)⟩
      | none =>
        rw [htaken] at h
        obtain ⟨i, hi, hday, hs, htakes, -, hbefore⟩ := walk_some h
        refine ⟨i + 1, by omega, by rw [hday]; push_cast; ring, hs, htakes, hc, fun j hj t ht htday => ?_⟩
        cases j with
        | zero =>
          have hmem : found = some t := (hlisted t).2 ⟨ht, by simpa using htday⟩
          rw [hmem, Option.filter_eq_none_iff] at htaken
          simpa using htaken t rfl
        | succ j => exact hbefore j (by omega) t ht (by rw [htday]; push_cast; ring)

/-- **A walk towards a session it would take takes one.** -/
theorem walk_total : ∀ {fuel : ℕ} {day : ℤ} {s : Session} {i : ℕ}, i < fuel → s.day = day + step * i → sch.Listed s →
    takes s = true → (∀ j : ℕ, j ≤ i → sch.Covers (sch.yearOf (day + step * j))) → ∃ t, sch.walk step takes fuel day = .ok (some t)
  | 0, day, s, i, hi, _, _, _, _ => absurd hi (Nat.not_lt_zero i)
  | fuel + 1, day, s, i, hi, hday, hs, htakes, hcovers => by
    obtain ⟨found, hfound⟩ := sessionOn_ok (by simpa using hcovers 0 (Nat.zero_le i))
    obtain ⟨-, hlisted⟩ := sessionOn_eq_ok hfound
    unfold walk
    rw [hfound]
    dsimp only
    cases htaken : found.filter takes with
    | some t => exact ⟨t, rfl⟩
    | none =>
      cases i with
      | zero =>
        have hmem : found = some s := (hlisted s).2 ⟨hs, by simpa using hday⟩
        rw [hmem, Option.filter_eq_none_iff] at htaken
        exact absurd htakes (htaken s rfl)
      | succ i =>
        refine walk_total (i := i) (by omega) (by rw [hday]; push_cast; ring) hs htakes fun j hj => ?_
        have hj' := hcovers (j + 1) (by omega)
        rwa [show day + step + step * (j : ℤ) = day + step * ((j + 1 : ℕ) : ℤ) by push_cast; ring]

/-- **Forward**, over days that are covered as the first and the last of them are. -/
theorem walk_forward {fuel : ℕ} {day : ℤ} {s : Session} (hc : sch.Covers (sch.yearOf day)) (hs : sch.Listed s) (htakes : takes s = true)
    (hday : day ≤ s.day) (hfuel : s.day < day + fuel) : ∃ t, sch.walk 1 takes fuel day = .ok (some t) := by
  refine walk_total (i := (s.day - day).toNat) (by omega) (by omega) hs htakes fun j hj => ?_
  exact covers_days hc hs.1 (by omega) (by omega)

theorem walk_forward_some {fuel : ℕ} {day : ℤ} {s : Session} (h : sch.walk 1 takes fuel day = .ok (some s)) :
    sch.Covers (sch.yearOf day) ∧ sch.Listed s ∧ takes s = true ∧ day ≤ s.day ∧ s.day < day + fuel ∧
      ∀ t, sch.Listed t → day ≤ t.day → t.day < s.day → takes t = false := by
  obtain ⟨i, hi, hday, hs, htakes, hc, hbefore⟩ := walk_some h
  refine ⟨hc, hs, htakes, by omega, by omega, fun t ht hfrom hto => ?_⟩
  exact hbefore (t.day - day).toNat (by omega) t ht (by omega)

/-- **Backward**, the same. -/
theorem walk_backward {fuel : ℕ} {day : ℤ} {s : Session} (hc : sch.Covers (sch.yearOf day)) (hs : sch.Listed s) (htakes : takes s = true)
    (hday : s.day ≤ day) (hfuel : day < s.day + fuel) : ∃ t, sch.walk (-1) takes fuel day = .ok (some t) := by
  refine walk_total (i := (day - s.day).toNat) (by omega) (by omega) hs htakes fun j hj => ?_
  exact covers_days hs.1 hc (by omega) (by omega)

theorem walk_backward_some {fuel : ℕ} {day : ℤ} {s : Session} (h : sch.walk (-1) takes fuel day = .ok (some s)) :
    sch.Listed s ∧ takes s = true ∧ ∀ t, sch.Listed t → s.day < t.day → t.day ≤ day → takes t = false := by
  obtain ⟨i, hi, hday, hs, htakes, -, hbefore⟩ := walk_some h
  refine ⟨hs, htakes, fun t ht hfrom hto => ?_⟩
  exact hbefore (day - t.day).toNat (by omega) t ht (by omega)

end

/-! ## The queries -/

section
variable {ts : ℤ} {s : Session}

theorem lt_of_dayStart_lt {d e : ℤ} (h : sch.dayStart d < sch.dayStart e) : d < e :=
  not_le.1 fun hle => absurd (dayStart_mono hle) (not_le.2 h)

/-- A session that has not closed by an instant is of its date or a later one. -/
theorem localDate_le (hs : sch.Listed s) (h : ts < s.closeAt) : sch.localDate ts ≤ s.day := by
  have hlt := lt_of_dayStart_lt (((sch.dated ts).1.trans_lt h).trans (sch.sameDate hs.2).2.2)
  omega

/-- A session that has opened by an instant is of its date or an earlier one. -/
theorem le_localDate (hs : sch.Listed s) (h : s.openAt ≤ ts) : s.day ≤ sch.localDate ts := by
  have hlt := lt_of_dayStart_lt ((sch.sameDate hs.2).1.trans_lt (h.trans_lt (sch.dated ts).2))
  omega

theorem inProgress_iff : s.inProgress ts = true ↔ s.openAt ≤ ts ∧ ts < s.closeAt := by
  simp [Session.inProgress]

/-- **`is_open`** of an instant whose year is covered: whether a session covers it. -/
theorem isOpen_eq (hc : sch.Covers (sch.yearOf (sch.localDate ts))) : ∃ b, sch.isOpen ts = .ok b ∧
    (b = true ↔ ∃ s, sch.Listed s ∧ s.openAt ≤ ts ∧ ts < s.closeAt) := by
  obtain ⟨found, hfound⟩ := sessionOn_ok hc
  obtain ⟨-, hlisted⟩ := sessionOn_eq_ok hfound
  refine ⟨found.any (·.inProgress ts), by rw [isOpen, hfound]; rfl, ?_⟩
  rw [Option.any_eq_true]
  constructor
  · rintro ⟨s, hs, hin⟩
    exact ⟨s, ((hlisted s).1 hs).1, inProgress_iff.1 hin⟩
  · rintro ⟨s, hs, hopen, hclose⟩
    exact ⟨s, (hlisted s).2 ⟨hs, le_antisymm (le_localDate hs hopen) (localDate_le hs hclose)⟩, inProgress_iff.2 ⟨hopen, hclose⟩⟩

/-- An open of the table after an instant. -/
def Opens (sch : ExchangeSchedule) (after : ℤ) : Set ℤ := {o | ∃ s, sch.Listed s ∧ s.openAt = o ∧ after < o}

/-- **What `next_open` returns is the least open after.** -/
theorem nextOpen_isLeast {n : ℤ} (h : sch.nextOpen ts = .ok n) : IsLeast (sch.Opens ts) n := by
  unfold nextOpen at h
  split at h
  · cases h
  · rename_i t ht
    obtain rfl := Except.ok.inj h
    obtain ⟨-, hlisted, htakes, -, -, hbefore⟩ := walk_forward_some ht
    refine ⟨⟨t, hlisted, rfl, of_decide_eq_true htakes⟩, ?_⟩
    rintro o ⟨u, hu, rfl, hafter⟩
    have hudate : sch.localDate ts ≤ u.day := localDate_le hu (hafter.trans (sch.sameDate hu.2).2.1)
    obtain hlt | heq | hgt := lt_trichotomy u.day t.day
    · exact absurd hafter (of_decide_eq_false (hbefore u hu hudate hlt))
    · rw [listed_unique hu hlisted heq]
    · exact ((sch.sameDate hlisted.2).2.1.trans (listed_ordered hlisted hu hgt)).le
  · cases h

/-- It returns one where one is near enough. -/
theorem nextOpen_ok (hc : sch.Covers (sch.yearOf (sch.localDate ts))) (hs : sch.Listed s) (h : ts < s.openAt)
    (hnear : s.day < sch.localDate ts + TradingCalendar.maxLookaheadDays) : ∃ n, sch.nextOpen ts = .ok n := by
  have hday : sch.localDate ts ≤ s.day := localDate_le hs (h.trans (sch.sameDate hs.2).2.1)
  obtain ⟨t, ht⟩ : ∃ t, sch.walk 1 (fun s => decide (ts < s.openAt)) TradingCalendar.maxLookaheadDays (sch.localDate ts) =
      .ok (some t) := walk_forward hc hs (decide_eq_true h) hday hnear
  exact ⟨t.openAt, by rw [nextOpen, ht]⟩

/-- A session closed by an instant, and none closed later by it. -/
def LastClosed (sch : ExchangeSchedule) (before : ℤ) (s : Session) : Prop :=
  sch.Listed s ∧ s.closeAt ≤ before ∧ ∀ t, sch.Listed t → t.closeAt ≤ before → t.closeAt ≤ s.closeAt

/-- **What `previous_session` returns is the last to have closed.** -/
theorem previousSession_lastClosed (h : sch.previousSession ts = .ok (some s)) : sch.LastClosed ts s := by
  obtain ⟨hlisted, htakes, hbefore⟩ := walk_backward_some h
  refine ⟨hlisted, of_decide_eq_true htakes, fun u hu hclose => ?_⟩
  have hudate : u.day ≤ sch.localDate ts := le_localDate hu ((sch.sameDate hu.2).2.1.le.trans hclose)
  obtain hlt | heq | hgt := lt_trichotomy u.day s.day
  · exact ((listed_ordered hu hlisted hlt).trans (sch.sameDate hlisted.2).2.1).le
  · rw [listed_unique hu hlisted heq]
  · exact absurd hclose (of_decide_eq_false (hbefore u hu hgt hudate))

theorem previousSession_ok (hc : sch.Covers (sch.yearOf (sch.localDate ts))) (hs : sch.Listed s) (h : s.closeAt ≤ ts)
    (hnear : sch.localDate ts < s.day + TradingCalendar.maxLookaheadDays) : ∃ t, sch.previousSession ts = .ok (some t) :=
  walk_backward hc hs (decide_eq_true h) (le_localDate hs ((sch.sameDate hs.2).2.1.le.trans h)) hnear

/-- **Between the last close and the next open nothing is open.** -/
theorem isOpen_between {n u : ℤ} (hprevious : sch.LastClosed ts s) (hnext : IsLeast (sch.Opens ts) n)
    (hshut : ¬∃ t, sch.Listed t ∧ t.openAt ≤ ts ∧ ts < t.closeAt) (hfrom : s.closeAt ≤ u) (hto : u < n) :
    sch.isOpen u = .ok false := by
  obtain ⟨hs, -, hlast⟩ := hprevious
  obtain ⟨⟨m, hm, rfl, -⟩, hleast⟩ := hnext
  have hc : sch.Covers (sch.yearOf (sch.localDate u)) :=
    covers_days hs.1 hm.1 (le_localDate hs ((sch.sameDate hs.2).2.1.le.trans hfrom))
      (localDate_le hm (hto.trans (sch.sameDate hm.2).2.1))
  obtain ⟨b, hb, hiff⟩ := isOpen_eq hc
  cases b with
  | false => exact hb
  | true =>
    obtain ⟨t, ht, hopen, hclose⟩ := hiff.1 rfl
    -- it opened by the instant, since the next open is later, and had closed by then, since nothing was open
    have hopened : t.openAt ≤ ts := not_lt.1 fun hlt => absurd (hleast ⟨t, ht, rfl, hlt⟩) (by omega)
    have hclosed : t.closeAt ≤ ts := not_lt.1 fun hlt => hshut ⟨t, ht, hopened, hlt⟩
    have := hlast t ht hclosed
    omega

theorem mapM_year : ∀ {years : List ℤ}, (∀ y ∈ years, sch.Covers y) → years.mapM sch.year = .ok (years.map sch.schedule)
  | [], _ => rfl
  | y :: years, h => by
    obtain ⟨hy, hrest⟩ := List.forall_mem_cons.1 h
    rw [List.mapM_cons, year_ok hy, mapM_year hrest]
    rfl

/-- **`sessions`**, where the years asked for are covered: the sessions of those dates, one after the other. -/
theorem sessions_eq {first last : ℤ} (hle : first ≤ last) (hfirst : sch.Covers (sch.yearOf first))
    (hlast : sch.Covers (sch.yearOf last)) : ∃ l, sch.sessions first last = .ok l ∧
      (∀ s, s ∈ l ↔ sch.Listed s ∧ first ≤ s.day ∧ s.day ≤ last) ∧ l.Pairwise fun s t => s.day < t.day ∧ s.closeAt < t.openAt := by
  have hcovers : ∀ y ∈ daysFrom (sch.yearOf first) (sch.yearOf last), sch.Covers y := fun y hy => by
    obtain ⟨hy, hy'⟩ := TradingCalendar.mem_daysFrom.1 hy
    exact hfirst.between hlast hy hy'
  have hlisted : ∀ y ∈ daysFrom (sch.yearOf first) (sch.yearOf last), ∀ s ∈ sch.schedule y, sch.Listed s := fun y hy s hs => by
    rw [Listed, sch.filed hs]
    exact ⟨hcovers y hy, hs⟩
  refine ⟨_, by rw [sessions, if_neg (not_lt.2 hle), mapM_year hcovers]; rfl, fun s => ?_, ?_⟩
  · simp only [List.mem_filter, List.mem_flatten, List.mem_map, decide_eq_true_eq, exists_exists_and_eq_and]
    constructor
    · rintro ⟨⟨y, hy, hs⟩, hin⟩
      exact ⟨hlisted y hy s hs, hin⟩
    · rintro ⟨hs, hin⟩
      exact ⟨⟨_, TradingCalendar.mem_daysFrom.2 ⟨sch.years hin.1, sch.years hin.2⟩, hs.2⟩, hin⟩
  · have hdays : ((daysFrom (sch.yearOf first) (sch.yearOf last)).map sch.schedule).flatten.Pairwise fun s t => s.day < t.day := by
      refine List.pairwise_flatten.2 ⟨?_, List.pairwise_map.2 ?_⟩
      · simp only [List.mem_map, forall_exists_index, and_imp, forall_apply_eq_imp_iff₂]
        exact fun y _ => sch.ascending y
      · refine (TradingCalendar.daysFrom_ascending _ _).imp fun {y z} hyz s hs t ht => not_le.1 fun hle => ?_
        have hyears := sch.years hle
        rw [sch.filed hs, sch.filed ht] at hyears
        omega
    refine (hdays.filter _).imp_of_mem fun {s t} hs ht hlt => ⟨hlt, ?_⟩
    have hmem : ∀ u ∈ ((daysFrom (sch.yearOf first) (sch.yearOf last)).map sch.schedule).flatten, sch.Listed u := fun u hu => by
      obtain ⟨l, hl, hu⟩ := List.mem_flatten.1 hu
      obtain ⟨y, hy, rfl⟩ := List.mem_map.1 hl
      exact hlisted y hy u hu
    exact listed_ordered (hmem s (List.mem_of_mem_filter hs)) (hmem t (List.mem_of_mem_filter ht)) hlt

end

/-! ## The calendar it is -/

/-- The sessions by day, with no year refused. -/
def calendar (sch : ExchangeSchedule) : TradingCalendar where
  sessionOn d := (sch.schedule (sch.yearOf d)).find? (·.day = d)
  dayStart := sch.dayStart
  localDate := sch.localDate
  named h := by simpa using List.find?_some h
  proper h := (sch.sameDate (List.mem_of_find?_eq_some h)).2.1.le
  ordered {d e s t} hs ht hlt := by
    obtain rfl : s.day = d := by simpa using List.find?_some hs
    obtain rfl : t.day = e := by simpa using List.find?_some ht
    have hclose := (sch.sameDate (List.mem_of_find?_eq_some hs)).2.2
    have hopen := (sch.sameDate (List.mem_of_find?_eq_some ht)).1
    exact (hclose.trans_le ((dayStart_mono (by omega)).trans hopen)).le
  rising := sch.rising
  offset := sch.offset
  dated := sch.dated

section
variable {ts : ℤ}

theorem sessionOn_calendar {day : ℤ} (hc : sch.Covers (sch.yearOf day)) : sch.sessionOn day = .ok (sch.calendar.sessionOn day) := by
  rw [sessionOn, year_ok hc]
  rfl

theorem isOpen_calendar (hc : sch.Covers (sch.yearOf (sch.localDate ts))) : sch.isOpen ts = .ok (sch.calendar.isOpen ts) := by
  rw [isOpen, sessionOn_calendar hc]
  rfl

theorem sessions_calendar {first last : ℤ} (hle : first ≤ last) (hfirst : sch.Covers (sch.yearOf first))
    (hlast : sch.Covers (sch.yearOf last)) : sch.sessions first last = .ok (sch.calendar.sessions first last) := by
  obtain ⟨l, hl, hmem, hpairwise⟩ := sessions_eq hle hfirst hlast
  have hsame : l = sch.calendar.sessions first last := by
    refine List.Pairwise.eq_of_mem_iff (r := fun s t : Session => s.day < t.day) (hpairwise.imp And.left)
      ((TradingCalendar.sessions_ordered first last).imp And.left) fun s => ?_
    rw [hmem, TradingCalendar.mem_sessions]
    constructor
    · rintro ⟨hs, hfrom, hto⟩
      obtain ⟨found, hfound⟩ := sessionOn_ok hs.1
      have hsome := ((sessionOn_eq_ok hfound).2 s).2 ⟨hs, rfl⟩
      rw [sessionOn_calendar hs.1, hsome] at hfound
      exact ⟨s.day, hfrom, hto, Except.ok.inj hfound⟩
    · rintro ⟨d, hfrom, hto, hs⟩
      have hc := covers_days hfirst hlast hfrom hto
      obtain ⟨hlisted, rfl⟩ := ((sessionOn_eq_ok (sessionOn_calendar hc)).2 s).1 hs
      exact ⟨hlisted, hfrom, hto⟩
  rw [hl, hsame]

/-- Where no year is refused, the walk to the next open is the calendar's. -/
theorem walk_nextOpenFrom (hall : ∀ y, sch.Covers y) {n : ℤ} : ∀ (fuel : ℕ) (day : ℤ),
    (∃ s, sch.walk 1 (fun s => decide (ts < s.openAt)) fuel day = .ok (some s) ∧ s.openAt = n) ↔
      sch.calendar.nextOpenFrom ts fuel day = .ok n
  | 0, day => by simp [walk, TradingCalendar.nextOpenFrom]
  | fuel + 1, day => by
    unfold walk TradingCalendar.nextOpenFrom
    rw [sessionOn_calendar (hall _)]
    dsimp only
    cases sch.calendar.sessionOn day with
    | none => exact walk_nextOpenFrom hall fuel (day + 1)
    | some s =>
      by_cases h : ts < s.openAt
      · simp [Option.filter, h]
      · simpa [Option.filter, h] using walk_nextOpenFrom hall fuel (day + 1)

theorem nextOpen_calendar (hall : ∀ y, sch.Covers y) {n : ℤ} : sch.nextOpen ts = .ok n ↔ sch.calendar.nextOpen ts = .ok n := by
  rw [TradingCalendar.nextOpen, show sch.calendar.localDate ts = sch.localDate ts from rfl, ← walk_nextOpenFrom hall]
  unfold nextOpen
  constructor
  · intro h
    split at h
    · cases h
    · rename_i s hs
      exact ⟨s, hs, Except.ok.inj h⟩
    · cases h
  · rintro ⟨s, hs, rfl⟩
    rw [hs]

end

/-! ## What the queries agree with -/

/-- **The queries agree with the table** wherever the years they ask about are covered. -/
theorem queries_agree (sch : ExchangeSchedule) (ts : ℤ) (hc : sch.Covers (sch.yearOf (sch.localDate ts))) :
    (∃ b, sch.isOpen ts = .ok b ∧ (b = true ↔ ∃ s, sch.Listed s ∧ s.openAt ≤ ts ∧ ts < s.closeAt)) ∧
    ((∃ s, sch.Listed s ∧ ts < s.openAt ∧ s.day < sch.localDate ts + TradingCalendar.maxLookaheadDays) →
      ∃ n, sch.nextOpen ts = .ok n ∧ IsLeast (sch.Opens ts) n) ∧
    ((∃ s, sch.Listed s ∧ s.closeAt ≤ ts ∧ sch.localDate ts < s.day + TradingCalendar.maxLookaheadDays) →
      ∃ s, sch.previousSession ts = .ok (some s) ∧ sch.LastClosed ts s) ∧
    ((¬∃ s, sch.Listed s ∧ s.openAt ≤ ts ∧ ts < s.closeAt) → ∀ s n, sch.previousSession ts = .ok (some s) →
      sch.nextOpen ts = .ok n → ∀ u, s.closeAt ≤ u → u < n → sch.isOpen u = .ok false) ∧
    (∀ first last, first ≤ last → sch.Covers (sch.yearOf first) → sch.Covers (sch.yearOf last) →
      ∃ l, sch.sessions first last = .ok l ∧ (∀ s, s ∈ l ↔ sch.Listed s ∧ first ≤ s.day ∧ s.day ≤ last) ∧
        l.Pairwise fun s t => s.day < t.day ∧ s.closeAt < t.openAt) := by
  refine ⟨isOpen_eq hc, ?_, ?_, ?_, fun first last => sessions_eq⟩
  · rintro ⟨s, hs, h, hnear⟩
    obtain ⟨n, hn⟩ := nextOpen_ok hc hs h hnear
    exact ⟨n, hn, nextOpen_isLeast hn⟩
  · rintro ⟨s, hs, h, hnear⟩
    obtain ⟨t, ht⟩ := previousSession_ok hc hs h hnear
    exact ⟨t, ht, previousSession_lastClosed ht⟩
  · intro hshut s n hs hn u hfrom hto
    exact isOpen_between (previousSession_lastClosed hs) (nextOpen_isLeast hn) hshut hfrom hto

/-- A session on each day of two years of ten days, and holiday rules for no others. -/
def twoYears : ExchangeSchedule where
  yearOf d := d / 10
  schedule y := (daysFrom (10 * y) (10 * y + 9)).map fun d => ⟨d, 86400 * d + 50000, 86400 * d + 60000⟩
  covered := some (1, 2)
  dayStart d := 86400 * d
  localDate ts := ts / 86400
  years h := by omega
  ascending y := List.pairwise_map.2 (TradingCalendar.daysFrom_ascending _ _)
  filed h := by
    obtain ⟨d, hd, rfl⟩ := List.mem_map.1 h
    obtain ⟨hfrom, hto⟩ := TradingCalendar.mem_daysFrom.1 hd
    dsimp only
    omega
  sameDate h := by
    obtain ⟨d, -, rfl⟩ := List.mem_map.1 h
    dsimp only
    omega
  rising := TradingCalendar.everyDay.rising
  offset := TradingCalendar.everyDay.offset
  dated := TradingCalendar.everyDay.dated

/-- **The second day of the first year**, before its session. -/
theorem queries_agree_twoYears : ∃ n s, twoYears.nextOpen 950400 = .ok n ∧ IsLeast (twoYears.Opens 950400) n ∧
    twoYears.previousSession 950400 = .ok (some s) ∧ twoYears.LastClosed 950400 s := by
  obtain ⟨-, hnext, hprevious, -, -⟩ := queries_agree twoYears 950400 (by decide)
  obtain ⟨n, hn, hleast⟩ := hnext ⟨⟨11, 86400 * 11 + 50000, 86400 * 11 + 60000⟩, ⟨by decide, by decide⟩, by decide, by decide⟩
  obtain ⟨s, hs, hlast⟩ := hprevious ⟨⟨10, 86400 * 10 + 50000, 86400 * 10 + 60000⟩, ⟨by decide, by decide⟩, by decide, by decide⟩
  exact ⟨n, s, hn, hleast, hs, hlast⟩

/-- **The last day of a year that is not covered**: a session opens on the morrow, and both queries raise. -/
theorem uncovered_raises :
    (∃ s, twoYears.Listed s ∧ 777600 < s.openAt ∧ s.day < twoYears.localDate 777600 + TradingCalendar.maxLookaheadDays) ∧
      (∀ n, twoYears.nextOpen 777600 ≠ .ok n) ∧ (∀ b, twoYears.isOpen 777600 ≠ .ok b) := by
  have hraises : ¬twoYears.Covers (twoYears.yearOf (twoYears.localDate 777600)) := by decide
  refine ⟨⟨⟨10, 86400 * 10 + 50000, 86400 * 10 + 60000⟩, ⟨by decide, by decide⟩, by decide, by decide⟩, fun n hn => ?_, fun b hb => ?_⟩
  · unfold nextOpen at hn
    split at hn
    · cases hn
    · rename_i s hs
      exact hraises (walk_forward_some hs).1
    · cases hn
  · unfold isOpen at hb
    cases hfound : twoYears.sessionOn (twoYears.localDate 777600) with
    | error e =>
      rw [hfound] at hb
      cases hb
    | ok found => exact hraises (sessionOn_eq_ok hfound).1

end ExchangeSchedule
end Atp
