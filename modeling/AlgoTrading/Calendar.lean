import AlgoTrading.BarFeed
/-!
# Calendar — exchange sessions, by day and by instant

`TradingCalendar` of `clock.py`.  The sessions of an exchange and the bounds of its local days are tables of another library,
so they are the calendar's fields, with what any of them satisfies: the sessions come one after the other, every instant
falls on one local day, and no zone is a day or more from UTC.
-/
namespace Atp

/-- One trading session.  `day` is the exchange-local date it is named by. -/
structure Session where
  day : ℤ
  openAt : ℤ
  closeAt : ℤ
deriving DecidableEq

/-- `session.open_at <= ts < session.close_at`. -/
def Session.inProgress (s : Session) (ts : ℤ) : Bool := s.openAt ≤ ts && ts < s.closeAt

/-- `TradingCalendar`.  A day is a number of days, and `dayStart` the instant of its local midnight. -/
structure TradingCalendar where
  sessionOn : ℤ → Option Session
  dayStart : ℤ → ℤ
  localDate : ℤ → ℤ
  named : ∀ {d s}, sessionOn d = some s → s.day = d
  proper : ∀ {d s}, sessionOn d = some s → s.openAt ≤ s.closeAt
  ordered : ∀ {d e s t}, sessionOn d = some s → sessionOn e = some t → d < e → s.closeAt ≤ t.openAt
  rising : ∀ d, dayStart d < dayStart (d + 1)
  offset : ∀ d, 86400 * (d - 1) < dayStart d ∧ dayStart d < 86400 * (d + 1)
  dated : ∀ ts, dayStart (localDate ts) ≤ ts ∧ ts < dayStart (localDate ts + 1)

/-- The days of `[first, last]`, in order. -/
def daysFrom (first last : ℤ) : List ℤ := (List.range (last - first + 1).toNat).map fun i : ℕ => first + (i : ℤ)

namespace TradingCalendar

variable (cal : TradingCalendar)

/-- **`sessions`**: every session of `[first, last]`, chronological. -/
def sessions (first last : ℤ) : List Session := (daysFrom first last).filterMap cal.sessionOn

/-- `day_bounds`. -/
def dayBounds (day : ℤ) : ℤ × ℤ := (cal.dayStart day, cal.dayStart (day + 1))

/-- `is_open`. -/
def isOpen (ts : ℤ) : Bool := (cal.sessionOn (cal.localDate ts)).any (·.inProgress ts)

/-- `_MAX_LOOKAHEAD_DAYS`. -/
def maxLookaheadDays : ℕ := 400

def nextOpenFrom (after : ℤ) : ℕ → ℤ → Except Exc ℤ
  | 0, _ => .error ⟨.valueError, [.lit "no session opens within 400 days of ", .ts after]⟩
  | fuel + 1, day =>
    match cal.sessionOn day with
    | some s => if after < s.openAt then .ok s.openAt else nextOpenFrom after fuel (day + 1)
    | none => nextOpenFrom after fuel (day + 1)

/-- **`next_open`**: the first open strictly after. -/
def nextOpen (after : ℤ) : Except Exc ℤ := cal.nextOpenFrom after maxLookaheadDays (cal.localDate after)

theorem mem_daysFrom {first last d : ℤ} : d ∈ daysFrom first last ↔ first ≤ d ∧ d ≤ last := by
  unfold daysFrom
  simp only [List.mem_map, List.mem_range]
  constructor
  · rintro ⟨i, hi, rfl⟩
    omega
  · intro h
    exact ⟨(d - first).toNat, by omega, by omega⟩

theorem daysFrom_ascending (first last : ℤ) : (daysFrom first last).Pairwise (· < ·) := by
  unfold daysFrom
  refine List.pairwise_map.2 (List.pairwise_lt_range.imp fun h => ?_)
  omega

variable {cal}

theorem mem_sessions {first last : ℤ} {s : Session} :
    s ∈ cal.sessions first last ↔ ∃ d, first ≤ d ∧ d ≤ last ∧ cal.sessionOn d = some s := by
  unfold sessions
  simp only [List.mem_filterMap, mem_daysFrom, and_assoc]

/-- **The sessions of a range come one after the other.** -/
theorem sessions_ordered (first last : ℤ) :
    (cal.sessions first last).Pairwise fun s t => s.day < t.day ∧ s.closeAt ≤ t.openAt := by
  unfold sessions
  rw [List.pairwise_filterMap]
  refine (daysFrom_ascending first last).imp fun hlt s hs t ht => ?_
  exact ⟨by rw [cal.named hs, cal.named ht]; exact hlt, cal.ordered hs ht hlt⟩

theorem dayStart_lt {d e : ℤ} (h : d < e) : cal.dayStart (d + 1) ≤ cal.dayStart e := by
  have hstep (n : ℕ) : cal.dayStart (d + 1) ≤ cal.dayStart (d + 1 + n) := by
    induction n with
    | zero => simp
    | succ n ih =>
      have hlength := cal.rising (d + 1 + n)
      push_cast
      rw [← add_assoc]
      omega
  obtain ⟨n, rfl⟩ : ∃ n : ℕ, e = d + 1 + n := ⟨(e - (d + 1)).toNat, by omega⟩
  exact hstep n

/-- A session in the afternoon of every day. -/
def everyDay : TradingCalendar where
  sessionOn d := some ⟨d, 86400 * d + 50000, 86400 * d + 60000⟩
  dayStart d := 86400 * d
  localDate ts := ts / 86400
  named h := by cases h; rfl
  proper h := by cases h; dsimp only; omega
  ordered h h' hlt := by cases h; cases h'; dsimp only; omega
  rising d := by omega
  offset d := by omega
  dated ts := by omega

end TradingCalendar
end Atp
