import AlgoTrading.Staleness
import AlgoTrading.TradeUpdates
/-!
# ReconnectLadder — how a stream waits a venue out

The reconnect loops of `AlpacaRealtimeFeed._stream` and `AlpacaBroker.stream_trade_updates` over the backoff and the budget of
`ws.py`, for connections that fail, or that open and drop.  A permanent refusal ends either stream at once and is left out.
`climbs_iff` says that what a stream does is read off the outcomes alone, until one wait too many overflows.
-/
namespace Atp
namespace Ladder

open Atp.Stream (isFlap budgetExhausted nearest)

/-! ## The loops -/

def overflowError : Exc := ⟨.exception, [.lit "(34, 'Numerical result out of range')"]⟩

/-- `backoff_delay`, given what the generator draws: `2.0 ** 1024` is past every float. -/
def backoffDelay (base max_ : ℚ) (attempt : ℕ) (draw : ℚ) : Except Exc ℚ :=
  if 1024 < attempt then .error overflowError
  else .ok (min (base * 2 ^ ((attempt : ℤ) - 1)) max_ * (1 / 2 + draw / 2))

/-- How one attempt to connect comes out, with what the clock read and the generator drew. -/
inductive Outcome (φ : Type)
  | refused (error : List Piece) (now draw : ℚ)
  | lived (reconnectedAt connectedAt : ℚ) (frames : List φ) (now draw : ℚ)

/-- What a stream does that can be seen. -/
inductive Deed (ε : Type)
  | reconnected (gapSince reconnectedAt : ℚ) (attempts : ℕ)
  | event (e : ε)
  | slept (seconds : ℚ)
  | raised (exc : Exc)

/-- The last instant the data is known good, and when a frame last came in. -/
structure Gap where
  since : ℚ
  lastMessageAt : Option ℚ := none

/-- The locals of the loop. -/
structure Climb where
  gap : Gap
  attempts : ℕ := 0
  reconnecting : Bool := false
  firstFailureAt : Option ℚ := none

/-- What the two loops differ in: the error they give up with, and what they make of the frames of a connection. -/
structure Loop (φ ε : Type) where
  base : ℚ
  max_ : ℚ
  budget : ℚ
  cls : ErrorClass
  name : String
  events : List φ → List ε
  known : List φ → Gap → Gap

namespace Loop

variable {φ ε : Type} (l : Loop φ ε)

def gone (error : List Piece) (attempts : ℕ) : Exc :=
  ⟨l.cls, [.lit l.name, .lit " did not come back within ", .dec (nearest l.budget), .lit "s (", .dec attempts,
    .lit " attempts): "] ++ error⟩

def dropping (attempts : ℕ) : Exc :=
  ⟨l.cls, [.lit l.name, .lit " kept dropping within ", .dec 30, .lit "s of connecting for ", .dec (nearest l.budget),
    .lit "s (", .dec attempts, .lit " attempts)"]⟩

/-- A failed attempt, or a flap. -/
def failed (exc : ℕ → Exc) (now draw : ℚ) (s : Climb) : Deed ε × Option Climb :=
  let attempts := s.attempts + 1
  let since := s.firstFailureAt.getD now
  if budgetExhausted since now l.budget then (.raised (exc attempts), none)
  else match backoffDelay l.base l.max_ attempts draw with
    | .error overflow => (.raised overflow, none)
    | .ok delay => (.slept delay, some { s with attempts, firstFailureAt := some since, reconnecting := true })

/-- **One turn of the outer loop**: what it does, and its locals after it, unless it raised. -/
def turn (s : Climb) : Outcome φ → List (Deed ε) × Option Climb
  | .refused error now draw =>
    let last := l.failed (l.gone error) now draw s
    ([last.1], last.2)
  | .lived reconnectedAt connectedAt frames now draw =>
    let opening := if s.reconnecting then [.reconnected s.gap.since reconnectedAt (s.attempts + 1)] else []
    let yielded := opening ++ (l.events frames).map .event
    let s := { s with gap := l.known frames s.gap, reconnecting := true }
    if !isFlap connectedAt now then (yielded, some { s with attempts := 0, firstFailureAt := none })
    else
      let last := l.failed l.dropping now draw s
      (yielded ++ [last.1], last.2)

/-- The loop, over the outcomes it meets: what it does at each. -/
def run : Climb → List (Outcome φ) → List (List (Deed ε))
  | _, [] => []
  | s, o :: rest =>
    match l.turn s o with
    | (deeds, none) => [deeds]
    | (deeds, some s) => deeds :: run s rest

end Loop

/-- **`AlpacaRealtimeFeed._stream`**: a frame is the instant it came in at and its events. -/
def feedStream {ε : Type} (base max_ budget : ℚ) : Loop (ℚ × List ε) ε where
  base := base
  max_ := max_
  budget := budget
  cls := .dataError
  name := "Alpaca stream"
  events frames := frames.flatMap Prod.snd
  known frames gap := frames.foldl (fun _ frame => { since := frame.1, lastMessageAt := some frame.1 }) gap

/-- **`stream_trade_updates`**: a frame is its messages, each the update it translates to, if it is one. -/
def tradeUpdates (base max_ budget : ℚ) : Loop (List (Option TradeUpdate)) TradeUpdate where
  base := base
  max_ := max_
  budget := budget
  cls := .brokerConnectionError
  name := "Alpaca trade updates"
  events frames := frames.flatten.reduceOption
  known frames gap := frames.flatten.reduceOption.foldl (fun gap update => { gap with since := update.at }) gap

/-! ## What a stream is meant to do -/

section
variable {φ ε : Type}

/-- When a failed attempt failed, or a flap ended. -/
def Outcome.failedAt : Outcome φ → Option ℚ
  | .refused _ now _ => some now
  | .lived _ connectedAt _ now _ => if isFlap connectedAt now then some now else none

def Outcome.opened : Outcome φ → Bool
  | .refused .. => false
  | .lived .. => true

def Outcome.events (of : List φ → List ε) : Outcome φ → List ε
  | .refused .. => []
  | .lived _ _ frames _ _ => of frames

/-- The failures and flaps since the last connection that lived, or since the start. -/
def streak (history : List (Outcome φ)) : List ℚ :=
  history.foldl (fun s o => o.failedAt.elim [] fun now => s ++ [now]) []

/-- **The budget is spent**: a failure or a flap at least that long after the first since the last connection that lived. -/
def Due (budget : ℚ) (history : List (Outcome φ)) (o : Outcome φ) : Prop :=
  ∃ now first, o.failedAt = some now ∧ (streak (history ++ [o])).head? = some first ∧ budget ≤ now - first

def Deed.isYield : Deed ε → Bool
  | .reconnected .. | .event _ => true
  | .slept _ | .raised _ => false

/-- What an outcome is met with. -/
structure Turns (l : Loop φ ε) (history : List (Outcome φ)) (o : Outcome φ) (deeds : List (Deed ε)) : Prop where
  raised : (∃ exc, .raised exc ∈ deeds) ↔ Due l.budget history o
  named : ∀ exc, .raised exc ∈ deeds → exc.cls = l.cls
  slept : o.failedAt.isSome → ¬Due l.budget history o → ∃ seconds, deeds.getLast? = some (.slept seconds)
  yields : ∃ since at_ attempts, deeds.filter Deed.isYield =
    (if o.opened ∧ history ≠ [] then [.reconnected since at_ attempts] else []) ++ (o.events l.events).map .event

/-- **The stream meets every outcome until the budget is spent**, and none after. -/
inductive Climbs (l : Loop φ ε) : List (Outcome φ) → List (Outcome φ) → List (List (Deed ε)) → Prop
  | nil {history} : Climbs l history [] []
  | gaveUp {history o rest deeds} : Due l.budget history o → Turns l history o deeds → Climbs l history (o :: rest) [deeds]
  | goesOn {history o rest deeds ahead} : ¬Due l.budget history o → Turns l history o deeds →
      Climbs l (history ++ [o]) rest ahead → Climbs l history (o :: rest) (deeds :: ahead)

/-- **Until the budget is spent there are no more than 1024 failures and flaps in a row.** -/
def Paced (budget : ℚ) : List (Outcome φ) → List (Outcome φ) → Prop
  | _, [] => True
  | history, o :: rest =>
    Due budget history o ∨ ((o.failedAt.isSome → (streak history).length < 1024) ∧ Paced budget (history ++ [o]) rest)

/-! ## What it does -/

theorem streak_concat (history : List (Outcome φ)) (o : Outcome φ) :
    streak (history ++ [o]) = o.failedAt.elim [] fun now => streak history ++ [now] := by
  unfold streak
  rw [List.foldl_append]
  rfl

variable {l : Loop φ ε} {history rest : List (Outcome φ)} {o : Outcome φ} {s : Climb} {now draw : ℚ} {exc : ℕ → Exc}

theorem due_iff (h : o.failedAt = some now) {budget : ℚ} :
    Due budget history o ↔ budgetExhausted ((streak history).head?.getD now) now budget = true := by
  unfold Due
  rw [streak_concat, h, Option.elim_some, List.head?_append, budgetExhausted, decide_eq_true_eq]
  cases (streak history).head? with
  | none => simp
  | some first => simp

theorem not_due (h : o.failedAt = none) {budget : ℚ} : ¬Due budget history o := by
  rintro ⟨now, first, hfailed, -⟩
  rw [h] at hfailed
  cases hfailed

/-- The locals say what the outcomes so far were. -/
structure Tracks (history : List (Outcome φ)) (s : Climb) : Prop where
  attempts : s.attempts = (streak history).length
  first : s.firstFailureAt = (streak history).head?
  reconnecting : s.reconnecting = decide (history ≠ [])

/-- What becomes of the loop at an outcome. -/
def Meets (l : Loop φ ε) (history : List (Outcome φ)) (o : Outcome φ) (after : List (Deed ε) × Option Climb) : Prop :=
  (Due l.budget history o ∧ Turns l history o after.1 ∧ after.2 = none) ∨
    ¬Due l.budget history o ∧
      (((o.failedAt.isSome → (streak history).length < 1024) ∧ Turns l history o after.1 ∧
        ∃ s, after.2 = some s ∧ Tracks (history ++ [o]) s) ∨
      o.failedAt.isSome ∧ 1024 ≤ (streak history).length ∧ after.2 = none ∧ ∃ exc, .raised exc ∈ after.1)

theorem backoffDelay_eq (base max_ : ℚ) (attempt : ℕ) (draw : ℚ) :
    (attempt ≤ 1024 ∧ ∃ delay, backoffDelay base max_ attempt draw = .ok delay) ∨
      1024 < attempt ∧ backoffDelay base max_ attempt draw = .error overflowError := by
  unfold backoffDelay
  split
  · exact .inr ⟨‹_›, rfl⟩
  · exact .inl ⟨not_lt.1 ‹_›, _, rfl⟩

/-- What a connection yields: where there was one before it, that it is back, and the events of its frames. -/
theorem isYield_of_mem {since at_ : ℚ} {attempts : ℕ} {again : Prop} [Decidable again] {events : List ε} {d : Deed ε}
    (h : d ∈ (if again then [.reconnected since at_ attempts] else []) ++ events.map .event) : d.isYield = true := by
  rw [List.mem_append] at h
  obtain h | h := h
  · split at h
    · rw [List.mem_singleton] at h
      rw [h]
      rfl
    · cases h
  · obtain ⟨e, -, rfl⟩ := List.mem_map.1 h
    rfl

/-- **A failure, and what the connection yielded before it.** -/
theorem meets_failed (ht : Tracks history s) (ho : o.failedAt = some now) (hname : ∀ n, (exc n).cls = l.cls) {yielded : List (Deed ε)}
    (hyield : ∃ since at_ attempts, yielded =
      (if o.opened ∧ history ≠ [] then [.reconnected since at_ attempts] else []) ++ (o.events l.events).map .event) (gap : Gap) :
    Meets l history o (yielded ++ [(l.failed exc now draw { s with gap }).1], (l.failed exc now draw { s with gap }).2) := by
  obtain ⟨since, at_, attempts, hyield⟩ := hyield
  have hall : ∀ d ∈ yielded, d.isYield = true := by
    rw [hyield]
    exact fun d => isYield_of_mem
  have hkept : ∀ d : Deed ε, d.isYield = false → (yielded ++ [d]).filter Deed.isYield = yielded := fun d hd => by
    rw [List.filter_append, List.filter_eq_self.2 hall, List.filter_cons_of_neg (by simp [hd]), List.filter_nil, List.append_nil]
  have hraised : ∀ {d : Deed ε} {e : Exc}, .raised e ∈ yielded ++ [d] → .raised e = d := fun {d e} h => by
    rw [List.mem_append, List.mem_singleton] at h
    obtain h | h := h
    · exact absurd (hall _ h) (by simp [Deed.isYield])
    · exact h
  have hdue : Due l.budget history o ↔ budgetExhausted (s.firstFailureAt.getD now) now l.budget = true := by
    rw [ht.first]
    exact due_iff ho
  unfold Loop.failed
  dsimp only
  by_cases hspent : budgetExhausted (s.firstFailureAt.getD now) now l.budget = true
  · rw [if_pos hspent]
    refine .inl ⟨hdue.2 hspent, ⟨?_, fun e he => ?_, fun _ hnot => absurd (hdue.2 hspent) hnot, ?_⟩, rfl⟩
    · exact ⟨fun _ => hdue.2 hspent, fun _ => ⟨_, List.mem_append_right _ (List.mem_singleton_self _)⟩⟩
    · cases hraised he
      exact hname _
    · exact ⟨since, at_, attempts, (hkept _ rfl).trans hyield⟩
  · rw [if_neg hspent]
    have hnot : ¬Due l.budget history o := fun h => hspent (hdue.1 h)
    refine .inr ⟨hnot, ?_⟩
    obtain ⟨hle, delay, hdelay⟩ | ⟨hlt, hdelay⟩ := backoffDelay_eq l.base l.max_ (s.attempts + 1) draw
    · rw [hdelay]
      refine .inl ⟨fun _ => by rw [← ht.attempts]; omega, ⟨?_, fun e he => ?_, fun _ _ => ?_, ?_⟩, _, rfl, ?_⟩
      · exact ⟨fun ⟨e, he⟩ => (by cases hraised he), fun h => absurd h hnot⟩
      · cases hraised he
      · exact ⟨delay, List.getLast?_concat⟩
      · exact ⟨since, at_, attempts, (hkept _ rfl).trans hyield⟩
      · refine ⟨?_, ?_, ?_⟩
        · rw [streak_concat, ho, Option.elim_some, List.length_append, ht.attempts]
          rfl
        · rw [streak_concat, ho, Option.elim_some, List.head?_append, ht.first]
          cases (streak history).head? <;> rfl
        · simp
    · rw [hdelay]
      refine .inr ⟨by rw [ho]; rfl, ?_, rfl, _, List.mem_append_right _ (List.mem_singleton_self _)⟩
      rw [← ht.attempts]
      omega

/-- **One turn**, from locals that track the outcomes so far. -/
theorem meets_turn (ht : Tracks history s) (o : Outcome φ) : Meets l history o (l.turn s o) := by
  cases o with
  | refused error now draw =>
    have hnone : ∃ since at_ attempts, ([] : List (Deed ε)) =
        (if (Outcome.refused error now draw : Outcome φ).opened ∧ history ≠ [] then [.reconnected since at_ attempts] else []) ++
          ((Outcome.refused error now draw).events l.events).map .event := ⟨0, 0, 0, by simp [Outcome.opened, Outcome.events]⟩
    exact meets_failed ht rfl (fun _ => rfl) hnone s.gap
  | lived reconnectedAt connectedAt frames now draw =>
    have hopening : (if s.reconnecting = true then [.reconnected s.gap.since reconnectedAt (s.attempts + 1)] else []) =
        if (Outcome.lived reconnectedAt connectedAt frames now draw).opened ∧ history ≠ [] then
          [(.reconnected s.gap.since reconnectedAt (s.attempts + 1) : Deed ε)] else [] := by
      simp [ht.reconnecting, Outcome.opened]
    unfold Loop.turn
    dsimp only
    rw [hopening]
    by_cases hflap : isFlap connectedAt now = true
    · rw [if_neg (by simp [hflap])]
      exact meets_failed ht (by simp [Outcome.failedAt, hflap]) (fun _ => rfl) ⟨_, _, _, rfl⟩ (l.known frames s.gap)
    · have hlived : (Outcome.lived reconnectedAt connectedAt frames now draw).failedAt = none := by
        simp [Outcome.failedAt, hflap]
      rw [if_pos (by simp [hflap])]
      refine .inr ⟨not_due hlived, .inl ⟨fun h => by simp [hlived] at h, ⟨?_, fun e he => ?_, fun h => by simp [hlived] at h, ?_⟩,
        _, rfl, ?_⟩⟩
      · exact ⟨fun ⟨e, he⟩ => absurd (isYield_of_mem he) (by simp [Deed.isYield]), fun h => absurd h (not_due hlived)⟩
      · exact absurd (isYield_of_mem he) (by simp [Deed.isYield])
      · exact ⟨_, _, _, List.filter_eq_self.2 fun d => isYield_of_mem⟩
      · refine ⟨?_, ?_, ?_⟩
        · rw [streak_concat, hlived]
          rfl
        · rw [streak_concat, hlived]
          rfl
        · simp

theorem climbs_cons {deeds : List (Deed ε)} {ahead : List (List (Deed ε))} (hnot : ¬Due l.budget history o) :
    Climbs l history (o :: rest) (deeds :: ahead) ↔ Turns l history o deeds ∧ Climbs l (history ++ [o]) rest ahead := by
  constructor
  · intro h
    generalize hall : deeds :: ahead = all at h
    cases h with
    | gaveUp hdue => exact absurd hdue hnot
    | goesOn _ hturns hahead =>
      cases hall
      exact ⟨hturns, hahead⟩
  · rintro ⟨hturns, hahead⟩
    exact .goesOn hnot hturns hahead

/-- **What a stream does is read off the outcomes** exactly where no wait overflows. -/
theorem climbs_run_iff : ∀ {rest history : List (Outcome φ)} {s : Climb}, Tracks history s →
    (Climbs l history rest (l.run s rest) ↔ Paced l.budget history rest)
  | [], history, s, _ => iff_of_true .nil trivial
  | o :: rest, history, s, ht => by
    unfold Loop.run Paced
    have hmeets := meets_turn (l := l) ht o
    rcases hturn : l.turn s o with ⟨deeds, next⟩
    rw [hturn] at hmeets
    obtain ⟨hdue, hturns, rfl⟩ | ⟨hnot, ⟨hroom, hturns, s', rfl, ht'⟩ | ⟨hfailed, hfull, rfl, exc, hexc⟩⟩ := hmeets
    · exact iff_of_true (.gaveUp hdue hturns) (.inl hdue)
    · rw [or_iff_right hnot, and_iff_right hroom, ← climbs_run_iff ht']
      exact (climbs_cons hnot).trans (and_iff_right hturns)
    · refine iff_of_false (fun h => ?_) fun h => ?_
      · cases h with
        | gaveUp hdue _ => exact hnot hdue
        | goesOn _ hturns _ => exact hnot (hturns.raised.1 ⟨exc, hexc⟩)
      · obtain hdue | ⟨hroom, -⟩ := h
        · exact hnot hdue
        · exact absurd (hroom hfailed) (not_lt.2 hfull)

theorem tracks_start (gap : Gap) : Tracks ([] : List (Outcome φ)) { gap } := ⟨rfl, rfl, by simp⟩

/-- **Both streams climb one ladder**, exactly where the budget is spent before a 1025th failure in a row. -/
theorem streams_climb_iff (base max_ budget : ℚ) (gap : Gap) (feed : List (Outcome (ℚ × List ε)))
    (updates : List (Outcome (List (Option TradeUpdate)))) :
    (Climbs (feedStream base max_ budget) [] feed ((feedStream base max_ budget).run { gap } feed) ↔ Paced budget [] feed) ∧
      (Climbs (tradeUpdates base max_ budget) [] updates ((tradeUpdates base max_ budget).run { gap } updates) ↔
        Paced budget [] updates) :=
  ⟨climbs_run_iff (tracks_start gap), climbs_run_iff (tracks_start gap)⟩

/-! ## A wait that overflows -/

/-- A venue that refuses every half minute. -/
def outage (k n : ℕ) : List (Outcome φ) := (List.range' k n).map fun i : ℕ => .refused [] (30 * i) 0

theorem outage_concat (k : ℕ) : (outage 0 (k + 1) : List (Outcome φ)) = outage 0 k ++ [.refused [] (30 * k) 0] := by
  unfold outage
  rw [List.range'_1_concat, List.map_append, Nat.zero_add]
  rfl

theorem streak_outage : ∀ k, streak (outage 0 k : List (Outcome φ)) = (List.range' 0 k).map fun i : ℕ => 30 * (i : ℚ)
  | 0 => rfl
  | k + 1 => by
    rw [outage_concat, streak_concat, List.range'_1_concat, List.map_append, Nat.zero_add, ← streak_outage k]
    rfl

/-- Within a day's budget it may refuse that many times. -/
theorem paced_outage : ∀ {n k : ℕ}, k ≤ 1024 → Paced 86400 (outage 0 k : List (Outcome φ)) (outage k (n + 1)) → k + n < 1024
  | n, k, hk, h => by
    obtain hdue | ⟨hroom, hahead⟩ := h
    · obtain ⟨now, first, hnow, hfirst, hspent⟩ := hdue
      rw [← outage_concat, streak_outage] at hfirst
      cases hnow
      obtain rfl : first = 0 := by simpa [List.range'_succ] using hfirst.symm
      have hk' : (k : ℚ) ≤ 1024 := by exact_mod_cast hk
      linarith
    · have hlt := hroom rfl
      rw [streak_outage, List.length_map, List.length_range'] at hlt
      cases n with
      | zero => exact hlt
      | succ n =>
        rw [← outage_concat] at hahead
        have hnext := paced_outage hlt hahead
        omega

/-- **The 1025th refusal of an outage shorter than its budget is not waited out**: the wait is computed past the largest float. -/
theorem wait_overflows :
    ¬Climbs (feedStream 1 30 86400 : Loop (ℚ × List Unit) Unit) [] (outage 0 1025)
        ((feedStream 1 30 86400).run { gap := { since := 0 } } (outage 0 1025)) ∧
      ¬Climbs (tradeUpdates 1 30 86400) [] (outage 0 1025) ((tradeUpdates 1 30 86400).run { gap := { since := 0 } } (outage 0 1025)) := by
  have hnot : ∀ {φ : Type}, ¬Paced 86400 ([] : List (Outcome φ)) (outage 0 1025) := fun h =>
    absurd (paced_outage (Nat.zero_le 1024) h) (by decide)
  rw [climbs_run_iff (tracks_start _), climbs_run_iff (tracks_start _)]
  exact ⟨hnot, hnot⟩

end

end Ladder
end Atp
