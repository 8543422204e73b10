import AlgoTrading.ReconnectLadder
/-!
# DashboardBridge — from the worker's channels to the browsers, across every outage

`redis_bridge`, `_announce_gap` and `_dispatch` of `apps/api/ws.py`, as a machine over what its subscription does.  A ping that
raises is a failure after it, and closing the old subscription, which is suppressed, is left out.  `Tracks` says what the
attempts, the start of the outage and the outstanding ping stand for; `bridge_outlives` is read off it.
-/
namespace Atp
namespace Dashboard

open Atp.Stream (nearest)
open Ladder (backoffDelay)
open Runs

/-! ## The bridge -/

/-- `CLIENT_CHANNELS`. -/
def clientChannels : String → Option String
  | "atp:md:quotes" => some "quotes"
  | "atp:md:bars" => some "bars"
  | "atp:exec:orders" => some "fills"
  | "atp:exec:signals" => some "signals"
  | "atp:risk:halts" => some "halts"
  | _ => none

/-- What `json.loads` makes of a message's data. -/
inductive Decoded (π : Type)
  | undecodable
  | notAnObject
  | object (payload : π)
deriving DecidableEq

/-- What a read returns.  A channel that is no text is none. -/
structure Raw (π : Type) where
  type : String
  channel : Option String := none
  data : Decoded π
deriving DecidableEq

def Raw.isMessage {π : Type} (raw : Raw π) : Bool := raw.type = "message"

/-- **`_dispatch`**: the fan-out a message is turned into, or none where it is dropped. -/
def dispatch {π : Type} (raw : Raw π) : Option (String × π) :=
  match raw.channel.bind clientChannels, raw.data with
  | some channel, .object payload => some (channel, payload)
  | _, _ => none

def livenessPingSeconds : ℚ := 20

def livenessTimeoutSeconds : ℚ := 30

/-- What the subscription does next, with what the clock read and the generator drew: it is refused or made, something is read,
a poll ends with nothing read, or with nothing read for too long, or a read raises or the subscription is gone. -/
inductive Happening (π : Type)
  | refused (now draw : ℚ)
  | subscribed (now seen : ℚ)
  | read (raw : Raw π) (now : ℚ)
  | quiet (now : ℚ)
  | lapsed (silentAt now draw : ℚ)
  | failed (now draw : ℚ)

/-- What the bridge does that can be seen. -/
inductive Deed (π : Type)
  | gap (seconds : ℚ)
  | dispatched (raw : Raw π) (fanOut : Option (String × π))
  | pinged
  | slept (seconds : ℚ)
  | raised (exc : Exc)
deriving DecidableEq

/-- The locals of the inner loop. -/
structure Live where
  lastSeen : ℚ
  awaitingPong : Bool := false
deriving DecidableEq

/-- The locals of the outer one; `live` while it is subscribed. -/
structure Bridge where
  attempt : ℕ := 0
  downSince : Option ℚ := none
  live : Option Live := none
deriving DecidableEq

/-- `round(seconds, 1)`. -/
def tenth (seconds : ℚ) : ℚ := nearest (10 * seconds) / 10

namespace Bridge

variable {π : Type} (b : Bridge)

/-- The handler of every failure: no bridge is left where its own wait raises. -/
def fails (now draw : ℚ) : List (Deed π) × Option Bridge :=
  let downSince := b.downSince.getD now
  let attempt := b.attempt + 1
  match backoffDelay 1 30 attempt draw with
  | .error exc => ([.raised exc], none)
  | .ok delay => ([.slept delay], some { attempt, downSince := some downSince })

/-- **One turn of `redis_bridge`**: what it does and is left as, where that can happen. -/
def meets : Happening π → Option (List (Deed π) × Option Bridge)
  | .refused now draw => if b.live.isNone then some (b.fails now draw) else none
  | .subscribed now seen =>
    if b.live.isNone then
      some ((b.downSince.map fun since => .gap (tenth (now - since))).toList, some { live := some { lastSeen := seen } })
    else none
  | .read raw now => b.live.map fun _ =>
      (if raw.isMessage then [.dispatched raw (dispatch raw)] else [], some { b with live := some { lastSeen := now } })
  | .quiet now =>
    match b.live with
    | none => none
    | some live =>
      if livenessTimeoutSeconds ≤ now - live.lastSeen then none
      else if livenessPingSeconds ≤ now - live.lastSeen && !live.awaitingPong then
        some ([.pinged], some { b with live := some { live with awaitingPong := true } })
      else some ([], some b)
  | .lapsed silentAt now draw =>
    match b.live with
    | none => none
    | some live => if livenessTimeoutSeconds ≤ silentAt - live.lastSeen then some (b.fails now draw) else none
  | .failed now draw => if b.live.isSome then some (b.fails now draw) else none

end Bridge

/-- What happened, and what the bridge did. -/
abbrev Event (π : Type) := Happening π × List (Deed π)

def Turn {π : Type} (b : Option Bridge) (e : Event π) (after : Option Bridge) : Prop :=
  ∃ s, b = some s ∧ s.meets e.1 = some (e.2, after)

/-! ## What it is meant to do -/

section
variable {π : Type}

def Happening.isFailure : Happening π → Bool
  | .refused .. | .lapsed .. | .failed .. => true
  | .subscribed .. | .read .. | .quiet _ => false

def Happening.isQuiet : Happening π → Bool
  | .quiet _ => true
  | _ => false

/-- When the failures since the last subscription, or the start, were. -/
def failures (past : List (Event π)) : List ℚ :=
  past.foldl (fun times e => match e.1 with
    | .refused now _ | .lapsed _ now _ | .failed now _ => times ++ [now]
    | .subscribed .. => []
    | .read .. | .quiet _ => times) []

/-- What the clock read last, while subscribed. -/
def lastClock (past : List (Event π)) : Option ℚ :=
  match past.getLast? with
  | some (.subscribed _ seen, _) => some seen
  | some (.read _ now, _) | some (.quiet now, _) => some now
  | _ => none

/-- A ping went out, and nothing has come in since. -/
def Unanswered (past : List (Event π)) : Prop :=
  ∃ before ping since, past = before ++ ping :: since ∧ .pinged ∈ ping.2 ∧ ∀ e ∈ since, e.1.isQuiet = true

/-- The gap that was announced at an event. -/
def Deed.isGap : Deed π → Bool
  | .gap _ => true
  | _ => false

def Deed.isDispatch : Deed π → Bool
  | .dispatched .. => true
  | _ => false

/-- What the bridge does at one event, after others. -/
structure Outlives (past : List (Event π)) (e : Event π) : Prop where
  gaps : e.2.filter Deed.isGap = match e.1 with
    | .subscribed now _ => ((failures past).head?.map fun since => .gap (tenth (now - since))).toList
    | _ => []
  dispatches : e.2.filter Deed.isDispatch = match e.1 with
    | .read raw _ => if raw.isMessage then [.dispatched raw (dispatch raw)] else []
    | _ => []
  asks : ∀ silentAt now draw, e.1 = .lapsed silentAt now draw → (∀ t ∈ lastClock past, silentAt - t ≤ 10) → Unanswered past

/-- **No failure comes after 1024 others since the last subscription.** -/
def Paced (l : List (Event π)) : Prop :=
  ∀ past e rest, l = past ++ e :: rest → e.1.isFailure = true → (failures past).length < 1024

/-! ## What its locals stand for -/

theorem failures_concat (past : List (Event π)) (e : Event π) : failures (past ++ [e]) = match e.1 with
    | .refused now _ | .lapsed _ now _ | .failed now _ => failures past ++ [now]
    | .subscribed .. => []
    | .read .. | .quiet _ => failures past := by
  unfold failures
  rw [List.foldl_append]
  rfl

/-- The attempts count the outage, which began with the first of its failures; and a live subscription has a ping out, or has
not been silent for long. -/
structure Tracks (past : List (Event π)) (b : Bridge) : Prop where
  attempt : b.attempt = (failures past).length
  downSince : b.downSince = (failures past).head?
  live : ∀ live, b.live = some live → (live.awaitingPong = true → Unanswered past) ∧
    ∃ t, lastClock past = some t ∧ (live.awaitingPong = false → t - live.lastSeen < livenessPingSeconds)

theorem tracks_start : Tracks ([] : List (Event π)) {} := ⟨rfl, rfl, fun live h => by cases h⟩

theorem Unanswered.quiet {past : List (Event π)} (h : Unanswered past) {e : Event π} (he : e.1.isQuiet = true) :
    Unanswered (past ++ [e]) := by
  obtain ⟨before, ping, since, rfl, hping, hsince⟩ := h
  refine ⟨before, ping, since ++ [e], by simp, hping, fun e' he' => ?_⟩
  rw [List.mem_append, List.mem_singleton] at he'
  obtain he' | rfl := he'
  · exact hsince e' he'
  · exact he

variable {past l : List (Event π)} {b : Bridge} {e : Event π} {after o : Option Bridge} {now draw : ℚ}

/-- **A failure** is waited out, and nothing is told or dispatched at it. -/
theorem fails_spec (ht : Tracks past b) {h : Happening π}
    (hfails : failures (past ++ [(h, (b.fails now draw).1)]) = failures past ++ [now]) :
    (b.fails (π := π) now draw).1.filter Deed.isGap = [] ∧ (b.fails (π := π) now draw).1.filter Deed.isDispatch = [] ∧
      ((∃ s, (b.fails (π := π) now draw).2 = some s) ↔ (failures past).length < 1024) ∧
      ∀ s, (b.fails (π := π) now draw).2 = some s → Tracks (past ++ [(h, (b.fails now draw).1)]) s := by
  unfold Bridge.fails at hfails ⊢
  dsimp only at hfails ⊢
  obtain ⟨hle, delay, hdelay⟩ | ⟨hlt, hdelay⟩ := Ladder.backoffDelay_eq 1 30 (b.attempt + 1) draw
  · rw [hdelay] at hfails ⊢
    rw [ht.attempt] at hle
    refine ⟨rfl, rfl, iff_of_true ⟨_, rfl⟩ hle, fun s hs => ?_⟩
    cases hs
    refine ⟨?_, ?_, fun live hlive => by cases hlive⟩
    · rw [hfails, List.length_append, ht.attempt]
      rfl
    · rw [hfails, List.head?_append, ht.downSince]
      cases (failures past).head? <;> rfl
  · rw [hdelay]
    rw [ht.attempt] at hlt
    exact ⟨rfl, rfl, iff_of_false (fun ⟨_, hs⟩ => by cases hs) (by omega), fun s hs => by cases hs⟩

/-- A silence too long for a poll or two was one a ping had gone out in. -/
theorem Tracks.asks (ht : Tracks past b) {live : Live} {silentAt : ℚ} (hlive : b.live = some live)
    (hlong : livenessTimeoutSeconds ≤ silentAt - live.lastSeen) (hprompt : ∀ t ∈ lastClock past, silentAt - t ≤ 10) :
    Unanswered past := by
  obtain ⟨hping, t, hclock, hshort⟩ := ht.live live hlive
  cases hawaiting : live.awaitingPong with
  | true => exact hping hawaiting
  | false =>
    have hrecent := hshort hawaiting
    have hpoll := hprompt t hclock
    unfold livenessTimeoutSeconds at hlong
    unfold livenessPingSeconds at hrecent
    linarith

/-- **One turn.** -/
theorem turn_spec (ht : Tracks past b) (h : b.meets e.1 = some (e.2, after)) :
    Outlives past e ∧ ((∃ s, after = some s) ↔ (e.1.isFailure = true → (failures past).length < 1024)) ∧
      ∀ s, after = some s → Tracks (past ++ [e]) s := by
  obtain ⟨happening, deeds⟩ := e
  cases happening with
  | refused now draw =>
    simp only [Bridge.meets] at h
    split at h
    · rw [Option.some.injEq, Prod.ext_iff] at h
      obtain ⟨rfl, rfl⟩ := h
      obtain ⟨hgap, hdispatch, hends, htracks⟩ := fails_spec (h := .refused now draw) ht (failures_concat past _)
      exact ⟨⟨hgap, hdispatch, (fun _ _ _ heq => by cases heq)⟩, ⟨fun hs _ => hends.1 hs, fun hroom => hends.2 (hroom rfl)⟩, htracks⟩
    · cases h
  | failed now draw =>
    simp only [Bridge.meets] at h
    split at h
    · rw [Option.some.injEq, Prod.ext_iff] at h
      obtain ⟨rfl, rfl⟩ := h
      obtain ⟨hgap, hdispatch, hends, htracks⟩ := fails_spec (h := .failed now draw) ht (failures_concat past _)
      exact ⟨⟨hgap, hdispatch, (fun _ _ _ heq => by cases heq)⟩, ⟨fun hs _ => hends.1 hs, fun hroom => hends.2 (hroom rfl)⟩, htracks⟩
    · cases h
  | lapsed silentAt now draw =>
    simp only [Bridge.meets] at h
    split at h
    · cases h
    · rename_i live hlive
      split at h
      · rename_i hlong
        rw [Option.some.injEq, Prod.ext_iff] at h
        obtain ⟨rfl, rfl⟩ := h
        obtain ⟨hgap, hdispatch, hends, htracks⟩ := fails_spec (h := .lapsed silentAt now draw) ht (failures_concat past _)
        refine ⟨⟨hgap, hdispatch, fun _ _ _ heq hprompt => ?_⟩, ⟨fun hs _ => hends.1 hs, fun hroom => hends.2 (hroom rfl)⟩,
          htracks⟩
        cases heq
        exact ht.asks hlive hlong hprompt
      · cases h
  | subscribed now seen =>
    simp only [Bridge.meets] at h
    split at h
    · cases h
      refine ⟨⟨?_, ?_, (fun _ _ _ heq => by cases heq)⟩, iff_of_true ⟨_, rfl⟩ (fun hf => by cases hf), fun s hs => ?_⟩
      · rw [ht.downSince]
        cases (failures past).head? <;> rfl
      · cases b.downSince <;> rfl
      · cases hs
        refine ⟨by rw [failures_concat]; rfl, by rw [failures_concat]; rfl, fun live hlive => ?_⟩
        cases hlive
        exact ⟨(fun hf => by cases hf), seen, by simp [lastClock], fun _ => by simp [livenessPingSeconds]⟩
    · cases h
  | read raw now =>
    cases hlive : b.live with
    | none => simp [Bridge.meets, hlive] at h
    | some live =>
      simp only [Bridge.meets, hlive, Option.map_some, Option.some.injEq, Prod.mk.injEq] at h
      obtain ⟨rfl, rfl⟩ := h
      refine ⟨⟨?_, ?_, (fun _ _ _ heq => by cases heq)⟩, iff_of_true ⟨_, rfl⟩ (fun hf => by cases hf), fun s hs => ?_⟩
      · dsimp only
        split <;> rfl
      · dsimp only
        split <;> rfl
      · cases hs
        refine ⟨ht.attempt.trans (by rw [failures_concat]), ht.downSince.trans (by rw [failures_concat]), fun live hlive => ?_⟩
        cases hlive
        exact ⟨(fun hf => by cases hf), now, by simp [lastClock], fun _ => by simp [livenessPingSeconds]⟩
  | quiet now =>
    cases hlive : b.live with
    | none => simp [Bridge.meets, hlive] at h
    | some live =>
      simp only [Bridge.meets, hlive] at h
      split at h
      · cases h
      · obtain ⟨hping, -⟩ := ht.live live hlive
        split at h
        · -- the ping
          cases h
          refine ⟨⟨rfl, rfl, (fun _ _ _ heq => by cases heq)⟩, iff_of_true ⟨_, rfl⟩ (fun hf => by cases hf), fun s hs => ?_⟩
          cases hs
          refine ⟨ht.attempt.trans (by rw [failures_concat]), ht.downSince.trans (by rw [failures_concat]), fun live hlive => ?_⟩
          cases hlive
          refine ⟨fun _ => ⟨past, _, [], rfl, List.mem_singleton_self _, by simp⟩, now, by simp [lastClock], fun hf => by cases hf⟩
        · rename_i hasked
          cases h
          refine ⟨⟨rfl, rfl, (fun _ _ _ heq => by cases heq)⟩, iff_of_true ⟨_, rfl⟩ (fun hf => by cases hf), fun s hs => ?_⟩
          cases hs
          refine ⟨ht.attempt.trans (by rw [failures_concat]), ht.downSince.trans (by rw [failures_concat]), fun live' hlive' => ?_⟩
          rw [hlive] at hlive'
          cases hlive'
          refine ⟨fun hawaiting => (hping hawaiting).quiet rfl, now, by simp [lastClock], fun hawaiting => ?_⟩
          simpa [hawaiting] using hasked

theorem run_tracks : ∀ {l past : List (Event π)} {b s : Bridge}, Tracks past b → Run Turn (some b) l (some s) → Tracks (past ++ l) s
  | [], past, b, s, ht, h => by
    cases run_nil_iff.1 h
    rwa [List.append_nil]
  | e :: l, past, b, s, ht, h => by
    obtain ⟨mid, ⟨b', hb, hmeets⟩, hrest⟩ := run_cons_iff.1 h
    cases hb
    cases mid with
    | none => cases l with
      | nil => cases run_nil_iff.1 hrest
      | cons =>
        obtain ⟨_, ⟨_, hb, _⟩, _⟩ := run_cons_iff.1 hrest
        cases hb
    | some b' =>
      rw [List.append_cons]
      exact run_tracks ((turn_spec ht hmeets).2.2 b' rfl) hrest

/-- Every event of a run is met by a bridge whose locals track what came before it. -/
theorem run_split {rest : List (Event π)} (h : Run Turn (some {}) (past ++ e :: rest) o) :
    ∃ s after, Tracks past s ∧ s.meets e.1 = some (e.2, after) ∧ Run Turn after rest o := by
  obtain ⟨mid, hpast, hfrom⟩ := run_append_iff.1 h
  obtain ⟨after, ⟨s, rfl, hmeets⟩, hrest⟩ := run_cons_iff.1 hfrom
  exact ⟨s, after, run_tracks tracks_start hpast, hmeets, hrest⟩

/-- **The bridge outlives every outage**, exactly where none has a 1025th failure; it announces each that ends once, before
anything of the new subscription, dispatches every message it reads once, and gives no subscription up unasked. -/
theorem bridge_outlives (h : Run Turn (some {}) l o) :
    ((∃ b, o = some b) ↔ Paced l) ∧ ∀ past e rest, l = past ++ e :: rest → Outlives past e := by
  refine ⟨⟨?_, fun hpaced => ?_⟩, ?_⟩
  · rintro ⟨b, rfl⟩ past e rest rfl
    obtain ⟨s, after, ht, hmeets, hrest⟩ := run_split h
    refine (turn_spec ht hmeets).2.1.1 ?_
    cases rest with
    | nil => exact ⟨b, run_nil_iff.1 hrest⟩
    | cons =>
      obtain ⟨_, ⟨s', rfl, _⟩, _⟩ := run_cons_iff.1 hrest
      exact ⟨s', rfl⟩
  · obtain rfl | ⟨past, e, rfl⟩ := List.eq_nil_or_concat l
    · exact ⟨_, (run_nil_iff.1 h).symm⟩
    · rw [List.concat_eq_append] at h hpaced
      obtain ⟨s, after, ht, hmeets, hrest⟩ := run_split h
      rw [← run_nil_iff.1 hrest]
      exact (turn_spec ht hmeets).2.1.2 (hpaced past e [] rfl)
  · rintro past e rest rfl
    obtain ⟨s, after, ht, hmeets, -⟩ := run_split h
    exact (turn_spec ht hmeets).1

end

/-! ## Two outages -/

def fill : Raw Unit where
  type := "message"
  channel := some "atp:exec:orders"
  data := .object ()

/-- Refused once, back six seconds later, and a fill comes in. -/
theorem bridge_outlives_refusal :
    let l : List (Event Unit) := [(.refused 0 0, [.slept (1 / 2)]), (.subscribed 6 6, [.gap 6]),
      (.read fill 7, [.dispatched fill (some ("fills", ()))])]
    ∃ o, Run Turn (some {}) l o ∧ ((∃ b, o = some b) ↔ Paced l) ∧ ∀ past e rest, l = past ++ e :: rest → Outlives past e := by
  intro l
  have hrun : Run Turn (some {}) l (some { live := some { lastSeen := 7 } }) :=
    .cons ⟨{}, rfl, by decide +kernel⟩ (.cons ⟨{ attempt := 1, downSince := some 0 }, rfl, by decide +kernel⟩
      (.cons ⟨{ live := some { lastSeen := 6 } }, rfl, by decide +kernel⟩ (.nil _)))
  exact ⟨_, hrun, bridge_outlives hrun⟩

/-- A refusal every half minute. -/
def refusals (n : ℕ) : List (Happening Unit) := (List.range n).map fun i : ℕ => .refused (30 * i) 0

theorem refusals_succ (n : ℕ) : refusals (n + 1) = refusals n ++ [.refused (30 * n) 0] := by
  unfold refusals
  rw [List.range_succ, List.map_append]
  rfl

theorem refusals_run : ∀ {n : ℕ}, n ≤ 1024 → ∃ (l : List (Event Unit)) (b : Bridge), l.map Prod.fst = refusals n ∧
    Run Turn (some {}) l (some b) ∧ b.live = none ∧ b.attempt = n
  | 0, _ => ⟨[], {}, rfl, .nil _, rfl, rfl⟩
  | n + 1, hn => by
    obtain ⟨l, b, hl, hrun, hlive, hattempt⟩ := refusals_run (Nat.le_of_succ_le hn)
    obtain ⟨-, delay, hdelay⟩ | ⟨hlt, -⟩ := Ladder.backoffDelay_eq 1 30 (b.attempt + 1) 0
    · refine ⟨l ++ [(.refused (30 * n) 0, [.slept delay])],
        { attempt := b.attempt + 1, downSince := some (b.downSince.getD (30 * n)) }, ?_,
        run_append_iff.2 ⟨_, hrun, .cons ⟨b, rfl, ?_⟩ (.nil _)⟩, rfl, by rw [hattempt]⟩
      · rw [List.map_append, hl, refusals_succ]
        rfl
      · rw [Bridge.meets, if_pos (by rw [hlive]; rfl), Bridge.fails]
        dsimp only
        rw [hdelay]
    · omega

/-- **Some hours into an outage the bridge ends**: the 1025th wait is computed past the largest float, and nothing catches it. -/
theorem bridge_ends : ∃ l : List (Event Unit), l.map Prod.fst = refusals 1025 ∧ Run Turn (some {}) l none := by
  obtain ⟨l, b, hl, hrun, hlive, hattempt⟩ := refusals_run le_rfl
  refine ⟨l ++ [(.refused (30 * (1024 : ℕ)) 0, [.raised Ladder.overflowError])], ?_,
    run_append_iff.2 ⟨_, hrun, .cons ⟨b, rfl, ?_⟩ (.nil _)⟩⟩
  · rw [List.map_append, hl, List.map_singleton]
    exact (refusals_succ 1024).symm
  · rw [Bridge.meets, if_pos (by rw [hlive]; rfl), Bridge.fails, hattempt]
    dsimp only
    rw [Ladder.backoffDelay, if_pos (by decide)]

end Dashboard
end Atp
