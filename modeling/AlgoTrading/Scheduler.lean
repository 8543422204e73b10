import AlgoTrading.SessionTables
import AlgoTrading.Runs
import Mathlib.Data.List.Basic
/-!
# Scheduler — when a job is next due, and the loop that runs it

`next_due`, `run_scheduler` and `_run_job` of `scheduler.py`.  The scan for the next session edge starts at today's
exchange-local date and looks ten days ahead; `Seen` is what it needs of the table to find the next edge, and
`Served` what a job that sees every next edge in time has run.
-/
namespace Atp
namespace Scheduling

open Runs

/-! ## When a job is due -/

/-- An entry's trigger, with what it reads of the entry. -/
inductive Trigger
  | cron (hour : Fin 24) (minute : Fin 60)
  | interval (minutes : ℤ)
  | session (opens : Bool)
  | other (name : String)
deriving DecidableEq

structure Entry where
  job : String
  trigger : Trigger
  offsetMinutes : ℤ := 0
  marketHoursOnly : Bool := false
deriving DecidableEq

/-- `SESSION_SCAN_DAYS`. -/
def sessionScanDays : ℕ := 10

/-- The edge of a session, shifted by the entry's offset. -/
def Entry.dueAt (e : Entry) (opens : Bool) (s : Session) : ℤ := (if opens then s.openAt else s.closeAt) + 60 * e.offsetMinutes

variable (sch : ExchangeSchedule)

/-- **`_next_session_edge`**. -/
def nextSessionEdge (e : Entry) (opens : Bool) (now : ℤ) : Except Exc ℤ :=
  match sch.walk 1 (fun s => now < e.dueAt opens s) sessionScanDays (sch.localDate now) with
  | .error exc => .error exc
  | .ok (some s) => .ok (e.dueAt opens s)
  | .ok none =>
    .error ⟨.valueError, [.lit "no trading session within 10 days of ", .ts now, .lit " — cannot schedule ", .lit e.job]⟩

/-- **`next_due`**: strictly after `now`. -/
def nextDue (e : Entry) (now : ℤ) : Except Exc ℤ :=
  match e.trigger with
  | .cron hour minute =>
    let candidate := now - now % 86400 + 3600 * (hour : ℤ) + 60 * (minute : ℤ)
    .ok (if now < candidate then candidate else candidate + 86400)
  | .interval minutes => do
    let due := now + 60 * minutes
    if e.marketHoursOnly then
      if ← sch.isOpen due then return due else sch.nextOpen due
    else return due
  | .session opens => nextSessionEdge sch e opens now
  | .other name => .error ⟨.valueError, [.lit "unknown scheduler trigger '", .lit name, .lit "' for ", .lit e.job]⟩

/-- The instants a session entry is due at. -/
def Dues (e : Entry) (opens : Bool) : Set ℤ := {d | ∃ s, sch.Listed s ∧ e.dueAt opens s = d}

/-- **The scan sees the next edge**: one of today's date or the nine after it is still to come, and none of an earlier
date is. -/
structure Seen (e : Entry) (opens : Bool) (now : ℤ) : Prop where
  covered : sch.Covers (sch.yearOf (sch.localDate now))
  ahead : ∃ s, sch.Listed s ∧ sch.localDate now ≤ s.day ∧ s.day < sch.localDate now + sessionScanDays ∧ now < e.dueAt opens s
  none_behind : ∀ s, sch.Listed s → s.day < sch.localDate now → e.dueAt opens s ≤ now

section
variable {sch} {e : Entry} {opens : Bool} {now d : ℤ}

/-- The edges follow the days, whatever the offset. -/
theorem dueAt_lt {s t : Session} (hs : sch.Listed s) (ht : sch.Listed t) (h : s.day < t.day) : e.dueAt opens s < e.dueAt opens t := by
  have horder := ExchangeSchedule.listed_ordered hs ht h
  have hopen := (sch.sameDate hs.2).2.1
  have hclose := (sch.sameDate ht.2).2.1
  unfold Entry.dueAt
  split <;> omega

theorem nextSessionEdge_ok (h : nextSessionEdge sch e opens now = .ok d) : ∃ s, sch.Listed s ∧ e.dueAt opens s = d ∧ now < d ∧
    sch.Covers (sch.yearOf (sch.localDate now)) ∧ sch.localDate now ≤ s.day ∧ s.day < sch.localDate now + sessionScanDays ∧
    ∀ t, sch.Listed t → sch.localDate now ≤ t.day → t.day < s.day → e.dueAt opens t ≤ now := by
  unfold nextSessionEdge at h
  split at h
  · cases h
  · rename_i s hs
    obtain rfl := Except.ok.inj h
    obtain ⟨hc, hlisted, htakes, hfrom, hto, hbefore⟩ := ExchangeSchedule.walk_forward_some hs
    refine ⟨s, hlisted, rfl, of_decide_eq_true htakes, hc, hfrom, hto, fun t ht htfrom htto => ?_⟩
    exact not_lt.1 (of_decide_eq_false (hbefore t ht htfrom htto))
  · cases h

/-- **The next edge is found exactly where the scan sees it.** -/
theorem nextSessionEdge_iff : (∃ d, nextSessionEdge sch e opens now = .ok d ∧ IsLeast {x ∈ Dues sch e opens | now < x} d) ↔
    Seen sch e opens now := by
  constructor
  · rintro ⟨d, hd, -, hleast⟩
    obtain ⟨s, hs, rfl, hlt, hc, hfrom, hto, -⟩ := nextSessionEdge_ok hd
    refine ⟨hc, ⟨s, hs, hfrom, hto, hlt⟩, fun t ht hday => not_lt.1 fun hahead => ?_⟩
    have hle := hleast ⟨⟨t, ht, rfl⟩, hahead⟩
    exact absurd (dueAt_lt ht hs (hday.trans_le hfrom)) (not_lt.2 hle)
  · rintro ⟨hc, ⟨s, hs, hfrom, hto, hahead⟩, hbehind⟩
    obtain ⟨t, ht⟩ : ∃ t, sch.walk 1 (fun s => decide (now < e.dueAt opens s)) sessionScanDays (sch.localDate now) =
        .ok (some t) := ExchangeSchedule.walk_forward hc hs (decide_eq_true hahead) hfrom hto
    have hd : nextSessionEdge sch e opens now = .ok (e.dueAt opens t) := by rw [nextSessionEdge, ht]
    obtain ⟨-, hlisted, htakes, -, -, hbefore⟩ := ExchangeSchedule.walk_forward_some ht
    refine ⟨_, hd, ⟨⟨t, hlisted, rfl⟩, of_decide_eq_true htakes⟩, ?_⟩
    rintro x ⟨⟨u, hu, rfl⟩, hafter⟩
    have hdate : sch.localDate now ≤ u.day := not_lt.1 fun hlt => absurd (hbehind u hu hlt) (not_le.2 hafter)
    obtain hlt | heq | hgt := lt_trichotomy u.day t.day
    · exact absurd hafter (of_decide_eq_false (hbefore u hu hdate hlt))
    · rw [ExchangeSchedule.listed_unique hu hlisted heq]
    · exact (dueAt_lt hlisted hu hgt).le

theorem Seen.isLeast (hseen : Seen sch e opens now) (h : nextSessionEdge sch e opens now = .ok d) :
    IsLeast {x ∈ Dues sch e opens | now < x} d := by
  obtain ⟨d', hd', hleast⟩ := nextSessionEdge_iff.2 hseen
  rw [h] at hd'
  cases hd'
  exact hleast

end

/-! ## The loop -/

/-- `_Job`: an entry and when it next runs. -/
structure Job where
  entry : Entry
  due : ℤ
  dormant : Bool := false
deriving DecidableEq

/-- How a job's run ended: it returned, it raised, or it is a `NotImplementedError` stub. -/
inductive Outcome
  | done
  | failed
  | notImplemented
deriving DecidableEq

/-- `run_scheduler`'s first schedule. -/
def schedule (now : ℤ) : List Entry → Except Exc (List Job)
  | [] => .ok []
  | e :: rest =>
    match nextDue sch e now, schedule now rest with
    | .ok due, .ok jobs => .ok ({ entry := e, due } :: jobs)
    | .ok _, .error exc => .error exc
    | .error exc, _ => .error exc

/-- The job run, the clock reading `after` when it has ended: a stub goes dormant, and any other is rescheduled. -/
def ranJob (job : Job) (outcome : Outcome) (after : ℤ) : Except Exc (Job × Bool) :=
  match outcome with
  | .notImplemented => .ok ({ job with dormant := true }, true)
  | .done | .failed => (nextDue sch job.entry after).map fun due => ({ job with due }, true)

/-- **`_run_job`** at `now`: the job as it is rescheduled, and whether it ran.  A market-hours job whose market has shut
while it waited is put off. -/
def runJob (job : Job) (now : ℤ) (outcome : Outcome) (after : ℤ) : Except Exc (Job × Bool) :=
  if job.entry.marketHoursOnly then
    match sch.isOpen now with
    | .error exc => .error exc
    | .ok true => ranJob sch job outcome after
    | .ok false => (nextDue sch job.entry now).map fun due => ({ job with due }, false)
  else ranJob sch job outcome after

/-- The first of the least due, and the best before them. -/
def earliest : List (Job × ℕ) → Option (Job × ℕ) → Option (Job × ℕ)
  | [], best => best
  | p :: l, best =>
    earliest l (match best with
      | some b => if p.1.due < b.1.due then some p else some b
      | none => some p)

/-- `min(live, key=lambda j: j.due)`, with its place in the list. -/
def soonest (jobs : List Job) : Option (Job × ℕ) := earliest (jobs.zipIdx.filter fun p => !p.1.dormant) none

/-- **One pass of the loop**: the soonest live job if it is due, otherwise a sleep; the place of the job that ran, and the
instant it was due. -/
def pass (jobs : List Job) (now : ℤ) (outcome : Outcome) (after : ℤ) : Except Exc (List Job × Option (ℕ × ℤ)) :=
  match soonest jobs with
  | none => .ok (jobs, none)
  | some (job, i) =>
    if now < job.due then .ok (jobs, none)
    else (runJob sch job now outcome after).map fun r => (jobs.set i r.1, if r.2 then some (i, job.due) else none)

/-- The scheduler over its lives: since when it has been up, its jobs, what has run in this life and what ran before it, by
place and due instant, and the last reading of the clock. -/
structure State where
  clock : ℤ
  since : ℤ
  jobs : List Job := []
  fired : List (ℕ × ℤ) := []
  earlier : List (ℕ × ℤ) := []

inductive Act
  | start (now : ℤ)
  | pass (now : ℤ) (outcome : Outcome) (after : ℤ)

/-- A start, at any time, or one pass; neither may raise. -/
inductive Step (entries : List Entry) : State → Act → State → Prop
  | start {s : State} {now : ℤ} {jobs : List Job} : s.clock ≤ now → schedule sch now entries = .ok jobs →
      Step entries s (.start now) ⟨now, now, jobs, [], s.earlier ++ s.fired⟩
  | pass {s : State} {now after : ℤ} {outcome : Outcome} {jobs : List Job} {ran : Option (ℕ × ℤ)} :
      s.clock ≤ now → now ≤ after → pass sch s.jobs now outcome after = .ok (jobs, ran) →
      Step entries s (.pass now outcome after) { s with clock := after, jobs, fired := s.fired ++ ran.toList }

/-- The due instants a job's runs were for. -/
def ranFor (i : ℕ) (l : List (ℕ × ℤ)) : List ℤ := (l.filter (·.1 = i)).map Prod.snd

/-- **In time for the next edge**: a start sees it, and where a pass runs the job the clock has not reached another edge by
the time it ends, the next is seen from then, and the job is no stub. -/
def InTime (e : Entry) (opens : Bool) (i : ℕ) (s : State) : Act → Prop
  | .start now => Seen sch e opens now
  | .pass now outcome after => ∀ job, soonest s.jobs = some (job, i) → job.due ≤ now →
      outcome ≠ .notImplemented ∧ Seen sch e opens after ∧ ∀ d ∈ Dues sch e opens, job.due < d → after < d

/-- **Once an edge**: since the scheduler came up the job has run for every due instant before its next, in order and once
each, and for nothing else; its next is the due instant after those; and no instant has been run for twice, in any life. -/
structure Served (e : Entry) (opens : Bool) (i : ℕ) (s : State) : Prop where
  next : ∀ job, s.jobs[i]? = some job → job.due ∈ Dues sch e opens ∧ s.since < job.due
  exact : ∀ job, s.jobs[i]? = some job → ∀ d, d ∈ ranFor i s.fired ↔ d ∈ Dues sch e opens ∧ s.since < d ∧ d < job.due
  once : (ranFor i (s.earlier ++ s.fired)).Pairwise (· < ·)

/-- What every state keeps: the clock is past the start and past every run, and a job keeps its entry. -/
structure Kept (entries : List Entry) (i : ℕ) (s : State) : Prop where
  since : s.since ≤ s.clock
  past : ∀ d ∈ ranFor i (s.earlier ++ s.fired), d ≤ s.clock
  before : ∀ d ∈ ranFor i s.earlier, d ≤ s.since
  entries : s.jobs = [] ∨ s.jobs.map Job.entry = entries

section
variable {sch} {entries : List Entry} {e : Entry} {opens : Bool} {i : ℕ}

@[simp] theorem ranFor_append (l m : List (ℕ × ℤ)) : ranFor i (l ++ m) = ranFor i l ++ ranFor i m := by
  simp [ranFor]

theorem ranFor_none {ran : Option (ℕ × ℤ)} (h : ∀ d, ran ≠ some (i, d)) : ranFor i ran.toList = [] := by
  cases ran with
  | none => rfl
  | some p =>
    have hp : p.1 ≠ i := fun heq => h p.2 (by rw [← heq])
    simp [ranFor, hp]

theorem earliest_mem : ∀ {l : List (Job × ℕ)} {best : Option (Job × ℕ)} {p : Job × ℕ}, earliest l best = some p →
    best = some p ∨ p ∈ l
  | [], _, _, h => .inl h
  | q :: l, best, p, h => by
    unfold earliest at h
    obtain hbest | hmem := earliest_mem h
    · split at hbest
      · split at hbest
        · cases hbest
          exact .inr List.mem_cons_self
        · exact .inl hbest
      · cases hbest
        exact .inr List.mem_cons_self
    · exact .inr (List.mem_cons_of_mem _ hmem)

theorem soonest_get {jobs : List Job} {job : Job} (h : soonest jobs = some (job, i)) : jobs[i]? = some job ∧ job.dormant = false := by
  have hmem := (earliest_mem h).resolve_left (by simp)
  rw [List.mem_filter, List.mem_zipIdx_iff_getElem?] at hmem
  simpa using hmem

theorem map_eq_ok {α β : Type} {f : α → β} {x : Except Exc α} {b : β} (h : x.map f = .ok b) : ∃ a, x = .ok a ∧ f a = b := by
  cases x with
  | error exc => cases h
  | ok a => exact ⟨a, rfl, Except.ok.inj h⟩

theorem schedule_get {now : ℤ} : ∀ {entries : List Entry} {jobs : List Job} {i : ℕ}, schedule sch now entries = .ok jobs →
    jobs.map Job.entry = entries ∧ ∀ job, jobs[i]? = some job → nextDue sch job.entry now = .ok job.due
  | [], jobs, i, h => by
    cases h
    exact ⟨rfl, fun job hjob => by cases hjob⟩
  | e :: entries, jobs, i, h => by
    unfold schedule at h
    split at h
    · rename_i due rest hdue hrest
      cases h
      refine ⟨by rw [List.map_cons, (schedule_get (i := 0) hrest).1], fun job hjob => ?_⟩
      cases i with
      | zero =>
        cases hjob
        exact hdue
      | succ i => exact (schedule_get hrest).2 job hjob
    · cases h
    · cases h

theorem ranJob_ok {job job' : Job} {after : ℤ} {outcome : Outcome} {ran : Bool} (h : ranJob sch job outcome after = .ok (job', ran)) :
    job'.entry = job.entry ∧ ran = true ∧ (outcome ≠ .notImplemented → nextDue sch job.entry after = .ok job'.due) := by
  cases outcome with
  | notImplemented =>
    cases h
    exact ⟨rfl, rfl, fun hne => absurd rfl hne⟩
  | done | failed =>
    obtain ⟨due, hdue, heq⟩ := map_eq_ok h
    cases heq
    exact ⟨rfl, rfl, fun _ => hdue⟩

/-- **What a run of a job leaves**: its entry, and, where it does not keep market hours, the next due instant from its
end. -/
theorem runJob_ok {job job' : Job} {now after : ℤ} {outcome : Outcome} {ran : Bool}
    (h : runJob sch job now outcome after = .ok (job', ran)) : job'.entry = job.entry ∧
      (job.entry.marketHoursOnly = false → ran = true ∧ (outcome ≠ .notImplemented → nextDue sch job.entry after = .ok job'.due)) := by
  unfold runJob at h
  split at h
  · rename_i hhours
    refine ⟨?_, fun hfalse => by rw [hhours] at hfalse; cases hfalse⟩
    split at h
    · cases h
    · exact (ranJob_ok h).1
    · obtain ⟨due, -, heq⟩ := map_eq_ok h
      cases heq
      rfl
  · obtain ⟨hentry, hran, hdue⟩ := ranJob_ok h
    exact ⟨hentry, fun _ => ⟨hran, hdue⟩⟩

/-- **What a pass does**: nothing, or it runs the soonest job. -/
theorem pass_ok {jobs jobs' : List Job} {now after : ℤ} {outcome : Outcome} {ran : Option (ℕ × ℤ)}
    (h : pass sch jobs now outcome after = .ok (jobs', ran)) : (jobs' = jobs ∧ ran = none) ∨
      ∃ job j job' b, soonest jobs = some (job, j) ∧ job.due ≤ now ∧ runJob sch job now outcome after = .ok (job', b) ∧
        jobs' = jobs.set j job' ∧ ran = if b then some (j, job.due) else none := by
  unfold pass at h
  split at h
  · cases h
    exact .inl ⟨rfl, rfl⟩
  · rename_i job j hjob
    split at h
    · cases h
      exact .inl ⟨rfl, rfl⟩
    · rename_i hdue
      obtain ⟨r, hrun, heq⟩ := map_eq_ok h
      cases heq
      exact .inr ⟨job, j, r.1, r.2, hjob, not_lt.1 hdue, hrun, rfl, rfl⟩

theorem ranFor_singleton (d : ℤ) : ranFor i [(i, d)] = [d] := by simp [ranFor]

theorem kept_step {s t : State} {a : Act} (hs : Kept entries i s) (h : Step sch entries s a t) : Kept entries i t := by
  cases h with
  | start hclock hjobs =>
    refine ⟨le_rfl, fun d hd => ?_, fun d hd => (hs.past d hd).trans hclock, .inr (schedule_get (i := 0) hjobs).1⟩
    rw [List.append_nil] at hd
    exact (hs.past d hd).trans hclock
  | @pass now after outcome jobs ran hclock hafter hpass =>
    have hlate : s.clock ≤ after := hclock.trans hafter
    obtain ⟨rfl, rfl⟩ | ⟨job, j, job', b, hjob, hdue, hrun, rfl, rfl⟩ := pass_ok hpass
    · exact ⟨hs.since.trans hlate, fun d hd => (hs.past d (by simpa using hd)).trans hlate, hs.before, hs.entries⟩
    · refine ⟨hs.since.trans hlate, fun d hd => ?_, hs.before, hs.entries.imp (fun hnil => ?_) fun hmap => ?_⟩
      · rw [← List.append_assoc, ranFor_append, List.mem_append] at hd
        obtain hd | hd := hd
        · exact (hs.past d hd).trans hlate
        · cases b with
          | false => cases hd
          | true =>
            obtain ⟨-, rfl⟩ : i = j ∧ d = job.due := by simpa [ranFor] using hd
            exact hdue.trans hafter
      · rw [hnil, List.set_nil]
      · -- the entry it is put back with is the one that was there
        obtain ⟨hlt, hget⟩ := List.getElem?_eq_some_iff.1 (soonest_get hjob).1
        have hlen : j < (s.jobs.map Job.entry).length := by simpa using hlt
        have hsame : job'.entry = (s.jobs.map Job.entry)[j] := by
          rw [(runJob_ok hrun).1, List.getElem_map, hget]
        rw [List.map_set, hsame, List.set_getElem_self, hmap]

/-- **A step in time keeps the job served.** -/
theorem served_step {s t : State} {a : Act} (hentry : entries[i]? = some e) (htrigger : e.trigger = .session opens)
    (hhours : e.marketHoursOnly = false) (hs : Kept entries i s ∧ Served sch e opens i s) (hG : InTime sch e opens i s a)
    (h : Step sch entries s a t) : Kept entries i t ∧ Served sch e opens i t := by
  refine ⟨kept_step hs.1 h, ?_⟩
  obtain ⟨hkept, hserved⟩ := hs
  have hentryOf : ∀ {jobs : List Job} {job : Job}, jobs.map Job.entry = entries → jobs[i]? = some job → job.entry = e := by
    intro jobs job hmap hget
    have := congrArg (·[i]?) hmap
    simpa [hget, hentry] using this
  have hedge : ∀ {now due : ℤ}, nextDue sch e now = .ok due → nextSessionEdge sch e opens now = .ok due := by
    intro now due hdue
    rw [nextDue, htrigger] at hdue
    exact hdue
  cases h with
  | @start now jobs hclock hjobs =>
    have hleast : ∀ job, jobs[i]? = some job → IsLeast {x ∈ Dues sch e opens | now < x} job.due := by
      intro job hget
      obtain ⟨hmap, hdue⟩ := schedule_get hjobs
      have hd := hdue job hget
      rw [hentryOf hmap hget] at hd
      exact Seen.isLeast hG (hedge hd)
    refine ⟨fun job hget => (hleast job hget).1, fun job hget d => ⟨fun hd => (by cases hd), ?_⟩, ?_⟩
    · rintro ⟨hd, hfrom, hto⟩
      exact absurd ((hleast job hget).2 ⟨hd, hfrom⟩) (not_le.2 hto)
    · rw [List.append_nil]
      exact hserved.once
  | @pass now after outcome jobs ran hclock hafter hpass =>
    obtain ⟨rfl, rfl⟩ | ⟨job, j, job', b, hjob, hdue, hrun, rfl, rfl⟩ := pass_ok hpass
    · rw [Option.toList_none, List.append_nil]
      exact ⟨hserved.next, hserved.exact, hserved.once⟩
    · by_cases hj : j = i
      · subst hj
        obtain ⟨hget, -⟩ := soonest_get hjob
        have hmap : s.jobs.map Job.entry = entries := hkept.entries.resolve_left fun hnil => by rw [hnil] at hget; cases hget
        obtain rfl := hentryOf hmap hget
        obtain ⟨-, hran⟩ := runJob_ok hrun
        obtain ⟨rfl, hnext⟩ := hran hhours
        obtain ⟨hstub, hseen, hclear⟩ := hG job hjob hdue
        obtain ⟨⟨hmem, hlater⟩, hleast⟩ := hseen.isLeast (hedge (hnext hstub))
        obtain ⟨hdueMem, hdueSince⟩ := hserved.next job hget
        have hset : ∀ k, (s.jobs.set j job')[j]? = some k → k = job' := fun k hk => by
          rw [List.getElem?_set_self (List.getElem?_eq_some_iff.1 hget).1] at hk
          exact (Option.some.inj hk).symm
        refine ⟨fun k hk => ?_, fun k hk d => ?_, ?_⟩
        · obtain rfl := hset k hk
          exact ⟨hmem, by dsimp only; have := hkept.since; omega⟩
        · obtain rfl := hset k hk
          simp only [if_true, Option.toList_some, ranFor_append, ranFor_singleton, List.mem_append, List.mem_singleton,
            hserved.exact job hget]
          constructor
          · rintro (⟨hd, hfrom, hto⟩ | rfl)
            · exact ⟨hd, hfrom, by omega⟩
            · exact ⟨hdueMem, hdueSince, by omega⟩
          · rintro ⟨hd, hfrom, hto⟩
            obtain hlt | heq | hgt := lt_trichotomy d job.due
            · exact .inl ⟨hd, hfrom, hlt⟩
            · exact .inr heq
            · -- an instant after this one is after the job's end, and the next is the least of those
              exact absurd (hleast ⟨hd, hclear d hd hgt⟩) (not_le.2 hto)
        · simp only [if_true, Option.toList_some]
          rw [← List.append_assoc, ranFor_append, ranFor_singleton]
          refine List.pairwise_append.2 ⟨hserved.once, List.pairwise_singleton _ _, fun d hd x hx => ?_⟩
          obtain rfl := List.mem_singleton.1 hx
          rw [ranFor_append, List.mem_append] at hd
          obtain hd | hd := hd
          · exact (hkept.before d hd).trans_lt hdueSince
          · exact ((hserved.exact job hget d).1 hd).2.2
      · have hnone : ranFor i (if b then some (j, job.due) else none).toList = [] := ranFor_none fun d hd => by
          cases b with
          | false => cases hd
          | true =>
            cases hd
            exact hj rfl
        have hsame : (s.jobs.set j job')[i]? = s.jobs[i]? := List.getElem?_set_ne hj
        refine ⟨fun k hk => hserved.next k (hsame ▸ hk), fun k hk d => ?_, ?_⟩
        · rw [ranFor_append, hnone, List.append_nil]
          exact hserved.exact k (hsame ▸ hk) d
        · rw [← List.append_assoc, ranFor_append, hnone, List.append_nil]
          exact hserved.once

end

/-- **The next edge, and a run for each**: for an entry on a session edge `next_due` returns the least due instant after `now`
exactly where the scan sees it, and in every run whose steps are in time the job runs once for each, where the entry does not
keep market hours. -/
theorem next_edges (sch : ExchangeSchedule) (e : Entry) (opens : Bool) (htrigger : e.trigger = .session opens) :
    (∀ now, (∃ d, nextDue sch e now = .ok d ∧ IsLeast {x ∈ Dues sch e opens | now < x} d) ↔ Seen sch e opens now) ∧
    (∀ entries i clock l s, entries[i]? = some e → e.marketHoursOnly = false →
      Run (guarded (Step sch entries) (InTime sch e opens i)) { clock, since := clock } l s → Served sch e opens i s) := by
  refine ⟨fun now => ?_, fun entries i clock l s hentry hhours h => ?_⟩
  · unfold nextDue
    rw [htrigger]
    exact nextSessionEdge_iff
  · have hkept : Kept entries i { clock, since := clock } :=
      ⟨le_rfl, fun d hd => (by cases hd), fun d hd => (by cases hd), .inl rfl⟩
    have hserved : Served sch e opens i { clock, since := clock } :=
      ⟨fun job hget => (by cases hget), fun job hget => (by cases hget), .nil⟩
    exact (run_guarded _ (fun s => Kept entries i s ∧ Served sch e opens i s)
      (fun s a t hI hG hstep => served_step hentry htrigger hhours hI hG hstep) ⟨hkept, hserved⟩ h).2

/-! ## Concretely -/

/-- A session in the afternoon of every day, and no year refused. -/
def daily : ExchangeSchedule := { ExchangeSchedule.twoYears with covered := none }

/-- A session in the afternoon of every tenth day. -/
def tenth : ExchangeSchedule := { daily with
  schedule := fun y => [⟨10 * y, 864000 * y + 50000, 864000 * y + 60000⟩]
  ascending := fun y => List.pairwise_singleton _ _
  filed := fun h => by
    obtain rfl := List.mem_singleton.1 h
    exact Int.mul_ediv_cancel_left _ (by decide)
  sameDate := fun h => by
    obtain rfl := List.mem_singleton.1 h
    show 86400 * _ ≤ _ ∧ _ ∧ _ < 86400 * _
    dsimp only
    omega }

/-- At least one session in every ten-day stretch. -/
def Dense (sch : ExchangeSchedule) : Prop := ∀ d, ∃ s, sch.Listed s ∧ d ≤ s.day ∧ s.day < d + 10

theorem daily_covers (y : ℤ) : daily.Covers y := fun range hrange => by cases hrange

theorem daily_listed {s : Session} : daily.Listed s ↔ s.openAt = 86400 * s.day + 50000 ∧ s.closeAt = 86400 * s.day + 60000 := by
  constructor
  · rintro ⟨-, hs⟩
    obtain ⟨d, -, rfl⟩ := List.mem_map.1 hs
    exact ⟨rfl, rfl⟩
  · rintro ⟨hopen, hclose⟩
    refine ⟨daily_covers _, List.mem_map.2 ⟨s.day, TradingCalendar.mem_daysFrom.2 ⟨?_, ?_⟩, ?_⟩⟩
    · show 10 * (s.day / 10) ≤ s.day
      omega
    · show s.day ≤ 10 * (s.day / 10) + 9
      omega
    · rw [← hopen, ← hclose]

theorem daily_dense : Dense daily := fun d =>
  ⟨⟨d, 86400 * d + 50000, 86400 * d + 60000⟩, daily_listed.2 ⟨rfl, rfl⟩, le_rfl, by dsimp only; omega⟩

theorem tenth_dense : Dense tenth := fun d => by
  refine ⟨⟨10 * ((d + 9) / 10), 864000 * ((d + 9) / 10) + 50000, 864000 * ((d + 9) / 10) + 60000⟩,
    ⟨fun range hrange => (by cases hrange), ?_⟩, by dsimp only; omega, by dsimp only; omega⟩
  have hyear : tenth.yearOf (10 * ((d + 9) / 10)) = (d + 9) / 10 := by
    show _ / 10 = _
    omega
  dsimp only
  rw [hyear]
  exact List.mem_singleton.2 rfl

/-- The daily report, so many minutes after the close. -/
def report (offsetMinutes : ℤ) : Entry := { job := "generate_daily_report", trigger := .session false, offsetMinutes }

/-- Half an hour after a close is before its day is over, so the scan sees every next edge. -/
theorem daily_seen (now : ℤ) : Seen daily (report 30) false now := by
  have hdate : daily.localDate now = now / 86400 := rfl
  refine ⟨daily_covers _, ⟨⟨now / 86400 + 1, 86400 * (now / 86400 + 1) + 50000, 86400 * (now / 86400 + 1) + 60000⟩,
    daily_listed.2 ⟨rfl, rfl⟩, ?_, ?_, ?_⟩, fun s hs hday => ?_⟩
  · rw [hdate]
    show now / 86400 ≤ now / 86400 + 1
    omega
  · rw [hdate]
    show now / 86400 + 1 < now / 86400 + 10
    omega
  · show now < 86400 * (now / 86400 + 1) + 60000 + 60 * 30
    omega
  · rw [hdate] at hday
    show s.closeAt + 60 * 30 ≤ now
    rw [(daily_listed.1 hs).2]
    omega

/-- The report is in time where it is over within the day it is due on. -/
theorem daily_inTime {s : State} {now after : ℤ} {job : Job} (hjob : soonest s.jobs = some (job, 0)) (k : ℤ)
    (hdue : job.due = 86400 * k + 61800) (hafter : after < 86400 * (k + 1)) :
    InTime daily (report 30) false 0 s (.pass now .done after) := by
  intro job' hjob' _
  rw [hjob] at hjob'
  cases hjob'
  refine ⟨by decide, daily_seen after, ?_⟩
  rintro d ⟨t, ht, rfl⟩ hlater
  have hclose : (report 30).dueAt false t = 86400 * t.day + 60000 + 60 * 30 := by rw [← (daily_listed.1 ht).2]; rfl
  rw [hclose] at hlater ⊢
  omega

/-- **Half an hour after each close**: a start, a report, a restart the same evening and the next day's report. -/
theorem next_edges_daily : (∃ d, nextDue daily (report 30) 0 = .ok d ∧ IsLeast {x ∈ Dues daily (report 30) false | 0 < x} d) ∧
    Served daily (report 30) false 0 ⟨148310, 70000, [⟨report 30, 234600, false⟩], [(0, 148200)], [(0, 61800)]⟩ := by
  obtain ⟨hiff, hserved⟩ := next_edges daily (report 30) false rfl
  have hfirst : pass daily [⟨report 30, 61800, false⟩] 62000 .done 62010 =
      .ok ([⟨report 30, 148200, false⟩], some (0, 61800)) := by decide +kernel
  have hsecond : pass daily [⟨report 30, 148200, false⟩] 148300 .done 148310 =
      .ok ([⟨report 30, 234600, false⟩], some (0, 148200)) := by decide +kernel
  have hup : schedule daily 0 [report 30] = .ok [⟨report 30, 61800, false⟩] := by decide +kernel
  have hagain : schedule daily 70000 [report 30] = .ok [⟨report 30, 148200, false⟩] := by decide +kernel
  refine ⟨(hiff 0).2 (daily_seen 0),
    hserved [report 30] 0 0 [.start 0, .pass 62000 .done 62010, .start 70000, .pass 148300 .done 148310] _ rfl rfl ?_⟩
  refine .cons ⟨.start le_rfl hup, daily_seen 0⟩ ?_
  refine .cons ⟨.pass (by decide) (by decide) hfirst, daily_inTime rfl 0 rfl (by decide)⟩ ?_
  refine .cons ⟨.start (by decide) hagain, daily_seen 70000⟩ ?_
  exact .cons ⟨.pass (by decide) (by decide) hsecond, daily_inTime rfl 1 rfl (by decide)⟩ (.nil _)

/-- **Ten hours after the close is tomorrow's date**: from an hour after midnight the report that is due at two is passed over
for the next night's.  And a session every tenth day is one too far once today's has closed. -/
theorem edge_missed :
    (Dense daily ∧ 96000 ∈ {x ∈ Dues daily (report 600) false | 90000 < x} ∧ nextDue daily (report 600) 90000 = .ok 182400) ∧
      (Dense tenth ∧ ∀ d, nextDue tenth (report 0) 60000 ≠ .ok d) := by
  refine ⟨⟨daily_dense, ⟨⟨⟨0, 50000, 60000⟩, daily_listed.2 ⟨rfl, rfl⟩, rfl⟩, by decide⟩, by decide +kernel⟩, tenth_dense, fun d hd => ?_⟩
  have hedge : nextSessionEdge tenth (report 0) false 60000 = .ok d := hd
  obtain ⟨s, hs, rfl, hlt, -, hfrom, hto, -⟩ := nextSessionEdge_ok hedge
  obtain ⟨-, hmem⟩ := hs
  obtain ⟨y, hy⟩ : ∃ y, s = ⟨10 * y, 864000 * y + 50000, 864000 * y + 60000⟩ := ⟨_, List.mem_singleton.1 hmem⟩
  subst hy
  have hafter : 60000 < 864000 * y + 60000 + 60 * 0 := hlt
  have hbefore : 10 * y < 60000 / 86400 + 10 := hto
  omega

end Scheduling
end Atp
