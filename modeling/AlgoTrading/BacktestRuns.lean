import Mathlib.Data.List.Induction
import Mathlib.Logic.Function.Basic
import AlgoTrading.Dict
import AlgoTrading.Raising
import AlgoTrading.Runs
/-!
# BacktestRuns — a queued backtest from the request to its verdict

`persistence/backtests.py`, `run_backtest_task` of `tasks.py` and `sweep_interrupted` of `queue.py`.  In two parts: one task
alone, with whatever way its work ends (`concluded_iff`); and any number of tasks and sweeps, statement by statement
(`verdict_stands`).  Every write is one `UPDATE` that matches only a run in flight.
-/
namespace Atp
namespace BacktestRuns

open Raising Runs

inductive Status
  | queued | running | done | failed
deriving DecidableEq

def Status.name : Status → String
  | .queued => "queued"
  | .running => "running"
  | .done => "done"
  | .failed => "failed"

/-- The five columns of `result_to_storage`. -/
structure ResultColumns (J : Type) where
  metrics : J
  equityCurve : List J
  trades : List J
  warnings : List String
  totals : J

/-- A row of `backtest_runs`, as it is read back. -/
structure StoredBacktestRun (S J : Type) where
  spec : S
  status : Status
  error : Option String
  queuedAt : ℤ
  startedAt : Option ℤ
  finishedAt : Option ℤ
  metrics : Option J := none
  equityCurve : Option (List J) := none
  trades : Option (List J) := none
  warnings : Option (List String) := none
  totals : Option J := none

variable {S J R : Type}

/-- `new_run`. -/
def newRun (spec : S) (queuedAt : ℤ) : StoredBacktestRun S J where
  spec := spec
  status := .queued
  error := none
  queuedAt := queuedAt
  startedAt := none
  finishedAt := none

namespace StoredBacktestRun

def isInFlight (r : StoredBacktestRun S J) : Bool := r.status = .queued || r.status = .running

/-- What `mark_running` sets. -/
def claimed (ts : ℤ) (r : StoredBacktestRun S J) : StoredBacktestRun S J :=
  { r with status := .running, startedAt := some ts, error := none }

/-- What `finish` sets. -/
def finished (ts : ℤ) (c : ResultColumns J) (r : StoredBacktestRun S J) : StoredBacktestRun S J :=
  { r with
    status := .done, metrics := some c.metrics, equityCurve := some c.equityCurve, trades := some c.trades,
    warnings := some c.warnings, totals := some c.totals, error := none, finishedAt := some ts }

/-- What `fail` sets. -/
def failed (ts : ℤ) (error : String) (r : StoredBacktestRun S J) : StoredBacktestRun S J :=
  { r with
    status := .failed, error := some error, metrics := none, equityCurve := none, trades := none, warnings := none,
    totals := none, finishedAt := some ts }

end StoredBacktestRun

/-- The table. -/
abbrev Table (S J : Type) := Dict String (StoredBacktestRun S J)

namespace Table

/-- `UPDATE ... WHERE id = run_id AND status IN (queued, running)`. -/
def updateInFlight (runId : String) (f : StoredBacktestRun S J → StoredBacktestRun S J) (t : Table S J) : Table S J :=
  match t.get? runId with
  | none => t
  | some r => if r.isInFlight then t.set runId (f r) else t

def markRunning (runId : String) (ts : ℤ) : Table S J → Table S J := updateInFlight runId (·.claimed ts)

def finish (runId : String) (ts : ℤ) (c : ResultColumns J) : Table S J → Table S J := updateInFlight runId (·.finished ts c)

def fail (runId : String) (ts : ℤ) (error : String) : Table S J → Table S J := updateInFlight runId (·.failed ts error)

/-- `stale_running`. -/
def staleRunning (olderThan : ℤ) (t : Table S J) : List String :=
  (t.entries.filter fun e => e.2.status = .running && e.2.startedAt.any (· < olderThan)).map Prod.fst

theorem get?_updateInFlight (runId id : String) (f : StoredBacktestRun S J → StoredBacktestRun S J) (t : Table S J) :
    (t.updateInFlight runId f).get? id =
      if id = runId then (t.get? id).map fun r => if r.isInFlight then f r else r else t.get? id := by
  unfold updateInFlight
  by_cases h : id = runId
  · subst h
    rw [if_pos rfl]
    cases hget : t.get? id with
    | none => exact hget
    | some r =>
      dsimp only
      split
      · next hflight => rw [Dict.get?_set_self, Option.map_some, if_pos hflight]
      · next hflight => rw [hget, Option.map_some, if_neg hflight]
  · rw [if_neg h]
    split
    · rfl
    · split
      · exact Dict.get?_set_ne _ _ h
      · rfl

theorem staleRunning_status {olderThan : ℤ} {t : Table S J} {id : String} (h : id ∈ t.staleRunning olderThan) :
    ∃ r, t.get? id = some r ∧ r.status = .running := by
  obtain ⟨⟨_, r⟩, hmem, rfl⟩ := List.mem_map.1 h
  obtain ⟨hentry, hstale⟩ := List.mem_filter.1 hmem
  rw [Bool.and_eq_true, decide_eq_true_eq] at hstale
  exact ⟨r, (Dict.mem_entries_iff _ _ _).1 hentry, hstale.1⟩

end Table

/-! ## One task -/

/-- Which `except` clause an exception meets: the first, the second, or neither. -/
inductive RaisedKind
  | atpError | exception | baseException
deriving DecidableEq

/-- An exception: what catches it, `type(exc).__name__`, and `str(exc)`. -/
structure Raised where
  kind : RaisedKind
  typeName : String
  text : String

/-- A store call that raises, with its `UPDATE` committed or not. -/
structure BrokenWrite where
  landed : Bool
  raised : Raised

/-- **What a task meets**: how its work ends, what serialising the result gives, what its clock reads before and after, and
whether its last write comes back. -/
structure Meets (S J R : Type) where
  execute : S → Except Raised R
  resultToStorage : R → Except Raised (ResultColumns J)
  startAt : ℤ
  endAt : ℤ
  write : Option BrokenWrite

structure Report where
  runId : String
  status : String
  trades : Option ℕ := none

def Meets.awaitWrite (m : Meets S J R) (statement : Table S J → Table S J) : Prog (Table S J) Raised PUnit := do
  match m.write with
  | none => modify statement
  | some broken =>
    if broken.landed then modify statement
    throw broken.raised

/-- The work of a claimed run and the write of its verdict: the `try` of `run_backtest_task`, and what follows it. -/
def Meets.conclude (m : Meets S J R) (runId : String) (spec : S) : Prog (Table S J) Raised Report := do
  match m.execute spec with
  | .error exc =>
    match exc.kind with
    | .atpError =>
      m.awaitWrite (Table.fail runId m.endAt (exc.typeName ++ ": " ++ exc.text))
      return { runId := runId, status := "failed" }
    | .exception =>
      m.awaitWrite (Table.fail runId m.endAt ("unexpected " ++ exc.typeName ++ ": " ++ exc.text))
      throw exc
    | .baseException => throw exc
  | .ok result =>
    -- after the guarded block: nothing catches what serialising raises
    match m.resultToStorage result with
    | .error exc => throw exc
    | .ok columns =>
      m.awaitWrite (Table.finish runId m.endAt columns)
      return { runId := runId, status := "done", trades := some columns.trades.length }

/-- **`run_backtest_task`.** -/
def runBacktestTask (m : Meets S J R) (runId : String) : Prog (Table S J) Raised Report := do
  let runs ← get
  match runs.get? runId with
  | none => return { runId := runId, status := "missing" }
  | some run =>
    if run.isInFlight = false then return { runId := runId, status := run.status.name }
    else
      modify (Table.markRunning runId m.startAt)
      m.conclude runId run.spec

/-- The row says how the run ended: a failure in words, or a result in all five columns. -/
structure Concluded (r : StoredBacktestRun S J) : Prop where
  terminal : r.status = .done ∨ r.status = .failed
  failed : r.status = .failed → ∃ error, r.error = some error ∧ error ≠ ""
  done : r.status = .done →
    r.metrics.isSome ∧ r.equityCurve.isSome ∧ r.trades.isSome ∧ r.warnings.isSome ∧ r.totals.isSome

/-- **What the two `except` clauses cover**: the work ends in a result that serialises, or in an `Exception`, and the last write
commits. -/
structure Meets.Guarded (m : Meets S J R) (spec : S) : Prop where
  raised : ∀ exc, m.execute spec = .error exc → exc.kind ≠ .baseException
  serialised : ∀ result, m.execute spec = .ok result → ∃ columns, m.resultToStorage result = .ok columns
  landed : ∀ broken, m.write = some broken → broken.landed = true

section
variable {m : Meets S J R} {runId : String} {run : StoredBacktestRun S J} {t : Table S J}

theorem concluded_finished (ts : ℤ) (c : ResultColumns J) (r : StoredBacktestRun S J) : Concluded (r.finished ts c) where
  terminal := .inl rfl
  failed := fun h => nomatch h
  done := fun _ => ⟨rfl, rfl, rfl, rfl, rfl⟩

theorem concluded_failed (ts : ℤ) {error : String} (h : error ≠ "") (r : StoredBacktestRun S J) :
    Concluded (r.failed ts error) where
  terminal := .inr rfl
  failed := fun _ => ⟨error, rfl, h⟩
  done := fun h => nomatch h

theorem not_concluded {r : StoredBacktestRun S J} (h : r.isInFlight = true) : ¬Concluded r := by
  intro hc
  unfold StoredBacktestRun.isInFlight at h
  rcases hc.terminal with hs | hs <;> rw [hs] at h <;> exact absurd h (by decide)

theorem named_ne_empty (name text : String) : name ++ ": " ++ text ≠ "" := by
  intro h
  have hlength := congrArg String.length h
  simp at hlength

/-- A run in flight, updated. -/
theorem get?_updated (f : StoredBacktestRun S J → StoredBacktestRun S J) (hget : t.get? runId = some run) (hflight : run.isInFlight = true) :
    (t.updateInFlight runId f).get? runId = some (f run) := by
  rw [Table.get?_updateInFlight, if_pos rfl, hget, Option.map_some, if_pos hflight]

theorem awaitWrite_landed {statement : Table S J → Table S J} (h : ∀ broken, m.write = some broken → broken.landed = true) :
    (exec (m.awaitWrite statement) t).2 = statement t := by
  unfold Meets.awaitWrite
  cases hw : m.write with
  | none => rfl
  | some broken =>
    have hl := h broken hw
    simp [exec_bind, hl]

theorem awaitWrite_lost {statement : Table S J → Table S J} {broken : BrokenWrite} (hw : m.write = some broken)
    (hl : broken.landed = false) : (exec (m.awaitWrite statement) t).2 = t := by
  unfold Meets.awaitWrite
  simp [hw, hl]

theorem exec_task (hget : t.get? runId = some run) (hflight : run.isInFlight = true) :
    exec (runBacktestTask m runId) t = exec (m.conclude runId run.spec) (t.markRunning runId m.startAt) := by
  unfold runBacktestTask
  simp [exec_bind, hget, hflight]

theorem exec_returns (x : Prog (Table S J) Raised PUnit) (a : Report) : (exec (do x; return a) t).2 = (exec x t).2 := by
  rw [exec_bind]
  rcases exec x t with ⟨_ | _, u⟩ <;> rfl

theorem exec_throws (x : Prog (Table S J) Raised PUnit) (exc : Raised) :
    (exec (do x; throw exc : Prog (Table S J) Raised Report) t).2 = (exec x t).2 := by
  rw [exec_bind]
  rcases exec x t with ⟨_ | _, u⟩ <;> rfl

/-- What the verdict's write is, if one is reached. -/
def Meets.verdict (m : Meets S J R) (spec : S) : Option (StoredBacktestRun S J → StoredBacktestRun S J) :=
  match m.execute spec with
  | .error exc =>
    match exc.kind with
    | .atpError => some (·.failed m.endAt (exc.typeName ++ ": " ++ exc.text))
    | .exception => some (·.failed m.endAt ("unexpected " ++ exc.typeName ++ ": " ++ exc.text))
    | .baseException => none
  | .ok result => (m.resultToStorage result).toOption.map fun columns => (·.finished m.endAt columns)

theorem exec_conclude (spec : S) : (exec (m.conclude runId spec) t).2 =
    (m.verdict spec).elim t fun f => (exec (m.awaitWrite (Table.updateInFlight runId f)) t).2 := by
  unfold Meets.conclude Meets.verdict
  cases m.execute spec with
  | error exc =>
    cases hk : exc.kind with
    | atpError => simp only [hk, Option.elim_some, exec_returns, Table.fail]
    | exception => simp only [hk, Option.elim_some, exec_throws, Table.fail]
    | baseException => simp only [hk, Option.elim_none, exec_throw]
  | ok result =>
    cases hs : m.resultToStorage result with
    | error exc => simp only [hs, exec_throw, Except.toOption, Option.map_none, Option.elim_none]
    | ok columns => simp only [hs, exec_returns, Except.toOption, Option.map_some, Option.elim_some, Table.finish]

theorem verdict_cases {spec : S} {f : StoredBacktestRun S J → StoredBacktestRun S J} (h : m.verdict spec = some f) :
    (∃ error, error ≠ "" ∧ f = (·.failed m.endAt error)) ∨ ∃ columns, f = (·.finished m.endAt columns) := by
  unfold Meets.verdict at h
  cases hw : m.execute spec with
  | error exc =>
    simp only [hw] at h
    cases hk : exc.kind with
    | atpError =>
      simp only [hk, Option.some.injEq] at h
      exact .inl ⟨_, named_ne_empty _ _, h.symm⟩
    | exception =>
      simp only [hk, Option.some.injEq] at h
      exact .inl ⟨_, named_ne_empty _ _, h.symm⟩
    | baseException => simp only [hk, reduceCtorEq] at h
  | ok result =>
    simp only [hw, Option.map_eq_some_iff] at h
    obtain ⟨columns, -, hf⟩ := h
    exact .inr ⟨columns, hf.symm⟩

theorem verdict_concludes {spec : S} {f : StoredBacktestRun S J → StoredBacktestRun S J} (h : m.verdict spec = some f)
    (r : StoredBacktestRun S J) : Concluded (f r) := by
  rcases verdict_cases h with ⟨error, herror, rfl⟩ | ⟨columns, rfl⟩
  · exact concluded_failed m.endAt herror r
  · exact concluded_finished m.endAt columns r

theorem verdict_iff {spec : S} : (∃ f, m.verdict spec = some f) ↔
    (∀ exc, m.execute spec = .error exc → exc.kind ≠ .baseException) ∧
      ∀ result, m.execute spec = .ok result → ∃ columns, m.resultToStorage result = .ok columns := by
  unfold Meets.verdict
  cases hw : m.execute spec with
  | error exc => cases hk : exc.kind <;> simp [hk]
  | ok result => cases hs : m.resultToStorage result <;> simp [hs, Except.toOption]

/-- **No run is left running, exactly when** its work ended in a result that serialises or in an `Exception`, and the last write
committed. -/
theorem concluded_iff (m : Meets S J R) (t : Table S J) (runId : String) (run : StoredBacktestRun S J)
    (hget : t.get? runId = some run) (hflight : run.isInFlight = true) :
    (∃ r, (exec (runBacktestTask m runId) t).2.get? runId = some r ∧ Concluded r) ↔ m.Guarded run.spec := by
  have hclaimed : (t.markRunning runId m.startAt).get? runId = some (run.claimed m.startAt) := get?_updated _ hget hflight
  have hstays : ¬∃ r, (t.markRunning runId m.startAt).get? runId = some r ∧ Concluded r := by
    rintro ⟨r, hr, hc⟩
    rw [hclaimed] at hr
    exact not_concluded rfl (Option.some.inj hr ▸ hc)
  rw [exec_task hget hflight, exec_conclude]
  constructor
  · intro h
    cases hv : m.verdict run.spec with
    | none =>
      rw [hv] at h
      exact absurd h hstays
    | some f =>
      obtain ⟨hraised, hserialised⟩ := verdict_iff.1 ⟨f, hv⟩
      refine ⟨hraised, hserialised, fun broken hw => ?_⟩
      by_contra hl
      rw [hv, Option.elim_some, awaitWrite_lost hw (Bool.eq_false_iff.2 hl)] at h
      exact hstays h
  · rintro ⟨hraised, hserialised, hlanded⟩
    obtain ⟨f, hv⟩ := verdict_iff.2 ⟨hraised, hserialised⟩
    rw [hv, Option.elim_some, awaitWrite_landed hlanded, get?_updated f hclaimed rfl]
    exact ⟨_, rfl, verdict_concludes hv _⟩

end

def queuedRuns : Table Unit Unit := Dict.empty.set "r-1" (newRun () 0)

/-- A strategy refuses its parameters. -/
def refused : Meets Unit Unit Unit where
  execute _ := .error ⟨.atpError, "ConfigError", "lookback must be positive"⟩
  resultToStorage _ := .ok ⟨(), [], [], [], ()⟩
  startAt := 60
  endAt := 61
  write := none

/-- The job timeout: arq cancels the coroutine while the engine runs. -/
def timedOut : Meets Unit Unit Unit :=
  { refused with execute := fun _ => .error ⟨.baseException, "CancelledError", ""⟩, endAt := 3660 }

theorem concluded_refused : ∃ r, (exec (runBacktestTask refused "r-1") queuedRuns).2.get? "r-1" = some r ∧ Concluded r :=
  (concluded_iff refused queuedRuns "r-1" (newRun () 0) (Dict.get?_set_self _ _ _) rfl).2
    ⟨fun _ h => Except.error.inj h ▸ (fun h => nomatch h), fun _ h => (nomatch h), fun _ h => (nomatch h)⟩

/-- **A run that times out is left at `running`.** -/
theorem left_running :
    ((exec (runBacktestTask timedOut "r-1") queuedRuns).2.get? "r-1").map StoredBacktestRun.status = some .running ∧
      ¬∀ (m : Meets Unit Unit Unit) (t : Table Unit Unit) (runId : String) (run : StoredBacktestRun Unit Unit),
        t.get? runId = some run → run.isInFlight = true →
          ∃ r, (exec (runBacktestTask m runId) t).2.get? runId = some r ∧ Concluded r := by
  have hrunning : ((exec (runBacktestTask timedOut "r-1") queuedRuns).2.get? "r-1").map StoredBacktestRun.status =
      some .running := by decide +kernel
  refine ⟨hrunning, fun h => ?_⟩
  obtain ⟨r, hr, hc⟩ := h timedOut queuedRuns "r-1" (newRun () 0) (Dict.get?_set_self _ _ _) rfl
  rw [hr] at hrunning
  have hstatus : r.status = .running := Option.some.inj hrunning
  exact not_concluded (by rw [StoredBacktestRun.isInFlight, hstatus]; rfl) hc

/-! ## Any number of tasks and sweeps -/

/-- Where a task of `run_backtest_task` stands between two statements. -/
inductive Job (J : Type)
  | idle
  | read (runId : String)
  | claimed (runId : String)
  | failing (runId : String) (error : String)
  | finishing (runId : String) (columns : ResultColumns J)

/-- The table, the tasks of every worker, and the runs each sweep has still to fail. -/
structure World (S J : Type) where
  runs : Table S J
  jobs : ℕ → Job J
  sweeps : ℕ → List String

/-- A statement of a task or a sweep, what the work of a task came to, or the end of one that goes no further. -/
inductive Move (J : Type)
  | get (job : ℕ) (runId : String)
  | markRunning (job : ℕ) (ts : ℤ)
  | worked (job : ℕ) (outcome : String ⊕ ResultColumns J)
  | fail (job : ℕ) (ts : ℤ)
  | finish (job : ℕ) (ts : ℤ)
  | abandon (job : ℕ)
  | staleRunning (sweep : ℕ) (olderThan : ℤ)
  | sweepFail (sweep : ℕ) (ts : ℤ)
  | abandonSweep (sweep : ℕ)

/-- `INTERRUPTED_ERROR`. -/
def interruptedError : String :=
  "interrupted — the worker running this backtest stopped before it finished " ++
    "(restart, deploy, or the process was killed). Nothing is wrong with the request; queue it again."

namespace World

def setJob (w : World S J) (j : ℕ) (job : Job J) (runs : Table S J) : World S J :=
  { w with runs := runs, jobs := Function.update w.jobs j job }

def setSweep (w : World S J) (k : ℕ) (l : List String) (runs : Table S J) : World S J :=
  { w with runs := runs, sweeps := Function.update w.sweeps k l }

/-- **One move**, where the task or the sweep it names stands before it. -/
def move (w : World S J) : Move J → Option (World S J)
  | .get j runId =>
    match w.jobs j with
    | .idle => some (if (w.runs.get? runId).any (·.isInFlight) then w.setJob j (.read runId) w.runs else w)
    | _ => none
  | .markRunning j ts =>
    match w.jobs j with
    | .read runId => some (w.setJob j (.claimed runId) (w.runs.markRunning runId ts))
    | _ => none
  | .worked j outcome =>
    match w.jobs j with
    | .claimed runId => some (w.setJob j (outcome.elim (.failing runId) (.finishing runId)) w.runs)
    | _ => none
  | .fail j ts =>
    match w.jobs j with
    | .failing runId error => some (w.setJob j .idle (w.runs.fail runId ts error))
    | _ => none
  | .finish j ts =>
    match w.jobs j with
    | .finishing runId columns => some (w.setJob j .idle (w.runs.finish runId ts columns))
    | _ => none
  | .abandon j => some (w.setJob j .idle w.runs)
  | .staleRunning k olderThan =>
    match w.sweeps k with
    | [] => some (w.setSweep k (w.runs.staleRunning olderThan) w.runs)
    | _ => none
  | .sweepFail k ts =>
    match w.sweeps k with
    | [] => none
    | runId :: rest => some (w.setSweep k rest (w.runs.fail runId ts interruptedError))
  | .abandonSweep k => some (w.setSweep k [] w.runs)

end World

/-- Any interleaving. -/
abbrev Moves (w : World S J) (l : List (Move J)) (w' : World S J) : Prop := Run (fun w m w' => World.move w m = some w') w l w'

/-- The run a task has claimed. -/
def Job.holds : Job J → Option String
  | .idle | .read _ => none
  | .claimed runId | .failing runId _ | .finishing runId _ => some runId

/-- A run somebody has picked up: it is not waiting any more. -/
def Table.Started (t : Table S J) (runId : String) : Prop := ∀ r, t.get? runId = some r → r.status ≠ .queued

/-- What the tasks have claimed and the sweeps have found has started. -/
structure Claims (w : World S J) : Prop where
  jobs : ∀ j runId, (w.jobs j).holds = some runId → w.runs.Started runId
  sweeps : ∀ k, ∀ runId ∈ w.sweeps k, w.runs.Started runId

/-- **What one move does to one run**: nothing; it claims it; or it writes the verdict of its own task, or a sweep's, on a run
that is running. -/
inductive RowStep (w : World S J) (runId : String) (r : StoredBacktestRun S J) : Move J → StoredBacktestRun S J → Prop
  | keeps (m : Move J) : RowStep w runId r m r
  | claims (j : ℕ) (ts : ℤ) (h : r.isInFlight = true) : RowStep w runId r (.markRunning j ts) (r.claimed ts)
  | fails (j : ℕ) (ts : ℤ) (error : String) (hjob : w.jobs j = .failing runId error) (h : r.status = .running) :
      RowStep w runId r (.fail j ts) (r.failed ts error)
  | finishes (j : ℕ) (ts : ℤ) (columns : ResultColumns J) (hjob : w.jobs j = .finishing runId columns) (h : r.status = .running) :
      RowStep w runId r (.finish j ts) (r.finished ts columns)
  | sweeps (k : ℕ) (ts : ℤ) (rest : List String) (hsweep : w.sweeps k = runId :: rest) (h : r.status = .running) :
      RowStep w runId r (.sweepFail k ts) (r.failed ts interruptedError)

section
variable {w w' : World S J} {m : Move J} {t : Table S J} {runId id : String}
  {f : StoredBacktestRun S J → StoredBacktestRun S J}

theorem claimed_ne (ts : ℤ) (r : StoredBacktestRun S J) : (r.claimed ts).status ≠ .queued := fun h => nomatch h

theorem finished_ne (ts : ℤ) (c : ResultColumns J) (r : StoredBacktestRun S J) : (r.finished ts c).status ≠ .queued := fun h => nomatch h

theorem failed_ne (ts : ℤ) (error : String) (r : StoredBacktestRun S J) : (r.failed ts error).status ≠ .queued := fun h => nomatch h

theorem Table.Started.updated (hf : ∀ r, (f r).status ≠ .queued) (h : t.Started id) : (t.updateInFlight runId f).Started id := by
  intro r hr
  rw [Table.get?_updateInFlight] at hr
  split at hr
  · obtain ⟨r', hr', rfl⟩ := Option.map_eq_some_iff.1 hr
    split
    · exact hf r'
    · exact h r' hr'
  · exact h r hr

/-- A run whose update has been tried has started: it was in flight, or over. -/
theorem started_updated (hf : ∀ r, (f r).status ≠ .queued) : (t.updateInFlight runId f).Started runId := by
  intro r hr
  rw [Table.get?_updateInFlight, if_pos rfl] at hr
  obtain ⟨r', -, rfl⟩ := Option.map_eq_some_iff.1 hr
  split
  · exact hf r'
  · next hover =>
    intro hqueued
    exact hover (by rw [StoredBacktestRun.isInFlight, hqueued]; rfl)

/-- The claims hold of a table that starts more, with a job that claims nothing new. -/
theorem Claims.setJob (h : Claims w) {runs : Table S J} (hruns : ∀ id, w.runs.Started id → runs.Started id) {j : ℕ} {job : Job J}
    (hjob : ∀ runId, job.holds = some runId → runs.Started runId) : Claims (w.setJob j job runs) where
  jobs i runId hi := by
    by_cases hij : i = j
    · subst hij
      simp only [World.setJob, Function.update_self] at hi
      exact hjob runId hi
    · simp only [World.setJob, Function.update_of_ne hij] at hi
      exact hruns runId (h.jobs i runId hi)
  sweeps k runId hk := hruns runId (h.sweeps k runId hk)

theorem Claims.setSweep (h : Claims w) {runs : Table S J} (hruns : ∀ id, w.runs.Started id → runs.Started id) {k : ℕ}
    {l : List String} (hl : ∀ runId ∈ l, runs.Started runId) : Claims (w.setSweep k l runs) where
  jobs i runId hi := hruns runId (h.jobs i runId hi)
  sweeps i runId hi := by
    by_cases hik : i = k
    · subst hik
      simp only [World.setSweep, Function.update_self] at hi
      exact hl runId hi
    · simp only [World.setSweep, Function.update_of_ne hik] at hi
      exact hruns runId (h.sweeps i runId hi)

theorem Claims.move (h : Claims w) (hm : w.move m = some w') : Claims w' := by
  cases m with
  | get j runId =>
    simp only [World.move] at hm
    split at hm
    · have hw := Option.some.inj hm
      split at hw
      · exact hw ▸ h.setJob (fun _ h => h) (fun _ h => absurd h (Option.some_ne_none _).symm)
      · exact hw ▸ h
    · cases hm
  | markRunning j ts =>
    simp only [World.move] at hm
    split at hm
    · rw [← Option.some.inj hm]
      refine h.setJob (fun _ h => h.updated (claimed_ne ts)) fun id hid => ?_
      exact Option.some.inj hid ▸ started_updated (claimed_ne ts)
    · cases hm
  | worked j outcome =>
    simp only [World.move] at hm
    split at hm
    · next runId hjob =>
      have hstarted : w.runs.Started runId := h.jobs j runId (by rw [hjob]; rfl)
      rw [← Option.some.inj hm]
      refine h.setJob (fun _ h => h) fun id hid => ?_
      cases outcome <;> exact Option.some.inj hid ▸ hstarted
    · cases hm
  | fail j ts =>
    simp only [World.move] at hm
    split at hm
    · rw [← Option.some.inj hm]
      exact h.setJob (fun _ h => h.updated (failed_ne ts _)) fun _ h => absurd h (Option.some_ne_none _).symm
    · cases hm
  | finish j ts =>
    simp only [World.move] at hm
    split at hm
    · rw [← Option.some.inj hm]
      exact h.setJob (fun _ h => h.updated (finished_ne ts _)) fun _ h => absurd h (Option.some_ne_none _).symm
    · cases hm
  | abandon j =>
    simp only [World.move, Option.some.injEq] at hm
    exact hm ▸ h.setJob (fun _ h => h) fun _ h => absurd h (Option.some_ne_none _).symm
  | staleRunning k olderThan =>
    simp only [World.move] at hm
    split at hm
    · rw [← Option.some.inj hm]
      refine h.setSweep (fun _ h => h) fun id hid r hr => ?_
      obtain ⟨r', hr', hrunning⟩ := Table.staleRunning_status hid
      rw [Option.some.inj (hr.symm.trans hr'), hrunning]
      decide
    · cases hm
  | sweepFail k ts =>
    simp only [World.move] at hm
    split at hm
    · cases hm
    · next runId rest hsweep =>
      rw [← Option.some.inj hm]
      refine h.setSweep (fun _ h => h.updated (failed_ne ts _)) fun id hid => ?_
      exact (h.sweeps k id (by rw [hsweep]; exact List.mem_cons_of_mem _ hid)).updated (failed_ne ts _)
  | abandonSweep k =>
    simp only [World.move, Option.some.injEq] at hm
    exact hm ▸ h.setSweep (fun _ h => h) fun _ h => absurd h List.not_mem_nil

variable {r : StoredBacktestRun S J}

theorem running_of_started (hstarted : t.Started id) (hget : t.get? id = some r) (hflight : r.isInFlight = true) : r.status = .running := by
  have hnot := hstarted r hget
  unfold StoredBacktestRun.isInFlight at hflight
  cases hs : r.status <;> simp_all

theorem row_updated (runId : String) (f : StoredBacktestRun S J → StoredBacktestRun S J) (hget : t.get? id = some r) :
    ∃ r', (t.updateInFlight runId f).get? id = some r' ∧ (r' = r ∨ id = runId ∧ r.isInFlight = true ∧ r' = f r) := by
  rw [Table.get?_updateInFlight, hget, Option.map_some]
  split
  · next hid =>
    by_cases hflight : r.isInFlight = true
    · exact ⟨f r, by rw [if_pos hflight], .inr ⟨hid, hflight, rfl⟩⟩
    · exact ⟨r, by rw [if_neg hflight], .inl rfl⟩
  · exact ⟨r, rfl, .inl rfl⟩

/-- **The step lemma**: what a move does to a run, from a world whose claims have started. -/
theorem move_row (h : Claims w) (hm : w.move m = some w') (hget : w.runs.get? id = some r) :
    ∃ r', w'.runs.get? id = some r' ∧ RowStep w id r m r' := by
  cases m with
  | get j runId =>
    simp only [World.move] at hm
    split at hm
    · have hw := Option.some.inj hm
      split at hw <;> exact ⟨r, hw ▸ hget, .keeps _⟩
    · cases hm
  | markRunning j ts =>
    simp only [World.move] at hm
    split at hm
    · next runId hjob =>
      rw [← Option.some.inj hm]
      obtain ⟨r', hr', rfl | ⟨rfl, hflight, rfl⟩⟩ := row_updated runId (·.claimed ts) hget
      · exact ⟨r', hr', .keeps _⟩
      · exact ⟨_, hr', .claims j ts hflight⟩
    · cases hm
  | worked j outcome =>
    simp only [World.move] at hm
    split at hm
    · exact ⟨r, Option.some.inj hm ▸ hget, .keeps _⟩
    · cases hm
  | fail j ts =>
    simp only [World.move] at hm
    split at hm
    · next runId error hjob =>
      rw [← Option.some.inj hm]
      obtain ⟨r', hr', rfl | ⟨rfl, hflight, rfl⟩⟩ := row_updated runId (·.failed ts error) hget
      · exact ⟨r', hr', .keeps _⟩
      · exact ⟨_, hr', .fails j ts error hjob (running_of_started (h.jobs j id (by rw [hjob]; rfl)) hget hflight)⟩
    · cases hm
  | finish j ts =>
    simp only [World.move] at hm
    split at hm
    · next runId columns hjob =>
      rw [← Option.some.inj hm]
      obtain ⟨r', hr', rfl | ⟨rfl, hflight, rfl⟩⟩ := row_updated runId (·.finished ts columns) hget
      · exact ⟨r', hr', .keeps _⟩
      · exact ⟨_, hr', .finishes j ts columns hjob (running_of_started (h.jobs j id (by rw [hjob]; rfl)) hget hflight)⟩
    · cases hm
  | abandon j =>
    simp only [World.move, Option.some.injEq] at hm
    exact ⟨r, hm ▸ hget, .keeps _⟩
  | staleRunning k olderThan =>
    simp only [World.move] at hm
    split at hm
    · exact ⟨r, Option.some.inj hm ▸ hget, .keeps _⟩
    · cases hm
  | sweepFail k ts =>
    simp only [World.move] at hm
    split at hm
    · cases hm
    · next runId rest hsweep =>
      rw [← Option.some.inj hm]
      obtain ⟨r', hr', rfl | ⟨rfl, hflight, rfl⟩⟩ := row_updated runId (·.failed ts interruptedError) hget
      · exact ⟨r', hr', .keeps _⟩
      · have hstarted := h.sweeps k id (by rw [hsweep]; exact List.mem_cons_self)
        exact ⟨_, hr', .sweeps k ts rest hsweep (running_of_started hstarted hget hflight)⟩
  | abandonSweep k =>
    simp only [World.move, Option.some.injEq] at hm
    exact ⟨r, hm ▸ hget, .keeps _⟩

end

/-! ## The verdict -/

/-- `queued` to `running` to `done` or `failed`, with `running` again and again. -/
def Status.Advances (a b : Status) : Prop :=
  a = b ∨ a = .queued ∧ b = .running ∨ a = .running ∧ b = .done ∨ a = .running ∧ b = .failed

/-- The five columns are those of one result. -/
structure StoredBacktestRun.Holds (r : StoredBacktestRun S J) (c : ResultColumns J) : Prop where
  metrics : r.metrics = some c.metrics
  equityCurve : r.equityCurve = some c.equityCurve
  trades : r.trades = some c.trades
  warnings : r.warnings = some c.warnings
  totals : r.totals = some c.totals

structure StoredBacktestRun.NoResult (r : StoredBacktestRun S J) : Prop where
  metrics : r.metrics = none
  equityCurve : r.equityCurve = none
  trades : r.trades = none
  warnings : r.warnings = none
  totals : r.totals = none

/-- What a run's row says after an interleaving: a result is that of one `finish` of it, without an error; a failure has none. -/
structure Verdict (w : World S J) (l : List (Move J)) (runId : String) (r : StoredBacktestRun S J) : Prop where
  done : r.status = .done → r.error = none ∧ ∃ pre j ts post u columns, l = pre ++ .finish j ts :: post ∧ Moves w pre u ∧
    u.jobs j = .finishing runId columns ∧ r.Holds columns
  failed : r.status = .failed → r.NoResult

section
variable {w w' u v : World S J} {l : List (Move J)} {m : Move J} {runId : String} {r r' : StoredBacktestRun S J}

theorem RowStep.advances (h : RowStep w runId r m r') : r.status.Advances r'.status := by
  cases h with
  | keeps => exact .inl rfl
  | claims j ts hflight =>
    unfold StoredBacktestRun.isInFlight at hflight
    rw [Bool.or_eq_true, decide_eq_true_eq, decide_eq_true_eq] at hflight
    exact hflight.elim (fun hs => .inr (.inl ⟨hs, rfl⟩)) .inl
  | fails j ts error hjob hs => exact .inr (.inr (.inr ⟨hs, rfl⟩))
  | finishes j ts columns hjob hs => exact .inr (.inr (.inl ⟨hs, rfl⟩))
  | sweeps k ts rest hsweep hs => exact .inr (.inr (.inr ⟨hs, rfl⟩))

/-- A run that is over is not touched. -/
theorem RowStep.over_stays (h : RowStep w runId r m r') (hover : r.isInFlight = false) : r' = r := by
  unfold StoredBacktestRun.isInFlight at hover
  cases h with
  | keeps => rfl
  | claims j ts hflight => exact absurd (hover.symm.trans hflight) (by decide)
  | fails j ts error hjob hs => simp [hs] at hover
  | finishes j ts columns hjob hs => simp [hs] at hover
  | sweeps k ts rest hsweep hs => simp [hs] at hover

theorem Verdict.step (h : Verdict w l runId r) (hl : Moves w l u) (hrow : RowStep u runId r m r') : Verdict w (l ++ [m]) runId r' := by
  cases hrow with
  | keeps =>
    refine ⟨fun hs => ?_, h.failed⟩
    obtain ⟨herror, pre, j, ts, post, v, columns, rfl, hpre, hjob, hholds⟩ := h.done hs
    exact ⟨herror, pre, j, ts, post ++ [m], v, columns, by simp, hpre, hjob, hholds⟩
  | claims j ts => exact ⟨fun hs => (nomatch hs), fun hs => (nomatch hs)⟩
  | fails j ts error => exact ⟨fun hs => (nomatch hs), fun _ => ⟨rfl, rfl, rfl, rfl, rfl⟩⟩
  | finishes j ts columns hjob =>
    exact ⟨fun _ => ⟨rfl, l, j, ts, [], u, columns, rfl, hl, hjob, ⟨rfl, rfl, rfl, rfl, rfl⟩⟩, fun hs => (nomatch hs)⟩
  | sweeps k ts rest => exact ⟨fun hs => (nomatch hs), fun _ => ⟨rfl, rfl, rfl, rfl, rfl⟩⟩

theorem Claims.moves (h : Claims w) (hl : Moves w l u) : Claims u :=
  run_invariant Claims (fun _ _ _ h hm => h.move hm) h hl

theorem row_over (h : Claims w) (hl : Moves w l u) (hget : w.runs.get? runId = some r) (hover : r.isInFlight = false) :
    u.runs.get? runId = some r := by
  refine (run_invariant (fun v => Claims v ∧ v.runs.get? runId = some r) (fun v m v' hv hm => ?_) ⟨h, hget⟩ hl).2
  obtain ⟨r', hr', hrow⟩ := move_row hv.1 hm hv.2
  exact ⟨hv.1.move hm, hrow.over_stays hover ▸ hr'⟩

theorem row_verdict (h : Claims w) (hl : Moves w l u) {r₀ : StoredBacktestRun S J} (hget : w.runs.get? runId = some r₀)
    (hflight : r₀.isInFlight = true) : ∃ r, u.runs.get? runId = some r ∧ Verdict w l runId r := by
  induction l using List.reverseRecOn generalizing u with
  | nil =>
    obtain rfl := run_nil_iff.1 hl
    unfold StoredBacktestRun.isInFlight at hflight
    exact ⟨r₀, hget, fun hs => by simp [hs] at hflight, fun hs => by simp [hs] at hflight⟩
  | append_singleton l m ih =>
    obtain ⟨v, hv, hlast⟩ := run_append_iff.1 hl
    obtain ⟨_, hm, hu⟩ := run_cons_iff.1 hlast
    obtain rfl := run_nil_iff.1 hu
    obtain ⟨r, hr, hverdict⟩ := ih hv
    obtain ⟨r', hr', hrow⟩ := move_row (h.moves hv) hm hr
    exact ⟨r', hr', hverdict.step hv hrow⟩

end

/-- **A finished backtest is final**, whatever the interleaving, from the request on: the status only advances, a row that is
over keeps every column, and what it holds is a result of one `finish` with no error, or no result. -/
theorem verdict_stands (w w' : World S J) (l : List (Move J)) (runId : String) (spec : S) (queuedAt : ℤ)
    (hjobs : ∀ j, w.jobs j = .idle) (hsweeps : ∀ k, w.sweeps k = []) (hnew : w.runs.get? runId = some (newRun spec queuedAt))
    (hrun : Moves w l w') :
    (∀ pre m post u v, l = pre ++ m :: post → Moves w pre u → u.move m = some v →
      ∃ r r', u.runs.get? runId = some r ∧ v.runs.get? runId = some r' ∧ r.status.Advances r'.status) ∧
    (∀ pre post u r, l = pre ++ post → Moves w pre u → Moves u post w' → u.runs.get? runId = some r → r.isInFlight = false →
      w'.runs.get? runId = some r) ∧
    ∃ r, w'.runs.get? runId = some r ∧ Verdict w l runId r := by
  have hclaims : Claims w :=
    ⟨fun j runId h => (nomatch (hjobs j ▸ h)), fun k runId h => absurd (hsweeps k ▸ h) List.not_mem_nil⟩
  refine ⟨fun pre m post u v _ hpre hm => ?_, fun pre post u r _ hpre hpost hr hover => ?_, row_verdict hclaims hrun hnew rfl⟩
  · obtain ⟨r, hr, -⟩ := row_verdict hclaims hpre hnew rfl
    obtain ⟨r', hr', hrow⟩ := move_row (hclaims.moves hpre) hm hr
    exact ⟨r, r', hr, hr', hrow.advances⟩
  · exact row_over (hclaims.moves hpre) hpost hr hover

/-- One worker serves the run while another finds it queued, and reads it too late to do anything. -/
def served : List (Move Unit) :=
  [.get 0 "r-1", .get 1 "r-1", .markRunning 0 60, .worked 0 (.inr ⟨(), [], [()], ["few trades"], ()⟩), .staleRunning 0 61,
    .finish 0 90, .markRunning 1 91, .sweepFail 0 92]

def requested : World Unit Unit := ⟨queuedRuns, fun _ => .idle, fun _ => []⟩

theorem verdict_stands_served : ∃ w' r, Moves requested served w' ∧ w'.runs.get? "r-1" = some r ∧ r.status = .done ∧
    r.error = none := by
  obtain ⟨w', hw'⟩ : ∃ w', served.foldlM World.move requested = some w' := Option.isSome_iff_exists.1 (by decide +kernel)
  have hstatus : ((served.foldlM World.move requested).bind fun w => w.runs.get? "r-1").map StoredBacktestRun.status =
      some .done := by decide +kernel
  have hmoves : Moves requested served w' := run_fold_iff.2 hw'
  obtain ⟨-, -, r, hr, hverdict⟩ := verdict_stands requested w' served "r-1" () 0 (fun _ => rfl) (fun _ => rfl)
    (Dict.get?_set_self _ _ _) hmoves
  have hdone : r.status = .done := by
    rw [hw', Option.bind_some, hr] at hstatus
    exact Option.some.inj hstatus
  exact ⟨w', r, hmoves, hr, hdone, (hverdict.done hdone).1⟩

/-! ## The tasks and sweeps are those of the code -/

section
variable {w : World S J} {runId : String} {m : Meets S J R}

theorem moves_one {w' : World S J} {a : Move J} (h : w.move a = some w') : Moves w [a] w' := .cons h (.nil w')

theorem setJob_twice (j : ℕ) (a b : Job J) (s t : Table S J) : (w.setJob j a s).setJob j b t = w.setJob j b t := by
  simp [World.setJob]

theorem setJob_back {j : ℕ} (h : w.jobs j = .idle) (t : Table S J) : w.setJob j .idle t = { w with runs := t } := by
  rw [World.setJob, ← h, Function.update_eq_self]

/-- The verdict of a claimed run, as moves of its job. -/
theorem conclude_moves (j : ℕ) (hjob : w.jobs j = .claimed runId) (spec : S) :
    ∃ l, Moves w l (w.setJob j .idle (exec (m.conclude runId spec) w.runs).2) := by
  have habandon : Moves w [.abandon j] (w.setJob j .idle w.runs) := moves_one rfl
  rw [exec_conclude]
  cases hv : m.verdict spec with
  | none => exact ⟨_, habandon⟩
  | some f =>
    rw [Option.elim_some]
    by_cases hl : ∀ broken, m.write = some broken → broken.landed = true
    · rw [awaitWrite_landed hl]
      rcases verdict_cases hv with ⟨error, -, rfl⟩ | ⟨columns, rfl⟩
      · have hworked : w.move (.worked j (.inl error)) = some (w.setJob j (.failing runId error) w.runs) := by
          simp only [World.move, hjob, Sum.elim_inl]
        have hfail : (w.setJob j (.failing runId error) w.runs).move (.fail j m.endAt) =
            some (w.setJob j .idle (w.runs.fail runId m.endAt error)) := by simp [World.move, World.setJob]
        exact ⟨_, .cons hworked (moves_one hfail)⟩
      · have hworked : w.move (.worked j (.inr columns)) = some (w.setJob j (.finishing runId columns) w.runs) := by
          simp only [World.move, hjob, Sum.elim_inr]
        have hfinish : (w.setJob j (.finishing runId columns) w.runs).move (.finish j m.endAt) =
            some (w.setJob j .idle (w.runs.finish runId m.endAt columns)) := by simp [World.move, World.setJob]
        exact ⟨_, .cons hworked (moves_one hfinish)⟩
    · push Not at hl
      obtain ⟨broken, hw, hlost⟩ := hl
      rw [awaitWrite_lost hw (Bool.eq_false_iff.2 hlost)]
      exact ⟨_, habandon⟩

/-- **A task run alone is moves of one job**, back to where it can take the next. -/
theorem task_moves (m : Meets S J R) (runId : String) (j : ℕ) (hjob : w.jobs j = .idle) :
    ∃ l, Moves w l { w with runs := (exec (runBacktestTask m runId) w.runs).2 } := by
  cases hget : w.runs.get? runId with
  | none =>
    have hkept : (exec (runBacktestTask m runId) w.runs).2 = w.runs := by
      unfold runBacktestTask
      simp [exec_bind, hget]
    exact ⟨[], by rw [hkept]; exact .nil w⟩
  | some run =>
    by_cases hflight : run.isInFlight = true
    · have hread : w.move (.get j runId) = some (w.setJob j (.read runId) w.runs) := by
        simp [World.move, hjob, hget, hflight]
      have hclaimed : (w.setJob j (.read runId) w.runs).move (.markRunning j m.startAt) =
          some (w.setJob j (.claimed runId) (w.runs.markRunning runId m.startAt)) := by simp [World.move, World.setJob]
      obtain ⟨l, hl⟩ := conclude_moves (m := m) (w := w.setJob j (.claimed runId) (w.runs.markRunning runId m.startAt)) j
        (Function.update_self _ _ _) run.spec
      rw [setJob_twice, setJob_back hjob] at hl
      rw [exec_task hget hflight]
      exact ⟨_, .cons hread (.cons hclaimed hl)⟩
    · have hkept : (exec (runBacktestTask m runId) w.runs).2 = w.runs := by
        unfold runBacktestTask
        simp [exec_bind, hget, hflight]
      exact ⟨[], by rw [hkept]; exact .nil w⟩

end

/-- **`sweep_interrupted`.** -/
def sweepInterrupted (olderThan ts : ℤ) : Prog (Table S J) Raised (List String) := do
  let runs ← get
  let stale := runs.staleRunning olderThan
  forM stale fun runId => modify (Table.fail runId ts interruptedError)
  return stale

theorem sweep_moves_each (k : ℕ) (ts : ℤ) : ∀ (l : List String) (w : World S J), w.sweeps k = l →
    ∃ moves, Moves w moves (w.setSweep k [] (exec (forM l fun runId => modify (Table.fail runId ts interruptedError) :
      Prog (Table S J) Raised PUnit) w.runs).2)
  | [], w, hk => ⟨[], by
      have hback : w.setSweep k [] w.runs = w := by rw [World.setSweep, ← hk, Function.update_eq_self]
      exact hback.symm ▸ .nil w⟩
  | runId :: l, w, hk => by
    have hfail : w.move (.sweepFail k ts) = some (w.setSweep k l (w.runs.fail runId ts interruptedError)) := by
      simp only [World.move, hk]
    obtain ⟨moves, hmoves⟩ := sweep_moves_each k ts l (w.setSweep k l (w.runs.fail runId ts interruptedError))
      (Function.update_self _ _ _)
    have hrest : Moves (w.setSweep k l (w.runs.fail runId ts interruptedError)) moves (w.setSweep k [] (exec (forM (runId :: l)
        fun runId => modify (Table.fail runId ts interruptedError) : Prog (Table S J) Raised PUnit) w.runs).2) := by
      rw [List.forM_cons, exec_bind, exec_modify]
      simpa [World.setSweep] using hmoves
    exact ⟨.sweepFail k ts :: moves, .cons hfail hrest⟩

/-- **A sweep run alone is moves of one sweep.** -/
theorem sweep_moves {w : World S J} (olderThan ts : ℤ) (k : ℕ) (hk : w.sweeps k = []) :
    ∃ l, Moves w l { w with runs := (exec (sweepInterrupted olderThan ts) w.runs).2 } := by
  have hstale : w.move (.staleRunning k olderThan) = some (w.setSweep k (w.runs.staleRunning olderThan) w.runs) := by
    simp only [World.move, hk]
  obtain ⟨l, hl⟩ := sweep_moves_each k ts (w.runs.staleRunning olderThan) (w.setSweep k (w.runs.staleRunning olderThan) w.runs)
    (Function.update_self _ _ _)
  have hback (t : Table S J) : (w.setSweep k (w.runs.staleRunning olderThan) w.runs).setSweep k [] t = { w with runs := t } := by
    simp only [World.setSweep, Function.update_idem]
    rw [← hk, Function.update_eq_self]
  have hsweep : (exec (sweepInterrupted olderThan ts) w.runs).2 = (exec (forM (w.runs.staleRunning olderThan)
      fun runId => modify (Table.fail runId ts interruptedError) : Prog (Table S J) Raised PUnit) w.runs).2 := by
    unfold sweepInterrupted
    rw [exec_bind, exec_get]
    dsimp only
    rw [exec_bind]
    split <;> simp_all
  rw [hback] at hl
  rw [hsweep]
  exact ⟨_, .cons hstale hl⟩

end BacktestRuns
end Atp
