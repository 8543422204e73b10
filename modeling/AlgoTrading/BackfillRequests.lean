import AlgoTrading.GapBackfill
/-!
# BackfillRequests — what a backfill asks the provider for

From `data/backfill.py`: `_fetch_window` and `backfill_bars` again, with every call of `get_bars` on record, in the order
the calls are made.  `Cuts` is what the windows of a range are; `backfill_exact_iff` says when a backfill whose batches all
answer has asked for them: `iter_windows` adds its step before it cuts it to the end, so the step has to be an instant there is.
-/
namespace Atp

/-- `l[i : i + size]` for each `i` in steps of `size`. -/
def slices {α : Type} (l : List α) (size : ℕ) : List (List α) :=
  (List.range ((l.length + size - 1) / size)).map fun i => (l.drop (i * size)).take size

theorem flatten_slices_take {α : Type} (l : List α) (size : ℕ) : ∀ n : ℕ,
    ((List.range n).map fun i => (l.drop (i * size)).take size).flatten = l.take (n * size)
  | 0 => by simp
  | n + 1 => by
    rw [List.range_succ, List.map_append, List.flatten_append, flatten_slices_take l size n, List.map_singleton,
      List.flatten_singleton, ← List.take_add, Nat.succ_mul]

/-- **The slices are the list, in order.** -/
theorem flatten_slices {α : Type} {l : List α} {size : ℕ} (hsize : 0 < size) : (slices l size).flatten = l := by
  unfold slices
  rw [flatten_slices_take, List.take_of_length_le]
  have hdiv := Nat.lt_div_mul_add (a := l.length + size - 1) hsize
  omega

namespace Backfill

open Raising

/-! ## The range, cut -/

/-- **A range cut into windows**: none empty, each beginning where the one before ended, the first at the start and the
last to the end, none longer than a step. -/
structure Cuts (start stop step : ℤ) (windows : List (ℤ × ℤ)) : Prop where
  proper : ∀ w ∈ windows, w.1 < w.2
  abut : windows.IsChain fun v w => v.2 = w.1
  begins : windows.head?.map Prod.fst = some start
  ends : windows.getLast?.map Prod.snd = some stop
  short : ∀ w ∈ windows, w.2 - w.1 ≤ step

section
variable {latest step start stop t : ℤ}

theorem Cuts.cons {w : ℤ × ℤ} {windows : List (ℤ × ℤ)} (h : Cuts w.2 stop step windows) (hproper : w.1 < w.2)
    (hshort : w.2 - w.1 ≤ step) : Cuts w.1 stop step (w :: windows) where
  proper := by
    simp only [List.mem_cons, forall_eq_or_imp]
    exact ⟨hproper, h.proper⟩
  abut := by
    have hbegins := h.begins
    cases windows with
    | nil => exact List.isChain_singleton _
    | cons v rest =>
      have hv : v.1 = w.2 := by simpa using hbegins
      exact List.isChain_cons_cons.2 ⟨hv.symm, h.abut⟩
  begins := rfl
  ends := by
    have hends := h.ends
    cases windows with
    | nil => cases hends
    | cons v rest => rwa [List.getLast?_cons_cons]
  short := by
    simp only [List.mem_cons, forall_eq_or_imp]
    exact ⟨hshort, h.short⟩

/-- **The end is reached in whole windows**, no later than `latest`. -/
def Reaches (latest start stop step : ℤ) : Prop := ∃ n : ℕ, stop ≤ start + n * step ∧ start + n * step ≤ latest

theorem Reaches.step_le (hstep : 0 < step) (hlt : start < stop) (h : Reaches latest start stop step) : start + step ≤ latest := by
  obtain ⟨n, hend, hlate⟩ := h
  cases n with
  | zero => push_cast at hend; omega
  | succ n =>
    have hrest : 0 ≤ (n : ℤ) * step := mul_nonneg (Int.natCast_nonneg n) hstep.le
    push_cast at hlate
    rw [add_mul, one_mul] at hlate
    omega

/-- One window on, where the next is not the last. -/
theorem reaches_next (hstep : 0 < step) (h : start + step < stop) :
    Reaches latest start stop step ↔ Reaches latest (start + step) stop step := by
  have hshift (n : ℕ) : start + ((n + 1 : ℕ) : ℤ) * step = start + step + n * step := by push_cast; ring
  constructor
  · rintro ⟨n, hn⟩
    cases n with
    | zero =>
      have hend : stop ≤ start := by simpa using hn.1
      omega
    | succ n => exact ⟨n, by rwa [hshift] at hn⟩
  · rintro ⟨n, hn⟩
    exact ⟨n + 1, by rwa [hshift]⟩

/-- **The walk ends as long as its last step is an instant there is.** -/
theorem windowsFrom_ends (hstep : 0 < step) : ∀ {fuel : ℕ} {cursor : ℤ}, cursor < stop → stop - cursor ≤ fuel →
    ((windowsFrom latest step stop fuel cursor).raised = none ↔ Reaches latest cursor stop step)
  | 0, cursor, hlt, h => by omega
  | fuel + 1, cursor, hlt, h => by
    unfold windowsFrom
    rw [if_pos hlt]
    by_cases hlate : latest < cursor + step
    · rw [if_pos hlate]
      refine iff_of_false (by simp) fun hreach => ?_
      have := hreach.step_le hstep hlt
      omega
    rw [if_neg hlate]
    by_cases hlast : stop ≤ cursor + step
    · -- the last window, cut short by the end of the range
      rw [min_eq_right hlast]
      refine iff_of_true ?_ ⟨1, by simpa using hlast, by simpa using hlate⟩
      cases fuel <;> simp [windowsFrom, Windows.cons]
    · rw [min_eq_left (by omega), reaches_next hstep (by omega)]
      exact windowsFrom_ends hstep (by omega) (by omega)

/-- **The walk cuts what is left of the range**, with a second of fuel for each second of it. -/
theorem windowsFrom_cuts (hstep : 0 < step) : ∀ {fuel : ℕ} {cursor : ℤ}, cursor < stop → stop - cursor ≤ fuel →
    (windowsFrom latest step stop fuel cursor).raised = none →
      Cuts cursor stop step (windowsFrom latest step stop fuel cursor).yielded
  | 0, cursor, hlt, h, _ => by omega
  | fuel + 1, cursor, hlt, h, hraised => by
    unfold windowsFrom at hraised ⊢
    rw [if_pos hlt] at hraised ⊢
    split_ifs at hraised ⊢ with hlate
    unfold Windows.cons at hraised ⊢
    dsimp only at hraised ⊢
    by_cases hlast : stop ≤ cursor + step
    · have hmin : min (cursor + step) stop = stop := min_eq_right hlast
      have hrest : (windowsFrom latest step stop fuel stop).yielded = [] := by cases fuel <;> simp [windowsFrom]
      rw [hmin, hrest]
      exact ⟨by simpa, List.isChain_singleton _, rfl, rfl, by simpa using by omega⟩
    · have hmin : min (cursor + step) stop = cursor + step := min_eq_left (by omega)
      rw [hmin] at hraised ⊢
      exact (windowsFrom_cuts hstep (by omega) (by omega) hraised).cons (w := (cursor, cursor + step)) (by dsimp only; omega)
        (by dsimp only; omega)

/-- **Each instant of the range is in one window.** -/
theorem countP_windowsFrom (hstep : 0 < step) : ∀ {fuel : ℕ} {cursor : ℤ}, stop - cursor ≤ fuel →
    (windowsFrom latest step stop fuel cursor).raised = none →
    (windowsFrom latest step stop fuel cursor).yielded.countP (fun w => decide (w.1 ≤ t ∧ t < w.2)) =
      if cursor ≤ t ∧ t < stop then 1 else 0
  | 0, cursor, h, _ => by
    rw [if_neg (by omega)]
    rfl
  | fuel + 1, cursor, h, hraised => by
    unfold windowsFrom at hraised ⊢
    by_cases hlt : cursor < stop
    · rw [if_pos hlt] at hraised ⊢
      by_cases hlate : latest < cursor + step
      · rw [if_pos hlate] at hraised
        cases hraised
      rw [if_neg hlate] at hraised ⊢
      unfold Windows.cons at hraised ⊢
      dsimp only at hraised ⊢
      rw [List.countP_cons, countP_windowsFrom hstep (by omega) hraised]
      simp only [decide_eq_true_eq]
      split <;> split <;> split <;> omega
    · rw [if_neg hlt, if_neg (by omega)]
      rfl

end

/-! ## The symbols, batched -/

section
variable {symbols : List String} {size : ℕ} {symbol : String}

theorem flatten_batches (hsize : 0 < size) : (batches symbols size).flatten = symbols := flatten_slices hsize

theorem fromKeys_sublist (symbols : List String) : (fromKeys symbols).Sublist symbols := by
  have h := (List.dedup_sublist symbols.reverse).reverse
  rwa [List.reverse_reverse] at h

variable (symbol) in
/-- A symbol that occurs once is in one batch. -/
theorem countP_mem_of_nodup : ∀ {asked : List (List String)}, asked.flatten.Nodup →
    asked.countP (fun batch => decide (symbol ∈ batch)) = if symbol ∈ asked.flatten then 1 else 0
  | [], _ => by simp
  | batch :: rest, h => by
    rw [List.flatten_cons, List.nodup_append] at h
    obtain ⟨-, hrest, hapart⟩ := h
    rw [List.countP_cons, countP_mem_of_nodup hrest]
    by_cases hb : symbol ∈ batch
    · have hout : symbol ∉ rest.flatten := fun hr => hapart _ hb _ hr rfl
      simp [hb, hout]
    · simp [hb]

end

/-! ## The calls on record -/

/-- A call of `get_bars`. -/
structure Request where
  symbols : List String
  start : ℤ
  stop : ℤ
deriving DecidableEq

/-- The request covers this instant of this symbol. -/
def Request.Covers (q : Request) (symbol : String) (ts : ℤ) : Prop := symbol ∈ q.symbols ∧ q.start ≤ ts ∧ ts < q.stop

instance (q : Request) (symbol : String) (ts : ℤ) : Decidable (q.Covers symbol ts) := inferInstanceAs (Decidable (_ ∧ _))

/-- The bar table, and the requests sent so far. -/
structure Asked where
  table : BarTable
  requests : List Request := []

/-- One more request sent. -/
def Asked.send (s : Asked) (q : Request) : Asked := { s with requests := s.requests ++ [q] }

section
variable (p : Ports) (timeframe : Timeframe) (start stop : ℤ) (adjusted : Bool)

/-- `provider.get_bars`, with the request on record. -/
def getBarsAsked (symbols : List String) : Prog Asked Exc (Dict String (List Bar)) := do
  modify (·.send ⟨symbols, start, stop⟩)
  fromExcept (p.getBars symbols timeframe start stop adjusted)

/-- The loop of `_fetch_window` that asks a symbol at a time. -/
def isolateAsked : List String → Fetched → Prog Asked Exc Fetched
  | [], f => return f
  | symbol :: rest, f => do
    match ← tried (getBarsAsked p timeframe start stop adjusted [symbol]) with
    | .ok found => isolateAsked rest { f with bars := f.bars.update found }
    | .error e => if e.cls.isA .dataGapError then isolateAsked rest { f with missing := f.missing ++ [symbol] } else throw e

/-- **`_fetch_window`**, its calls on record. -/
def fetchWindowAsked (symbols : List String) : Prog Asked Exc Fetched := do
  match ← tried (getBarsAsked p timeframe start stop adjusted symbols) with
  | .ok bars => return { bars, used := 1 }
  | .error e =>
    if e.cls.isA .dataGapError then isolateAsked p timeframe start stop adjusted symbols { bars := .empty, used := 1 + symbols.length }
    else throw e

def storeBatchesAsked : List (List String) → BackfillResult → Prog Asked Exc BackfillResult
  | [], r => return r
  | batch :: rest, r => do
    let fetched ← fetchWindowAsked p timeframe start stop adjusted batch
    let flat := fetched.bars.values.flatten
    let r := { r with
      requests := r.requests + fetched.used
      emptyWindows := r.emptyWindows ++ fetched.missing.map fun symbol => ⟨symbol, start, stop⟩ }
    if flat.isEmpty then storeBatchesAsked rest r
    else match p.upsertRaises flat with
      | some exc => throw exc
      | none =>
        modify fun s => { s with table := s.table.upsertBars flat }
        storeBatchesAsked rest { r with barsWritten := r.barsWritten + flat.length }

end

section
variable (p : Ports) (timeframe : Timeframe) (adjusted : Bool)

def storeWindowsAsked (asked : List (List String)) : List (ℤ × ℤ) → BackfillResult → Prog Asked Exc BackfillResult
  | [], r => return r
  | w :: rest, r => do
    let r ← storeBatchesAsked p timeframe w.1 w.2 adjusted asked { r with windows := r.windows + 1 }
    storeWindowsAsked asked rest r

/-- **`backfill_bars`**, its calls on record. -/
def backfillBarsAsked (symbols : List String) (start stop : ℤ) (windowDays : Option ℤ := none)
    (batchSize : ℤ := defaultBatchSize) : Prog Asked Exc BackfillResult := do
  fromExcept (refuseRange p symbols start stop)
  let windows := iterWindows start stop (windowDays.getD (windowDaysFor timeframe))
  let ordered := fromKeys symbols
  if batchSize < 1 ∧ windows.yielded ≠ [] then
    throw ⟨.valueError, [.lit "batch_size must be at least 1, got ", .ts batchSize]⟩
  else
    let r ← storeWindowsAsked p timeframe adjusted (batches ordered batchSize.toNat) windows.yielded { symbols := ordered }
    match windows.raised with
    | some exc => throw exc
    | none => return r

end

/-! ## The record erased -/

/-- A program over the table with its calls on record, and the program it is without the record. -/
def Erases {α : Type} (y : Prog Asked Exc α) (x : Prog BarTable Exc α) : Prop :=
  ∀ s, exec x s.table = ((exec y s).1, (exec y s).2.table)

section
variable {α β : Type}

theorem erases_pure (a : α) : Erases (pure a) (pure a) := fun _ => rfl

theorem erases_throw (e : Exc) : Erases (α := α) (throw e) (throw e) := fun _ => rfl

theorem erases_fromExcept (x : Except Exc α) : Erases (fromExcept x) (fromExcept x) := fun s => by
  rw [exec_fromExcept, exec_fromExcept]

theorem erases_bind {y : Prog Asked Exc α} {x : Prog BarTable Exc α} {g : α → Prog Asked Exc β} {f : α → Prog BarTable Exc β}
    (h : Erases y x) (hf : ∀ a, Erases (g a) (f a)) : Erases (y >>= g) (x >>= f) := by
  intro s
  rw [exec_bind, exec_bind, h s]
  rcases exec y s with ⟨r, s'⟩
  cases r with
  | ok a => exact hf a s'
  | error e => rfl

variable {p : Ports} {timeframe : Timeframe} {start stop : ℤ} {adjusted : Bool}

theorem exec_getBarsAsked (symbols : List String) (s : Asked) :
    exec (getBarsAsked p timeframe start stop adjusted symbols) s =
      (p.getBars symbols timeframe start stop adjusted, s.send ⟨symbols, start, stop⟩) := by
  simp only [getBarsAsked, exec_bind, exec_modify, exec_fromExcept]

/-- What a `try` reads of the recorded call is what the provider answered. -/
theorem exec_tried_getBarsAsked (symbols : List String) (s : Asked) :
    exec (tried (getBarsAsked p timeframe start stop adjusted symbols)) s =
      (.ok (p.getBars symbols timeframe start stop adjusted), s.send ⟨symbols, start, stop⟩) := by
  rw [exec_tried, exec_getBarsAsked]

theorem isolateAsked_erases : ∀ (symbols : List String) (f : Fetched),
    Erases (isolateAsked p timeframe start stop adjusted symbols f) (fromExcept (isolate p timeframe start stop adjusted symbols f))
  | [], f => erases_pure f
  | symbol :: rest, f => by
    intro s
    unfold isolateAsked isolate
    rw [exec_bind, exec_tried_getBarsAsked]
    cases p.getBars [symbol] timeframe start stop adjusted with
    | ok found => exact isolateAsked_erases rest { f with bars := f.bars.update found } (s.send ⟨[symbol], start, stop⟩)
    | error e =>
      dsimp only
      split
      · exact isolateAsked_erases rest { f with missing := f.missing ++ [symbol] } (s.send ⟨[symbol], start, stop⟩)
      · rfl

theorem fetchWindowAsked_erases (symbols : List String) :
    Erases (fetchWindowAsked p timeframe start stop adjusted symbols) (fromExcept (fetchWindow p timeframe start stop adjusted symbols)) := by
  intro s
  unfold fetchWindowAsked fetchWindow
  rw [exec_bind, exec_tried_getBarsAsked]
  cases p.getBars symbols timeframe start stop adjusted with
  | ok bars => rfl
  | error e =>
    dsimp only
    split
    · exact isolateAsked_erases symbols _ (s.send ⟨symbols, start, stop⟩)
    · rfl

theorem storeBatchesAsked_erases : ∀ (asked : List (List String)) (r : BackfillResult),
    Erases (storeBatchesAsked p timeframe start stop adjusted asked r) (storeBatches p timeframe start stop adjusted asked r)
  | [], r => erases_pure r
  | batch :: rest, r => by
    unfold storeBatchesAsked storeBatches
    refine erases_bind (fetchWindowAsked_erases batch) fun fetched => ?_
    dsimp only
    split
    · exact storeBatchesAsked_erases rest _
    · cases p.upsertRaises fetched.bars.values.flatten with
      | some exc => exact erases_throw exc
      | none => exact fun s => storeBatchesAsked_erases rest _ { s with table := s.table.upsertBars _ }

theorem storeWindowsAsked_erases (asked : List (List String)) : ∀ (windows : List (ℤ × ℤ)) (r : BackfillResult),
    Erases (storeWindowsAsked p timeframe adjusted asked windows r) (storeWindows p timeframe adjusted asked windows r)
  | [], r => erases_pure r
  | w :: rest, r => by
    unfold storeWindowsAsked storeWindows
    exact erases_bind (storeBatchesAsked_erases asked _) fun r' => storeWindowsAsked_erases asked rest r'

/-- **The record changes nothing**: a backfill with its calls on record is the backfill. -/
theorem backfillBarsAsked_erases (symbols : List String) (windowDays : Option ℤ) (batchSize : ℤ) :
    Erases (backfillBarsAsked p timeframe adjusted symbols start stop windowDays batchSize)
      (backfillBars p timeframe adjusted symbols start stop windowDays batchSize) := by
  unfold backfillBarsAsked backfillBars
  refine erases_bind (erases_fromExcept _) fun _ => ?_
  dsimp only
  split
  · exact erases_throw _
  · refine erases_bind (storeWindowsAsked_erases _ _ _) fun r => ?_
    cases (iterWindows start stop (windowDays.getD (windowDaysFor timeframe))).raised with
    | some exc => exact erases_throw exc
    | none => exact erases_pure r

end

/-! ## What is asked -/

/-- The batches of each window, one window after the other. -/
def plan (windows : List (ℤ × ℤ)) (asked : List (List String)) : List Request :=
  windows.flatMap fun w => asked.map fun batch => ⟨batch, w.1, w.2⟩

/-- The batch does not raise: the provider answers, and what it answers is written. -/
def Answered (p : Ports) (timeframe : Timeframe) (adjusted : Bool) (q : Request) : Prop :=
  ∃ bars, p.getBars q.symbols timeframe q.start q.stop adjusted = .ok bars ∧
    (bars.values.flatten ≠ [] → p.upsertRaises bars.values.flatten = none)

section
variable {p : Ports} {timeframe : Timeframe} {start stop : ℤ} {adjusted : Bool}

/-- **A batch that answers is one request.** -/
theorem fetchWindowAsked_answered {symbols : List String} {bars : Dict String (List Bar)} {s : Asked}
    (h : p.getBars symbols timeframe start stop adjusted = .ok bars) :
    exec (fetchWindowAsked p timeframe start stop adjusted symbols) s =
      (.ok { bars, used := 1 }, s.send ⟨symbols, start, stop⟩) := by
  unfold fetchWindowAsked
  rw [exec_bind, exec_tried_getBarsAsked, h]
  rfl

theorem storeBatchesAsked_answered : ∀ {asked : List (List String)} {r : BackfillResult} {s : Asked},
    (∀ batch ∈ asked, Answered p timeframe adjusted ⟨batch, start, stop⟩) →
    ∃ r' s', exec (storeBatchesAsked p timeframe start stop adjusted asked r) s = (.ok r', s') ∧
      s'.requests = s.requests ++ asked.map (fun batch => ⟨batch, start, stop⟩) ∧ r'.requests = r.requests + asked.length
  | [], r, s, _ => ⟨r, s, rfl, by simp, rfl⟩
  | batch :: rest, r, s, h => by
    obtain ⟨⟨bars, hbars, hwrite⟩, hrest⟩ := List.forall_mem_cons.1 h
    unfold storeBatchesAsked
    rw [exec_bind, fetchWindowAsked_answered hbars]
    dsimp only
    by_cases hflat : bars.values.flatten = []
    · obtain ⟨r', s', hrun, hreq, hused⟩ := storeBatchesAsked_answered (r := { r with
        requests := r.requests + 1, emptyWindows := r.emptyWindows ++ [] })
        (s := { s with requests := s.requests ++ [⟨batch, start, stop⟩] }) hrest
      refine ⟨r', s', ?_, ?_, ?_⟩
      · rw [if_pos (by simp [hflat])]
        exact hrun
      · simpa [Asked.send] using hreq
      · rw [hused, List.length_cons]
        dsimp only
        omega
    · obtain ⟨r', s', hrun, hreq, hused⟩ := storeBatchesAsked_answered (r := { r with
        requests := r.requests + 1, emptyWindows := r.emptyWindows ++ []
        barsWritten := r.barsWritten + bars.values.flatten.length })
        (s := { s.send ⟨batch, start, stop⟩ with table := s.table.upsertBars bars.values.flatten }) hrest
      refine ⟨r', s', ?_, ?_, ?_⟩
      · rw [if_neg (by simpa using hflat), hwrite hflat, exec_bind, exec_modify]
        exact hrun
      · simpa [Asked.send] using hreq
      · rw [hused, List.length_cons]
        dsimp only
        omega

theorem storeWindowsAsked_answered {asked : List (List String)} : ∀ {windows : List (ℤ × ℤ)} {r : BackfillResult} {s : Asked},
    (∀ q ∈ plan windows asked, Answered p timeframe adjusted q) →
    ∃ r' s', exec (storeWindowsAsked p timeframe adjusted asked windows r) s = (.ok r', s') ∧
      s'.requests = s.requests ++ plan windows asked ∧ r'.requests = r.requests + (plan windows asked).length
  | [], r, s, _ => ⟨r, s, rfl, by simp [plan], rfl⟩
  | w :: rest, r, s, h => by
    have hplan : plan (w :: rest) asked = (asked.map fun batch => ⟨batch, w.1, w.2⟩) ++ plan rest asked := List.flatMap_cons
    rw [hplan, List.forall_mem_append] at h
    obtain ⟨r₁, s₁, hrun, hreq, hused⟩ := storeBatchesAsked_answered (r := { r with windows := r.windows + 1 }) (s := s)
      fun batch hb => h.1 _ (List.mem_map_of_mem hb)
    obtain ⟨r', s', hrun', hreq', hused'⟩ := storeWindowsAsked_answered (r := r₁) (s := s₁) h.2
    refine ⟨r', s', ?_, ?_, ?_⟩
    · unfold storeWindowsAsked
      rw [exec_bind, hrun]
      exact hrun'
    · rw [hreq', hreq, hplan, List.append_assoc]
    · rw [hused', hused, hplan, List.length_append, List.length_map]
      dsimp only
      omega

theorem countP_covers (asked : List (List String)) (w : ℤ × ℤ) (symbol : String) (ts : ℤ) :
    (asked.map fun batch => (⟨batch, w.1, w.2⟩ : Request)).countP (fun q => decide (q.Covers symbol ts)) =
      if w.1 ≤ ts ∧ ts < w.2 then asked.countP (fun batch => decide (symbol ∈ batch)) else 0 := by
  rw [List.countP_map]
  split
  · rename_i h
    exact List.countP_congr fun batch _ => by simp [Request.Covers, h]
  · rename_i h
    exact List.countP_eq_zero.2 fun batch _ => by simp only [Function.comp_apply, Request.Covers, h, and_false, decide_false,
      Bool.false_eq_true, not_false_eq_true]

/-- The requests of a plan that cover an instant: those of the windows it is in. -/
theorem countP_plan (asked : List (List String)) (symbol : String) (ts : ℤ) : ∀ windows : List (ℤ × ℤ),
    (plan windows asked).countP (fun q => decide (q.Covers symbol ts)) =
      windows.countP (fun w => decide (w.1 ≤ ts ∧ ts < w.2)) * asked.countP (fun batch => decide (symbol ∈ batch))
  | [] => by simp [plan]
  | w :: rest => by
    have hplan : plan (w :: rest) asked = (asked.map fun batch => ⟨batch, w.1, w.2⟩) ++ plan rest asked := List.flatMap_cons
    rw [hplan, List.countP_append, countP_covers, countP_plan asked symbol ts rest, List.countP_cons, Nat.add_mul, Nat.add_comm]
    by_cases h : w.1 ≤ ts ∧ ts < w.2 <;> simp [h]

section exact
variable (p : Ports) (timeframe : Timeframe) (adjusted : Bool) (symbols : List String) (start stop span batchSize : ℤ)

/-- The requests a backfill is to send. -/
def planned : List Request := plan (iterWindows start stop span).yielded (batches (fromKeys symbols) batchSize.toNat)

/-- **A backfill asks for each instant of each symbol once**: the windows are there and cut the range, each instant of each
symbol is in one request of the plan, and a backfill whose batches do not raise sends the plan and nothing else. -/
structure AsksOnce : Prop where
  ends : (iterWindows start stop span).raised = none
  cuts : Cuts start stop (span * 86400) (iterWindows start stop span).yielded
  once : ∀ symbol ts, (planned symbols start stop span batchSize).countP (fun q => decide (q.Covers symbol ts)) =
    if symbol ∈ symbols ∧ start ≤ ts ∧ ts < stop then 1 else 0
  sent : refuseRange p symbols start stop = .ok () →
    (∀ q ∈ planned symbols start stop span batchSize, Answered p timeframe adjusted q) → ∀ table,
      ∃ r s, exec (backfillBarsAsked p timeframe adjusted symbols start stop (some span) batchSize) ⟨table, []⟩ = (.ok r, s) ∧
        s.requests = planned symbols start stop span batchSize ∧ r.requests = (planned symbols start stop span batchSize).length

variable {p timeframe adjusted symbols start stop span batchSize}

/-- **The windows are there and cut the range as long as the last step is an instant there is**, in whatever unit a day is
counted. -/
theorem windowsIn_cuts_iff {day latest : ℤ} (hday : 0 < day) (hlt : start < stop) (hspan : 1 ≤ span) :
    ((windowsIn day latest start stop span).raised = none ∧
      Cuts start stop (span * day) (windowsIn day latest start stop span).yielded) ↔
      span ≤ maxDays ∧ Reaches latest start stop (span * day) := by
  have hstep : 0 < span * day := mul_pos (by omega) hday
  unfold windowsIn
  rw [if_neg (by omega)]
  split_ifs with hdays
  · exact iff_of_false (by simp) (by omega)
  rw [windowsFrom_ends hstep hlt (Int.self_le_toNat _), and_iff_right (show span ≤ maxDays by omega)]
  refine and_iff_left_of_imp fun hreach => ?_
  exact windowsFrom_cuts hstep hlt (Int.self_le_toNat _) ((windowsFrom_ends hstep hlt (Int.self_le_toNat _)).2 hreach)

/-- Each instant of each symbol is planned once. -/
theorem planned_once (hspan : 1 ≤ span) (hsize : 1 ≤ batchSize) (hraised : (iterWindows start stop span).raised = none)
    (symbol : String) (ts : ℤ) : (planned symbols start stop span batchSize).countP (fun q => decide (q.Covers symbol ts)) =
      if symbol ∈ symbols ∧ start ≤ ts ∧ ts < stop then 1 else 0 := by
  have hflat : (batches (fromKeys symbols) batchSize.toNat).flatten = fromKeys symbols := flatten_batches (by omega)
  have hbatch : (batches (fromKeys symbols) batchSize.toNat).countP (fun batch => decide (symbol ∈ batch)) =
      if symbol ∈ fromKeys symbols then 1 else 0 := by
    have h := countP_mem_of_nodup symbol (hflat.symm ▸ fromKeys_nodup symbols)
    rwa [hflat] at h
  have hwindow : (iterWindows start stop span).yielded.countP (fun w => decide (w.1 ≤ ts ∧ ts < w.2)) =
      if start ≤ ts ∧ ts < stop then 1 else 0 := by
    have hwalk : iterWindows start stop span = windowsFrom latestInstant (span * 86400) stop (stop - start).toNat start := by
      unfold iterWindows windowsIn at hraised ⊢
      rw [if_neg (by omega)] at hraised ⊢
      split_ifs at hraised ⊢
      rfl
    rw [hwalk] at hraised ⊢
    exact countP_windowsFrom (by omega) (Int.self_le_toNat _) hraised
  unfold planned
  rw [countP_plan, hwindow, hbatch]
  simp only [mem_fromKeys]
  by_cases hin : start ≤ ts ∧ ts < stop <;> by_cases hs : symbol ∈ symbols <;> simp [hin, hs]

/-- A backfill whose batches answer sends what is planned. -/
theorem planned_sent (hsize : 1 ≤ batchSize) (hraised : (iterWindows start stop span).raised = none)
    (hrange : refuseRange p symbols start stop = .ok ())
    (h : ∀ q ∈ planned symbols start stop span batchSize, Answered p timeframe adjusted q) (table : BarTable) :
    ∃ r s, exec (backfillBarsAsked p timeframe adjusted symbols start stop (some span) batchSize) ⟨table, []⟩ = (.ok r, s) ∧
      s.requests = planned symbols start stop span batchSize ∧ r.requests = (planned symbols start stop span batchSize).length := by
  obtain ⟨r, s, hrun, hreq, hused⟩ := storeWindowsAsked_answered (r := { symbols := fromKeys symbols }) (s := ⟨table, []⟩) h
  refine ⟨r, s, ?_, ?_, ?_⟩
  · unfold backfillBarsAsked
    rw [hrange, exec_bind, exec_fromExcept]
    dsimp only [Option.getD_some]
    rw [if_neg (by omega), exec_bind, hrun]
    dsimp only
    rw [hraised]
    rfl
  · simpa [planned] using hreq
  · simpa [planned] using hused

/-- **A backfill asks for each instant of each symbol once exactly when `timedelta` takes the days and the last step is an
instant there is**; the batches are the symbols in order, each once, whatever the range. -/
theorem backfill_exact_iff (p : Ports) (timeframe : Timeframe) (adjusted : Bool) (symbols : List String) (start stop span batchSize : ℤ)
    (hlt : start < stop) (hspan : 1 ≤ span) (hsize : 1 ≤ batchSize) :
    (AsksOnce p timeframe adjusted symbols start stop span batchSize ↔
      span ≤ maxDays ∧ Reaches latestInstant start stop (span * 86400)) ∧
    (∀ day latest, 0 < day → (((windowsIn day latest start stop span).raised = none ∧
        Cuts start stop (span * day) (windowsIn day latest start stop span).yielded) ↔
      span ≤ maxDays ∧ Reaches latest start stop (span * day))) ∧
    (batches (fromKeys symbols) batchSize.toNat).flatten = fromKeys symbols ∧ (fromKeys symbols).Nodup ∧
    (fromKeys symbols).Sublist symbols ∧ ∀ symbol, symbol ∈ fromKeys symbols ↔ symbol ∈ symbols := by
  refine ⟨?_, fun day latest hday => windowsIn_cuts_iff hday hlt hspan, flatten_batches (by omega), fromKeys_nodup symbols,
    fromKeys_sublist symbols, fun symbol => mem_fromKeys⟩
  have hcuts : ((iterWindows start stop span).raised = none ∧ Cuts start stop (span * 86400) (iterWindows start stop span).yielded) ↔
      span ≤ maxDays ∧ Reaches latestInstant start stop (span * 86400) := windowsIn_cuts_iff (by decide) hlt hspan
  rw [← hcuts]
  constructor
  · exact fun h => ⟨h.ends, h.cuts⟩
  · rintro ⟨hraised, hwindows⟩
    exact ⟨hraised, hwindows, planned_once hspan hsize hraised, fun hrange h table => planned_sent hsize hraised hrange h table⟩

end exact
end

/-- A bar on each of two days. -/
def twoDays (symbol : String) (_ : Bool) : List Bar := if symbol = "X" then [dailyBar 10 0, dailyBar 10 86400] else []

/-- **Two days of one symbol, named twice**: two requests. -/
theorem backfill_exact_twoDays : ∃ r s,
    exec (backfillBarsAsked (served twoDays) .d1 true ["X", "X"] 0 172800 (some 1) 20) ⟨.empty, []⟩ = (.ok r, s) ∧
      s.requests = [⟨["X"], 0, 86400⟩, ⟨["X"], 86400, 172800⟩] := by
  have hplan : planned ["X", "X"] 0 172800 1 20 = [⟨["X"], 0, 86400⟩, ⟨["X"], 86400, 172800⟩] := by decide +kernel
  have hargs : refuseRange (served twoDays) ["X", "X"] 0 172800 = .ok () := by decide +kernel
  have honce : AsksOnce (served twoDays) .d1 true ["X", "X"] 0 172800 1 20 :=
    (backfill_exact_iff _ _ _ _ _ _ _ _ (by decide) (by decide) (by decide)).1.2 ⟨by decide, 2, by decide, by decide⟩
  obtain ⟨r, s, hrun, hreq, -⟩ := honce.sent hargs (fun q hq => by
    rw [hplan, List.mem_cons, List.mem_singleton] at hq
    obtain rfl | rfl := hq
    · exact ⟨_, rfl, fun _ => rfl⟩
    · exact ⟨_, rfl, fun _ => rfl⟩) .empty
  exact ⟨r, s, hrun, hreq.trans hplan⟩

/-- **January 2024 in windows of three million days**: the first step is past the last instant there is, and no window comes. -/
theorem windows_out_of_range : ¬ ∀ start stop windowDays : ℤ, start < stop → 1 ≤ windowDays →
    (iterWindows start stop windowDays).raised = none ∧
      Cuts start stop (windowDays * 86400) (iterWindows start stop windowDays).yielded := by
  intro h
  have hraised := (h 1704067200 1706745600 3000000 (by decide) (by decide)).1
  exact absurd hraised (by decide +kernel)

end Backfill
end Atp
