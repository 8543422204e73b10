import AlgoTrading.Fees
import AlgoTrading.Runs
/-!
# FeeModes — one fee table under the workers of every run mode

`persistence/fees.py` with the column the totals are filtered by.  A row belongs to the mode that inserted it, and the key is
the venue's identifier alone: a total is exact as long as no two modes report one identifier (`totals_exact`), and a charge
whose identifier another mode has used is in no total of its own (`charge_lost`).
-/
namespace Atp

/-- A row of `broker_fees`: a charge, and the run mode whose sweep inserted it. -/
structure FeeRow where
  activity : FeeActivity
  runMode : RunMode
deriving DecidableEq

/-- `broker_fees`, under its primary key. -/
abbrev FeeTable := Dict String FeeRow

namespace FeeTable

/-- The sum over the rows of a run mode. -/
def totalSeen (t : FeeTable) (mode : RunMode) : ℚ :=
  ((t.values.filter fun (row : FeeRow) => row.runMode = mode).map fun row => row.activity.amount).sum

/-- **`record_seen`**: `ON CONFLICT DO NOTHING` on the identifier, whichever mode's row is there. -/
def recordSeen (t : FeeTable) (activities : List FeeActivity) (mode : RunMode) : FeeTable :=
  let byId := activities.foldl (fun d (a : FeeActivity) => d.set a.activityId a) (Dict.empty : FeeLedger)
  byId.values.foldl (fun d a => d.setdefault a.activityId ⟨a, mode⟩) t

end FeeTable

namespace FeeModes

open Runs

/-- The table, and the book of each mode's worker. -/
structure World where
  table : FeeTable := .empty
  books : RunMode → Portfolio

/-- A sweep: whose, and what the venue answered. -/
structure Sweep where
  mode : RunMode
  feed : Except Exc (List FeeActivity)

/-- **`settle_broker_fees`** over the table. -/
def settleBrokerFees (p : Portfolio) (t : FeeTable) (i : Sweep) : FeeSettlement × Portfolio × FeeTable :=
  match i.feed with
  | .error _ => ({}, p, t)
  | .ok charged =>
    let table := t.recordSeen charged i.mode
    let owed := table.totalSeen i.mode - p.feesSettled
    (if owed = 0 then {} else { total := owed, applied := charged }, p.settleTo (table.totalSeen i.mode), table)

def swept (w : World) (i : Sweep) : World where
  table := (settleBrokerFees (w.books i.mode) w.table i).2.2
  books := Function.update w.books i.mode (settleBrokerFees (w.books i.mode) w.table i).2.1

def Step (w : World) (i : Sweep) (w' : World) : Prop := w' = swept w i

/-- What a sweep is told of. -/
def Sweep.told (i : Sweep) : List FeeActivity := i.feed.toOption.getD []

/-- Everything the sweeps of a mode have reported. -/
def reported (l : List Sweep) (mode : RunMode) : List FeeActivity := (l.filter fun i => i.mode = mode).flatMap Sweep.told

/-- What the distinct activities a mode has seen come to. -/
def charged (l : List Sweep) (mode : RunMode) : ℚ := ∑ a ∈ (reported l mode).toFinset, a.amount

/-- The venue's identifiers: within one account, one charge each. -/
def Distinct (l : List Sweep) : Prop :=
  ∀ mode, ∀ a ∈ reported l mode, ∀ b ∈ reported l mode, a.activityId = b.activityId → a = b

/-- No identifier that is reported is another mode's row. -/
def Own (w : World) (i : Sweep) : Prop :=
  ∀ a ∈ i.told, ∀ row, w.table.get? a.activityId = some row → row.runMode = i.mode

/-- A table has exactly what its modes have reported. -/
def Holds (t : FeeTable) (l : List Sweep) : Prop :=
  ∀ k (row : FeeRow), t.get? k = some row ↔ row.activity.activityId = k ∧ row.activity ∈ reported l row.runMode

variable {t : FeeTable} {l : List Sweep} {i : Sweep} {w w' : World} {mode : RunMode}

theorem mem_reported {a : FeeActivity} : a ∈ reported l mode ↔ ∃ i ∈ l, i.mode = mode ∧ a ∈ i.told := by
  unfold reported
  simp only [List.mem_flatMap, List.mem_filter, decide_eq_true_eq, and_assoc]

theorem mem_reported_concat {a : FeeActivity} :
    a ∈ reported (l ++ [i]) mode ↔ a ∈ reported l mode ∨ (i.mode = mode ∧ a ∈ i.told) := by
  simp only [mem_reported, List.mem_append, List.mem_singleton]
  constructor
  · rintro ⟨j, hj | rfl, h⟩
    · exact .inl ⟨j, hj, h⟩
    · exact .inr h
  · rintro (⟨j, hj, h⟩ | h)
    · exact ⟨j, .inl hj, h⟩
    · exact ⟨i, .inr rfl, h⟩

theorem Distinct.left {m : List Sweep} (h : Distinct (l ++ m)) : Distinct l := by
  have hsub {mode : RunMode} {a : FeeActivity} (ha : a ∈ reported l mode) : a ∈ reported (l ++ m) mode := by
    obtain ⟨i, hi, hrest⟩ := mem_reported.1 ha
    exact mem_reported.2 ⟨i, List.mem_append_left _ hi, hrest⟩
  exact fun mode a ha b hb => h mode a (hsub ha) b (hsub hb)

/-- What is there stays; what is new is one of the reported charges of that identifier, if there is one. -/
theorem get?_recordSeen (t : FeeTable) (activities : List FeeActivity) (mode : RunMode) (k : String) :
    ∃ found : Option FeeActivity, (t.recordSeen activities mode).get? k = (t.get? k).or (found.map fun a => ⟨a, mode⟩) ∧
      (∀ a, found = some a → a ∈ activities ∧ a.activityId = k) ∧
      (found = none → ∀ a ∈ activities, a.activityId ≠ k) := by
  unfold FeeTable.recordSeen
  dsimp only
  have hbyId (k : String) := Dict.get?_foldl_set FeeActivity.activityId (fun a => a) k activities .empty
  simp only [Dict.get?_empty, Option.or_none, Option.map_id'] at hbyId
  generalize (activities.foldl (fun d (a : FeeActivity) => d.set a.activityId a) (Dict.empty : FeeLedger)) = byId at hbyId
  refine ⟨byId.values.find? fun a => a.activityId = k,
    Dict.get?_foldl_setdefault FeeActivity.activityId (fun a => (⟨a, mode⟩ : FeeRow)) k byId.values t, fun a ha => ?_, fun hnone a ha hk => ?_⟩
  · obtain ⟨k', hk'⟩ := (Dict.mem_values_iff _ a).1 (List.mem_of_find?_eq_some ha)
    rw [hbyId] at hk'
    exact ⟨(List.mem_filter.1 (List.mem_of_getLast? hk')).1, by simpa using List.find?_some ha⟩
  · -- a reported charge of that identifier is in the dictionary, or a later one is
    cases hlast : byId.get? k with
    | none =>
      rw [hbyId, List.getLast?_eq_none_iff] at hlast
      exact absurd (List.mem_filter.2 ⟨ha, decide_eq_true hk⟩) (by rw [hlast]; simp)
    | some b =>
      have hmem : b ∈ byId.values := (Dict.mem_values_iff _ b).2 ⟨k, hlast⟩
      rw [hbyId] at hlast
      exact absurd (List.mem_filter.1 (List.mem_of_getLast? hlast)).2 (List.find?_eq_none.1 hnone b hmem)

/-- **A sweep whose identifiers are its own adds its charges to the table.** -/
theorem Holds.recorded (h : Holds w.table l) (hown : Own w i) (hids : Distinct (l ++ [i])) :
    Holds (w.table.recordSeen i.told i.mode) (l ++ [i]) := by
  intro k row
  obtain ⟨found, hget, hsome, hnone⟩ := get?_recordSeen w.table i.told i.mode k
  rw [hget]
  have hall {a : FeeActivity} (ha : a ∈ i.told) : a ∈ reported (l ++ [i]) i.mode := mem_reported_concat.2 (.inr ⟨rfl, ha⟩)
  cases hold : w.table.get? k with
  | some row' =>
    obtain ⟨hk, hmem⟩ := (h k row').1 hold
    rw [Option.some_or, Option.some.injEq]
    constructor
    · rintro rfl
      exact ⟨hk, mem_reported_concat.2 (.inl hmem)⟩
    · rintro ⟨hk', hnew⟩
      rcases mem_reported_concat.1 hnew with hin | ⟨hmode, htold⟩
      · exact Option.some.inj (hold.symm.trans ((h k row).2 ⟨hk', hin⟩))
      · have hmode' := hown row.activity htold row' (hk' ▸ hold)
        have hact := hids i.mode _ (mem_reported_concat.2 (.inl (hmode' ▸ hmem))) _ (hall htold) (hk.trans hk'.symm)
        cases row
        cases row'
        simp only at hact hmode hmode'
        rw [hact, hmode', hmode]
  | none =>
    rw [Option.none_or]
    constructor
    · intro hrow
      obtain ⟨a, ha, rfl⟩ := Option.map_eq_some_iff.1 hrow
      obtain ⟨htold, hk⟩ := hsome a ha
      exact ⟨hk, hall htold⟩
    · rintro ⟨hk, hnew⟩
      rcases mem_reported_concat.1 hnew with hin | ⟨hmode, htold⟩
      · rw [(h k row).2 ⟨hk, hin⟩] at hold
        cases hold
      · cases hfound : found with
        | none => exact absurd hk (hnone hfound _ htold)
        | some a =>
          obtain ⟨ha, hka⟩ := hsome a hfound
          have hact := hids i.mode a (hall ha) row.activity (hall htold) (hka.trans hk.symm)
          cases row
          simp only at hact hmode
          rw [Option.map_some, hact, hmode]

/-- What is under its own identifiers is there once. -/
theorem Holds.nodup (h : Holds t l) : (t.values.map fun (row : FeeRow) => row.activity.activityId).Nodup := by
  have hkeys : t.values.map (fun (row : FeeRow) => row.activity.activityId) = t.keys := by
    unfold Dict.values Dict.keys
    rw [List.map_map]
    exact List.map_congr_left fun e he => ((h e.1 e.2).1 ((Dict.mem_entries_iff _ _ _).1 he)).1
  rw [hkeys]
  exact t.nodup

theorem Holds.total (h : Holds t l) (mode : RunMode) : t.totalSeen mode = charged l mode := by
  have hrows : (t.values.filter fun (row : FeeRow) => row.runMode = mode).map FeeRow.activity |>.Nodup := by
    refine List.Nodup.of_map FeeActivity.activityId ?_
    rw [List.map_map]
    exact h.nodup.sublist (List.filter_sublist.map _)
  have hsame : ((t.values.filter fun (row : FeeRow) => row.runMode = mode).map FeeRow.activity).toFinset =
      (reported l mode).toFinset := by
    ext a
    simp only [List.mem_toFinset, List.mem_map, List.mem_filter, decide_eq_true_eq]
    constructor
    · rintro ⟨row, ⟨hrow, rfl⟩, rfl⟩
      obtain ⟨k, hk⟩ := (Dict.mem_values_iff _ row).1 hrow
      exact ((h k row).1 hk).2
    · intro ha
      exact ⟨⟨a, mode⟩, ⟨(Dict.mem_values_iff _ _).2 ⟨_, (h a.activityId ⟨a, mode⟩).2 ⟨rfl, ha⟩⟩, rfl⟩, rfl⟩
  unfold FeeTable.totalSeen charged
  rw [← hsame, List.sum_toFinset _ hrows, List.map_map]
  rfl

/-- The table has what its modes reported, and each book is corrected by what its mode saw. -/
structure Exact (start w : World) (l : List Sweep) : Prop where
  rows : Holds w.table l
  settled : ∀ mode, (w.books mode).feesSettled = charged l mode
  cash : ∀ mode, (w.books mode).cash = (start.books mode).cash - charged l mode

theorem charged_concat_ne (h : i.mode ≠ mode) : charged (l ++ [i]) mode = charged l mode := by
  unfold charged reported
  rw [List.filter_append, List.filter_cons_of_neg (by simpa using h), List.filter_nil, List.append_nil]

theorem charged_concat_untold (h : i.told = []) (mode : RunMode) : charged (l ++ [i]) mode = charged l mode := by
  by_cases hmode : i.mode = mode
  · unfold charged reported
    rw [List.filter_append, List.filter_cons_of_pos (by simpa using hmode), List.filter_nil, List.flatMap_append,
      List.flatMap_singleton, h, List.append_nil]
  · exact charged_concat_ne hmode

theorem Holds.untold (h : Holds t l) (htold : i.told = []) : Holds t (l ++ [i]) := by
  intro k row
  rw [h k row, mem_reported_concat, htold]
  simp

/-- **A sweep keeps the totals exact**, if what it reports is its own. -/
theorem Exact.swept {start : World} (h : Exact start w l) (hown : Own w i) (hids : Distinct (l ++ [i])) :
    Exact start (FeeModes.swept w i) (l ++ [i]) := by
  obtain ⟨mode, feed⟩ := i
  cases feed with
  | error e =>
    have hsame : FeeModes.swept w ⟨mode, .error e⟩ = w := by
      unfold FeeModes.swept settleBrokerFees
      rw [Function.update_eq_self]
    rw [hsame]
    refine ⟨h.rows.untold rfl, fun m => ?_, fun m => ?_⟩ <;> rw [charged_concat_untold rfl]
    · exact h.settled m
    · exact h.cash m
  | ok told =>
    have hrows : Holds (w.table.recordSeen told mode) (l ++ [⟨mode, .ok told⟩]) := h.rows.recorded hown hids
    have hbook (m : RunMode) : ((FeeModes.swept w ⟨mode, .ok told⟩).books m) =
        if m = mode then (w.books mode).settleTo (charged (l ++ [⟨mode, .ok told⟩]) mode) else w.books m := by
      unfold FeeModes.swept settleBrokerFees
      rw [← hrows.total mode]
      exact Function.update_apply ..
    refine ⟨hrows, fun m => ?_, fun m => ?_⟩ <;> rw [hbook] <;> split_ifs with hm
    · rw [hm, Portfolio.settleTo_feesSettled]
    · rw [h.settled m, charged_concat_ne (Ne.symm hm)]
    · rw [hm, Portfolio.settleTo_cash, h.cash mode, h.settled mode]
      ring
    · rw [h.cash m, charged_concat_ne (Ne.symm hm)]

theorem run_exact {start : World} {m : List Sweep} (hrun : Run (guarded Step Own) w m w') (h : Exact start w l)
    (hids : Distinct (l ++ m)) : Exact start w' (l ++ m) := by
  induction hrun generalizing l with
  | nil => rwa [List.append_nil]
  | cons hstep _ ih =>
    obtain ⟨rfl, hown⟩ := hstep
    rw [List.append_cons] at hids ⊢
    exact ih (h.swept hown hids.left) hids

/-- An empty table, and books that have settled nothing. -/
structure Opening (w : World) : Prop where
  table : w.table = .empty
  settled : ∀ mode, (w.books mode).feesSettled = 0

/-- **Each mode's total is the sum of the distinct activities its sweeps have recorded, and its cash is corrected by that**,
in every run in which no sweep reports an identifier that is another mode's row. -/
theorem totals_exact {start : World} (hstart : Opening start) (hids : Distinct l) (hrun : Run (guarded Step Own) start l w) :
    ∀ mode, w.table.totalSeen mode = charged l mode ∧ (w.books mode).cash = (start.books mode).cash - charged l mode := by
  have hzero (mode : RunMode) : charged [] mode = 0 := rfl
  have hopen : Exact start start [] := by
    refine ⟨fun k row => ?_, fun mode => by rw [hstart.settled, hzero], fun mode => by rw [hzero, sub_zero]⟩
    rw [hstart.table]
    simp [reported]
  have hend := run_exact (l := []) hrun hopen hids
  exact fun mode => ⟨hend.rows.total mode, hend.cash mode⟩

/-- A charge of four dollars and fourteen cents, under the first identifier. -/
def firstCharge : FeeActivity where
  activityId := "20260909-1"
  bookedOn := 8
  amount := 207 / 50

/-- Two dollars, under the same identifier of another account. -/
def otherCharge : FeeActivity := { firstCharge with amount := 2 }

def opening : World where
  books _ := { cash := 100, startingEquity := 100 }

theorem opening_opening : Opening opening := ⟨rfl, fun _ => rfl⟩

/-- Two dollars of the live account, under an identifier of their own. -/
def liveCharge : FeeActivity := { firstCharge with activityId := "20260909-2", amount := 2 }

def sweeps : List Sweep := [⟨.paper, .ok [firstCharge]⟩, ⟨.live, .ok [liveCharge]⟩, ⟨.paper, .ok [firstCharge]⟩]

theorem own_of_all (h : i.told.all (fun a => (w.table.get? a.activityId).all fun row => decide (row.runMode = i.mode)) = true) :
    Own w i := by
  intro a ha row hrow
  have := List.all_eq_true.1 h a ha
  rw [hrow] at this
  exact of_decide_eq_true this

/-- Reported twice, a charge leaves cash once, and the other account's leaves its own. -/
theorem totals_exact_twice :
    ((sweeps.foldl swept opening).books .paper).cash = 4793 / 50 ∧ ((sweeps.foldl swept opening).books .live).cash = 98 := by
  have hids : Distinct sweeps := by
    intro mode a ha b hb hid
    obtain ⟨i, hi, -, ha⟩ := mem_reported.1 ha
    obtain ⟨j, hj, -, hb⟩ := mem_reported.1 hb
    have hone : ∀ i ∈ sweeps, ∀ a ∈ i.told, a = firstCharge ∨ a = liveCharge := by decide +kernel
    rcases hone i hi a ha with rfl | rfl <;> rcases hone j hj b hb with rfl | rfl
    · rfl
    · exact absurd hid (by decide)
    · exact absurd hid (by decide)
    · rfl
  have hrun : Run (guarded Step Own) opening sweeps (sweeps.foldl swept opening) :=
    .cons ⟨rfl, own_of_all (by decide +kernel)⟩
      (.cons ⟨rfl, own_of_all (by decide +kernel)⟩ (.cons ⟨rfl, own_of_all (by decide +kernel)⟩ (.nil _)))
  have hexact := totals_exact opening_opening hids hrun
  rw [(hexact .paper).2, (hexact .live).2]
  decide +kernel

/-- **A charge whose identifier another mode's row has is in no total**: the live account's two dollars are skipped, and its
cash keeps them. -/
theorem charge_lost : ¬ ∀ (start w : World) (l : List Sweep), Opening start → Distinct l → Run Step start l w →
    ∀ mode, w.table.totalSeen mode = charged l mode ∧ (w.books mode).cash = (start.books mode).cash - charged l mode := by
  intro h
  have hids : Distinct [⟨.paper, .ok [firstCharge]⟩, ⟨.live, .ok [otherCharge]⟩] := by
    intro mode a ha b hb _
    obtain ⟨i, hi, hmode, ha⟩ := mem_reported.1 ha
    obtain ⟨j, hj, hmode', hb⟩ := mem_reported.1 hb
    simp only [List.mem_cons, List.not_mem_nil, or_false] at hi hj
    rcases hi with rfl | rfl <;> rcases hj with rfl | rfl
    · rw [List.mem_singleton.1 ha, List.mem_singleton.1 hb]
    · cases hmode.trans hmode'.symm
    · cases hmode.trans hmode'.symm
    · rw [List.mem_singleton.1 ha, List.mem_singleton.1 hb]
  have hend := h opening _ _ opening_opening hids (.cons rfl (.cons rfl (.nil _))) .live
  exact absurd hend.1 (by decide +kernel)

end FeeModes
end Atp
