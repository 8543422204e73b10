import AlgoTrading.Fees
import AlgoTrading.Transport
import Mathlib.Data.List.ReduceOption
import Mathlib.Data.List.Sort
import Mathlib.Data.List.TakeWhile
/-!
# FeePages — the venue's fee activities, a page at a time

`get_fee_activities` and `_to_fee_activity` of `brokers/alpaca.py`, over a feed the venue pages through by the id of the
last row it sent.  A row is kept as what each read of its fields gives.  `feePages_some` is what a read that ends has read;
`feePages_ends` says when one ends.
-/
namespace Atp
namespace Alpaca

open Raising

/-! ## One row -/

/-- What `_to_fee_activity` may meet in a row. -/
inductive RowError
  | keyError
  | typeError
  | valueError
  | invalidOperation
deriving DecidableEq

/-- `entry["net_amount"]`: a number, a text with the number `Decimal` makes of it, if it does, or something else. -/
inductive AmountField
  | number (x : ℚ)
  | text (parsed : Option ℚ)
  | other
deriving DecidableEq

/-- `_as_decimal`. -/
def AmountField.asDecimal : AmountField → Except RowError ℚ
  | .number x => .ok x
  | .text (some x) => .ok x
  | .text none => .error .invalidOperation
  | .other => .error .typeError

/-- The fields of a row, each `none` where it is absent.  `date` is what `date.fromisoformat` makes of its first ten
characters. -/
structure ActivityFields where
  status : Option String := none
  id : Option String := none
  netAmount : Option AmountField := none
  date : Option (Option ℤ) := none
deriving DecidableEq

/-- A row of the feed; `none` is no JSON object. -/
abbrev ActivityRow := Option ActivityFields

/-- `_EXECUTED`. -/
def executed : String := "executed"

/-- The three reads, in the order they are made. -/
def ActivityFields.read (f : ActivityFields) : Except RowError FeeActivity :=
  match f.id with
  | none => .error .keyError
  | some activityId =>
    match f.netAmount with
    | none => .error .keyError
    | some amount =>
      match amount.asDecimal with
      | .error e => .error e
      | .ok netAmount =>
        match f.date with
        | none => .error .keyError
        | some none => .error .valueError
        | some (some bookedOn) => .ok { activityId, bookedOn, amount := -netAmount }

/-- **`_to_fee_activity`**: none for a row that is not executed or that a `KeyError`, a `TypeError` or a `ValueError` stops. -/
def toFeeActivity (row : ActivityRow) : Except Exc (Option FeeActivity) :=
  match row with
  | none => .ok none
  | some f =>
    if f.status.getD executed ≠ executed then .ok none
    else match f.read with
      | .ok activity => .ok (some activity)
      | .error .invalidOperation => .error ⟨.invalidOperation, [.lit "[<class 'decimal.ConversionSyntax'>]"]⟩
      | .error _ => .ok none

/-- An executed row whose amount is a text that no `Decimal` can be made of. -/
def Garbled (row : ActivityRow) : Prop :=
  ∃ f ∈ row, f.status.getD executed = executed ∧ f.id.isSome ∧ f.netAmount = some (.text none)

/-- **A row raises exactly where its amount is garbled.** -/
theorem toFeeActivity_ok_iff {row : ActivityRow} : (∃ read, toFeeActivity row = .ok read) ↔ ¬Garbled row := by
  cases row with
  | none => simp [toFeeActivity, Garbled]
  | some f =>
    obtain ⟨status, id, netAmount, date⟩ := f
    by_cases hstatus : status.getD executed = executed
    · cases id with
      | none => simp [toFeeActivity, Garbled, hstatus, ActivityFields.read]
      | some id =>
        rcases netAmount with _ | x | (_ | x) | _ <;> rcases date with _ | _ | _ <;>
          simp [toFeeActivity, Garbled, hstatus, ActivityFields.read, AmountField.asDecimal]
    · simp [toFeeActivity, Garbled, hstatus]

/-! ## The pages -/

/-- `_ACTIVITY_PAGE_SIZE`. -/
def activityPageSize : ℕ := 100

/-- `payload[-1]["id"]`. -/
def lastId (payload : List ActivityRow) : Except Exc String :=
  match payload.getLast? with
  | some (some f) =>
    match f.id with
    | some id => .ok id
    | none => .error ⟨.exception, [.lit "'id'"]⟩
  | _ => .error ⟨.exception, [.lit "row indices must be integers or slices, not str"]⟩

variable {ν : Type}

/-- The loop, so many requests of it: `none` is still asking.  An empty token is none. -/
def feePages (getActivities : Option String → Exchange ν (List ActivityRow)) :
    ℕ → Option String → List FeeActivity → Prog ν Exc (Option (List FeeActivity))
  | 0, _, _ => return none
  | fuel + 1, token, activities => do
    let answer ← request "GET" "/v2/account/activities" (getActivities (token.filter (· ≠ "")))
    let payload := answer.getD []
    if payload.isEmpty then return some activities
    else
      let read ← fromExcept (payload.mapM toFeeActivity)
      let activities := activities ++ read.reduceOption
      if payload.length < activityPageSize then return some activities
      else
        let token ← fromExcept (lastId payload)
        feePages getActivities fuel (some token) activities

/-- **`get_fee_activities`**: by date, and as the venue sent them within one. -/
def getFeeActivities (getActivities : Option String → Exchange ν (List ActivityRow)) (fuel : ℕ) :
    Prog ν Exc (Option (List FeeActivity)) := do
  let activities ← feePages getActivities fuel none []
  return activities.map (·.insertionSort fun a b => a.bookedOn ≤ b.bookedOn)

/-! ## The feed -/

/-- The id a row is asked after by. -/
def rowId (row : ActivityRow) : Option String := row.bind ActivityFields.id

/-- The venue's fee activities of the window asked about, in a fixed order, each id once. -/
structure Feed where
  rows : List ActivityRow
  distinct : (rows.filterMap rowId).Nodup

/-- The rows after the one of that id, a page of them. -/
def Feed.page (feed : Feed) (token : Option String) : List ActivityRow :=
  (token.elim feed.rows fun id => (feed.rows.dropWhile fun row => decide (rowId row ≠ some id)).drop 1).take activityPageSize

/-- The feed answers every request with a page. -/
def Feed.serve (feed : Feed) (token : Option String) : Exchange ν (List ActivityRow) :=
  fun s => (some { statusCode := 200, content := some (feed.page token) }, s)

theorem dropWhile_rowId : ∀ {rows : List ActivityRow} {i : ℕ} {row : ActivityRow} {id : String}, (rows.filterMap rowId).Nodup →
    rows[i]? = some row → rowId row = some id → rows.dropWhile (fun row => decide (rowId row ≠ some id)) = rows.drop i
  | [], i, row, id, _, h, _ => by cases h
  | r :: rows, i, row, id, hnodup, h, hid => by
    cases i with
    | zero =>
      obtain rfl : r = row := by simpa using h
      rw [List.dropWhile_cons_of_neg (by simp [hid]), List.drop_zero]
    | succ i =>
      have hget : rows[i]? = some row := by simpa using h
      have hmem : id ∈ rows.filterMap rowId := List.mem_filterMap.2 ⟨row, List.mem_of_getElem? hget, hid⟩
      have hne : rowId r ≠ some id := fun heq => by
        rw [List.filterMap_cons_some heq, List.nodup_cons] at hnodup
        exact hnodup.1 hmem
      have hrest : (rows.filterMap rowId).Nodup := hnodup.sublist ((List.sublist_cons_self r rows).filterMap rowId)
      rw [List.dropWhile_cons_of_pos (by simpa using hne), List.drop_succ_cons, dropWhile_rowId hrest hget hid]

/-- **The page after a row's id is the page from the next row.** -/
theorem Feed.page_after {feed : Feed} {i : ℕ} {row : ActivityRow} {id : String} (h : feed.rows[i]? = some row)
    (hid : rowId row = some id) : feed.page (some id) = (feed.rows.drop (i + 1)).take activityPageSize := by
  unfold page
  rw [Option.elim_some, dropWhile_rowId feed.distinct h hid, List.drop_drop]

theorem exec_serve {feed : Feed} {token : Option String} {s : ν} :
    exec (request "GET" "/v2/account/activities" (feed.serve token)) s = (.ok (some (feed.page token)), s) := by
  rw [exec_request]
  rfl

/-- What an executed, well-formed row reports. -/
def reported (row : ActivityRow) : Option FeeActivity :=
  row.bind fun f => if f.status.getD executed = executed then f.read.toOption else none

/-- What there is to report of some rows. -/
def feesOf (rows : List ActivityRow) : List FeeActivity := rows.filterMap reported

theorem toFeeActivity_reported {row : ActivityRow} {read : Option FeeActivity} (h : toFeeActivity row = .ok read) :
    reported row = read := by
  cases row with
  | none =>
    cases h
    rfl
  | some f =>
    unfold toFeeActivity at h
    unfold reported
    dsimp only [Option.bind_some] at h ⊢
    by_cases hstatus : f.status.getD executed = executed
    · rw [if_neg (not_not.2 hstatus)] at h
      rw [if_pos hstatus]
      split at h <;> rename_i hread <;> cases h <;> rw [hread] <;> rfl
    · rw [if_pos hstatus] at h
      cases h
      rw [if_neg hstatus]

/-- Every full page ends in a row there is an id to ask after. -/
def Feed.Continues (feed : Feed) (pages : ℕ) : Prop :=
  ∀ i, pages ≤ i → ∀ row, feed.rows[activityPageSize * i + 99]? = some row → ∃ id, rowId row = some id ∧ id ≠ ""

theorem feesOf_mapM : ∀ {rows : List ActivityRow} {read : List (Option FeeActivity)}, rows.mapM toFeeActivity = .ok read →
    read.reduceOption = feesOf rows ∧ ∀ row ∈ rows, ¬Garbled row
  | [], read, h => by
    cases h
    exact ⟨rfl, by simp⟩
  | row :: rows, read, h => by
    rw [mapM_cons_except] at h
    cases hrow : toFeeActivity row with
    | error e =>
      rw [hrow] at h
      cases h
    | ok first =>
      cases hrest : rows.mapM toFeeActivity with
      | error e =>
        rw [hrow, hrest] at h
        cases h
      | ok rest =>
        rw [hrow, hrest] at h
        cases h
        obtain ⟨heq, hclean⟩ := feesOf_mapM hrest
        refine ⟨?_, List.forall_mem_cons.2 ⟨toFeeActivity_ok_iff.1 ⟨first, hrow⟩, hclean⟩⟩
        unfold feesOf at heq ⊢
        cases first with
        | none => rw [List.reduceOption_cons_of_none, heq, List.filterMap_cons_none (toFeeActivity_reported hrow)]
        | some a => rw [List.reduceOption_cons_of_some, heq, List.filterMap_cons_some (toFeeActivity_reported hrow)]

theorem lastId_eq_ok {payload : List ActivityRow} {id : String} (h : lastId payload = .ok id) :
    ∃ row, payload.getLast? = some row ∧ rowId row = some id := by
  unfold lastId at h
  split at h
  · rename_i f hlast
    split at h
    · rename_i id' hid
      cases h
      exact ⟨some f, hlast, hid⟩
    · cases h
  · cases h

theorem lastId_ok {payload : List ActivityRow} {row : ActivityRow} {id : String} (hlast : payload.getLast? = some row)
    (hid : rowId row = some id) : lastId payload = .ok id := by
  cases row with
  | none => cases hid
  | some f =>
    unfold lastId
    rw [hlast]
    dsimp only
    rw [show f.id = some id from hid]

section
variable {feed : Feed} {m fuel : ℕ} {token : Option String} {activities l : List FeeActivity} {s s' : ν}

/-- The last row of a full page. -/
theorem getLast?_page (hfull : ¬((feed.rows.drop (activityPageSize * m)).take activityPageSize).length < activityPageSize) :
    ((feed.rows.drop (activityPageSize * m)).take activityPageSize).getLast? = feed.rows[activityPageSize * m + 99]? := by
  rw [List.length_take, List.length_drop] at hfull
  have hlen : ((feed.rows.drop (activityPageSize * m)).take activityPageSize).length = 100 := by
    rw [List.length_take, List.length_drop]
    unfold activityPageSize at hfull ⊢
    omega
  rw [List.getLast?_eq_getElem?, hlen, List.getElem?_take, if_pos (by decide), List.getElem?_drop]

/-- The token of a full page's last row asks for the next page. -/
theorem page_next {row : ActivityRow} {id : String} (hrow : feed.rows[activityPageSize * m + 99]? = some row)
    (hid : rowId row = some id) : feed.page (some id) = (feed.rows.drop (activityPageSize * (m + 1))).take activityPageSize := by
  rw [Feed.page_after hrow hid]
  rfl

/-- **A read that ends has read the rest of the feed**, and could: no row of it is garbled, and every page leads on. -/
theorem feePages_some : ∀ {fuel m : ℕ} {token : Option String} {activities : List FeeActivity},
    feed.page (token.filter (· ≠ "")) = (feed.rows.drop (activityPageSize * m)).take activityPageSize →
    exec (feePages feed.serve fuel token activities) s = (.ok (some l), s') →
    l = activities ++ feesOf (feed.rows.drop (activityPageSize * m)) ∧
      (∀ row ∈ feed.rows.drop (activityPageSize * m), ¬Garbled row) ∧ feed.Continues m ∧ s' = s
  | 0, m, token, activities, _, h => by cases h
  | fuel + 1, m, token, activities, hpage, h => by
    unfold feePages at h
    rw [exec_bind, exec_serve, hpage] at h
    dsimp only [Option.getD_some] at h
    have hshort : ((feed.rows.drop (activityPageSize * m)).take activityPageSize).length < activityPageSize →
        (feed.rows.drop (activityPageSize * m)).take activityPageSize = feed.rows.drop (activityPageSize * m) ∧
          feed.Continues m := by
      intro hlt
      rw [List.length_take, List.length_drop] at hlt
      refine ⟨List.take_of_length_le (by rw [List.length_drop]; omega), fun i hi row hrow => ?_⟩
      have hbound := (List.getElem?_eq_some_iff.1 hrow).1
      have hmul := Nat.mul_le_mul_left activityPageSize hi
      unfold activityPageSize at hlt hbound hmul
      omega
    generalize hpayload : (feed.rows.drop (activityPageSize * m)).take activityPageSize = payload at h hshort
    split at h
    · -- nothing more
      rename_i hempty
      cases h
      obtain rfl := List.isEmpty_iff.1 hempty
      obtain ⟨heq, hcontinues⟩ := hshort (by decide)
      rw [← heq]
      exact ⟨by simp [feesOf], by simp, hcontinues, rfl⟩
    · rw [exec_bind, exec_fromExcept] at h
      cases hread : payload.mapM toFeeActivity with
      | error e =>
        rw [hread] at h
        cases h
      | ok read =>
        rw [hread] at h
        obtain ⟨hfees, hclean⟩ := feesOf_mapM hread
        dsimp only at h
        split at h
        · rename_i hlt
          cases h
          obtain ⟨heq, hcontinues⟩ := hshort hlt
          rw [← heq, hfees]
          exact ⟨rfl, hclean, hcontinues, rfl⟩
        · rename_i hfull
          rw [exec_bind, exec_fromExcept] at h
          cases hid : lastId payload with
          | error e =>
            rw [hid] at h
            cases h
          | ok id =>
            rw [hid] at h
            obtain ⟨row, hlast, hrowId⟩ := lastId_eq_ok hid
            rw [← hpayload, getLast?_page (hpayload ▸ hfull)] at hlast
            by_cases hblank : id = ""
            · -- an empty id asks for the first page again, and a read from there would need it not to be empty
              subst hblank
              have hagain : feed.page ((some "").filter (· ≠ "")) = (feed.rows.drop (activityPageSize * 0)).take activityPageSize := rfl
              obtain ⟨-, -, hcontinues, -⟩ := feePages_some hagain h
              obtain ⟨id, hsome, hne⟩ := hcontinues m (Nat.zero_le m) row hlast
              rw [hrowId] at hsome
              cases hsome
              exact absurd rfl hne
            · have hnext : feed.page ((some id).filter (· ≠ "")) =
                  (feed.rows.drop (activityPageSize * (m + 1))).take activityPageSize := by
                rw [Option.filter_some, if_pos (by simpa using hblank), page_next hlast hrowId]
              obtain ⟨hl, hrest, hcontinues, hs⟩ := feePages_some hnext h
              have hsplit : feed.rows.drop (activityPageSize * m) = payload ++ feed.rows.drop (activityPageSize * (m + 1)) := by
                rw [← hpayload, Nat.mul_succ, ← List.drop_drop, List.take_append_drop]
              refine ⟨?_, ?_, fun i hi row' hrow' => ?_, hs⟩
              · rw [hl, hfees, hsplit, List.append_assoc]
                simp [feesOf]
              · rw [hsplit]
                exact List.forall_mem_append.2 ⟨hclean, hrest⟩
              · obtain rfl | hlt := Nat.eq_or_lt_of_le hi
                · rw [hlast] at hrow'
                  cases hrow'
                  exact ⟨id, hrowId, hblank⟩
                · exact hcontinues i hlt row' hrow'

/-- **A read of a clean feed ends**, a page a request. -/
theorem feePages_ends : ∀ {fuel m : ℕ} {token : Option String} {activities : List FeeActivity},
    feed.page (token.filter (· ≠ "")) = (feed.rows.drop (activityPageSize * m)).take activityPageSize →
    activityPageSize * m ≤ feed.rows.length → feed.rows.length < activityPageSize * (m + fuel) →
    (∀ row ∈ feed.rows, ¬Garbled row) → feed.Continues 0 →
    ∃ l, exec (feePages feed.serve fuel token activities) s = (.ok (some l), s)
  | 0, m, token, activities, _, hm, hfuel, _, _ => absurd hm (not_le.2 hfuel)
  | fuel + 1, m, token, activities, hpage, hm, hfuel, hclean, hcontinues => by
    unfold feePages
    rw [exec_bind, exec_serve, hpage]
    dsimp only [Option.getD_some]
    split
    · exact ⟨_, rfl⟩
    · have hsub : ∀ row ∈ (feed.rows.drop (activityPageSize * m)).take activityPageSize, ∃ read, toFeeActivity row = .ok read :=
        fun row hrow => toFeeActivity_ok_iff.2 (hclean row (List.mem_of_mem_drop (List.mem_of_mem_take hrow)))
      obtain ⟨read, hread, -⟩ := mapM_reads _ hsub
      rw [exec_bind, exec_fromExcept, hread]
      dsimp only
      split
      · exact ⟨_, rfl⟩
      · rename_i hfull
        have hlast := getLast?_page hfull
        have hlt : activityPageSize * m + 99 < feed.rows.length := by
          rw [List.length_take, List.length_drop] at hfull
          unfold activityPageSize at hfull ⊢
          omega
        rw [List.getElem?_eq_getElem hlt] at hlast
        obtain ⟨id, hid, hne⟩ := hcontinues m (Nat.zero_le m) _ (List.getElem?_eq_getElem hlt)
        rw [exec_bind, exec_fromExcept, lastId_ok hlast hid]
        refine feePages_ends (m := m + 1) ?_ ?_ ?_ hclean hcontinues
        · rw [Option.filter_some, if_pos (by simpa using hne), page_next (List.getElem?_eq_getElem hlt) hid]
        · unfold activityPageSize at hlt ⊢
          omega
        · rwa [Nat.add_right_comm, Nat.add_assoc]

/-- A read that returns has sorted what its pages gave. -/
theorem getFeeActivities_some {feed : Feed} {fuel : ℕ} {l : List FeeActivity} {s s' : ν}
    (h : exec (getFeeActivities feed.serve fuel) s = (.ok (some l), s')) :
    ∃ read, exec (feePages feed.serve fuel none []) s = (.ok (some read), s') ∧
      read.insertionSort (fun a b => a.bookedOn ≤ b.bookedOn) = l := by
  unfold getFeeActivities at h
  rw [exec_bind] at h
  rcases hrun : exec (feePages feed.serve fuel none []) s with ⟨_ | _ | read, t⟩ <;> rw [hrun] at h <;> cases h
  exact ⟨read, rfl, rfl⟩

theorem page_first (feed : Feed) :
    feed.page ((none : Option String).filter (· ≠ "")) = (feed.rows.drop (activityPageSize * 0)).take activityPageSize := rfl

/-- **The fees are read whole, or not at all**: a read that returns has every executed, well-formed activity once, by date. -/
theorem getFeeActivities_whole {feed : Feed} {fuel : ℕ} {l : List FeeActivity} {s s' : ν}
    (h : exec (getFeeActivities feed.serve fuel) s = (.ok (some l), s')) :
    l.Perm (feesOf feed.rows) ∧ l.Pairwise fun a b => a.bookedOn ≤ b.bookedOn := by
  obtain ⟨read, hrun, rfl⟩ := getFeeActivities_some h
  obtain ⟨hl, -⟩ := feePages_some (page_first feed) hrun
  have hl' : read = feesOf feed.rows := by simpa using hl
  rw [← hl']
  exact ⟨List.perm_insertionSort _ _, List.pairwise_insertionSort _ _⟩

/-- **A read returns exactly where no amount is garbled and every full page leads on.** -/
theorem getFeeActivities_iff (feed : Feed) (s : ν) :
    (∃ fuel l, exec (getFeeActivities feed.serve fuel) s = (.ok (some l), s)) ↔
      (∀ row ∈ feed.rows, ¬Garbled row) ∧ feed.Continues 0 := by
  constructor
  · rintro ⟨fuel, l, h⟩
    obtain ⟨read, hrun, -⟩ := getFeeActivities_some h
    obtain ⟨-, hclean, hcontinues, -⟩ := feePages_some (page_first feed) hrun
    exact ⟨by simpa using hclean, hcontinues⟩
  · rintro ⟨hclean, hcontinues⟩
    obtain ⟨read, hrun⟩ : ∃ read, exec (feePages feed.serve (feed.rows.length + 1) none []) s = (.ok (some read), s) :=
      feePages_ends (page_first feed) (Nat.zero_le _) (by unfold activityPageSize; omega) hclean hcontinues
    exact ⟨feed.rows.length + 1, _, by rw [getFeeActivities, exec_bind, hrun]; rfl⟩

end
end Alpaca
end Atp
