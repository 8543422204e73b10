import AlgoTrading.Keyset
import AlgoTrading.Runs
import AlgoTrading.Sessions
/-!
# AuditTrail — the record read while it is being written

`PostgresAuditLog` of `persistence/audit.py`, `list_audit_entries` of `routers/audit.py`, and the screen that asks for page after
page.  A row takes its id when it is inserted and is seen when its transaction commits, so rows of lower ids can turn up after rows
of higher ones; a transaction that fails leaves a gap.
-/
namespace Atp
namespace AuditTrail

open Runs Sessions Keyset

structure AuditLogRow where
  id : ℕ
  entry : AuditEntry
deriving DecidableEq, Repr

/-- The table: the rows anyone may read, the ones a transaction still holds, and the next id of the sequence. -/
structure Table where
  rows : List AuditLogRow := []
  held : List AuditLogRow := []
  nextId : ℕ := 1
deriving DecidableEq, Repr

/-- `where(...)` of `recent`. -/
def selects (beforeId : Option ℕ) (action : Option String) (row : AuditLogRow) : Bool :=
  (beforeId.all fun c => row.id < c) && action.all fun a => row.entry.action = a

/-- **`recent`**: the newest first, by id. -/
def recent (rows : List AuditLogRow) (limit : ℕ) (beforeId : Option ℕ) (action : Option String) : List AuditLogRow :=
  ((rows.filter (selects beforeId action)).insertionSort fun a b => b.id ≤ a.id).take limit

structure AuditPage where
  entries : List AuditLogRow
  nextBeforeId : Option ℕ
deriving DecidableEq, Repr

/-- **`list_audit_entries`**: a cursor only when the page came back full. -/
def listAuditEntries (rows : List AuditLogRow) (limit : ℕ) (beforeId : Option ℕ) (action : Option String) : AuditPage :=
  let entries := recent rows limit beforeId action
  ⟨entries, if entries.length = limit then entries.getLast?.map AuditLogRow.id else none⟩

/-- The screen: what it asks for next, and what it has been shown. -/
structure Screen where
  beforeId : Option ℕ := none
  shown : List AuditLogRow := []
  pages : ℕ := 0
  atEnd : Bool := false
deriving DecidableEq, Repr

structure State where
  table : Table
  screen : Screen := {}

/-- A row inserted, its transaction committed or rolled back, and the reader's next page. -/
inductive Event where
  | insert (entry : AuditEntry)
  | commit (id : ℕ)
  | rollback (id : ℕ)
  | page

variable (limit : ℕ) (action : Option String)

def step (s : State) : Event → Option State
  | .insert entry =>
    some { s with table := { s.table with held := ⟨s.table.nextId, entry⟩ :: s.table.held, nextId := s.table.nextId + 1 } }
  | .commit id =>
    match s.table.held.find? fun row => row.id = id with
    | some row =>
      some { s with table := { s.table with
        rows := row :: s.table.rows, held := s.table.held.filter fun r => r.id ≠ id } }
    | none => none
  | .rollback id => some { s with table := { s.table with held := s.table.held.filter fun r => r.id ≠ id } }
  | .page =>
    if s.screen.atEnd then none
    else
      let answer := listAuditEntries s.table.rows limit s.screen.beforeId action
      some { s with screen :=
        ⟨answer.nextBeforeId, s.screen.shown ++ answer.entries, s.screen.pages + 1, answer.nextBeforeId.isNone⟩ }

/-! ## The table -/

/-- Every id was given out once, by the sequence. -/
structure Table.Sound (t : Table) : Prop where
  positive : 0 < t.nextId
  nodup : ((t.rows ++ t.held).map AuditLogRow.id).Nodup
  given : ∀ row ∈ t.rows ++ t.held, 0 < row.id ∧ row.id < t.nextId

variable {limit action} {s s' : State}

theorem Table.Sound.insert {t : Table} (h : t.Sound) (entry : AuditEntry) :
    Table.Sound { t with held := ⟨t.nextId, entry⟩ :: t.held, nextId := t.nextId + 1 } where
  positive := Nat.succ_pos _
  nodup := by
    have hperm : (t.rows ++ ⟨t.nextId, entry⟩ :: t.held).Perm (⟨t.nextId, entry⟩ :: (t.rows ++ t.held)) := List.perm_middle
    refine (hperm.map AuditLogRow.id).nodup_iff.2 (List.nodup_cons.2 ⟨fun hmem => ?_, h.nodup⟩)
    obtain ⟨row, hrow, heq⟩ := List.mem_map.1 hmem
    have hlt := (h.given row hrow).2
    change row.id = t.nextId at heq
    omega
  given row hrow := by
    have hperm : (t.rows ++ ⟨t.nextId, entry⟩ :: t.held).Perm (⟨t.nextId, entry⟩ :: (t.rows ++ t.held)) := List.perm_middle
    rcases List.mem_cons.1 (hperm.mem_iff.1 hrow) with rfl | hold
    · exact ⟨h.positive, Nat.lt_succ_self _⟩
    · have hgiven := h.given row hold
      exact ⟨hgiven.1, Nat.lt_succ_of_lt hgiven.2⟩

theorem Table.Sound.rollback {t : Table} (h : t.Sound) (id : ℕ) :
    Table.Sound { t with held := t.held.filter fun r => r.id ≠ id } where
  positive := h.positive
  nodup := h.nodup.sublist ((List.filter_sublist.append_left _).map _)
  given row hrow := h.given row ((List.filter_sublist.append_left _).subset hrow)

theorem Table.Sound.commit {t : Table} (h : t.Sound) {id : ℕ} {row : AuditLogRow}
    (hfind : (t.held.find? fun r => r.id = id) = some row) :
    Table.Sound { t with rows := row :: t.rows, held := t.held.filter fun r => r.id ≠ id } := by
  have hid : row.id = id := by simpa using List.find?_some hfind
  have hheld : row ∈ t.held := List.mem_of_find?_eq_some hfind
  have hsub : ∀ r ∈ (row :: t.rows) ++ t.held.filter (fun r => r.id ≠ id), r ∈ t.rows ++ t.held := by
    intro r hr
    rw [List.cons_append, List.mem_cons, List.mem_append] at hr
    rcases hr with rfl | hr | hr
    · exact List.mem_append_right _ hheld
    · exact List.mem_append_left _ hr
    · exact List.mem_append_right _ (List.mem_of_mem_filter hr)
  obtain ⟨hrows, hhold, hapart⟩ := List.nodup_append.1 (List.map_append ▸ h.nodup)
  refine ⟨h.positive, ?_, fun r hr => h.given r (hsub r hr)⟩
  rw [List.cons_append, List.map_cons, List.nodup_cons]
  refine ⟨fun hmem => ?_, h.nodup.sublist ((List.filter_sublist.append_left _).map _)⟩
  obtain ⟨r, hr, heq⟩ := List.mem_map.1 hmem
  rcases List.mem_append.1 hr with hr | hr
  · exact hapart _ (List.mem_map_of_mem hr) _ (List.mem_map_of_mem hheld) heq
  · exact absurd (heq.trans hid) (of_decide_eq_true (List.mem_filter.1 hr).2)

/-- **What a step does to the table**: it stays sound and no row of it goes. -/
theorem step_table {e : Event} (h : step limit action s e = some s') (hs : s.table.Sound) :
    s'.table.Sound ∧ s.table.rows ⊆ s'.table.rows := by
  cases e with
  | insert entry =>
    cases h
    exact ⟨hs.insert entry, fun _ hrow => hrow⟩
  | commit id =>
    simp only [step] at h
    split at h
    · rename_i row hfind
      cases h
      exact ⟨hs.commit hfind, List.subset_cons_self ..⟩
    · cases h
  | rollback id =>
    cases h
    exact ⟨hs.rollback id, fun _ hrow => hrow⟩
  | page =>
    simp only [step] at h
    split_ifs at h
    cases h
    exact ⟨hs, fun _ hrow => hrow⟩

/-! ## The reader -/

variable (action) in
/-- The rows the screen asks for. -/
def wanted (rows : List AuditLogRow) : List AuditLogRow := rows.filter fun row => action.all fun a => row.entry.action = a

theorem recent_eq (rows : List AuditLogRow) (limit : ℕ) (beforeId : Option ℕ) :
    recent rows limit beforeId action = Keyset.page AuditLogRow.id (wanted action rows) limit beforeId := by
  unfold recent Keyset.page wanted
  rw [List.filter_filter]
  rfl

/-- The screen as a reader of the rows it asks for. -/
def Screen.reader (w : Screen) : Reader AuditLogRow := ⟨w.beforeId, w.shown, w.pages, w.atEnd⟩

/-- What a step does to the screen: a page is a turn of the reader, and nothing else moves it. -/
theorem step_screen (hlimit : 0 < limit) {e : Event} (h : step limit action s e = some s') :
    s'.screen = s.screen ∨ s.screen.atEnd = false ∧ s'.table = s.table ∧
      s'.screen.reader = s.screen.reader.turn AuditLogRow.id limit (wanted action s.table.rows) := by
  cases e with
  | insert entry =>
    cases h
    exact .inl rfl
  | commit id =>
    simp only [step] at h
    split at h <;> cases h
    exact .inl rfl
  | rollback id =>
    cases h
    exact .inl rfl
  | page =>
    simp only [step] at h
    split_ifs at h with hend
    cases h
    refine .inr ⟨by simpa using hend, rfl, ?_⟩
    unfold Screen.reader Reader.turn listAuditEntries
    dsimp only
    rw [recent_eq]
    congr 1
    by_cases hfull : (page AuditLogRow.id (wanted action s.table.rows) limit s.screen.beforeId).length = limit
    · cases hlast : (page AuditLogRow.id (wanted action s.table.rows) limit s.screen.beforeId).getLast? with
      | none =>
        rw [List.getLast?_eq_none_iff] at hlast
        rw [hlast] at hfull
        exact absurd hfull hlimit.ne
      | some row => simp [hfull]
    · simp [hfull]

/-- **The record is read whole, whatever is written meanwhile**: no row is shown twice, every row shown is of the table and was
asked for, the last page leaves out no row that was there at the start, and the pages are no more than the ids allow. -/
theorem record_read (hlimit : 0 < limit) {s₀ s : State} {events : List Event} (hsound : s₀.table.Sound) (hfresh : s₀.screen = {})
    (h : Run (fun s e s' => step limit action s e = some s') s₀ events s) :
    (s.screen.shown.Pairwise fun a b => b.id < a.id) ∧ s.screen.shown ⊆ wanted action s.table.rows ∧
      (s.screen.atEnd = true → wanted action s₀.table.rows ⊆ s.screen.shown) ∧
      limit * (s.screen.pages - 1) ≤ s.screen.shown.length ∧
      ∀ row ∈ s.screen.shown.head?, s.screen.shown.length ≤ row.id + 1 := by
  have hrun : s.table.Sound ∧ s₀.table.rows ⊆ s.table.rows ∧
      Faithful AuditLogRow.id (wanted action s.table.rows) (wanted action s₀.table.rows) limit s.screen.reader := by
    refine run_invariant (fun s => s.table.Sound ∧ s₀.table.rows ⊆ s.table.rows ∧
      Faithful AuditLogRow.id (wanted action s.table.rows) (wanted action s₀.table.rows) limit s.screen.reader)
      (fun s e t hs hstep => ?_) ?_ h
    · obtain ⟨htable, hkept, hread⟩ := hs
      obtain ⟨htable', hgrow⟩ := step_table hstep htable
      refine ⟨htable', fun row hrow => hgrow (hkept hrow), ?_⟩
      rcases step_screen hlimit hstep with hsame | ⟨hgoing, htab, hturn⟩
      · rw [hsame]
        exact hread.grow (List.filter_subset _ hgrow)
      · rw [hturn, htab]
        refine hread.turn hgoing hlimit ?_ (List.filter_subset _ hkept)
        obtain ⟨hnodup, -⟩ := List.nodup_append.1 (List.map_append ▸ htable.nodup)
        exact hnodup.sublist (List.filter_sublist.map _)
    · refine ⟨hsound, fun _ hrow => hrow, ?_⟩
      rw [hfresh]
      exact faithful_begin
  obtain ⟨-, -, hread⟩ := hrun
  refine ⟨hread.decreasing, hread.stored, hread.complete, ?_, length_decreasing hread.decreasing⟩
  have hfull := hread.full
  change limit * s.screen.pages ≤ s.screen.shown.length + (if s.screen.atEnd = true then limit else 0) at hfull
  rw [Nat.mul_sub_one]
  split_ifs at hfull
  · omega
  · omega

/-- What one sign-in leaves. -/
def signedIn (moment : ℤ) : AuditEntry := ⟨moment, "operator", "login", some "10.0.0.2", [("scope", "full")]⟩

/-- Two rows at a time of three, a fourth inserted before the reading and committed in the middle of it. -/
theorem record_read_four :
    let table : Table := ⟨[⟨3, signedIn 3⟩, ⟨2, signedIn 2⟩, ⟨1, signedIn 1⟩], [⟨4, signedIn 4⟩], 5⟩
    let shown : List AuditLogRow := [⟨3, signedIn 3⟩, ⟨2, signedIn 2⟩, ⟨1, signedIn 1⟩]
    (shown.Pairwise fun a b => b.id < a.id) ∧ shown ⊆ wanted none (⟨4, signedIn 4⟩ :: table.rows) ∧
      ((true : Bool) = true → wanted none table.rows ⊆ shown) ∧ 2 * (2 - 1) ≤ shown.length ∧
      ∀ row ∈ shown.head?, shown.length ≤ row.id + 1 := by
  intro table shown
  have hsound : table.Sound := ⟨by decide, by decide, by decide⟩
  have hrun : Run (fun s e s' => step 2 none s e = some s') ⟨table, {}⟩ [.page, .commit 4, .page]
      ⟨⟨⟨4, signedIn 4⟩ :: table.rows, [], 5⟩, ⟨none, shown, 2, true⟩⟩ := run_fold_iff.2 rfl
  exact record_read (by decide) hsound rfl hrun

end AuditTrail
end Atp
