import Mathlib.Data.List.Sort
/-!
# Keyset — reading a growing table page by page, the newest first

A page is the next few rows below the last key that was read.  Whatever is added to the table in between, no row is read twice,
every row that was there at the start is read, and the reading ends.
-/
namespace Atp
namespace Keyset

variable {α : Type} (key : α → ℕ)

/-- The rows below the cursor, the highest key first, so many at most. -/
def page (rows : List α) (limit : ℕ) (cursor : Option ℕ) : List α :=
  ((rows.filter fun a => cursor.all fun c => key a < c).insertionSort fun a b => key b ≤ key a).take limit

/-- A reader between two pages: the key it goes on below, what it has, and how many pages that was. -/
structure Reader (α : Type) where
  cursor : Option ℕ := none
  seen : List α := []
  pages : ℕ := 0
  done : Bool := false

/-- One more page: a short one is the last. -/
def Reader.turn (limit : ℕ) (rows : List α) (w : Reader α) : Reader α where
  cursor := if (page key rows limit w.cursor).length = limit then (page key rows limit w.cursor).getLast?.map key else none
  seen := w.seen ++ page key rows limit w.cursor
  pages := w.pages + 1
  done := (page key rows limit w.cursor).length ≠ limit

variable {key} {rows rows' start : List α} {limit : ℕ} {cursor : Option ℕ} {a : α}

theorem mem_page (h : a ∈ page key rows limit cursor) : a ∈ rows ∧ ∀ c ∈ cursor, key a < c := by
  have hmem := List.mem_of_mem_take h
  rw [List.mem_insertionSort, List.mem_filter] at hmem
  refine ⟨hmem.1, fun c hc => ?_⟩
  have hall := hmem.2
  rw [Option.mem_def.1 hc] at hall
  exact of_decide_eq_true hall

variable (cursor) in
theorem sorted_decreasing (h : (rows.map key).Nodup) :
    ((rows.filter fun a => cursor.all fun c => key a < c).insertionSort fun a b => key b ≤ key a).Pairwise
      fun a b => key b < key a := by
  have hle : ((rows.filter fun a => cursor.all fun c => key a < c).insertionSort fun a b => key b ≤ key a).Pairwise
      fun a b => key b ≤ key a :=
    haveI : Std.Total (fun a b : α => key b ≤ key a) := ⟨fun a b => Nat.le_total _ _⟩
    haveI : IsTrans α (fun a b : α => key b ≤ key a) := ⟨fun _ _ _ hab hbc => hbc.trans hab⟩
    List.pairwise_insertionSort ..
  have hne : (((rows.filter fun a => cursor.all fun c => key a < c).insertionSort fun a b => key b ≤ key a).map key).Nodup :=
    ((List.perm_insertionSort ..).map key).nodup_iff.2 (h.sublist (List.filter_sublist.map key))
  exact (hle.and (List.pairwise_map.1 hne)).imp fun hboth => lt_of_le_of_ne hboth.1 (Ne.symm hboth.2)

variable (limit cursor) in
/-- **A page in order.** -/
theorem page_decreasing (h : (rows.map key).Nodup) : (page key rows limit cursor).Pairwise fun a b => key b < key a :=
  (sorted_decreasing cursor h).sublist (List.take_sublist _ _)

/-- **A row that a page leaves out is below a full one.** -/
theorem mem_page_or (h : (rows.map key).Nodup) (ha : a ∈ rows) (hcursor : ∀ c ∈ cursor, key a < c) :
    a ∈ page key rows limit cursor ∨
      (page key rows limit cursor).length = limit ∧ ∀ b ∈ page key rows limit cursor, key a < key b := by
  have hall : (cursor.all fun c => key a < c) = true := by
    cases cursor with
    | none => rfl
    | some c => exact decide_eq_true (hcursor c rfl)
  have hmem : a ∈ (rows.filter fun a => cursor.all fun c => key a < c).insertionSort fun a b => key b ≤ key a := by
    rw [List.mem_insertionSort, List.mem_filter]
    exact ⟨ha, hall⟩
  have hdecreasing := sorted_decreasing cursor h
  unfold page
  generalize (rows.filter fun a => cursor.all fun c => key a < c).insertionSort (fun a b => key b ≤ key a) = sorted at *
  rw [← List.take_append_drop limit sorted] at hmem hdecreasing
  rcases List.mem_append.1 hmem with htake | hdrop
  · exact .inl htake
  · refine .inr ⟨?_, fun b hb => (List.pairwise_append.1 hdecreasing).2.2 b hb a hdrop⟩
    have hlen : limit < sorted.length := by
      by_contra hle
      rw [List.drop_eq_nil_of_le (not_lt.1 hle)] at hdrop
      cases hdrop
    rw [List.length_take, min_eq_left hlen.le]

/-! ## A reading -/

variable (key limit start rows) in
/-- What holds of a reader between two pages; `start` is what the table held when it began, `rows` what it holds. -/
structure Faithful (w : Reader α) : Prop where
  decreasing : w.seen.Pairwise fun a b => key b < key a
  stored : ∀ a ∈ w.seen, a ∈ rows
  above : ∀ c, w.cursor = some c → ∀ a ∈ w.seen, c ≤ key a
  fresh : w.done = false → w.cursor = none → w.seen = [] ∧ w.pages = 0
  covered : ∀ c, w.cursor = some c → ∀ a ∈ start, c ≤ key a → a ∈ w.seen
  complete : w.done = true → ∀ a ∈ start, a ∈ w.seen
  full : limit * w.pages ≤ w.seen.length + if w.done then limit else 0

/-- Nothing is read yet. -/
theorem faithful_begin : Faithful key rows start limit {} where
  decreasing := .nil
  stored _ h := absurd h List.not_mem_nil
  above _ h := absurd h nofun
  fresh _ _ := ⟨rfl, rfl⟩
  covered _ h := absurd h nofun
  complete h := absurd h nofun
  full := Nat.zero_le _

/-- Rows that are added change nothing of what was read. -/
theorem Faithful.grow {w : Reader α} (h : Faithful key rows start limit w) (hrows : rows ⊆ rows') :
    Faithful key rows' start limit w :=
  { h with stored := fun a ha => hrows (h.stored a ha) }

/-- **One more page.** -/
theorem Faithful.turn {w : Reader α} (h : Faithful key rows start limit w) (hdone : w.done = false) (hlimit : 0 < limit)
    (hnodup : (rows.map key).Nodup) (hstart : start ⊆ rows) : Faithful key rows start limit (w.turn key limit rows) := by
  have hbelow : ∀ a ∈ w.seen, ∀ b ∈ page key rows limit w.cursor, key b < key a := fun a ha b hb => by
    cases hc : w.cursor with
    | none => exact absurd ha ((h.fresh hdone hc).1 ▸ List.not_mem_nil)
    | some c =>
      have hle := h.above c hc a ha
      have hlt := (mem_page hb).2 c hc
      omega
  have hnext : ∀ a ∈ start, a ∈ w.seen ++ page key rows limit w.cursor ∨
      (page key rows limit w.cursor).length = limit ∧ ∀ b ∈ page key rows limit w.cursor, key a < key b := fun a ha => by
    by_cases hcovered : ∃ c, w.cursor = some c ∧ c ≤ key a
    · obtain ⟨c, hc, hle⟩ := hcovered
      exact .inl (List.mem_append_left _ (h.covered c hc a ha hle))
    · have hcursor : ∀ c ∈ w.cursor, key a < c := fun c hc => not_le.1 fun hle => hcovered ⟨c, hc, hle⟩
      exact (mem_page_or hnodup (hstart ha) hcursor).imp_left (List.mem_append_right _)
  have hlast : ∀ c, (w.turn key limit rows).cursor = some c → (page key rows limit w.cursor).length = limit ∧
      ∃ b ∈ page key rows limit w.cursor, key b = c ∧ ∀ a ∈ page key rows limit w.cursor, key b ≤ key a := fun c hc => by
    change (if (page key rows limit w.cursor).length = limit then _ else none) = some c at hc
    split_ifs at hc with hfull
    obtain ⟨b, hb, rfl⟩ := Option.map_eq_some_iff.1 hc
    obtain ⟨l, hl⟩ := List.getLast?_eq_some_iff.1 hb
    refine ⟨hfull, b, by rw [hl]; simp, rfl, fun a ha => ?_⟩
    have hdecreasing := page_decreasing limit w.cursor hnodup
    rw [hl] at ha hdecreasing
    rcases List.mem_append.1 ha with ha | ha
    · exact ((List.pairwise_append.1 hdecreasing).2.2 a ha b List.mem_cons_self).le
    · rw [List.mem_singleton.1 ha]
  constructor
  · exact List.pairwise_append.2 ⟨h.decreasing, page_decreasing _ _ hnodup, hbelow⟩
  · intro a ha
    rcases List.mem_append.1 ha with ha | ha
    · exact h.stored a ha
    · exact (mem_page ha).1
  · intro c hc a ha
    obtain ⟨-, b, hb, rfl, hle⟩ := hlast c hc
    rcases List.mem_append.1 ha with ha | ha
    · exact (hbelow a ha b hb).le
    · exact hle a ha
  · intro hnot hnone
    change decide ((page key rows limit w.cursor).length ≠ limit) = false at hnot
    have hfull : (page key rows limit w.cursor).length = limit := by simpa using hnot
    change (if (page key rows limit w.cursor).length = limit then _ else none) = none at hnone
    rw [if_pos hfull, Option.map_eq_none_iff, List.getLast?_eq_none_iff] at hnone
    rw [hnone] at hfull
    exact absurd hfull (by simpa using hlimit.ne)
  · intro c hc a ha hle
    obtain ⟨-, b, hb, rfl, -⟩ := hlast c hc
    refine (hnext a ha).resolve_right fun hout => ?_
    have hlt := hout.2 b hb
    omega
  · intro hshort a ha
    change decide ((page key rows limit w.cursor).length ≠ limit) = true at hshort
    exact (hnext a ha).resolve_right fun hout => absurd hout.1 (of_decide_eq_true hshort)
  · change limit * (w.pages + 1) ≤ (w.seen ++ page key rows limit w.cursor).length +
      if decide ((page key rows limit w.cursor).length ≠ limit) = true then limit else 0
    have hpages := h.full
    rw [hdone] at hpages
    rw [List.length_append, Nat.mul_succ]
    by_cases hfull : (page key rows limit w.cursor).length = limit
    · simp [hfull] at hpages ⊢
      omega
    · simp [hfull] at hpages ⊢
      omega

/-- Rows in falling order of their keys are no more than the first key allows. -/
theorem length_decreasing : ∀ {l : List α}, (l.Pairwise fun a b => key b < key a) → ∀ a ∈ l.head?, l.length ≤ key a + 1
  | [], _, _, ha => by cases ha
  | [a], _, _, _ => by simp
  | a :: b :: l, h, _, rfl => by
    have ih := length_decreasing (List.pairwise_cons.1 h).2 b rfl
    have hlt := (List.pairwise_cons.1 h).1 b List.mem_cons_self
    simp only [List.length_cons] at ih ⊢
    omega

end Keyset
end Atp
