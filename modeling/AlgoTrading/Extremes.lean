import Mathlib.Data.List.Basic
import Mathlib.Data.List.Induction
import Mathlib.Order.Bounds.Basic
/-!
# Extremes — the best of what a scan has seen

The greatest or the least of a stream, kept as it goes: `best` from a first value, `keep` from perhaps none.
-/
namespace Atp
namespace Extremes

variable {α β : Type*} [LinearOrder α] {up : Bool} {s : Set α} {m x : α}

/-- The greatest of `s`, or the least. -/
def IsBest (up : Bool) (s : Set α) (m : α) : Prop := if up then IsGreatest s m else IsLeast s m

def best (up : Bool) (a b : α) : α := if up then max a b else min a b

/-- `b` is no further out than `a`. -/
def NoBetter (up : Bool) (b a : α) : Prop := if up then b ≤ a else a ≤ b

def keep (up : Bool) : Option α → α → Option α
  | none, x => some x
  | some m, x => some (best up m x)

theorem IsBest.mem (h : IsBest up s m) : m ∈ s := by
  cases up
  · exact And.left h
  · exact And.left h

theorem IsBest.bound (h : IsBest up s m) (hx : x ∈ s) : NoBetter up x m := by
  cases up
  · exact And.right h hx
  · exact And.right h hx

theorem isBest_singleton (up : Bool) (m : α) : IsBest up {m} m := by
  cases up
  · exact isLeast_singleton
  · exact isGreatest_singleton

theorem IsBest.insert (h : IsBest up s m) (x : α) : IsBest up (insert x s) (best up m x) := by
  cases up
  · show IsLeast (Insert.insert x s) (min m x)
    rw [min_comm]
    exact IsLeast.insert x h
  · show IsGreatest (Insert.insert x s) (max m x)
    rw [max_comm]
    exact IsGreatest.insert x h

theorem noBetter_refl (up : Bool) (x : α) : NoBetter up x x := by
  cases up
  · exact le_refl x
  · exact le_refl x

theorem noBetter_best (up : Bool) (m x : α) : NoBetter up m (best up m x) := by
  cases up
  · exact min_le_left m x
  · exact le_max_left m x

/-- The candidate is no better exactly when what was kept stays. -/
theorem best_eq_left (h : NoBetter up x m) : best up m x = m := by
  cases up
  · exact min_eq_left h
  · exact max_eq_left h

theorem best_eq_right (h : ¬NoBetter up x m) : best up m x = x := by
  cases up
  · exact min_eq_right (le_of_not_ge h)
  · exact max_eq_right (le_of_not_ge h)

/-- **A running extreme is the extreme of its first value and of all that came.** -/
theorem isBest_foldl (up : Bool) (a : α) (xs : List α) : IsBest up {x | x = a ∨ x ∈ xs} (xs.foldl (best up) a) := by
  induction xs using List.reverseRecOn with
  | nil => simpa using isBest_singleton up a
  | append_singleton xs x ih =>
    rw [List.foldl_append]
    have hset : {y | y = a ∨ y ∈ xs ++ [x]} = insert x {y | y = a ∨ y ∈ xs} := by
      ext y
      simp only [Set.mem_ofPred_eq, List.mem_append, List.mem_singleton, Set.mem_insert_iff]
      tauto
    rw [hset]
    exact ih.insert x

theorem keep_ne_none (up : Bool) (o : Option α) (x : α) : keep up o x ≠ none := by
  cases o
  · exact Option.some_ne_none _
  · exact Option.some_ne_none _

/-- **The extreme of what was kept before and of all that came**, where there is anything. -/
theorem isBest_foldl_keep (up : Bool) (o : Option α) (xs : List α) :
    (xs.foldl (keep up) o = none ↔ o = none ∧ xs = []) ∧
      ∀ m, xs.foldl (keep up) o = some m → IsBest up {x | o = some x ∨ x ∈ xs} m := by
  induction xs using List.reverseRecOn with
  | nil =>
    refine ⟨by simp, ?_⟩
    rintro m hm
    have ho : o = some m := hm
    have hset : {x | o = some x ∨ x ∈ ([] : List α)} = {m} := by
      ext x
      simp [ho, eq_comm]
    rw [hset]
    exact isBest_singleton up m
  | append_singleton xs x ih =>
    rw [List.foldl_append]
    refine ⟨iff_of_false (keep_ne_none up _ x) (by simp), ?_⟩
    intro m hm
    have hset : {y | o = some y ∨ y ∈ xs ++ [x]} = insert x {y | o = some y ∨ y ∈ xs} := by
      ext y
      simp only [Set.mem_ofPred_eq, List.mem_append, List.mem_singleton, Set.mem_insert_iff]
      tauto
    rw [hset]
    cases hkept : xs.foldl (keep up) o with
    | none =>
      rw [hkept] at hm
      obtain ⟨rfl, rfl⟩ := ih.1.1 hkept
      cases hm
      simpa using isBest_singleton up x
    | some k =>
      rw [hkept] at hm
      cases hm
      exact (ih.2 k hkept).insert x

/-! ### Where the best stands -/

/-- The first place of the best of a list. -/
def argBest (up : Bool) : List α → ℕ
  | [] => 0
  | x :: xs => (x :: xs).idxOf (xs.foldl (best up) x)

/-- **The place of the best holds the best.** -/
theorem argBest_isBest (up : Bool) {xs : List α} (h : xs ≠ []) :
    ∃ m, xs[argBest up xs]? = some m ∧ IsBest up {x | x ∈ xs} m := by
  obtain ⟨x, xs, rfl⟩ := List.exists_cons_of_ne_nil h
  have hbest := isBest_foldl up x xs
  have hmem : xs.foldl (best up) x ∈ x :: xs := by
    rw [List.mem_cons]
    exact hbest.mem
  refine ⟨_, List.getElem?_idxOf hmem, ?_⟩
  have hset : {y | y ∈ x :: xs} = {y | y = x ∨ y ∈ xs} := by
    ext y
    exact List.mem_cons
  rw [hset]
  exact hbest

theorem argBest_lt (up : Bool) {xs : List α} (h : xs ≠ []) : argBest up xs < xs.length := by
  obtain ⟨m, hm, -⟩ := argBest_isBest up h
  exact (List.getElem?_eq_some_iff.1 hm).1

end Extremes
end Atp
