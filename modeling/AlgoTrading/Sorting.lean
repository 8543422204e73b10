import Mathlib.Data.List.Sort
/-!
# Sorting — an insertion sort by one comparison, by another, and in two parts

The sort is stable, so a key's tie-breaks that follow the order of the list may be left out of it, and a list of which one
part comes before the other sorts part by part.
-/
namespace Atp
namespace Sorting

variable {α : Type*} (r r' : α → α → Prop) [DecidableRel r] [DecidableRel r']

theorem orderedInsert_congr {a : α} {l : List α} (h : ∀ b ∈ l, r a b ↔ r' a b) : l.orderedInsert r a = l.orderedInsert r' a := by
  induction l with
  | nil => rfl
  | cons b l ih =>
    obtain ⟨hb, hl⟩ := List.forall_mem_cons.1 h
    rw [List.orderedInsert_cons, List.orderedInsert_cons, ih hl]
    exact if_congr hb rfl rfl

/-- **Two comparisons that agree on every pair in list order sort alike.** -/
theorem insertionSort_congr {l : List α} (h : l.Pairwise fun a b => r a b ↔ r' a b) : l.insertionSort r = l.insertionSort r' := by
  induction l with
  | nil => rfl
  | cons a l ih =>
    obtain ⟨ha, hl⟩ := List.pairwise_cons.1 h
    rw [List.insertionSort_cons, List.insertionSort_cons, ih hl]
    exact orderedInsert_congr r r' fun b hb => ha b ((List.mem_insertionSort r').1 hb)

theorem orderedInsert_append_left {a : α} {A B : List α} (h : ∀ b ∈ B, r a b) :
    (A ++ B).orderedInsert r a = A.orderedInsert r a ++ B := by
  induction A with
  | nil =>
    cases B with
    | nil => rfl
    | cons b B => exact List.orderedInsert_cons_of_le r B (h b List.mem_cons_self)
  | cons c A ih =>
    rw [List.cons_append, List.orderedInsert_cons, List.orderedInsert_cons, ih]
    split <;> rfl

theorem orderedInsert_append_right {a : α} {A B : List α} (h : ∀ b ∈ A, ¬r a b) :
    (A ++ B).orderedInsert r a = A ++ B.orderedInsert r a := by
  induction A with
  | nil => rfl
  | cons c A ih =>
    obtain ⟨hc, hA⟩ := List.forall_mem_cons.1 h
    rw [List.cons_append, List.orderedInsert_of_not_le r _ hc, ih hA]
    rfl

/-- **A list of which some come before the others sorts part by part.** -/
theorem insertionSort_parts (p : α → Prop) [DecidablePred p] {l : List α} (h : ∀ a ∈ l, ∀ b ∈ l, p a → ¬p b → r a b ∧ ¬r b a) :
    l.insertionSort r = (l.filter fun a => p a).insertionSort r ++ (l.filter fun a => ¬p a).insertionSort r := by
  induction l with
  | nil => rfl
  | cons a l ih =>
    have hl := ih fun x hx y hy => h x (List.mem_cons_of_mem _ hx) y (List.mem_cons_of_mem _ hy)
    have hmem (q : α → Prop) [DecidablePred q] {b : α} (hb : b ∈ (l.filter fun a => q a).insertionSort r) : b ∈ l ∧ q b := by
      simpa using (List.mem_insertionSort r).1 hb
    rw [List.insertionSort_cons, hl]
    by_cases hp : p a
    · rw [List.filter_cons_of_pos (by simpa using hp), List.filter_cons_of_neg (by simpa using hp), List.insertionSort_cons]
      refine orderedInsert_append_left r fun b hb => ?_
      obtain ⟨hbl, hbp⟩ := hmem (fun a => ¬p a) hb
      exact (h a List.mem_cons_self b (List.mem_cons_of_mem _ hbl) hp hbp).1
    · rw [List.filter_cons_of_neg (by simpa using hp), List.filter_cons_of_pos (by simpa using hp), List.insertionSort_cons]
      refine orderedInsert_append_right r fun b hb => ?_
      obtain ⟨hbl, hbp⟩ := hmem p hb
      exact (h b (List.mem_cons_of_mem _ hbl) a List.mem_cons_self hbp hp).2

/-- **What is dropped from the head of a list is all of it that there is**, when what holds of an element held of those before. -/
theorem dropWhile_eq_filter {p : α → Bool} : ∀ {l : List α}, l.Pairwise (fun a b => p b = true → p a = true) →
    l.dropWhile p = l.filter fun a => !p a
  | [], _ => rfl
  | a :: l, h => by
    obtain ⟨ha, hl⟩ := List.pairwise_cons.1 h
    by_cases hp : p a = true
    · rw [List.dropWhile_cons_of_pos hp, List.filter_cons_of_neg (by simpa using hp), dropWhile_eq_filter hl]
    · rw [List.dropWhile_cons_of_neg hp]
      refine (List.filter_eq_self.2 fun b hb => ?_).symm
      obtain rfl | hb := List.mem_cons.1 hb
      · simpa using hp
      · simpa using mt (ha b hb) hp

end Sorting
end Atp
