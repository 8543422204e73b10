import Mathlib.Data.List.Sort
import Mathlib.Order.Basic
/-!
# Ranks — the middle of a list, by counting

What is sorted to a place is known by how many are below it: a downward closed test holds there exactly when more pass it
than stand before the place.
-/
namespace Atp
namespace Ranks

variable {α : Type*} [LinearOrder α] {p : α → Bool}

/-- In an ascending list the members that pass a downward closed test come first. -/
theorem passes_iff (hp : ∀ a b, a ≤ b → p b = true → p a = true) :
    ∀ {l : List α} {k : ℕ} {m : α}, l.Pairwise (· ≤ ·) → l[k]? = some m → (p m = true ↔ k < l.countP p)
  | a :: l, k, m, hl, hm => by
    obtain ⟨ha, hl⟩ := List.pairwise_cons.1 hl
    by_cases hpa : p a = true
    · rw [List.countP_cons_of_pos hpa]
      cases k with
      | zero =>
        cases hm
        exact iff_of_true hpa (by omega)
      | succ k =>
        rw [List.getElem?_cons_succ] at hm
        rw [passes_iff hp hl hm]
        omega
    · have hnone : ∀ b ∈ a :: l, ¬p b = true := by
        intro b hb
        rcases List.mem_cons.1 hb with rfl | hb
        · exact hpa
        · exact fun h => hpa (hp a b (ha b hb) h)
      rw [List.countP_eq_zero.2 hnone]
      exact iff_of_false (hnone m (List.mem_of_getElem? hm)) (by omega)

/-- The member sorted to the middle; of an even number, the later of the two. -/
def middle (l : List α) : Option α := (l.insertionSort (· ≤ ·))[(l.insertionSort (· ≤ ·)).length / 2]?

theorem middle_eq_none {l : List α} : middle l = none ↔ l = [] := by
  unfold middle
  rw [List.getElem?_eq_none_iff, List.length_insertionSort]
  constructor
  · intro h
    exact List.length_eq_zero_iff.1 (by omega)
  · rintro rfl
    simp

/-- **The middle passes a downward closed test exactly when more than half do.** -/
theorem middle_passes {l : List α} {m : α} (h : middle l = some m) (hp : ∀ a b, a ≤ b → p b = true → p a = true) :
    p m = true ↔ l.length / 2 < l.countP p := by
  unfold middle at h
  rw [passes_iff hp (List.pairwise_insertionSort _ l) h, List.length_insertionSort, (List.perm_insertionSort _ l).countP_eq]

theorem middle_le {l : List α} {m : α} (h : middle l = some m) (c : α) : m ≤ c ↔ l.length / 2 < l.countP fun a => a ≤ c := by
  have hiff := middle_passes (p := fun a => decide (a ≤ c)) h fun a b hab hb => decide_eq_true (hab.trans (of_decide_eq_true hb))
  rw [← hiff, decide_eq_true_eq]

theorem le_middle {l : List α} {m : α} (h : middle l = some m) (c : α) : c ≤ m ↔ l.countP (fun a => a < c) ≤ l.length / 2 := by
  have hiff := middle_passes (p := fun a => decide (a < c)) h fun a b hab hb => decide_eq_true (hab.trans_lt (of_decide_eq_true hb))
  rw [← not_lt, ← not_lt, ← hiff, decide_eq_true_eq]

end Ranks
end Atp
