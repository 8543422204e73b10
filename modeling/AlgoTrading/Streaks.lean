import Mathlib.Data.List.SplitBy
/-!
# Streaks — the longest runs of a list that pass a test

`List.splitBy` cuts a list where the answer of the test changes; of its pieces, the streaks are those that pass.
-/
namespace Atp
namespace Streaks

variable {α : Type*} {p : α → Bool} {l m : List α} {a : α}

/-- The longest runs of consecutive members that all pass a test, in order. -/
def streaks (p : α → Bool) (l : List α) : List (List α) := (l.splitBy fun a b => p a == p b).filter fun run => run.all p

/-- Members of one answer are one piece. -/
theorem splitBy_constant {c : Bool} (hne : l ≠ []) (h : ∀ a ∈ l, p a = c) : (l.splitBy fun a b => p a == p b) = [l] := by
  refine List.splitBy_of_isChain hne ?_
  refine (List.pairwise_iff_forall_sublist.2 fun {a b} hab => ?_).isChain
  rw [h a (hab.subset List.mem_cons_self), h b (hab.subset (by simp))]
  exact beq_self_eq_true c

theorem streaks_all (hne : l ≠ []) (h : ∀ a ∈ l, p a = true) : streaks p l = [l] := by
  unfold streaks
  rw [splitBy_constant hne h]
  exact List.filter_eq_self.2 fun run hrun => List.mem_singleton.1 hrun ▸ List.all_eq_true.2 h

/-- Where the answer changes, the list is cut. -/
theorem splitBy_cut {c : Bool} (hne : m ≠ []) (h : ∀ b ∈ m, p b = c) (ha : p a ≠ c) :
    ((m ++ a :: l).splitBy fun a b => p a == p b) = m :: ((a :: l).splitBy fun a b => p a == p b) := by
  rw [List.splitBy_append_cons, splitBy_constant hne h]
  · rfl
  · intro b hb
    rw [h b (List.mem_of_mem_getLast? hb)]
    exact beq_eq_false_iff_ne.2 ha.symm

/-- What fails at the front is no part of a streak. -/
theorem streaks_skip : ∀ {l m : List α}, (∀ a ∈ m, p a = false) → streaks p (m ++ l) = streaks p l
  | l, [], _ => rfl
  | [], b :: m, h => by
    unfold streaks
    rw [List.append_nil, splitBy_constant (List.cons_ne_nil b m) h, List.filter_cons_of_neg (by simp [h b]), List.filter_nil]
    rfl
  | v :: l, b :: m, h => by
    cases hv : p v with
    | true =>
      unfold streaks
      rw [splitBy_cut (List.cons_ne_nil b m) h (by simp [hv]), List.filter_cons_of_neg (by simp [h b])]
    | false =>
      have hfront : ∀ a ∈ b :: m ++ [v], p a = false := by
        intro a ha
        rcases List.mem_append.1 ha with ha | ha
        · exact h a ha
        · rw [List.mem_singleton.1 ha, hv]
      rw [List.append_cons, streaks_skip hfront]
      exact (streaks_skip (m := [v]) fun a ha => List.mem_singleton.1 ha ▸ hv).symm

/-- **A streak ends where the test first fails.** -/
theorem streaks_cut (hne : m ≠ []) (h : ∀ b ∈ m, p b = true) (ha : p a = false) :
    streaks p (m ++ a :: l) = m :: streaks p l := by
  have hrest : streaks p (a :: l) = streaks p l := streaks_skip (m := [a]) fun b hb => List.mem_singleton.1 hb ▸ ha
  rw [← hrest]
  unfold streaks
  rw [splitBy_cut hne h (by simp [ha]), List.filter_cons_of_pos (by simpa using h)]

end Streaks
end Atp
