import Mathlib.Data.Finset.Card
import Mathlib.Data.List.Induction
import Mathlib.Tactic.Linarith
/-!
# Intervals — the length of a union of intervals, by one sweep

Half-open intervals of whole ticks.  What a list of them covers is a set; the sweep merges them in the order they start,
and the length it adds up is the size of that set.
-/
namespace Atp
namespace Intervals

/-- The ticks from one to before another. -/
def ticks (a b : ℤ) : Finset ℤ := (Finset.range (b - a).toNat).image fun k : ℕ => a + (k : ℤ)

/-- The ticks some interval of the list holds. -/
def cover : List (ℤ × ℤ) → Finset ℤ
  | [] => ∅
  | i :: l => ticks i.1 i.2 ∪ cover l

def len (i : ℤ × ℤ) : ℤ := i.2 - i.1

/-- One interval of the sweep: it extends the run it meets, or closes that run and opens the next. -/
def sweepStep (acc : ℤ × Option (ℤ × ℤ)) (i : ℤ × ℤ) : ℤ × Option (ℤ × ℤ) :=
  match acc.2 with
  | none => (acc.1, some i)
  | some run => if i.1 ≤ run.2 then (acc.1, some (run.1, max run.2 i.2)) else (acc.1 + len run, some i)

/-- **The sweep**: the length of the runs that closed, and of the one still open. -/
def sweep (l : List (ℤ × ℤ)) : ℤ :=
  let acc := l.foldl sweepStep (0, none)
  acc.1 + acc.2.elim 0 len

@[simp] theorem mem_ticks {a b k : ℤ} : k ∈ ticks a b ↔ a ≤ k ∧ k < b := by
  unfold ticks
  rw [Finset.mem_image]
  constructor
  · rintro ⟨n, hn, rfl⟩
    rw [Finset.mem_range] at hn
    omega
  · rintro ⟨hle, hlt⟩
    exact ⟨(k - a).toNat, Finset.mem_range.2 (by omega), by omega⟩

theorem card_ticks {a b : ℤ} (h : a ≤ b) : ((ticks a b).card : ℤ) = b - a := by
  unfold ticks
  rw [Finset.card_image_of_injective _ fun m n hmn => by omega, Finset.card_range]
  omega

theorem mem_cover {l : List (ℤ × ℤ)} {k : ℤ} : k ∈ cover l ↔ ∃ i ∈ l, i.1 ≤ k ∧ k < i.2 := by
  induction l with
  | nil => simp [cover]
  | cons i l ih => simp [cover, ih]

theorem cover_congr {l l' : List (ℤ × ℤ)} (h : ∀ i, i.1 < i.2 → (i ∈ l ↔ i ∈ l')) : cover l = cover l' := by
  ext k
  rw [mem_cover, mem_cover]
  constructor
  · rintro ⟨i, hi, hk⟩
    exact ⟨i, (h i (by omega)).1 hi, hk⟩
  · rintro ⟨i, hi, hk⟩
    exact ⟨i, (h i (by omega)).2 hi, hk⟩

/-- **What the sweep has in hand**: a run that starts before every interval to come. -/
theorem sweep_from (l : List (ℤ × ℤ)) (n : ℤ) (run : ℤ × ℤ) (hrun : run.1 ≤ run.2)
    (hl : (run :: l).Pairwise fun i j => i.1 ≤ j.1) (hlen : ∀ i ∈ l, i.1 ≤ i.2) :
    (l.foldl sweepStep (n, some run)).1 + (l.foldl sweepStep (n, some run)).2.elim 0 len =
      n + (cover (run :: l)).card := by
  induction l generalizing n run with
  | nil =>
    show n + len run = n + ((ticks run.1 run.2 ∪ ∅).card : ℤ)
    rw [Finset.union_empty, card_ticks hrun]
    rfl
  | cons i l ih =>
    obtain ⟨hi, hrest⟩ := List.forall_mem_cons.1 hlen
    obtain ⟨hfirst, hsorted⟩ := List.pairwise_cons.1 hl
    have hstart := hfirst i List.mem_cons_self
    rw [List.foldl_cons]
    by_cases hmeets : i.1 ≤ run.2
    · have hstep : sweepStep (n, some run) i = (n, some (run.1, max run.2 i.2)) := if_pos hmeets
      rw [hstep, ih n (run.1, max run.2 i.2) (hrun.trans (le_max_left _ _)) ?_ hrest]
      · -- the two intervals are one
        have hunion : cover ((run.1, max run.2 i.2) :: l) = cover (run :: i :: l) := by
          ext k
          simp only [cover, Finset.mem_union, mem_ticks, lt_max_iff]
          by_cases hk : k ∈ cover l
          · simp [hk]
          · simp only [hk, or_false]
            omega
        rw [hunion]
      · exact List.pairwise_cons.2 ⟨fun j hj => hfirst j (List.mem_cons_of_mem _ hj), (List.pairwise_cons.1 hsorted).2⟩
    · have hstep : sweepStep (n, some run) i = (n + len run, some i) := if_neg hmeets
      rw [hstep, ih (n + len run) i hi hsorted hrest]
      -- all that is to come starts after the run has ended
      have hdisjoint : Disjoint (ticks run.1 run.2) (cover (i :: l)) := by
        rw [Finset.disjoint_left]
        intro k hk hk'
        obtain ⟨j, hj, hjk, -⟩ := mem_cover.1 hk'
        have hij : i.1 ≤ j.1 := by
          rcases List.mem_cons.1 hj with rfl | hj
          · exact le_rfl
          · exact (List.pairwise_cons.1 hsorted).1 j hj
        have := (mem_ticks.1 hk).2
        omega
      have hcard : ((cover (run :: i :: l)).card : ℤ) = len run + (cover (i :: l)).card := by
        show ((ticks run.1 run.2 ∪ cover (i :: l)).card : ℤ) = _
        rw [Finset.card_union_of_disjoint hdisjoint]
        push_cast
        rw [card_ticks hrun]
        rfl
      rw [hcard, add_assoc]

/-- **The sweep measures the union**, of intervals in the order they start. -/
theorem sweep_eq {l : List (ℤ × ℤ)} (hl : l.Pairwise fun i j => i.1 ≤ j.1) (hlen : ∀ i ∈ l, i.1 ≤ i.2) :
    sweep l = (cover l).card := by
  cases l with
  | nil => rfl
  | cons i l =>
    obtain ⟨hi, hrest⟩ := List.forall_mem_cons.1 hlen
    have h := sweep_from l 0 i hi hl hrest
    rw [zero_add] at h
    exact h

/-- **The size of a union is its size inside a window exactly when it does not leave the window**, and its size is capped
at the window's exactly when it fills it. -/
theorem capped_card_iff (u w : Finset ℤ) : min u.card w.card = (u ∩ w).card ↔ u ⊆ w ∨ w ⊆ u := by
  constructor
  · intro h
    rcases le_total u.card w.card with hle | hle
    · rw [min_eq_left hle] at h
      exact .inl (Finset.inter_eq_left.1 (Finset.eq_of_subset_of_card_le Finset.inter_subset_left h.le))
    · rw [min_eq_right hle] at h
      exact .inr (Finset.inter_eq_right.1 (Finset.eq_of_subset_of_card_le Finset.inter_subset_right h.le))
  · rintro (h | h)
    · rw [Finset.inter_eq_left.2 h, min_eq_left (Finset.card_le_card h)]
    · rw [Finset.inter_eq_right.2 h, min_eq_right (Finset.card_le_card h)]

end Intervals
end Atp
