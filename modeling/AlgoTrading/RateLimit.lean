import Mathlib.Data.List.Induction
import Mathlib.Data.List.Sort
import AlgoTrading.RiskEngine
import AlgoTrading.Sorting
/-!
# RateLimit — the runaway guard

`RateLimitRule` of `risk/rules.py`, over any sequence of calls at instants that do not decrease.  The deque is trimmed at
its head only; that it holds exactly what was approved in the trailing minute is `Tracks`, and both halves of
`window_holds` read it.
-/
namespace Atp
namespace RateLimit

/-- The trailing minute. -/
def window : ℚ := 60

/-- **`RateLimitRule.check`** at an instant, and the submission times it leaves, oldest first. -/
def check (now : ℚ) (limit : ℕ) (recent : List ℚ) : RiskDecision × List ℚ :=
  let recent := recent.dropWhile fun t => t ≤ now - window
  if limit ≤ recent.length then
    (.deny "rate_limit" [.dec recent.length, .lit " orders in the last minute, at the limit of ", .dec limit], recent)
  else (.allow, recent ++ [now])

/-- The rule's deque, and the instants of the calls it approved. -/
structure Guard where
  recent : List ℚ := []
  approved : List ℚ := []

def Guard.call (limit : ℕ) (g : Guard) (now : ℚ) : Guard where
  recent := (check now limit g.recent).2
  approved := if (check now limit g.recent).1.approved then g.approved ++ [now] else g.approved

def run (limit : ℕ) (calls : List ℚ) : Guard := calls.foldl (Guard.call limit) {}

/-- The instants of a list in the minute up to `t`. -/
def inWindow (t : ℚ) (l : List ℚ) : List ℚ := l.filter fun a => t - window < a ∧ a ≤ t

variable {limit : ℕ} {g : Guard} {last now t : ℚ}

/-- Of instants in order, the head trimmed leaves those past the cutoff. -/
theorem trimmed_eq {cutoff : ℚ} {l : List ℚ} (h : l.Pairwise (· ≤ ·)) :
    l.dropWhile (fun a => a ≤ cutoff) = l.filter fun a => cutoff < a := by
  rw [Sorting.dropWhile_eq_filter (h.imp fun hle => by simpa using hle.trans)]
  refine List.filter_congr fun a _ => ?_
  rw [← decide_not, decide_eq_decide, not_le]

/-- **The deque is what was approved in the minute up to the last call**, and nothing was approved since. -/
structure Tracks (g : Guard) (last : ℚ) : Prop where
  recent : g.recent = g.approved.filter fun a => last - window < a
  upto : ∀ a ∈ g.approved, a ≤ last
  sorted : g.approved.Pairwise (· ≤ ·)

theorem Tracks.trimmed (h : Tracks g last) (hle : last ≤ now) :
    g.recent.dropWhile (fun a => a ≤ now - window) = inWindow now g.approved := by
  rw [trimmed_eq (h.recent ▸ h.sorted.filter _), h.recent, List.filter_filter, inWindow]
  refine List.filter_congr fun a ha => ?_
  have hlast := h.upto a ha
  rw [Bool.eq_iff_iff]
  simp only [Bool.and_eq_true, decide_eq_true_eq]
  constructor
  · exact fun hw => ⟨hw.1, hlast.trans hle⟩
  · exact fun hw => ⟨hw.1, by linarith [hw.1]⟩

/-- What a call answers: a denial where the minute before it is full. -/
theorem Tracks.answers (h : Tracks g last) (hle : last ≤ now) :
    (check now limit g.recent).1.approved = true ↔ (inWindow now g.approved).length < limit := by
  unfold check
  rw [h.trimmed hle]
  dsimp only
  split
  · rename_i hfull
    simpa [RiskDecision.deny] using hfull
  · rename_i hroom
    simpa [RiskDecision.allow] using hroom

theorem Tracks.call (h : Tracks g last) (hle : last ≤ now) : Tracks (g.call limit now) now := by
  have hold : inWindow now g.approved = g.approved.filter fun a => now - window < a := by
    refine List.filter_congr fun a ha => ?_
    simp [(h.upto a ha).trans hle]
  unfold Guard.call check
  rw [h.trimmed hle]
  dsimp only
  split
  · exact ⟨hold, fun a ha => (h.upto a ha).trans hle, h.sorted⟩
  · refine ⟨?_, fun a ha => ?_, ?_⟩
    · have hnow : now - window < now := by
        unfold window
        linarith
      show inWindow now g.approved ++ [now] = (g.approved ++ [now]).filter fun a => now - window < a
      rw [List.filter_append, hold, List.filter_cons_of_pos (by simpa using hnow)]
      rfl
    · obtain ha | ha := List.mem_append.1 ha
      · exact (h.upto a ha).trans hle
      · exact (List.mem_singleton.1 ha).le
    · exact List.pairwise_append.2 ⟨h.sorted, List.pairwise_singleton _ _,
        fun a ha b hb => List.mem_singleton.1 hb ▸ (h.upto a ha).trans hle⟩

/-- **Every minute stays within the limit**: the newest approval in it closed a minute with room, and that minute holds
every older one. -/
theorem Tracks.bounded (h : Tracks g last) (hle : last ≤ now) (hb : ∀ t, (inWindow t g.approved).length ≤ limit) (t : ℚ) :
    (inWindow t (g.call limit now).approved).length ≤ limit := by
  unfold Guard.call
  dsimp only
  split
  · rename_i happroved
    have hroom := (h.answers hle).1 happroved
    unfold inWindow at hb hroom ⊢
    rw [List.filter_append, List.length_append]
    by_cases hnow : t - window < now ∧ now ≤ t
    · have hsub : (g.approved.filter fun a => t - window < a ∧ a ≤ t).length ≤
          (g.approved.filter fun a => now - window < a ∧ a ≤ now).length := by
        rw [← List.countP_eq_length_filter, ← List.countP_eq_length_filter]
        refine List.countP_mono_left fun a ha hin => ?_
        rw [decide_eq_true_eq] at hin ⊢
        exact ⟨by linarith [hin.1], (h.upto a ha).trans hle⟩
      rw [List.filter_cons_of_pos (by simpa using hnow), List.filter_nil, List.length_singleton]
      omega
    · rw [List.filter_cons_of_neg (by simpa using hnow), List.filter_nil, List.length_nil, add_zero]
      exact hb t
  · exact hb t

theorem run_append (limit : ℕ) (pre : List ℚ) (now : ℚ) : run limit (pre ++ [now]) = (run limit pre).call limit now :=
  List.foldl_append

/-- After calls in order, none of them later than `last`. -/
theorem run_tracks (limit : ℕ) {calls : List ℚ} (h : calls.Pairwise (· ≤ ·)) : ∀ {last : ℚ}, (∀ a ∈ calls, a ≤ last) →
    ∃ upto ≤ last, Tracks (run limit calls) upto := by
  induction calls using List.reverseRecOn with
  | nil => exact fun {last} _ => ⟨last, le_rfl, rfl, by simp [run], .nil⟩
  | append_singleton pre now ih =>
    intro last hlast
    obtain ⟨hpre, -, hle⟩ := List.pairwise_append.1 h
    obtain ⟨upto, hupto, htracks⟩ := ih hpre fun a ha => hle a ha now (by simp)
    rw [run_append]
    exact ⟨now, hlast now (by simp), htracks.call hupto⟩

theorem run_bounded (limit : ℕ) {calls : List ℚ} (h : calls.Pairwise (· ≤ ·)) : ∀ t, (inWindow t (run limit calls).approved).length ≤ limit := by
  induction calls using List.reverseRecOn with
  | nil => exact fun t => Nat.zero_le limit
  | append_singleton pre now ih =>
    obtain ⟨hpre, -, hle⟩ := List.pairwise_append.1 h
    obtain ⟨upto, hupto, htracks⟩ := run_tracks limit hpre fun a ha => hle a ha now (by simp)
    rw [run_append]
    exact htracks.bounded hupto (ih hpre)

/-- **The runaway guard holds over every window**: over any run of calls in order, no minute holds more than the limit of
approvals, and a call is refused only where the minute before it holds just as many. -/
theorem window_holds (limit : ℕ) {calls : List ℚ} (h : calls.Pairwise (· ≤ ·)) :
    (∀ t, (inWindow t (run limit calls).approved).length ≤ limit) ∧
      ∀ pre now post, calls = pre ++ now :: post → (check now limit (run limit pre).recent).1.approved = false →
        (inWindow now (run limit pre).approved).length = limit := by
  refine ⟨run_bounded limit h, fun pre now post hsplit hdenied => ?_⟩
  rw [hsplit] at h
  obtain ⟨hpre, -, hle⟩ := List.pairwise_append.1 h
  obtain ⟨upto, hupto, htracks⟩ := run_tracks limit hpre fun a ha => hle a ha now (by simp)
  have hfull := mt (htracks.answers hupto).2 (by rw [hdenied]; simp)
  exact le_antisymm (run_bounded limit hpre now) (not_lt.1 hfull)

/-- Two a minute: the third is refused, and the one a minute after the first is not. -/
theorem window_holds_four : (∀ t, (inWindow t (run 2 [0, 10, 20, 60]).approved).length ≤ 2) ∧
    (run 2 [0, 10, 20, 60]).approved = [0, 10, 60] ∧ (inWindow 20 (run 2 [0, 10]).approved).length = 2 := by
  have hsorted : ([0, 10, 20, 60] : List ℚ).Pairwise (· ≤ ·) := by decide +kernel
  have h := window_holds 2 hsorted
  exact ⟨h.1, by decide +kernel, h.2 [0, 10] 20 [60] rfl (by decide +kernel)⟩

end RateLimit
end Atp
