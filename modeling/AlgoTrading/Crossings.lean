import Mathlib.Algebra.BigOperators.Group.List.Basic
import Mathlib.Data.List.Induction
import Mathlib.Order.Lattice
import Mathlib.Tactic.Common
/-!
# Crossings — the stays of a running total on one side of zero

A walk adds up dated amounts.  A stay is the time the total spends above zero, or below it, from the amount that took it
there to the one that took it back.  With ascending dates two stays are one and the same exactly when the total turns
twice within a single date (`nodup_stays_iff`).
-/
namespace Atp
namespace Crossings

variable {τ α : Type*} [AddMonoid α]

/-- The total of a list. -/
def level (l : List (τ × α)) : α := (l.map Prod.snd).sum

@[simp] theorem level_nil : level ([] : List (τ × α)) = 0 := rfl

theorem level_append (a b : List (τ × α)) : level (a ++ b) = level a + level b := by
  unfold level
  rw [List.map_append, List.sum_append]

theorem level_concat (l : List (τ × α)) (x : τ × α) : level (l ++ [x]) = level l + x.2 := by
  rw [level_append]
  simp [level]

variable [LinearOrder α]

/-- On one side of zero. -/
def Above (up : Bool) (q : α) : Prop := if up then 0 < q else q < 0

instance (up : Bool) (q : α) : Decidable (Above up q) := by
  unfold Above
  infer_instance

structure Stay (τ : Type*) where
  side : Bool
  opened : τ
  closed : τ
deriving DecidableEq

structure Walk (τ α : Type*) where
  held : α
  opened : τ
  stays : List (Stay τ)

def Walk.step (w : Walk τ α) (x : τ × α) : Walk τ α :=
  let up := decide (0 < w.held)
  { held := w.held + x.2
    opened := if Above up w.held ∧ Above up (w.held + x.2) then w.opened else x.1
    stays := if Above up w.held ∧ ¬Above up (w.held + x.2) then w.stays ++ [⟨up, w.opened, x.1⟩] else w.stays }

def walk (start : τ) (l : List (τ × α)) : Walk τ α := l.foldl Walk.step ⟨0, start, []⟩

variable {start : τ} {l a b c : List (τ × α)} {x : τ × α} {w : Walk τ α} {up : Bool} {t : τ}

theorem not_above_zero (up : Bool) : ¬Above up (0 : α) := by
  cases up
  · exact lt_irrefl _
  · exact lt_irrefl _

theorem Above.side {q : α} (h : Above up q) : decide (0 < q) = up := by
  cases up
  · exact decide_eq_false (lt_asymm h)
  · exact decide_eq_true h

/-! ### One amount -/

theorem step_stays_on (h : Above up w.held) (h' : Above up (w.held + x.2)) :
    (w.step x).opened = w.opened ∧ (w.step x).stays = w.stays := by
  unfold Walk.step
  dsimp only
  rw [h.side]
  exact ⟨if_pos ⟨h, h'⟩, if_neg fun hn => hn.2 h'⟩

theorem step_leaves (h : Above up w.held) (h' : ¬Above up (w.held + x.2)) :
    (w.step x).opened = x.1 ∧ (w.step x).stays = w.stays ++ [⟨up, w.opened, x.1⟩] := by
  unfold Walk.step
  dsimp only
  rw [h.side]
  exact ⟨if_neg fun hboth => h' hboth.2, if_pos ⟨h, h'⟩⟩

theorem step_from_zero (h : w.held = 0) : (w.step x).opened = x.1 ∧ (w.step x).stays = w.stays := by
  unfold Walk.step
  dsimp only
  rw [h]
  exact ⟨if_neg fun hboth => not_above_zero _ hboth.1, if_neg fun hboth => not_above_zero _ hboth.1⟩

/-- An amount that takes the total to a side dates it there, and ends no stay on that side. -/
theorem step_enters (h : ¬Above up w.held) (h' : Above up (w.held + x.2)) :
    (w.step x).opened = x.1 ∧ ∀ s ∈ (w.step x).stays, s.side = up → s ∈ w.stays := by
  unfold Walk.step
  dsimp only
  constructor
  · refine if_neg fun hboth => h ?_
    rw [← hboth.2.side, h'.side] at hboth
    exact hboth.1
  · intro s hs hside
    split at hs
    · rename_i hleft
      rcases List.mem_append.1 hs with hs | hs
      · exact hs
      · rw [List.mem_singleton.1 hs] at hside
        exact absurd (hside ▸ hleft.1) h
    · exact hs

theorem step_grows (w : Walk τ α) (x : τ × α) : ∃ m, (w.step x).stays = w.stays ++ m := by
  unfold Walk.step
  dsimp only
  split
  · exact ⟨_, rfl⟩
  · exact ⟨[], (List.append_nil _).symm⟩

/-! ### Walks -/

theorem walk_concat (start : τ) (l : List (τ × α)) (x : τ × α) : walk start (l ++ [x]) = (walk start l).step x := by
  unfold walk
  rw [List.foldl_append]
  rfl

@[simp] theorem walk_held (start : τ) (l : List (τ × α)) : (walk start l).held = level l := by
  induction l using List.reverseRecOn with
  | nil => rfl
  | append_singleton l x ih =>
    rw [walk_concat, level_concat, ← ih]
    rfl

theorem walk_grows (start : τ) (a b : List (τ × α)) : ∃ m, (walk start (a ++ b)).stays = (walk start a).stays ++ m := by
  induction b using List.reverseRecOn with
  | nil => exact ⟨[], by simp⟩
  | append_singleton b x ih =>
    obtain ⟨m, hm⟩ := ih
    obtain ⟨n, hn⟩ := step_grows (walk start (a ++ b)) x
    exact ⟨m ++ n, by rw [← List.append_assoc, walk_concat, hn, hm, List.append_assoc]⟩

/-- **Where a total that stands on a side came to it.** -/
theorem walk_opened (start : τ) (h : Above up (level l)) : ∃ a x m, l = a ++ x :: m ∧ (walk start l).opened = x.1 ∧
    ¬Above up (level a) ∧ Above up (level (a ++ [x])) ∧ ∀ s ∈ (walk start l).stays, s.side = up → s ∈ (walk start a).stays := by
  induction l using List.reverseRecOn with
  | nil => exact absurd h (not_above_zero up)
  | append_singleton l x ih =>
    have hnow : Above up ((walk start l).held + x.2) := by rwa [walk_held, ← level_concat]
    rw [walk_concat]
    by_cases hwas : Above up (level l)
    · obtain ⟨a, y, m, rfl, hopened, hbefore, hafter, hstays⟩ := ih hwas
      obtain ⟨hsame, hnone⟩ := step_stays_on (w := walk start (a ++ y :: m)) (by rwa [walk_held]) hnow
      refine ⟨a, y, m ++ [x], by simp, hsame.trans hopened, hbefore, hafter, ?_⟩
      rw [hnone]
      exact hstays
    · obtain ⟨hdated, hstays⟩ := step_enters (w := walk start l) (by rwa [walk_held]) hnow
      exact ⟨l, x, [], rfl, hdated, hwas, h, hstays⟩

/-- **Where a stay began**: at the amount that took the total to its side. -/
theorem walk_stays (start : τ) {s : Stay τ} (h : s ∈ (walk start l).stays) : ∃ a x m, l = a ++ x :: m ∧ s.opened = x.1 ∧
    ¬Above s.side (level a) ∧ Above s.side (level (a ++ [x])) ∧ ∃ y ∈ l, s.closed = y.1 := by
  induction l using List.reverseRecOn with
  | nil => cases h
  | append_singleton l x ih =>
    have hold (h : s ∈ (walk start l).stays) : ∃ a y m, l ++ [x] = a ++ y :: m ∧ s.opened = y.1 ∧
        ¬Above s.side (level a) ∧ Above s.side (level (a ++ [y])) ∧ ∃ z ∈ l ++ [x], s.closed = z.1 := by
      obtain ⟨a, y, m, rfl, hopened, hbefore, hafter, z, hz, hclosed⟩ := ih h
      exact ⟨a, y, m ++ [x], by simp, hopened, hbefore, hafter, z, List.mem_append_left _ hz, hclosed⟩
    rw [walk_concat] at h
    by_cases hleft : Above (decide (0 < (walk start l).held)) (walk start l).held ∧
        ¬Above (decide (0 < (walk start l).held)) ((walk start l).held + x.2)
    · rw [(step_leaves hleft.1 hleft.2).2] at h
      rcases List.mem_append.1 h with h | h
      · exact hold h
      · obtain rfl := List.mem_singleton.1 h
        obtain ⟨a, y, m, rfl, hopened, hbefore, hafter, -⟩ := walk_opened start (l := l) (by simpa using hleft.1)
        refine ⟨a, y, m ++ [x], by simp, hopened, ?_, ?_, x, by simp, rfl⟩
        · simpa using hbefore
        · simpa using hafter
    · refine hold ?_
      unfold Walk.step at h
      dsimp only at h
      rwa [if_neg hleft] at h

/-! ### Within a single date -/

theorem opened_within (h : Above up (level a) → (walk start a).opened = t) (hb : ∀ x ∈ b, x.1 = t)
    (hab : Above up (level (a ++ b))) : (walk start (a ++ b)).opened = t := by
  induction b using List.reverseRecOn with
  | nil =>
    rw [List.append_nil] at hab ⊢
    exact h hab
  | append_singleton b x ih =>
    rw [← List.append_assoc] at hab ⊢
    have hnow : Above up ((walk start (a ++ b)).held + x.2) := by rwa [walk_held, ← level_concat]
    rw [walk_concat]
    by_cases hwas : Above up (level (a ++ b))
    · rw [(step_stays_on (by rwa [walk_held]) hnow).1]
      exact ih (fun y hy => hb y (List.mem_append_left _ hy)) hwas
    · rw [(step_enters (by rwa [walk_held]) hnow).1]
      exact hb x (by simp)

/-- A total that stands on a side, and leaves it, within one date, ends a stay of that date. -/
theorem left_within (h : Above up (level a)) (hopened : (walk start a).opened = t) (hb : ∀ x ∈ b, x.1 = t)
    (hab : ¬Above up (level (a ++ b))) : ∃ m, (walk start (a ++ b)).stays = (walk start a).stays ++ m ∧ ⟨up, t, t⟩ ∈ m := by
  induction b using List.reverseRecOn with
  | nil =>
    rw [List.append_nil] at hab
    exact absurd h hab
  | append_singleton b x ih =>
    rw [← List.append_assoc] at hab ⊢
    have hbefore (y : τ × α) (hy : y ∈ b) : y.1 = t := hb y (List.mem_append_left _ hy)
    have hnow : ¬Above up ((walk start (a ++ b)).held + x.2) := by rwa [walk_held, ← level_concat]
    rw [walk_concat]
    by_cases hwas : Above up (level (a ++ b))
    · obtain ⟨m, hm⟩ := walk_grows start a b
      rw [(step_leaves (by rwa [walk_held]) hnow).2, opened_within (fun _ => hopened) hbefore hwas, hb x (by simp), hm]
      exact ⟨m ++ [⟨up, t, t⟩], List.append_assoc _ _ _, by simp⟩
    · obtain ⟨m, hm, hmem⟩ := ih hbefore hwas
      obtain ⟨n, hn⟩ := step_grows (walk start (a ++ b)) x
      exact ⟨m ++ n, by rw [hn, hm, List.append_assoc], List.mem_append_left _ hmem⟩

/-- **The total turns twice within one date**: it comes to a side, leaves it, comes to it again and leaves it again. -/
def TurnsTwice (l : List (τ × α)) : Prop :=
  ∃ up t a b c d e rest, l = a ++ b ++ c ++ d ++ e ++ rest ∧ (∀ x ∈ b ++ c ++ d ++ e, x.1 = t) ∧
    ¬Above up (level a) ∧ Above up (level (a ++ b)) ∧ ¬Above up (level (a ++ b ++ c)) ∧
    Above up (level (a ++ b ++ c ++ d)) ∧ ¬Above up (level (a ++ b ++ c ++ d ++ e))

theorem TurnsTwice.append (h : TurnsTwice l) (m : List (τ × α)) : TurnsTwice (l ++ m) := by
  obtain ⟨up, t, a, b, c, d, e, rest, rfl, h⟩ := h
  exact ⟨up, t, a, b, c, d, e, rest ++ m, by simp, h⟩

/-- Turning twice makes one stay twice. -/
theorem TurnsTwice.not_nodup (start : τ) (h : TurnsTwice l) : ¬(walk start l).stays.Nodup := by
  obtain ⟨up, t, a, b, c, d, e, rest, rfl, ht, ha, hb, hc, hd, he⟩ := h
  have hbt (x : τ × α) (hx : x ∈ b) : x.1 = t := ht x (by simp [hx])
  have hct (x : τ × α) (hx : x ∈ c) : x.1 = t := ht x (by simp [hx])
  have hdt (x : τ × α) (hx : x ∈ d) : x.1 = t := ht x (by simp [hx])
  have het (x : τ × α) (hx : x ∈ e) : x.1 = t := ht x (by simp [hx])
  have hopened : (walk start (a ++ b)).opened = t := opened_within (fun h => absurd h ha) hbt hb
  obtain ⟨m, hm, hfirst⟩ := left_within hb hopened hct hc
  have hagain : (walk start (a ++ b ++ c ++ d)).opened = t := opened_within (fun h => absurd h hc) hdt hd
  obtain ⟨n, hn, hsecond⟩ := left_within hd hagain het he
  obtain ⟨k, hk⟩ := walk_grows start (a ++ b ++ c) d
  obtain ⟨r, hr⟩ := walk_grows start (a ++ b ++ c ++ d ++ e) rest
  rw [hr, hn, hk, hm]
  intro hnodup
  have hapart := (List.nodup_append.1 (List.nodup_append.1 hnodup).1).2.2
  exact hapart _ (by simp [hfirst]) _ hsecond rfl

variable [LinearOrder τ]

/-- A stay made again turned the total twice within its date. -/
theorem turnsTwice_of_again (hl : (l ++ [x]).Pairwise fun y z => y.1 ≤ z.1) (h : Above up (level l))
    (h' : ¬Above up (level (l ++ [x]))) (hmem : ⟨up, (walk start l).opened, x.1⟩ ∈ (walk start l).stays) : TurnsTwice (l ++ [x]) := by
  obtain ⟨a, y, m, rfl, hopened, hbefore, hafter, hstays⟩ := walk_opened start h
  obtain ⟨a', z, m', rfl, hdate, hbefore', hafter', v, hv, hclosed⟩ := walk_stays start (hstays _ hmem rfl)
  dsimp only at hdate hbefore' hafter' hclosed
  rw [hopened] at hdate
  have hsorted : (a' ++ z :: (m' ++ y :: (m ++ [x]))).Pairwise fun v w => v.1 ≤ w.1 := by simpa using hl
  obtain ⟨-, htail, hhead⟩ := List.pairwise_append.1 hsorted
  obtain ⟨hz, htail⟩ := List.pairwise_cons.1 htail
  obtain ⟨-, htail, hmiddle⟩ := List.pairwise_append.1 htail
  obtain ⟨hy, htail⟩ := List.pairwise_cons.1 htail
  obtain ⟨-, -, hlast⟩ := List.pairwise_append.1 htail
  -- the earlier stay had closed by the amount that opened the later one
  have hvy : v.1 ≤ y.1 := by
    rcases List.mem_append.1 hv with hv | hv
    · exact hhead v hv y (by simp)
    · rcases List.mem_cons.1 hv with rfl | hv
      · exact hdate.ge
      · exact hmiddle v hv y (by simp)
  have hyx : y.1 ≤ x.1 := hy x (by simp)
  have hxy : x.1 = y.1 := le_antisymm (hclosed ▸ hvy) hyx
  refine ⟨up, y.1, a', [z], m', [y], m ++ [x], [], by simp, ?_, hbefore', hafter', by simpa using hbefore, by simpa using hafter,
    by simpa using h'⟩
  intro u hu
  simp only [List.mem_append, List.mem_singleton] at hu
  rcases hu with ((rfl | hu) | rfl) | hu | rfl
  · exact hdate.symm
  · exact le_antisymm (hmiddle u hu y (by simp)) (hdate ▸ hz u (by simp [hu]))
  · rfl
  · exact le_antisymm (hxy ▸ hlast u hu x (by simp)) (hy u (by simp [hu]))
  · exact hxy

/-- **The stays are distinct exactly when the total turns twice within no date.** -/
theorem nodup_stays_iff (start : τ) (hl : l.Pairwise fun y z => y.1 ≤ z.1) : (walk start l).stays.Nodup ↔ ¬TurnsTwice l := by
  refine ⟨fun h hturns => hturns.not_nodup start h, ?_⟩
  induction l using List.reverseRecOn with
  | nil => exact fun _ => .nil
  | append_singleton l x ih =>
    intro h
    have hbefore := ih (List.pairwise_append.1 hl).1 fun hturns => h (hturns.append [x])
    rw [walk_concat]
    by_cases hleft : Above (decide (0 < level l)) (level l) ∧ ¬Above (decide (0 < level l)) (level (l ++ [x]))
    · have hnew := hleft.2
      rw [level_concat] at hnew
      obtain ⟨-, hstays⟩ := step_leaves (w := walk start l) (by simpa using hleft.1) (by simpa using hnew)
      rw [hstays]
      refine List.nodup_append.2 ⟨hbefore, List.pairwise_singleton _ _, ?_⟩
      intro s hs s' hs' heq
      rw [List.mem_singleton.1 hs'] at heq
      exact h (turnsTwice_of_again hl hleft.1 hleft.2 (heq ▸ hs))
    · rw [level_concat] at hleft
      unfold Walk.step
      dsimp only
      rwa [walk_held, if_neg hleft]

end Crossings
end Atp
