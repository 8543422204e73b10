import AlgoTrading.Dict
/-!
# FirstWrites — a table where the first write of a key makes the row and the later ones only amend it

What an amendment leaves alone is what the first write put there (`written_first`), and what it overwrites is what the last write
put there (`written_last`).
-/
namespace Atp
namespace FirstWrites

variable {κ ρ : Type} [DecidableEq κ] (key : ρ → κ) (amend : ρ → ρ → ρ)

/-- `INSERT … ON CONFLICT (key) DO UPDATE`, of a proposed row. -/
def write (d : Dict κ ρ) (r : ρ) : Dict κ ρ := d.set (key r) (((d.get? (key r)).map fun old => amend old r).getD r)

/-- What a row of a key becomes. -/
def writeRow (old : Option ρ) (r : ρ) : Option ρ := some ((old.map fun o => amend o r).getD r)

variable {key amend} {γ : Type} {l : List ρ} {r row : ρ}

/-- **A key's row is made of the writes of that key.** -/
theorem get?_writes (k : κ) : ∀ (l : List ρ) (d : Dict κ ρ),
    (l.foldl (write key amend) d).get? k = (l.filter fun r => key r = k).foldl (writeRow amend) (d.get? k)
  | [], d => rfl
  | r :: l, d => by
    rw [List.foldl_cons, get?_writes k l, List.filter_cons]
    unfold write
    by_cases h : key r = k
    · subst h
      rw [Dict.get?_set_self, if_pos (decide_eq_true rfl)]
      rfl
    · rw [Dict.get?_set_ne _ _ (Ne.symm h), if_neg (by simpa using h)]

theorem foldl_keeps {π : ρ → γ} (hπ : ∀ o r, π (amend o r) = π o) : ∀ (l : List ρ) (o row : ρ),
    l.foldl (writeRow amend) (some o) = some row → π row = π o
  | [], o, row, h => by
    cases h
    rfl
  | r :: l, o, row, h => (foldl_keeps hπ l (amend o r) row h).trans (hπ o r)

/-- **What an amendment leaves alone is the first write's.** -/
theorem written_first (amend : ρ → ρ → ρ) {π : ρ → γ} (hπ : ∀ o r, π (amend o r) = π o) (h : l.foldl (writeRow amend) none = some row) :
    ∃ first, l.head? = some first ∧ π row = π first := by
  cases l with
  | nil => cases h
  | cons r l => exact ⟨r, rfl, foldl_keeps hπ l r row h⟩

/-- **What it overwrites is the last write's.** -/
theorem written_last (amend : ρ → ρ → ρ) {φ : ρ → γ} (hφ : ∀ o r, φ (amend o r) = φ r) (h : l.foldl (writeRow amend) none = some row) :
    ∃ last, l.getLast? = some last ∧ φ row = φ last := by
  induction l using List.reverseRecOn with
  | nil => cases h
  | append_singleton l r _ =>
    refine ⟨r, List.getLast?_concat, ?_⟩
    rw [List.foldl_append, List.foldl_cons, List.foldl_nil] at h
    unfold writeRow at h
    cases ho : l.foldl (writeRow amend) none with
    | none =>
      unfold writeRow at ho
      rw [ho] at h
      cases h
      rfl
    | some o =>
      unfold writeRow at ho
      rw [ho] at h
      cases h
      exact hφ o r

theorem writes_isSome (amend : ρ → ρ → ρ) (h : l ≠ []) (o : Option ρ) : (l.foldl (writeRow amend) o).isSome := by
  induction l using List.reverseRecOn with
  | nil => exact absurd rfl h
  | append_singleton l r _ =>
    rw [List.foldl_append]
    rfl

end FirstWrites
end Atp
