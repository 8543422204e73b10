import Mathlib.Data.List.Basic
/-!
# TokenPages — a reader that follows a server's pages, trying each of them again

`retry` asks for a page a bounded number of times; `follow` asks for page after page, merging as it goes, until one names no next.
The requests are numbered across both, so that what the server answers may depend on when it is asked.  Where every answer to a
token is its page, what a reading that ends has merged is the chain of pages from the first (`follow_ok`), whatever was tried
again; and a reader that is answered in the end reads the chain to its end (`follow_ends`).
-/
namespace TokenPages

variable {π ε τ α : Type}

/-- What one attempt comes to. -/
inductive Attempt (π ε : Type)
  | again
  | done (answer : Except ε π)

/-- So many attempts, from the `n`-th request on; the request after the last comes with the answer. -/
def retry (ask : ℕ → Attempt π ε) (exhausted : ε) : ℕ → ℕ → Except ε π × ℕ
  | 0, n => (.error exhausted, n)
  | left + 1, n =>
    match ask n with
    | .again => retry ask exhausted left (n + 1)
    | .done answer => (answer, n + 1)

/-- Page after page, so many at most. -/
def follow (ask : Option τ → ℕ → Except ε π × ℕ) (next : π → Option τ) (merge : α → π → α) (runaway : ε) :
    ℕ → Option τ → α → ℕ → Except ε α × ℕ
  | 0, _, _, n => (.error runaway, n)
  | left + 1, token, merged, n =>
    match ask token n with
    | (.error e, m) => (.error e, m)
    | (.ok page, m) =>
      match next page with
      | none => (.ok (merge merged page), m)
      | some t => follow ask next merge runaway left (some t) (merge merged page) m

/-- The pages from a token on, to the first that names no next. -/
inductive Chain (page : Option τ → π) (next : π → Option τ) : Option τ → List π → Prop
  | last {token} (h : next (page token) = none) : Chain page next token [page token]
  | more {token t l} (h : next (page token) = some t) (rest : Chain page next (some t) l) :
      Chain page next token (page token :: l)

section Retry
variable {ask : ℕ → Attempt π ε} {exhausted e : ε} {x : π}

theorem retry_ok : ∀ {left n m : ℕ}, retry ask exhausted left n = (.ok x, m) → ∃ i, n ≤ i ∧ i < m ∧ ask i = .done (.ok x)
  | 0, n, m, h => by simp [retry] at h
  | left + 1, n, m, h => by
    unfold retry at h
    cases hask : ask n with
    | again =>
      rw [hask] at h
      obtain ⟨i, hlow, hhigh, hi⟩ := retry_ok h
      exact ⟨i, by omega, hhigh, hi⟩
    | done answer =>
      simp only [hask, Prod.mk.injEq] at h
      obtain ⟨rfl, rfl⟩ := h
      exact ⟨n, Nat.le_refl n, by omega, hask⟩

theorem retry_error : ∀ {left n m : ℕ}, retry ask exhausted left n = (.error e, m) →
    e = exhausted ∨ ∃ i, ask i = .done (.error e)
  | 0, n, m, h => by
    simp only [retry, Prod.mk.injEq, Except.error.injEq] at h
    exact .inl h.1.symm
  | left + 1, n, m, h => by
    unfold retry at h
    cases hask : ask n with
    | again =>
      rw [hask] at h
      exact retry_error h
    | done answer =>
      simp only [hask, Prod.mk.injEq] at h
      obtain ⟨rfl, -⟩ := h
      exact .inr ⟨n, hask⟩

/-- **An answer within the attempts is found**, when nothing before it puts an end to them. -/
theorem retry_answers : ∀ {j left n : ℕ}, j < left → (∀ i < j, ask (n + i) = .again) → ask (n + j) = .done (.ok x) →
    retry ask exhausted left n = (.ok x, n + j + 1)
  | j, 0, n, hj, _, _ => absurd hj (Nat.not_lt_zero j)
  | 0, left + 1, n, _, _, hx => by
    unfold retry
    rw [show ask n = .done (.ok x) from hx]
  | j + 1, left + 1, n, hj, hagain, hx => by
    unfold retry
    rw [show ask n = .again from hagain 0 (by omega)]
    have hrest := retry_answers (n := n + 1) (by omega : j < left)
      (fun i hi => by rw [Nat.add_assoc, Nat.add_comm 1 i]; exact hagain (i + 1) (by omega))
      (by rw [Nat.add_assoc, Nat.add_comm 1 j]; exact hx)
    rw [show n + (j + 1) + 1 = n + 1 + j + 1 by omega]
    exact hrest

end Retry

section Follow
variable {ask : Option τ → ℕ → Except ε π × ℕ} {next : π → Option τ} {merge : α → π → α} {runaway e : ε} {page : Option τ → π}

/-- There is one chain from a token. -/
theorem Chain.unique {token : Option τ} {l l' : List π} (h : Chain page next token l) (h' : Chain page next token l') : l = l' := by
  induction h generalizing l' with
  | last hnone =>
    cases h' with
    | last => rfl
    | more hsome => rw [hnone] at hsome; cases hsome
  | more hsome _ ih =>
    cases h' with
    | last hnone => rw [hnone] at hsome; cases hsome
    | more hsome' rest' =>
      rw [hsome] at hsome'
      cases hsome'
      rw [ih rest']

variable (page) in
/-- **What a reading that ends has merged is the chain.** -/
theorem follow_ok (hask : ∀ token n p m, ask token n = (.ok p, m) → p = page token) {out : α} :
    ∀ {left : ℕ} {token : Option τ} {merged : α} {n m : ℕ}, follow ask next merge runaway left token merged n = (.ok out, m) →
      ∃ l, Chain page next token l ∧ l.length ≤ left ∧ out = l.foldl merge merged
  | 0, token, merged, n, m, h => by simp [follow] at h
  | left + 1, token, merged, n, m, h => by
    unfold follow at h
    cases hasked : ask token n with
    | mk answer m' =>
      cases answer with
      | error e => simp [hasked] at h
      | ok p =>
        obtain rfl := hask token n p m' hasked
        simp only [hasked] at h
        cases hnext : next (page token) with
        | none =>
          simp only [hnext, Prod.mk.injEq, Except.ok.injEq] at h
          exact ⟨[page token], .last hnext, by simp, h.1.symm⟩
        | some t =>
          simp only [hnext] at h
          obtain ⟨l, hl, hlen, rfl⟩ := follow_ok hask h
          exact ⟨page token :: l, .more hnext hl, by simpa using hlen, rfl⟩

theorem follow_error : ∀ {left : ℕ} {token : Option τ} {merged : α} {n m : ℕ},
    follow ask next merge runaway left token merged n = (.error e, m) → e = runaway ∨ ∃ token n m, ask token n = (.error e, m)
  | 0, token, merged, n, m, h => by
    simp only [follow, Prod.mk.injEq, Except.error.injEq] at h
    exact .inl h.1.symm
  | left + 1, token, merged, n, m, h => by
    unfold follow at h
    cases hasked : ask token n with
    | mk answer m' =>
      cases answer with
      | error e' =>
        simp only [hasked, Prod.mk.injEq, Except.error.injEq] at h
        exact .inr ⟨token, n, m', by rw [hasked, h.1]⟩
      | ok p =>
        simp only [hasked] at h
        cases hnext : next p with
        | none => simp [hnext] at h
        | some t =>
          simp only [hnext] at h
          exact follow_error h

variable (merge runaway) in
/-- **A reader that is always answered in the end reads the chain.** -/
theorem follow_ends (hask : ∀ token n, ∃ m, ask token n = (.ok (page token), m)) {token : Option τ} {l : List π}
    (h : Chain page next token l) : ∀ {left : ℕ} {merged : α} {n : ℕ}, l.length ≤ left →
      ∃ m, follow ask next merge runaway left token merged n = (.ok (l.foldl merge merged), m) := by
  induction h with
  | last hnone =>
    intro left merged n hlen
    cases left with
    | zero => exact absurd hlen (by simp)
    | succ left =>
      rename_i token
      obtain ⟨m, hm⟩ := hask token n
      exact ⟨m, by simp [follow, hm, hnone]⟩
  | more hsome _ ih =>
    intro left merged n hlen
    cases left with
    | zero => exact absurd hlen (by simp)
    | succ left =>
      rename_i token t l _
      obtain ⟨m, hm⟩ := hask token n
      obtain ⟨m', hm'⟩ := @ih left (merge merged (page token)) m (by simpa using hlen)
      exact ⟨m', by simp [follow, hm, hsome, hm']⟩

end Follow

end TokenPages
