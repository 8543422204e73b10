import Mathlib.Tactic.Cases
import Mathlib.Tactic.Common
/-!
# Raising — imperative programs whose state survives a raise

A call of an imperative method either returns or raises, and in both cases the object it was called on is left in some
state: a raise does not roll anything back.  `Prog σ ε α` is that reading, `σ → Except ε α × σ`, spelled with the core
monad transformers so that `do` blocks, `get`, `modify`, `throw` and `try` are available.  `Triple P x Q E` is its
total-correctness triple, with one postcondition for a return and one for a raise; the rules below take a `do` block
apart statement by statement, and nothing that uses them has to unfold the transformers.
-/
namespace Atp
namespace Raising

/-- **A program over the state `σ` that may raise `ε`**: the state at the raise is kept. -/
abbrev Prog (σ ε : Type) := ExceptT ε (StateM σ)

variable {σ τ ε α β : Type}

/-- The outcome of a program from a state: what it returned or raised, and the state it left. -/
def exec (x : Prog σ ε α) (s : σ) : Except ε α × σ := x.run.run s

@[simp] theorem exec_pure (a : α) (s : σ) : exec (pure a : Prog σ ε α) s = (.ok a, s) := rfl

@[simp] theorem exec_throw (e : ε) (s : σ) : exec (throw e : Prog σ ε α) s = (.error e, s) := rfl

@[simp] theorem exec_get (s : σ) : exec (get : Prog σ ε σ) s = (.ok s, s) := rfl

@[simp] theorem exec_set (t s : σ) : exec (set t : Prog σ ε PUnit) s = (.ok ⟨⟩, t) := rfl

@[simp] theorem exec_modify (f : σ → σ) (s : σ) : exec (modify f : Prog σ ε PUnit) s = (.ok ⟨⟩, f s) := rfl

theorem exec_bind (x : Prog σ ε α) (f : α → Prog σ ε β) (s : σ) :
    exec (x >>= f) s = match exec x s with
      | (.ok a, t) => exec (f a) t
      | (.error e, t) => (.error e, t) := by
  unfold exec
  simp only [ExceptT.run_bind, StateT.run_bind]
  rcases (ExceptT.run x).run s with ⟨r, t⟩
  cases r <;> rfl

@[simp] theorem exec_map (g : α → β) (x : Prog σ ε α) (s : σ) :
    exec (g <$> x) s = match exec x s with
      | (.ok a, t) => (.ok (g a), t)
      | (.error e, t) => (.error e, t) := by
  rw [← bind_pure_comp, exec_bind]
  rfl

/-- A pure computation that may raise, run as a program: it touches no state. -/
def fromExcept (x : Except ε α) : Prog σ ε α :=
  match x with
  | .ok a => pure a
  | .error e => throw e

@[simp] theorem exec_fromExcept (x : Except ε α) (s : σ) : exec (fromExcept x : Prog σ ε α) s = (x, s) := by
  cases x <;> rfl

/-- A program run for its outcome: what it raised is handed on as a value, which is how a `try` reads it. -/
def tried (x : Prog σ ε α) : Prog σ ε (Except ε α) := fun s => ((.ok (exec x s).1), (exec x s).2)

@[simp] theorem exec_tried (x : Prog σ ε α) (s : σ) : exec (tried x) s = (.ok (exec x s).1, (exec x s).2) := rfl

/-- A program on one part of the state: the rest is left alone, at a raise too. -/
def within (view : σ → τ) (put : σ → τ → σ) (x : Prog τ ε α) : Prog σ ε α :=
  fun s => ((exec x (view s)).1, put s (exec x (view s)).2)

@[simp] theorem exec_within (view : σ → τ) (put : σ → τ → σ) (x : Prog τ ε α) (s : σ) :
    exec (within view put x) s = ((exec x (view s)).1, put s (exec x (view s)).2) := rfl

/-! ## Triples -/

/-- **From a state in `P`, a return lands in `Q` and a raise in `E`.** -/
def Triple (P : σ → Prop) (x : Prog σ ε α) (Q : α → σ → Prop) (E : ε → σ → Prop) : Prop :=
  ∀ s, P s → match exec x s with
    | (.ok a, t) => Q a t
    | (.error e, t) => E e t

/-- What a return leaves holds. -/
def After (P : σ → Prop) : Except ε α × σ → Prop
  | (.ok _, t) => P t
  | (.error _, _) => True

instance (P : σ → Prop) [DecidablePred P] : (x : Except ε α × σ) → Decidable (After P x)
  | (.ok _, t) => inferInstanceAs (Decidable (P t))
  | (.error _, _) => .isTrue trivial

/-- **Every pass of a loop meets a condition** on the state before it. -/
def Along (f : β → Prog σ ε PUnit) (G : σ → β → Prop) : List β → σ → Prop
  | [], _ => True
  | b :: l, s => G s b ∧ After (Along f G l) (exec (f b) s)

instance decidableAlong (f : β → Prog σ ε PUnit) (G : σ → β → Prop) [∀ s b, Decidable (G s b)] :
    (l : List β) → DecidablePred (Along f G l)
  | [], _ => .isTrue trivial
  | b :: l, s =>
    have : DecidablePred (Along f G l) := decidableAlong f G l
    inferInstanceAs (Decidable (G s b ∧ After (Along f G l) (exec (f b) s)))

section Rules

variable {P P' : σ → Prop} {Q Q' : α → σ → Prop} {R : β → σ → Prop} {E E' : ε → σ → Prop}

theorem triple_pure (a : α) (h : ∀ s, P s → Q a s) : Triple P (pure a : Prog σ ε α) Q E := h

theorem triple_throw (e : ε) (h : ∀ s, P s → E e s) : Triple P (throw e : Prog σ ε α) Q E := h

theorem triple_set {Q : PUnit → σ → Prop} (t : σ) (h : ∀ s, P s → Q ⟨⟩ t) : Triple P (set t : Prog σ ε PUnit) Q E := h

theorem triple_modify {Q : PUnit → σ → Prop} (f : σ → σ) (h : ∀ s, P s → Q ⟨⟩ (f s)) :
    Triple P (modify f : Prog σ ε PUnit) Q E := h

theorem triple_fromExcept (x : Except ε α) (hok : ∀ a, x = .ok a → ∀ s, P s → Q a s)
    (herr : ∀ e, x = .error e → ∀ s, P s → E e s) : Triple P (fromExcept x : Prog σ ε α) Q E := by
  intro s hs
  rw [exec_fromExcept]
  cases x with
  | ok a => exact hok a rfl s hs
  | error e => exact herr e rfl s hs

/-- Statement after statement, through the assertion between them. -/
theorem triple_bind {x : Prog σ ε β} {f : β → Prog σ ε α} (hx : Triple P x R E) (hf : ∀ b, Triple (R b) (f b) Q E) :
    Triple P (x >>= f) Q E := by
  intro s hs
  have h := hx s hs
  rw [exec_bind]
  rcases hr : exec x s with ⟨r, t⟩
  rw [hr] at h
  cases r with
  | error e => exact h
  | ok b => exact hf b t h

/-- A program that reads the state first is judged at each state it may read. -/
theorem triple_get_bind {f : σ → Prog σ ε α} (h : ∀ r, P r → Triple (fun s => s = r) (f r) Q E) :
    Triple P (get >>= f) Q E := by
  intro s hs
  rw [exec_bind, exec_get]
  exact h s hs s rfl

/-- A triple is judged at each state its precondition admits. -/
theorem triple_at {x : Prog σ ε α} (h : ∀ r, P r → Triple (fun s => s = r) x Q E) : Triple P x Q E :=
  fun s hs => h s hs s rfl

/-- A triple at one of the states its precondition admits. -/
theorem triple_from {x : Prog σ ε α} (hx : Triple P x Q E) {r : σ} (hr : P r) : Triple (fun s => s = r) x Q E := by
  rintro s rfl
  exact hx s hr

/-- What a program does from one state, as its own assertion. -/
theorem triple_exec (x : Prog σ ε α) (r : σ) :
    Triple (fun s => s = r) x (fun a t => exec x r = (.ok a, t)) (fun e t => exec x r = (.error e, t)) := by
  rintro s rfl
  rcases exec x s with ⟨_ | a, t⟩ <;> rfl

theorem triple_conseq {x : Prog σ ε α} (hx : Triple P' x Q' E') (hp : ∀ s, P s → P' s)
    (hq : ∀ a s, Q' a s → Q a s) (he : ∀ e s, E' e s → E e s) : Triple P x Q E := by
  intro s hs
  have h := hx s (hp s hs)
  rcases hr : exec x s with ⟨r, t⟩
  rw [hr] at h
  cases r with
  | error e => exact he e t h
  | ok a => exact hq a t h

/-- Two triples of one program hold together. -/
theorem triple_and {x : Prog σ ε α} (hx : Triple P x Q E) (hy : Triple P' x Q' E') :
    Triple (fun s => P s ∧ P' s) x (fun a s => Q a s ∧ Q' a s) (fun e s => E e s ∧ E' e s) := by
  intro s hs
  have h := hx s hs.1
  have h' := hy s hs.2
  rcases hr : exec x s with ⟨_ | a, t⟩ <;> rw [hr] at h h' <;> exact ⟨h, h'⟩

theorem triple_ite {c : Prop} [Decidable c] {x y : Prog σ ε α} (hx : c → Triple P x Q E) (hy : ¬c → Triple P y Q E) :
    Triple P (if c then x else y) Q E := by
  split
  · rename_i h
    exact hx h
  · rename_i h
    exact hy h

/-- **A loop keeps what each of its passes keeps.** -/
theorem triple_forM {I : σ → Prop} {f : β → Prog σ ε PUnit} : ∀ (l : List β),
    (∀ b ∈ l, Triple I (f b) (fun _ => I) E) → Triple I (l.forM f) (fun _ => I) E
  | [], _ => fun _ hs => hs
  | b :: l, h => by
    show Triple I (f b >>= fun _ => l.forM f) (fun _ => I) E
    exact triple_bind (h b (by simp)) (fun _ => triple_forM l (fun b' hb' => h b' (by simp [hb'])))

theorem triple_along {I : σ → Prop} {G : σ → β → Prop} {f : β → Prog σ ε PUnit}
    (h : ∀ b, Triple (fun s => I s ∧ G s b) (f b) (fun _ => I) E) : ∀ l : List β,
    Triple (fun s => I s ∧ Along f G l s) (l.forM f) (fun _ => I) E
  | [] => fun _ hs => hs.1
  | b :: l => by
    rintro s ⟨hI, hG, hafter⟩
    have hb := h b s ⟨hI, hG⟩
    have hloop : (b :: l).forM f = f b >>= fun _ => l.forM f := rfl
    rw [hloop, exec_bind]
    rcases hr : exec (f b) s with ⟨_ | _, t⟩ <;> rw [hr] at hb hafter
    · exact hb
    · exact triple_along h l t ⟨hb, hafter⟩

theorem triple_tried {x : Prog σ ε α} {Q : Except ε α → σ → Prop}
    (hx : Triple P x (fun a => Q (.ok a)) (fun e => Q (.error e))) : Triple P (tried x) Q E := by
  intro s hs
  have h := hx s hs
  rw [exec_tried]
  rcases hr : exec x s with ⟨r, t⟩
  rw [hr] at h
  cases r <;> exact h

/-- A program on one part of the state is judged on that part. -/
theorem triple_within {view : σ → τ} {put : σ → τ → σ} {x : Prog τ ε α}
    (hx : ∀ s, P s → Triple (fun t => t = view s) x (fun a t => Q a (put s t)) (fun e t => E e (put s t))) :
    Triple P (within view put x) Q E := by
  intro s hs
  have h := hx s hs (view s) rfl
  rw [exec_within]
  rcases hr : exec x (view s) with ⟨r, t⟩
  rw [hr] at h
  cases r <;> exact h

/-- Where a program returns. -/
theorem triple_ok {x : Prog σ ε α} (hx : Triple P x Q E) {s t : σ} {a : α} (hs : P s) (h : exec x s = (.ok a, t)) : Q a t := by
  have hq := hx s hs
  rwa [h] at hq

/-- What a return and a raise both leave holds of the state left. -/
theorem triple_left {x : Prog σ ε α} {Q : σ → Prop} (hx : Triple P x (fun _ => Q) (fun _ => Q)) {s : σ} (hs : P s) :
    Q (exec x s).2 := by
  have h := hx s hs
  rcases hr : exec x s with ⟨r, t⟩
  rw [hr] at h
  cases r <;> exact h

end Rules

/-! ## What a program keeps -/

/-- **`I` survives the program**, returned or raised. -/
def Keeps (I : σ → Prop) (x : Prog σ ε α) : Prop := Triple I x (fun _ => I) (fun _ => I)

section Keeping

variable {I : σ → Prop}

theorem keeps_pure (a : α) : Keeps I (pure a : Prog σ ε α) := fun _ h => h

theorem keeps_throw (e : ε) : Keeps I (throw e : Prog σ ε α) := fun _ h => h

theorem keeps_get : Keeps I (get : Prog σ ε σ) := fun _ h => h

theorem keeps_modify {f : σ → σ} (h : ∀ s, I s → I (f s)) : Keeps I (modify f : Prog σ ε PUnit) := h

theorem keeps_fromExcept (x : Except ε α) : Keeps I (fromExcept x : Prog σ ε α) :=
  triple_fromExcept x (fun _ _ _ h => h) (fun _ _ _ h => h)

theorem keeps_bind {x : Prog σ ε β} {f : β → Prog σ ε α} (hx : Keeps I x) (hf : ∀ b, Keeps I (f b)) :
    Keeps I (x >>= f) := triple_bind hx hf

theorem keeps_ite {c : Prop} [Decidable c] {x y : Prog σ ε α} (hx : Keeps I x) (hy : Keeps I y) :
    Keeps I (if c then x else y) := triple_ite (fun _ => hx) (fun _ => hy)

/-- A statement that is run or not, before the rest. -/
theorem keeps_when {c : Prop} [Decidable c] {x : Prog σ ε β} {y : Prog σ ε α} (hx : Keeps I x) (hy : Keeps I y) :
    Keeps I (if c then x >>= fun _ => y else y) := keeps_ite (keeps_bind hx fun _ => hy) hy

theorem keeps_tried {x : Prog σ ε α} (hx : Keeps I x) : Keeps I (tried x) := triple_tried hx

/-- A program on one part of the state keeps what does not look at that part. -/
theorem keeps_within {view : σ → τ} {put : σ → τ → σ} (x : Prog τ ε α) (h : ∀ s t, I s → I (put s t)) :
    Keeps I (within view put x) := fun s hs => by
  rw [exec_within]
  rcases exec x (view s) with ⟨_ | a, t⟩ <;> exact h s t hs

end Keeping

/-! ## Two programs -/

/-- **From any state in `I` the two programs do the same, and stay in `I`.** -/
def Alike (I : σ → Prop) (x y : Prog σ ε α) : Prop := ∀ s, I s → exec x s = exec y s ∧ I (exec x s).2

section Likeness

variable {I : σ → Prop}

theorem alike_of_keeps {x : Prog σ ε α} (h : Keeps I x) : Alike I x x := fun _ hs => ⟨rfl, triple_left h hs⟩

theorem alike_bind {x y : Prog σ ε β} {f g : β → Prog σ ε α} (hx : Alike I x y) (hf : ∀ b, Alike I (f b) (g b)) :
    Alike I (x >>= f) (y >>= g) := by
  intro s hs
  obtain ⟨heq, hI⟩ := hx s hs
  rw [exec_bind, exec_bind, ← heq]
  rcases hr : exec x s with ⟨_ | b, t⟩ <;> rw [hr] at hI
  · exact ⟨rfl, hI⟩
  · exact hf b t hI

theorem alike_fromExcept_bind {x : Except ε β} {f g : β → Prog σ ε α} (h : ∀ b, x = .ok b → Alike I (f b) (g b)) :
    Alike I (fromExcept x >>= f) (fromExcept x >>= g) := by
  intro s hs
  rw [exec_bind, exec_bind, exec_fromExcept]
  cases x with
  | error e => exact ⟨rfl, hs⟩
  | ok b => exact h b rfl s hs

theorem alike_ite {c : Prop} [Decidable c] {x y z w : Prog σ ε α} (hx : Alike I x z) (hy : Alike I y w) :
    Alike I (if c then x else y) (if c then z else w) := by
  split
  · exact hx
  · exact hy

theorem alike_forM {f g : β → Prog σ ε PUnit} : ∀ (l : List β), (∀ b ∈ l, Alike I (f b) (g b)) →
    Alike I (l.forM f) (l.forM g)
  | [], _ => alike_of_keeps (keeps_pure _)
  | b :: l, h => by
    show Alike I (f b >>= fun _ => l.forM f) (g b >>= fun _ => l.forM g)
    exact alike_bind (h b (by simp)) (fun _ => alike_forM l (fun b' hb' => h b' (by simp [hb'])))

end Likeness

end Raising
end Atp
