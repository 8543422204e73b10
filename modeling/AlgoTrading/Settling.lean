import Mathlib.Tactic.Common
/-!
# Settling — every outcome of a check, exactly

`Settles refusal P x`: a computation that may raise either raises what counts as a refusal, or returns what `P` holds of.  Each
rule is an equivalence, so that the condition a whole sequence of checks settles under is read off its steps.
-/
namespace Atp
namespace Settling

variable {ε α β : Type} {refusal : ε → Prop} {P Q : α → Prop} {x : Except ε α}

def Settles (refusal : ε → Prop) (P : α → Prop) (x : Except ε α) : Prop :=
  (∀ e, x = .error e → refusal e) ∧ ∀ a, x = .ok a → P a

theorem settles_ok {a : α} : Settles refusal P (.ok a) ↔ P a := by
  constructor
  · exact fun h => h.2 a rfl
  · intro h
    exact ⟨(fun e he => nomatch he), fun b hb => Except.ok.inj hb ▸ h⟩

theorem settles_pure {a : α} (h : P a) : Settles refusal P (pure a) := settles_ok.2 h

theorem settles_error {e : ε} : Settles refusal P (.error e) ↔ refusal e := by
  constructor
  · exact fun h => h.1 e rfl
  · intro h
    exact ⟨fun d hd => Except.error.inj hd ▸ h, fun a ha => nomatch ha⟩

theorem settles_bind {f : α → Except ε β} {R : β → Prop} :
    Settles refusal R (x >>= f) ↔ Settles refusal (fun a => Settles refusal R (f a)) x := by
  cases x with
  | ok a =>
    rw [settles_ok]
    rfl
  | error e =>
    rw [settles_error]
    exact settles_error

/-- One step that settles, and another whatever it returned. -/
theorem Settles.bind {f : α → Except ε β} {R : β → Prop} (hx : Settles refusal P x) (hf : ∀ a, P a → Settles refusal R (f a)) :
    Settles refusal R (x >>= f) :=
  settles_bind.2 ⟨hx.1, fun a ha => hf a (hx.2 a ha)⟩

theorem settles_congr (h : ∀ a, x = .ok a → (P a ↔ Q a)) : Settles refusal P x ↔ Settles refusal Q x :=
  and_congr_right fun _ => forall_congr' fun a => forall_congr' fun ha => h a ha

/-- A refusal unless a condition holds. -/
theorem settles_unless {c : Prop} [Decidable c] {e : ε} (he : refusal e) :
    Settles refusal P (if c then .error e else x) ↔ (¬c → Settles refusal P x) := by
  by_cases hc : c
  · rw [if_pos hc, settles_error]
    exact iff_of_true he fun h => absurd hc h
  · rw [if_neg hc]
    exact ⟨fun h _ => h, fun h => h hc⟩

end Settling
end Atp
