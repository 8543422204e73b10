import Mathlib.Data.String.Basic
import Mathlib.Algebra.BigOperators.Group.List.Basic
import Mathlib.Tactic.Ring
/-!
# Alerts — what is sent to a phone

`alerts/ports.py`: a severity, a title, a body, the key a transport collapses repeats by, and context.  `joined` is
`sep.join(parts)`, of which the rest needs one thing: how long it is.
-/
namespace Atp

inductive Severity
  | info
  | warning
  | critical
deriving DecidableEq, Repr

def Severity.value : Severity → String
  | .info => "info"
  | .warning => "warning"
  | .critical => "critical"

structure Alert where
  severity : Severity
  title : String
  body : String
  key : String
  context : List (String × String) := []
deriving DecidableEq, Repr

/-- `sep.join(parts)`. -/
def joined (sep : String) : List String → String
  | [] => ""
  | [x] => x
  | x :: y :: l => x ++ sep ++ joined sep (y :: l)

/-- What the parts add up to. -/
def lengths (l : List String) : ℕ := (l.map String.length).sum

theorem joined_length (sep : String) : ∀ l : List String, l ≠ [] →
    (joined sep l).length = lengths l + (l.length - 1) * sep.length
  | [], h => absurd rfl h
  | [x], _ => by simp [joined, lengths]
  | x :: y :: l, _ => by
    have ih := joined_length sep (y :: l) (by simp)
    simp only [joined, String.length_append, ih, lengths, List.map_cons, List.sum_cons, List.length_cons,
      Nat.add_sub_cancel]
    ring

/-- **More parts make a longer text.** -/
theorem joined_longer (sep : String) (hsep : 0 < sep.length) {l m n : List String} (hperm : m.Perm (l ++ n)) (hl : l ≠ [])
    (hn : n ≠ []) : (joined sep l).length < (joined sep m).length := by
  have hm : m ≠ [] := by
    rintro rfl
    exact hl (List.append_eq_nil_iff.1 hperm.nil_eq.symm).1
  have hsum : lengths m = lengths l + lengths n := by
    unfold lengths
    rw [(hperm.map String.length).sum_eq, List.map_append, List.sum_append]
  have hcount : m.length = l.length + n.length := by rw [hperm.length_eq, List.length_append]
  have hlpos := List.length_pos_iff.2 hl
  have hnpos := List.length_pos_iff.2 hn
  rw [joined_length sep l hl, joined_length sep m hm, hsum, hcount]
  have hmul : (l.length - 1) * sep.length < (l.length + n.length - 1) * sep.length :=
    Nat.mul_lt_mul_of_pos_right (by omega) hsep
  omega

end Atp
