import Mathlib.Data.Rat.Sqrt
import AlgoTrading.RuleSets
import AlgoTrading.IndicatorTails
/-!
# RuleWindows — what an evaluation reads, against the whole visible history

The memo of a walk is faithful (`triple_value`): it answers what `_compute` answers over the window, whichever reads came
before, and a verdict is the tree's three-valued meaning over those values (`walk_meaning`).  The window holds what every
operand needs (`window_covers`); whether what it leaves out matters is the indicator's question.
-/
namespace Atp
namespace Rules

open Raising Backtest

/-! ## Legs -/

/-- What compiling lets through: an indicator that is known, with a period of its own. -/
def Operand.Runnable : Operand → Prop
  | .indicator i => i.indicator ∈ Dispatch.knownIndicators ∧ ∃ p : ℕ, 1 ≤ p ∧ i.period = some (p : ℤ)
  | _ => True

/-- One read of a walk: an operand, so many bars before the current one. -/
abbrev Leg := Operand × ℕ

def Condition.legs (c : Condition) : List Leg :=
  [(c.left, 0), (c.right, 0)] ++ if c.op.isCrossing then [(c.left, 1), (c.right, 1)] else []

mutual
def ConditionNode.legs : ConditionNode → List Leg
  | .condition c => c.legs
  | .group _ children => legsAll children

def legsAll : List ConditionNode → List Leg
  | [] => []
  | node :: rest => node.legs ++ legsAll rest
end

theorem mem_legsAll {leg : Leg} : ∀ {nodes : List ConditionNode}, leg ∈ legsAll nodes ↔ ∃ node ∈ nodes, leg ∈ node.legs
  | [] => by simp [legsAll]
  | node :: rest => by simp [legsAll, @mem_legsAll leg rest]

theorem Condition.mem_legs {c : Condition} {leg : Leg} (h : leg ∈ c.legs) :
    (leg.1 = c.left ∨ leg.1 = c.right) ∧ leg.2 ≤ if c.op.isCrossing then 1 else 0 := by
  unfold Condition.legs at h
  split at h
  · simp only [List.cons_append, List.nil_append, List.mem_cons, List.not_mem_nil, or_false] at h
    obtain rfl | rfl | rfl | rfl := h <;> simp_all
  · simp only [List.append_nil, List.mem_cons, List.not_mem_nil, or_false] at h
    obtain rfl | rfl := h <;> simp

/-! ## Compiling -/

theorem refuseOperand_ok {site : String} {o : Operand} (h : refuseOperand site o = .ok ()) : o.Runnable := by
  cases o with
  | indicator i =>
    unfold refuseOperand at h
    dsimp only at h
    split_ifs at h with hname hperiod
    refine ⟨hname, ?_⟩
    cases hp : i.period with
    | none => simp [hp] at hperiod
    | some p =>
      have hp1 : 1 ≤ p := by simpa [hp] using hperiod
      exact ⟨p.toNat, by omega, by rw [Int.toNat_of_nonneg (by omega)]⟩
  | price => trivial
  | constant => trivial

mutual
theorem refuseNode_ok {site : String} : ∀ {node : ConditionNode}, refuseNode site node = .ok () →
    ∀ leg ∈ node.legs, refuseOperand site leg.1 = .ok ()
  | .condition c, h, leg, hleg => by
    obtain ⟨⟨⟩, hl, hr⟩ := ok_of_bind h
    obtain ⟨heq | heq, -⟩ := Condition.mem_legs hleg <;> rw [heq]
    · exact hl
    · exact hr
  | .group _ [], h, _, _ => by cases h
  | .group _ (child :: children), h, leg, hleg => by
    obtain ⟨⟨⟩, hc, hcs⟩ := ok_of_bind h
    obtain hleg | hleg := List.mem_append.1 hleg
    · exact refuseNode_ok hc leg hleg
    · exact refuseNodes_ok hcs leg hleg

theorem refuseNodes_ok {site : String} : ∀ {nodes : List ConditionNode}, refuseNodes site nodes = .ok () →
    ∀ leg ∈ legsAll nodes, refuseOperand site leg.1 = .ok ()
  | [], _, _, hleg => by cases hleg
  | node :: rest, h, leg, hleg => by
    obtain ⟨⟨⟩, hn, hr⟩ := ok_of_bind h
    obtain hleg | hleg := List.mem_append.1 hleg
    · exact refuseNode_ok hn leg hleg
    · exact refuseNodes_ok hr leg hleg
end

/-- A need that covers a read: its operand's bars and how far back it reads. -/
def Covers (n : ℕ) (leg : Leg) : Prop := ∃ m, operandBars leg.1 = .ok m ∧ m + leg.2 ≤ n

theorem Covers.mono {n n' : ℕ} {leg : Leg} (h : Covers n leg) (hn : n ≤ n') : Covers n' leg := by
  obtain ⟨m, hm, hle⟩ := h
  exact ⟨m, hm, hle.trans hn⟩

mutual
theorem barsNeeded_covers : ∀ {node : ConditionNode} {n : ℕ}, barsNeeded node = .ok n → ∀ leg ∈ node.legs, Covers n leg
  | .condition c, n, h, leg, hleg => by
    obtain ⟨l, hl, h⟩ := ok_of_bind h
    obtain ⟨r, hr, h⟩ := ok_of_bind h
    cases h
    obtain ⟨heq, hback⟩ := Condition.mem_legs hleg
    obtain heq | heq := heq
    · exact ⟨l, by rw [heq, hl], Nat.add_le_add (le_max_left _ _) hback⟩
    · exact ⟨r, by rw [heq, hr], Nat.add_le_add (le_max_right _ _) hback⟩
  | .group _ children, n, h, leg, hleg => barsNeededAll_covers h leg hleg

theorem barsNeededAll_covers : ∀ {nodes : List ConditionNode} {n : ℕ}, barsNeededAll nodes = .ok n →
    ∀ leg ∈ legsAll nodes, Covers n leg
  | [], _, _, _, hleg => by cases hleg
  | node :: rest, n, h, leg, hleg => by
    obtain ⟨here, hh, h⟩ := ok_of_bind h
    obtain ⟨there, ht, h⟩ := ok_of_bind h
    cases h
    obtain hleg | hleg := List.mem_append.1 hleg
    · exact (barsNeeded_covers hh leg hleg).mono (le_max_left _ _)
    · exact (barsNeededAll_covers ht leg hleg).mono (le_max_right _ _)
end

theorem le_foldl_max (f : ℤ → ℕ) : ∀ (l : List ℤ) (n : ℕ), n ≤ l.foldl (fun n p => max n (f p)) n
  | [], _ => le_rfl
  | p :: l, n => (le_max_left n (f p)).trans (le_foldl_max f l _)

/-- **The window of a compiled rule set holds what every read of its trees needs**, and every operand can run. -/
theorem window_covers {spec : RuleSet} {x : RuleSetStrategy} (h : compileRuleset spec = .ok x) :
    x.spec = spec ∧ 1 ≤ x.window ∧ ∀ leg ∈ legsAll spec.trees, leg.1.Runnable ∧ Covers x.window leg := by
  obtain ⟨⟨⟩, hrefuse, h⟩ := ok_of_bind h
  obtain ⟨warmup, hwarm, h⟩ := ok_of_bind h
  cases h
  obtain ⟨needed, hneeded, hwarm⟩ := ok_of_bind hwarm
  cases hwarm
  obtain ⟨⟨⟩, hlong, hrefuse⟩ := ok_of_bind hrefuse
  obtain ⟨⟨⟩, hshort, hrefuse⟩ := ok_of_bind hrefuse
  obtain ⟨⟨⟩, hexit, -⟩ := ok_of_bind hrefuse
  refine ⟨rfl, le_max_right _ _, fun leg hleg => ⟨?_, ?_⟩⟩
  · obtain ⟨node, hnode, hleg⟩ := mem_legsAll.1 hleg
    simp only [RuleSet.trees, List.mem_append] at hnode
    obtain (hnode | hnode) | hnode := hnode
    · exact refuseOperand_ok (refuseNodes_ok hlong leg (mem_legsAll.2 ⟨node, hnode, hleg⟩))
    · exact refuseOperand_ok (refuseNodes_ok hshort leg (mem_legsAll.2 ⟨node, hnode, hleg⟩))
    · exact refuseOperand_ok (refuseNodes_ok hexit leg (mem_legsAll.2 ⟨node, hnode, hleg⟩))
  · exact (barsNeededAll_covers hneeded leg hleg).mono ((le_foldl_max _ _ _).trans (le_max_left _ _))

/-! ## The memo -/

section
variable (sqrt : ℚ → ℚ) (bars : List Bar)

/-- What `_compute` answers, a raise read as no value. -/
def operandValue (o : Operand) (back : ℕ) : Option ℚ := (computeOperand sqrt bars o back).toOption.join

/-- **A memo that remembers what was computed.** -/
def Faithful (w : Evaluation) : Prop :=
  ∀ o : Operand, o.Runnable → ∀ back found, w.memo.get? (label o, back) = some found →
    computeOperand sqrt bars o back = .ok found

end

/-- Operands of one label are one computation: the label holds everything that changes the number. -/
theorem label_inj {o o' : Operand} (ho : o.Runnable) (ho' : o'.Runnable) (h : label o = label o') (sqrt : ℚ → ℚ)
    (bars : List Bar) (back : ℕ) : computeOperand sqrt bars o back = computeOperand sqrt bars o' back := by
  have hback {m n : ℕ} (h : label.back m = label.back n) : m = n := by
    unfold label.back at h
    split_ifs at h with hm hn <;> simp at h <;> omega
  cases o with
  | constant v =>
    cases o' with
    | constant v' => simpa [label, computeOperand] using h
    | indicator i => simp [label] at h
    | price f n => simp [label] at h
  | price f n =>
    cases o' with
    | constant v' => simp [label] at h
    | indicator i =>
      unfold label label.back at h
      dsimp only at h
      split_ifs at h <;> simp at h
    | price f' n' =>
      simp only [label, List.cons_append, List.nil_append, List.cons.injEq, Piece.lit.injEq] at h
      have hf : f = f' := by
        have h := h.1
        cases f <;> cases f' <;> simp [PriceField.value] at h ⊢
      rw [hf, hback h.2]
  | indicator i =>
    cases o' with
    | constant v' => simp [label] at h
    | price f n =>
      unfold label label.back at h
      dsimp only at h
      split_ifs at h <;> simp at h
    | indicator i' =>
      obtain ⟨-, p, -, hp⟩ := ho
      obtain ⟨-, p', -, hp'⟩ := ho'
      simp only [label, hp, hp', Option.getD_some, List.cons_append, List.nil_append, List.cons.injEq, Piece.lit.injEq,
        Piece.dec.injEq, true_and] at h
      obtain ⟨hname, hperiod, hoff⟩ := h
      have hperiod : (p : ℤ) = p' := by exact_mod_cast hperiod
      rw [computeOperand, computeOperand, hname, hback hoff, IndicatorOperand.periodOr0, IndicatorOperand.periodOr0, hp, hp',
        hperiod]

section
variable {sqrt : ℚ → ℚ} {bars : List Bar}

theorem computeOperand_runnable {o : Operand} (h : o.Runnable) (back : ℕ) :
    computeOperand sqrt bars o back = .ok (operandValue sqrt bars o back) := by
  have hok : ∃ v, computeOperand sqrt bars o back = .ok v := by
    cases o with
    | constant v => exact ⟨_, rfl⟩
    | price f n => exact ⟨_, rfl⟩
    | indicator i =>
      rw [computeOperand]
      split
      · exact ⟨_, rfl⟩
      · exact Dispatch.compute_total h.1 _ _ _
  obtain ⟨v, hv⟩ := hok
  rw [operandValue, hv]
  rfl

theorem faithful_empty : Faithful sqrt bars {} := fun _ _ _ _ h => by cases h

theorem faithful_traced {w : Evaluation} (h : Faithful sqrt bars w) (o : Operand) (back : ℕ) (found : Option ℚ) :
    Faithful sqrt bars (traced o back found w) := by
  unfold traced
  split <;> exact h

theorem faithful_memo {w : Evaluation} (h : Faithful sqrt bars w) {o : Operand} (ho : o.Runnable) {back : ℕ} {found : Option ℚ}
    (hf : computeOperand sqrt bars o back = .ok found) :
    Faithful sqrt bars { w with memo := w.memo.set (label o, back) found } := by
  intro o' ho' back' found' hget
  rw [Dict.get?_set] at hget
  split at hget
  · rename_i heq
    obtain ⟨hlabel, rfl⟩ := Prod.mk.injEq .. ▸ heq
    cases hget
    rw [label_inj ho' ho hlabel, hf]
  · exact h o' ho' back' found' hget

/-- From any faithful memo the program returns `v`, and the memo stays faithful. -/
def Answers {α : Type} (sqrt : ℚ → ℚ) (bars : List Bar) (x : Prog Evaluation Exc α) (v : α) : Prop :=
  Triple (Faithful sqrt bars) x (fun a w => a = v ∧ Faithful sqrt bars w) (fun _ _ => False)

theorem answers_pure {α : Type} (v : α) : Answers sqrt bars (pure v) v := triple_pure v fun _ h => ⟨rfl, h⟩

theorem answers_bind {α β : Type} {x : Prog Evaluation Exc α} {f : α → Prog Evaluation Exc β} {a : α} {v : β}
    (hx : Answers sqrt bars x a) (hf : Answers sqrt bars (f a) v) : Answers sqrt bars (x >>= f) v := by
  apply triple_bind hx
  rintro _ w ⟨rfl, hw⟩
  exact hf w hw

/-- **A read answers what `_compute` answers**, whichever reads came before it. -/
theorem answers_value {o : Operand} (ho : o.Runnable) (back : ℕ) :
    Answers sqrt bars (value sqrt bars o back) (operandValue sqrt bars o back) := by
  unfold value
  apply triple_get_bind
  intro w hw
  have hcomp : computeOperand sqrt bars o back = .ok (operandValue sqrt bars o back) := computeOperand_runnable ho back
  cases hget : w.memo.get? (label o, back) with
  | some found =>
    have hfound : found = operandValue sqrt bars o back := by simpa [hcomp] using (hw o ho back found hget).symm
    apply triple_bind (R := fun _ => Faithful sqrt bars)
    · rintro _ rfl
      exact faithful_traced hw o back found
    · intro _
      exact triple_pure _ fun _ hs => ⟨hfound, hs⟩
  | none =>
    rw [hcomp]
    rintro _ rfl
    exact ⟨rfl, faithful_traced (faithful_memo hw ho hcomp) o back _⟩

end

/-! ## The meaning of a tree -/

/-- `_compare`, over values already read. -/
def Condition.meaning (read : Operand → ℕ → Option ℚ) (c : Condition) : Option Bool :=
  match read c.left 0, read c.right 0 with
  | some l, some r =>
    if c.op.isCrossing then
      match read c.left 1, read c.right 1 with
      | some wl, some wr => some (crossed c.op wl wr l r)
      | _, _ => none
    else some (c.op.holds l r)
  | _, _ => none

mutual
/-- **What a tree says of the values of its operands**: three-valued, and without a memo. -/
def ConditionNode.meaning (read : Operand → ℕ → Option ℚ) : ConditionNode → Option Bool
  | .condition c => c.meaning read
  | .group kind children => groupVerdict kind (meanings read children)

def meanings (read : Operand → ℕ → Option ℚ) : List ConditionNode → List (Option Bool)
  | [] => []
  | node :: rest => node.meaning read :: meanings read rest
end

section
variable {sqrt : ℚ → ℚ} {bars : List Bar}

theorem answers_compare {c : Condition} (hl : c.left.Runnable) (hr : c.right.Runnable) :
    Answers sqrt bars (compare sqrt bars c) (c.meaning (operandValue sqrt bars)) := by
  unfold compare Condition.meaning
  apply answers_bind (answers_value hl 0)
  apply answers_bind (answers_value hr 0)
  rcases operandValue sqrt bars c.left 0 with _ | l
  · exact answers_pure _
  rcases operandValue sqrt bars c.right 0 with _ | r
  · exact answers_pure _
  dsimp only
  split
  · apply answers_bind (answers_value hl 1)
    apply answers_bind (answers_value hr 1)
    rcases operandValue sqrt bars c.left 1 with _ | wl
    · exact answers_pure _
    · rcases operandValue sqrt bars c.right 1 with _ | wr <;> exact answers_pure _
  · exact answers_pure _

mutual
theorem answers_verdict : ∀ {node : ConditionNode}, (∀ leg ∈ node.legs, leg.1.Runnable) →
    Answers sqrt bars (verdict sqrt bars node) (node.meaning (operandValue sqrt bars))
  | .condition c, h => by
    rw [verdict, ConditionNode.meaning]
    exact answers_compare (h (c.left, 0) (by simp [ConditionNode.legs, Condition.legs]))
      (h (c.right, 0) (by simp [ConditionNode.legs, Condition.legs]))
  | .group kind children, h => by
    rw [verdict, ConditionNode.meaning]
    exact answers_bind (answers_verdicts h) (answers_pure _)

theorem answers_verdicts : ∀ {nodes : List ConditionNode}, (∀ leg ∈ legsAll nodes, leg.1.Runnable) →
    Answers sqrt bars (verdicts sqrt bars nodes) (meanings (operandValue sqrt bars) nodes)
  | [], _ => by
    rw [verdicts, meanings]
    exact answers_pure _
  | node :: rest, h => by
    rw [verdicts, meanings]
    apply answers_bind (answers_verdict fun leg hleg => h leg (List.mem_append_left _ hleg))
    exact answers_bind (answers_verdicts fun leg hleg => h leg (List.mem_append_right _ hleg)) (answers_pure _)
end

/-- **A walk's verdict is its tree's meaning** over the values of the window: the memo only saves work. -/
theorem walk_meaning {tree : ConditionNode} (h : ∀ leg ∈ tree.legs, leg.1.Runnable) :
    walk sqrt bars tree = .ok (tree.meaning (operandValue sqrt bars)) := by
  have hverdict : Answers sqrt bars (verdict sqrt bars tree) (tree.meaning (operandValue sqrt bars)) := answers_verdict h
  have hrun := hverdict {} faithful_empty
  rw [walk]
  rcases hr : exec (verdict sqrt bars tree) {} with ⟨_ | v, w⟩ <;> rw [hr] at hrun
  · exact hrun.elim
  · rw [hrun.1]

/-! ## The window -/

theorem history_some {visible : List Bar} {window : ℕ} (hw : 1 ≤ window) (h : history visible window = some bars) :
    window ≤ visible.length ∧ bars = visible.drop (visible.length - window) := by
  unfold history at h
  split at h
  · cases h
  · rename_i hlen
    cases h
    exact ⟨by omega, by rw [Ta.lastSlice, if_neg (by omega)]⟩

theorem cutBack_eq {back : ℕ} {l : List Bar} (h : back ≤ l.length) : cutBack back l = l.take (l.length - back) := if_pos h

/-- Cut from the back, the window is still the end of the history cut from the back. -/
theorem cutBack_window {visible : List Bar} {window : ℕ} (back : ℕ) (hlen : window ≤ visible.length) (hback : back ≤ window) :
    cutBack back (visible.drop (visible.length - window)) = (cutBack back visible).drop (visible.length - window) ∧
      ((cutBack back visible).drop (visible.length - window)).length = window - back := by
  have hdrop : (visible.drop (visible.length - window)).length = window := by
    rw [List.length_drop]
    omega
  rw [cutBack_eq (by omega), cutBack_eq (by omega), hdrop, List.drop_take]
  constructor
  · congr 1
    omega
  · rw [List.length_take, hdrop]
    omega

end

/-! ## Reading the indicator one names -/

/-- The bars of one symbol at one timeframe, oldest first. -/
structure Series (symbol : String) (timeframe : Timeframe) (bars : List Bar) : Prop where
  named : ∀ b ∈ bars, b.symbol = symbol ∧ b.timeframe = timeframe
  ordered : bars.Pairwise fun a b => a.ts < b.ts

def readLeg (sqrt : ℚ → ℚ) (bars : List Bar) (leg : Leg) : Prog Evaluation Exc PUnit := do
  let _ ← value sqrt bars leg.1 leg.2
  return ⟨⟩

/-- The evaluation after some reads of a tree's operands. -/
def Reached (sqrt : ℚ → ℚ) (bars : List Bar) (tree : ConditionNode) (w : Evaluation) : Prop :=
  ∃ reads : List Leg, (∀ leg ∈ reads, leg ∈ tree.legs) ∧ (exec (reads.forM (readLeg sqrt bars)) {}).2 = w

/-- **At this bar every indicator is read as named**: wherever a walk of a tree has got to, reading an indicator operand
answers its value over the whole visible history. -/
def ReadsAsNamed (sqrt : ℚ → ℚ) (x : RuleSetStrategy) (visible : List Bar) : Prop :=
  ∀ bars, history visible x.window = some bars → ∀ tree ∈ x.spec.trees, ∀ w, Reached sqrt bars tree w →
    ∀ i back, (Operand.indicator i, back) ∈ tree.legs →
      (exec (value sqrt bars (.indicator i) back) w).1 =
        Dispatch.compute sqrt i.indicator (cutBack (i.offset + back) visible) i.periodOr0

/-- The indicator operands of a rule set's trees. -/
def RuleSet.Reads (spec : RuleSet) (i : IndicatorOperand) : Prop := ∃ back, (Operand.indicator i, back) ∈ legsAll spec.trees

theorem faithful_reached {sqrt : ℚ → ℚ} {bars : List Bar} {tree : ConditionNode} (h : ∀ leg ∈ tree.legs, leg.1.Runnable)
    {w : Evaluation} (hw : Reached sqrt bars tree w) : Faithful sqrt bars w := by
  obtain ⟨reads, hreads, rfl⟩ := hw
  have hloop : Keeps (Faithful sqrt bars) (reads.forM (readLeg sqrt bars)) := by
    apply triple_forM reads
    intro leg hleg
    have hvalue : Keeps (Faithful sqrt bars) (value sqrt bars leg.1 leg.2) :=
      triple_conseq (answers_value (h leg (hreads leg hleg)) leg.2) (fun _ h => h) (fun _ _ h => h.2) fun _ _ h => h.elim
    exact keeps_bind hvalue fun _ => keeps_pure _
  exact triple_left hloop faithful_empty

/-- A read anywhere in a walk is a computation over the window. -/
theorem read_eq {sqrt : ℚ → ℚ} {bars : List Bar} {tree : ConditionNode} (h : ∀ leg ∈ tree.legs, leg.1.Runnable)
    {w : Evaluation} (hw : Reached sqrt bars tree w) {leg : Leg} (hleg : leg ∈ tree.legs) :
    (exec (value sqrt bars leg.1 leg.2) w).1 = computeOperand sqrt bars leg.1 leg.2 := by
  have hread := answers_value (h leg hleg) leg.2 w (faithful_reached h hw)
  rw [computeOperand_runnable (h leg hleg)]
  rcases hr : exec (value sqrt bars leg.1 leg.2) w with ⟨_ | v, t⟩ <;> rw [hr] at hread
  · exact hread.elim
  · rw [hread.1]

theorem periodOr0_pos {i : IndicatorOperand} (h : (Operand.indicator i).Runnable) : 1 ≤ i.periodOr0 := by
  obtain ⟨-, p, hp, hperiod⟩ := h
  rw [IndicatorOperand.periodOr0, hperiod, Option.getD_some, Int.toNat_natCast]
  exact hp

theorem minBars_pos {name : String} {period n : ℕ} (h : Dispatch.minBars name period = .ok n) (hp : 1 ≤ period) : 1 ≤ n := by
  obtain ⟨-, rfl⟩ | ⟨-, rfl⟩ := Dispatch.minBars_cases h <;> omega

/-- What reading a compiled indicator operand answers: its value over the window, which its shortest series fits. -/
theorem read_in_window {sqrt : ℚ → ℚ} {spec : RuleSet} {x : RuleSetStrategy} (hx : compileRuleset spec = .ok x)
    {tree : ConditionNode} (htree : tree ∈ spec.trees) {i : IndicatorOperand} {back : ℕ}
    (hleg : (Operand.indicator i, back) ∈ tree.legs) {visible bars : List Bar} (hbars : history visible x.window = some bars)
    {w : Evaluation} (hw : Reached sqrt bars tree w) :
    ∃ n, Dispatch.minBars i.indicator i.periodOr0 = .ok n ∧ 1 ≤ i.periodOr0 ∧ n + (i.offset + back) ≤ x.window ∧
      (exec (value sqrt bars (.indicator i) back) w).1 =
        Dispatch.compute sqrt i.indicator ((cutBack (i.offset + back) visible).drop (visible.length - x.window)) i.periodOr0 := by
  obtain ⟨-, hwindow, hcovers⟩ := window_covers hx
  have hrun : ∀ leg ∈ tree.legs, leg.1.Runnable := fun leg hleg => (hcovers leg (mem_legsAll.2 ⟨tree, htree, hleg⟩)).1
  obtain ⟨hi, m, hm, hle⟩ := hcovers _ (mem_legsAll.2 ⟨tree, htree, hleg⟩)
  obtain ⟨n, hn, hm⟩ := ok_of_bind hm
  cases hm
  have hle : n + i.offset + back ≤ x.window := hle
  obtain ⟨hlen, rfl⟩ := history_some hwindow hbars
  have hp := periodOr0_pos hi
  have hn1 := minBars_pos hn hp
  obtain ⟨hcut, hlen'⟩ := cutBack_window (i.offset + back) hlen (by omega)
  refine ⟨n, hn, hp, by omega, ?_⟩
  rw [read_eq hrun hw hleg, computeOperand, hcut, if_neg]
  intro hnil
  rw [hnil, List.length_nil] at hlen'
  omega

/-! ## The history that tells -/

/-- The `i`-th bar of a symbol that does not move. -/
def flatBar (symbol : String) (timeframe : Timeframe) (i : ℕ) (price : ℚ) : Bar where
  symbol := symbol
  ts := i * timeframe.seconds
  timeframe := timeframe
  «open» := price
  high := price
  low := price
  close := price
  volume := 0
  openInside := flat_inside price
  closeInside := flat_inside price

/-- A first bar at two, and `n` more at one. -/
def spiked (symbol : String) (timeframe : Timeframe) (n : ℕ) : List Bar :=
  flatBar symbol timeframe 0 2 :: (List.range n).map fun i => flatBar symbol timeframe (i + 1) 1

theorem seconds_pos (timeframe : Timeframe) : 0 < timeframe.seconds := by
  cases timeframe <;> decide

theorem series_spiked (symbol : String) (timeframe : Timeframe) (n : ℕ) :
    Series symbol timeframe (spiked symbol timeframe n) := by
  have hpos := seconds_pos timeframe
  constructor
  · intro b hb
    obtain rfl | hb := List.mem_cons.1 hb
    · exact ⟨rfl, rfl⟩
    · obtain ⟨i, -, rfl⟩ := List.mem_map.1 hb
      exact ⟨rfl, rfl⟩
  · rw [spiked, List.pairwise_cons]
    constructor
    · intro b hb
      obtain ⟨i, -, rfl⟩ := List.mem_map.1 hb
      simp only [flatBar]
      push_cast
      nlinarith
    · rw [List.pairwise_map]
      apply List.pairwise_lt_range.imp
      intro i j hij
      simp only [flatBar]
      push_cast
      nlinarith

theorem cutBack_spiked (symbol : String) (timeframe : Timeframe) {n back : ℕ} (h : back ≤ n) :
    ∃ l : List Bar, cutBack back (spiked symbol timeframe n) = flatBar symbol timeframe 0 2 :: l ∧ l.length = n - back ∧
      ∀ b ∈ l, Ta.FlatAt 1 b := by
  have hlen : (spiked symbol timeframe n).length = n + 1 := by simp [spiked]
  refine ⟨((List.range n).map fun i => flatBar symbol timeframe (i + 1) 1).take (n - back), ?_, ?_, fun b hb => ?_⟩
  · rw [cutBack_eq (by omega), hlen, spiked, Nat.sub_add_comm h, List.take_succ_cons]
  · simp
  · obtain ⟨i, -, rfl⟩ := List.mem_map.1 (List.mem_of_mem_take hb)
    exact ⟨rfl, rfl, rfl⟩

/-- An operand that remembers its seed is misread once a bar has left the window. -/
theorem spiked_misread {sqrt : ℚ → ℚ} {spec : RuleSet} {x : RuleSetStrategy} (hx : compileRuleset spec = .ok x) {n : ℕ}
    (hn : x.window ≤ n) {i : IndicatorOperand} (hi : spec.Reads i) (htail : ¬Dispatch.ReadsTail i.indicator i.periodOr0)
    (symbol : String) : ¬ReadsAsNamed sqrt x (spiked symbol spec.timeframe n) := by
  intro h
  obtain ⟨hspec, hwindow, -⟩ := window_covers hx
  obtain ⟨back, hleg⟩ := hi
  obtain ⟨tree, htree, hleg⟩ := mem_legsAll.1 hleg
  have hlen : (spiked symbol spec.timeframe n).length = n + 1 := by simp [spiked]
  have hhist : history (spiked symbol spec.timeframe n) x.window =
      some (Ta.lastSlice x.window (spiked symbol spec.timeframe n)) := if_neg (by omega)
  have hstart : Reached sqrt (Ta.lastSlice x.window (spiked symbol spec.timeframe n)) tree {} := ⟨[], by simp, rfl⟩
  obtain ⟨k, hk, hp, hfit, hwin⟩ := read_in_window hx htree hleg hhist hstart
  have hfull := h _ hhist tree (hspec.symm ▸ htree) {} hstart i back hleg
  obtain ⟨-, hcut⟩ := cutBack_window (i.offset + back) (show x.window ≤ (spiked symbol spec.timeframe n).length by omega)
    (by omega)
  obtain ⟨l, hl, hll, hflat⟩ := cutBack_spiked symbol spec.timeframe (show i.offset + back ≤ n by omega)
  rw [hwin, hl] at hfull
  rw [hl] at hcut
  have hdrop : ∀ b ∈ (flatBar symbol spec.timeframe 0 2 :: l).drop ((spiked symbol spec.timeframe n).length - x.window),
      Ta.FlatAt 1 b := by
    obtain ⟨d, hd⟩ : ∃ d, (spiked symbol spec.timeframe n).length - x.window = d + 1 :=
      Nat.exists_eq_add_of_le' (by omega)
    intro b hb
    rw [hd, List.drop_succ_cons] at hb
    exact hflat b (List.mem_of_mem_drop hb)
  refine Dispatch.compute_spike ⟨?_, ?_, ?_⟩ hflat hdrop hk hp htail (by omega) (by omega) hfull <;>
    simp only [flatBar] <;> norm_num

/-- **With `n` bars visible, a rule set reads the indicators it names, whatever the history, exactly when its window
leaves none of them out or every indicator operand reads only the last bars.** -/
theorem reads_as_named_iff (sqrt : ℚ → ℚ) {spec : RuleSet} {x : RuleSetStrategy} (hx : compileRuleset spec = .ok x) (n : ℕ) :
    (∀ symbol visible, Series symbol spec.timeframe visible → visible.length = n → ReadsAsNamed sqrt x visible) ↔
      n ≤ x.window ∨ ∀ i, spec.Reads i → Dispatch.ReadsTail i.indicator i.periodOr0 := by
  obtain ⟨hspec, hwindow, -⟩ := window_covers hx
  constructor
  · intro h
    by_contra hcon
    obtain ⟨hn, hcon⟩ := not_or.1 hcon
    obtain ⟨i, hi⟩ := not_forall.1 hcon
    obtain ⟨hi, htail⟩ := Classical.not_imp.1 hi
    obtain ⟨m, rfl⟩ : ∃ m, n = m + 1 := Nat.exists_eq_add_of_le' (by omega)
    exact spiked_misread hx (by omega) hi htail "SPY"
      (h "SPY" _ (series_spiked "SPY" spec.timeframe m) (by simp [spiked]))
  · rintro h symbol visible - rfl bars hbars tree htree w hw i back hleg
    have htree : tree ∈ spec.trees := hspec ▸ htree
    obtain ⟨k, hk, hp, hfit, hwin⟩ := read_in_window hx htree hleg hbars hw
    rw [hwin]
    obtain hn | htail := h
    · rw [Nat.sub_eq_zero_of_le hn, List.drop_zero]
    · obtain ⟨hlen, -⟩ := history_some hwindow hbars
      obtain ⟨-, hcut⟩ := cutBack_window (i.offset + back) hlen (by omega)
      exact Dispatch.compute_drop hk hp (htail i ⟨back, mem_legsAll.2 ⟨tree, htree, hleg⟩⟩) (by omega)

/-- Long while an indicator of period two is above nothing, out below a price of one. -/
def aboveNothing (indicator : String) : RuleSet where
  name := "above nothing"
  «universe» := ["SPY"]
  entryLong := some (.condition ⟨.indicator { indicator := indicator, period := some 2 }, .gt, .constant 0⟩)
  exit := some (.condition ⟨.price .close 0, .lt, .constant 1⟩)

/-- The average of a slice is read as named over three hundred bars. -/
theorem sma_as_named : ReadsAsNamed Rat.sqrt ⟨aboveNothing "sma", 2⟩ (spiked "SPY" .d1 299) := by
  have hx : compileRuleset (aboveNothing "sma") = .ok ⟨aboveNothing "sma", 2⟩ := rfl
  have htail (i : IndicatorOperand) (hi : (aboveNothing "sma").Reads i) : Dispatch.ReadsTail i.indicator i.periodOr0 := by
    obtain ⟨back, hi⟩ := hi
    simp only [aboveNothing, RuleSet.trees, legsAll, ConditionNode.legs, Condition.legs, Comparator.isCrossing,
      Option.toList_some, Option.toList_none, List.append_nil, List.cons_append, List.nil_append, List.mem_cons,
      Prod.mk.injEq, Operand.indicator.injEq, reduceCtorEq, false_and, List.not_mem_nil, or_false, Bool.false_eq_true,
      if_false] at hi
    left
    rw [hi.1]
  exact (reads_as_named_iff Rat.sqrt hx 300).2 (.inr htail) "SPY" _ (series_spiked "SPY" .d1 299) (by simp [spiked])

/-- Closes of two, one and one: the EMA(2) of the history is 7/6, and the strategy reads the 1 of its last two bars. -/
theorem ema_reseeded : compileRuleset (aboveNothing "ema") = .ok ⟨aboveNothing "ema", 2⟩ ∧
    Series "SPY" .d1 (spiked "SPY" .d1 2) ∧ ¬ReadsAsNamed Rat.sqrt ⟨aboveNothing "ema", 2⟩ (spiked "SPY" .d1 2) ∧
    (exec (value Rat.sqrt ((spiked "SPY" .d1 2).drop 1) (.indicator { indicator := "ema", period := some 2 }) 0) {}).1 =
      .ok (some 1) ∧
    Dispatch.compute Rat.sqrt "ema" (spiked "SPY" .d1 2) 2 = .ok (some (7 / 6)) := by
  have hread : (exec (value Rat.sqrt ((spiked "SPY" .d1 2).drop 1) (.indicator { indicator := "ema", period := some 2 }) 0)
      {}).1 = .ok (some 1) := by decide +kernel
  have hfull : Dispatch.compute Rat.sqrt "ema" (spiked "SPY" .d1 2) 2 = .ok (some (7 / 6)) := by decide +kernel
  refine ⟨rfl, series_spiked _ _ _, fun h => ?_, hread, hfull⟩
  have hnamed := h ((spiked "SPY" .d1 2).drop 1) rfl _ (.head _) {} ⟨[], by simp, rfl⟩
    { indicator := "ema", period := some 2 } 0 (.head _)
  have hcut : cutBack (0 + 0) (spiked "SPY" .d1 2) = spiked "SPY" .d1 2 := rfl
  rw [hread, hcut] at hnamed
  exact absurd (hnamed.trans hfull) (by decide +kernel)

end Rules
end Atp
