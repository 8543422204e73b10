import AlgoTrading.RunnerMoves
import AlgoTrading.Tracking
/-!
# ProtectionGaps — the gap of a symbol, and the entries whose stops were refused

`_unprotected` and `_unprotected_entries` hold one gap for each symbol, and `_protect` writes them for one entry at a time.
An entry that was refused stays scheduled as long as no other entry's call runs over its gap (`gap_kept`); the call of a
second entry, covered in full, drops it (`scale_in_forgets`).
-/
namespace Atp
namespace ProtectionGaps

open Raising Runs RunnerState TradeUpdates Coverage Moves
open Tracking (object_append)

variable {β L σ ω : Type}

/-- `on_fill_event` between its applier and its `_protect`: the fill goes into the book, and a flat position is disarmed. -/
def book (w : StrategyRunner β L σ ω) (order : Order) (fill : Fill) : Prog (RunnerState β σ ω) Exc Unit := do
  let s ← get
  let portfolio ← fromExcept (s.desk.portfolio.applyToPortfolio order fill)
  modify (fun s => { s with desk := { s.desk with portfolio := portfolio } })
  if (portfolio.position order.symbol).isFlat then
    modify (fun s => s.dropGap order.symbol)
    let _ ← onDesk (w.router.cancelProtection order.symbol)

/-- What happens to the books of protection, on the object `ref`: an update is applied to it, its last fill goes into the
book, `_protect` is called for it, `_retry_protection` comes to it, it is retired; and a checkpoint. -/
inductive Act
  | update (ref : Ref) (update : TradeUpdate)
  | book (ref : Ref)
  | protect (atr : String → Option ℚ) (ref : Ref) (retry : Bool)
  | turn (atr : String → Option ℚ) (symbol : String) (ref : Ref)
  | retire (ref : Ref)
  | checkpoint

/-- What an act on an object does, were it there. -/
def onRef (s : RunnerState β σ ω) (ref : Ref) (x : Order → Prog (RunnerState β σ ω) Exc Unit) : RunnerState β σ ω :=
  match s.desk.heap[ref]? with
  | none => s
  | some o => (exec (x o) s).2

/-- The state an act leaves, whether it returned or raised. -/
def act (w : StrategyRunner β L σ ω) (s : RunnerState β σ ω) : Act → RunnerState β σ ω
  | .update ref u => onRef s ref fun o => do let _ ← onObject ref o (applyTradeUpdate u)
  | .book ref => onRef s ref fun o => (o.fills.getLast?).elim (pure ()) (book w o)
  | .protect atr ref retry => onRef s ref fun o => w.protect atr ref o retry
  | .turn atr symbol ref => (exec (w.retryProtection atr [(symbol, ref)]) s).2
  | .retire ref => onRef s ref w.retire
  | .checkpoint => (exec w.checkpoint s).2

def acting (w : StrategyRunner β L σ ω) (s : RunnerState β σ ω) (a : Act) (t : RunnerState β σ ω) : Prop := t = act w s a

def actAll (w : StrategyRunner β L σ ω) (l : List Act) (s : RunnerState β σ ω) : RunnerState β σ ω := l.foldl (act w) s

/-! ## What is owed -/

/-- A `_protect` call for this order would ask for a stop: the position is open and on its side. -/
def Opening (s : RunnerState β σ ω) (o : Order) : Prop :=
  (s.desk.portfolio.position o.symbol).isFlat = false ∧
    decide (0 < (s.desk.portfolio.position o.symbol).qty) = decide (o.side = .buy)

/-- Asked for the stop of this entry, the router answers with a refused child. -/
def RefusedAt (w : StrategyRunner β L σ ω) (s : RunnerState β σ ω) (atr : String → Option ℚ) (ref : Ref) : Prop :=
  ∃ o result, s.desk.heap[ref]? = some o ∧ Opening s o ∧
    (exec (w.router.submitProtectiveOrders o (some w.stopConfig) (atr o.symbol)) s.desk).1 = .ok result ∧ result.refused ≠ []

/-- The entries whose child an act has refused. -/
def Refuses (w : StrategyRunner β L σ ω) (s : RunnerState β σ ω) : Act → Ref → Prop
  | .protect atr ref _, entry => entry = ref ∧ RefusedAt w s atr ref
  | .turn atr symbol ref, entry => entry = ref ∧ RefusedAt w s atr ref ∧
      (∃ p, s.desk.portfolio.positions.get? symbol = some p ∧ p.isFlat = false) ∧
      ∃ o, s.desk.heap[ref]? = some o ∧ o.isComplete = true
  | _, _ => False

/-- **The position of an entry is short of cover, and so is the entry**: the router protects less of the position than is
held, and has placed less for the entry than it filled. -/
def Short (s : RunnerState β σ ω) (entry : Ref) : Prop :=
  ∃ o, s.desk.heap[entry]? = some o ∧ o.parentOrderId = none ∧ (s.desk.portfolio.position o.symbol).isFlat = false ∧
    s.desk.protectedQty o.symbol (closingSide (s.desk.portfolio.position o.symbol)) < |(s.desk.portfolio.position o.symbol).qty| ∧
    (s.desk.covered.get? o.id).getD 0 < o.filledQty

/-- **An entry is owed a stop**: its child was refused, and ever since the position and the entry have been short. -/
inductive Owed (w : StrategyRunner β L σ ω) (s : RunnerState β σ ω) : List Act → Ref → Prop
  | refused {l : List Act} {a : Act} {entry : Ref} : Refuses w (actAll w l s) a entry → Short (actAll w (l ++ [a]) s) entry →
      Owed w s (l ++ [a]) entry
  | still {l : List Act} {a : Act} {entry : Ref} : Owed w s l entry → Short (actAll w (l ++ [a]) s) entry →
      Owed w s (l ++ [a]) entry

/-- The symbol is recorded as unprotected, and this is the entry scheduled for it. -/
def Recorded (s : RunnerState β σ ω) (entry : Ref) : Prop :=
  ∃ o, s.desk.heap[entry]? = some o ∧ s.unprotected.contains o.symbol = true ∧
    s.unprotectedEntries.get? o.symbol = some entry

/-- No call for an opening order runs over the gap of another entry that is short; a turn of the retry loop is for what is
scheduled. -/
def Undisturbed (s : RunnerState β σ ω) : Act → Prop
  | .protect _ ref _ => ∀ o, s.desk.heap[ref]? = some o → Opening s o →
      ∀ entry, s.unprotectedEntries.get? o.symbol = some entry → entry = ref ∨ ¬Short s entry
  | .turn _ symbol ref => s.unprotectedEntries.get? symbol = some ref
  | _ => True

section short
variable {s : RunnerState β σ ω} {entry : Ref} {o : Order}

theorem short_iff (ho : s.desk.heap[entry]? = some o) : Short s entry ↔ 0 < due s.desk o := by
  have hiff : Short s entry ↔ o.parentOrderId = none ∧ (s.desk.portfolio.position o.symbol).isFlat = false ∧
      coverOf s.desk o < |(s.desk.portfolio.position o.symbol).qty| ∧ coveredOf s.desk o < o.filledQty := by
    constructor
    · rintro ⟨o', ho', h⟩
      obtain rfl : o = o' := Option.some.inj (ho.symm.trans ho')
      exact h
    · exact fun h => ⟨o, ho, h⟩
  rw [hiff, due_eq]
  split
  · rename_i hclosed
    rw [Bool.or_eq_true, Option.isSome_iff_ne_none] at hclosed
    constructor
    · rintro ⟨hparent, hopen, -⟩
      rw [hopen] at hclosed
      simp [hparent] at hclosed
    · intro h
      exact absurd h (lt_irrefl 0)
  · rename_i hopen
    rw [Bool.or_eq_true, not_or, Option.not_isSome_iff_eq_none, Bool.not_eq_true] at hopen
    rw [lt_min_iff, sub_pos, sub_pos]
    tauto

instance : Decidable (Short s entry) :=
  decidable_of_iff ((s.desk.heap[entry]?).any (fun o => decide (0 < due s.desk o)) = true) (by
    cases ho : s.desk.heap[entry]? with
    | none =>
      constructor
      · intro h
        cases h
      · rintro ⟨o, ho', -⟩
        rw [ho] at ho'
        cases ho'
    | some o => rw [short_iff ho, Option.any_some, decide_eq_true_iff])

instance : Decidable (Opening s o) := inferInstanceAs (Decidable (_ ∧ _))

instance (w : StrategyRunner β L σ ω) (atr : String → Option ℚ) : Decidable (RefusedAt w s atr entry) :=
  decidable_of_iff ((s.desk.heap[entry]?).any (fun o => decide (Opening s o) &&
    (exec (w.router.submitProtectiveOrders o (some w.stopConfig) (atr o.symbol)) s.desk).1.toOption.any
      (fun result => !result.refused.isEmpty)) = true) (by
    unfold RefusedAt
    cases s.desk.heap[entry]? with
    | none => simp
    | some o =>
      simp only [Option.any_some, Option.some.injEq, Bool.and_eq_true, decide_eq_true_eq, exists_and_left, exists_eq_left']
      rcases (exec (w.router.submitProtectiveOrders o (some w.stopConfig) (atr o.symbol)) s.desk).1 with _ | result <;>
        simp [Except.toOption])

instance : Decidable (Recorded s entry) :=
  decidable_of_iff ((s.desk.heap[entry]?).any (fun o => s.unprotected.contains o.symbol &&
    decide (s.unprotectedEntries.get? o.symbol = some entry)) = true) (by
    unfold Recorded
    cases s.desk.heap[entry]? <;> simp)

end short

/-! ## What an act does to the gaps -/

/-- What is scheduled for a symbol is an order of that symbol. -/
def Filed (s : RunnerState β σ ω) : Prop :=
  ∀ symbol entry, s.unprotectedEntries.get? symbol = some entry → ∃ o, s.desk.heap[entry]? = some o ∧ o.symbol = symbol

structure Sound (s : RunnerState β σ ω) : Prop where
  grounded : Grounded s.desk
  filed : Filed s

/-- The gaps stand, or the gap of one symbol is written or dropped, and no other entry it was for is short. -/
inductive Gaps (s t : RunnerState β σ ω) : Prop
  | same : t.unprotected = s.unprotected → t.unprotectedEntries = s.unprotectedEntries → Gaps s t
  | written (o : Order) (qty : ℚ) (entry : Ref) : s.desk.heap[entry]? = some o →
      t.unprotected = s.unprotected.set o.symbol qty → t.unprotectedEntries = s.unprotectedEntries.set o.symbol entry →
      (∀ other, s.unprotectedEntries.get? o.symbol = some other → other = entry ∨ ¬Short t other) → Gaps s t
  | dropped (symbol : String) : t.unprotected = s.unprotected.erase symbol →
      t.unprotectedEntries = s.unprotectedEntries.erase symbol →
      (∀ entry, s.unprotectedEntries.get? symbol = some entry → ¬Short t entry) → Gaps s t

/-- Objects stay, under their symbols. -/
def Endures (s t : RunnerState β σ ω) : Prop :=
  ∀ (ref : Ref) (o : Order), s.desk.heap[ref]? = some o → ∃ o' : Order, t.desk.heap[ref]? = some o' ∧ o'.symbol = o.symbol

structure Effect (s t : RunnerState β σ ω) : Prop where
  grounded : Grounded t.desk
  objects : Endures s t
  gaps : Gaps s t

section effects
variable {s t : RunnerState β σ ω} {entry : Ref}

theorem Effect.refl (hs : Sound s) : Effect s s := ⟨hs.grounded, fun _ o ho => ⟨o, ho, rfl⟩, .same rfl rfl⟩

theorem Effect.sound (hs : Sound s) (h : Effect s t) : Sound t := by
  refine ⟨h.grounded, fun symbol entry hentry => ?_⟩
  have hold (hget : s.unprotectedEntries.get? symbol = some entry) : ∃ o, t.desk.heap[entry]? = some o ∧ o.symbol = symbol := by
    obtain ⟨o, ho, rfl⟩ := hs.filed symbol entry hget
    exact h.objects entry o ho
  cases h.gaps with
  | same _ heq => exact hold (heq ▸ hentry)
  | written o qty other ho _ heq _ =>
    rw [heq, Dict.get?_set] at hentry
    split at hentry
    · rename_i hsym
      cases hentry
      obtain ⟨o', ho', hsame⟩ := h.objects _ o ho
      exact ⟨o', ho', hsame.trans hsym.symm⟩
    · exact hold hentry
  | dropped other _ heq _ =>
    rw [heq, Dict.get?_erase] at hentry
    split at hentry
    · cases hentry
    · exact hold hentry

/-- **A recorded entry stays recorded while it is short.** -/
theorem Effect.recorded (h : Effect s t) (hrec : Recorded s entry) (hshort : Short t entry) : Recorded t entry := by
  obtain ⟨o, ho, hcontains, hget⟩ := hrec
  obtain ⟨o', ho', hsym⟩ := h.objects entry o ho
  refine ⟨o', ho', ?_⟩
  rw [hsym]
  cases h.gaps with
  | same hgap hentries =>
    rw [hgap, hentries]
    exact ⟨hcontains, hget⟩
  | written other qty ref _ hgap hentries honly =>
    rw [hgap, hentries, Dict.contains, Dict.get?_set, Dict.get?_set]
    split
    · rename_i hsame
      rw [(honly entry (hsame ▸ hget)).resolve_right (not_not.2 hshort)]
      exact ⟨rfl, rfl⟩
    · exact ⟨hcontains, hget⟩
  | dropped symbol hgap hentries hcover =>
    have hne : o.symbol ≠ symbol := fun hsame => hcover entry (hsame ▸ hget) hshort
    rw [hgap, hentries, Dict.contains, Dict.get?_erase, Dict.get?_erase, if_neg hne, if_neg hne]
    exact ⟨hcontains, hget⟩

end effects

section acts
variable {w : StrategyRunner β L σ ω} {s t : RunnerState β σ ω} {ref : Ref} {o : Order}

/-! ## `_protect` -/

/-- The books of protection as they were: what a write of the runner's own leaves alone. -/
def SameBooks (s t : RunnerState β σ ω) : Prop :=
  t.desk = s.desk ∧ t.unprotected = s.unprotected ∧ t.unprotectedEntries = s.unprotectedEntries

theorem keeps_onStore_books {α : Type} (x : Prog ω Exc α) : Keeps (SameBooks s) (onStore x) := keeps_within x fun _ _ h => h

theorem keeps_recordRefusal_books (result : SubmitResult) : Keeps (SameBooks s) (w.recordRefusal result) := by
  unfold StrategyRunner.recordRefusal
  split
  · exact keeps_bind (keeps_tried (keeps_onStore_books _)) fun _ => keeps_pure _
  · exact keeps_pure _

theorem sameBooks_track (s : RunnerState β σ ω) (ref : Ref) (o : Order) : SameBooks s (s.track ref o) := by
  unfold track
  split <;> exact ⟨rfl, rfl, rfl⟩

theorem SameBooks.trans {u : RunnerState β σ ω} (h : SameBooks s t) (h' : SameBooks t u) : SameBooks s u :=
  ⟨h'.1.trans h.1, h'.2.1.trans h.2.1, h'.2.2.trans h.2.2⟩

theorem sameBooks_tracks : ∀ (placed : List (Ref × Order)) (s : RunnerState β σ ω),
    SameBooks s (placed.foldl (fun s c => s.track c.1 c.2) s)
  | [], _ => ⟨rfl, rfl, rfl⟩
  | c :: placed, s => (sameBooks_track s c.1 c.2).trans (sameBooks_tracks placed _)

/-- What the answer makes of the gap. -/
def answeredGap (s : RunnerState β σ ω) (symbol : String) (entry : Ref) (result : ProtectionResult) : RunnerState β σ ω :=
  if !result.deferred && result.isFullyProtected then s.dropGap symbol else s.setGap symbol result.unprotectedQty entry

theorem triple_protectionPlaced (entry : Ref) (symbol : String) (retry : Bool) (result : ProtectionResult)
    (s : RunnerState β σ ω) :
    Triple (fun u => u = s) (w.protectionPlaced entry symbol retry result)
      (fun _ => SameBooks (answeredGap s symbol entry result)) (fun _ => SameBooks (answeredGap s symbol entry result)) := by
  unfold StrategyRunner.protectionPlaced answeredGap
  refine triple_bind (R := fun _ => SameBooks s) (triple_modify _ fun u hu => hu ▸ sameBooks_tracks _ _) fun _ => ?_
  have hset (u : RunnerState β σ ω) (h : SameBooks s u) :
      SameBooks (s.setGap symbol result.unprotectedQty entry) (u.setGap symbol result.unprotectedQty entry) :=
    ⟨h.1, by simp only [setGap, h.2.1], by simp only [setGap, h.2.2]⟩
  have hdrop (u : RunnerState β σ ω) (h : SameBooks s u) : SameBooks (s.dropGap symbol) (u.dropGap symbol) :=
    ⟨h.1, by simp only [dropGap, h.2.1], by simp only [dropGap, h.2.2]⟩
  refine triple_ite (fun hdeferred => ?_) (fun hdeferred => triple_ite (fun hfull => ?_) (fun hfull => ?_))
  · rw [hdeferred]
    exact triple_modify _ hset
  · rw [Bool.not_eq_true] at hdeferred
    rw [hdeferred, hfull]
    exact triple_modify _ hdrop
  · rw [Bool.not_eq_true] at hdeferred hfull
    rw [hdeferred, hfull]
    refine triple_bind (R := fun _ => SameBooks (s.setGap symbol result.unprotectedQty entry)) (triple_modify _ hset) fun _ => ?_
    exact triple_ite (fun _ => triple_forM _ fun _ _ => keeps_recordRefusal_books _) (fun _ => keeps_pure _)

/-- Nothing is refused in an answer that drops the gap, and nothing unprotected. -/
theorem full_iff {result : ProtectionResult} (h : (!result.deferred && result.isFullyProtected) = true) :
    result.unprotectedQty = 0 ∧ result.refused = [] := by
  simp only [ProtectionResult.isFullyProtected, Bool.and_eq_true, decide_eq_true_eq, List.isEmpty_iff] at h
  exact h.2

/-- A call that asks for nothing. -/
theorem protect_idle {atr : String → Option ℚ} {retry : Bool} (h : ¬Opening s o) :
    (exec (w.protect atr ref o retry) s).2 = s := by
  unfold StrategyRunner.protect
  rw [exec_bind, exec_get]
  dsimp only
  split
  · rfl
  · rename_i hflat
    split
    · rfl
    · rename_i hside
      exact absurd ⟨Bool.not_eq_true _ ▸ hflat, not_not.1 hside⟩ h

/-- A call that asks the router, by its answer. -/
theorem protect_asked {atr : String → Option ℚ} {retry : Bool} (h : Opening s o) :
    exec (w.protect atr ref o retry) s =
      match exec (w.router.submitProtectiveOrders o (some w.stopConfig) (atr o.symbol)) s.desk with
      | (.error exc, e) =>
        (.error exc, ({ s with desk := e } : RunnerState β σ ω).setGap o.symbol |(s.desk.portfolio.position o.symbol).qty| ref)
      | (.ok result, e) => exec (w.protectionPlaced ref o.symbol retry result) { s with desk := e } := by
  unfold StrategyRunner.protect
  rw [exec_bind, exec_get]
  dsimp only
  rw [if_neg (by rw [h.1]; simp), if_neg (not_not.2 h.2), exec_bind, exec_tried, onDesk, exec_within]
  rcases exec (w.router.submitProtectiveOrders o (some w.stopConfig) (atr o.symbol)) s.desk with ⟨_ | result, e⟩
  · rfl
  · rfl

theorem endures_of_prefix (h : ∃ l, t.desk.heap = s.desk.heap ++ l) : Endures s t := by
  obtain ⟨l, hl⟩ := h
  intro ref o ho
  refine ⟨o, ?_, rfl⟩
  rw [hl]
  exact object_append ho l

/-- Where nothing more is due of any order, an entry that was not short is not. -/
theorem short_not_renewed (hs : Sound s) {symbol : String} {entry : Ref} (hget : s.unprotectedEntries.get? symbol = some entry)
    (hheap : ∃ l, t.desk.heap = s.desk.heap ++ l) (hdue : ∀ o : Order, due t.desk o ≤ due s.desk o) (h : ¬Short s entry) :
    ¬Short t entry := by
  obtain ⟨o, ho, -⟩ := hs.filed symbol entry hget
  obtain ⟨l, hl⟩ := hheap
  have ho' : t.desk.heap[entry]? = some o := by
    rw [hl]
    exact object_append ho l
  rw [short_iff ho, not_lt] at h
  rw [short_iff ho', not_lt]
  exact (hdue o).trans h

/-- What is scheduled for other symbols stands. -/
def Elsewhere (symbol : String) (s t : RunnerState β σ ω) : Prop :=
  ∀ other, other ≠ symbol → t.unprotectedEntries.get? other = s.unprotectedEntries.get? other

theorem elsewhere_drop {symbol : String} (h : t.unprotectedEntries = s.unprotectedEntries.erase symbol) : Elsewhere symbol s t := by
  intro other hne
  rw [h, Dict.get?_erase, if_neg hne]

theorem elsewhere_set {symbol : String} {entry : Ref} (h : t.unprotectedEntries = s.unprotectedEntries.set symbol entry) :
    Elsewhere symbol s t := by
  intro other hne
  rw [h, Dict.get?_set_ne _ _ hne]

/-- A call of `_protect` is about its own symbol. -/
theorem protect_elsewhere (atr : String → Option ℚ) (ref : Ref) (o : Order) (retry : Bool) (s : RunnerState β σ ω) :
    Elsewhere o.symbol s (exec (w.protect atr ref o retry) s).2 := by
  by_cases hopen : Opening s o
  · rw [protect_asked hopen]
    rcases exec (w.router.submitProtectiveOrders o (some w.stopConfig) (atr o.symbol)) s.desk with ⟨exc | result, e⟩
    · exact elsewhere_set rfl
    · obtain ⟨-, -, hentries⟩ := triple_left (triple_protectionPlaced (w := w) ref o.symbol retry result { s with desk := e }) rfl
      unfold answeredGap at hentries
      split at hentries
      · exact elsewhere_drop hentries
      · exact elsewhere_set hentries
  · rw [protect_idle hopen]
    exact fun _ _ => rfl

/-- **One call of `_protect`** that runs over no other entry's gap: a refused child is recorded, and the gap is dropped only
when its entry is short no more. -/
theorem protect_effect (hs : Sound s) {atr : String → Option ℚ} {retry : Bool} (ho : s.desk.heap[ref]? = some o)
    (honly : Opening s o → ∀ other, s.unprotectedEntries.get? o.symbol = some other → other = ref ∨ ¬Short s other) :
    Effect s (exec (w.protect atr ref o retry) s).2 ∧
      (RefusedAt w s atr ref → Recorded (exec (w.protect atr ref o retry) s).2 ref) := by
  by_cases hopen : Opening s o
  · have hasked : RefusedAt w s atr ref → ∃ result,
        (exec (w.router.submitProtectiveOrders o (some w.stopConfig) (atr o.symbol)) s.desk).1 = .ok result ∧
          result.refused ≠ [] := by
      rintro ⟨o', result, ho', -, hanswer⟩
      obtain rfl : o = o' := Option.some.inj (ho.symm.trans ho')
      exact ⟨result, hanswer⟩
    have hcall : Triple (fun e => e = s.desk) (w.router.submitProtectiveOrders o (some w.stopConfig) (atr o.symbol))
        (fun result e => Answered w.router s.desk o result e) (fun _ e => Called w.router s.desk o [] e) :=
      triple_answered hs.grounded (some w.stopConfig) (atr o.symbol)
    have hans := hcall s.desk rfl
    rw [protect_asked hopen]
    generalize exec (w.router.submitProtectiveOrders o (some w.stopConfig) (atr o.symbol)) s.desk = answer at hans hasked ⊢
    obtain ⟨exc | result, e⟩ := answer
    · constructor
      · have hothers (other : Ref) (hother : s.unprotectedEntries.get? o.symbol = some other) : other = ref ∨
            ¬Short (({ s with desk := e } : RunnerState β σ ω).setGap o.symbol |(s.desk.portfolio.position o.symbol).qty| ref) other :=
          (honly hopen other hother).imp_right
            (short_not_renewed hs hother hans.frame.heap fun entry => hans.due_le hs.grounded entry)
        exact ⟨hans.frame.grounded, endures_of_prefix hans.frame.heap, .written o _ ref ho rfl rfl hothers⟩
      · intro h
        obtain ⟨result, heq, -⟩ := hasked h
        cases heq
    · have hbooks := triple_left (triple_protectionPlaced (w := w) ref o.symbol retry result { s with desk := e }) rfl
      dsimp only
      generalize (exec (w.protectionPlaced ref o.symbol retry result) { s with desk := e }).2 = t at hbooks
      obtain ⟨hdesk, hgap, hentries⟩ := hbooks
      unfold answeredGap at hdesk hgap hentries
      have hheap : ∃ l, t.desk.heap = s.desk.heap ++ l := by
        obtain ⟨l, hl⟩ := hans.frame.heap
        refine ⟨l, ?_⟩
        rw [hdesk]
        split <;> exact hl
      have hobject : t.desk.heap[ref]? = some o := by
        obtain ⟨l, hl⟩ := hheap
        rw [hl]
        exact object_append ho l
      have hground : Grounded t.desk := by
        rw [hdesk]
        split <;> exact hans.frame.grounded
      have hothers (other : Ref) (hother : s.unprotectedEntries.get? o.symbol = some other) : other = ref ∨ ¬Short t other := by
        refine (honly hopen other hother).imp_right (short_not_renewed hs hother hheap fun entry => ?_)
        have hdue := hans.others entry
        rw [hdesk]
        split <;> exact hdue
      by_cases hfull : (!result.deferred && result.isFullyProtected) = true
      · rw [if_pos hfull] at hdesk hgap hentries
        obtain ⟨hall, hnone⟩ := full_iff hfull
        constructor
        · refine ⟨hground, endures_of_prefix hheap, .dropped o.symbol hgap hentries fun other hother => ?_⟩
          obtain rfl | hnot := hothers other hother
          · rw [short_iff hobject, hdesk, not_lt]
            exact hans.nothing_due hall
          · exact hnot
        · intro h
          obtain ⟨result', heq, hrefused⟩ := hasked h
          cases heq
          exact absurd hnone hrefused
      · rw [if_neg hfull] at hdesk hgap hentries
        constructor
        · exact ⟨hground, endures_of_prefix hheap, .written o _ ref ho hgap hentries hothers⟩
        · intro _
          refine ⟨o, hobject, ?_, ?_⟩
          · rw [hgap, setGap, Dict.contains, Dict.get?_set_self]
            rfl
          · rw [hentries, setGap, Dict.get?_set_self]
  · rw [protect_idle hopen]
    refine ⟨.refl hs, fun h => ?_⟩
    obtain ⟨o', -, ho', hopen', -⟩ := h
    obtain rfl : o = o' := Option.some.inj (ho.symm.trans ho')
    exact absurd hopen' hopen

/-! ## `_retry_protection` -/

/-- One turn of the loop. -/
def turned (w : StrategyRunner β L σ ω) (atr : String → Option ℚ) (symbol : String) (ref : Ref) (s : RunnerState β σ ω) :
    RunnerState β σ ω :=
  match s.desk.portfolio.positions.get? symbol, s.desk.heap[ref]? with
  | some p, some o =>
    if p.isFlat then s.dropGap symbol
    else if o.isComplete then (exec (w.protect atr ref o true) s).2
    else s
  | _, _ => s.dropGap symbol

/-- A pass is its turns, one after the other. -/
theorem retryProtection_cons (atr : String → Option ℚ) (symbol : String) (ref : Ref) (rest : List (String × Ref))
    (s : RunnerState β σ ω) : exec (w.retryProtection atr ((symbol, ref) :: rest)) s =
      exec (w.retryProtection atr rest) (turned w atr symbol ref s) := by
  unfold turned
  rw [StrategyRunner.retryProtection, exec_bind, exec_get]
  dsimp only
  rcases s.desk.portfolio.positions.get? symbol with _ | p
  · rfl
  rcases s.desk.heap[ref]? with _ | o
  · rfl
  dsimp only
  split
  · rfl
  · split
    · rw [exec_bind, exec_tried]
    · rfl

theorem act_turn (atr : String → Option ℚ) (symbol : String) (ref : Ref) (s : RunnerState β σ ω) :
    act w s (.turn atr symbol ref) = turned w atr symbol ref s := by
  rw [act, retryProtection_cons]
  rfl

/-- A gap whose position is flat is nobody's. -/
theorem gaps_of_flat {symbol : String} (hs : Sound s) (hobjects : Endures s t) (hgap : t.unprotected = s.unprotected.erase symbol)
    (hentries : t.unprotectedEntries = s.unprotectedEntries.erase symbol)
    (hflat : (t.desk.portfolio.position symbol).isFlat = true) : Gaps s t := by
  refine .dropped symbol hgap hentries fun entry hentry hshort => ?_
  obtain ⟨o, ho, rfl⟩ := hs.filed symbol entry hentry
  obtain ⟨o', ho', hsym⟩ := hobjects entry o ho
  obtain ⟨o'', ho'', -, hopen, -⟩ := hshort
  obtain rfl : o' = o'' := Option.some.inj (ho'.symm.trans ho'')
  rw [hsym, hflat] at hopen
  cases hopen

theorem turn_effect (hs : Sound s) {atr : String → Option ℚ} {symbol : String} (hget : s.unprotectedEntries.get? symbol = some ref) :
    Effect s (turned w atr symbol ref s) ∧ ∀ entry, Refuses w s (.turn atr symbol ref) entry →
      Recorded (turned w atr symbol ref s) entry := by
  obtain ⟨o, ho, rfl⟩ := hs.filed symbol ref hget
  have hdropped (hflat : (s.desk.portfolio.position o.symbol).isFlat = true) : Effect s (s.dropGap o.symbol) := by
    have hobjects : Endures s (s.dropGap o.symbol) := fun _ o ho => ⟨o, ho, rfl⟩
    exact ⟨hs.grounded, hobjects, gaps_of_flat hs hobjects rfl rfl hflat⟩
  unfold turned
  rw [ho]
  cases hp : s.desk.portfolio.positions.get? o.symbol with
  | none =>
    refine ⟨hdropped ?_, ?_⟩
    · simp [Portfolio.position, hp, Position.isFlat]
    · rintro entry ⟨-, -, ⟨p, hp', -⟩, -⟩
      rw [hp] at hp'
      cases hp'
  | some p =>
    have hposition : s.desk.portfolio.position o.symbol = p := by rw [Portfolio.position, hp, Option.getD_some]
    dsimp only
    split
    · rename_i hflat
      refine ⟨hdropped (by rw [hposition, hflat]), ?_⟩
      rintro entry ⟨-, -, ⟨p', hp', hopen⟩, -⟩
      rw [hp, Option.some.injEq] at hp'
      rw [← hp', hflat] at hopen
      cases hopen
    · split
      · have honly (_ : Opening s o) (other : Ref) (hother : s.unprotectedEntries.get? o.symbol = some other) :
            other = ref ∨ ¬Short s other := .inl (Option.some.inj (hother.symm.trans hget))
        have hprotect : Effect s (exec (w.protect atr ref o true) s).2 ∧
            (RefusedAt w s atr ref → Recorded (exec (w.protect atr ref o true) s).2 ref) := protect_effect hs ho honly
        obtain ⟨heffect, hrecorded⟩ := hprotect
        refine ⟨heffect, ?_⟩
        rintro entry ⟨rfl, hrefused, -⟩
        exact hrecorded hrefused
      · rename_i hworking
        refine ⟨.refl hs, ?_⟩
        rintro entry ⟨-, -, -, o', ho', hdone⟩
        rw [ho, Option.some.injEq] at ho'
        rw [← ho'] at hdone
        exact absurd hdone hworking

theorem turn_elsewhere (hs : Sound s) (atr : String → Option ℚ) {symbol : String}
    (hget : s.unprotectedEntries.get? symbol = some ref) : Elsewhere symbol s (turned w atr symbol ref s) := by
  obtain ⟨o, ho, rfl⟩ := hs.filed symbol ref hget
  unfold turned
  rw [ho]
  rcases s.desk.portfolio.positions.get? o.symbol with _ | p
  · exact elsewhere_drop rfl
  dsimp only
  split
  · exact elsewhere_drop rfl
  · split
    · exact protect_elsewhere atr ref o true s
    · exact fun _ _ => rfl

/-! ## The rest of an event -/

theorem applied_symbol (u : TradeUpdate) (o : Order) : (exec (applyTradeUpdate u) o).2.symbol = o.symbol := by
  have h := applyTradeUpdate_outcome o u
  generalize (exec (applyTradeUpdate u) o).1 = r at h
  generalize (exec (applyTradeUpdate u) o).2 = o' at h
  cases h <;> simp [State.moved]

/-- What reads no children reads the same of new ones. -/
theorem grounded_of_fewer {d e : Desk β σ} (hd : Grounded d) (hlen : e.heap.length = d.heap.length)
    (hfewer : ∀ symbol, ∀ ref ∈ refsOf e symbol, ref ∈ refsOf d symbol) : Grounded e := by
  intro symbol ref hr
  rw [hlen]
  exact hd symbol ref (hfewer symbol ref hr)

/-- An act on an object that is not there does nothing. -/
theorem onRef_effect (hs : Sound s) {x : Order → Prog (RunnerState β σ ω) Exc Unit}
    (h : ∀ o, s.desk.heap[ref]? = some o → Effect s (exec (x o) s).2) : Effect s (onRef s ref x) := by
  unfold onRef
  split
  · exact .refl hs
  · rename_i o ho
    exact h o ho

theorem update_effect (hs : Sound s) (u : TradeUpdate) : Effect s (act w s (.update ref u)) := by
  apply onRef_effect hs
  intro o ho
  have hstate : (exec (onObject ref o (applyTradeUpdate u) >>= fun _ => pure ()) s).2 = applied s u ref o := by
    rw [exec_bind, onObject, exec_within, ho, Option.getD_some]
    unfold applied
    rcases exec (applyTradeUpdate u) o with ⟨_ | b, o'⟩ <;> rfl
  rw [hstate]
  refine ⟨grounded_of_fewer hs.grounded (by simp [applied]) fun _ _ h => h, fun ref' o' ho' => ?_, .same rfl rfl⟩
  obtain ⟨hlt, -⟩ := List.getElem?_eq_some_iff.1 ho
  by_cases heq : ref = ref'
  · subst heq
    obtain rfl : o = o' := Option.some.inj (ho.symm.trans ho')
    exact ⟨_, List.getElem?_set_self hlt, applied_symbol u o⟩
  · exact ⟨o', (List.getElem?_set_ne heq).trans ho', rfl⟩

theorem keeps_cancelEach {I : Desk β σ → Prop} {r : OrderRouter β L σ} (hI : ∀ d b, I d → I { d with broker := b }) :
    ∀ (l : List (Option Ref × Order)) (survivors : List Ref) (n : ℕ), Keeps I (r.cancelEach l survivors n)
  | [], _, _ => keeps_pure _
  | (ref, child) :: rest, survivors, n => by
    unfold OrderRouter.cancelEach
    split
    · apply keeps_bind (r.keeps_cancelled hI _)
      intro gone
      exact keeps_ite (keeps_cancelEach hI rest _ _) (keeps_cancelEach hI rest _ _)
    · exact keeps_cancelEach hI rest _ _

/-- Cancelling stops moves no position. -/
theorem keeps_cancelProtection (portfolio : Portfolio) {r : OrderRouter β L σ} (symbol : String) :
    Keeps (fun d : Desk β σ => d.portfolio = portfolio) (r.cancelProtection symbol) := by
  unfold OrderRouter.cancelProtection
  refine keeps_bind keeps_get fun d => keeps_bind (r.keeps_inheritedProtection (fun _ _ h => h) _ _ _) fun inherited => ?_
  refine keeps_bind (keeps_cancelEach (fun _ _ h => h) _ _ _) fun swept => ?_
  exact keeps_bind (keeps_modify fun _ h => h) fun _ => keeps_pure _

/-- A flat position is disarmed, and its gap goes with it. -/
theorem triple_disarmed (hs : Sound s) (portfolio : Portfolio) (symbol : String)
    (hflat : (portfolio.position symbol).isFlat = true) :
    Triple (fun u => u = ({ s with desk := { s.desk with portfolio := portfolio } } : RunnerState β σ ω).dropGap symbol)
      (onDesk (w.router.cancelProtection symbol)) (fun _ => Effect s) (fun _ => Effect s) := by
  let d : Desk β σ := { s.desk with portfolio := portfolio }
  have hleft (e : Desk β σ) (hp : Pruned d e) (he : e.portfolio = portfolio) :
      Effect s { ({ s with desk := d } : RunnerState β σ ω).dropGap symbol with desk := e } := by
    have hobjects : Endures s { ({ s with desk := d } : RunnerState β σ ω).dropGap symbol with desk := e } :=
      endures_of_prefix ⟨[], by rw [List.append_nil]; exact hp.heap⟩
    refine ⟨grounded_of_fewer hs.grounded (congrArg List.length hp.heap) hp.children, hobjects, ?_⟩
    refine gaps_of_flat hs hobjects rfl rfl ?_
    rw [← he] at hflat
    exact hflat
  have hpruned := triple_left (triple_cancelProtection (r := w.router) (d := d) symbol) rfl
  have hportfolio : (exec (w.router.cancelProtection symbol) d).2.portfolio = portfolio :=
    triple_left (keeps_cancelProtection portfolio symbol) rfl
  apply triple_within
  rintro u rfl
  refine triple_conseq (triple_exec _ d) (fun _ h => h) (fun n e h => ?_) (fun exc e h => ?_) <;>
  · rw [h] at hpruned hportfolio
    exact hleft e hpruned hportfolio

theorem book_effect (hs : Sound s) (order : Order) (fill : Fill) : Effect s (exec (book w order fill) s).2 := by
  refine triple_left (P := fun u => u = s) ?_ rfl
  unfold book
  refine triple_get_bind fun u hu => ?_
  subst hu
  have hraised (e : RunnerState β σ ω) (he : e = u) : Effect u e := by
    rw [he]
    exact .refl hs
  refine triple_bind (R := fun _ u' => u' = u) (triple_fromExcept _ (fun _ _ _ h => h) fun _ _ => hraised) fun portfolio => ?_
  refine triple_bind (R := fun _ u' => u' = { u with desk := { u.desk with portfolio := portfolio } })
    (triple_modify _ fun _ h => by rw [h]) fun _ => triple_ite (fun hflat => ?_) (fun _ => triple_pure _ ?_)
  · refine triple_bind (R := fun _ u' => u' = ({ u with desk := { u.desk with portfolio := portfolio } } : RunnerState β σ ω).dropGap
      order.symbol) (triple_modify _ fun _ h => by rw [h]) fun _ => ?_
    exact triple_bind (triple_disarmed hs portfolio order.symbol hflat) fun _ => triple_pure _ fun _ h => h
  · rintro _ rfl
    exact ⟨hs.grounded, fun _ o ho => ⟨o, ho, rfl⟩, .same rfl rfl⟩

/-- What leaves the books of protection alone. -/
theorem effect_of_books (hs : Sound s) (hheap : t.desk.heap = s.desk.heap) (hchildren : t.desk.protective = s.desk.protective)
    (hgap : t.unprotected = s.unprotected) (hentries : t.unprotectedEntries = s.unprotectedEntries) : Effect s t := by
  refine ⟨grounded_of_fewer hs.grounded (congrArg List.length hheap) fun symbol ref hr => ?_,
    endures_of_prefix ⟨[], by rw [hheap, List.append_nil]⟩, .same hgap hentries⟩
  unfold refsOf at hr ⊢
  rwa [hchildren] at hr

theorem retire_effect (hs : Sound s) (o : Order) : Effect s (exec (w.retire o) s).2 := by
  have hkeeps : Keeps (fun t : RunnerState β σ ω => t.desk.heap = s.desk.heap ∧ t.desk.protective = s.desk.protective ∧
      t.unprotected = s.unprotected ∧ t.unprotectedEntries = s.unprotectedEntries) (w.retire o) := by
    unfold StrategyRunner.retire
    refine keeps_ite (keeps_bind (keeps_within _ fun _ _ h => h) fun _ => keeps_modify fun _ h => h) (keeps_pure _)
  obtain ⟨hheap, hchildren, hgap, hentries⟩ := triple_left hkeeps ⟨rfl, rfl, rfl, rfl⟩
  exact effect_of_books hs hheap hchildren hgap hentries

theorem keeps_checkpoint_books : Keeps (SameBooks s) (w.checkpoint : Prog (RunnerState β σ ω) Exc Unit) := by
  unfold StrategyRunner.checkpoint
  refine keeps_bind keeps_get fun _ => keeps_ite (keeps_pure _) ?_
  refine keeps_bind (keeps_tried ?_) fun _ => keeps_pure _
  unfold StrategyRunner.saveBook
  refine keeps_bind keeps_get fun _ => keeps_bind (triple_forM _ fun _ _ => keeps_onStore_books _) fun _ => ?_
  exact keeps_bind keeps_get fun _ => keeps_onStore_books _

/-- **What one act does**: the gap it writes or drops is its own entry's, and a child it refuses is recorded. -/
theorem act_effect (hs : Sound s) {a : Act} (ha : Undisturbed s a) :
    Effect s (act w s a) ∧ ∀ entry, Refuses w s a entry → Recorded (act w s a) entry := by
  cases a with
  | update ref u => exact ⟨update_effect hs u, fun _ h => h.elim⟩
  | book ref =>
    refine ⟨onRef_effect hs fun o _ => ?_, fun _ h => h.elim⟩
    cases o.fills.getLast? with
    | none => exact .refl hs
    | some fill => exact book_effect hs o fill
  | protect atr ref retry =>
    refine ⟨onRef_effect hs fun o ho => (protect_effect hs ho (ha o ho)).1, ?_⟩
    rintro entry ⟨rfl, hrefused⟩
    obtain ⟨o, -, ho, -⟩ := id hrefused
    have hstate : act w s (.protect atr entry retry) = (exec (w.protect atr entry o retry) s).2 := by
      rw [act, onRef, ho]
    rw [hstate]
    exact (protect_effect hs ho (ha o ho)).2 hrefused
  | turn atr symbol ref =>
    rw [act_turn]
    exact turn_effect hs ha
  | retire ref => exact ⟨onRef_effect hs fun o _ => retire_effect hs o, fun _ h => h.elim⟩
  | checkpoint =>
    obtain ⟨hdesk, hgap, hentries⟩ := triple_left (keeps_checkpoint_books (w := w) (s := s)) ⟨rfl, rfl, rfl⟩
    exact ⟨effect_of_books hs (congrArg Desk.heap hdesk) (congrArg Desk.protective hdesk) hgap hentries, fun _ h => h.elim⟩

/-! ## Runs -/

theorem run_actAll {l : List Act} (h : Run (guarded (acting w) Undisturbed) s l t) : t = actAll w l s := by
  induction h with
  | nil s => rfl
  | cons hstep _ ih =>
    rw [ih, hstep.1]
    rfl

theorem run_sound (hs : Sound s) {l : List Act} (h : Run (guarded (acting w) Undisturbed) s l t) : Sound t := by
  refine run_guarded Undisturbed Sound (fun s a t hs ha hstep => ?_) hs h
  rw [hstep]
  exact (act_effect hs ha).1.sound hs

/-- **A protection gap is not forgotten**: in every run in which no call for an opening order runs over the gap of another
entry that is short, an entry that is owed a stop is recorded and scheduled. -/
theorem gap_kept (hground : Grounded s.desk) (hfiled : Filed s) {l : List Act}
    (h : Run (guarded (acting w) Undisturbed) s l t) {entry : Ref} (howed : Owed w s l entry) : Recorded t entry := by
  have hs : Sound s := ⟨hground, hfiled⟩
  induction howed generalizing t with
  | @refused l a entry hrefuses hshort =>
    obtain ⟨u, hrun, hlast⟩ := run_append_iff.1 h
    obtain ⟨v, ⟨hstep, ha⟩, hnil⟩ := run_cons_iff.1 hlast
    obtain rfl := run_nil_iff.1 hnil
    rw [hstep]
    rw [← run_actAll hrun] at hrefuses
    exact (act_effect (run_sound hs hrun) ha).2 entry hrefuses
  | @still l a entry howed hshort ih =>
    have hend := run_actAll h
    obtain ⟨u, hrun, hlast⟩ := run_append_iff.1 h
    obtain ⟨v, ⟨hstep, ha⟩, hnil⟩ := run_cons_iff.1 hlast
    obtain rfl := run_nil_iff.1 hnil
    rw [← hend] at hshort
    have hrec := ih hrun
    rw [hstep] at hshort ⊢
    exact (act_effect (run_sound hs hrun) ha).1.recorded hrec hshort

/-! ## The runner's own calls are runs of acts -/

theorem run_turns (atr : String → Option ℚ) : ∀ (l : List (String × Ref)) {s : RunnerState β σ ω}, Sound s →
    (l.map Prod.fst).Nodup → (∀ e ∈ l, s.unprotectedEntries.get? e.1 = some e.2) →
      Run (guarded (acting w) Undisturbed) s (l.map fun e => .turn atr e.1 e.2) (exec (w.retryProtection atr l) s).2
  | [], s, _, _, _ => .nil s
  | (symbol, ref) :: l, s, hs, hnodup, hget => by
    rw [List.map_cons, List.nodup_cons] at hnodup
    have hhere := hget (symbol, ref) (by simp)
    rw [retryProtection_cons]
    refine .cons ⟨(act_turn atr symbol ref s).symm, hhere⟩ (run_turns atr l ((turn_effect hs hhere).1.sound hs) hnodup.2 fun e he => ?_)
    rw [turn_elsewhere hs atr hhere e.1 fun heq => hnodup.1 (heq ▸ List.mem_map_of_mem he)]
    exact hget e (List.mem_cons_of_mem _ he)

/-- **A pass of `_retry_protection`** is a run of turns, and each is for what is scheduled when it comes. -/
theorem retry_pass (hs : Sound s) (atr : String → Option ℚ) :
    Run (guarded (acting w) Undisturbed) s (s.unprotectedEntries.entries.map fun e => .turn atr e.1 e.2)
      (exec (w.retryProtection atr s.unprotectedEntries.entries) s).2 :=
  run_turns atr _ hs s.unprotectedEntries.nodup fun e he => (Dict.mem_entries_iff _ e.1 e.2).1 he

/-- A run of acts leads here, and the object is there. -/
def Stands (w : StrategyRunner β L σ ω) (s : RunnerState β σ ω) (ref : Ref) (o : Order) (t : RunnerState β σ ω) : Prop :=
  (∃ l, Run (acting w) s l t) ∧ t.desk.heap[ref]? = some o

/-- A call that is an act, and keeps its object. -/
theorem triple_stands {x : Prog (RunnerState β σ ω) Exc Unit} (a : Act)
    (hact : ∀ t : RunnerState β σ ω, t.desk.heap[ref]? = some o → act w t a = (exec x t).2)
    (hx : ∀ t : RunnerState β σ ω, t.desk.heap[ref]? = some o → (exec x t).2.desk.heap[ref]? = some o) :
    Triple (Stands w s ref o) x (fun _ => Stands w s ref o) (fun _ => Stands w s ref o) := by
  refine triple_at fun t ht => ?_
  obtain ⟨⟨l, hl⟩, ho⟩ := ht
  have hstep : acting w t a (exec x t).2 := (hact t ho).symm
  have hend : Stands w s ref o (exec x t).2 := ⟨⟨l ++ [a], run_append_iff.2 ⟨t, hl, .cons hstep (.nil _)⟩⟩, hx t ho⟩
  refine triple_conseq (triple_exec x t) (fun _ h => h) (fun _ e h => ?_) (fun _ e h => ?_) <;>
  · rw [h] at hend
    exact hend

/-- The object is there. -/
def Holds (ref : Ref) (o : Order) (t : RunnerState β σ ω) : Prop := t.desk.heap[ref]? = some o

theorem holds_core (ref : Ref) (o : Order) : OfCore (Holds ref o : RunnerState β σ ω → Prop) := by
  intro t u hdesk _ h
  unfold Holds at h ⊢
  rw [hdesk]
  exact h

theorem keeps_book (order : Order) (fill : Fill) : Keeps (Holds ref o) (book w order fill) := by
  have hcancel : Keeps (Holds ref o) (onDesk (w.router.cancelProtection order.symbol) : Prog (RunnerState β σ ω) Exc ℕ) := by
    apply triple_within
    intro t ht
    have hpruned (e : Desk β σ) (h : Pruned t.desk e) : Holds ref o { t with desk := e } := by
      unfold Holds
      rw [h.heap]
      exact ht
    exact triple_conseq (triple_cancelProtection order.symbol) (fun _ h => h) (fun _ e h => hpruned e h) (fun _ e h => hpruned e h)
  unfold book
  refine keeps_bind keeps_get fun _ => keeps_bind (keeps_fromExcept _) fun _ => keeps_bind (keeps_modify fun _ h => h) fun _ => ?_
  exact keeps_ite (keeps_bind (keeps_modify fun _ h => h) fun _ => keeps_bind hcancel fun _ => keeps_pure _) (keeps_pure _)

/-- A booked fill is the book and the call. -/
theorem booked_eq (atr : String → Option ℚ) (ref : Ref) (order : Order) (fill : Fill) :
    w.booked atr ref order fill = (do book w order fill; w.protect atr ref order false) := by
  unfold StrategyRunner.booked book
  simp only [bind_assoc]
  refine bind_congr fun s => bind_congr fun portfolio => bind_congr fun _ => ?_
  split
  · simp only [bind_assoc, pure_bind]
  · simp only [pure_bind]

theorem triple_protected (atr : String → Option ℚ) :
    Triple (Stands w s ref o) (w.protect atr ref o false) (fun _ => Stands w s ref o) (fun _ => Stands w s ref o) :=
  triple_stands (.protect atr ref false) (fun t ht => by rw [act, onRef, ht]) fun _ ht =>
    protect_object w ht

theorem triple_booked (atr : String → Option ℚ) {fill : Fill} (hfill : o.fills.getLast? = some fill) :
    Triple (Stands w s ref o) (w.booked atr ref o fill) (fun _ => Stands w s ref o) (fun _ => Stands w s ref o) := by
  rw [booked_eq]
  refine triple_bind (triple_stands (.book ref) (fun t ht => ?_) fun t ht => triple_left (keeps_book o fill) ht) fun _ => ?_
  · rw [act, onRef, ht]
    dsimp only
    rw [hfill]
    rfl
  · exact triple_protected atr

theorem triple_retired : Triple (Stands w s ref o) (w.retire o) (fun _ => Stands w s ref o) (fun _ => Stands w s ref o) := by
  refine triple_stands (.retire ref) (fun t ht => by rw [act, onRef, ht]) fun t ht => ?_
  have hkeeps : Keeps (Holds ref o) (w.retire o) := by
    unfold StrategyRunner.retire
    exact keeps_ite (keeps_bind (keeps_onStore (holds_core ref o) _) fun _ => keeps_modify fun _ h => h) (keeps_pure _)
  exact triple_left hkeeps ht

theorem triple_checkpointed :
    Triple (Stands w s ref o) w.checkpoint (fun _ => Stands w s ref o) (fun _ => Stands w s ref o) :=
  triple_stands .checkpoint (fun _ _ => rfl) fun _ ht => triple_left (keeps_checkpoint w (holds_core ref o)) ht

/-- **`on_fill_event`** is a run of acts, wherever it raises. -/
theorem fillEvent_acts (atr : String → Option ℚ) (u : TradeUpdate) (s : RunnerState β σ ω) :
    ∃ l, Run (acting w) s l (w.after s (.fillEvent atr u)) := by
  have hevent : Triple (fun t => t = s) (w.onFillEvent atr u) (fun _ t => ∃ l, Run (acting w) s l t)
      (fun _ t => ∃ l, Run (acting w) s l t) := by
    unfold StrategyRunner.onFillEvent
    refine triple_get_bind fun t ht => ?_
    subst ht
    cases hfound : t.tracked u.clientOrderId with
    | none => exact triple_pure _ fun _ h => h ▸ ⟨[], .nil _⟩
    | some found =>
      obtain ⟨ref, before⟩ := found
      obtain ⟨-, hbefore⟩ := tracked_some hfound
      obtain ⟨hlt, -⟩ := List.getElem?_eq_some_iff.1 hbefore
      have hstate (b : Except Exc Bool) (o : Order) (h : exec (applyTradeUpdate u) before = (b, o)) :
          act w t (.update ref u) = { t with desk := { t.desk with heap := t.desk.heap.set ref o } } := by
        rw [act, onRef, hbefore]
        dsimp only
        rw [exec_bind, onObject, exec_within, hbefore, Option.getD_some, h]
        cases b <;> rfl
      have hstands (b : Except Exc Bool) (o : Order) (h : exec (applyTradeUpdate u) before = (b, o)) :
          Stands w t ref o { t with desk := { t.desk with heap := t.desk.heap.set ref o } } :=
        ⟨⟨[.update ref u], .cons (hstate b o h).symm (.nil _)⟩, List.getElem?_set_self hlt⟩
      show Triple (fun s => s = t) (w.onTracked atr u ref before) _ _
      unfold StrategyRunner.onTracked
      refine triple_bind (R := fun _ u' => ∃ o, Stands w t ref o u') ?_ fun changed => ?_
      · apply triple_within
        rintro _ rfl
        rw [hbefore, Option.getD_some]
        exact triple_conseq (triple_exec (applyTradeUpdate u) before) (fun _ h => h) (fun b o h => ⟨o, hstands _ o h⟩)
          fun e o h => (hstands _ o h).1
      refine triple_ite (fun _ => ?_) (fun _ => triple_pure _ fun _ h => h.choose_spec.1)
      refine triple_get_bind fun s₁ hs₁ => ?_
      obtain ⟨o, ho⟩ := hs₁
      rw [ho.2, Option.getD_some]
      have hrest {x : Prog (RunnerState β σ ω) Exc Unit}
          (hx : Triple (Stands w t ref o) x (fun _ => Stands w t ref o) (fun _ => Stands w t ref o)) :
          Triple (fun s => s = s₁) x (fun _ u' => ∃ l, Run (acting w) t l u') (fun _ u' => ∃ l, Run (acting w) t l u') :=
        triple_conseq hx (fun _ h => h ▸ ho) (fun _ _ h => h.1) (fun _ _ h => h.1)
      apply hrest
      dsimp only
      split
      · rename_i fill hfill _
        exact triple_bind (triple_booked atr hfill) fun _ => triple_bind triple_retired fun _ => triple_checkpointed
      · exact triple_ite (fun _ => triple_bind (triple_protected atr) fun _ => triple_retired) (fun _ => triple_retired)
  exact triple_left hevent rfl

end acts

/-! ## A second entry -/

open StopRatchet (openRouter)
open Tracking (runnerOf)

/-- A rule that refuses more than six shares. -/
def sixOrLess : RiskRule Unit Unit where
  name := "max_order_value"
  check o _ _ st := (if 6 < o.qty then .deny "max_order_value" [.lit "too many shares"] else .allow, st)

/-- Stops of more than six shares are refused. -/
def cappedRunner : StrategyRunner Unit Unit Unit Unit := runnerOf { openRouter with rules := [sixOrLess] }

/-- A purchase the venue works. -/
def sentPurchase (id : String) (qty : ℚ) : Order where
  symbol := "AAPL"
  side := .buy
  qty := qty
  id := id
  clientOrderId := id
  status := .submitted

/-- A purchase of ten and one of five work at the venue, and nothing is held. -/
def twoSent : RunnerState Unit Unit Unit where
  desk := {
    portfolio := { cash := 2000, startingEquity := 2000, positions := .empty }, broker := (), risk := ()
    heap := [sentPurchase "e-1" 10, sentPurchase "e-2" 5] }
  store := ()

def filledAt100 (key : String) (qty : ℚ) : TradeUpdate where
  event := "fill"
  clientOrderId := key
  brokerOrderId := key
  symbol := "AAPL"
  «at» := 1
  fill := some { orderId := key, ts := 1, qty := qty, price := 100, fee := 0, venueFillId := some (.execution key) }

/-- The fill of a purchase, as its event has it. -/
def filling (ref : Ref) (key : String) (qty : ℚ) : List Act :=
  [.update ref (filledAt100 key qty), .book ref, .protect (fun _ => none) ref false]

theorem twoSent_sound : Sound twoSent := by
  constructor
  · rintro symbol ref hr
    cases hr
  · rintro symbol entry h
    cases h

/-- The first purchase is filled, and its stop is refused. -/
theorem first_refused : Owed cappedRunner twoSent (filling 0 "e-1" 10) 0 :=
  .refused (l := [.update 0 (filledAt100 "e-1" 10), .book 0]) (a := .protect (fun _ => none) 0 false) ⟨rfl, by decide +kernel⟩
    (by decide +kernel)

/-- Asked again and refused again, the entry stays scheduled. -/
theorem refused_again : Recorded (actAll cappedRunner (filling 0 "e-1" 10 ++ [.turn (fun _ => none) "AAPL" 0]) twoSent) 0 := by
  have hrun : Run (guarded (acting cappedRunner) Undisturbed) twoSent (filling 0 "e-1" 10 ++ [.turn (fun _ => none) "AAPL" 0])
      (actAll cappedRunner (filling 0 "e-1" 10 ++ [.turn (fun _ => none) "AAPL" 0]) twoSent) := by
    have hnone : (actAll cappedRunner [.update 0 (filledAt100 "e-1" 10), .book 0] twoSent).unprotectedEntries = .empty := by
      decide +kernel
    have hsome : (actAll cappedRunner (filling 0 "e-1" 10) twoSent).unprotectedEntries.get? "AAPL" = some 0 := by decide +kernel
    refine .cons ⟨rfl, trivial⟩ (.cons ⟨rfl, trivial⟩ (.cons ⟨rfl, fun o _ _ entry h => ?_⟩ (.cons ⟨rfl, hsome⟩ (.nil _))))
    change (actAll cappedRunner [.update 0 (filledAt100 "e-1" 10), .book 0] twoSent).unprotectedEntries.get? o.symbol = _ at h
    rw [hnone] at h
    cases h
  exact gap_kept twoSent_sound.grounded twoSent_sound.filed hrun (.still first_refused (by decide +kernel))

/-- **A second entry covered in full drops the gap of the first**: fifteen shares are held, five are protected, and neither
the symbol nor the refused entry is recorded. -/
theorem scale_in_forgets : ∃ t, Run (acting cappedRunner) twoSent (filling 0 "e-1" 10 ++ filling 1 "e-2" 5) t ∧
    Owed cappedRunner twoSent (filling 0 "e-1" 10 ++ filling 1 "e-2" 5) 0 ∧
    (t.desk.portfolio.position "AAPL").qty = 15 ∧ t.desk.protectedQty "AAPL" .sell = 5 ∧
    t.unprotected.get? "AAPL" = none ∧ t.unprotectedEntries.get? "AAPL" = none := by
  refine ⟨actAll cappedRunner (filling 0 "e-1" 10 ++ filling 1 "e-2" 5) twoSent, ?_, ?_, ?_⟩
  · exact .cons rfl (.cons rfl (.cons rfl (.cons rfl (.cons rfl (.cons rfl (.nil _))))))
  · have h1 := first_refused.still (a := .update 1 (filledAt100 "e-2" 5)) (by decide +kernel)
    have h2 := h1.still (a := .book 1) (by decide +kernel)
    exact h2.still (a := .protect (fun _ => none) 1 false) (by decide +kernel)
  · decide +kernel

end ProtectionGaps
end Atp
