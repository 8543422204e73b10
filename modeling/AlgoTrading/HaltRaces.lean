import Mathlib.Data.String.Basic
import Mathlib.Data.List.Sort
import Mathlib.Data.List.Dedup
import AlgoTrading.Errors
import AlgoTrading.KillSwitch
import AlgoTrading.Runs
import AlgoTrading.StrMethods
/-!
# HaltRaces — engages and clears that race for one halt

`engage` and `clear` of `risk/killswitch.py` on one scope, any number of each, in any order of their round trips: a
`SET NX`, a `GET` and a compare-and-set that only writes over the bytes it read, against one get-and-delete.
-/
namespace Atp

/-! ## What is stored -/

def HaltScope.value : HaltScope → String
  | .global => "global"
  | .strategy => "strategy"
  | .symbol => "symbol"

def HaltReason.value : HaltReason → String
  | .manual => "manual"
  | .dailyLossLimit => "daily_loss_limit"
  | .reconciliationMismatch => "reconciliation_mismatch"
  | .dataFeedLost => "data_feed_lost"
  | .brokerUnreachable => "broker_unreachable"
  | .rateLimitStorm => "rate_limit_storm"
  | .unhandledException => "unhandled_exception"

def HaltScope.all : List HaltScope := [.global, .strategy, .symbol]

def HaltReason.all : List HaltReason :=
  [.manual, .dailyLossLimit, .reconciliationMismatch, .dataFeedLost, .brokerUnreachable, .rateLimitStorm,
    .unhandledException]

def HaltScope.ofValue (s : String) : Option HaltScope := HaltScope.all.find? fun x => x.value = s

def HaltReason.ofValue (s : String) : Option HaltReason := HaltReason.all.find? fun x => x.value = s

structure ImpugnmentPayload where
  symbols : List String
  reason : String
  «at» : ℤ
  «by» : String
  detail : String
deriving DecidableEq

structure EscalationPayload where
  fromReason : String
  «at» : ℤ
  «by» : String
  detail : String
deriving DecidableEq

/-- The object under a key, its instants as they are: the two later fields are written only when present. -/
structure HaltPayload where
  scope : String
  reason : String
  engagedAt : ℤ
  engagedBy : String
  detail : String
  target : Option String
  escalation : Option EscalationPayload
  impugned : Option (List ImpugnmentPayload)
deriving DecidableEq

/-- **`_encode`.** -/
def HaltRecord.encode (r : HaltRecord) : HaltPayload where
  scope := r.scope.value
  reason := r.reason.value
  engagedAt := r.engagedAt
  engagedBy := r.engagedBy
  detail := r.detail
  target := r.target
  escalation := r.escalation.map fun e => ⟨e.fromReason.value, e.at, e.by, e.detail⟩
  impugned :=
    if r.impugned.isEmpty then none else some (r.impugned.map fun i => ⟨i.symbols, i.reason.value, i.at, i.by, i.detail⟩)

def EscalationPayload.decode (e : EscalationPayload) : Option HaltEscalation := do
  let fromReason ← HaltReason.ofValue e.fromReason
  return ⟨fromReason, e.at, e.by, e.detail⟩

def ImpugnmentPayload.decode (i : ImpugnmentPayload) : Option Impugnment := do
  let reason ← HaltReason.ofValue i.reason
  return ⟨i.symbols, reason, i.at, i.by, i.detail⟩

/-- **`_decode`**; `none` where it raises, on a scope or a reason it does not know. -/
def HaltPayload.decode (p : HaltPayload) : Option HaltRecord := do
  let scope ← HaltScope.ofValue p.scope
  let reason ← HaltReason.ofValue p.reason
  let escalation ← p.escalation.mapM EscalationPayload.decode
  let impugned ← (p.impugned.getD []).mapM ImpugnmentPayload.decode
  return ⟨scope, reason, p.engagedAt, p.engagedBy, p.detail, p.target, escalation, impugned⟩

@[simp] theorem HaltScope.ofValue_value (x : HaltScope) : HaltScope.ofValue x.value = some x := by
  cases x <;> decide

@[simp] theorem HaltReason.ofValue_value (x : HaltReason) : HaltReason.ofValue x.value = some x := by
  cases x <;> decide

theorem decode_impugned : ∀ l : List Impugnment,
    (l.map fun i => (⟨i.symbols, i.reason.value, i.at, i.by, i.detail⟩ : ImpugnmentPayload)).mapM
      ImpugnmentPayload.decode = some l
  | [] => rfl
  | i :: l => by
    rw [List.map_cons, List.mapM_cons, decode_impugned l]
    simp [ImpugnmentPayload.decode]

/-- **What is stored reads back.** -/
@[simp] theorem HaltRecord.decode_encode (r : HaltRecord) : r.encode.decode = some r := by
  obtain ⟨scope, reason, engagedAt, engagedBy, detail, target, escalation, impugned⟩ := r
  have himpugned : ((HaltRecord.encode ⟨scope, reason, engagedAt, engagedBy, detail, target, escalation, impugned⟩).impugned.getD
      []).mapM ImpugnmentPayload.decode = some impugned := by
    unfold HaltRecord.encode
    cases impugned with
    | nil => rfl
    | cons i l => exact decode_impugned (i :: l)
  unfold HaltPayload.decode
  rw [himpugned]
  cases escalation <;> simp [HaltRecord.encode, EscalationPayload.decode]

/-- **`_clean_symbols`.** -/
def cleanSymbols (str : StrMethods) (symbols : List String) : Except Exc (List String) :=
  let cleaned := (symbols.map str.stripUpper).dedup
  if cleaned.any (· = "") then .error ⟨.valueError, [.lit "an impugned symbol cannot be blank"]⟩
  else .ok (cleaned.insertionSort (· ≤ ·))

namespace HaltRaces

open Runs

/-! ## Engages and clears, a round trip at a time -/

structure EngageCall where
  scope : HaltScope
  reason : HaltReason
  engagedBy : String
  detail : String := ""
  target : Option String := none
  symbols : List String := []
deriving DecidableEq

/-- The record one attempt would write. -/
def EngageCall.record (c : EngageCall) (now : ℤ) : HaltRecord where
  scope := c.scope
  reason := c.reason
  engagedAt := now
  engagedBy := c.engagedBy
  detail := c.detail
  target := c.target
  impugned := if c.symbols.isEmpty then [] else [⟨c.symbols, c.reason, now, c.engagedBy, c.detail⟩]

/-- Where an engage stands between two round trips.  One that returned keeps how many clears there had been by then. -/
inductive Phase
  | setting (attempt : ℕ)
  | getting (attempt : ℕ) (record : HaltRecord)
  | swapping (attempt : ℕ) (raw : HaltPayload) (merged : HaltRecord)
  | wrote (record : HaltRecord) (landed : ℕ)
  | found (record : HaltRecord) (landed : ℕ)
  | raised (haltStands : Bool)
  | undecodable
deriving DecidableEq

def maxEngageAttempts : ℕ := 3

/-- The end of a contended round: another, or `KillSwitchUnavailableError`. -/
def again (attempt : ℕ) (lastSawAHalt : Bool) : Phase :=
  if attempt + 1 < maxEngageAttempts then .setting (attempt + 1) else .raised lastSawAHalt

/-- **One round trip of `engage`**: what it leaves under the key, and where the call goes from there. -/
def advance (c : EngageCall) (now : ℤ) (stored : Option HaltPayload) (landed : ℕ) :
    Phase → Option (Option HaltPayload × Phase)
  | .setting n =>
    match stored with
    | none => some (some (c.record now).encode, .wrote (c.record now) landed)
    | some _ => some (stored, .getting n (c.record now))
  | .getting n record =>
    match stored with
    | none => some (stored, again n false)
    | some raw =>
      match raw.decode with
      | none => some (stored, .undecodable)
      | some existing =>
        if merge existing record = existing then some (stored, .found existing landed)
        else some (stored, .swapping n raw (merge existing record))
  | .swapping n raw merged =>
    if stored = some raw then some (some merged.encode, .wrote merged landed) else some (stored, again n true)
  | _ => none

/-- The key, what each clear removed and returned, and every engage called so far. -/
structure Switch where
  stored : Option HaltPayload := none
  cleared : List (HaltPayload × Option HaltRecord) := []
  engages : List (EngageCall × Phase) := []
deriving DecidableEq

inductive Trip
  | engage (call : EngageCall)
  | round (p : ℕ) (now : ℤ)
  | clear (clearedBy : String)

def step (str : StrMethods) (s : Switch) : Trip → Option Switch
  | .engage call =>
    match cleanSymbols str call.symbols with
    | .error _ => none
    | .ok symbols => some { s with engages := s.engages ++ [({ call with symbols := symbols }, .setting 0)] }
  | .round p now =>
    match s.engages[p]? with
    | none => none
    | some e =>
      match advance e.1 now s.stored s.cleared.length e.2 with
      | none => none
      | some r => some { s with stored := r.1, engages := s.engages.set p (e.1, r.2) }
  | .clear clearedBy =>
    if (str.strip clearedBy).isEmpty then none
    else match s.stored with
      | none => some s
      | some raw => some { s with stored := none, cleared := s.cleared ++ [(raw, raw.decode)] }

def Step (str : StrMethods) (s : Switch) (i : Trip) (t : Switch) : Prop := step str s i = some t

/-! ## What a merge keeps -/

/-- A reason is in a record: in force, raised from, or behind an impugnment. -/
def cites (r : HaltRecord) (x : HaltReason) : Bool :=
  decide (r.reason = x) || r.escalation.any (fun e => e.fromReason = x) || r.impugned.any (fun i => i.reason = x)

/-- Only a halt with evidence has been raised. -/
def Formed (r : HaltRecord) : Prop := r.escalation.isSome = true → r.impugned ≠ []

/-- **Nothing is lost**: the same halt, with every symbol and every reason there was. -/
structure Extends (r r' : HaltRecord) : Prop where
  symbols : ∀ x ∈ r.unprovenSymbols, x ∈ r'.unprovenSymbols
  cites : ∀ x, cites r x = true → cites r' x = true
  engaged : r'.engagedAt = r.engagedAt ∧ r'.engagedBy = r.engagedBy

theorem Extends.refl (r : HaltRecord) : Extends r r := ⟨fun _ h => h, fun _ h => h, rfl, rfl⟩

/-- The impugnments an engage brings to a record: those that name a symbol it does not cover. -/
def freshOf (existing incoming : HaltRecord) : List Impugnment :=
  incoming.impugned.filter fun item => !item.symbols.all (existing.unprovenSymbols.contains ·)

/-- **The three outcomes of a merge.** -/
theorem merge_cases (existing incoming : HaltRecord) :
    (freshOf existing incoming = [] ∧ merge existing incoming = existing) ∨
      (freshOf existing incoming ≠ [] ∧ existing.impugned ≠ [] ∧
        merge existing incoming = { existing with impugned := existing.impugned ++ freshOf existing incoming }) ∨
      (freshOf existing incoming ≠ [] ∧ existing.impugned = [] ∧ merge existing incoming =
        { existing with
          reason := incoming.reason
          impugned := freshOf existing incoming
          escalation := some ⟨existing.reason, incoming.engagedAt, incoming.engagedBy, incoming.detail⟩ }) := by
  have hmerge : merge existing incoming = if !(!(freshOf existing incoming).isEmpty && existing.impugned.isEmpty) then
      (if (freshOf existing incoming).isEmpty then existing
        else { existing with impugned := existing.impugned ++ freshOf existing incoming })
      else { existing with
        reason := incoming.reason
        impugned := existing.impugned ++ freshOf existing incoming
        escalation := some ⟨existing.reason, incoming.engagedAt, incoming.engagedBy, incoming.detail⟩ } := rfl
  rw [hmerge]
  cases hfresh : freshOf existing incoming with
  | nil => simp
  | cons i l =>
    cases himpugned : existing.impugned with
    | nil => simp
    | cons j m => simp

theorem mem_unproven {r : HaltRecord} {x : String} : x ∈ r.unprovenSymbols ↔ ∃ i ∈ r.impugned, x ∈ i.symbols := by
  unfold HaltRecord.unprovenSymbols
  rw [List.mem_flatMap]

theorem cites_iff {r : HaltRecord} {x : HaltReason} : cites r x = true ↔
    r.reason = x ∨ (∃ e, r.escalation = some e ∧ e.fromReason = x) ∨ ∃ i ∈ r.impugned, i.reason = x := by
  unfold cites
  simp only [Bool.or_eq_true, decide_eq_true_eq, List.any_eq_true, Option.any_eq_true, or_assoc]

variable {existing incoming : HaltRecord}

/-- **A merge loses nothing.** -/
theorem merge_extends (h : Formed existing) : Extends existing (merge existing incoming) ∧ Formed (merge existing incoming) := by
  rcases merge_cases existing incoming with ⟨-, hm⟩ | ⟨hfresh, hsome, hm⟩ | ⟨hfresh, hnone, hm⟩ <;> rw [hm]
  · exact ⟨Extends.refl existing, h⟩
  · refine ⟨⟨fun x hx => ?_, fun x hx => ?_, rfl, rfl⟩, fun _ => ?_⟩
    · obtain ⟨i, hi, hxi⟩ := mem_unproven.1 hx
      exact mem_unproven.2 ⟨i, List.mem_append_left _ hi, hxi⟩
    · rw [cites_iff] at hx ⊢
      obtain hx | hx | ⟨i, hi, hx⟩ := hx
      · exact .inl hx
      · exact .inr (.inl hx)
      · exact .inr (.inr ⟨i, List.mem_append_left _ hi, hx⟩)
    · exact List.append_ne_nil_of_left_ne_nil hsome _
  · -- a halt that has no evidence has not been raised, so its reason is all there is to keep
    have hflat : existing.escalation = none := by
      by_contra hne
      exact h (Option.isSome_iff_ne_none.2 hne) hnone
    refine ⟨⟨fun x hx => ?_, fun x hx => ?_, rfl, rfl⟩, fun _ => hfresh⟩
    · obtain ⟨i, hi, -⟩ := mem_unproven.1 hx
      rw [hnone] at hi
      cases hi
    · rw [cites_iff, hflat, hnone] at hx
      rw [cites_iff]
      obtain hx | ⟨e, he, -⟩ | ⟨i, hi, -⟩ := hx
      · exact .inr (.inl ⟨_, rfl, hx⟩)
      · cases he
      · cases hi

/-- **A merge covers what came in.** -/
theorem merge_covers (x : String) (hx : x ∈ incoming.unprovenSymbols) : x ∈ (merge existing incoming).unprovenSymbols := by
  obtain ⟨i, hi, hxi⟩ := mem_unproven.1 hx
  have hcovered (hmem : i ∉ freshOf existing incoming) : x ∈ existing.unprovenSymbols := by
    unfold freshOf at hmem
    rw [List.mem_filter] at hmem
    by_contra hnot
    refine hmem ⟨hi, ?_⟩
    rw [Bool.not_eq_true', List.all_eq_false]
    exact ⟨x, hxi, by simpa using hnot⟩
  by_cases hfresh : i ∈ freshOf existing incoming
  · rw [mem_unproven]
    rcases merge_cases existing incoming with ⟨hnil, -⟩ | ⟨-, -, hm⟩ | ⟨-, -, hm⟩
    · rw [hnil] at hfresh
      cases hfresh
    · rw [hm]
      exact ⟨i, List.mem_append_right _ hfresh, hxi⟩
    · rw [hm]
      exact ⟨i, hfresh, hxi⟩
  · have hold := hcovered hfresh
    rcases merge_cases existing incoming with ⟨-, hm⟩ | ⟨-, -, hm⟩ | ⟨-, hnone, -⟩
    · rw [hm]
      exact hold
    · obtain ⟨j, hj, hxj⟩ := mem_unproven.1 hold
      rw [hm, mem_unproven]
      exact ⟨j, List.mem_append_left _ hj, hxj⟩
    · obtain ⟨j, hj, -⟩ := mem_unproven.1 hold
      rw [hnone] at hj
      cases hj

/-- A merge that changes the record has one of the incoming impugnments in it. -/
theorem merge_adds (h : merge existing incoming ≠ existing) :
    ∃ i ∈ incoming.impugned, i ∈ (merge existing incoming).impugned := by
  have hfresh : freshOf existing incoming ≠ [] := by
    intro hnil
    rcases merge_cases existing incoming with ⟨-, hm⟩ | ⟨hne, -⟩ | ⟨hne, -⟩
    · exact h hm
    · exact hne hnil
    · exact hne hnil
  obtain ⟨i, hi⟩ := List.exists_mem_of_ne_nil _ hfresh
  refine ⟨i, (List.mem_filter.1 hi).1, ?_⟩
  rcases merge_cases existing incoming with ⟨hnil, -⟩ | ⟨-, -, hm⟩ | ⟨-, -, hm⟩
  · exact absurd hnil hfresh
  · rw [hm]
    exact List.mem_append_right _ hi
  · rw [hm]
    exact hi

/-! ## What every round trip keeps -/

section
variable {str : StrMethods} {c : EngageCall} {now : ℤ} {s t : Switch}

@[simp] theorem record_unproven (c : EngageCall) (now : ℤ) : (c.record now).unprovenSymbols = c.symbols := by
  unfold EngageCall.record HaltRecord.unprovenSymbols
  cases c.symbols <;> simp

theorem record_formed (c : EngageCall) (now : ℤ) : Formed (c.record now) := fun h => by cases h

theorem record_cites (c : EngageCall) (now : ℤ) : cites (c.record now) c.reason = true := cites_iff.2 (.inl rfl)

theorem record_reason {i : Impugnment} (h : i ∈ (c.record now).impugned) : i.reason = c.reason := by
  unfold EngageCall.record at h
  dsimp only at h
  split_ifs at h
  · cases h
  · rw [List.mem_singleton.1 h]

theorem encode_injective {r q : HaltRecord} (h : r.encode = q.encode) : r = q := by
  have hdecode := congrArg HaltPayload.decode h
  rwa [HaltRecord.decode_encode, HaltRecord.decode_encode, Option.some.injEq] at hdecode

/-- **Evidence is kept** since `landed` clears: it stands under the key, or a later clear returned it. -/
def Kept (s : Switch) (landed : ℕ) (P : HaltRecord → Prop) : Prop :=
  landed ≤ s.cleared.length ∧
    ((∃ r, s.stored = some r.encode ∧ P r) ∨ ∃ e ∈ s.cleared.drop landed, ∃ r, e.2 = some r ∧ P r)

/-- What is true of an engage in each of its phases. -/
def Fair (s : Switch) (c : EngageCall) : Phase → Prop
  | .setting _ => True
  | .getting _ record => ∃ now, record = c.record now
  | .swapping _ raw merged => ∃ existing now, raw = existing.encode ∧ Formed existing ∧
      merged = merge existing (c.record now) ∧ merged ≠ existing
  | .wrote r landed => (∀ x ∈ c.symbols, x ∈ r.unprovenSymbols ∧ Kept s landed fun q => x ∈ q.unprovenSymbols) ∧
      cites r c.reason = true ∧ Kept s landed fun q => cites q c.reason = true
  | .found r landed => ∀ x ∈ c.symbols, x ∈ r.unprovenSymbols ∧ Kept s landed fun q => x ∈ q.unprovenSymbols
  | .raised _ => True
  | .undecodable => False

structure Sound (s : Switch) : Prop where
  stored : ∀ raw, s.stored = some raw → ∃ r, raw = r.encode ∧ Formed r
  cleared : ∀ e ∈ s.cleared, ∃ r : HaltRecord, e = (r.encode, some r)
  engages : ∀ (p : ℕ) c phase, s.engages[p]? = some (c, phase) → Fair s c phase

theorem again_fair (s : Switch) (c : EngageCall) (n : ℕ) (b : Bool) : Fair s c (again n b) := by
  unfold again
  split_ifs <;> trivial

/-- Neither a write nor a standing halt was answered with. -/
def Phase.Underway : Phase → Prop
  | .wrote _ _ | .found _ _ => False
  | _ => True

theorem again_underway (n : ℕ) (b : Bool) : (again n b).Underway := by
  unfold again
  split_ifs <;> trivial

/-- **What one round trip can do**: go on without writing, answer with a halt that covers the call, or write one that covers it
and loses nothing of the one it replaces. -/
inductive Outcome (c : EngageCall) (stored : Option HaltPayload) (landed : ℕ) : Option HaltPayload → Phase → Prop
  | underway (phase : Phase) (hunderway : phase.Underway) (hfair : ∀ s, Fair s c phase) : Outcome c stored landed stored phase
  | found (r : HaltRecord) (hstored : stored = some r.encode) (hcovers : ∀ x ∈ c.symbols, x ∈ r.unprovenSymbols) :
      Outcome c stored landed stored (.found r landed)
  | wrote (r : HaltRecord) (hformed : Formed r) (hcovers : ∀ x ∈ c.symbols, x ∈ r.unprovenSymbols)
      (hcites : cites r c.reason = true) (hextends : ∀ q, stored = some q.encode → Extends q r) :
      Outcome c stored landed (some r.encode) (.wrote r landed)

theorem advance_outcome {stored stored' : Option HaltPayload} {landed : ℕ} {phase phase' : Phase}
    (hstored : ∀ raw, stored = some raw → ∃ r, raw = r.encode ∧ Formed r) (hfair : Fair s c phase)
    (h : advance c now stored landed phase = some (stored', phase')) : Outcome c stored landed stored' phase' := by
  cases phase with
  | setting n =>
    cases stored with
    | none =>
      cases h
      refine .wrote (c.record now) (record_formed c now) (fun x hx => ?_) (record_cites c now) (by simp)
      rwa [record_unproven]
    | some raw =>
      cases h
      exact .underway _ trivial fun _ => ⟨now, rfl⟩
  | getting n record =>
    obtain ⟨now, rfl⟩ := hfair
    cases hs : stored with
    | none =>
      subst hs
      cases h
      exact .underway _ (again_underway n false) fun s => again_fair s c n false
    | some raw =>
      obtain ⟨existing, rfl, hformed⟩ := hstored raw hs
      subst hs
      simp only [advance, HaltRecord.decode_encode] at h
      by_cases hm : merge existing (c.record now) = existing
      · rw [if_pos hm] at h
        cases h
        refine .found existing rfl fun x hx => ?_
        exact hm ▸ merge_covers x (by rwa [record_unproven])
      · rw [if_neg hm] at h
        cases h
        exact .underway _ trivial fun _ => ⟨existing, now, rfl, hformed, rfl, hm⟩
  | swapping n raw merged =>
    obtain ⟨existing, now, rfl, hformed, rfl, hm⟩ := hfair
    simp only [advance] at h
    by_cases hs : stored = some existing.encode
    · rw [if_pos hs] at h
      cases h
      obtain ⟨hextends, hformed'⟩ : Extends existing (merge existing (c.record now)) ∧ Formed (merge existing (c.record now)) :=
        merge_extends hformed
      obtain ⟨i, hi, hmem⟩ := merge_adds hm
      refine .wrote _ hformed' (fun x hx => merge_covers x (by rwa [record_unproven])) ?_ fun q hq => ?_
      · exact cites_iff.2 (.inr (.inr ⟨i, hmem, record_reason hi⟩))
      · rw [hs, Option.some.injEq] at hq
        exact encode_injective hq ▸ hextends
    · rw [if_neg hs] at h
      cases h
      exact .underway _ (again_underway n true) fun s => again_fair s c n true
  | wrote r landed => cases h
  | found r landed => cases h
  | raised b => cases h
  | undecodable => cases h

/-- What a step makes of the key: a record that extends the one there, or a clear that returns it. -/
def Onward (s t : Switch) : Prop :=
  (t.cleared = s.cleared ∧ ∀ r, s.stored = some r.encode → ∃ r', t.stored = some r'.encode ∧ Extends r r') ∨
    ∃ r, s.stored = some r.encode ∧ t.stored = none ∧ t.cleared = s.cleared ++ [(r.encode, some r)]

/-- **Evidence that an extension keeps, a step keeps.** -/
theorem Kept.onward {landed : ℕ} {P : HaltRecord → Prop} (h : Kept s landed P) (hst : Onward s t)
    (hP : ∀ r r', Extends r r' → P r → P r') : Kept t landed P := by
  obtain ⟨hlanded, hkept⟩ := h
  rcases hst with ⟨hcleared, hstored⟩ | ⟨r, hstored, -, hcleared⟩ <;> unfold Kept <;> rw [hcleared]
  · refine ⟨hlanded, hkept.imp_left ?_⟩
    rintro ⟨r, hr, hPr⟩
    obtain ⟨r', hr', hextends⟩ := hstored r hr
    exact ⟨r', hr', hP r r' hextends hPr⟩
  · refine ⟨by rw [List.length_append]; omega, .inr ?_⟩
    rw [List.drop_append_of_le_length hlanded]
    rcases hkept with ⟨q, hq, hPq⟩ | ⟨e, he, q, hq, hPq⟩
    · rw [hstored, Option.some.injEq] at hq
      exact ⟨_, List.mem_append_right _ (List.mem_singleton_self _), r, rfl, encode_injective hq ▸ hPq⟩
    · exact ⟨e, List.mem_append_left _ he, q, hq, hPq⟩

theorem Fair.onward {phase : Phase} (h : Fair s c phase) (hst : Onward s t) : Fair t c phase := by
  have hsymbol {n : ℕ} (x : String) (hx : Kept s n fun q => x ∈ q.unprovenSymbols) : Kept t n fun q => x ∈ q.unprovenSymbols :=
    hx.onward hst fun _ _ hextends => hextends.symbols x
  cases phase with
  | wrote r n =>
    obtain ⟨hsymbols, hcites, hkept⟩ := h
    exact ⟨fun x hx => ⟨(hsymbols x hx).1, hsymbol x (hsymbols x hx).2⟩, hcites,
      hkept.onward hst fun _ _ hextends => hextends.cites c.reason⟩
  | found r n => exact fun x hx => ⟨(h x hx).1, hsymbol x (h x hx).2⟩
  | setting n => exact h
  | getting n record => exact h
  | swapping n raw merged => exact h
  | raised b => exact h
  | undecodable => exact h

/-- **What one step can do.** -/
theorem step_cases {i : Trip} (h : Sound s) (hstep : Step str s i t) :
    (∃ c, t = { s with engages := s.engages ++ [(c, .setting 0)] }) ∨
      (∃ p c phase stored phase', s.engages[p]? = some (c, phase) ∧ Outcome c s.stored s.cleared.length stored phase' ∧
        t = { s with stored := stored, engages := s.engages.set p (c, phase') }) ∨
        ∃ clearedBy, i = .clear clearedBy ∧ ((s.stored = none ∧ t = s) ∨ ∃ r, s.stored = some r.encode ∧
          t = { s with stored := none, cleared := s.cleared ++ [(r.encode, some r)] }) := by
  unfold Step at hstep
  cases i with
  | engage call =>
    simp only [step] at hstep
    cases hclean : cleanSymbols str call.symbols with
    | error e => simp [hclean] at hstep
    | ok symbols =>
      simp only [hclean, Option.some.injEq] at hstep
      exact .inl ⟨_, hstep.symm⟩
  | round p now =>
    simp only [step] at hstep
    cases hp : s.engages[p]? with
    | none => simp [hp] at hstep
    | some e =>
      obtain ⟨c, phase⟩ := e
      simp only [hp] at hstep
      cases hadvance : advance c now s.stored s.cleared.length phase with
      | none => simp [hadvance] at hstep
      | some r =>
        simp only [hadvance, Option.some.injEq] at hstep
        exact .inr (.inl ⟨p, c, phase, r.1, r.2, hp, advance_outcome h.stored (h.engages p c phase hp) hadvance, hstep.symm⟩)
  | clear clearedBy =>
    simp only [step] at hstep
    split_ifs at hstep
    refine .inr (.inr ⟨clearedBy, rfl, ?_⟩)
    cases hs : s.stored with
    | none =>
      simp only [hs, Option.some.injEq] at hstep
      exact .inl ⟨rfl, hstep.symm⟩
    | some raw =>
      obtain ⟨r, rfl, -⟩ := h.stored raw hs
      simp only [hs, HaltRecord.decode_encode, Option.some.injEq] at hstep
      exact .inr ⟨r, rfl, hstep.symm⟩

theorem step_onward {i : Trip} (h : Sound s) (hstep : Step str s i t) : Onward s t := by
  rcases step_cases h hstep with ⟨c, rfl⟩ | ⟨p, c, phase, stored, phase', -, hout, rfl⟩ | ⟨clearedBy, -, ⟨hs, rfl⟩ | ⟨r, hs, rfl⟩⟩
  · exact .inl ⟨rfl, fun r hr => ⟨r, hr, Extends.refl r⟩⟩
  · refine .inl ⟨rfl, fun r hr => ?_⟩
    cases hout with
    | underway _ _ _ => exact ⟨r, hr, Extends.refl r⟩
    | found _ _ _ => exact ⟨r, hr, Extends.refl r⟩
    | wrote q hformed hcovers hcites hextends => exact ⟨q, rfl, hextends r hr⟩
  · exact .inl ⟨rfl, fun r hr => ⟨r, hr, Extends.refl r⟩⟩
  · exact .inr ⟨r, hs, rfl, rfl⟩

/-- A call adds itself, and nothing else. -/
theorem called {l : List (EngageCall × Phase)} {x y : EngageCall × Phase} {q : ℕ} (h : (l ++ [x])[q]? = some y) :
    l[q]? = some y ∨ y = x := by
  rw [List.getElem?_append] at h
  split_ifs at h
  · exact .inl h
  · obtain ⟨_, hy⟩ := List.getElem?_eq_some_iff.1 h
    exact .inr (hy.symm.trans (List.getElem_singleton ..))

/-- **Every step keeps the engages fair, and each clear returns what it removed.** -/
theorem step_sound {i : Trip} (h : Sound s) (hstep : Step str s i t) : Sound t := by
  have honward := step_onward h hstep
  have hengages (p : ℕ) (c : EngageCall) (phase : Phase) (hp : s.engages[p]? = some (c, phase)) : Fair t c phase :=
    (h.engages p c phase hp).onward honward
  rcases step_cases h hstep with ⟨c, rfl⟩ | ⟨p, c, phase, stored, phase', hp, hout, rfl⟩ | ⟨clearedBy, -, ⟨hs, rfl⟩ | ⟨r, hs, rfl⟩⟩
  · refine ⟨h.stored, h.cleared, fun q d phase hq => ?_⟩
    rcases called hq with hq | hd
    · exact hengages q d phase hq
    · obtain ⟨rfl, rfl⟩ := Prod.mk.inj hd
      trivial
  · refine ⟨fun raw hraw => ?_, h.cleared, fun q d phase'' hq => ?_⟩
    · cases hout with
      | underway _ _ _ => exact h.stored raw hraw
      | found _ _ _ => exact h.stored raw hraw
      | wrote r hformed _ _ _ => exact ⟨r, (Option.some.inj hraw).symm, hformed⟩
    · rw [List.getElem?_set] at hq
      split_ifs at hq with hqp
      · simp only [Option.some.injEq, Prod.mk.injEq] at hq
        obtain ⟨rfl, rfl⟩ := hq
        cases hout with
        | underway _ _ hfair => exact hfair _
        | found r hstored hcovers => exact fun x hx => ⟨hcovers x hx, le_refl _, .inl ⟨r, hstored, hcovers x hx⟩⟩
        | wrote r _ hcovers hcites _ =>
          exact ⟨fun x hx => ⟨hcovers x hx, le_refl _, .inl ⟨r, rfl, hcovers x hx⟩⟩, hcites, le_refl _, .inl ⟨r, rfl, hcites⟩⟩
      · exact hengages q d phase'' hq
  · exact h
  · refine ⟨fun raw hraw => (by cases hraw), fun e he => ?_, hengages⟩
    rcases List.mem_append.1 he with he | he
    · exact h.cleared e he
    · exact ⟨r, List.mem_singleton.1 he⟩

theorem sound_always {l : List Trip} (h : Run (Step str) {} l s) : Sound s :=
  run_invariant Sound (fun _ _ _ hs hstep => step_sound hs hstep) ⟨by simp, by simp, by simp⟩ h

/-! ## What the calls can rely on -/

/-- What is known of every engage that has returned, and of every clear. -/
structure Evidenced (s : Switch) : Prop where
  wrote : ∀ (p : ℕ) c r n, s.engages[p]? = some (c, .wrote r n) →
    (∀ x ∈ c.symbols, x ∈ r.unprovenSymbols ∧ Kept s n fun q => x ∈ q.unprovenSymbols) ∧
      cites r c.reason = true ∧ Kept s n fun q => cites q c.reason = true
  found : ∀ (p : ℕ) c r n, s.engages[p]? = some (c, .found r n) →
    ∀ x ∈ c.symbols, x ∈ r.unprovenSymbols ∧ Kept s n fun q => x ∈ q.unprovenSymbols
  cleared : ∀ e ∈ s.cleared, ∃ r : HaltRecord, e = (r.encode, some r)

/-- What a step did for the engage that returned in it, and to the record it met. -/
structure Exact (s : Switch) (i : Trip) (t : Switch) : Prop where
  wrote : ∀ (p : ℕ) c r n, t.engages[p]? = some (c, .wrote r n) → s.engages[p]? ≠ some (c, .wrote r n) →
    n = s.cleared.length ∧ t.stored = some r.encode
  found : ∀ (p : ℕ) c r n, t.engages[p]? = some (c, .found r n) → s.engages[p]? ≠ some (c, .found r n) →
    n = s.cleared.length ∧ s.stored = some r.encode ∧ t.stored = s.stored
  leaves : ∀ r, s.stored = some r.encode → (∃ r', t.stored = some r'.encode ∧ Extends r r') ∨
    (∃ clearedBy, i = .clear clearedBy) ∧ t.stored = none ∧ t.cleared = s.cleared ++ [(r.encode, some r)]

theorem step_exact {i : Trip} (h : Sound s) (hstep : Step str s i t) : Exact s i t := by
  rcases step_cases h hstep with ⟨c, rfl⟩ | ⟨p, c, phase, stored, phase', hp, hout, rfl⟩ |
    ⟨clearedBy, hi, ⟨hs, rfl⟩ | ⟨r, hs, rfl⟩⟩
  · have hsame (q : ℕ) (d : EngageCall) (phase : Phase) (hphase : phase ≠ .setting 0)
        (hq : (s.engages ++ [(c, Phase.setting 0)])[q]? = some (d, phase)) : s.engages[q]? = some (d, phase) :=
      (called hq).resolve_right fun hd => hphase (Prod.mk.inj hd).2
    exact ⟨fun q d r n hq hne => absurd (hsame q d _ (by simp) hq) hne, fun q d r n hq hne => absurd (hsame q d _ (by simp) hq) hne,
      fun r hr => .inl ⟨r, hr, Extends.refl r⟩⟩
  · have hmoved (q : ℕ) (d : EngageCall) (phase : Phase) (hq : (s.engages.set p (c, phase'))[q]? = some (d, phase))
        (hne : s.engages[q]? ≠ some (d, phase)) : phase = phase' := by
      rw [List.getElem?_set] at hq
      split_ifs at hq
      · simp only [Option.some.injEq, Prod.mk.injEq] at hq
        exact hq.2.symm
      · exact absurd hq hne
    refine ⟨fun q d r n hq hne => ?_, fun q d r n hq hne => ?_, fun r hr => .inl ?_⟩
    · obtain rfl := hmoved q d _ hq hne
      cases hout with
      | underway _ hunderway _ => exact hunderway.elim
      | wrote _ _ _ _ _ => exact ⟨rfl, rfl⟩
    · obtain rfl := hmoved q d _ hq hne
      cases hout with
      | underway _ hunderway _ => exact hunderway.elim
      | found _ hstored _ => exact ⟨rfl, hstored, rfl⟩
    · cases hout with
      | underway _ _ _ => exact ⟨r, hr, Extends.refl r⟩
      | found _ _ _ => exact ⟨r, hr, Extends.refl r⟩
      | wrote q _ _ _ hextends => exact ⟨q, rfl, hextends r hr⟩
  · exact ⟨fun q d r n hq hne => absurd hq hne, fun q d r n hq hne => absurd hq hne, fun r hr => .inl ⟨r, hr, Extends.refl r⟩⟩
  · refine ⟨fun q d r n hq hne => absurd hq hne, fun q d r n hq hne => absurd hq hne, fun q hq => .inr ⟨⟨clearedBy, hi⟩, rfl, ?_⟩⟩
    rw [hs, Option.some.injEq] at hq
    rw [encode_injective hq]

/-- **Evidence is not lost to a race.**  Whatever the order of the round trips, an engage that returned either wrote a record
with all its symbols and its reason in it, which stood under the key as it returned, or wrote nothing and found one with all
its symbols; a record leaves the key only for one that extends it or by a clear, which returns it; and what a returned engage
asserted stands under the key or is in what a later clear returned. -/
theorem evidence_kept {l : List Trip} (h : Run (Step str) {} l s) : Evidenced s ∧ ∀ i t, Step str s i t → Exact s i t := by
  have hsound := sound_always h
  exact ⟨⟨fun p c r n hp => hsound.engages p c _ hp, fun p c r n hp => hsound.engages p c _ hp, hsound.cleared⟩,
    fun i t hstep => step_exact hsound hstep⟩

end

/-! ## Two engages of one halt -/

def byHand : EngageCall := { scope := .global, reason := .manual, engagedBy := "operator" }

def byReconciler : EngageCall :=
  { scope := .global, reason := .reconciliationMismatch, engagedBy := "reconciler", symbols := ["SPY"] }

def byFeed : EngageCall := { scope := .global, reason := .dataFeedLost, engagedBy := "worker" }

/-- The hand's halt, raised by the reconciler's evidence. -/
def raisedHalt : HaltRecord :=
  { byHand.record 10 with
    reason := .reconciliationMismatch
    escalation := some ⟨.manual, 20, "reconciler", ""⟩
    impugned := [⟨["SPY"], .reconciliationMismatch, 20, "reconciler", ""⟩] }

/-- A halt by hand, the reconciler's evidence merged into it, and a clear that returns both. -/
theorem evidence_kept_cleared : ∃ s, Run (Step .ascii) {} [.engage byHand, .round 0 10, .engage byReconciler, .round 1 20, .round 1 21,
      .round 1 22, .clear "operator"] s ∧
    s.stored = none ∧ ∃ e ∈ s.cleared, ∃ r, e.2 = some r ∧ "SPY" ∈ r.unprovenSymbols := by
  have hfold : ([.engage byHand, .round 0 10, .engage byReconciler, .round 1 20, .round 1 21, .round 1 22,
      .clear "operator"].foldlM (step .ascii) {}).map (fun s => (s.stored, s.engages[1]?)) =
        some (none, some (byReconciler, .wrote raisedHalt 0)) := by decide +kernel
  obtain ⟨s, hs, hend⟩ := Option.map_eq_some_iff.1 hfold
  obtain ⟨hstored, hwrote⟩ := Prod.mk.inj hend
  have hrun : Run (Step .ascii) {} _ s := run_fold_iff.2 hs
  obtain ⟨hevidence, -⟩ := evidence_kept hrun
  obtain ⟨-, ⟨r, hr, -⟩ | ⟨e, he, hr⟩⟩ := ((hevidence.wrote 1 byReconciler raisedHalt 0 hwrote).1 "SPY" (by decide)).2
  · rw [hstored] at hr
    cases hr
  · exact ⟨s, hrun, hstored, e, he, hr⟩

/-- **An engage can return without its reason being written**: beside a standing halt, one that impugns nothing writes nothing. -/
theorem reason_unwritten : ¬ ∀ (l : List Trip) (s : Switch) (p : ℕ) (c : EngageCall) (r : HaltRecord) (n : ℕ),
    Run (Step .ascii) {} l s → s.engages[p]? = some (c, .wrote r n) ∨ s.engages[p]? = some (c, .found r n) →
      ∃ l₁ l₂ u q, l = l₁ ++ l₂ ∧ Run (Step .ascii) {} l₁ u ∧ u.stored = some q.encode ∧ (∀ x ∈ c.symbols, x ∈ q.unprovenSymbols) ∧
        cites q c.reason = true := by
  intro h
  let l : List Trip := [.engage byHand, .round 0 10, .engage byFeed, .round 1 20, .round 1 21]
  have hfold : (l.foldlM (step .ascii) {}).map (fun s => s.engages[1]?) = some (some (byFeed, .found (byHand.record 10) 0)) := by
    decide +kernel
  obtain ⟨s, hs, hfound⟩ := Option.map_eq_some_iff.1 hfold
  obtain ⟨l₁, l₂, u, q, hl, hrun, hstored, -, hcites⟩ := h l s 1 byFeed _ 0 (run_fold_iff.2 hs) (.inr hfound)
  -- no state on the way has the feed's reason under the key
  have hnever : ∀ k ≤ l.length, ((l.take k).foldlM (step .ascii) {}).all
      (fun u => u.stored.all fun raw => raw.decode.all fun q => !cites q .dataFeedLost) = true := by decide +kernel
  have htaken : l.take l₁.length = l₁ := by rw [hl, List.take_left']; rfl
  have hcheck := hnever l₁.length (by rw [hl, List.length_append]; omega)
  rw [htaken, run_fold_iff.1 hrun] at hcheck
  simp only [Option.all_some, hstored, HaltRecord.decode_encode] at hcheck
  rw [show byFeed.reason = .dataFeedLost from rfl] at hcites
  simp [hcites] at hcheck

end HaltRaces
end Atp
