import Mathlib.Data.List.TakeWhile
import Mathlib.Logic.Encodable.Basic
import AlgoTrading.HaltRaces
/-!
# HaltStorage — halt records as they are stored, and what is read back of any document

`_encode`, `_decode` and `halt_state` of `risk/killswitch.py` over what `json.loads` makes of the stored bytes.  A record read
back is typed as far as `_decode` looks: its scope, reasons and instants are, and everything else is whatever the document
holds.  What the switch writes reads back equal, and anything stored under a covering key halts; a symbol that is listed is
reported unless a record before it lists one that no set can hold (`halts_survive`, `list_hides_symbol`).
-/
namespace Atp

/-- What `json.loads` returns: a number is kept as its literal, an object as its items. -/
inductive Json
  | null
  | bool (b : Bool)
  | num (literal : String)
  | str (s : String)
  | list (items : List Json)
  | obj (fields : List (String × Json))

namespace Json

def lookup (name : String) : List (String × Json) → Option Json
  | [] => none
  | f :: l => if f.1 = name then some f.2 else lookup name l

/-- `v[name]`; `none` where it raises. -/
def item (v : Json) (name : String) : Option Json :=
  match v with
  | .obj fields => lookup name fields
  | _ => none

/-- `v.get(name, default)`; `none` where it raises. -/
def get (v : Json) (name : String) (default : Json) : Option Json :=
  match v with
  | .obj fields => some ((lookup name fields).getD default)
  | _ => none

/-- What `for x in v` goes through; `none` where it raises. -/
def iter : Json → Option (List Json)
  | .list items => some items
  | .str s => some (s.toList.map fun c => .str (String.ofList [c]))
  | .obj fields => some (fields.map fun f => .str f.1)
  | _ => none

def string? : Json → Option String
  | .str s => some s
  | _ => none

/-- What a set can hold. -/
def hashable : Json → Bool
  | .list _ => false
  | .obj _ => false
  | _ => true

def ofOption (s : Option String) : Json := s.elim .null .str

end Json

/-- `datetime.isoformat` of an aware instant, and `datetime.fromisoformat`, its inverse. -/
structure IsoFormat where
  isoformat : ℤ → String
  fromisoformat : String → Option ℤ
  inverse : ∀ t, fromisoformat (isoformat t) = some t

namespace HaltStorage

/-! ## Records as they are read -/

structure Escalation where
  fromReason : HaltReason
  «at» : ℤ
  «by» : Json
  detail : Json

structure Impugned where
  symbols : List Json
  reason : HaltReason
  «at» : ℤ
  «by» : Json
  detail : Json

structure Halt where
  scope : HaltScope
  reason : HaltReason
  engagedAt : ℤ
  engagedBy : Json
  detail : Json
  target : Json
  escalation : Option Escalation
  impugned : List Impugned

/-- A record of the switch's own, as one that is read. -/
def ofRecord (r : HaltRecord) : Halt where
  scope := r.scope
  reason := r.reason
  engagedAt := r.engagedAt
  engagedBy := .str r.engagedBy
  detail := .str r.detail
  target := .ofOption r.target
  escalation := r.escalation.map fun e => ⟨e.fromReason, e.at, .str e.by, .str e.detail⟩
  impugned := r.impugned.map fun i => ⟨i.symbols.map .str, i.reason, i.at, .str i.by, .str i.detail⟩

variable (iso : IsoFormat)

def encodeEscalation (e : HaltEscalation) : Json :=
  .obj [("from_reason", .str e.fromReason.value), ("at", .str (iso.isoformat e.at)), ("by", .str e.by), ("detail", .str e.detail)]

def encodeImpugnment (i : Impugnment) : Json :=
  .obj [("symbols", .list (i.symbols.map .str)), ("reason", .str i.reason.value), ("at", .str (iso.isoformat i.at)),
    ("by", .str i.by), ("detail", .str i.detail)]

/-- **`_encode`**: the two later fields are written only when present. -/
def encode (r : HaltRecord) : Json :=
  .obj ([("scope", .str r.scope.value), ("reason", .str r.reason.value), ("engaged_at", .str (iso.isoformat r.engagedAt)),
      ("engaged_by", .str r.engagedBy), ("detail", .str r.detail), ("target", .ofOption r.target)] ++
    (r.escalation.map fun e => ("escalation", encodeEscalation iso e)).toList ++
    (if r.impugned.isEmpty then [] else [("impugned", .list (r.impugned.map (encodeImpugnment iso)))]))

def instant (v : Json) : Option ℤ := v.string?.bind iso.fromisoformat

def reason (v : Json) : Option HaltReason := v.string?.bind HaltReason.ofValue

def decodeEscalation (e : Json) : Option Escalation := do
  let fromReason ← reason (← e.item "from_reason")
  let at' ← instant iso (← e.item "at")
  return ⟨fromReason, at', ← e.item "by", ← e.get "detail" (.str "")⟩

def decodeImpugnment (i : Json) : Option Impugned := do
  let symbols ← (← i.item "symbols").iter
  let reason ← reason (← i.item "reason")
  let at' ← instant iso (← i.item "at")
  return ⟨symbols, reason, at', ← i.item "by", ← i.get "detail" (.str "")⟩

/-- `None`, or the payload of an escalation. -/
def decodeOptional : Json → Option (Option Escalation)
  | .null => some none
  | e => (decodeEscalation iso e).map some

/-- **`_decode`**; `none` where it raises. -/
def decode (payload : Json) : Option Halt := do
  let escalation ← decodeOptional iso (← payload.get "escalation" .null)
  let scope ← (← payload.item "scope").string?.bind HaltScope.ofValue
  let reason ← reason (← payload.item "reason")
  let engagedAt ← instant iso (← payload.item "engaged_at")
  let engagedBy ← payload.item "engaged_by"
  let detail ← payload.get "detail" (.str "")
  let target ← payload.get "target" .null
  let items ← (← payload.get "impugned" (.list [])).iter
  let impugned ← items.mapM (decodeImpugnment iso)
  return ⟨scope, reason, engagedAt, engagedBy, detail, target, escalation, impugned⟩

variable {iso}

@[simp] theorem instant_isoformat (t : ℤ) : instant iso (.str (iso.isoformat t)) = some t := iso.inverse t

@[simp] theorem reason_value (x : HaltReason) : reason (.str x.value) = some x := HaltReason.ofValue_value x

theorem decode_escalation (e : HaltEscalation) :
    decodeOptional iso (encodeEscalation iso e) = some (some ⟨e.fromReason, e.at, .str e.by, .str e.detail⟩) := by
  simp [decodeOptional, encodeEscalation, decodeEscalation, Json.item, Json.get, Json.lookup]

theorem decode_impugnment (i : Impugnment) : decodeImpugnment iso (encodeImpugnment iso i) =
    some ⟨i.symbols.map .str, i.reason, i.at, .str i.by, .str i.detail⟩ := by
  simp [encodeImpugnment, decodeImpugnment, Json.item, Json.get, Json.lookup, Json.iter]

theorem decode_impugned : ∀ l : List Impugnment, (l.map (encodeImpugnment iso)).mapM (decodeImpugnment iso) =
    some (l.map fun i => ⟨i.symbols.map .str, i.reason, i.at, .str i.by, .str i.detail⟩)
  | [] => rfl
  | i :: l => by
    rw [List.map_cons, List.mapM_cons, decode_impugnment, decode_impugned l]
    rfl

/-- **What the switch writes reads back equal.** -/
theorem decode_encode (r : HaltRecord) : decode iso (encode iso r) = some (ofRecord r) := by
  have hescalation : (encode iso r).get "escalation" .null =
      some ((r.escalation.map (encodeEscalation iso)).getD .null) := by
    unfold encode Json.get
    cases r.escalation <;> cases hi : r.impugned <;> simp [Json.lookup]
  have himpugned : ((encode iso r).get "impugned" (.list [])).bind Json.iter = some (r.impugned.map (encodeImpugnment iso)) := by
    unfold encode Json.get
    cases r.escalation <;> cases hi : r.impugned <;> simp [Json.lookup, Json.iter]
  have hoptional : decodeOptional iso ((r.escalation.map (encodeEscalation iso)).getD .null) =
      some (r.escalation.map fun e => ⟨e.fromReason, e.at, .str e.by, .str e.detail⟩) := by
    cases r.escalation with
    | none => rfl
    | some e => exact decode_escalation e
  obtain ⟨items, hitems, hiter⟩ := Option.bind_eq_some_iff.1 himpugned
  unfold decode
  rw [hescalation]
  simp only [Option.bind_eq_bind, Option.bind_some, hoptional, hitems, hiter, decode_impugned]
  simp [encode, Json.item, Json.get, Json.lookup, Json.string?, ofRecord]

/-! ## The halts covering an order -/

/-- What is stored under a key: a document, or bytes that are none. -/
inductive Stored
  | document (v : Json)
  | malformed

def Stored.decode (iso : IsoFormat) : Stored → Option Halt
  | .document v => HaltStorage.decode iso v
  | .malformed => none

/-- The switch's store, as one `mget` finds it. -/
structure Store where
  reachable : Bool := true
  stored : HaltKey → Option Stored

structure State where
  halts : List Halt := []
  unreadable : Bool := false

def State.engaged (s : State) : Bool := s.unreadable || !s.halts.isEmpty

/-- What the covering keys hold. -/
def Store.covering (store : Store) (strategyId symbol : Option String) : List Stored :=
  (coveringKeys strategyId symbol).filterMap store.stored

/-- **`halt_state`**: every halt covering this order, each record decoded on its own. -/
def Store.haltState (iso : IsoFormat) (store : Store) (strategyId symbol : Option String) : State :=
  if store.reachable then
    let raw := store.covering strategyId symbol
    { halts := raw.filterMap (Stored.decode iso), unreadable := raw.any fun d => (d.decode iso).isNone }
  else { unreadable := true }

def Halt.symbols (h : Halt) : List Json := h.impugned.flatMap Impugned.symbols

/-- `unproven_symbols` is a set that can be made. -/
def Halt.formable (h : Halt) : Bool := h.symbols.all Json.hashable

def Halt.lists (h : Halt) (symbol : String) : Bool := h.symbols.any fun v => v.string? == some symbol

/-- **`position_is_unproven`**: the records in order, up to the first that says so; `none` where it raises. -/
def positionIsUnproven : List Halt → String → Option Bool
  | [], _ => some false
  | h :: rest, symbol =>
    if !h.formable then none else if h.lists symbol then some true else positionIsUnproven rest symbol

/-- A covering record that decodes lists the symbol. -/
def Listed (halts : List Halt) (symbol : String) : Prop := ∃ h ∈ halts, h.lists symbol = true

/-- **Every symbol that is listed is listed before the first record whose set cannot be made**, if there is one. -/
def ListedInTime (halts : List Halt) : Prop :=
  ∀ symbol, Listed halts symbol → Listed (halts.takeWhile Halt.formable) symbol

theorem unproven_iff : ∀ (halts : List Halt) (symbol : String),
    positionIsUnproven halts symbol = some true ↔ Listed (halts.takeWhile Halt.formable) symbol
  | [], _ => ⟨fun h => (by cases h), fun h => by obtain ⟨_, hmem, -⟩ := h; cases hmem⟩
  | h :: rest, symbol => by
    unfold positionIsUnproven
    cases hform : h.formable with
    | false =>
      rw [List.takeWhile_cons_of_neg (by simp [hform])]
      exact ⟨fun hne => (by cases hne), fun hl => by obtain ⟨_, hmem, -⟩ := hl; cases hmem⟩
    | true =>
      rw [List.takeWhile_cons_of_pos hform]
      cases hlists : h.lists symbol with
      | true => exact ⟨fun _ => ⟨h, List.mem_cons_self, hlists⟩, fun _ => rfl⟩
      | false =>
        have ih := unproven_iff rest symbol
        refine ih.trans ⟨fun ⟨k, hk, hkl⟩ => ⟨k, List.mem_cons_of_mem _ hk, hkl⟩, fun ⟨k, hk, hkl⟩ => ?_⟩
        rcases List.mem_cons.1 hk with rfl | hk
        · rw [hlists] at hkl
          cases hkl
        · exact ⟨k, hk, hkl⟩

/-- **The switch fails closed** over any documents. -/
theorem engaged_iff (iso : IsoFormat) (store : Store) (strategyId symbol : Option String) :
    (store.haltState iso strategyId symbol).engaged = true ↔
      store.reachable = false ∨ ∃ k ∈ coveringKeys strategyId symbol, store.stored k ≠ none := by
  unfold Store.haltState State.engaged
  cases store.reachable with
  | false => simp
  | true =>
    rw [if_pos rfl]
    have hholds : (∃ d, d ∈ store.covering strategyId symbol) ↔ ∃ k ∈ coveringKeys strategyId symbol, store.stored k ≠ none := by
      unfold Store.covering
      simp only [List.mem_filterMap, Option.ne_none_iff_exists']
      exact ⟨fun ⟨d, k, hk, hd⟩ => ⟨k, hk, d, hd⟩, fun ⟨k, hk, d, hd⟩ => ⟨d, k, hk, hd⟩⟩
    rw [or_iff_right (by decide), ← hholds]
    simp only [Bool.or_eq_true, List.any_eq_true, Bool.not_eq_true', List.isEmpty_eq_false_iff_exists_mem, List.mem_filterMap,
      Option.isNone_iff_eq_none]
    constructor
    · rintro (⟨d, hd, -⟩ | ⟨h, d, hd, -⟩) <;> exact ⟨d, hd⟩
    · rintro ⟨d, hd⟩
      cases hdecode : d.decode iso with
      | none => exact .inl ⟨d, hd, hdecode⟩
      | some h => exact .inr ⟨h, d, hd, hdecode⟩

/-- The records the switch writes can all be made sets of. -/
theorem ofRecord_formable (r : HaltRecord) : (ofRecord r).formable = true := by
  unfold Halt.formable Halt.symbols ofRecord
  simp only [List.all_eq_true, List.mem_flatMap, List.mem_map]
  rintro v ⟨_, ⟨i, -, rfl⟩, hv⟩
  obtain ⟨s, -, rfl⟩ := List.mem_map.1 hv
  rfl

theorem ofRecord_lists (r : HaltRecord) (symbol : String) : (ofRecord r).lists symbol = true ↔ symbol ∈ r.unprovenSymbols := by
  unfold Halt.lists Halt.symbols ofRecord HaltRecord.unprovenSymbols
  simp only [List.any_eq_true, List.mem_flatMap, List.mem_map, beq_iff_eq]
  constructor
  · rintro ⟨_, ⟨_, ⟨i, hi, rfl⟩, hv⟩, hs⟩
    obtain ⟨s, hmem, rfl⟩ := List.mem_map.1 hv
    exact ⟨i, hi, Option.some.inj hs ▸ hmem⟩
  · rintro ⟨i, hi, hs⟩
    exact ⟨.str symbol, ⟨_, ⟨i, hi, rfl⟩, List.mem_map.2 ⟨symbol, hs, rfl⟩⟩, rfl⟩

def Stored.ofBytes (iso : IsoFormat) : HaltBytes → Stored
  | .decodes r => .document (encode iso r)
  | .corrupt => .malformed

def Store.ofStore (iso : IsoFormat) (store : HaltStore) : Store where
  reachable := store.reachable
  stored key := (store.stored key).map (Stored.ofBytes iso)

/-- **A store of the switch's own records is read as the risk chain reads it.** -/
theorem haltState_ofStore (iso : IsoFormat) (store : HaltStore) (strategyId symbol : Option String) :
    (Store.ofStore iso store).haltState iso strategyId symbol =
      { halts := (store.haltState strategyId symbol).halts.map ofRecord
        unreadable := (store.haltState strategyId symbol).unreadable } := by
  have hcovering : (Store.ofStore iso store).covering strategyId symbol =
      ((coveringKeys strategyId symbol).filterMap store.stored).map (Stored.ofBytes iso) := by
    unfold Store.covering Store.ofStore
    exact (List.map_filterMap ..).symm
  have hdecode (b : HaltBytes) : (Stored.ofBytes iso b).decode iso = b.record?.map ofRecord := by
    cases b with
    | decodes r => exact decode_encode r
    | corrupt => rfl
  unfold Store.haltState HaltStore.haltState
  rw [hcovering]
  show (if store.reachable then _ else _) = _
  cases store.reachable with
  | false => rfl
  | true =>
    simp only [if_true]
    generalize (coveringKeys strategyId symbol).filterMap store.stored = raw
    congr 1
    · rw [List.filterMap_map, List.map_filterMap]
      exact congrArg (fun f => raw.filterMap f) (funext hdecode)
    · rw [List.any_map, List.contains_eq_any_beq]
      congr 1
      funext b
      show ((Stored.ofBytes iso b).decode iso).isNone = _
      rw [hdecode]
      cases b <;> rfl

/-- **Halt records survive storage, and what cannot be read halts.**  Every symbol a covering record lists is reported exactly
if each is listed before the first covering record whose symbols include a list or an object. -/
theorem halts_survive (iso : IsoFormat) (store : Store) (strategyId symbol : Option String) :
    (∀ r : HaltRecord, decode iso (encode iso r) = some (ofRecord r)) ∧
      ((store.haltState iso strategyId symbol).engaged = true ↔
        store.reachable = false ∨ ∃ k ∈ coveringKeys strategyId symbol, store.stored k ≠ none) ∧
      ((∀ name, Listed (store.haltState iso strategyId symbol).halts name →
          positionIsUnproven (store.haltState iso strategyId symbol).halts name = some true) ↔
        ListedInTime (store.haltState iso strategyId symbol).halts) := by
  refine ⟨decode_encode, engaged_iff iso store strategyId symbol, ?_⟩
  unfold ListedInTime
  simp only [unproven_iff]

/-- The epoch as Python writes it, and every other instant in a numeral of its own. -/
def epochFormat : IsoFormat where
  isoformat t := if t = 0 then "1970-01-01T00:00:00+00:00" else String.ofList (List.replicate (Encodable.encode t) '0')
  fromisoformat s := if s = "1970-01-01T00:00:00+00:00" then some 0 else Encodable.decode s.length
  inverse t := by
    by_cases ht : t = 0
    · rw [if_pos ht, if_pos rfl, ht]
    · rw [if_neg ht, if_neg, String.length_ofList, List.length_replicate, Encodable.encodek]
      intro heq
      have hlist := congrArg String.toList heq
      rw [String.toList_ofList] at hlist
      have hmem : '1' ∈ List.replicate (Encodable.encode t) '0' := by
        rw [hlist]
        simp
      exact absurd (List.eq_of_mem_replicate hmem) (by decide)

/-- A halt on one symbol, which impugns it. -/
def spyHalt : HaltRecord where
  scope := .symbol
  reason := .reconciliationMismatch
  engagedAt := 0
  engagedBy := "reconciler"
  target := some "SPY"
  impugned := [⟨["SPY"], .reconciliationMismatch, 0, "reconciler", ""⟩]

/-- A halt on everything whose one impugned symbol is a list. -/
def nestedHalt : Json :=
  .obj [("scope", .str "global"), ("reason", .str "broker_unreachable"), ("engaged_at", .str "1970-01-01T00:00:00+00:00"),
    ("engaged_by", .str "operator"), ("impugned", .list [.obj [("symbols", .list [.list [.str "QQQ"]]),
      ("reason", .str "broker_unreachable"), ("at", .str "1970-01-01T00:00:00+00:00"), ("by", .str "operator")]])]

/-- The symbol's halt, under whatever is stored for all. -/
def besides (overall : Option Stored) : Store where
  stored
    | .global => overall
    | .symbol "SPY" => some (.document (encode epochFormat spyHalt))
    | _ => none

theorem besides_halts (overall : Option Stored) : ((besides overall).haltState epochFormat none (some "SPY")).halts =
    (overall.bind (Stored.decode epochFormat)).toList ++ [ofRecord spyHalt] := by
  have hcovering : (besides overall).covering none (some "SPY") =
      overall.toList ++ [.document (encode epochFormat spyHalt)] := by
    unfold Store.covering coveringKeys besides
    cases overall <;> rfl
  have hdecode : (Stored.document (encode epochFormat spyHalt)).decode epochFormat = some (ofRecord spyHalt) := decode_encode _
  show ((besides overall).covering none (some "SPY")).filterMap (Stored.decode epochFormat) = _
  rw [hcovering, List.filterMap_append, List.filterMap_cons_some hdecode, List.filterMap_nil]
  cases overall with
  | none => rfl
  | some d => cases h : d.decode epochFormat <;> simp [h]

/-- The symbol's record is reported beside bytes that are no document. -/
theorem halts_survive_spy :
    positionIsUnproven ((besides (some .malformed)).haltState epochFormat none (some "SPY")).halts "SPY" = some true := by
  refine ((halts_survive epochFormat (besides (some .malformed)) none (some "SPY")).2.2.2 fun name hlisted => ?_) "SPY" ?_
  · rw [besides_halts] at hlisted ⊢
    rwa [List.takeWhile_eq_self_iff.2]
    intro h hmem
    obtain rfl : h = ofRecord spyHalt := by simpa [Stored.decode] using hmem
    exact ofRecord_formable spyHalt
  · rw [besides_halts]
    exact ⟨ofRecord spyHalt, by simp, (ofRecord_lists spyHalt "SPY").2 (by decide)⟩

/-- **A record whose symbols are no set hides the one behind it**: the flatten's question about SPY raises. -/
theorem list_hides_symbol : ¬ ∀ (iso : IsoFormat) (store : Store) (strategyId symbol : Option String) (name : String),
    Listed (store.haltState iso strategyId symbol).halts name →
      positionIsUnproven (store.haltState iso strategyId symbol).halts name = some true := by
  intro h
  have hspy := h epochFormat (besides (some (.document nestedHalt))) none (some "SPY") "SPY"
  rw [besides_halts] at hspy
  have hraised := hspy ⟨ofRecord spyHalt, by simp, (ofRecord_lists spyHalt "SPY").2 (by decide)⟩
  have hnested : ((Stored.document nestedHalt).decode epochFormat).any (fun h => !h.formable) = true := by decide +kernel
  cases hdecode : (Stored.document nestedHalt).decode epochFormat with
  | none =>
    rw [hdecode] at hnested
    cases hnested
  | some k =>
    rw [hdecode, Option.any_some] at hnested
    rw [Option.bind_some, hdecode, Option.toList_some, List.singleton_append, positionIsUnproven, if_pos hnested] at hraised
    cases hraised

end HaltStorage
end Atp
