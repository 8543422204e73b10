import AlgoTrading.Enums
/-!
# KillSwitch — halts and what each says it cannot prove

`risk/killswitch.py`.  The store is what `mget` sees: unreachable, or under each key nothing, a record, or bytes that do
not decode.  `haltState` is what the risk chain reads before every order, and it fails closed: what cannot be read
halts, and impugns nothing.
-/
namespace Atp

inductive HaltScope
  | global
  | strategy
  | symbol
deriving DecidableEq, Repr

inductive HaltReason
  | manual
  | dailyLossLimit
  | reconciliationMismatch
  | dataFeedLost
  | brokerUnreachable
  | rateLimitStorm
  | unhandledException
deriving DecidableEq, Repr

/-- One event that put named positions beyond proof. -/
structure Impugnment where
  symbols : List String
  reason : HaltReason
  «at» : ℤ
  «by» : String
  detail : String := ""
deriving DecidableEq

/-- The reason a halt was engaged under, before it was raised. -/
structure HaltEscalation where
  fromReason : HaltReason
  «at» : ℤ
  «by» : String
  detail : String := ""
deriving DecidableEq

structure HaltRecord where
  scope : HaltScope
  reason : HaltReason
  engagedAt : ℤ
  engagedBy : String
  detail : String := ""
  target : Option String := none
  escalation : Option HaltEscalation := none
  impugned : List Impugnment := []
deriving DecidableEq

def HaltRecord.unprovenSymbols (r : HaltRecord) : List String := r.impugned.flatMap Impugnment.symbols

/-- **`_merge`**: the record that should stand, given one already does.  What is impugned is only appended to, and the reason
rises once, when evidence arrives at a halt that had none. -/
def merge (existing incoming : HaltRecord) : HaltRecord :=
  let fresh := incoming.impugned.filter fun item => !item.symbols.all (existing.unprovenSymbols.contains ·)
  let impugned := existing.impugned ++ fresh
  if !(!fresh.isEmpty && existing.impugned.isEmpty) then
    if fresh.isEmpty then existing else { existing with impugned := impugned }
  else
    { existing with
      reason := incoming.reason
      impugned := impugned
      escalation := some ⟨existing.reason, incoming.engagedAt, incoming.engagedBy, incoming.detail⟩ }

/-- Everything the switch knows about the halts covering one order. -/
structure HaltState where
  halts : List HaltRecord := []
  unreadable : Bool := false
deriving DecidableEq

def HaltState.engaged (h : HaltState) : Bool := h.unreadable || !h.halts.isEmpty

/-- An unreadable store does not count: it is no evidence about the book. -/
def HaltState.positionIsUnproven (h : HaltState) (symbol : String) : Bool :=
  h.halts.any (fun r => r.unprovenSymbols.contains symbol)

/-- `_key`, its `f"{prefix}:{scope}:{target}"` kept as its parts. -/
inductive HaltKey
  | global
  | strategy (id : String)
  | symbol (name : String)
deriving DecidableEq, Repr

/-- What is stored under a key: a record, or bytes `_decode` raises on. -/
inductive HaltBytes
  | decodes (r : HaltRecord)
  | corrupt
deriving DecidableEq

/-- The switch's store, as one `mget` finds it. -/
structure HaltStore where
  reachable : Bool := true
  stored : HaltKey → Option HaltBytes

/-- `_covering_keys`: an absent or empty id or symbol adds no key. -/
def coveringKeys (strategyId symbol : Option String) : List HaltKey :=
  .global :: ((strategyId.filter (· ≠ "")).map HaltKey.strategy).toList ++
    ((symbol.filter (· ≠ "")).map HaltKey.symbol).toList

def HaltBytes.record? : HaltBytes → Option HaltRecord
  | .decodes r => some r
  | .corrupt => none

/-- **`halt_state`**: every halt covering this order, each record decoded on its own. -/
def HaltStore.haltState (store : HaltStore) (strategyId symbol : Option String) : HaltState :=
  if store.reachable then
    let raw := (coveringKeys strategyId symbol).filterMap store.stored
    { halts := raw.filterMap HaltBytes.record?, unreadable := raw.contains .corrupt }
  else { unreadable := true }

end Atp
