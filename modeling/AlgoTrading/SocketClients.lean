import AlgoTrading.DashboardBridge
import AlgoTrading.HaltStorage
/-!
# SocketClients — which browser is sent what

`ConnectionManager`, `_handle` and the endpoint of `apps/api/ws.py`, as the machine their awaits leave: clients arrive, send
frames and go while any number of fan-outs wait for their sends.  The three dictionaries are one record of each client, a
fan-out's targets are read off the frames it sent so far, and a client whose send failed is let go of once.
-/
namespace Atp
namespace Sockets

open Runs

/-! ## Frames -/

/-- `ALL_CLIENT_CHANNELS`. -/
def allClientChannels : List String := ["quotes", "bars", "fills", "signals", "halts"]

def gapChannel : String := "gaps"

/-- `ALWAYS_DELIVERED`. -/
def alwaysDelivered : List String := ["halts", gapChannel]

/-- `SYMBOL_FILTERED`. -/
def symbolFiltered : List String := ["quotes", "bars"]

/-- Every name a client may subscribe to is one the bridge maps a Redis channel to. -/
theorem mem_allClientChannels {name : String} : name ∈ allClientChannels ↔ ∃ source, Dashboard.clientChannels source = some name := by
  constructor
  · intro h
    unfold allClientChannels at h
    simp only [List.mem_cons, List.not_mem_nil, or_false] at h
    rcases h with rfl | rfl | rfl | rfl | rfl
    exacts [⟨"atp:md:quotes", rfl⟩, ⟨"atp:md:bars", rfl⟩, ⟨"atp:exec:orders", rfl⟩, ⟨"atp:exec:signals", rfl⟩,
      ⟨"atp:risk:halts", rfl⟩]
  · rintro ⟨source, h⟩
    unfold Dashboard.clientChannels at h
    split at h <;> first | (cases h; decide) | cases h

/-- **`_string_list`**: what is not a string is dropped, and what is not a list is none. -/
def stringList : Option Json → List String
  | some (.list items) => items.filterMap Json.string?
  | _ => []

/-- What `_handle` makes of a frame. -/
inductive Command
  | ping
  | subscribe (channels symbols : List String)
  | unsubscribe (symbols : List String)
  | notAnObject
  | unknown (kind : Option Json)

/-- `message.get(name)`. -/
def member (name : String) (fields : List (String × Json)) : Option Json := Json.lookup name fields

/-- **`_handle`**, up to what it does; `none` is a frame `json.loads` raises on. -/
def commandOf : Option Json → Command
  | some (.obj fields) =>
    match member "type" fields with
    | some (.str "ping") => .ping
    | some (.str "subscribe") => .subscribe (stringList (member "channels" fields)) (stringList (member "symbols" fields))
    | some (.str "unsubscribe") => .unsubscribe (stringList (member "symbols" fields))
    | kind => .unknown kind
  | _ => .notAnObject

/-- What is answered. -/
inductive Reply
  | pong
  | subscribed
  | unsubscribed
  | expectedAnObject
  | unknownType (kind : Option Json)

def Command.reply : Command → Reply
  | ping => .pong
  | subscribe .. => .subscribed
  | unsubscribe _ => .unsubscribed
  | notAnObject => .expectedAnObject
  | unknown kind => .unknownType kind

/-! ## The hub -/

/-- One send of a fan-out: to whom, and how it ended, once it has. -/
structure Send (W : Type) where
  client : ℕ
  socket : W
  delivered : Option Bool := none

/-- The manager's three dictionaries; the fan-outs that wait for their sends; whom the server has hung up on, and who left; and
every client it accepted, with what each has sent. -/
structure Hub (W : Type) where
  connections : Dict ℕ W := .empty
  channels : Dict ℕ (Finset String) := .empty
  subscriptions : Dict ℕ (Option (Finset String)) := .empty
  flights : List (List (Send W)) := []
  hungUp : List ℕ := []
  gone : List ℕ := []
  accepted : List ℕ := []
  heard : List (ℕ × Command) := []

variable {W : Type} (upper : String → String)

/-- **`connect`.** -/
def Hub.connect (s : Hub W) (id : ℕ) (ws : W) : Hub W :=
  { s with
    connections := s.connections.set id ws
    channels := s.channels.set id ∅
    subscriptions := s.subscriptions.set id none
    accepted := s.accepted ++ [id] }

/-- **`disconnect`**, and whether this call is the one that removed the client. -/
def Hub.disconnect (s : Hub W) (id : ℕ) : Hub W × Bool :=
  ({ s with connections := s.connections.erase id, channels := s.channels.erase id, subscriptions := s.subscriptions.erase id },
    s.connections.contains id)

/-- What `subscribe` makes of a client's filter: naming no symbols leaves it alone. -/
def follow (watched : Option (Finset String)) (symbols : List String) : Option (Finset String) :=
  if symbols.isEmpty then watched else some (watched.getD ∅ ∪ (symbols.map upper).toFinset)

/-- What `unsubscribe` makes of it: a client that never named a symbol is left alone. -/
def unfollow (watched : Option (Finset String)) (symbols : List String) : Option (Finset String) :=
  watched.map fun w => w \ (symbols.map upper).toFinset

/-- **`subscribe` and `unsubscribe`**, which do nothing for a client that is not connected. -/
def Hub.obey (s : Hub W) (id : ℕ) (c : Command) : Hub W :=
  if s.connections.contains id then
    match c with
    | .subscribe channels symbols =>
      { s with
        channels := s.channels.set id ((s.channels.get? id).getD ∅ ∪ (channels.filter (· ∈ allClientChannels)).toFinset)
        subscriptions := s.subscriptions.set id (follow upper ((s.subscriptions.get? id).getD none) symbols) }
    | .unsubscribe symbols =>
      { s with subscriptions := s.subscriptions.set id (unfollow upper ((s.subscriptions.get? id).getD none) symbols) }
    | _ => s
  else s

/-- **`_wants`.** -/
def Hub.wants (s : Hub W) (id : ℕ) (channel : String) (symbol : Option String) : Bool :=
  if channel ∈ alwaysDelivered then true
  else if channel ∉ (s.channels.get? id).getD ∅ then false
  else
    match symbol with
    | none => true
    | some name =>
      if channel ∉ symbolFiltered then true
      else
        match (s.subscriptions.get? id).getD none with
        | none => true
        | some watched => decide (name ∈ watched)

/-- The targets of a fan-out. -/
def Hub.targets (s : Hub W) (channel : String) (symbol : Option String) : List (ℕ × W) :=
  s.connections.entries.filter fun e => s.wants e.1 channel symbol

/-- A client whose send failed is forgotten, and hung up on by the fan-out that removed it. -/
def Hub.drop (s : Hub W) (id : ℕ) : Hub W :=
  if (s.disconnect id).2 then { (s.disconnect id).1 with hungUp := s.hungUp ++ [id] } else (s.disconnect id).1

/-- Whose sends failed. -/
def failed (sends : List (Send W)) : List ℕ := (sends.filter fun e => e.delivered = some false).map Send.client

inductive Event (W : Type)
  | arrive (id : ℕ) (ws : W) (authenticated : Bool)
  | frame (id : ℕ) (raw : Option Json)
  | leave (id : ℕ)
  | publish (channel : String) (symbol : Option String)
  | resolve (b i : ℕ) (delivered : Bool)
  | finish (b : ℕ)

/-- **What happens between two awaits.**  A client's id is new; a socket with no session is closed before it is accepted; the
endpoint's `finally` forgets its own client; a fan-out with no targets is over; and one whose sends have all ended lets go of
the clients they failed for. -/
def happen (s : Hub W) : Event W → Option (Hub W)
  | .arrive id ws authenticated =>
    if id ∈ s.accepted then none else if authenticated then some (s.connect id ws) else some s
  | .frame id raw =>
    if id ∈ s.accepted then some { s.obey upper id (commandOf raw) with heard := s.heard ++ [(id, commandOf raw)] } else none
  | .leave id =>
    if id ∈ s.accepted then
      some (if (s.disconnect id).2 then { (s.disconnect id).1 with gone := s.gone ++ [id] } else (s.disconnect id).1)
    else none
  | .publish channel symbol =>
    if (s.targets channel symbol).isEmpty then some s
    else some { s with flights := s.flights ++ [(s.targets channel symbol).map fun e => ⟨e.1, e.2, none⟩] }
  | .resolve b i delivered =>
    match s.flights[b]? with
    | none => none
    | some sends =>
      match sends[i]? with
      | some ⟨id, ws, none⟩ => some { s with flights := s.flights.set b (sends.set i ⟨id, ws, some delivered⟩) }
      | _ => none
  | .finish b =>
    match s.flights[b]? with
    | none => none
    | some sends =>
      if sends.all fun e => e.delivered.isSome then
        some { (failed sends).foldl Hub.drop s with flights := s.flights.eraseIdx b }
      else none

def Happen (s : Hub W) (i : Event W) (t : Hub W) : Prop := happen upper s i = some t

/-! ## What a client asked for -/

/-- What a client has sent, in order. -/
def Hub.sentBy (s : Hub W) (id : ℕ) : List Command := (s.heard.filter fun e => e.1 = id).map Prod.snd

/-- The symbols a command names, as they are kept. -/
def Command.symbols : Command → List String
  | subscribe _ symbols => symbols.map upper
  | unsubscribe symbols => symbols.map upper
  | _ => []

def Command.isSubscribe : Command → Bool
  | subscribe .. => true
  | _ => false

/-- It subscribed to the channel. -/
def AskedFor (sent : List Command) (channel : String) : Prop :=
  channel ∈ allClientChannels ∧ ∃ channels symbols, .subscribe channels symbols ∈ sent ∧ channel ∈ channels

/-- The last command that named the symbol was a subscribe. -/
def Follows (sent : List Command) (symbol : String) : Prop :=
  ((sent.filter fun c => symbol ∈ c.symbols upper).getLast?).any Command.isSubscribe = true

/-- No subscribe named a symbol. -/
def Unfiltered (sent : List Command) : Prop := ∀ c ∈ sent, c.isSubscribe = true → c.symbols upper = []

/-- **What a client wants, by what it sent**: every halt and gap; of a channel it asked for, everything; but of market data, once
it has named a symbol, what it last named in a subscribe. -/
def Wanted (sent : List Command) (channel : String) (symbol : Option String) : Prop :=
  channel ∈ alwaysDelivered ∨ (AskedFor sent channel ∧
    (channel ∈ symbolFiltered → ∀ name ∈ symbol, Unfiltered upper sent ∨ Follows upper sent name))

/-- The channels and the filter a client's commands leave. -/
def channelsOf (sent : List Command) : Finset String :=
  sent.foldl (fun acc c => match c with
    | .subscribe channels _ => acc ∪ (channels.filter (· ∈ allClientChannels)).toFinset
    | _ => acc) ∅

def filterOf (sent : List Command) : Option (Finset String) :=
  sent.foldl (fun acc c => match c with
    | .subscribe _ symbols => follow upper acc symbols
    | .unsubscribe symbols => unfollow upper acc symbols
    | _ => acc) none

variable {upper : String → String}

theorem channelsOf_concat (sent : List Command) (c : Command) : channelsOf (sent ++ [c]) = match c with
    | .subscribe channels _ => channelsOf sent ∪ (channels.filter (· ∈ allClientChannels)).toFinset
    | _ => channelsOf sent := by
  unfold channelsOf
  rw [List.foldl_append, List.foldl_cons, List.foldl_nil]

theorem filterOf_concat (sent : List Command) (c : Command) : filterOf upper (sent ++ [c]) = match c with
    | .subscribe _ symbols => follow upper (filterOf upper sent) symbols
    | .unsubscribe symbols => unfollow upper (filterOf upper sent) symbols
    | _ => filterOf upper sent := by
  unfold filterOf
  rw [List.foldl_append, List.foldl_cons, List.foldl_nil]

theorem mem_channelsOf {sent : List Command} {channel : String} : channel ∈ channelsOf sent ↔ AskedFor sent channel := by
  induction sent using List.reverseRecOn with
  | nil => simp [channelsOf, AskedFor]
  | append_singleton sent c ih =>
    rw [channelsOf_concat]
    cases c with
    | subscribe channels symbols =>
      simp only [Finset.mem_union, ih, List.mem_toFinset, List.mem_filter, decide_eq_true_eq, AskedFor, List.mem_append,
        List.mem_singleton]
      constructor
      · rintro (⟨hall, cs, ss, hmem, hc⟩ | ⟨hc, hall⟩)
        · exact ⟨hall, cs, ss, .inl hmem, hc⟩
        · exact ⟨hall, channels, symbols, .inr rfl, hc⟩
      · rintro ⟨hall, cs, ss, hmem | hnew, hc⟩
        · exact .inl ⟨hall, cs, ss, hmem, hc⟩
        · cases hnew
          exact .inr ⟨hc, hall⟩
    | _ => simp [ih, AskedFor]

/-- The last command that named a symbol, with one more sent. -/
theorem follows_concat (sent : List Command) (c : Command) (symbol : String) : Follows upper (sent ++ [c]) symbol ↔
    if symbol ∈ c.symbols upper then c.isSubscribe = true else Follows upper sent symbol := by
  unfold Follows
  rw [List.filter_append]
  by_cases h : symbol ∈ c.symbols upper
  · simp [h]
  · simp [h]

theorem unfiltered_concat (sent : List Command) (c : Command) : Unfiltered upper (sent ++ [c]) ↔
    Unfiltered upper sent ∧ (c.isSubscribe = true → c.symbols upper = []) := by
  unfold Unfiltered
  simp [or_imp, forall_and]

variable (upper) in
/-- **The filter a client's commands leave**: none while no subscribe has named a symbol, and then what each symbol's last command
made of it. -/
theorem filterOf_spec (sent : List Command) : (filterOf upper sent = none ↔ Unfiltered upper sent) ∧
    ∀ symbol, symbol ∈ (filterOf upper sent).getD ∅ ↔ Follows upper sent symbol := by
  induction sent using List.reverseRecOn with
  | nil => exact ⟨by simp [filterOf, Unfiltered], by simp [filterOf, Follows]⟩
  | append_singleton sent c ih =>
    obtain ⟨hnone, hmem⟩ := ih
    rw [unfiltered_concat, filterOf_concat]
    cases c with
    | subscribe channels symbols =>
      cases symbols with
      | nil =>
        refine ⟨by simp [follow, hnone, Command.symbols], fun symbol => ?_⟩
        rw [follows_concat, if_neg (by simp [Command.symbols])]
        exact hmem symbol
      | cons x rest =>
        refine ⟨by simp [follow, Command.isSubscribe, Command.symbols], fun symbol => ?_⟩
        rw [follows_concat]
        simp only [follow, List.isEmpty_cons, Bool.false_eq_true, if_false, Option.getD_some, Finset.mem_union, hmem symbol,
          List.mem_toFinset, Command.symbols, Command.isSubscribe]
        split_ifs with h
        · exact iff_of_true (.inr h) trivial
        · exact ⟨fun hor => hor.resolve_right h, .inl⟩
    | unsubscribe symbols =>
      refine ⟨by simp [unfollow, hnone, Command.isSubscribe], fun symbol => ?_⟩
      rw [follows_concat, ← hmem symbol]
      simp only [Command.symbols, Command.isSubscribe, Bool.false_eq_true]
      have hgetD : (unfollow upper (filterOf upper sent) symbols).getD ∅ = (filterOf upper sent).getD ∅ \ (symbols.map upper).toFinset := by
        unfold unfollow
        cases filterOf upper sent <;> simp
      rw [hgetD, Finset.mem_sdiff, List.mem_toFinset]
      split_ifs with h
      · exact iff_of_false (fun hand => hand.2 h) id
      · exact ⟨And.left, fun hin => ⟨hin, h⟩⟩
    | _ => exact ⟨by simp [hnone, Command.isSubscribe], fun symbol => by
        rw [follows_concat, if_neg (by simp [Command.symbols])]; exact hmem symbol⟩

/-! ## What the hub keeps -/

section
variable {s t : Hub W}

/-- **The three dictionaries are one record of each client**, which is what its commands so far make of it; and every client the
server accepted is connected, hung up on, or gone. -/
structure Kept (upper : String → String) (s : Hub W) : Prop where
  filed : ∀ id, s.connections.contains id = true →
    s.channels.get? id = some (channelsOf (s.sentBy id)) ∧ s.subscriptions.get? id = some (filterOf upper (s.sentBy id))
  unfiled : ∀ id, s.connections.contains id = false → s.channels.get? id = none ∧ s.subscriptions.get? id = none
  placed : (s.connections.keys ++ (s.hungUp ++ s.gone)).Perm s.accepted
  fresh : s.accepted.Nodup
  heard : ∀ e ∈ s.heard, e.1 ∈ s.accepted

theorem contains_iff {κ α : Type} [DecidableEq κ] {d : Dict κ α} {k : κ} : d.contains k = true ↔ k ∈ d.keys := by
  rw [Dict.mem_keys_iff]
  rfl

theorem contains_set {κ α : Type} [DecidableEq κ] (d : Dict κ α) (k k' : κ) (v : α) :
    (d.set k v).contains k' = (decide (k' = k) || d.contains k') := by
  unfold Dict.contains
  rw [Dict.get?_set]
  by_cases h : k' = k <;> simp [h]

theorem contains_erase {κ α : Type} [DecidableEq κ] (d : Dict κ α) (k k' : κ) :
    (d.erase k).contains k' = (!decide (k' = k) && d.contains k') := by
  unfold Dict.contains
  rw [Dict.get?_erase]
  by_cases h : k' = k <;> simp [h]

/-- Erasing a key that is there takes it from the keys, once. -/
theorem keys_erase {κ α : Type} [DecidableEq κ] (d : Dict κ α) {k : κ} (h : k ∈ d.keys) :
    d.keys.Perm ((d.erase k).keys ++ [k]) := by
  have hmem (x : κ) : x ∈ (d.erase k).keys ↔ x ≠ k ∧ x ∈ d.keys := by
    rw [← contains_iff, contains_erase, Bool.and_eq_true, contains_iff]
    simp
  refine (List.perm_ext_iff_of_nodup d.nodup ?_).2 fun x => ?_
  · refine List.Nodup.append (d.erase k).nodup (List.nodup_singleton k) fun x hx hx' => ?_
    exact ((hmem x).1 hx).1 (List.mem_singleton.1 hx')
  · rw [List.mem_append, hmem, List.mem_singleton]
    constructor
    · intro hx
      by_cases hxk : x = k
      · exact .inr hxk
      · exact .inl ⟨hxk, hx⟩
    · rintro (⟨-, hx⟩ | rfl)
      · exact hx
      · exact h

theorem keys_set {κ α : Type} [DecidableEq κ] (d : Dict κ α) {k : κ} (v : α) (h : d.contains k = false) :
    (d.set k v).keys = d.keys ++ [k] := by
  have hnot : k ∉ d.entries.map Prod.fst := fun hk => by
    rw [contains_iff.2 hk] at h
    cases h
  exact (Dict.upsert_keys k v d.entries).trans (if_neg hnot)

theorem Kept.disconnected (h : Kept upper s) (id : ℕ) {hungUp gone : List ℕ}
    (hplaced : ((s.disconnect id).1.connections.keys ++ (hungUp ++ gone)).Perm s.accepted) :
    Kept upper { (s.disconnect id).1 with hungUp := hungUp, gone := gone } := by
  refine ⟨fun id' hid => ?_, fun id' hid => ?_, hplaced, h.fresh, h.heard⟩
  · change (s.connections.erase id).contains id' = true at hid
    rw [contains_erase, Bool.and_eq_true, Bool.not_eq_true', decide_eq_false_iff_not] at hid
    have hfiled := h.filed id' hid.2
    refine ⟨?_, ?_⟩
    · exact (Dict.get?_erase ..).trans ((if_neg hid.1).trans hfiled.1)
    · exact (Dict.get?_erase ..).trans ((if_neg hid.1).trans hfiled.2)
  · change (s.connections.erase id).contains id' = false at hid
    rw [contains_erase] at hid
    change (s.channels.erase id).get? id' = none ∧ (s.subscriptions.erase id).get? id' = none
    rw [Dict.get?_erase, Dict.get?_erase]
    by_cases heq : id' = id
    · rw [if_pos heq, if_pos heq]
      exact ⟨rfl, rfl⟩
    · rw [if_neg heq, if_neg heq]
      exact h.unfiled id' (by simpa [heq] using hid)

/-- A client that is not there is not forgotten twice. -/
theorem Kept.forgotten (h : Kept upper s) {id : ℕ} (hid : s.connections.contains id = false) : (s.disconnect id).1 = s := by
  have hsame {α : Type} (d : Dict ℕ α) (hd : d.contains id = false) : d.erase id = d := by
    have hentries : d.entries.filter (fun e => e.1 ≠ id) = d.entries := List.filter_eq_self.2 fun e he => by
      rw [decide_eq_true_eq]
      rintro rfl
      have hmem : e.1 ∈ d.keys := List.mem_map_of_mem he
      rw [contains_iff.2 hmem] at hd
      cases hd
    obtain ⟨entries, nodup⟩ := d
    simp only [Dict.erase]
    congr
  obtain ⟨hchannels, hsubscriptions⟩ := h.unfiled id hid
  unfold Hub.disconnect
  rw [hsame s.connections hid, hsame s.channels (by unfold Dict.contains; rw [hchannels]; rfl),
    hsame s.subscriptions (by unfold Dict.contains; rw [hsubscriptions]; rfl)]

/-- **Letting go of a client**: it is hung up on if it was there. -/
theorem Kept.drop (h : Kept upper s) (id : ℕ) : Kept upper (s.drop id) := by
  have hfound : (s.disconnect id).2 = s.connections.contains id := rfl
  unfold Hub.drop
  cases hid : s.connections.contains id with
  | false =>
    rw [if_neg (by rw [hfound, hid]; decide), h.forgotten hid]
    exact h
  | true =>
    rw [if_pos (hfound.trans hid)]
    refine h.disconnected id ?_
    calc (s.connections.erase id).keys ++ ((s.hungUp ++ [id]) ++ s.gone)
        _ = (s.connections.erase id).keys ++ (s.hungUp ++ ([id] ++ s.gone)) := by rw [List.append_assoc]
        List.Perm _ ((s.connections.erase id).keys ++ ([id] ++ (s.hungUp ++ s.gone))) :=
          (List.perm_append_comm_assoc ..).append_left _
        _ = ((s.connections.erase id).keys ++ [id]) ++ (s.hungUp ++ s.gone) := (List.append_assoc ..).symm
        List.Perm _ (s.connections.keys ++ (s.hungUp ++ s.gone)) := (keys_erase _ (contains_iff.1 hid)).symm.append_right _
        List.Perm _ s.accepted := h.placed

/-- What letting go of one client leaves of the others. -/
theorem drop_other (s : Hub W) {id id' : ℕ} (hne : id' ≠ id) : (s.drop id).connections.get? id' = s.connections.get? id' ∧
    (s.drop id).channels.get? id' = s.channels.get? id' ∧ (s.drop id).subscriptions.get? id' = s.subscriptions.get? id' := by
  unfold Hub.drop
  have hget {α : Type} (d : Dict ℕ α) : (d.erase id).get? id' = d.get? id' := (Dict.get?_erase ..).trans (if_neg hne)
  split_ifs <;> exact ⟨hget _, hget _, hget _⟩

theorem drop_gone (s : Hub W) (id : ℕ) : (s.drop id).connections.contains id = false := by
  unfold Hub.drop
  split_ifs <;> simp [Hub.disconnect, contains_erase]

/-- **Letting go of several.** -/
theorem drops_spec : ∀ (ids : List ℕ) {s : Hub W}, Kept upper s → Kept upper (ids.foldl Hub.drop s) ∧
    (∀ id ∈ ids, (ids.foldl Hub.drop s).connections.contains id = false) ∧
    ∀ id ∉ ids, (ids.foldl Hub.drop s).connections.get? id = s.connections.get? id ∧
      (ids.foldl Hub.drop s).channels.get? id = s.channels.get? id ∧
      (ids.foldl Hub.drop s).subscriptions.get? id = s.subscriptions.get? id
  | [], s, h => ⟨h, by simp, fun _ _ => ⟨rfl, rfl, rfl⟩⟩
  | id :: ids, s, h => by
    obtain ⟨hkept, hgone, hother⟩ := drops_spec ids (h.drop id)
    refine ⟨hkept, fun id' hid' => ?_, fun id' hid' => ?_⟩
    · rw [List.foldl_cons]
      by_cases hmem : id' ∈ ids
      · exact hgone id' hmem
      · obtain rfl : id' = id := (List.mem_cons.1 hid').resolve_right hmem
        unfold Dict.contains
        rw [(hother id' hmem).1]
        exact drop_gone s id'
    · obtain ⟨hne, hnot⟩ := not_or.1 (mt List.mem_cons.2 hid')
      obtain ⟨hc, hch, hs⟩ := hother id' hnot
      obtain ⟨hc', hch', hs'⟩ := drop_other s hne
      exact ⟨hc.trans hc', hch.trans hch', hs.trans hs'⟩

theorem sentBy_concat (s : Hub W) (id id' : ℕ) (c : Command) : ({ s with heard := s.heard ++ [(id, c)] } : Hub W).sentBy id' =
    if id' = id then s.sentBy id' ++ [c] else s.sentBy id' := by
  unfold Hub.sentBy
  rw [List.filter_append, List.map_append]
  by_cases h : id' = id
  · simp [h]
  · simp [h, Ne.symm h]

theorem Kept.connect (h : Kept upper s) {id : ℕ} (hid : id ∉ s.accepted) (ws : W) : Kept upper (s.connect id ws) := by
  have hnew : s.connections.contains id = false := by
    by_contra hne
    rw [Bool.not_eq_false] at hne
    exact hid (h.placed.mem_iff.1 (List.mem_append_left _ (contains_iff.1 hne)))
  have hsilent : s.sentBy id = [] := by
    unfold Hub.sentBy
    rw [List.filter_eq_nil_iff.2 fun e he => ?_, List.map_nil]
    rw [decide_eq_true_eq]
    rintro rfl
    exact hid (h.heard e he)
  refine ⟨fun id' hid' => ?_, fun id' hid' => ?_, ?_, ?_, fun e he => List.mem_append_left _ (h.heard e he)⟩
  · change (s.connections.set id ws).contains id' = true at hid'
    change (s.channels.set id ∅).get? id' = some (channelsOf (s.sentBy id')) ∧
      (s.subscriptions.set id none).get? id' = some (filterOf upper (s.sentBy id'))
    rw [Dict.get?_set, Dict.get?_set]
    by_cases heq : id' = id
    · subst heq
      rw [if_pos rfl, if_pos rfl, hsilent]
      exact ⟨rfl, rfl⟩
    · rw [if_neg heq, if_neg heq]
      rw [contains_set] at hid'
      exact h.filed id' (by simpa [heq] using hid')
  · change (s.connections.set id ws).contains id' = false at hid'
    change (s.channels.set id ∅).get? id' = none ∧ (s.subscriptions.set id none).get? id' = none
    rw [contains_set, Bool.or_eq_false_iff, decide_eq_false_iff_not] at hid'
    rw [Dict.get?_set, Dict.get?_set, if_neg hid'.1, if_neg hid'.1]
    exact h.unfiled id' hid'.2
  · change ((s.connections.set id ws).keys ++ (s.hungUp ++ s.gone)).Perm (s.accepted ++ [id])
    rw [keys_set _ ws hnew, List.append_assoc]
    calc s.connections.keys ++ ([id] ++ (s.hungUp ++ s.gone))
        List.Perm _ (s.connections.keys ++ ((s.hungUp ++ s.gone) ++ [id])) := List.perm_append_comm.append_left _
        _ = (s.connections.keys ++ (s.hungUp ++ s.gone)) ++ [id] := (List.append_assoc ..).symm
        List.Perm _ (s.accepted ++ [id]) := h.placed.append_right _
  · exact h.fresh.append (List.nodup_singleton id) fun x hx hx' => hid (List.mem_singleton.1 hx' ▸ hx)

theorem Kept.hears (h : Kept upper s) {id : ℕ} (hid : id ∈ s.accepted) (c : Command) :
    ∀ e ∈ s.heard ++ [(id, c)], e.1 ∈ s.accepted := by
  intro e he
  rcases List.mem_append.1 he with he | he
  · exact h.heard e he
  · rw [List.mem_singleton.1 he]
    exact hid

/-- A frame is obeyed for a client that is there, and heard from any the server accepted. -/
theorem Kept.obey (h : Kept upper s) {id : ℕ} (hid : id ∈ s.accepted) (c : Command) :
    Kept upper { s.obey upper id c with heard := s.heard ++ [(id, c)] } := by
  cases hin : s.connections.contains id with
  | false =>
    have hobey : s.obey upper id c = s := by
      unfold Hub.obey
      rw [hin]
      rfl
    rw [hobey]
    refine ⟨fun id' hid' => ?_, h.unfiled, h.placed, h.fresh, h.hears hid c⟩
    rw [sentBy_concat]
    by_cases heq : id' = id
    · subst heq
      rw [show ({ s with heard := s.heard ++ [(id', c)] } : Hub W).connections = s.connections from rfl, hin] at hid'
      cases hid'
    · rw [if_neg heq]
      exact h.filed id' hid'
  | true =>
    obtain ⟨hchannels, hfilter⟩ := h.filed id hin
    have hobey : s.obey upper id c = match c with
        | .subscribe channels symbols =>
          { s with
            channels := s.channels.set id (channelsOf (s.sentBy id) ∪ (channels.filter (· ∈ allClientChannels)).toFinset)
            subscriptions := s.subscriptions.set id (follow upper (filterOf upper (s.sentBy id)) symbols) }
        | .unsubscribe symbols =>
          { s with subscriptions := s.subscriptions.set id (unfollow upper (filterOf upper (s.sentBy id)) symbols) }
        | _ => s := by
      unfold Hub.obey
      rw [hin, if_pos rfl, hchannels, hfilter]
      rfl
    have hother (id' : ℕ) (hne : id' ≠ id) : (s.obey upper id c).channels.get? id' = s.channels.get? id' ∧
        (s.obey upper id c).subscriptions.get? id' = s.subscriptions.get? id' := by
      rw [hobey]
      cases c with
      | subscribe channels symbols => exact ⟨Dict.get?_set_ne _ _ hne, Dict.get?_set_ne _ _ hne⟩
      | unsubscribe symbols => exact ⟨rfl, Dict.get?_set_ne _ _ hne⟩
      | _ => exact ⟨rfl, rfl⟩
    have hself : (s.obey upper id c).channels.get? id = some (channelsOf (s.sentBy id ++ [c])) ∧
        (s.obey upper id c).subscriptions.get? id = some (filterOf upper (s.sentBy id ++ [c])) := by
      rw [hobey, channelsOf_concat, filterOf_concat]
      cases c with
      | subscribe channels symbols => exact ⟨Dict.get?_set_self .., Dict.get?_set_self ..⟩
      | unsubscribe symbols => exact ⟨hchannels, Dict.get?_set_self ..⟩
      | _ => exact ⟨hchannels, hfilter⟩
    have hrest : (s.obey upper id c).connections = s.connections ∧ (s.obey upper id c).hungUp = s.hungUp ∧
        (s.obey upper id c).gone = s.gone ∧ (s.obey upper id c).accepted = s.accepted ∧ (s.obey upper id c).heard = s.heard := by
      rw [hobey]
      cases c <;> exact ⟨rfl, rfl, rfl, rfl, rfl⟩
    obtain ⟨hconnections, hhung, hgone, haccepted, hheard'⟩ := hrest
    have hsent (id' : ℕ) : ({ s.obey upper id c with heard := s.heard ++ [(id, c)] } : Hub W).sentBy id' =
        if id' = id then s.sentBy id' ++ [c] else s.sentBy id' := sentBy_concat s id id' c
    refine ⟨fun id' hid' => ?_, fun id' hid' => ?_, ?_, ?_, ?_⟩
    · change (s.obey upper id c).connections.contains id' = true at hid'
      rw [hconnections] at hid'
      rw [hsent]
      by_cases heq : id' = id
      · subst heq
        rw [if_pos rfl]
        exact hself
      · rw [if_neg heq]
        exact ⟨(hother id' heq).1.trans (h.filed id' hid').1, (hother id' heq).2.trans (h.filed id' hid').2⟩
    · change (s.obey upper id c).connections.contains id' = false at hid'
      rw [hconnections] at hid'
      have hne : id' ≠ id := fun heq => by
        rw [heq, hin] at hid'
        cases hid'
      exact ⟨(hother id' hne).1.trans (h.unfiled id' hid').1, (hother id' hne).2.trans (h.unfiled id' hid').2⟩
    · change ((s.obey upper id c).connections.keys ++ ((s.obey upper id c).hungUp ++ (s.obey upper id c).gone)).Perm _
      rw [hconnections, hhung, hgone]
      exact haccepted ▸ h.placed
    · exact haccepted ▸ h.fresh
    · exact fun e he => haccepted.symm ▸ h.hears hid c e he

/-- What is said of a hub says nothing of its fan-outs. -/
theorem Kept.flights (h : Kept upper s) (flights : List (List (Send W))) : Kept upper { s with flights := flights } :=
  ⟨h.filed, h.unfiled, h.placed, h.fresh, h.heard⟩

theorem happen_kept {i : Event W} (h : Kept upper s) (hstep : Happen upper s i t) : Kept upper t := by
  unfold Happen at hstep
  cases i with
  | arrive id ws authenticated =>
    simp only [happen] at hstep
    split_ifs at hstep with hid
    · cases hstep
      exact h.connect hid ws
    · cases hstep
      exact h
  | frame id raw =>
    simp only [happen] at hstep
    split_ifs at hstep with hid
    cases hstep
    exact h.obey hid _
  | leave id =>
    have hfound : (s.disconnect id).2 = s.connections.contains id := rfl
    simp only [happen] at hstep
    split_ifs at hstep with hid hin
    · cases hstep
      have hmem : id ∈ s.connections.keys := contains_iff.1 (hfound ▸ hin)
      refine h.disconnected id ?_
      calc (s.connections.erase id).keys ++ (s.hungUp ++ (s.gone ++ [id]))
          _ = ((s.connections.erase id).keys ++ (s.hungUp ++ s.gone)) ++ [id] := by simp only [List.append_assoc]
          List.Perm _ ([id] ++ ((s.connections.erase id).keys ++ (s.hungUp ++ s.gone))) := List.perm_append_comm
          _ = ([id] ++ (s.connections.erase id).keys) ++ (s.hungUp ++ s.gone) := (List.append_assoc ..).symm
          List.Perm _ (((s.connections.erase id).keys ++ [id]) ++ (s.hungUp ++ s.gone)) := List.perm_append_comm.append_right _
          List.Perm _ (s.connections.keys ++ (s.hungUp ++ s.gone)) := (keys_erase _ hmem).symm.append_right _
          List.Perm _ s.accepted := h.placed
    · cases hstep
      rw [hfound, Bool.not_eq_true] at hin
      rw [h.forgotten hin]
      exact h
  | publish channel symbol =>
    simp only [happen] at hstep
    split_ifs at hstep <;> cases hstep
    · exact h
    · exact h.flights _
  | resolve b i delivered =>
    simp only [happen] at hstep
    split at hstep
    · cases hstep
    · split at hstep
      · cases hstep
        exact h.flights _
      · cases hstep
  | finish b =>
    simp only [happen] at hstep
    split at hstep
    · cases hstep
    · rename_i sends _
      split_ifs at hstep
      cases hstep
      exact (drops_spec (failed sends) h).1.flights _

theorem kept_always {l : List (Event W)} (h : Run (Happen upper) {} l s) : Kept upper s := by
  refine run_invariant (Kept upper) (fun _ _ _ hs hstep => happen_kept hs hstep) ?_ h
  exact { filed := by simp [Dict.contains], unfiled := by simp, placed := .refl _, fresh := List.nodup_nil, heard := by simp }

/-- **`_wants` is what the client's commands ask for.** -/
theorem Kept.wants_iff (h : Kept upper s) {id : ℕ} (hid : s.connections.contains id = true) (channel : String)
    (symbol : Option String) : s.wants id channel symbol = true ↔ Wanted upper (s.sentBy id) channel symbol := by
  obtain ⟨hchannels, hfilter⟩ := h.filed id hid
  obtain ⟨hnone, hmem⟩ := filterOf_spec upper (s.sentBy id)
  unfold Hub.wants Wanted
  rw [hchannels, hfilter, Option.getD_some, Option.getD_some]
  by_cases halways : channel ∈ alwaysDelivered
  · simp [halways]
  by_cases hasked : AskedFor (s.sentBy id) channel
  · rw [if_neg halways, if_neg (not_not.2 (mem_channelsOf.2 hasked))]
    simp only [halways, false_or, hasked, true_and]
    cases symbol with
    | none => simp
    | some name =>
      dsimp only
      by_cases hfiltered : channel ∈ symbolFiltered
      · rw [if_neg (not_not.2 hfiltered)]
        simp only [hfiltered, Option.mem_def, Option.some.injEq, forall_eq', true_implies, ← hnone, ← hmem name]
        cases filterOf upper (s.sentBy id) <;> simp
      · simp [hfiltered]
  · rw [if_neg halways, if_pos (fun hin => hasked (mem_channelsOf.1 hin))]
    simp [halways, hasked]

/-- **What the browsers can rely on**: a fan-out goes to the clients connected that asked for it, and every halt and gap to all of
them; every client the server accepted is connected, or left, or was hung up on, and once; and a fan-out that ends lets go of
the clients it could not reach, and changes nothing for any other. -/
structure Reaches (upper : String → String) (s : Hub W) : Prop where
  targets : ∀ id channel symbol, (∃ ws, (id, ws) ∈ s.targets channel symbol) ↔
    s.connections.contains id = true ∧ Wanted upper (s.sentBy id) channel symbol
  placed : (s.connections.keys ++ (s.hungUp ++ s.gone)).Perm s.accepted ∧ (s.connections.keys ++ (s.hungUp ++ s.gone)).Nodup
  ends : ∀ b sends t, s.flights[b]? = some sends → Happen upper s (.finish b) t →
    (∀ id ∈ failed sends, t.connections.contains id = false) ∧
      ∀ id ∉ failed sends, t.connections.get? id = s.connections.get? id ∧
        ∀ channel symbol, t.wants id channel symbol = s.wants id channel symbol

/-- **The socket hub, over every order of arrivals, frames, fan-outs and failures.** -/
theorem hub_reaches {l : List (Event W)} (h : Run (Happen upper) {} l s) : Reaches upper s := by
  have hkept := kept_always h
  refine ⟨fun id channel symbol => ?_, ⟨hkept.placed, hkept.placed.nodup_iff.2 hkept.fresh⟩, fun b sends t hb hstep => ?_⟩
  · unfold Hub.targets
    constructor
    · rintro ⟨ws, hmem⟩
      obtain ⟨hentry, hwants⟩ := List.mem_filter.1 hmem
      have hid : s.connections.contains id = true := contains_iff.2 (List.mem_map_of_mem hentry)
      exact ⟨hid, (hkept.wants_iff hid channel symbol).1 hwants⟩
    · rintro ⟨hid, hwanted⟩
      obtain ⟨e, hentry, rfl⟩ := List.mem_map.1 (contains_iff.1 hid)
      exact ⟨e.2, List.mem_filter.2 ⟨hentry, (hkept.wants_iff hid channel symbol).2 hwanted⟩⟩
  · simp only [Happen, happen, hb] at hstep
    split_ifs at hstep
    cases hstep
    obtain ⟨-, hgone, hother⟩ := drops_spec (failed sends) hkept
    refine ⟨hgone, fun id hid => ⟨(hother id hid).1, fun channel symbol => ?_⟩⟩
    unfold Hub.wants
    dsimp only
    rw [(hother id hid).2.1, (hother id hid).2.2]

end

/-- Two clients; one follows AAPL, the other everything; a tick and a halt reach whom they should, and the one that stopped
reading is hung up on. -/
theorem hub_reaches_two : ∃ s : Hub Unit, Run (Happen id) {} [.arrive 0 () true, .arrive 1 () true,
      .frame 0 (some (.obj [("type", .str "subscribe"), ("channels", .list [.str "quotes"]), ("symbols", .list [.str "AAPL"])])),
      .frame 1 (some (.obj [("type", .str "subscribe"), ("channels", .list [.str "quotes"])])),
      .publish "quotes" (some "MSFT"), .resolve 0 0 false, .finish 0] s ∧ s.hungUp = [1] ∧
      Wanted id (s.sentBy 0) "halts" none ∧ s.connections.contains 1 = false := by
  let l : List (Event Unit) := [.arrive 0 () true, .arrive 1 () true,
    .frame 0 (some (.obj [("type", .str "subscribe"), ("channels", .list [.str "quotes"]), ("symbols", .list [.str "AAPL"])])),
    .frame 1 (some (.obj [("type", .str "subscribe"), ("channels", .list [.str "quotes"])])),
    .publish "quotes" (some "MSFT"), .resolve 0 0 false, .finish 0]
  have hfold : (l.foldlM (happen id) {}).map (fun s => (s.hungUp, s.connections.contains 1,
      (s.targets "halts" none).map Prod.fst)) = some ([1], false, [0]) := by decide +kernel
  obtain ⟨s, hs, hend⟩ := Option.map_eq_some_iff.1 hfold
  obtain ⟨hhung, hrest⟩ := Prod.mk.inj hend
  obtain ⟨hone, htargets⟩ := Prod.mk.inj hrest
  have hrun : Run (Happen id) {} l s := run_fold_iff.2 hs
  obtain ⟨e, he, hzero⟩ := List.map_eq_singleton_iff.1 htargets
  have hmem : (0, e.2) ∈ s.targets "halts" none := by
    rw [he, ← hzero]
    exact List.mem_singleton_self e
  exact ⟨s, hrun, hhung, (((hub_reaches hrun).targets 0 "halts" none).1 ⟨e.2, hmem⟩).2, hone⟩

end Sockets
end Atp
