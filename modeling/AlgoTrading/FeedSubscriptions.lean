import AlgoTrading.BackfillRequests
import AlgoTrading.HaltAlerts
/-!
# FeedSubscriptions — what a market-data connection was asked for

`subscribe`, `unsubscribe`, `_open` and `_send_subscription_frames` of `AlpacaRealtimeFeed`, as the machine their awaits leave:
the sets that are wanted change at once, the frames that say so go out one at a time, and a connection is the feed's own only when
its handshake is over.  A handshake reads the wanted sets as they are when each of its frames is made, for the symbols that were
wanted when it began; a call keeps the sets it was made with.  `Kept` is what holds of one symbol of one channel while nothing
disturbs it, and `Missed` what a change in the middle of a handshake can leave behind.
-/
namespace Atp
namespace FeedSubscriptions

open Runs
open HaltRaces (sortedSet)

/-! ## Frames -/

/-- `_CHANNELS`. -/
inductive Channel
  | bars
  | quotes
  | trades
deriving DecidableEq

def Channel.all : List Channel := [.bars, .quotes, .trades]

/-- A set of symbols for each channel. -/
abbrev Sets := Channel → List String

inductive Action
  | subscribe
  | unsubscribe
deriving DecidableEq

/-- A frame: the symbols it lists under each channel; a channel without any is not in it. -/
structure Frame where
  action : Action
  symbols : Sets

/-- `_MAX_SYMBOLS_PER_FRAME`. -/
def maxSymbolsPerFrame : ℕ := 250

/-- The frame of one chunk; `none` where no channel has a symbol of it. -/
def frameOf (action : Action) (channels : Sets) (chunk : List String) : Option Frame :=
  let symbols : Sets := fun channel => sortedSet ((channels channel).filter (· ∈ chunk))
  if Channel.all.all fun channel => (symbols channel).isEmpty then none else some ⟨action, symbols⟩

/-- The chunks of `sorted(_union(channels.values()))`. -/
def chunksOf (channels : Sets) : List (List String) := slices (sortedSet (Channel.all.flatMap channels)) maxSymbolsPerFrame

/-! ## The feed -/

/-- A call on its way: the connection it took, the sets it holds and the chunks it has yet to send. -/
structure Sending where
  connection : ℕ
  action : Action
  channels : Sets
  chunks : List (List String)

/-- A handshake on its way: the channels that had a symbol when it began, and the chunks it has yet to send. -/
structure Handshake where
  connection : ℕ
  included : List Channel
  chunks : List (List String)

/-- The feed, with every frame that was sent and the connection it went to. -/
structure Feed where
  wanted : Sets := fun _ => []
  connection : Option ℕ := none
  handshake : Option Handshake := none
  calls : List Sending := []
  sent : List (ℕ × Frame) := []
  opened : ℕ := 0

/-- What happens between two awaits. -/
inductive Event
  | subscribe (symbols : List String) (channels : List Channel)
  | unsubscribe (symbols : List String)
  | authenticated
  | handshakeFrame
  | handshakeFailed
  | handshakeOver
  | callFrame (i : ℕ)
  | callFailed (i : ℕ)
  | dropped

namespace Feed
variable (s : Feed) (upper : String → String)

/-- The frames of a call are begun on the connection there is, if it changed anything. -/
def begin (s : Feed) (action : Action) (changed : Sets) : Feed :=
  match s.connection with
  | none => s
  | some c =>
    if Channel.all.all fun channel => (changed channel).isEmpty then s
    else { s with calls := s.calls ++ [⟨c, action, changed, chunksOf changed⟩] }

/-- The symbols a `subscribe` adds to a channel. -/
def added (symbols : List String) (channels : List Channel) : Sets := fun channel =>
  if channel ∈ channels then symbols.filter (· ∉ s.wanted channel) else []

/-- The symbols an `unsubscribe` takes from a channel. -/
def removed (symbols : List String) : Sets := fun channel => (s.wanted channel).filter (· ∈ symbols)

/-- **`subscribe`**, up to its first frame: a symbol that is not in capitals is refused before anything changes. -/
def subscribe (symbols : List String) (channels : List Channel) : Feed :=
  if symbols.any fun symbol => symbol ≠ upper symbol then s
  else
    let added := s.added symbols channels
    { s with wanted := fun channel => s.wanted channel ++ added channel }.begin .subscribe added

/-- **`unsubscribe`**, up to its first frame. -/
def unsubscribe (symbols : List String) : Feed :=
  let removed := s.removed symbols
  { s with wanted := fun channel => (s.wanted channel).filter (· ∉ symbols) }.begin .unsubscribe removed

/-- A frame goes out on a connection. -/
def send (c : ℕ) (frame : Option Frame) : Feed := { s with sent := s.sent ++ frame.toList.map fun f => (c, f) }

/-- The sets a handshake reads: those that were not empty when it began, as they are now. -/
def restored (h : Handshake) : Sets := fun channel => if channel ∈ h.included then s.wanted channel else []

/-- The handshake after authentication, before its first frame. -/
def beginHandshake : Handshake :=
  let included := Channel.all.filter fun channel => !(s.wanted channel).isEmpty
  ⟨s.opened, included, chunksOf fun channel => if channel ∈ included then s.wanted channel else []⟩

/-- **One step of the feed**; `none` where it cannot be taken. -/
def step : Event → Option Feed
  | .subscribe symbols channels => some (s.subscribe upper symbols channels)
  | .unsubscribe symbols => some (s.unsubscribe symbols)
  | .authenticated =>
    if s.connection.isSome || s.handshake.isSome then none
    else some { s with handshake := some s.beginHandshake, opened := s.opened + 1 }
  | .handshakeFrame =>
    match s.handshake with
    | some ⟨c, included, chunk :: rest⟩ =>
      some { s.send c (frameOf .subscribe (s.restored ⟨c, included, chunk :: rest⟩) chunk) with
        handshake := some ⟨c, included, rest⟩ }
    | _ => none
  | .handshakeFailed => s.handshake.map fun _ => { s with handshake := none }
  | .handshakeOver =>
    match s.handshake with
    | some ⟨c, _, []⟩ => some { s with handshake := none, connection := some c }
    | _ => none
  | .callFrame i =>
    match s.calls[i]? with
    | some ⟨c, action, channels, chunk :: rest⟩ =>
      some { s.send c (frameOf action channels chunk) with calls := s.calls.set i ⟨c, action, channels, rest⟩ }
    | _ => none
  | .callFailed i => (s.calls[i]?).map fun _ => { s with calls := s.calls.eraseIdx i }
  | .dropped => s.connection.map fun _ => { s with connection := none }

/-- A feed that has not streamed yet. -/
def start : Feed := {}

/-- The step as a relation. -/
def Step (upper : String → String) (s : Feed) (e : Event) (t : Feed) : Prop := s.step upper e = some t

end Feed

/-! ## What the frames ask for -/

/-- **What the frames sent on a connection add up to** for one symbol of one channel. -/
def asked (sent : List (ℕ × Frame)) (c : ℕ) (channel : Channel) (symbol : String) : Bool :=
  sent.foldl (fun b e => if e.1 = c ∧ symbol ∈ e.2.symbols channel then decide (e.2.action = .subscribe) else b) false

/-- A call still has to send this symbol of this channel. -/
def Sending.Mentions (call : Sending) (channel : Channel) (symbol : String) : Prop :=
  symbol ∈ call.channels channel ∧ symbol ∈ call.chunks.flatten

/-- A handshake still has to send it. -/
def Handshake.Mentions (h : Handshake) (channel : Channel) (symbol : String) : Prop :=
  channel ∈ h.included ∧ symbol ∈ h.chunks.flatten

section lists
variable {α : Type} {l : List α} {i : ℕ} {a b : α}

/-- What is not at the place that is set stays. -/
theorem mem_set_of_ne (h : b ∈ l) (hne : l[i]? ≠ some b) : b ∈ l.set i a := by
  obtain ⟨j, hj⟩ := List.mem_iff_getElem?.1 h
  have hij : i ≠ j := by
    rintro rfl
    exact hne hj
  exact List.mem_of_getElem? ((List.getElem?_set_ne hij).trans hj)

theorem mem_eraseIdx_of_ne (h : b ∈ l) (hne : l[i]? ≠ some b) : b ∈ l.eraseIdx i := by
  obtain ⟨j, hj⟩ := List.mem_iff_getElem?.1 h
  refine List.mem_eraseIdx_iff_getElem?.2 ⟨j, ?_, hj⟩
  rintro rfl
  exact hne hj

end lists

section asked
variable {s : Feed} {c c' : ℕ} {channel : Channel} {symbol : String}

theorem mem_sortedSet {l : List String} {x : String} : x ∈ sortedSet l ↔ x ∈ l := by
  rw [sortedSet, List.mem_insertionSort, List.mem_dedup]

theorem Channel.mem_all (channel : Channel) : channel ∈ Channel.all := by
  cases channel <;> decide

/-- **A frame asks for the symbols of its chunk, channel by channel, and for nothing else.** -/
theorem asked_send (s : Feed) (c c' : ℕ) (action : Action) (channels : Sets) (chunk : List String) (channel : Channel)
    (symbol : String) : asked (s.send c' (frameOf action channels chunk)).sent c channel symbol =
      if c' = c ∧ symbol ∈ channels channel ∧ symbol ∈ chunk then decide (action = .subscribe)
      else asked s.sent c channel symbol := by
  have hmem : symbol ∈ sortedSet ((channels channel).filter (· ∈ chunk)) ↔ symbol ∈ channels channel ∧ symbol ∈ chunk := by
    rw [mem_sortedSet, List.mem_filter, decide_eq_true_eq]
  unfold frameOf Feed.send
  dsimp only
  split
  · rename_i hempty
    have hnone : sortedSet ((channels channel).filter (· ∈ chunk)) = [] :=
      List.isEmpty_iff.1 (List.all_eq_true.1 hempty channel channel.mem_all)
    have hnot : ¬ (symbol ∈ channels channel ∧ symbol ∈ chunk) := by
      rw [← hmem, hnone]
      exact List.not_mem_nil
    rw [if_neg fun h => hnot h.2]
    simp
  · unfold asked
    rw [Option.toList_some, List.map_cons, List.map_nil, List.foldl_append, List.foldl_cons, List.foldl_nil]
    simp only [hmem]

theorem flatten_chunksOf (channels : Sets) : symbol ∈ (chunksOf channels).flatten ↔ ∃ channel, symbol ∈ channels channel := by
  unfold chunksOf
  rw [flatten_slices (by decide), mem_sortedSet, List.mem_flatMap]
  exact ⟨fun ⟨channel, _, h⟩ => ⟨channel, h⟩, fun ⟨channel, h⟩ => ⟨channel, channel.mem_all, h⟩⟩

/-- A new call mentions what it changes. -/
theorem mentions_new {action : Action} {changed : Sets} :
    (⟨c, action, changed, chunksOf changed⟩ : Sending).Mentions channel symbol ↔ symbol ∈ changed channel :=
  ⟨fun h => h.1, fun h => ⟨h, (flatten_chunksOf changed).2 ⟨channel, h⟩⟩⟩

/-- What a call mentions is in the chunk it sends next, or in a later one. -/
theorem Sending.mentions_cons {action : Action} {channels : Sets} {chunk : List String} {rest : List (List String)} :
    (⟨c, action, channels, chunk :: rest⟩ : Sending).Mentions channel symbol ↔
      symbol ∈ channels channel ∧ (symbol ∈ chunk ∨ symbol ∈ rest.flatten) := by
  rw [Sending.Mentions, List.flatten_cons, List.mem_append]

theorem Handshake.mentions_cons {included : List Channel} {chunk : List String} {rest : List (List String)} :
    (⟨c, included, chunk :: rest⟩ : Handshake).Mentions channel symbol ↔
      channel ∈ included ∧ (symbol ∈ chunk ∨ symbol ∈ rest.flatten) := by
  rw [Handshake.Mentions, List.flatten_cons, List.mem_append]

theorem mem_restored {h : Handshake} : symbol ∈ s.restored h channel ↔ channel ∈ h.included ∧ symbol ∈ s.wanted channel := by
  unfold Feed.restored
  split
  · rename_i hin
    exact (and_iff_right hin).symm
  · rename_i hout
    exact iff_of_false List.not_mem_nil fun h => hout h.1

/-- Nothing was asked on a connection that nothing was sent on. -/
theorem asked_fresh {sent : List (ℕ × Frame)} (h : ∀ e ∈ sent, e.1 ≠ c) : asked sent c channel symbol = false := by
  induction sent using List.reverseRecOn with
  | nil => rfl
  | append_singleton sent e ih =>
    unfold asked at ih ⊢
    rw [List.foldl_append, List.foldl_cons, List.foldl_nil, if_neg fun he => h e (by simp) he.1]
    exact ih fun e he => h e (List.mem_append_left _ he)

theorem mem_send {frame : Option Frame} {e : ℕ × Frame} (h : e ∈ (s.send c frame).sent) : e ∈ s.sent ∨ e.1 = c := by
  rcases List.mem_append.1 h with hold | hnew
  · exact .inl hold
  · obtain ⟨f, -, rfl⟩ := List.mem_map.1 hnew
    exact .inr rfl

/-- A new handshake mentions what is wanted. -/
theorem mentions_beginHandshake (hw : symbol ∈ s.wanted channel) : s.beginHandshake.Mentions channel symbol := by
  have hincluded : channel ∈ s.beginHandshake.included := by
    simp [Feed.beginHandshake, Channel.mem_all, List.ne_nil_of_mem hw]
  exact ⟨hincluded, (flatten_chunksOf _).2 ⟨channel, (if_pos hincluded).symm ▸ hw⟩⟩

end asked

/-! ## One symbol of one channel -/

/-- A call on its way has yet to tell the live connection of this symbol of this channel. -/
def Pending (s : Feed) (channel : Channel) (symbol : String) : Prop :=
  ∃ call ∈ s.calls, s.connection = some call.connection ∧ call.Mentions channel symbol

/-- Connections are numbered as they are opened: nothing is on its way over one that is yet to be, and a handshake has its own to
itself. -/
structure Placed (s : Feed) : Prop where
  sent : ∀ e ∈ s.sent, e.1 < s.opened
  calls : ∀ call ∈ s.calls, call.connection < s.opened
  live : ∀ c, s.connection = some c → c < s.opened ∧ s.handshake = none
  shaking : ∀ h, s.handshake = some h → h.connection < s.opened ∧ ∀ call ∈ s.calls, call.connection < h.connection

/-- **What holds of a symbol of a channel** as long as nothing disturbs it: a handshake has asked for it or has yet to, if it is
wanted; every call on its way to the live connection says what is wanted; and when none is on its way, it was said. -/
structure Kept (channel : Channel) (symbol : String) (s : Feed) : Prop where
  asking : ∀ h, s.handshake = some h → (asked s.sent h.connection channel symbol = true → symbol ∈ s.wanted channel) ∧
    (¬ h.Mentions channel symbol → symbol ∈ s.wanted channel → asked s.sent h.connection channel symbol = true)
  telling : ∀ call ∈ s.calls, s.connection = some call.connection → call.Mentions channel symbol →
    (call.action = .subscribe ↔ symbol ∈ s.wanted channel)
  told : ∀ c, s.connection = some c → ¬ Pending s channel symbol →
    (asked s.sent c channel symbol = true ↔ symbol ∈ s.wanted channel)

/-- The symbol is put into the channel or taken out of it by this event. -/
def Changes (upper : String → String) (s : Feed) (channel : Channel) (symbol : String) : Event → Prop
  | .subscribe symbols channels => (∀ x ∈ symbols, x = upper x) ∧ symbol ∈ s.added symbols channels channel
  | .unsubscribe symbols => symbol ∈ s.removed symbols channel
  | _ => False

/-- A call fails on a connection that lives on, and what it had yet to say of the symbol is never said. -/
def Silences (s : Feed) (channel : Channel) (symbol : String) : Event → Prop
  | .callFailed i => ∃ call ∈ s.calls[i]?, s.connection = some call.connection ∧ call.Mentions channel symbol
  | _ => False

/-- **Nothing disturbs the symbol**: it is not changed during a handshake or before the last change of it was sent, and no send
of such a change fails on a connection that lives on. -/
def Undisturbed (upper : String → String) (channel : Channel) (symbol : String) (s : Feed) (e : Event) : Prop :=
  (Changes upper s channel symbol e → s.handshake = none ∧ ¬ Pending s channel symbol) ∧ ¬ Silences s channel symbol e

instance (call : Sending) (channel : Channel) (symbol : String) : Decidable (call.Mentions channel symbol) :=
  inferInstanceAs (Decidable (_ ∧ _))

instance (s : Feed) (channel : Channel) (symbol : String) : Decidable (Pending s channel symbol) :=
  inferInstanceAs (Decidable (∃ call ∈ s.calls, _ ∧ _))

instance (s : Feed) (channel : Channel) (symbol : String) (e : Event) : Decidable (Silences s channel symbol e) :=
  match e with
  | .callFailed i => inferInstanceAs (Decidable (∃ call ∈ s.calls[i]?, _ ∧ _))
  | .subscribe _ _ | .unsubscribe _ | .authenticated | .handshakeFrame | .handshakeFailed | .handshakeOver | .callFrame _
  | .dropped => inferInstanceAs (Decidable False)

instance (upper : String → String) (s : Feed) (channel : Channel) (symbol : String) (e : Event) :
    Decidable (Changes upper s channel symbol e) :=
  match e with
  | .subscribe symbols channels =>
    inferInstanceAs (Decidable ((∀ x ∈ symbols, x = upper x) ∧ _ ∈ s.added symbols channels channel))
  | .unsubscribe symbols => inferInstanceAs (Decidable (_ ∈ s.removed symbols channel))
  | .authenticated | .handshakeFrame | .handshakeFailed | .handshakeOver | .callFrame _ | .callFailed _ | .dropped =>
    inferInstanceAs (Decidable False)

instance (upper : String → String) (channel : Channel) (symbol : String) (s : Feed) (e : Event) :
    Decidable (Undisturbed upper channel symbol s e) := inferInstanceAs (Decidable (_ ∧ _))

section placed
variable {s t : Feed} {upper : String → String} {action : Action} {changed : Sets} {c : ℕ}

/-- A call either sends nothing, or is on its way over the connection there is. -/
theorem begin_cases (s : Feed) (action : Action) (changed : Sets) :
    (s.begin action changed = s ∧ ((∃ c, s.connection = some c) → ∀ channel, changed channel = [])) ∨
      ∃ c, s.connection = some c ∧
        s.begin action changed = { s with calls := s.calls ++ [⟨c, action, changed, chunksOf changed⟩] } := by
  unfold Feed.begin
  cases hc : s.connection with
  | none => exact .inl ⟨rfl, fun ⟨c, hcc⟩ => by cases hcc⟩
  | some c =>
    dsimp only
    split
    · rename_i hempty
      exact .inl ⟨rfl, fun _ channel => List.isEmpty_iff.1 (List.all_eq_true.1 hempty channel channel.mem_all)⟩
    · exact .inr ⟨c, rfl, rfl⟩

theorem begin_down (hc : s.connection = none) : s.begin action changed = s := by
  unfold Feed.begin
  rw [hc]

/-- A feed with a handshake on its way has no connection of its own yet. -/
theorem Placed.down (p : Placed s) {h : Handshake} (hh : s.handshake = some h) : s.connection = none := by
  cases hc : s.connection with
  | none => rfl
  | some c =>
    rw [(p.live c hc).2] at hh
    cases hh

theorem Placed.begin (p : Placed s) (wanted : Sets) : Placed ({ s with wanted := wanted }.begin action changed) := by
  rcases begin_cases { s with wanted := wanted } action changed with ⟨heq, -⟩ | ⟨c, hc, heq⟩
  · rw [heq]
    exact ⟨p.sent, p.calls, p.live, p.shaking⟩
  · rw [heq]
    refine ⟨p.sent, fun call hcall => ?_, p.live, fun h hh => ?_⟩
    · rcases List.mem_append.1 hcall with hold | hnew
      · exact p.calls call hold
      · rw [List.mem_singleton.1 hnew]
        exact (p.live c hc).1
    · have hdown := p.down hh
      rw [show s.connection = some c from hc] at hdown
      cases hdown

theorem authenticated_inv (he : s.step upper .authenticated = some t) : s.connection = none ∧ s.handshake = none ∧
    t = { s with handshake := some s.beginHandshake, opened := s.opened + 1 } := by
  unfold Feed.step at he
  dsimp only at he
  split at he
  · cases he
  · rename_i hidle
    simp only [Bool.or_eq_true, not_or, Option.not_isSome_iff_eq_none] at hidle
    exact ⟨hidle.1, hidle.2, (Option.some.inj he).symm⟩

theorem handshakeFrame_inv (he : s.step upper .handshakeFrame = some t) : ∃ c included chunk rest,
    s.handshake = some ⟨c, included, chunk :: rest⟩ ∧
      t = { s.send c (frameOf .subscribe (s.restored ⟨c, included, chunk :: rest⟩) chunk) with
        handshake := some ⟨c, included, rest⟩ } := by
  unfold Feed.step at he
  dsimp only at he
  split at he
  · rename_i c included chunk rest hh
    exact ⟨c, included, chunk, rest, hh, (Option.some.inj he).symm⟩
  · cases he

theorem handshakeOver_inv (he : s.step upper .handshakeOver = some t) : ∃ c included, s.handshake = some ⟨c, included, []⟩ ∧
    t = { s with handshake := none, connection := some c } := by
  unfold Feed.step at he
  dsimp only at he
  split at he
  · rename_i c included hh
    exact ⟨c, included, hh, (Option.some.inj he).symm⟩
  · cases he

theorem callFrame_inv {i : ℕ} (he : s.step upper (.callFrame i) = some t) : ∃ c action channels chunk rest,
    s.calls[i]? = some ⟨c, action, channels, chunk :: rest⟩ ∧
      t = { s.send c (frameOf action channels chunk) with calls := s.calls.set i ⟨c, action, channels, rest⟩ } := by
  unfold Feed.step at he
  dsimp only at he
  split at he
  · rename_i c action channels chunk rest hi
    exact ⟨c, action, channels, chunk, rest, hi, (Option.some.inj he).symm⟩
  · cases he

/-- **Every step keeps the connections in their places.** -/
theorem Placed.step (p : Placed s) {e : Event} (he : s.step upper e = some t) : Placed t := by
  cases e with
  | subscribe symbols channels =>
    cases he
    unfold Feed.subscribe
    split
    · exact p
    · exact p.begin _
  | unsubscribe symbols =>
    cases he
    exact p.begin _
  | authenticated =>
    obtain ⟨hdown, -, rfl⟩ := authenticated_inv he
    refine ⟨fun e h => Nat.lt_succ_of_lt (p.sent e h), fun call h => Nat.lt_succ_of_lt (p.calls call h), fun c hc => ?_,
      fun h hh => ?_⟩
    · rw [show s.connection = some c from hc] at hdown
      cases hdown
    · cases hh
      exact ⟨Nat.lt_succ_self _, p.calls⟩
  | handshakeFrame =>
    obtain ⟨c, included, chunk, rest, hh, rfl⟩ := handshakeFrame_inv he
    obtain ⟨hlt, hcalls⟩ := p.shaking _ hh
    refine ⟨fun e hsent => ?_, p.calls, fun c hc => ?_, fun h hnew => ?_⟩
    · rcases mem_send hsent with hold | heq
      · exact p.sent e hold
      · exact heq ▸ hlt
    · have hdown := p.down hh
      rw [show s.connection = some c from hc] at hdown
      cases hdown
    · cases hnew
      exact ⟨hlt, hcalls⟩
  | handshakeFailed =>
    obtain ⟨h, hh, rfl⟩ := Option.map_eq_some_iff.1 he
    exact ⟨p.sent, p.calls, fun c hc => ⟨(p.live c hc).1, rfl⟩, fun h hnew => by cases hnew⟩
  | handshakeOver =>
    obtain ⟨c, included, hh, rfl⟩ := handshakeOver_inv he
    refine ⟨p.sent, p.calls, fun c hc => ?_, fun h hnew => (by cases hnew)⟩
    cases hc
    exact ⟨(p.shaking _ hh).1, rfl⟩
  | callFrame i =>
    obtain ⟨c, action, channels, chunk, rest, hi, rfl⟩ := callFrame_inv he
    have hcall := List.mem_of_getElem? hi
    have hlt : c < s.opened := p.calls _ hcall
    have hearlier (h : Handshake) (hh : s.handshake = some h) : c < h.connection := (p.shaking h hh).2 _ hcall
    refine ⟨fun e hsent => ?_, fun call hc => ?_, p.live, fun h hh => ⟨(p.shaking h hh).1, fun call hc => ?_⟩⟩
    · rcases mem_send hsent with hold | heq
      · exact p.sent e hold
      · exact heq ▸ hlt
    · rcases List.mem_or_eq_of_mem_set hc with hold | rfl
      · exact p.calls call hold
      · exact hlt
    · rcases List.mem_or_eq_of_mem_set hc with hold | rfl
      · exact (p.shaking h hh).2 call hold
      · exact hearlier h hh
  | callFailed i =>
    obtain ⟨call, hi, rfl⟩ := Option.map_eq_some_iff.1 he
    exact ⟨p.sent, fun k hk => p.calls k (List.mem_of_mem_eraseIdx hk), p.live,
      fun h hh => ⟨(p.shaking h hh).1, fun k hk => (p.shaking h hh).2 k (List.mem_of_mem_eraseIdx hk)⟩⟩
  | dropped =>
    obtain ⟨c, hc, rfl⟩ := Option.map_eq_some_iff.1 he
    exact ⟨p.sent, p.calls, fun c hnew => (by cases hnew), p.shaking⟩

theorem placed_start : Placed Feed.start :=
  ⟨fun _ he => (List.not_mem_nil he).elim, fun _ hc => (List.not_mem_nil hc).elim, fun _ hc => (by cases hc),
    fun _ hh => (by cases hh)⟩

end placed

section kept
variable {s t : Feed} {channel : Channel} {symbol : String} {upper : String → String} {action : Action} {changed : Sets} {c : ℕ}

/-- Without a connection there is nothing to tell. -/
theorem Kept.of_down (hdown : s.connection = none)
    (hasking : ∀ h, s.handshake = some h → (asked s.sent h.connection channel symbol = true → symbol ∈ s.wanted channel) ∧
      (¬ h.Mentions channel symbol → symbol ∈ s.wanted channel → asked s.sent h.connection channel symbol = true)) :
    Kept channel symbol s := by
  have hno {c : ℕ} (hc : s.connection = some c) : False := by
    rw [hdown] at hc
    cases hc
  exact ⟨hasking, fun call _ hon => (hno hon).elim, fun c hc => (hno hc).elim⟩

/-- The sets change and the symbol does not. -/
theorem Kept.same (h : Kept channel symbol s) {wanted : Sets} (hsame : symbol ∈ wanted channel ↔ symbol ∈ s.wanted channel) :
    Kept channel symbol { s with wanted := wanted } := by
  refine ⟨fun h' hh => ?_, fun call hcall hon hm => ?_, fun c hc hquiet => ?_⟩
  · obtain ⟨hasked, hsaid⟩ := h.asking h' hh
    exact ⟨fun ha => hsame.2 (hasked ha), fun hnot hw => hsaid hnot (hsame.1 hw)⟩
  · exact (h.telling call hcall hon hm).trans hsame.symm
  · exact (h.told c hc hquiet).trans hsame.symm

/-- A call that does not mention the symbol is begun. -/
theorem Kept.tell (h : Kept channel symbol s) {call : Sending} (hnot : ¬ call.Mentions channel symbol) :
    Kept channel symbol { s with calls := s.calls ++ [call] } := by
  refine ⟨h.asking, fun k hk hon hm => ?_,
    fun c hc hquiet => h.told c hc fun ⟨k, hk, hon, hm⟩ => hquiet ⟨k, List.mem_append_left _ hk, hon, hm⟩⟩
  rcases List.mem_append.1 hk with hold | hnew
  · exact h.telling k hold hon hm
  · rw [List.mem_singleton.1 hnew] at hm
    exact (hnot hm).elim

/-- A call that changes the wanted sets and says so. -/
theorem Kept.begin (h : Kept channel symbol s) {wanted : Sets}
    (hchange : symbol ∈ changed channel → (s.handshake = none ∧ ¬ Pending s channel symbol) ∧
      (action = .subscribe ↔ symbol ∈ wanted channel))
    (hsame : symbol ∉ changed channel → (symbol ∈ wanted channel ↔ symbol ∈ s.wanted channel)) :
    Kept channel symbol ({ s with wanted := wanted }.begin action changed) := by
  by_cases hch : symbol ∈ changed channel
  · obtain ⟨⟨hnone, hidle⟩, hsays⟩ := hchange hch
    have hno {h' : Handshake} (hh : s.handshake = some h') : False := by
      rw [hnone] at hh
      cases hh
    rcases begin_cases { s with wanted := wanted } action changed with ⟨heq, hempty⟩ | ⟨c, hc, heq⟩
    · rw [heq]
      have hdown {c : ℕ} (hc : s.connection = some c) : False := by
        rw [hempty ⟨c, hc⟩ channel] at hch
        exact List.not_mem_nil hch
      exact ⟨fun h' hh => (hno hh).elim, fun call _ hon => (hdown hon).elim, fun c hc => (hdown hc).elim⟩
    · rw [heq]
      refine ⟨fun h' hh => (hno hh).elim, fun call hcall hon hm => ?_, fun c' hc' hquiet => ?_⟩
      · rcases List.mem_append.1 hcall with hold | hnew
        · exact (hidle ⟨call, hold, hon, hm⟩).elim
        · rw [List.mem_singleton.1 hnew]
          exact hsays
      · refine (hquiet ⟨⟨c, action, changed, chunksOf changed⟩, ?_, hc, mentions_new.2 hch⟩).elim
        exact List.mem_append_right _ (List.mem_singleton_self _)
  · have hkept := h.same (hsame hch)
    rcases begin_cases { s with wanted := wanted } action changed with ⟨heq, -⟩ | ⟨c, -, heq⟩
    · rw [heq]
      exact hkept
    · rw [heq]
      exact hkept.tell fun hm => hch hm.1

theorem Kept.subscribe (h : Kept channel symbol s) {symbols : List String} {channels : List Channel}
    (hquiet : (∀ x ∈ symbols, x = upper x) ∧ symbol ∈ s.added symbols channels channel →
      s.handshake = none ∧ ¬ Pending s channel symbol) : Kept channel symbol (s.subscribe upper symbols channels) := by
  unfold Feed.subscribe
  split
  · exact h
  · rename_i hupper
    have hall : ∀ x ∈ symbols, x = upper x := by simpa using hupper
    refine h.begin (fun hch => ⟨hquiet ⟨hall, hch⟩, ?_⟩) fun hnot => ?_
    · exact iff_of_true rfl (List.mem_append_right _ hch)
    · exact List.mem_append.trans (or_iff_left hnot)

theorem Kept.unsubscribe (h : Kept channel symbol s) {symbols : List String}
    (hquiet : symbol ∈ s.removed symbols channel → s.handshake = none ∧ ¬ Pending s channel symbol) :
    Kept channel symbol (s.unsubscribe symbols) := by
  have hmem : symbol ∈ s.removed symbols channel ↔ symbol ∈ s.wanted channel ∧ symbol ∈ symbols := by
    rw [Feed.removed, List.mem_filter, decide_eq_true_eq]
  have hleft : symbol ∈ (s.wanted channel).filter (· ∉ symbols) ↔ symbol ∈ s.wanted channel ∧ symbol ∉ symbols := by
    rw [List.mem_filter, decide_eq_true_eq]
  refine h.begin (fun hch => ⟨hquiet hch, ?_⟩) fun hnot => ?_
  · exact iff_of_false (by decide) fun hw => (hleft.1 hw).2 (hmem.1 hch).2
  · rw [hmem] at hnot
    exact hleft.trans ⟨fun hw => hw.1, fun hw => ⟨hw, fun hs => hnot ⟨hw, hs⟩⟩⟩

theorem Kept.authenticated (p : Placed s) (hdown : s.connection = none) :
    Kept channel symbol { s with handshake := some s.beginHandshake, opened := s.opened + 1 } := by
  refine .of_down hdown fun h hh => ?_
  cases hh
  have hfresh : asked s.sent s.opened channel symbol = false := asked_fresh fun e he => (p.sent e he).ne
  refine ⟨fun ha => ?_, fun hnot hw => (hnot (mentions_beginHandshake hw)).elim⟩
  rw [show s.beginHandshake.connection = s.opened from rfl, hfresh] at ha
  cases ha

/-- A frame of a handshake asks for what is wanted when it is made. -/
theorem Kept.handshakeFrame (p : Placed s) (h : Kept channel symbol s) {included : List Channel} {chunk : List String}
    {rest : List (List String)} (hh : s.handshake = some ⟨c, included, chunk :: rest⟩) :
    Kept channel symbol { s.send c (frameOf .subscribe (s.restored ⟨c, included, chunk :: rest⟩) chunk) with
      handshake := some ⟨c, included, rest⟩ } := by
  obtain ⟨hasked, hsaid⟩ := h.asking _ hh
  refine .of_down (p.down hh) fun h' hnew => ?_
  cases hnew
  refine ⟨fun ha => ?_, fun hnot hw => ?_⟩
  · rw [asked_send] at ha
    split at ha
    · rename_i hin
      exact (mem_restored.1 hin.2.1).2
    · exact hasked ha
  · rw [asked_send]
    split
    · rfl
    · rename_i hout
      refine hsaid (fun hm => ?_) hw
      obtain ⟨hin, hchunk | hrest⟩ := Handshake.mentions_cons.1 hm
      · exact hout ⟨rfl, mem_restored.2 ⟨hin, hw⟩, hchunk⟩
      · exact hnot ⟨hin, hrest⟩

theorem Kept.handshakeOver (p : Placed s) (h : Kept channel symbol s) {included : List Channel}
    (hh : s.handshake = some ⟨c, included, []⟩) : Kept channel symbol { s with handshake := none, connection := some c } := by
  obtain ⟨-, hcalls⟩ := p.shaking _ hh
  obtain ⟨hasked, hsaid⟩ := h.asking _ hh
  refine ⟨fun h' hnew => (by cases hnew), fun call hcall hon => ?_, fun c' hc _ => ?_⟩
  · cases hon
    exact ((hcalls call hcall).ne rfl).elim
  · cases hc
    exact ⟨hasked, hsaid fun hm => List.not_mem_nil hm.2⟩

/-- A frame of a call takes what it says from what the call still has to say. -/
theorem Kept.callFrame (p : Placed s) (h : Kept channel symbol s) {i : ℕ} {chunk : List String} {rest : List (List String)}
    (hi : s.calls[i]? = some ⟨c, action, changed, chunk :: rest⟩) :
    Kept channel symbol { s.send c (frameOf action changed chunk) with calls := s.calls.set i ⟨c, action, changed, rest⟩ } := by
  have hcall : (⟨c, action, changed, chunk :: rest⟩ : Sending) ∈ s.calls := List.mem_of_getElem? hi
  have hsays : s.connection = some c → (⟨c, action, changed, chunk :: rest⟩ : Sending).Mentions channel symbol →
      (action = .subscribe ↔ symbol ∈ s.wanted channel) := h.telling _ hcall
  have hlater (hm : (⟨c, action, changed, rest⟩ : Sending).Mentions channel symbol) :
      (⟨c, action, changed, chunk :: rest⟩ : Sending).Mentions channel symbol := Sending.mentions_cons.2 ⟨hm.1, .inr hm.2⟩
  refine ⟨fun h' hh => ?_, fun call hc hon hm => ?_, fun c' hc' hquiet => ?_⟩
  · have hsame : asked (s.send c (frameOf action changed chunk)).sent h'.connection channel symbol =
        asked s.sent h'.connection channel symbol := by
      rw [asked_send, if_neg fun hin => ((p.shaking h' hh).2 _ hcall).ne hin.1]
    obtain ⟨hasked, hsaid⟩ := h.asking h' hh
    exact ⟨fun ha => hasked (hsame ▸ ha), fun hnot hw => hsame ▸ hsaid hnot hw⟩
  · rcases List.mem_or_eq_of_mem_set hc with hold | rfl
    · exact h.telling call hold hon hm
    · exact hsays hon (hlater hm)
  · rw [asked_send]
    split
    · rename_i hin
      rw [decide_eq_true_eq]
      exact hsays (hin.1 ▸ hc') (Sending.mentions_cons.2 ⟨hin.2.1, .inl hin.2.2⟩)
    · rename_i hout
      refine h.told c' hc' fun ⟨call, hk, hon, hm⟩ => ?_
      -- the call that sent the frame is still pending with what is left of it, and every other call as before
      by_cases heq : call = ⟨c, action, changed, chunk :: rest⟩
      · subst heq
        have hcc : c' = c := Option.some.inj (hc'.symm.trans hon)
        obtain ⟨hin, hchunk | hrest⟩ := Sending.mentions_cons.1 hm
        · exact hout ⟨hcc.symm, hin, hchunk⟩
        · refine hquiet ⟨⟨c, action, changed, rest⟩, ?_, hon, hin, hrest⟩
          exact List.mem_set (List.getElem?_eq_some_iff.1 hi).1 _
      · exact hquiet ⟨call, mem_set_of_ne hk fun hki => heq (Option.some.inj (hki.symm.trans hi)), hon, hm⟩

/-- A call that fails may leave unsaid only what it did not mention. -/
theorem Kept.callFailed (h : Kept channel symbol s) {i : ℕ} {call : Sending} (hi : s.calls[i]? = some call)
    (hquiet : s.connection = some call.connection → ¬ call.Mentions channel symbol) :
    Kept channel symbol { s with calls := s.calls.eraseIdx i } := by
  refine ⟨h.asking, fun k hk => h.telling k (List.mem_of_mem_eraseIdx hk),
    fun c hc hidle => h.told c hc fun ⟨k, hk, hon, hm⟩ => ?_⟩
  by_cases heq : k = call
  · subst heq
    exact hquiet hon hm
  · exact hidle ⟨k, mem_eraseIdx_of_ne hk fun hki => heq (Option.some.inj (hki.symm.trans hi)), hon, hm⟩

/-- **Every step keeps it.** -/
theorem Kept.step (p : Placed s) (h : Kept channel symbol s) {e : Event} (hquiet : Undisturbed upper channel symbol s e)
    (he : s.step upper e = some t) : Kept channel symbol t := by
  cases e with
  | subscribe symbols channels =>
    cases he
    exact h.subscribe fun hch => hquiet.1 hch
  | unsubscribe symbols =>
    cases he
    exact h.unsubscribe fun hch => hquiet.1 hch
  | authenticated =>
    obtain ⟨hdown, -, rfl⟩ := authenticated_inv he
    exact .authenticated p hdown
  | handshakeFrame =>
    obtain ⟨c, included, chunk, rest, hh, rfl⟩ := handshakeFrame_inv he
    exact .handshakeFrame p h hh
  | handshakeFailed =>
    obtain ⟨h', hh, rfl⟩ := Option.map_eq_some_iff.1 he
    exact .of_down (p.down hh) fun h'' hnew => by cases hnew
  | handshakeOver =>
    obtain ⟨c, included, hh, rfl⟩ := handshakeOver_inv he
    exact .handshakeOver p h hh
  | callFrame i =>
    obtain ⟨c, action, channels, chunk, rest, hi, rfl⟩ := callFrame_inv he
    exact .callFrame p h hi
  | callFailed i =>
    obtain ⟨call, hi, rfl⟩ := Option.map_eq_some_iff.1 he
    exact h.callFailed hi fun hon hm => hquiet.2 ⟨call, hi, hon, hm⟩
  | dropped =>
    obtain ⟨c, hc, rfl⟩ := Option.map_eq_some_iff.1 he
    exact .of_down rfl h.asking

theorem kept_start : Kept channel symbol Feed.start :=
  .of_down rfl fun _ hh => by cases hh

end kept

/-! ## Frames the venue accepts -/

/-- A frame names a symbol, and no more of them over its channels than a frame may. -/
def Frame.Fits (frame : Frame) : Prop :=
  (∃ channel, frame.symbols channel ≠ []) ∧ (Channel.all.flatMap frame.symbols).dedup.length ≤ maxSymbolsPerFrame

def Short (chunks : List (List String)) : Prop := ∀ chunk ∈ chunks, chunk.length ≤ maxSymbolsPerFrame

/-- **Every frame that was sent fits**, and so will those on their way. -/
structure Fitting (s : Feed) : Prop where
  sent : ∀ e ∈ s.sent, e.2.Fits
  calls : ∀ call ∈ s.calls, Short call.chunks
  shaking : ∀ h, s.handshake = some h → Short h.chunks

section fitting
variable {s t : Feed} {upper : String → String} {action : Action} {channels : Sets} {chunk : List String} {l : List Event} {c : ℕ}

theorem short_chunksOf (channels : Sets) : Short (chunksOf channels) := by
  intro chunk hchunk
  obtain ⟨i, -, rfl⟩ := List.mem_map.1 hchunk
  exact List.length_take_le _ _

theorem fits_frameOf (hchunk : chunk.length ≤ maxSymbolsPerFrame) {frame : Frame}
    (hframe : frameOf action channels chunk = some frame) : frame.Fits := by
  unfold frameOf at hframe
  dsimp only at hframe
  split at hframe
  · cases hframe
  · rename_i hsome
    cases hframe
    refine ⟨?_, ?_⟩
    · by_contra hnone
      refine hsome (List.all_eq_true.2 fun channel _ => List.isEmpty_iff.2 ?_)
      by_contra hne
      exact hnone ⟨channel, hne⟩
    · refine le_trans (List.Subperm.length_le ((List.nodup_dedup _).subperm fun x hx => ?_)) hchunk
      obtain ⟨channel, -, hmem⟩ := List.mem_flatMap.1 (List.mem_dedup.1 hx)
      exact of_decide_eq_true (List.mem_filter.1 (mem_sortedSet.1 hmem)).2

theorem Fitting.send (h : Fitting s) (hchunk : chunk.length ≤ maxSymbolsPerFrame) :
    ∀ e ∈ (s.send c (frameOf action channels chunk)).sent, e.2.Fits := by
  intro e he
  rcases List.mem_append.1 he with hold | hnew
  · exact h.sent e hold
  · obtain ⟨frame, hframe, rfl⟩ := List.mem_map.1 hnew
    exact fits_frameOf hchunk (Option.mem_toList.1 hframe)

theorem Fitting.begin (h : Fitting s) (wanted changed : Sets) : Fitting ({ s with wanted := wanted }.begin action changed) := by
  rcases begin_cases { s with wanted := wanted } action changed with ⟨heq, -⟩ | ⟨c, -, heq⟩
  · rw [heq]
    exact ⟨h.sent, h.calls, h.shaking⟩
  · rw [heq]
    refine ⟨h.sent, fun call hcall => ?_, h.shaking⟩
    rcases List.mem_append.1 hcall with hold | hnew
    · exact h.calls call hold
    · rw [List.mem_singleton.1 hnew]
      exact short_chunksOf changed

theorem Fitting.step (h : Fitting s) {e : Event} (he : s.step upper e = some t) : Fitting t := by
  cases e with
  | subscribe symbols channels =>
    cases he
    unfold Feed.subscribe
    split
    · exact h
    · exact h.begin _ _
  | unsubscribe symbols =>
    cases he
    exact h.begin _ _
  | authenticated =>
    obtain ⟨-, -, rfl⟩ := authenticated_inv he
    refine ⟨h.sent, h.calls, fun h' hh => ?_⟩
    cases hh
    exact short_chunksOf _
  | handshakeFrame =>
    obtain ⟨c, included, chunk, rest, hh, rfl⟩ := handshakeFrame_inv he
    have hshort := h.shaking _ hh
    refine ⟨h.send (hshort chunk List.mem_cons_self), h.calls, fun h' hnew => ?_⟩
    cases hnew
    exact fun k hk => hshort k (List.mem_cons_of_mem _ hk)
  | handshakeFailed =>
    obtain ⟨h', -, rfl⟩ := Option.map_eq_some_iff.1 he
    exact ⟨h.sent, h.calls, fun _ hnew => by cases hnew⟩
  | handshakeOver =>
    obtain ⟨c, included, -, rfl⟩ := handshakeOver_inv he
    exact ⟨h.sent, h.calls, fun _ hnew => by cases hnew⟩
  | callFrame i =>
    obtain ⟨c, action, channels, chunk, rest, hi, rfl⟩ := callFrame_inv he
    have hshort : Short (chunk :: rest) := h.calls _ (List.mem_of_getElem? hi)
    refine ⟨h.send (hshort chunk List.mem_cons_self), fun call hcall => ?_, h.shaking⟩
    rcases List.mem_or_eq_of_mem_set hcall with hold | rfl
    · exact h.calls call hold
    · exact fun k hk => hshort k (List.mem_cons_of_mem _ hk)
  | callFailed i =>
    obtain ⟨call, -, rfl⟩ := Option.map_eq_some_iff.1 he
    exact ⟨h.sent, fun k hk => h.calls k (List.mem_of_mem_eraseIdx hk), h.shaking⟩
  | dropped =>
    obtain ⟨c, -, rfl⟩ := Option.map_eq_some_iff.1 he
    exact ⟨h.sent, h.calls, h.shaking⟩

theorem fitting_run (h : Run (Feed.Step upper) Feed.start l s) : Fitting s := by
  refine run_invariant Fitting (fun _ _ _ hI hs => hI.step hs) ?_ h
  exact ⟨fun _ he => (List.not_mem_nil he).elim, fun _ hc => (List.not_mem_nil hc).elim, fun _ hh => (by cases hh)⟩

end fitting

/-! ## What was asked of a live connection -/

/-- What one call makes of whether the symbol is requested on the channel. -/
def heard (upper : String → String) (channel : Channel) (symbol : String) (b : Bool) : Event → Bool
  | .subscribe symbols channels => b || decide ((∀ x ∈ symbols, x = upper x) ∧ channel ∈ channels ∧ symbol ∈ symbols)
  | .unsubscribe symbols => b && decide (symbol ∉ symbols)
  | _ => b

/-- **Whether the last accepted call that named the symbol on the channel was a `subscribe`.** -/
def requested (upper : String → String) (channel : Channel) (symbol : String) (l : List Event) : Bool :=
  l.foldl (heard upper channel symbol) false

section runs
variable {s t : Feed} {channel : Channel} {symbol : String} {upper : String → String} {l m : List Event} {c : ℕ}

theorem wanted_begin (s : Feed) (action : Action) (changed : Sets) : (s.begin action changed).wanted = s.wanted := by
  rcases begin_cases s action changed with ⟨heq, -⟩ | ⟨c, -, heq⟩
  · rw [heq]
  · rw [heq]

/-- **What is wanted is what was requested**, a step at a time. -/
theorem wanted_step {e : Event} (he : s.step upper e = some t) :
    decide (symbol ∈ t.wanted channel) = heard upper channel symbol (decide (symbol ∈ s.wanted channel)) e := by
  cases e with
  | subscribe symbols channels =>
    cases he
    unfold Feed.subscribe
    split
    · rename_i hbad
      have hno : ¬ ∀ x ∈ symbols, x = upper x := by simpa using hbad
      have hnamed : ¬ ((∀ x ∈ symbols, x = upper x) ∧ channel ∈ channels ∧ symbol ∈ symbols) := fun h => hno h.1
      simp only [heard, hnamed, decide_false, Bool.or_false]
    · rename_i hupper
      have hall : ∀ x ∈ symbols, x = upper x := by simpa using hupper
      have hnamed : ((∀ x ∈ symbols, x = upper x) ∧ channel ∈ channels ∧ symbol ∈ symbols) ↔
          channel ∈ channels ∧ symbol ∈ symbols := and_iff_right hall
      simp only [wanted_begin, heard, hnamed]
      by_cases hin : channel ∈ channels
      · simp [Feed.added, hin, or_and_left, em]
      · simp [Feed.added, hin]
  | unsubscribe symbols =>
    cases he
    unfold Feed.unsubscribe heard
    rw [wanted_begin]
    simp
  | authenticated =>
    obtain ⟨-, -, rfl⟩ := authenticated_inv he
    rfl
  | handshakeFrame =>
    obtain ⟨c, included, chunk, rest, -, rfl⟩ := handshakeFrame_inv he
    rfl
  | handshakeFailed =>
    obtain ⟨h, -, rfl⟩ := Option.map_eq_some_iff.1 he
    rfl
  | handshakeOver =>
    obtain ⟨c, included, -, rfl⟩ := handshakeOver_inv he
    rfl
  | callFrame i =>
    obtain ⟨c, action, channels, chunk, rest, -, rfl⟩ := callFrame_inv he
    rfl
  | callFailed i =>
    obtain ⟨call, -, rfl⟩ := Option.map_eq_some_iff.1 he
    rfl
  | dropped =>
    obtain ⟨c, -, rfl⟩ := Option.map_eq_some_iff.1 he
    rfl

theorem wanted_run (h : Run (Feed.Step upper) s l t) :
    decide (symbol ∈ t.wanted channel) = l.foldl (heard upper channel symbol) (decide (symbol ∈ s.wanted channel)) := by
  induction h with
  | nil s => rfl
  | cons hs _ ih => rw [ih, List.foldl_cons, ← wanted_step hs]

theorem placed_run (h : Run (Feed.Step upper) Feed.start l s) : Placed s :=
  run_invariant Placed (fun _ _ _ p hs => p.step hs) placed_start h

/-- **On a live connection the frames add up to the calls**: in a run that does not disturb the symbol, once nothing about it is
on its way, the connection was asked for it exactly when the last call that named it was a `subscribe`.  In every run, disturbed or
not, the frames all fit. -/
theorem asked_is_requested (upper : String → String) (channel : Channel) (symbol : String) :
    (∀ l s, Run (Feed.Step upper) Feed.start l s → ∀ e ∈ s.sent, e.2.Fits) ∧
      ∀ l s c, Run (guarded (Feed.Step upper) (Undisturbed upper channel symbol)) Feed.start l s → s.connection = some c →
        ¬ Pending s channel symbol → asked s.sent c channel symbol = requested upper channel symbol l := by
  refine ⟨fun l s h => (fitting_run h).sent, fun l s c h hc hidle => ?_⟩
  have hkept : Placed s ∧ Kept channel symbol s := by
    refine run_guarded (Undisturbed upper channel symbol) (fun s => Placed s ∧ Kept channel symbol s) ?_
      ⟨placed_start, kept_start⟩ h
    intro s e t hI hquiet hs
    exact ⟨hI.1.step hs, hI.2.step hI.1 hquiet hs⟩
  have hrun : Run (Feed.Step upper) Feed.start l s := run_mono (fun _ _ _ hs => hs.1) h
  have hwanted : decide (symbol ∈ s.wanted channel) = requested upper channel symbol l := wanted_run hrun
  rw [← hwanted, Bool.eq_iff_iff, decide_eq_true_eq]
  exact hkept.2.told c hc hidle

/-- The undisturbed runs are the folds of the steps that check. -/
theorem run_of_fold (h : l.foldlM (fun s e => if Undisturbed upper channel symbol s e then s.step upper e else none) s = some t) :
    Run (guarded (Feed.Step upper) (Undisturbed upper channel symbol)) s l t := by
  refine run_mono (fun s e t hs => ?_) (run_fold_iff.2 h)
  split at hs
  · rename_i hquiet
    exact ⟨hs, hquiet⟩
  · cases hs

/-- A symbol that is asked for by the handshake, and then given up. -/
def givenUp : List Event :=
  [.subscribe ["SPY"] [.bars], .authenticated, .handshakeFrame, .handshakeOver, .unsubscribe ["SPY"], .callFrame 0]

theorem asked_is_requested_spy : ∃ s, Run (Feed.Step String.toUpper) Feed.start givenUp s ∧ s.connection = some 0 ∧
    s.sent.length = 2 ∧ asked s.sent 0 .bars "SPY" = requested String.toUpper .bars "SPY" givenUp ∧ ∀ e ∈ s.sent, e.2.Fits := by
  have hok : (givenUp.foldlM (fun s e => if Undisturbed String.toUpper .bars "SPY" s e then s.step String.toUpper e else none)
      Feed.start).map (fun s => (s.connection, s.sent.length, decide (Pending s .bars "SPY"))) = some (some 0, 2, false) := by
    decide +kernel
  obtain ⟨s, hs, heq⟩ := Option.map_eq_some_iff.1 hok
  simp only [Prod.mk.injEq, decide_eq_false_iff_not] at heq
  have hrun : Run (Feed.Step String.toUpper) Feed.start givenUp s := run_mono (fun _ _ _ h => h.1) (run_of_fold hs)
  obtain ⟨hfits, hasked⟩ := asked_is_requested String.toUpper .bars "SPY"
  exact ⟨s, hrun, heq.1, heq.2.1, hasked _ s 0 (run_of_fold hs) heq.1 heq.2.2, hfits _ s hrun⟩

end runs

/-! ## What a handshake misses -/

/-- **A symbol that is wanted and that one connection is never asked for**: nothing on its way over the connection mentions it. -/
structure Missed (channel : Channel) (symbol : String) (c : ℕ) (s : Feed) : Prop where
  opened : c < s.opened
  wanted : symbol ∈ s.wanted channel
  unasked : asked s.sent c channel symbol = false
  calls : ∀ call ∈ s.calls, call.connection = c → ¬ call.Mentions channel symbol
  shaking : ∀ h, s.handshake = some h → h.connection = c → ¬ h.Mentions channel symbol

section missed
variable {s t : Feed} {channel : Channel} {symbol : String} {upper : String → String} {l m : List Event} {c : ℕ}

/-- A call that changes something else. -/
theorem Missed.begin (h : Missed channel symbol c s) {wanted changed : Sets} {action : Action} (hw : symbol ∈ wanted channel)
    (hch : symbol ∉ changed channel) : Missed channel symbol c ({ s with wanted := wanted }.begin action changed) := by
  rcases begin_cases { s with wanted := wanted } action changed with ⟨heq, -⟩ | ⟨c', -, heq⟩
  · rw [heq]
    exact ⟨h.opened, hw, h.unasked, h.calls, h.shaking⟩
  · rw [heq]
    refine ⟨h.opened, hw, h.unasked, fun call hcall hon hm => ?_, h.shaking⟩
    rcases List.mem_append.1 hcall with hold | hnew
    · exact h.calls call hold hon hm
    · rw [List.mem_singleton.1 hnew] at hm
      exact hch hm.1

/-- **Every step keeps it**, as long as no `unsubscribe` names the symbol. -/
theorem Missed.step (h : Missed channel symbol c s) {e : Event} (hkeep : ∀ symbols, e = .unsubscribe symbols → symbol ∉ symbols)
    (he : s.step upper e = some t) : Missed channel symbol c t := by
  cases e with
  | subscribe symbols channels =>
    cases he
    unfold Feed.subscribe
    split
    · exact h
    · -- what is wanted already is not added, so the call says nothing of it
      refine h.begin (List.mem_append_left _ h.wanted) ?_
      unfold Feed.added
      split
      · exact fun hin => of_decide_eq_true (List.mem_filter.1 hin).2 h.wanted
      · exact List.not_mem_nil
  | unsubscribe symbols =>
    cases he
    have hnot := hkeep symbols rfl
    refine h.begin (List.mem_filter.2 ⟨h.wanted, decide_eq_true hnot⟩) fun hin => ?_
    exact hnot (of_decide_eq_true (List.mem_filter.1 hin).2)
  | authenticated =>
    obtain ⟨-, -, rfl⟩ := authenticated_inv he
    refine ⟨Nat.lt_succ_of_lt h.opened, h.wanted, h.unasked, h.calls, fun h' hh hon => ?_⟩
    cases hh
    exact (h.opened.ne hon.symm).elim
  | handshakeFrame =>
    obtain ⟨c', included, chunk, rest, hh, rfl⟩ := handshakeFrame_inv he
    refine ⟨h.opened, h.wanted, ?_, h.calls, fun h' hnew hon hm => ?_⟩
    · rw [asked_send, if_neg, h.unasked]
      rintro ⟨hon, hin, hchunk⟩
      exact h.shaking _ hh hon (Handshake.mentions_cons.2 ⟨(mem_restored.1 hin).1, .inl hchunk⟩)
    · cases hnew
      exact h.shaking _ hh hon (Handshake.mentions_cons.2 ⟨hm.1, .inr hm.2⟩)
  | handshakeFailed =>
    obtain ⟨h', -, rfl⟩ := Option.map_eq_some_iff.1 he
    exact ⟨h.opened, h.wanted, h.unasked, h.calls, fun _ hnew => by cases hnew⟩
  | handshakeOver =>
    obtain ⟨c', included, -, rfl⟩ := handshakeOver_inv he
    exact ⟨h.opened, h.wanted, h.unasked, h.calls, fun _ hnew => by cases hnew⟩
  | callFrame i =>
    obtain ⟨c', action, channels, chunk, rest, hi, rfl⟩ := callFrame_inv he
    have hcall : (⟨c', action, channels, chunk :: rest⟩ : Sending) ∈ s.calls := List.mem_of_getElem? hi
    have hquiet : c' = c → ¬ (⟨c', action, channels, chunk :: rest⟩ : Sending).Mentions channel symbol := h.calls _ hcall
    refine ⟨h.opened, h.wanted, ?_, fun call hc hon hm => ?_, h.shaking⟩
    · rw [asked_send, if_neg, h.unasked]
      rintro ⟨hon, hin, hchunk⟩
      exact hquiet hon (Sending.mentions_cons.2 ⟨hin, .inl hchunk⟩)
    · rcases List.mem_or_eq_of_mem_set hc with hold | rfl
      · exact h.calls call hold hon hm
      · exact hquiet hon (Sending.mentions_cons.2 ⟨hm.1, .inr hm.2⟩)
  | callFailed i =>
    obtain ⟨call, -, rfl⟩ := Option.map_eq_some_iff.1 he
    exact ⟨h.opened, h.wanted, h.unasked, fun k hk => h.calls k (List.mem_of_mem_eraseIdx hk), h.shaking⟩
  | dropped =>
    obtain ⟨c', -, rfl⟩ := Option.map_eq_some_iff.1 he
    exact ⟨h.opened, h.wanted, h.unasked, h.calls, h.shaking⟩

theorem missed_run (hrun : Run (Feed.Step upper) s m t) (hkeep : ∀ e ∈ m, ∀ gone, e = .unsubscribe gone → symbol ∉ gone)
    (h : Missed channel symbol c s) : Missed channel symbol c t := by
  induction hrun with
  | nil s => exact h
  | cons hs _ ih =>
    exact ih (fun e he => hkeep e (List.mem_cons_of_mem _ he)) (h.step (hkeep _ List.mem_cons_self) hs)

/-- **A `subscribe` during a handshake that is not going to carry the symbol is lost to that connection**, however often it is
repeated: only an `unsubscribe` in between makes a later one send anything. -/
theorem subscribe_missed (hs : Run (Feed.Step upper) Feed.start l s) {h : Handshake} (hh : s.handshake = some h)
    (hnot : ¬ h.Mentions channel symbol) (hunasked : asked s.sent h.connection channel symbol = false) {symbols : List String}
    {channels : List Channel} (hupper : ∀ x ∈ symbols, x = upper x) (hch : channel ∈ channels) (hsym : symbol ∈ symbols)
    (hkeep : ∀ e ∈ m, ∀ gone, e = .unsubscribe gone → symbol ∉ gone)
    (hrun : Run (Feed.Step upper) s (.subscribe symbols channels :: m) t) :
    symbol ∈ t.wanted channel ∧ asked t.sent h.connection channel symbol = false := by
  have hplaced := placed_run hs
  obtain ⟨u, hfirst, hrest⟩ := run_cons_iff.1 hrun
  have hdown := hplaced.down hh
  have hmissed : Missed channel symbol h.connection u := by
    have hu : u = { s with wanted := fun channel => s.wanted channel ++ s.added symbols channels channel } := by
      have hnone : ¬ symbols.any (fun symbol => symbol ≠ upper symbol) := by simpa using hupper
      have hsub : s.subscribe upper symbols channels = u := Option.some.inj hfirst
      rw [← hsub, Feed.subscribe, if_neg hnone]
      exact begin_down hdown
    have hw : decide (symbol ∈ u.wanted channel) = true := by
      rw [wanted_step hfirst, heard, Bool.or_eq_true, decide_eq_true_eq, decide_eq_true_eq]
      exact .inr ⟨hupper, hch, hsym⟩
    rw [hu]
    refine ⟨(hplaced.shaking h hh).1, ?_, hunasked, fun call hcall hon => ?_, fun h' hh' _ => ?_⟩
    · rw [hu] at hw
      exact of_decide_eq_true hw
    · exact (((hplaced.shaking h hh).2 call hcall).ne hon).elim
    · rw [show s.handshake = some h' from hh'] at hh
      exact Option.some.inj hh ▸ hnot
  have hend := missed_run hrest hkeep hmissed
  exact ⟨hend.wanted, hend.unasked⟩

/-- `SPY` is subscribed to twice, during a handshake that began without it and on the connection it ends in. -/
theorem subscribe_missed_spy : ∃ s t, Run (Feed.Step String.toUpper) Feed.start [.authenticated] s ∧
    Run (Feed.Step String.toUpper) s [.subscribe ["SPY"] [.bars], .handshakeOver, .subscribe ["SPY"] [.bars]] t ∧
      t.connection = some 0 ∧ "SPY" ∈ t.wanted .bars ∧ asked t.sent 0 .bars "SPY" = false := by
  have hfirst : (List.foldlM (fun s e => Feed.step s String.toUpper e) Feed.start [.authenticated]).map
      (fun s => (s.handshake.map fun h => (h.connection, h.chunks), s.sent.length)) = some (some (0, []), 0) := by decide +kernel
  have hsecond : (List.foldlM (fun s e => Feed.step s String.toUpper e) Feed.start
      [.authenticated, .subscribe ["SPY"] [.bars], .handshakeOver, .subscribe ["SPY"] [.bars]]).map (·.connection) =
        some (some 0) := by decide +kernel
  obtain ⟨t, ht, hlive⟩ := Option.map_eq_some_iff.1 hsecond
  have hrun : Run (Feed.Step String.toUpper) Feed.start ([.authenticated] ++
      [.subscribe ["SPY"] [.bars], .handshakeOver, .subscribe ["SPY"] [.bars]]) t := run_fold_iff.2 ht
  obtain ⟨s, hs, hrest⟩ := run_append_iff.1 hrun
  rw [run_fold_iff.1 hs, Option.map_some, Option.some_inj, Prod.mk.injEq] at hfirst
  obtain ⟨h, hh, heq⟩ := Option.map_eq_some_iff.1 hfirst.1
  simp only [Prod.mk.injEq] at heq
  have hkeep : ∀ e ∈ [Event.handshakeOver, .subscribe ["SPY"] [.bars]], ∀ gone, e = .unsubscribe gone → "SPY" ∉ gone := by
    simp
  have hunasked : asked s.sent h.connection .bars "SPY" = false := by
    rw [List.length_eq_zero_iff.1 hfirst.2]
    rfl
  have hmissed := subscribe_missed hs hh (fun hm => by simp [Handshake.Mentions, heq.2] at hm) hunasked (by decide +kernel)
    (List.mem_singleton_self _) (List.mem_singleton_self _) hkeep hrest
  exact ⟨s, t, hs, hrest, hlive, hmissed.1, heq.1 ▸ hmissed.2⟩

end missed

end FeedSubscriptions
end Atp
