import AlgoTrading.BarFeed
/-!
# BarPacing — which stored bars a strategy is asked about

Runs of a runner and its bar store after `warmup`: rows land, passes are made.  What each pass appends is its symbols'
next bars (`pass_spec`), so a strategy is asked about every bar exactly once in the runs whose passes meet at most one
unseen bar a symbol, the newest (`asked_once`).
-/
namespace Atp

open Raising Runs

namespace BarReader

variable (w : BarReader)

/-! ## Runs -/

/-- A feed with two notes beside it: which bars of the watched series arrived since `warmup`, by symbol and instant,
and which of them were there at the last pass. -/
structure Watch where
  feed : Feed
  arrived : List (String × ℤ) := []
  due : List (String × ℤ) := []

inductive FeedEvent
  | stored (bar : Bar)
  | pass (p : FeedPass)

/-- A row of a watched series whose instant the table does not have. -/
def arrives (table : BarTable) (bar : Bar) : Bool :=
  bar.timeframe = w.timeframe && bar.symbol ∈ w.symbols && bar.ts ∉ (table.rows bar.symbol w.timeframe).map Bar.ts

def Watch.next (t : Watch) : FeedEvent → Watch
  | .stored bar =>
    { t with
      feed := { t.feed with store := t.feed.store.upsert bar }
      arrived := if w.arrives t.feed.store bar then t.arrived ++ [(bar.symbol, bar.ts)] else t.arrived }
  | .pass p => { t with feed := (exec (w.evaluate p) t.feed).2, due := t.arrived }

def Watch.step (t : Watch) (event : FeedEvent) (t' : Watch) : Prop := t' = t.next w event

/-- Where a runner starts: warmed up, and nothing has arrived since. -/
def Watch.start (table : BarTable) (floor : Option ℤ) : Watch := { feed := w.warmup table floor }

/-- **Every bar once**: a bar that arrived before the last pass, of a session the runner may decide on, was appended once
and asked about once, and every series is appended to and asked about in the order of its instants. -/
structure AskedOnce (t : Watch) : Prop where
  appended : ∀ k ∈ t.due, w.decides k.2 = true → (t.feed.held k.1).countP (fun x => x.ts = k.2) = 1
  asked : ∀ k ∈ t.due, w.decides k.2 = true → t.feed.shown.countP (fun x => x.symbol = k.1 ∧ x.ts = k.2) = 1
  heldInOrder : ∀ symbol, (t.feed.held symbol).Pairwise fun a b => a.ts < b.ts
  askedInOrder : ∀ symbol, (t.feed.shown.filter (·.symbol = symbol)).Pairwise fun a b => a.ts < b.ts

/-- A bar that arrived and is not held. -/
def Watch.Unseen (t : Watch) (k : String × ℤ) : Prop :=
  k ∈ t.arrived ∧ w.decides k.2 = true ∧ k.2 ∉ (t.feed.held k.1).map Bar.ts

/-- **A pass that gets as far as asking about a symbol**: no read raises and no step before, nor does the strategy on the
next bar of a symbol before it in the watchlist. -/
structure Through (p : FeedPass) (f : Feed) (symbol : String) : Prop where
  reads : ∀ s ∈ w.symbols, p.reads s = none
  before : p.before = none
  onBar : ∀ pre post, w.symbols = pre ++ symbol :: post → ∀ x : Bar, x.symbol ∈ pre → w.Next f x.symbol x.ts →
    ∃ signals, p.onBar x = .ok signals

/-- **A pass that is in time**: whatever it has not seen is its symbol's next bar, and the pass gets to it. -/
def InTime (t : Watch) (event : FeedEvent) : Prop :=
  ∀ p, event = .pass p → ∀ k, t.Unseen w k → w.Next t.feed k.1 k.2 ∧ w.Through p t.feed k.1

/-! ## One pass -/

section
variable {w} {f f' : Feed} {closed : List Bar}

theorem filter_symbol : ∀ {closed : List Bar}, (closed.map Bar.symbol).Nodup → ∀ symbol,
    closed.filter (·.symbol = symbol) = [] ∨ ∃ x ∈ closed, x.symbol = symbol ∧ closed.filter (·.symbol = symbol) = [x]
  | [], _, _ => .inl rfl
  | b :: rest, h, symbol => by
    obtain ⟨hb, hrest⟩ := List.nodup_cons.1 h
    by_cases heq : b.symbol = symbol
    · right
      refine ⟨b, List.mem_cons_self, heq, ?_⟩
      rw [List.filter_cons_of_pos (by simpa using heq), List.filter_eq_nil_iff.2]
      intro y hy hys
      have hys : y.symbol = symbol := by simpa using hys
      exact hb (List.mem_map.2 ⟨y, hy, hys.trans heq.symm⟩)
    · rw [List.filter_cons_of_neg (by simpa using heq)]
      obtain hnil | ⟨x, hx, hxs, hone⟩ := filter_symbol hrest symbol
      · exact .inl hnil
      · exact .inr ⟨x, List.mem_cons_of_mem _ hx, hxs, hone⟩

/-- A series is left as it was, or has its next bar at the end. -/
theorem Appended.cases (h : Appended w f f' closed) (symbol : String) :
    f'.held symbol = f.held symbol ∨ ∃ x ∈ closed, x.symbol = symbol ∧ f'.held symbol = f.held symbol ++ [x] := by
  rw [h.held symbol]
  obtain hnil | ⟨x, hx, hxs, hone⟩ := filter_symbol h.distinct symbol
  · exact .inl (by rw [hnil, List.append_nil])
  · exact .inr ⟨x, hx, hxs, by rw [hone]⟩

theorem Appended.mem_held (h : Appended w f f' closed) {x : Bar} {symbol : String} :
    x ∈ f'.held symbol ↔ x ∈ f.held symbol ∨ x ∈ closed ∧ x.symbol = symbol := by
  rw [h.held symbol, List.mem_append, List.mem_filter]
  simp

/-- **What a pass does to the bars**, whatever raises: those it took up it appended, and it asked about the first of them. -/
structure Passed (w : BarReader) (p : FeedPass) (f f' : Feed) (asked unasked : List Bar) : Prop
    extends Appended w f f' (asked ++ unasked) where
  shown : f'.shown = f.shown ++ asked
  order : ((asked ++ unasked).map Bar.symbol).Sublist w.symbols
  complete : (∀ s ∈ w.symbols, p.reads s = none) → p.before = none →
    (∀ s ∈ w.symbols, ∀ x, w.newBar f s = some x → x ∈ asked ++ unasked) ∧
      (unasked = [] ∨ ∃ pre x e, asked = pre ++ [x] ∧ p.onBar x = .error e)

/-- A pass that raises before the strategy is asked. -/
theorem passed_stopped {p : FeedPass} {out : Except Exc (List Bar)} (h : Refreshed w p w.symbols f (out, f') closed)
    (hno : (∀ s ∈ w.symbols, p.reads s = none) → p.before = none → False) : Passed w p f f' [] closed where
  toAppended := h.toAppended
  shown := by rw [h.shown, List.append_nil]
  order := h.order
  complete hreads hbefore := (hno hreads hbefore).elim

theorem pass_spec (w : BarReader) (p : FeedPass) (f : Feed) :
    ∃ asked unasked, Passed w p f (exec (w.evaluate p) f).2 asked unasked := by
  obtain ⟨closed, h⟩ := @refreshFrom_spec w p w.symbols f
  rw [evaluate, exec_bind]
  generalize exec (w.refreshFrom p w.symbols) f = out at h ⊢
  obtain ⟨_ | r, g⟩ := out
  · exact ⟨[], closed, passed_stopped h fun hreads _ => by cases (h.complete hreads).1⟩
  · obtain rfl : r = closed := h.returned r rfl
    dsimp only
    cases hb : p.before with
    | some exc => exact ⟨[], r, passed_stopped h fun _ hnone => by rw [hb] at hnone; cases hnone⟩
    | none =>
      dsimp only
      obtain ⟨asked, unasked, rfl, hshown, hstore, hbars, hall⟩ := @pollStrategy_spec w p r g
      have hheld (s : String) : (exec (w.pollStrategy p (asked ++ unasked)) g).2.held s = g.held s := by
        rw [Feed.held, Feed.held, hbars]
      exact ⟨asked, unasked,
        { store := hstore.trans h.store
          held := fun s => (hheld s).trans (h.held s)
          taken := h.taken
          distinct := h.distinct
          shown := by rw [hshown, h.shown]
          order := h.order
          complete := fun hreads _ => ⟨(h.complete hreads).2, hall⟩ }⟩

/-- Of two bars taken up, the one asked about later is of a later symbol. -/
theorem before_of_sublist {l m symbols : List String} (h : (l ++ m).Sublist symbols) {a b : String} (ha : a ∈ l) (hb : b ∈ m) :
    ∃ pre post, symbols = pre ++ b :: post ∧ a ∈ pre := by
  obtain ⟨r, s, rfl, hr, hs⟩ := List.append_sublist_iff.1 h
  obtain ⟨u, v, rfl⟩ := List.append_of_mem (hs.subset hb)
  exact ⟨r ++ u, v, by rw [List.append_assoc], List.mem_append_left _ (hr.subset ha)⟩

/-- **A pass that gets through asks about what it took up.** -/
theorem Passed.asks {p : FeedPass} {asked unasked : List Bar} (h : Passed w p f f' asked unasked)
    (hheld : ∀ s, (f.held s).Pairwise fun a b => a.ts < b.ts) {x : Bar} (hx : w.newBar f x.symbol = some x)
    (hsymbol : x.symbol ∈ w.symbols) (hthrough : w.Through p f x.symbol) : x ∈ asked := by
  obtain ⟨hall, hrest⟩ := h.complete hthrough.reads hthrough.before
  obtain hmem | hmem := List.mem_append.1 (hall _ hsymbol x hx)
  · exact hmem
  · obtain rfl | ⟨pre, y, e, rfl, hy⟩ := hrest
    · cases hmem
    · -- the strategy raised on a bar before it
      have horder := h.order
      rw [List.map_append] at horder
      have hyasked : y ∈ pre ++ [y] := by simp
      obtain ⟨l, m, hsplit, hyl⟩ := before_of_sublist horder (List.mem_map_of_mem hyasked) (List.mem_map_of_mem hmem)
      have hynext := ((newBar_iff (hheld _)).1 (h.taken y (List.mem_append_left _ hyasked))).2
      obtain ⟨signals, hok⟩ := hthrough.onBar l m hsplit y hyl hynext
      rw [hy] at hok
      cases hok

end

/-! ## Whole runs -/

/-- **What holds between the events of a run in time**: every bar held is a row, every bar that arrived and is held was
asked about, and everything due is held. -/
structure Kept (w : BarReader) (t : Watch) : Prop where
  sorted : ∀ s, (t.feed.held s).Pairwise fun a b => a.ts < b.ts
  rows : ∀ s, ∀ h ∈ t.feed.held s, h.ts ∈ (t.feed.store.rows s w.timeframe).map Bar.ts
  shownHeld : ∀ x ∈ t.feed.shown, x ∈ t.feed.held x.symbol
  shownSorted : ∀ s, (t.feed.shown.filter (·.symbol = s)).Pairwise fun a b => a.ts < b.ts
  watched : ∀ k ∈ t.arrived, k.1 ∈ w.symbols
  seen : ∀ k ∈ t.arrived, w.decides k.2 = true → k.2 ∈ (t.feed.held k.1).map Bar.ts →
    ∃ x ∈ t.feed.shown, x.symbol = k.1 ∧ x.ts = k.2
  due : ∀ k ∈ t.due, k ∈ t.arrived ∧ (w.decides k.2 = true → k.2 ∈ (t.feed.held k.1).map Bar.ts)

section
variable {w : BarReader} {t : Watch}

theorem loaded_sublist (table : BarTable) (floor : Option ℤ) (symbol : String) :
    (w.loaded table floor symbol).Sublist (table.rows symbol w.timeframe) := by
  have hlast (n : ℕ) : (table.lastBars symbol w.timeframe n floor).Sublist (table.rows symbol w.timeframe) :=
    (List.drop_sublist _ _).trans List.filter_sublist
  unfold loaded
  split
  · exact hlast _
  · dsimp only
    split
    · exact (List.dropLast_sublist _).trans (List.filter_sublist.trans (hlast _))
    · exact List.filter_sublist.trans (hlast _)

theorem start_kept (table : BarTable) (floor : Option ℤ) : Kept w (Watch.start w table floor) := by
  have hheld (s : String) : ((Watch.start w table floor).feed.held s).Sublist (table.rows s w.timeframe) := by
    have hget := Dict.get?_foldl_set (fun symbol => symbol) (w.loaded table floor) s w.symbols .empty
    rw [Watch.start, Feed.held, warmup, hget, Dict.get?_empty, Option.or_none]
    cases hlast : (w.symbols.filter fun symbol => symbol = s).getLast? with
    | none => exact List.nil_sublist _
    | some symbol =>
      obtain rfl : symbol = s := by simpa using (List.mem_filter.1 (List.mem_of_getLast? hlast)).2
      exact loaded_sublist table floor symbol
  constructor
  · exact fun s => (table.sorted s w.timeframe).sublist (hheld s)
  · exact fun s h hh => List.mem_map_of_mem ((hheld s).subset hh)
  · intro x hx
    cases hx
  · exact fun s => .nil
  · intro k hk
    cases hk
  · intro k hk
    cases hk
  · intro k hk
    cases hk

theorem stored_kept (bar : Bar) (h : Kept w t) : Kept w (t.next w (.stored bar)) := by
  have hrows (s : String) {u : ℤ} (hu : u ∈ (t.feed.store.rows s w.timeframe).map Bar.ts) :
      u ∈ ((t.feed.store.upsert bar).rows s w.timeframe).map Bar.ts := by
    simp only [BarTable.upsert]
    split
    · exact place_ts.2 (.inr hu)
    · exact hu
  have harrived {k : String × ℤ} (hk : k ∈ (t.next w (.stored bar)).arrived) :
      k ∈ t.arrived ∨ w.arrives t.feed.store bar = true ∧ k = (bar.symbol, bar.ts) := by
    simp only [Watch.next] at hk
    split at hk
    · rename_i hnew
      obtain hk | hk := List.mem_append.1 hk
      · exact .inl hk
      · exact .inr ⟨hnew, List.mem_singleton.1 hk⟩
    · exact .inl hk
  constructor
  · exact h.sorted
  · exact fun s b hb => hrows s (h.rows s b hb)
  · exact h.shownHeld
  · exact h.shownSorted
  · intro k hk
    obtain hk | ⟨hnew, rfl⟩ := harrived hk
    · exact h.watched k hk
    · simp only [arrives, Bool.and_eq_true, decide_eq_true_eq] at hnew
      exact hnew.1.2
  · intro k hk hdec hheld
    obtain hk | ⟨hnew, rfl⟩ := harrived hk
    · exact h.seen k hk hdec hheld
    · -- a new instant is not held: what is held is in the table
      obtain ⟨b, hb, hts⟩ := List.mem_map.1 hheld
      simp only [arrives, Bool.and_eq_true, decide_eq_true_eq] at hnew
      have hts : b.ts = bar.ts := hts
      exact absurd (hts ▸ h.rows _ b hb) hnew.2
  · intro k hk
    obtain ⟨hin, hheld⟩ := h.due k hk
    refine ⟨?_, hheld⟩
    simp only [Watch.next]
    split
    · exact List.mem_append_left _ hin
    · exact hin

theorem pass_kept {p : FeedPass} (h : Kept w t) (hin : w.InTime t (.pass p)) : Kept w (t.next w (.pass p)) := by
  obtain ⟨asked, unasked, hpass⟩ := pass_spec w p t.feed
  have hnext : t.next w (.pass p) = { t with feed := (exec (w.evaluate p) t.feed).2, due := t.arrived } := rfl
  generalize (exec (w.evaluate p) t.feed).2 = f' at hpass hnext
  rw [hnext]
  have hdistinct := hpass.distinct
  -- what the pass appends to a series is past what is held of it
  have hlater {x : Bar} (hx : x ∈ asked ++ unasked) {b : Bar} (hb : b ∈ t.feed.held x.symbol) : b.ts < x.ts :=
    ((newBar_iff (h.sorted _)).1 (hpass.taken x hx)).2.later b hb
  have hkept {s : String} {b : Bar} (hb : b ∈ t.feed.held s) : b ∈ f'.held s := hpass.mem_held.2 (.inl hb)
  have hasked {k : String × ℤ} (hk : t.Unseen w k) : ∃ x ∈ asked, x.symbol = k.1 ∧ x.ts = k.2 := by
    obtain ⟨hnext, hthrough⟩ := hin p rfl k hk
    obtain ⟨x, hx, hts⟩ := hnext.stored
    have hsymbol := t.feed.store.named _ _ x hx
    rw [← hsymbol] at hthrough
    have hbar : w.newBar t.feed x.symbol = some x := (newBar_iff (h.sorted _)).2 ⟨hsymbol ▸ hx, by rw [hsymbol, hts]; exact hnext⟩
    exact ⟨x, hpass.asks h.sorted hbar (hsymbol ▸ h.watched k hk.1) hthrough, hsymbol, hts⟩
  constructor
  · intro s
    obtain heq | ⟨x, hx, rfl, heq⟩ := hpass.toAppended.cases s
    · rw [heq]
      exact h.sorted s
    · rw [heq, List.pairwise_append]
      refine ⟨h.sorted _, List.pairwise_singleton _ _, fun b hb y hy => ?_⟩
      rw [List.mem_singleton.1 hy]
      exact hlater hx hb
  · intro s b hb
    rw [hpass.store]
    obtain hheld | ⟨htaken, rfl⟩ := hpass.mem_held.1 hb
    · exact h.rows s b hheld
    · exact List.mem_map_of_mem ((newBar_iff (h.sorted _)).1 (hpass.taken b htaken)).1
  · intro x hx
    rw [hpass.shown] at hx
    obtain hx | hx := List.mem_append.1 hx
    · exact hkept (h.shownHeld x hx)
    · exact hpass.mem_held.2 (.inr ⟨List.mem_append_left _ hx, rfl⟩)
  · intro s
    rw [hpass.shown, List.filter_append, List.pairwise_append]
    refine ⟨h.shownSorted s, ?_, ?_⟩
    · rw [List.map_append] at hdistinct
      obtain hnil | ⟨x, -, -, hone⟩ := filter_symbol (List.nodup_append.1 hdistinct).1 s
      · rw [hnil]
        exact .nil
      · rw [hone]
        exact List.pairwise_singleton _ _
    · intro b hb x hx
      obtain ⟨hb, hbs⟩ := List.mem_filter.1 hb
      obtain ⟨hx, hxs⟩ := List.mem_filter.1 hx
      have hbs : b.symbol = s := by simpa using hbs
      have hxs : x.symbol = s := by simpa using hxs
      exact hlater (List.mem_append_left _ hx) (by rw [hxs, ← hbs]; exact h.shownHeld b hb)
  · exact h.watched
  · intro k hk hdec hheld
    by_cases hbefore : k.2 ∈ (t.feed.held k.1).map Bar.ts
    · obtain ⟨x, hx, hkey⟩ := h.seen k hk hdec hbefore
      exact ⟨x, by rw [hpass.shown]; exact List.mem_append_left _ hx, hkey⟩
    · obtain ⟨x, hx, hkey⟩ := hasked ⟨hk, hdec, hbefore⟩
      exact ⟨x, by rw [hpass.shown]; exact List.mem_append_right _ hx, hkey⟩
  · intro k hk
    refine ⟨hk, fun hdec => ?_⟩
    by_cases hbefore : k.2 ∈ (t.feed.held k.1).map Bar.ts
    · obtain ⟨b, hb, hts⟩ := List.mem_map.1 hbefore
      exact List.mem_map.2 ⟨b, hkept hb, hts⟩
    · obtain ⟨x, hx, hsymbol, hts⟩ := hasked ⟨hk, hdec, hbefore⟩
      exact List.mem_map.2 ⟨x, hpass.mem_held.2 (.inr ⟨List.mem_append_left _ hx, hsymbol⟩), hts⟩

/-- An instant of a series in order is there once. -/
theorem countP_ts {u : ℤ} : ∀ {l : List Bar}, (l.Pairwise fun a b => a.ts < b.ts) → u ∈ l.map Bar.ts →
    l.countP (fun x => x.ts = u) = 1
  | [], _, h => by cases h
  | b :: rest, hsorted, h => by
    obtain ⟨hb, hrest⟩ := List.pairwise_cons.1 hsorted
    by_cases heq : b.ts = u
    · rw [List.countP_cons_of_pos (by simpa using heq), List.countP_eq_zero.2]
      intro x hx
      have := hb x hx
      simp only [decide_eq_true_eq]
      omega
    · rw [List.countP_cons_of_neg (by simpa using heq)]
      apply countP_ts hrest
      obtain h | h := List.mem_cons.1 h
      · exact absurd h.symm heq
      · exact h

theorem Kept.askedOnce (h : Kept w t) : AskedOnce w t where
  appended k hk hdec := countP_ts (h.sorted k.1) ((h.due k hk).2 hdec)
  asked k hk hdec := by
    obtain ⟨harrived, hheld⟩ := h.due k hk
    obtain ⟨x, hx, hsymbol, hts⟩ := h.seen k harrived hdec (hheld hdec)
    have hone := countP_ts (h.shownSorted k.1) (List.mem_map.2 ⟨x, List.mem_filter.2 ⟨hx, by simpa using hsymbol⟩, hts⟩)
    rw [List.countP_filter] at hone
    rw [← hone]
    congr 1
    funext y
    simp [and_comm]
  heldInOrder := h.sorted
  askedInOrder := h.shownSorted

/-- **In every run whose passes are in time, every bar is appended once and asked about once**, in the order of its
series. -/
theorem asked_once (w : BarReader) (table : BarTable) (floor : Option ℤ) {events : List FeedEvent}
    (h : Run (guarded (Watch.step w) (InTime w)) (Watch.start w table floor) events t) : AskedOnce w t := by
  apply Kept.askedOnce
  refine run_guarded (InTime w) (Kept w) ?_ (start_kept table floor) h
  rintro s (bar | p) _ hs hin rfl
  · exact stored_kept bar hs
  · exact pass_kept hs hin

end

/-! ## Two bars between two passes -/

/-- One symbol's minute bars, decided on as they close. -/
def minutes : BarReader := { symbols := ["SPY"], timeframe := .m1, warmAfter := 0, localDate := fun ts => ts / 86400 }

def minuteBar (i : ℤ) : Bar where
  symbol := "SPY"
  ts := 60 * i
  timeframe := .m1
  «open» := 1
  high := 1
  low := 1
  close := 1
  volume := 0
  openInside := flat_inside 1
  closeInside := flat_inside 1

/-- The runs of the watch are the folds of its events. -/
theorem run_foldl (w : BarReader) : ∀ (events : List FeedEvent) (t : Watch),
    Run (Watch.step w) t events (events.foldl (Watch.next w) t)
  | [], t => .nil t
  | event :: rest, t => .cons rfl (run_foldl w rest (t.next w event))

instance (w : BarReader) (f : Feed) (symbol : String) (ts : ℤ) : Decidable (w.Next f symbol ts) :=
  decidable_of_iff ((w.decides ts = true ∧ ∃ x ∈ f.store.rows symbol w.timeframe, x.ts = ts) ∧ (∀ h ∈ f.held symbol, h.ts < ts) ∧
      (∀ x ∈ f.store.rows symbol w.timeframe, w.decides x.ts = true → x.ts ≤ ts) ∧
      ((f.store.rows symbol w.timeframe).filter fun x => ts < x.ts).length < w.wanted)
    ⟨fun h => ⟨h.1.1, h.1.2, h.2.1, h.2.2.1, h.2.2.2⟩, fun h => ⟨⟨h.decided, h.stored⟩, h.later, h.newest, h.near⟩⟩

/-- A pass in which nothing raises is in time when what it has not seen is next. -/
theorem inTime_quiet {w : BarReader} {t : Watch}
    (h : ∀ k ∈ t.arrived, k.2 ∉ (t.feed.held k.1).map Bar.ts → w.Next t.feed k.1 k.2) : w.InTime t (.pass {}) := by
  rintro p hp k ⟨hk, -, hheld⟩
  cases hp
  exact ⟨h k hk hheld, fun _ _ => rfl, rfl, fun _ _ _ _ _ _ => ⟨[], rfl⟩⟩

theorem inTime_stored (w : BarReader) (t : Watch) (bar : Bar) : w.InTime t (.stored bar) := fun _ hp => by cases hp

/-- A pass after each bar. -/
def paced : List FeedEvent := [.stored (minuteBar 0), .pass {}, .stored (minuteBar 1), .pass {}]

theorem asked_once_paced : AskedOnce minutes (paced.foldl (Watch.next minutes) (Watch.start minutes .empty none)) ∧
    (paced.foldl (Watch.next minutes) (Watch.start minutes .empty none)).due = [("SPY", 0), ("SPY", 60)] := by
  have hrun : Run (guarded (Watch.step minutes) (InTime minutes)) (Watch.start minutes .empty none) paced
      (paced.foldl (Watch.next minutes) (Watch.start minutes .empty none)) := by
    apply Run.cons ⟨rfl, inTime_stored _ _ _⟩
    apply Run.cons ⟨rfl, inTime_quiet (by decide +kernel)⟩
    apply Run.cons ⟨rfl, inTime_stored _ _ _⟩
    exact Run.cons ⟨rfl, inTime_quiet (by decide +kernel)⟩ (Run.nil _)
  exact ⟨asked_once minutes .empty none hrun, by decide +kernel⟩

/-- Two bars close between two passes. -/
def crowded : List FeedEvent :=
  [.stored (minuteBar 0), .pass {}, .stored (minuteBar 1), .stored (minuteBar 2), .pass {}]

/-- A bar closes, and a step before the strategy raises on the pass that takes it up; the next pass is well. -/
def interrupted : List FeedEvent :=
  [.stored (minuteBar 0), .pass { before := some ⟨.brokerConnectionError, []⟩ }, .pass {}]

/-- The second bar of three is never appended, and a bar whose pass raised is never asked about. -/
theorem bars_missed : ∃ t u, Run (Watch.step minutes) (Watch.start minutes .empty none) crowded t ∧ ("SPY", 60) ∈ t.due ∧
    60 ∉ (t.feed.held "SPY").map Bar.ts ∧ ¬AskedOnce minutes t ∧
    Run (Watch.step minutes) (Watch.start minutes .empty none) interrupted u ∧ ("SPY", 0) ∈ u.due ∧ u.feed.shown = [] ∧
    ¬AskedOnce minutes u := by
  refine ⟨_, _, run_foldl minutes crowded _, by decide +kernel, by decide +kernel, fun h => ?_,
    run_foldl minutes interrupted _, by decide +kernel, by decide +kernel, fun h => ?_⟩
  · exact absurd (h.asked ("SPY", 60) (by decide +kernel) (by decide +kernel)) (by decide +kernel)
  · exact absurd (h.asked ("SPY", 0) (by decide +kernel) (by decide +kernel)) (by decide +kernel)

end BarReader

end Atp
