import AlgoTrading.RoundTrips
/-!
# TradeStreams — a history of fills, read back from the orders that hold them

A history lists fills as they happened; the orders hold the same fills order by order.  `_fill_stream` restores the history
of each symbol when fills of one instant happened in the order of their orders (`fillStream_get?`), and the trades rebuilt
are then the trades of one pass over the history (`buildTrades_rounds`).
-/
namespace Atp
namespace PerformanceAnalyzer

/-- A fill of a history: the order it was for, and its event. -/
structure Print where
  orderId : String
  symbol : String
  event : FillEvent

def printOf (o : Order) (f : Fill) : Print where
  orderId := o.id
  symbol := o.symbol
  event := fillEvent o f

/-! ## Keys -/

theorem sortByKey_eq {l m : List (FillKey × FillEvent)} (h : l.Perm m) (hm : m.Pairwise fun a b => a.1 < b.1) :
    sortByKey l = m := by
  have htotal : Std.Total fun a b : FillKey × FillEvent => a.1 ≤ b.1 := ⟨fun a b => le_total a.1 b.1⟩
  have htrans : IsTrans (FillKey × FillEvent) fun a b => a.1 ≤ b.1 := ⟨fun _ _ _ => le_trans⟩
  have hperm : (sortByKey l).Perm m := (List.perm_insertionSort _ l).trans h
  have hkeys : (m.map Prod.fst).Nodup := List.pairwise_map.2 (hm.imp ne_of_lt)
  refine List.Perm.eq_of_pairwise (fun a b ha hb hab hba => ?_) (List.pairwise_insertionSort _ l) (hm.imp le_of_lt) hperm
  exact List.inj_on_of_nodup_map hkeys (hperm.mem_iff.1 ha) hb (le_antisymm hab hba)

/-- The fills of a history, each under the key its order will hold it by. -/
def keyedFrom (ids : List String) (before : List Print) : List Print → List (FillKey × Print)
  | [] => []
  | x :: l => (fillKey (ids.idxOf x.orderId) (before.filter fun y => y.orderId = x.orderId).length x.event.ts, x) ::
      keyedFrom ids (before ++ [x]) l

theorem keyedFrom_snd (ids : List String) : ∀ (l before : List Print), (keyedFrom ids before l).map Prod.snd = l
  | [], _ => rfl
  | x :: l, before => by rw [keyedFrom, List.map_cons, keyedFrom_snd ids l]

variable {ids : List String}

/-- The fills of one order, numbered. -/
def numbered (ids : List String) (id : String) (n : ℕ) (l : List Print) : List (FillKey × Print) :=
  (l.zipIdx n).map fun q => (fillKey (ids.idxOf id) q.2 q.1.event.ts, q.1)

theorem keyedFrom_filter (id : String) : ∀ (l before : List Print),
    (keyedFrom ids before l).filter (fun p => p.2.orderId = id) =
      numbered ids id (before.filter fun y => y.orderId = id).length (l.filter fun y => y.orderId = id)
  | [], _ => rfl
  | x :: l, before => by
    rw [keyedFrom, List.filter_cons, List.filter_cons, keyedFrom_filter id l]
    by_cases h : x.orderId = id
    · simp [h, numbered]
    · simp [h]

theorem keyedFrom_mem {p : FillKey × Print} : ∀ {l before : List Print}, p ∈ keyedFrom ids before l →
    p.2 ∈ l ∧ ∃ n, (before.filter fun y => y.orderId = p.2.orderId).length ≤ n ∧
      p.1 = fillKey (ids.idxOf p.2.orderId) n p.2.event.ts
  | x :: l, before, h => by
    rw [keyedFrom] at h
    rcases List.mem_cons.1 h with rfl | h
    · exact ⟨by simp, _, le_refl _, rfl⟩
    · obtain ⟨hmem, n, hn, hkey⟩ := keyedFrom_mem h
      refine ⟨List.mem_cons_of_mem _ hmem, n, le_trans ?_ hn, hkey⟩
      rw [List.filter_append, List.length_append]
      exact Nat.le_add_right _ _

/-- Of two fills of one symbol at one instant, the later is not of an order that stands before the earlier's. -/
def InOrder (ids : List String) (x y : Print) : Prop :=
  x.symbol = y.symbol → x.event.ts = y.event.ts → ids.idxOf x.orderId ≤ ids.idxOf y.orderId

theorem fillKey_lt {i j m n : ℕ} {s t : ℤ} (hts : s ≤ t) (hindex : s = t → i ≤ j) (hplace : s = t → i = j → m < n) :
    fillKey i m s < fillKey j n t := by
  unfold fillKey
  rw [Prod.Lex.toLex_lt_toLex]
  rcases hts.lt_or_eq with h | h
  · exact .inl h
  · refine .inr ⟨h, Prod.Lex.toLex_lt_toLex.2 ?_⟩
    rcases (hindex h).lt_or_eq with hi | hi
    · exact .inl hi
    · exact .inr ⟨hi, hplace h hi⟩

/-- A history in order has ascending keys, symbol by symbol. -/
theorem keyedFrom_ascending : ∀ {l : List Print} (before : List Print),
    l.Pairwise (fun x y => x.event.ts ≤ y.event.ts ∧ InOrder ids x y) → (∀ x ∈ l, x.orderId ∈ ids) →
    (keyedFrom ids before l).Pairwise fun p q => p.2.symbol = q.2.symbol → p.1 < q.1
  | [], _, _, _ => .nil
  | x :: l, before, hl, hids => by
    rw [List.pairwise_cons] at hl
    refine .cons (fun q hq hsymbol => ?_) (keyedFrom_ascending _ hl.2 fun y hy => hids y (List.mem_cons_of_mem _ hy))
    obtain ⟨hmem, n, hn, hkey⟩ := keyedFrom_mem hq
    obtain ⟨hts, horder⟩ := hl.1 q.2 hmem
    rw [hkey]
    refine fillKey_lt hts (horder hsymbol) fun _ hindex => ?_
    have hid : x.orderId = q.2.orderId := (List.idxOf_inj (hids x (by simp))).1 hindex
    rw [← hid, List.filter_append, List.length_append] at hn
    exact Nat.lt_of_lt_of_le (by simp) hn

/-! ## The orders of a history -/

/-- **The orders hold the history**: each holds its own fills, in their order, and every fill is held. -/
structure Holds (orders : List Order) (l : List Print) : Prop where
  nodup : (orders.map Order.id).Nodup
  fills : ∀ o ∈ orders, o.fills.map (printOf o) = l.filter fun x => x.orderId = o.id
  held : ∀ x ∈ l, x.orderId ∈ orders.map Order.id

variable {orders : List Order} {l : List Print}

/-- Everything the orders hold, with the keys of `_fill_stream`. -/
def keyedPrints (orders : List Order) : List (FillKey × Print) :=
  orders.zipIdx.flatMap fun p => p.1.fills.zipIdx.map fun q => (fillKey p.2 q.2 q.1.ts, printOf p.1 q.1)

theorem Holds.index (h : Holds orders l) {o : Order} {i : ℕ} (hi : orders[i]? = some o) :
    (orders.map Order.id).idxOf o.id = i := by
  obtain ⟨hlt, ho⟩ := List.getElem?_eq_some_iff.1 hi
  have hmapped : i < (orders.map Order.id).length := by simpa using hlt
  have hid : (orders.map Order.id)[i] = o.id := by simp [ho]
  rw [← hid]
  exact h.nodup.idxOf_getElem i _

theorem Holds.keyed (h : Holds orders l) : (keyedPrints orders).Perm (keyedFrom (orders.map Order.id) [] l) := by
  have hnumbered (p : Order × ℕ) (hp : p ∈ orders.zipIdx) :
      (p.1.fills.zipIdx.map fun q => (fillKey p.2 q.2 q.1.ts, printOf p.1 q.1)) =
        (keyedFrom (orders.map Order.id) [] l).filter fun q => q.2.orderId = p.1.id := by
    have hget : orders[p.2]? = some p.1 := List.mem_zipIdx_iff_getElem?.1 hp
    rw [keyedFrom_filter, ← h.fills p.1 (List.mem_of_getElem? hget), numbered, h.index hget, List.zipIdx_map, List.map_map]
    rfl
  have hgroups : keyedPrints orders = (orders.map Order.id).flatMap fun id =>
      (keyedFrom (orders.map Order.id) [] l).filter fun q => q.2.orderId = id := by
    unfold keyedPrints
    generalize keyedFrom (orders.map Order.id) [] l = m at hnumbered
    rw [List.flatMap_congr hnumbered, List.flatMap_map]
    conv => rhs; rw [← List.zipIdx_map_fst 0 orders, List.flatMap_map]
  have hall : (keyedFrom (orders.map Order.id) [] l).filter (fun q => q.2.orderId ∈ orders.map Order.id) =
      keyedFrom (orders.map Order.id) [] l :=
    List.filter_eq_self.2 fun q hq => decide_eq_true (h.held q.2 (keyedFrom_mem hq).1)
  rw [hgroups]
  exact (Dict.flatMap_filter_perm _ _ h.nodup).trans (by rw [hall])

/-- The events of one symbol. -/
def eventsOf (l : List Print) (symbol : String) : List FillEvent := (l.filter fun x => x.symbol = symbol).map Print.event

/-- The keyed events of one symbol. -/
def keyedOf (m : List (FillKey × Print)) (symbol : String) : List (FillKey × FillEvent) :=
  (m.filter fun q => q.2.symbol = symbol).map fun q => (q.1, q.2.event)

theorem keyedOf_snd (ids : List String) (l : List Print) (symbol : String) :
    (keyedOf (keyedFrom ids [] l) symbol).map Prod.snd = eventsOf l symbol := by
  have hl := keyedFrom_snd ids l []
  unfold keyedOf eventsOf
  conv => rhs; rw [← hl]
  rw [List.filter_map, List.map_map, List.map_map]
  rfl

theorem rows_keyedOf (symbol : String) :
    ((orders.zipIdx.flatMap fun p => (keyedFills p.2 p.1).map (Prod.mk p.1.symbol)).filter fun x => x.1 = symbol).map Prod.snd =
      keyedOf (keyedPrints orders) symbol := by
  have hrows : (orders.zipIdx.flatMap fun p => (keyedFills p.2 p.1).map (Prod.mk p.1.symbol)) =
      (keyedPrints orders).map fun q => (q.2.symbol, q.1, q.2.event) := by
    unfold keyedPrints keyedFills
    rw [List.map_flatMap]
    simp only [List.map_map]
    rfl
  rw [hrows, List.filter_map, List.map_map]
  rfl

/-- **The stream of a symbol is its history**, when fills of one instant happened in the order of their orders. -/
theorem fillStream_get? (h : Holds orders l)
    (hl : l.Pairwise fun x y => x.event.ts ≤ y.event.ts ∧ InOrder (orders.map Order.id) x y) (symbol : String) :
    (fillStream orders).get? symbol = if eventsOf l symbol = [] then none else some (eventsOf l symbol) := by
  have hperm : (keyedOf (keyedPrints orders) symbol).Perm (keyedOf (keyedFrom (orders.map Order.id) [] l) symbol) :=
    (h.keyed.filter _).map _
  have hsorted : (keyedOf (keyedFrom (orders.map Order.id) [] l) symbol).Pairwise fun a b => a.1 < b.1 := by
    refine List.pairwise_map.2 (((keyedFrom_ascending [] hl h.held).filter _).imp_of_mem fun hp hq hlt => hlt ?_)
    rw [of_decide_eq_true (List.mem_filter.1 hp).2, of_decide_eq_true (List.mem_filter.1 hq).2]
  have hsort := sortByKey_eq hperm hsorted
  have hnil : ((orders.zipIdx.flatMap fun p => (keyedFills p.2 p.1).map (Prod.mk p.1.symbol)).filter fun x => x.1 = symbol) = [] ↔
      eventsOf l symbol = [] := by
    rw [← List.map_eq_nil_iff (f := Prod.snd), rows_keyedOf, ← keyedOf_snd (orders.map Order.id) l, List.map_eq_nil_iff]
    exact ⟨fun hn => List.nil_perm.1 (hn ▸ hperm), fun hn => List.perm_nil.1 (hn ▸ hperm)⟩
  unfold fillStream
  rw [Dict.get?_filterMap, Dict.get?_group]
  simp only [hnil]
  by_cases hempty : eventsOf l symbol = []
  · simp [hempty]
  · rw [if_neg hempty, if_neg hempty, Option.bind_some, rows_keyedOf, hsort, keyedOf_snd]

/-! ## One pass over the history -/

/-- The episode of every symbol, and the trades in the order they closed. -/
structure Rounds where
  episodes : String → Option Episode
  trades : List TradeRecord

def Rounds.print (r : Rounds) (x : Print) : Rounds where
  episodes := Function.update r.episodes x.symbol (absorb x.symbol ⟨r.episodes x.symbol, r.trades⟩ x.event).episode
  trades := (absorb x.symbol ⟨r.episodes x.symbol, r.trades⟩ x.event).trades

/-- The pass: the fills as they came, every symbol at once. -/
def rounds (l : List Print) : Rounds := l.foldl Rounds.print ⟨fun _ => none, []⟩

theorem rounds_append (l : List Print) (x : Print) : rounds (l ++ [x]) = (rounds l).print x := by
  unfold rounds
  rw [List.foldl_append]
  rfl

/-- A scan after trades closed before it. -/
def Scan.onto (trades : List TradeRecord) (s : Scan) : Scan := ⟨s.episode, trades ++ s.trades⟩

theorem enter_onto (symbol : String) (x : FillEvent) (remaining fee : ℚ) (trades : List TradeRecord) (s : Scan) :
    enter symbol x remaining fee (s.onto trades) = (enter symbol x remaining fee s).onto trades := by
  unfold enter Scan.onto
  split
  · rfl
  · cases s.episode <;> rfl

theorem leave_onto (e : Episode) (x : FillEvent) (closing fee : ℚ) (trades : List TradeRecord) (s : Scan) :
    leave e x closing fee (s.onto trades) = (leave e x closing fee s).onto trades := by
  unfold leave Scan.onto
  split
  · simp
  · rfl

/-- What closed before a fill does not matter to it. -/
theorem absorb_onto (symbol : String) (trades : List TradeRecord) (s : Scan) (x : FillEvent) :
    absorb symbol (s.onto trades) x = (absorb symbol s x).onto trades := by
  have hepisode : (s.onto trades).episode = s.episode := rfl
  unfold absorb
  rw [hepisode]
  cases s.episode with
  | none => exact enter_onto _ _ _ _ _ _
  | some e =>
    dsimp only
    split
    · exact enter_onto _ _ _ _ _ _
    · rw [leave_onto, enter_onto]

theorem absorb_split (symbol : String) (s : Scan) (x : FillEvent) : absorb symbol s x =
    ⟨(absorb symbol ⟨s.episode, []⟩ x).episode, s.trades ++ (absorb symbol ⟨s.episode, []⟩ x).trades⟩ := by
  have h := absorb_onto symbol s.trades ⟨s.episode, []⟩ x
  unfold Scan.onto at h
  rw [List.append_nil] at h
  exact h

/-- What a fill closes. -/
def closedBy (r : Rounds) (x : Print) : List TradeRecord := (absorb x.symbol ⟨r.episodes x.symbol, []⟩ x.event).trades

theorem print_trades (r : Rounds) (x : Print) : (r.print x).trades = r.trades ++ closedBy r x := by
  unfold Rounds.print closedBy
  rw [absorb_split]

theorem print_episodes (r : Rounds) (x : Print) : (r.print x).episodes =
    Function.update r.episodes x.symbol (absorb x.symbol ⟨r.episodes x.symbol, []⟩ x.event).episode := by
  unfold Rounds.print
  rw [absorb_split]

/-- The episodes of a pass are of their symbols, and open. -/
def Rounds.Open (r : Rounds) : Prop := ∀ symbol, (⟨r.episodes symbol, []⟩ : Scan).Open symbol

theorem Rounds.Open.print {r : Rounds} {x : Print} (h : r.Open) (hx : x.event.signedQty ≠ 0) : (r.print x).Open := by
  intro symbol
  rw [print_episodes]
  by_cases hs : symbol = x.symbol
  · subst hs
    obtain ⟨hopen, -⟩ := absorb_moves (h x.symbol) hx
    rw [Function.update_self]
    exact hopen
  · rw [Function.update_of_ne hs]
    exact h symbol

theorem closedBy_about {r : Rounds} {x : Print} (h : r.Open) (hx : x.event.signedQty ≠ 0) :
    ∀ t ∈ closedBy r x, t.exitTs = some x.event.ts ∧ t.symbol = x.symbol := by
  obtain ⟨-, -, new, hnew, habout, -⟩ := absorb_moves (h x.symbol) hx
  unfold closedBy
  rw [hnew]
  exact habout

theorem rounds_open (hmoves : ∀ x ∈ l, x.event.signedQty ≠ 0) : (rounds l).Open := by
  induction l using List.reverseRecOn with
  | nil => exact fun _ => open_none _
  | append_singleton l x ih =>
    rw [rounds_append]
    exact (ih fun y hy => hmoves y (List.mem_append_left _ hy)).print (hmoves x (by simp))

/-- **The pass is the scan of every symbol**: its episode, and its trades among those of the others. -/
theorem rounds_scan (hmoves : ∀ x ∈ l, x.event.signedQty ≠ 0) (symbol : String) :
    (rounds l).episodes symbol = (scan symbol (eventsOf l symbol)).episode ∧
      (rounds l).trades.filter (fun t => t.symbol = symbol) = (scan symbol (eventsOf l symbol)).trades := by
  induction l using List.reverseRecOn with
  | nil => exact ⟨rfl, rfl⟩
  | append_singleton l x ih =>
    have hbefore (y : Print) (hy : y ∈ l) : y.event.signedQty ≠ 0 := hmoves y (List.mem_append_left _ hy)
    obtain ⟨hepisode, htrades⟩ := ih hbefore
    have habout := closedBy_about (rounds_open hbefore) (hmoves x (by simp))
    rw [rounds_append, print_trades, print_episodes, List.filter_append, htrades]
    by_cases hs : x.symbol = symbol
    · subst hs
      have hscan : scan x.symbol (eventsOf (l ++ [x]) x.symbol) = absorb x.symbol (scan x.symbol (eventsOf l x.symbol)) x.event := by
        simp [scan, eventsOf]
      have hclosed : (closedBy (rounds l) x).filter (fun t => t.symbol = x.symbol) = closedBy (rounds l) x :=
        List.filter_eq_self.2 fun t ht => decide_eq_true (habout t ht).2
      rw [hscan, absorb_split _ (scan x.symbol (eventsOf l x.symbol)), Function.update_self, hclosed, closedBy, hepisode]
      exact ⟨rfl, rfl⟩
    · have hevents : eventsOf (l ++ [x]) symbol = eventsOf l symbol := by simp [eventsOf, hs]
      have hclosed : (closedBy (rounds l) x).filter (fun t => t.symbol = symbol) = [] :=
        List.filter_eq_nil_iff.2 fun t ht => by simpa [(habout t ht).2] using hs
      rw [hevents, Function.update_of_ne (Ne.symm hs), hclosed, List.append_nil]
      exact ⟨hepisode, rfl⟩

/-- The trades of a pass closed in the order they are listed, each at the instant of a fill. -/
theorem rounds_dated (hmoves : ∀ x ∈ l, x.event.signedQty ≠ 0) (hl : l.Pairwise fun x y => x.event.ts ≤ y.event.ts) :
    (rounds l).trades.Pairwise (fun t u => closeTs t ≤ closeTs u) ∧
      ∀ t ∈ (rounds l).trades, ∃ x ∈ l, t.exitTs = some x.event.ts ∧ t.symbol = x.symbol := by
  induction l using List.reverseRecOn with
  | nil => exact ⟨.nil, fun t ht => by cases ht⟩
  | append_singleton l x ih =>
    have hbefore (y : Print) (hy : y ∈ l) : y.event.signedQty ≠ 0 := hmoves y (List.mem_append_left _ hy)
    rw [List.pairwise_append] at hl
    obtain ⟨hsorted, hfills⟩ := ih hbefore hl.1
    have habout := closedBy_about (rounds_open hbefore) (hmoves x (by simp))
    have hclose (t : TradeRecord) (ht : t ∈ closedBy (rounds l) x) : closeTs t = x.event.ts := by
      unfold closeTs
      rw [(habout t ht).1, Option.getD_some]
    rw [rounds_append, print_trades]
    constructor
    · refine List.pairwise_append.2 ⟨hsorted, List.pairwise_of_forall_mem_list fun t ht u hu => ?_, fun t ht u hu => ?_⟩
      · rw [hclose t ht, hclose u hu]
      · obtain ⟨y, hy, hts, -⟩ := hfills t ht
        rw [hclose u hu, closeTs, hts, Option.getD_some]
        exact hl.2.2 y hy x (by simp)
    · intro t ht
      rcases List.mem_append.1 ht with ht | ht
      · obtain ⟨y, hy, hfill⟩ := hfills t ht
        exact ⟨y, List.mem_append_left _ hy, hfill⟩
      · exact ⟨x, by simp, habout t ht⟩

theorem buildTrades_sorted (orders : List Order) : (buildTrades orders).Pairwise fun t u => closeTs t ≤ closeTs u := by
  have htotal : Std.Total fun t u : TradeRecord => closeKey t ≤ closeKey u := ⟨fun t u => le_total (closeKey t) (closeKey u)⟩
  have htrans : IsTrans TradeRecord fun t u => closeKey t ≤ closeKey u := ⟨fun _ _ _ => le_trans⟩
  refine (List.pairwise_insertionSort (fun t u => closeKey t ≤ closeKey u) _).imp fun {t u} hle => ?_
  rcases Prod.Lex.toLex_le_toLex.1 hle with hlt | ⟨heq, -⟩
  · exact le_of_lt hlt
  · exact le_of_eq heq

/-- **The trades `build_trades` returns are those of one pass over the history**, in an order that differs at most among
trades closed at one instant. -/
theorem buildTrades_rounds (h : Holds orders l) (hmoves : ∀ x ∈ l, x.event.signedQty ≠ 0)
    (hl : l.Pairwise fun x y => x.event.ts ≤ y.event.ts ∧ InOrder (orders.map Order.id) x y) :
    (rounds l).trades.Perm (buildTrades orders) ∧
      (rounds l).trades.map TradeRecord.exitTs = (buildTrades orders).map TradeRecord.exitTs := by
  obtain ⟨hsorted, hfills⟩ := rounds_dated hmoves (hl.imp And.left)
  have hgroups : ((fillStream orders).entries.flatMap fun p => (scan p.1 p.2).trades) =
      (fillStream orders).keys.flatMap fun symbol => (rounds l).trades.filter fun t => t.symbol = symbol := by
    rw [Dict.keys, List.flatMap_map]
    refine List.flatMap_congr fun p hp => ?_
    have hget : (fillStream orders).get? p.1 = some p.2 := (Dict.mem_entries_iff _ _ _).1 hp
    rw [fillStream_get? h hl] at hget
    split at hget
    · cases hget
    · rw [← Option.some.inj hget, (rounds_scan hmoves p.1).2]
  have hcovered (t : TradeRecord) (ht : t ∈ (rounds l).trades) : t.symbol ∈ (fillStream orders).keys := by
    obtain ⟨x, hx, -, hsymbol⟩ := hfills t ht
    have hevents : eventsOf l t.symbol ≠ [] := by
      have hmem : x.event ∈ eventsOf l t.symbol :=
        List.mem_map.2 ⟨x, List.mem_filter.2 ⟨hx, decide_eq_true hsymbol.symm⟩, rfl⟩
      exact List.ne_nil_of_mem hmem
    rw [Dict.mem_keys_iff, fillStream_get? h hl, if_neg hevents]
    rfl
  have hall : (rounds l).trades.filter (fun t => t.symbol ∈ (fillStream orders).keys) = (rounds l).trades :=
    List.filter_eq_self.2 fun t ht => decide_eq_true (hcovered t ht)
  have hperm : (buildTrades orders).Perm (rounds l).trades := by
    unfold buildTrades
    rw [hgroups]
    refine (List.perm_insertionSort _ _).trans ?_
    have hkeys : (fillStream orders).keys.Nodup := (fillStream orders).nodup
    exact (Dict.flatMap_filter_perm _ _ hkeys).trans (by rw [hall])
  have hexit (t : TradeRecord) (ht : t ∈ (rounds l).trades) : t.exitTs = some (closeTs t) := by
    obtain ⟨x, -, hts, -⟩ := hfills t ht
    rw [closeTs, hts, Option.getD_some]
  have htimes : (rounds l).trades.map closeTs = (buildTrades orders).map closeTs :=
    (hperm.symm.map closeTs).eq_of_pairwise' (List.pairwise_map.2 hsorted) (List.pairwise_map.2 (buildTrades_sorted orders))
  refine ⟨hperm.symm, ?_⟩
  calc (rounds l).trades.map TradeRecord.exitTs
      = ((rounds l).trades.map closeTs).map some := by rw [List.map_map]; exact List.map_congr_left hexit
    _ = ((buildTrades orders).map closeTs).map some := by rw [htimes]
    _ = (buildTrades orders).map TradeRecord.exitTs := by
      rw [List.map_map]
      exact (List.map_congr_left fun t ht => hexit t (hperm.mem_iff.1 ht)).symm

end PerformanceAnalyzer
end Atp
