import Mathlib.Data.List.Nodup
import Mathlib.Data.List.Perm.Subperm
import AlgoTrading.OrderLedger
import AlgoTrading.Recovery
/-!
# Venue — the venue's own order, and what our copy of it can hold

An abstract order at the venue: the prints it has executed, in order, and the record its REST endpoint answers with.
Our copy is a `Holding` of it when every fill it has recorded is one of the prints and no print is recorded twice; the
copy's totals are then the totals of the prints it holds, and what it misses is the rest.
-/
namespace Atp

/-- One execution at the venue. -/
structure Print where
  execution : String
  qty : ℚ
  price : ℚ
  qty_pos : 0 < qty
  price_pos : 0 < price
deriving DecidableEq

namespace Print

def notional (p : Print) : ℚ := p.qty * p.price

theorem notional_pos (p : Print) : 0 < p.notional := mul_pos p.qty_pos p.price_pos

end Print

/-- The quantity of a list of prints. -/
def printsQty (l : List Print) : ℚ := (l.map Print.qty).sum

def printsNotional (l : List Print) : ℚ := (l.map Print.notional).sum

@[simp] theorem printsQty_nil : printsQty [] = 0 := rfl

@[simp] theorem printsNotional_nil : printsNotional [] = 0 := rfl

@[simp] theorem printsQty_cons (p : Print) (l : List Print) : printsQty (p :: l) = p.qty + printsQty l := by
  simp [printsQty]

@[simp] theorem printsNotional_cons (p : Print) (l : List Print) :
    printsNotional (p :: l) = p.notional + printsNotional l := by
  simp [printsNotional]

@[simp] theorem printsQty_append (a b : List Print) : printsQty (a ++ b) = printsQty a + printsQty b := by
  simp [printsQty]

@[simp] theorem printsNotional_append (a b : List Print) :
    printsNotional (a ++ b) = printsNotional a + printsNotional b := by
  simp [printsNotional]

theorem printsQty_perm {a b : List Print} (h : a.Perm b) : printsQty a = printsQty b := (h.map _).sum_eq

theorem printsNotional_perm {a b : List Print} (h : a.Perm b) : printsNotional a = printsNotional b :=
  (h.map _).sum_eq

theorem printsQty_nonneg : ∀ (l : List Print), 0 ≤ printsQty l
  | [] => le_refl 0
  | p :: l => by
    have := printsQty_nonneg l
    have := p.qty_pos
    rw [printsQty_cons]
    linarith

/-- Prints of no quantity are no prints. -/
theorem printsQty_eq_zero_iff (l : List Print) : printsQty l = 0 ↔ l = [] := by
  cases l with
  | nil => simp
  | cons p l =>
    have := printsQty_nonneg l
    have := p.qty_pos
    rw [printsQty_cons]
    constructor
    · intro h
      linarith
    · rintro ⟨⟩

theorem printsNotional_nonneg : ∀ (l : List Print), 0 ≤ printsNotional l
  | [] => le_refl 0
  | p :: l => by
    have := printsNotional_nonneg l
    have := p.notional_pos
    rw [printsNotional_cons]
    linarith

theorem printsNotional_pos (l : List Print) (h : l ≠ []) : 0 < printsNotional l := by
  cases l with
  | nil => exact absurd rfl h
  | cons p l =>
    have := printsNotional_nonneg l
    have := p.notional_pos
    rw [printsNotional_cons]
    linarith

/-- An order at the venue: what its record says besides the fills, and its prints. -/
structure VenueOrder where
  listing : Alpaca.OrderPayload
  prints : List Print
  distinct : (prints.map Print.execution).Nodup
  bounded : printsQty prints ≤ listing.qty

namespace VenueOrder

open Raising Runs TradeUpdates

/-- What the REST endpoint answers: the running totals of the prints. -/
def payload (v : VenueOrder) : Alpaca.OrderPayload :=
  { v.listing with
    filledQty := printsQty v.prints
    filledAvgPrice := if v.prints = [] then none else some (printsNotional v.prints / printsQty v.prints) }

/-- A fill that records a print. -/
def Records (f : Fill) (p : Print) : Prop :=
  f.qty = p.qty ∧ f.price = p.price ∧ f.venueFillId = some (.execution p.execution)

/-- An event the venue can push about the order: one of its prints, or a status. -/
def EventOf (v : VenueOrder) (u : AdapterUpdate) : Prop :=
  u.update.clientOrderId = v.listing.clientOrderId ∧ ∀ f, u.update.fill = some f → ∃ p ∈ v.prints, Records f p

/-- A state our copy can be in after some of the venue's events, in any order and any number of times each. -/
def Reached (v : VenueOrder) (ours : Order) : Prop :=
  ∃ (o : FreshOrder) (us : List AdapterUpdate), o.order.clientOrderId = v.listing.clientOrderId ∧
    o.order.qty = v.listing.qty ∧ (∀ u ∈ us, v.EventOf u) ∧ Run deliver o.order us ours

/-- **Our copy holds some of the prints**: its fills record distinct prints of `l`, one each. -/
def Holding (l : List Print) (fills : List Fill) : Prop :=
  ∃ held : List Print, List.Forall₂ Records fills held ∧ (held.map Print.execution).Nodup ∧ held ⊆ l

theorem holding_nil (l : List Print) : Holding l [] := ⟨[], .nil, by simp, by simp⟩

theorem records_fillsQty {fills : List Fill} {held : List Print} (h : List.Forall₂ Records fills held) :
    fillsQty fills = printsQty held ∧ fillsNotional fills = printsNotional held := by
  induction h with
  | nil => exact ⟨rfl, rfl⟩
  | @cons f p fs ps hfp _ ih =>
    obtain ⟨hq, hp, -⟩ := hfp
    have hf : fillsQty (f :: fs) = f.qty + fillsQty fs := by simp [fillsQty]
    have hn : fillsNotional (f :: fs) = f.notional + fillsNotional fs := by simp [fillsNotional]
    rw [hf, hn, printsQty_cons, printsNotional_cons, ih.1, ih.2]
    exact ⟨by rw [hq], by rw [Fill.notional, Print.notional, hq, hp]⟩

theorem holding_mem {l : List Print} {fills : List Fill} (h : Holding l fills) :
    ∀ f ∈ fills, ∃ p ∈ l, Records f p := by
  obtain ⟨held, hrec, -, hin⟩ := h
  induction hrec with
  | nil => simp
  | @cons g p gs ps hgp _ ih =>
    intro f hf
    rcases List.mem_cons.1 hf with rfl | hf
    · exact ⟨p, hin List.mem_cons_self, hgp⟩
    · exact ih (fun r hr => hin (List.mem_cons_of_mem p hr)) f hf

/-- **What a copy misses**: the prints split into those it holds and the rest, and its totals are the former's. -/
theorem holding_split {l : List Print} {fills : List Fill} (h : Holding l fills) :
    ∃ rest, rest ⊆ l ∧ printsQty l = fillsQty fills + printsQty rest ∧
      printsNotional l = fillsNotional fills + printsNotional rest := by
  obtain ⟨held, hrec, hnd, hin⟩ := h
  have hsub : held.Subperm l := (List.Nodup.of_map _ hnd).subperm hin
  obtain ⟨held', hperm, hsl⟩ := hsub
  obtain ⟨rest, hrest⟩ := hsl.exists_perm_append
  obtain ⟨hq, hn⟩ := records_fillsQty hrec
  refine ⟨rest, fun p hp => hrest.mem_iff.2 (List.mem_append_right _ hp), ?_, ?_⟩
  · rw [printsQty_perm hrest, printsQty_append, printsQty_perm hperm, hq]
  · rw [printsNotional_perm hrest, printsNotional_append, printsNotional_perm hperm, hn]

/-- A print is seen exactly when a fill records it. -/
theorem alreadySeen_iff {o : Order} {held : List Print} (h : List.Forall₂ Records o.fills held) {f : Fill} {p : Print}
    (hfp : Records f p) : alreadySeen o f = true ↔ p.execution ∈ held.map Print.execution := by
  unfold alreadySeen
  rw [hfp.2.2]
  dsimp only
  generalize o.fills = fills at h
  induction h with
  | nil => simp
  | @cons g r gs rs hgr _ ih =>
    simp only [List.any_cons, Bool.or_eq_true, List.map_cons, List.mem_cons, ih, hgr.2.2]
    constructor
    · rintro (h | h)
      · exact .inl (by simpa using Eq.symm (by simpa using h))
      · exact .inr h
    · rintro (h | h)
      · exact .inl (by simp [h])
      · exact .inr h

/-- Booking a print that was not held keeps the copy a holding. -/
theorem holding_book {l : List Print} {o : Order} {f : Fill} {p : Print} (h : Holding l o.fills) (hp : p ∈ l)
    (hfp : Records f p) (hseen : alreadySeen o f = false) : Holding l (o.fills ++ [f]) := by
  obtain ⟨held, hrec, hnd, hin⟩ := h
  have hnot : p.execution ∉ held.map Print.execution := by
    rw [← alreadySeen_iff hrec hfp, hseen]
    simp
  refine ⟨held ++ [p], List.rel_append hrec (.cons hfp .nil), ?_, ?_⟩
  · rw [List.map_append, List.nodup_append]
    refine ⟨hnd, by simp, fun a ha b hb => ?_⟩
    rw [List.map_cons, List.map_nil, List.mem_singleton] at hb
    rintro rfl
    exact hnot (hb ▸ ha)
  · intro r hr
    rcases List.mem_append.1 hr with hr | hr
    · exact hin hr
    · rw [List.mem_singleton.1 hr]
      exact hp

/-- A delivery of one of the venue's events keeps the copy a holding. -/
theorem holding_delivered {v : VenueOrder} {o o' : Order} {u : AdapterUpdate} (hu : v.EventOf u)
    (h : Holding v.prints o.fills) (hd : deliver o u o') : Holding v.prints o'.fills := by
  rcases hx : exec (applyTradeUpdate u.update) o with ⟨r, o''⟩
  have hd' : o' = o'' := by rw [hd, hx]
  subst hd'
  cases outcome_of_exec hx with
  | booked hid f hf hseen hopen hpos hle =>
    obtain ⟨p, hp, hfp⟩ := hu.2 f hf
    simpa using holding_book h hp hfp hseen
  | wrongOrder hid => exact h
  | duplicate hid f hf hseen => simpa using h
  | refused hid f hf hseen e hbad => simpa using h
  | noStatus hid hf hs => simpa using h
  | ignored hid hf s hs hsame => simpa using h
  | illegal hid hf s hs hne hopen hcan => simpa using h
  | moved hid hf s hs hne hopen hcan => simpa using h

theorem holding_deliveries {v : VenueOrder} : ∀ {us : List AdapterUpdate} {o o' : Order}, (∀ u ∈ us, v.EventOf u) →
    Holding v.prints o.fills → Run deliver o us o' → Holding v.prints o'.fills
  | [], _, _, _, h, hrun => run_nil_iff.1 hrun ▸ h
  | u :: us, o, o', hev, h, hrun => by
    obtain ⟨t, hs, hr⟩ := run_cons_iff.1 hrun
    exact holding_deliveries (fun w hw => hev w (List.mem_cons_of_mem u hw))
      (holding_delivered (hev u List.mem_cons_self) h hs) hr

/-- **A reached copy**: its ledger is exact and it holds some of the venue's prints. -/
theorem reached_ledger {v : VenueOrder} {ours : Order} (h : v.Reached ours) :
    Ledger v.listing.qty ours ∧ Holding v.prints ours.fills := by
  obtain ⟨o, us, -, hq, hev, hrun⟩ := h
  refine ⟨hq ▸ ledger_deliveries (ledger_fresh o) hrun, holding_deliveries hev ?_ hrun⟩
  rw [o.noFills]
  exact holding_nil v.prints

/-- What a REST read of the venue's order shows of its prints. -/
theorem read_totals {v : VenueOrder} {newId : String} {now : ℤ} {theirs : Order}
    (h : Alpaca.fromAlpacaOrder v.payload newId now = .ok theirs) :
    theirs.qty = v.listing.qty ∧ theirs.filledQty = printsQty v.prints ∧
      theirs.filledNotional = printsNotional v.prints ∧
      (v.prints ≠ [] → theirs.avgFillPrice = some (printsNotional v.prints / printsQty v.prints)) := by
  have hview := Alpaca.fromAlpacaOrder_view h
  have hfilled : theirs.filledQty = printsQty v.prints := by
    rw [hview.filled]
    exact max_eq_left (printsQty_nonneg v.prints)
  have havg : v.prints ≠ [] → theirs.avgFillPrice = some (printsNotional v.prints / printsQty v.prints) := by
    intro hne
    have hpos : 0 < theirs.filledQty := by
      rw [hfilled]
      exact lt_of_le_of_ne (printsQty_nonneg _) (fun h => hne ((printsQty_eq_zero_iff _).1 h.symm))
    rw [(hview.average hpos).1]
    exact if_neg hne
  refine ⟨hview.qty, hfilled, ?_, havg⟩
  by_cases hnil : v.prints = []
  · rw [Order.filledNotional, hfilled, hnil]
    simp
  · have hq : printsQty v.prints ≠ 0 := fun h => hnil ((printsQty_eq_zero_iff _).1 h)
    rw [Order.filledNotional, havg hnil, hfilled, Option.getD_some, div_mul_cancel₀ _ hq]

end VenueOrder
end Atp
