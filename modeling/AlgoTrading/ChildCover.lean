import AlgoTrading.Protection
/-!
# ChildCover — what the live children of a symbol cover

A child covers what is left of it while it works, on the side that closes its position.  Sweeping the stops of the other side
leaves that alone (`triple_cancelStaleProtection`).
-/
namespace Atp
namespace Coverage

open Raising

/-! ## What some children cover -/

/-- What one order covers of a position that `closing` closes. -/
def working (closing : Side) (o : Order) : ℚ := if !o.isComplete && decide (o.side = closing) then o.remainingQty else 0

def covering (heap : List Order) (closing : Side) (refs : List Ref) : ℚ :=
  (refs.map (fun ref => (heap[ref]?).elim 0 (working closing))).sum

variable {β L σ : Type} {r : OrderRouter β L σ} {d : Desk β σ} {heap : List Order} {closing : Side}

def refsOf (d : Desk β σ) (symbol : String) : List Ref := (d.protective.get? symbol).getD []

theorem protectedQty_eq (d : Desk β σ) (symbol : String) (closing : Side) :
    d.protectedQty symbol closing = covering d.heap closing (refsOf d symbol) := by
  unfold Desk.protectedQty Desk.children Desk.childRefs covering refsOf
  induction (d.protective.get? symbol).getD [] with
  | nil => rfl
  | cons ref refs ih =>
    cases ho : d.heap[ref]? with
    | none => simpa [ho] using ih
    | some o =>
      rw [List.map_cons, List.sum_cons, ← ih]
      cases hw : (!o.isComplete && decide (o.side = closing)) <;> simp [ho, working, hw]

theorem covering_append (a b : List Ref) : covering heap closing (a ++ b) = covering heap closing a + covering heap closing b := by
  simp [covering]

/-- New objects move nothing that refers to the old ones. -/
theorem covering_extend {refs : List Ref} (h : ∀ ref ∈ refs, ref < heap.length) (l : List Order) :
    covering (heap ++ l) closing refs = covering heap closing refs := by
  unfold covering
  congr 1
  refine List.map_congr_left fun ref hr => ?_
  rw [List.getElem?_append_left (h ref hr)]

/-- References to what covers nothing may go. -/
theorem covering_filter {refs : List Ref} {f : Ref → Bool}
    (h : ∀ ref ∈ refs, f ref = false → (heap[ref]?).elim 0 (working closing) = 0) :
    covering heap closing (refs.filter f) = covering heap closing refs := by
  unfold covering
  induction refs with
  | nil => rfl
  | cons ref refs ih =>
    have ih := ih (fun ref' h' => h ref' (by simp [h']))
    cases hf : f ref with
    | true => rw [List.filter_cons_of_pos hf, List.map_cons, List.sum_cons, ih, List.map_cons, List.sum_cons]
    | false =>
      rw [List.filter_cons_of_neg (by simp [hf]), ih, List.map_cons, List.sum_cons, h ref (by simp) hf, zero_add]

/-- Every reference is to an object. -/
def Grounded (d : Desk β σ) : Prop := ∀ symbol, ∀ ref ∈ refsOf d symbol, ref < d.heap.length

/-! ## The stops of the other side -/

/-- Only what is behind the broker has moved. -/
def Rebrokered (d e : Desk β σ) : Prop := ∃ b, e = { d with broker := b }

theorem Rebrokered.broker {e : Desk β σ} (h : Rebrokered d e) (b : β) : Rebrokered d { e with broker := b } := by
  obtain ⟨b', rfl⟩ := h
  exact ⟨b, rfl⟩

theorem triple_cancelStale : ∀ (l : List (Ref × Order)) (gone : List Ref), Triple (Rebrokered d) (r.cancelStale l gone)
    (fun out e => Rebrokered d e ∧ ∀ ref ∈ out, ref ∈ gone ∨ ref ∈ l.map Prod.fst) (fun _ => Rebrokered d)
  | [], gone => triple_pure _ fun e h => ⟨h, fun ref hr => .inl hr⟩
  | (ref, child) :: rest, gone => by
    unfold OrderRouter.cancelStale
    have hskip : Triple (Rebrokered d) (r.cancelStale rest gone)
        (fun out e => Rebrokered d e ∧ ∀ ref' ∈ out, ref' ∈ gone ∨ ref' ∈ ((ref, child) :: rest).map Prod.fst)
        (fun _ => Rebrokered d) := by
      refine triple_conseq (triple_cancelStale rest gone) (fun _ h => h) (fun out e h => ⟨h.1, fun ref' hr => ?_⟩)
        (fun _ _ h => h)
      exact (h.2 ref' hr).imp_right (fun hm => by simp [hm])
    split
    · exact hskip
    · refine triple_bind (r.keeps_cancelled (fun e b h => h.broker b) _) fun c => triple_ite (fun _ => ?_) (fun _ => hskip)
      refine triple_conseq (triple_cancelStale rest (gone ++ [ref])) (fun _ h => h)
        (fun out e h => ⟨h.1, fun ref' hr => ?_⟩) (fun _ _ h => h)
      rcases h.2 ref' hr with hg | hm
      · rcases List.mem_append.1 hg with hg | hg
        · exact .inl hg
        · exact .inr (by simp_all)
      · exact .inr (by simp [hm])

/-- **Sweeping the stops of the other side leaves what closes alone.** -/
structure Swept (d : Desk β σ) (symbol : String) (closing : Side) (e : Desk β σ) : Prop where
  rest : ∃ b p, e = { d with broker := b, protective := p }
  covering : covering e.heap closing (refsOf e symbol) = covering d.heap closing (refsOf d symbol)
  others : ∀ s, s ≠ symbol → refsOf e s = refsOf d s
  fewer : ∀ s, ∀ ref ∈ refsOf e s, ref ∈ refsOf d s

theorem Rebrokered.swept {e : Desk β σ} (h : Rebrokered d e) (symbol : String) (closing : Side) : Swept d symbol closing e := by
  obtain ⟨b, rfl⟩ := h
  exact ⟨⟨b, _, rfl⟩, rfl, fun _ _ => rfl, fun _ _ h => h⟩

theorem Swept.grounded {e : Desk β σ} {symbol : String} (h : Swept d symbol closing e) (hd : Grounded d) : Grounded e := by
  obtain ⟨b, children, he⟩ := h.rest
  intro s ref hr
  have hlt := hd s ref (h.fewer s ref hr)
  rwa [he]

theorem triple_cancelStaleProtection (symbol : String) (closing : Side) :
    Triple (fun e => e = d) (r.cancelStaleProtection symbol closing) (fun _ => Swept d symbol closing)
      (fun _ => Swept d symbol closing) := by
  unfold OrderRouter.cancelStaleProtection
  refine triple_get_bind fun d₀ h₀ => ?_
  subst h₀
  let stale := (d₀.childRefs symbol).filter
    (fun c => !c.2.isComplete && decide (c.2.side ≠ closing) && c.2.brokerOrderId.isSome)
  refine triple_bind (R := fun out e => Rebrokered d₀ e ∧ ∀ ref ∈ out, ref ∈ stale.map Prod.fst)
    (triple_conseq (triple_cancelStale stale []) (fun e h => ⟨d₀.broker, h⟩) (fun out e h => ⟨h.1, fun ref hr => ?_⟩)
      (fun _ e h => h.swept symbol closing)) fun gone => triple_modify _ ?_
  · simpa using h.2 ref hr
  rintro e ⟨⟨b, rfl⟩, hgone⟩
  have hzero : ∀ ref ∈ refsOf d₀ symbol, (!gone.contains ref) = false → (d₀.heap[ref]?).elim 0 (working closing) = 0 := by
    intro ref hr hout
    have hmem : ref ∈ stale.map Prod.fst := hgone ref (by simpa using hout)
    obtain ⟨⟨ref', o⟩, hc, rfl⟩ := List.mem_map.1 hmem
    obtain ⟨hc, hside⟩ := List.mem_filter.1 hc
    obtain ⟨ref'', -, ho⟩ := List.mem_filterMap.1 hc
    obtain ⟨o', ho', heq⟩ := Option.map_eq_some_iff.1 ho
    cases heq
    simp only [ne_eq, Bool.and_eq_true, decide_eq_true_eq] at hside
    simp [ho', working, hside.1.2]
  cases hg : d₀.protective.get? symbol with
  | none => exact ⟨⟨b, _, rfl⟩, by simp [refsOf], fun s _ => by simp [refsOf], by simp [refsOf]⟩
  | some refs =>
    have hrefs : refsOf d₀ symbol = refs := by simp [refsOf, hg]
    have hother (s : String) (hs : s ≠ symbol) :
        ((d₀.protective.set symbol (refs.filter (fun ref => !gone.contains ref))).get? s).getD [] = refsOf d₀ s := by
      rw [Dict.get?_set_ne _ _ hs]
      rfl
    refine ⟨⟨b, _, rfl⟩, ?_, fun s hs => hother s hs, fun s ref hr => ?_⟩
    · simp only [refsOf, hg, Dict.get?_set_self, Option.getD_some]
      exact covering_filter (hrefs ▸ hzero)
    · unfold refsOf at hr
      by_cases hs : s = symbol
      · rw [hs] at hr ⊢
        rw [Dict.get?_set_self, Option.getD_some] at hr
        rw [hrefs]
        exact (List.mem_filter.1 hr).1
      · rwa [hother s hs] at hr

end Coverage
end Atp
