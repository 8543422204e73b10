import Mathlib.Data.List.Induction
import AlgoTrading.HaltRaces
/-!
# HaltLatch — what stands under a key after any sequence of engages

`engage` of `risk/killswitch.py` called again and again on one key that nobody clears.  An uncontended call is its three round
trips; the record that stands is in closed form in the calls that returned (`halt_latches`).
-/
namespace Atp
namespace HaltRaces

/-- A call, and what its clock reads. -/
abbrev Engaging := EngageCall × ℤ

/-- One round trip of a call that nothing else runs beside, or nothing once it is over. -/
def trip (e : Engaging) (s : Option HaltPayload × Phase) : Option HaltPayload × Phase := (advance e.1 e.2 s.1 0 s.2).getD s

variable (str : StrMethods)

/-- **`engage`**: its symbols are cleaned, or it raises, and it takes its round trips. -/
def engage (stored : Option HaltPayload) (e : Engaging) : Option HaltPayload × Except Exc Phase :=
  match cleanSymbols str e.1.symbols with
  | .error exc => (stored, .error exc)
  | .ok symbols =>
    let e' : Engaging := ({ e.1 with symbols := symbols }, e.2)
    let s := trip e' (trip e' (trip e' (stored, .setting 0)))
    (s.1, .ok s.2)

/-- What is stored after the calls, from a key that holds nothing. -/
def engageAll (calls : List Engaging) : Option HaltPayload := calls.foldl (fun stored e => (engage str stored e).1) none

/-- A call with its symbols cleaned, if they can be. -/
def cleaned (e : Engaging) : Option Engaging :=
  (cleanSymbols str e.1.symbols).toOption.map fun symbols => ({ e.1 with symbols := symbols }, e.2)

/-- The calls that return. -/
def returning (calls : List Engaging) : List Engaging := calls.filterMap (cleaned str)

/-- **The record that stands**: when and by whom trading stopped, and what for, are the first call's; what is unproven is
every call's; and it was escalated by the first call that brought evidence, if the first of all brought none. -/
structure Stands (first : Engaging) (rest : List Engaging) (r : HaltRecord) : Prop where
  engaged : r.engagedAt = first.2 ∧ r.engagedBy = first.1.engagedBy ∧ r.detail = first.1.detail
  reason : (r.escalation = none → r.reason = first.1.reason) ∧ ∀ e, r.escalation = some e → e.fromReason = first.1.reason
  unproven : ∀ x, x ∈ r.unprovenSymbols ↔ ∃ e ∈ first :: rest, x ∈ e.1.symbols
  escalation : r.escalation =
    if first.1.symbols = [] then
      (rest.find? fun e => e.1.symbols ≠ []).map fun e => ⟨first.1.reason, e.2, e.1.engagedBy, e.1.detail⟩
    else none
  impugned : r.impugned = [] ↔ ∀ e ∈ first :: rest, e.1.symbols = []

variable {str} {first e : Engaging} {rest calls : List Engaging} {r : HaltRecord} {stored : Option HaltPayload}

theorem freshOf_record (r : HaltRecord) (e : Engaging) : freshOf r (e.1.record e.2) =
    if e.1.symbols.all (r.unprovenSymbols.contains ·) then []
    else [⟨e.1.symbols, e.1.reason, e.2, e.1.engagedBy, e.1.detail⟩] := by
  unfold freshOf EngageCall.record
  cases hs : e.1.symbols with
  | nil => simp
  | cons x l =>
    rw [List.isEmpty_cons, if_neg Bool.false_ne_true, List.filter_cons, List.filter_nil]
    by_cases hall : (x :: l).all (r.unprovenSymbols.contains ·) = true
    · rw [if_pos hall, if_neg (by rw [hall]; decide)]
    · rw [if_neg hall, if_pos (by rw [Bool.not_eq_true] at hall; rw [hall]; rfl)]

/-- Evidence that is fresh is not all known. -/
theorem fresh_iff : freshOf r (e.1.record e.2) = [] ↔ ∀ x ∈ e.1.symbols, x ∈ r.unprovenSymbols := by
  rw [freshOf_record]
  split
  · rename_i hall
    exact ⟨fun _ x hx => by simpa using List.all_eq_true.1 hall x hx, fun _ => rfl⟩
  · rename_i hall
    refine ⟨fun h => (by cases h), fun h => absurd (List.all_eq_true.2 fun x hx => by simpa using h x hx) hall⟩

theorem stands_record (first : Engaging) : Stands first [] (first.1.record first.2) where
  engaged := ⟨rfl, rfl, rfl⟩
  reason := ⟨fun _ => rfl, fun _ h => by cases h⟩
  unproven x := by simp
  escalation := by
    rw [List.find?_nil, Option.map_none, ite_self]
    rfl
  impugned := by
    unfold EngageCall.record
    cases hs : first.1.symbols <;> simp [hs]

/-- No evidence among the calls, none in the record. -/
theorem Stands.unproven_nil (h : Stands first rest r) (hnone : r.impugned = []) : ∀ x, x ∉ r.unprovenSymbols := by
  intro x hx
  obtain ⟨e, he, hxe⟩ := (h.unproven x).1 hx
  rw [h.impugned.1 hnone e he] at hxe
  cases hxe

theorem find?_concat (h : ∃ d ∈ rest, d.1.symbols ≠ []) (e : Engaging) :
    (rest ++ [e]).find? (fun d => decide (d.1.symbols ≠ [])) = rest.find? fun d => decide (d.1.symbols ≠ []) := by
  obtain ⟨d, hd, hne⟩ := h
  rw [List.find?_append]
  cases hfound : rest.find? (fun d => decide (d.1.symbols ≠ [])) with
  | none => exact absurd (decide_eq_true hne) (List.find?_eq_none.1 hfound d hd)
  | some d' => rfl

/-- **A merge leaves the record that stands.** -/
theorem Stands.merge (h : Stands first rest r) (e : Engaging) : Stands first (rest ++ [e]) (Atp.merge r (e.1.record e.2)) := by
  have hmem (p : Engaging → Prop) : (∃ d ∈ first :: (rest ++ [e]), p d) ↔ (∃ d ∈ first :: rest, p d) ∨ p e := by
    rw [← List.cons_append]
    simp only [List.mem_append, List.mem_singleton, or_and_right, exists_or, exists_eq_left]
  have hnone : (∀ d ∈ first :: (rest ++ [e]), d.1.symbols = []) ↔ (∀ d ∈ first :: rest, d.1.symbols = []) ∧ e.1.symbols = [] := by
    rw [← List.cons_append]
    simp only [List.mem_append, List.mem_singleton, or_imp, forall_and, forall_eq]
  rcases merge_cases r (e.1.record e.2) with ⟨hfresh, hm⟩ | ⟨hfresh, hsome, hm⟩ | ⟨hfresh, hempty, hm⟩ <;> rw [hm]
  · -- nothing it names is new
    have hknown := fresh_iff.1 hfresh
    refine ⟨h.engaged, h.reason, fun x => ?_, ?_, ?_⟩
    · rw [h.unproven x, hmem fun d => x ∈ d.1.symbols]
      exact ⟨.inl, fun hx => hx.elim id fun hx => (h.unproven x).1 (hknown x hx)⟩
    · rw [h.escalation]
      split
      · rename_i hfirst
        by_cases hev : ∃ d ∈ rest, d.1.symbols ≠ []
        · rw [find?_concat hev]
        · have hquiet : ∀ d ∈ first :: rest, d.1.symbols = [] := by
            rintro d hd
            rcases List.mem_cons.1 hd with rfl | hd
            · exact hfirst
            · by_contra hne
              exact hev ⟨d, hd, hne⟩
          have he : e.1.symbols = [] := by
            by_contra hne
            obtain ⟨x, hx⟩ := List.exists_mem_of_ne_nil _ hne
            exact h.unproven_nil (h.impugned.2 hquiet) x (hknown x hx)
          rw [List.find?_append, List.find?_cons_of_neg (by simp [he]), List.find?_nil, Option.or_none]
      · rfl
    · rw [h.impugned, hnone]
      refine ⟨fun hquiet => ⟨hquiet, ?_⟩, And.left⟩
      by_contra hne
      obtain ⟨x, hx⟩ := List.exists_mem_of_ne_nil _ hne
      exact h.unproven_nil (h.impugned.2 hquiet) x (hknown x hx)
  all_goals
    have hnew : freshOf r (e.1.record e.2) = [⟨e.1.symbols, e.1.reason, e.2, e.1.engagedBy, e.1.detail⟩] := by
      rw [freshOf_record] at hfresh ⊢
      split at hfresh
      · exact absurd rfl hfresh
      · rename_i hall
        rw [if_neg hall]
    have hev : e.1.symbols ≠ [] := by
      intro hnil
      exact hfresh (fresh_iff.2 fun x hx => by rw [hnil] at hx; cases hx)
  · -- a second incident: what it names is appended
    have hbefore : ¬ ∀ d ∈ first :: rest, d.1.symbols = [] := fun hquiet => hsome (h.impugned.2 hquiet)
    refine ⟨h.engaged, h.reason, fun x => ?_, ?_, ?_⟩
    · rw [mem_unproven, hmem fun d => x ∈ d.1.symbols, ← h.unproven x, mem_unproven]
      simp only [hnew, List.mem_append, List.mem_singleton, or_and_right, exists_or, exists_eq_left]
    · show r.escalation = _
      rw [h.escalation]
      split
      · rename_i hfirst
        rw [find?_concat]
        by_contra hno
        refine hbefore fun d hd => ?_
        rcases List.mem_cons.1 hd with rfl | hd
        · exact hfirst
        · by_contra hne
          exact hno ⟨d, hd, hne⟩
      · rfl
    · rw [hnone]
      exact ⟨fun hnil => absurd (List.append_eq_nil_iff.1 hnil).1 hsome, fun hquiet => absurd hquiet.1 hbefore⟩
  · -- the first evidence at a halt that had none
    have hquiet := h.impugned.1 hempty
    have hfirst : first.1.symbols = [] := hquiet first List.mem_cons_self
    have hunfound : rest.find? (fun d => decide (d.1.symbols ≠ [])) = none :=
      List.find?_eq_none.2 fun d hd => by simpa using hquiet d (List.mem_cons_of_mem _ hd)
    have hflat : r.escalation = none := by rw [h.escalation, if_pos hfirst, hunfound]; rfl
    have hfrom : r.reason = first.1.reason := h.reason.1 hflat
    refine ⟨h.engaged, ⟨fun hne => (by cases hne), fun d hd => ?_⟩, fun x => ?_, ?_, ?_⟩
    · rw [← Option.some.inj hd]
      exact hfrom
    · rw [mem_unproven, hmem fun d => x ∈ d.1.symbols, ← h.unproven x]
      simp only [hnew, List.mem_singleton, exists_eq_left]
      exact ⟨.inr, fun hx => hx.resolve_left (h.unproven_nil hempty x)⟩
    · show some _ = _
      rw [if_pos hfirst, List.find?_append, hunfound, List.find?_cons_of_pos (by simpa using hev), hfrom]
      rfl
    · rw [hnone]
      exact ⟨fun hnil => absurd hnil hfresh, fun hq => absurd hq.2 hev⟩

/-! ## The calls -/

theorem engage_raised (h : cleaned str e = none) :
    (engage str stored e).1 = stored ∧ ∀ phase, (engage str stored e).2 ≠ .ok phase := by
  unfold cleaned at h
  unfold engage
  cases hclean : cleanSymbols str e.1.symbols with
  | error exc => exact ⟨rfl, fun _ h => by cases h⟩
  | ok symbols =>
    rw [hclean] at h
    cases h

theorem engage_cleaned {e' : Engaging} (h : cleaned str e = some e') : engage str stored e =
    ((trip e' (trip e' (trip e' (stored, .setting 0)))).1, .ok (trip e' (trip e' (trip e' (stored, .setting 0)))).2) := by
  unfold cleaned at h
  unfold engage
  cases hclean : cleanSymbols str e.1.symbols with
  | error exc =>
    rw [hclean] at h
    cases h
  | ok symbols =>
    rw [hclean] at h
    obtain rfl : _ = e' := Option.some.inj h
    rfl

/-- The first call writes its record. -/
theorem engage_first {e' : Engaging} (h : cleaned str e = some e') : (engage str none e).1 = some (e'.1.record e'.2).encode := by
  rw [engage_cleaned h]
  rfl

/-- **A call on a standing halt writes the merge, or finds that there is nothing to merge.** -/
theorem engage_standing {e' : Engaging} (h : cleaned str e = some e') (r : HaltRecord) :
    engage str (some r.encode) e =
      if merge r (e'.1.record e'.2) = r then (some r.encode, .ok (.found r 0))
      else (some (merge r (e'.1.record e'.2)).encode, .ok (.wrote (merge r (e'.1.record e'.2)) 0)) := by
  rw [engage_cleaned h]
  by_cases hsame : merge r (e'.1.record e'.2) = r
  · rw [if_pos hsame]
    simp [trip, advance, hsame]
  · rw [if_neg hsame]
    simp [trip, advance, hsame]

theorem engage_stored {e' : Engaging} (h : cleaned str e = some e') (r : HaltRecord) :
    (engage str (some r.encode) e).1 = some (merge r (e'.1.record e'.2)).encode := by
  rw [engage_standing h]
  split
  · rename_i hsame
    rw [hsame]
  · rfl

theorem engageAll_concat (calls : List Engaging) (e : Engaging) :
    engageAll str (calls ++ [e]) = (engage str (engageAll str calls) e).1 := by
  unfold engageAll
  rw [List.foldl_append]
  rfl

theorem engageAll_stands (calls : List Engaging) :
    (returning str calls = [] ∧ engageAll str calls = none) ∨
      ∃ first rest r, returning str calls = first :: rest ∧ engageAll str calls = some r.encode ∧ Stands first rest r := by
  induction calls using List.reverseRecOn with
  | nil => exact .inl ⟨rfl, rfl⟩
  | append_singleton calls e ih =>
    have hreturning : returning str (calls ++ [e]) = returning str calls ++ (cleaned str e).toList := by
      unfold returning
      rw [List.filterMap_append]
      cases h : cleaned str e <;> simp [h]
    rw [hreturning, engageAll_concat]
    cases hclean : cleaned str e with
    | none =>
      rw [(engage_raised hclean).1, Option.toList_none, List.append_nil]
      exact ih
    | some e' =>
      rw [Option.toList_some]
      rcases ih with ⟨hnil, hnone⟩ | ⟨first, rest, r, hcons, hstored, hstands⟩
      · rw [hnone, hnil, engage_first hclean]
        exact .inr ⟨e', [], _, rfl, rfl, stands_record e'⟩
      · rw [hstored, hcons, engage_stored hclean]
        exact .inr ⟨first, rest ++ [e'], _, rfl, rfl, hstands.merge e'⟩

/-- **A halt latches.**  After any calls the record stored is the one that stands for the calls that returned; and a call that
names no symbol beyond the standing set leaves what is stored as it is, and returns it. -/
theorem halt_latches (str : StrMethods) (calls : List Engaging) :
    (returning str calls = [] → engageAll str calls = none) ∧
      (∀ first rest, returning str calls = first :: rest → ∃ r, engageAll str calls = some r.encode ∧ Stands first rest r) ∧
      ∀ (r : HaltRecord) (e : Engaging), engageAll str calls = some r.encode →
        (∀ e', cleaned str e = some e' → ∀ x ∈ e'.1.symbols, x ∈ r.unprovenSymbols) →
          (engage str (engageAll str calls) e).1 = engageAll str calls ∧
            ∀ phase, (engage str (engageAll str calls) e).2 = .ok phase → phase = .found r 0 := by
  refine ⟨fun hnil => ?_, fun first rest hcons => ?_, fun r e hstored hknown => ?_⟩
  · rcases engageAll_stands calls with ⟨-, hnone⟩ | ⟨first, rest, r, hcons, -⟩
    · exact hnone
    · rw [hnil] at hcons
      cases hcons
  · rcases engageAll_stands calls with ⟨hnil, -⟩ | ⟨first', rest', r, hcons', hstored, hstands⟩
    · rw [hnil] at hcons
      cases hcons
    · obtain ⟨rfl, rfl⟩ := List.cons.inj (hcons.symm.trans hcons')
      exact ⟨r, hstored, hstands⟩
  · rw [hstored]
    cases hclean : cleaned str e with
    | none => exact ⟨(engage_raised hclean).1, fun phase h => absurd h ((engage_raised hclean).2 phase)⟩
    | some e' =>
      have hsame : merge r (e'.1.record e'.2) = r := by
        rcases merge_cases r (e'.1.record e'.2) with ⟨-, hm⟩ | ⟨hfresh, -⟩ | ⟨hfresh, -⟩
        · exact hm
        · exact absurd (fresh_iff.2 (hknown e' hclean)) hfresh
        · exact absurd (fresh_iff.2 (hknown e' hclean)) hfresh
      rw [engage_standing hclean, if_pos hsame]
      exact ⟨rfl, fun phase h => (Except.ok.inj h).symm⟩

/-- A halt by hand is escalated by the reconciler, and the feed's changes nothing more. -/
theorem halt_latches_raised : Stands (byHand, 10) [(byReconciler, 20), (byFeed, 30)] raisedHalt := by
  have hreturning : returning .ascii [(byHand, 10), (byReconciler, 20), (byFeed, 30)] =
      (byHand, 10) :: [(byReconciler, 20), (byFeed, 30)] := by decide +kernel
  obtain ⟨r, hstored, hstands⟩ := (halt_latches .ascii [(byHand, 10), (byReconciler, 20), (byFeed, 30)]).2.1 _ _ hreturning
  have hraised : engageAll .ascii [(byHand, 10), (byReconciler, 20), (byFeed, 30)] = some raisedHalt.encode := by decide +kernel
  obtain rfl : r = raisedHalt := encode_injective (Option.some.inj (hstored.symm.trans hraised))
  exact hstands

end HaltRaces
end Atp
