import AlgoTrading.JsonValues
/-!
# Documents — JSON objects by the names of their fields

A document is its fields less the ones a writer of its age did not know.  What a reader finds under a name, and that a document of
values JSON carries is one itself (`Stored.document`), so that its text loads as it was.
-/
namespace JsonValues

/-- A document: its fields, without those that are left out. -/
def document (leftOut : String → Bool) (fields : List (String × Value)) : Value :=
  .dict ((fields.filter fun f => !leftOut f.1).map fun f => (.str f.1, f.2))

/-- `v[name]`; `none` where it raises. -/
def item (v : Value) (name : String) : Option Value :=
  match v with
  | .dict fields => fieldAt (.str name) fields
  | _ => Option.none

/-- `v.get(name, default)`; `none` where it raises. -/
def getOr (v : Value) (name : String) (default : Value) : Option Value :=
  match v with
  | .dict fields => some ((fieldAt (.str name) fields).getD default)
  | _ => Option.none

/-- What `for x in v` goes through; `none` where it raises. -/
def iter : Value → Option (List Value)
  | .list items => some items
  | .tuple items => some items
  | .str s => some (s.toList.map fun c => .str (String.ofList [c]))
  | .dict fields => some (fields.map fun f => match f.1 with
    | .str s => .str s
    | _ => .none)
  | _ => Option.none

variable {leftOut : String → Bool} {name : String} {v : Value}

theorem fieldAt_document (leftOut : String → Bool) (name : String) : ∀ fields : List (String × Value),
    fieldAt (.str name) ((fields.filter fun f => !leftOut f.1).map fun f => (Key.str f.1, f.2)) =
      if leftOut name then Option.none else fields.lookup name
  | [] => by
    rw [List.lookup_nil, ite_self]
    rfl
  | (n, v) :: l => by
    have ih := fieldAt_document leftOut name l
    have heq : (Key.str n).eqv (.str name) = decide (n = name) := by
      rw [Bool.eq_iff_iff, eqv_str, decide_eq_true_eq, Key.str.injEq]
    rw [List.filter_cons, List.lookup_cons]
    cases hout : leftOut n with
    | true =>
      rw [if_neg (by simp), ih]
      by_cases hname : name = n
      · rw [hname, hout, if_pos rfl, if_pos rfl]
      · rw [beq_false_of_ne hname]
    | false =>
      rw [if_pos (by simp), List.map_cons, fieldAt, heq]
      by_cases hname : n = name
      · subst hname
        simp [hout]
      · rw [if_neg (by simpa using hname), ih, beq_false_of_ne (Ne.symm hname)]

theorem item_document (leftOut : String → Bool) (fields : List (String × Value)) (name : String) :
    item (document leftOut fields) name = if leftOut name then Option.none else fields.lookup name :=
  fieldAt_document leftOut name fields

theorem getOr_document (leftOut : String → Bool) (fields : List (String × Value)) (name : String) (default : Value) :
    getOr (document leftOut fields) name default =
      some ((if leftOut name then Option.none else fields.lookup name).getD default) := by
  rw [← fieldAt_document]
  rfl

/-- **A value JSON carries**: its text can be written, and loads as the value. -/
structure Stored (v : Value) : Prop where
  plain : plain v = true
  distinct : distinct v = true
  dumps : ∃ d, dumps v = .ok d

/-- What is stored loads. -/
theorem Stored.loads (h : Stored v) : ∃ d, JsonValues.dumps v = .ok d ∧ d.wellFormed = true ∧ JsonValues.loads d = v := by
  obtain ⟨d, hd⟩ := h.dumps
  exact ⟨d, hd, loads_dumps v d h.plain h.distinct hd⟩

theorem Stored.str (s : String) : Stored (.str s) := ⟨rfl, rfl, _, rfl⟩

theorem Stored.none : Stored .none := ⟨rfl, rfl, _, rfl⟩

theorem Stored.bool (b : Bool) : Stored (.bool b) := ⟨rfl, rfl, _, rfl⟩

theorem Stored.int {n : ℤ} (h : n.natAbs < 10 ^ 4300) : Stored (.int n) := by
  refine ⟨rfl, rfl, .int n, ?_⟩
  unfold JsonValues.dumps intText
  rw [if_pos h]
  rfl

theorem Stored.list {l : List Value} (h : ∀ v ∈ l, Stored v) : Stored (.list l) where
  plain := plainItems_iff.2 fun v hv => (h v hv).plain
  distinct := distinctItems_iff.2 fun v hv => (h v hv).distinct
  dumps := by
    have hitems : ∃ ds, dumpsItems l = .ok ds := by
      induction l with
      | nil => exact ⟨[], rfl⟩
      | cons v l ih =>
        obtain ⟨d, hd⟩ := (h v List.mem_cons_self).dumps
        obtain ⟨ds, hds⟩ := ih fun w hw => h w (List.mem_cons_of_mem _ hw)
        refine ⟨d :: ds, ?_⟩
        rw [dumpsItems, hd, hds]
        rfl
    obtain ⟨ds, hds⟩ := hitems
    refine ⟨.list ds, ?_⟩
    rw [JsonValues.dumps, hds]
    rfl

/-- **A document of stored values is one.** -/
theorem Stored.document (leftOut : String → Bool) {fields : List (String × Value)} (hnames : (fields.map Prod.fst).Nodup)
    (h : ∀ f ∈ fields, Stored f.2) : Stored (document leftOut fields) := by
  have hkept : ∀ l : List (String × Value), (l.map Prod.fst).Nodup → (∀ f ∈ l, Stored f.2) →
      plainFields (l.map fun f => (Key.str f.1, f.2)) = true ∧ distinctFields (l.map fun f => (Key.str f.1, f.2)) = true ∧
        ∃ ds, dumpsFields (l.map fun f => (Key.str f.1, f.2)) = .ok ds := by
    intro l
    induction l with
    | nil => exact fun _ _ => ⟨rfl, rfl, [], rfl⟩
    | cons f l ih =>
      intro hnodup hall
      obtain ⟨hfresh, hnodup⟩ := List.nodup_cons.1 hnodup
      obtain ⟨hplain, hdistinct, ds, hds⟩ := ih hnodup fun g hg => hall g (List.mem_cons_of_mem _ hg)
      have hf := hall f List.mem_cons_self
      obtain ⟨d, hd⟩ := hf.dumps
      have hnone : fieldAt (.str f.1) (l.map fun f => (Key.str f.1, f.2)) = Option.none := by
        cases hat : fieldAt (.str f.1) (l.map fun f => (Key.str f.1, f.2)) with
        | none => rfl
        | some w =>
          obtain ⟨g, hg, heq⟩ := List.mem_map.1 (fieldAt_str_mem hat)
          have hname : g.1 = f.1 := Key.str.inj (congrArg Prod.fst heq)
          exact absurd (hname ▸ List.mem_map_of_mem hg) hfresh
      refine ⟨?_, ?_, (f.1, d) :: ds, ?_⟩
      · rw [List.map_cons, plainFields, hf.plain, hplain]
        rfl
      · rw [List.map_cons, distinctFields, hnone, hf.distinct, hdistinct]
        rfl
      · rw [List.map_cons, dumpsFields, hd, hds]
        rfl
  obtain ⟨hplain, hdistinct, ds, hds⟩ := hkept (fields.filter fun f => !leftOut f.1)
    (hnames.sublist (List.filter_sublist.map _)) fun f hf => h f (List.mem_of_mem_filter hf)
  refine ⟨hplain, hdistinct, .object ds, ?_⟩
  unfold JsonValues.document
  rw [JsonValues.dumps, hds]
  rfl

end JsonValues
