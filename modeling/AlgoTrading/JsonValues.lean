import Mathlib.Data.List.Nodup
import Mathlib.Data.Rat.Defs
import Mathlib.Tactic.Common
import AlgoTrading.Dict
/-!
# JsonValues — Python values, the JSON text they are dumped to, and what loading it returns

`json.dumps` writes more than JSON can carry back: a tuple becomes a list, a key that is not a string becomes one, and a
float that is not a number becomes a token that is not JSON.  A value that holds none of these is `plain`, and these are the
values that survive: `loads_dumps` and `plain_of_eqv` are the two directions.
-/
namespace JsonValues

open Atp (Dict)

/-- A float, by the number it is and the text `repr` writes for it, which reads back as the same number. -/
inductive PyFloat
  | finite (value : ℚ) (repr : String)
  | infinity (negative : Bool)
  | nan
deriving DecidableEq

/-- The keys `json.dumps` knows, and any other. -/
inductive Key
  | str (s : String)
  | int (n : ℤ)
  | bool (b : Bool)
  | float (x : PyFloat)
  | none
  | other (typeName : String)
deriving DecidableEq

inductive Value
  | none
  | bool (b : Bool)
  | int (n : ℤ)
  | float (x : PyFloat)
  | str (s : String)
  | list (items : List Value)
  | tuple (items : List Value)
  | dict (fields : List (Key × Value))
  | object (typeName : String)

/-- JSON as it is written. -/
inductive Doc
  | null
  | bool (b : Bool)
  | int (n : ℤ)
  | float (x : PyFloat)
  | str (s : String)
  | list (items : List Doc)
  | object (fields : List (String × Doc))

/-! ## Dumping -/

def PyFloat.text : PyFloat → String
  | .finite _ repr => repr
  | .infinity false => "Infinity"
  | .infinity true => "-Infinity"
  | .nan => "NaN"

/-- An integer's digits, unless they are more than the interpreter converts. -/
def intText (n : ℤ) : Except String String :=
  if n.natAbs < 10 ^ 4300 then .ok (toString n)
  else .error "Exceeds the limit (4300 digits) for integer string conversion; use sys.set_int_max_str_digits() to increase the limit"

/-- The string a key is written as. -/
def Key.text : Key → Except String String
  | .str s => .ok s
  | .int n => intText n
  | .bool b => .ok (if b then "true" else "false")
  | .float x => .ok x.text
  | .none => .ok "null"
  | .other typeName => .error ("keys must be str, int, float, bool or None, not " ++ typeName)

mutual

/-- **`json.dumps`**. -/
def dumps : Value → Except String Doc
  | .none => .ok .null
  | .bool b => .ok (.bool b)
  | .int n => do
    let _ ← intText n
    return .int n
  | .float x => .ok (.float x)
  | .str s => .ok (.str s)
  | .list items => return .list (← dumpsItems items)
  | .tuple items => return .list (← dumpsItems items)
  | .dict fields => return .object (← dumpsFields fields)
  | .object typeName => .error ("Object of type " ++ typeName ++ " is not JSON serializable")

def dumpsItems : List Value → Except String (List Doc)
  | [] => .ok []
  | v :: l => do
    let d ← dumps v
    let ds ← dumpsItems l
    return d :: ds

def dumpsFields : List (Key × Value) → Except String (List (String × Doc))
  | [] => .ok []
  | (k, v) :: l => do
    let text ← k.text
    let d ← dumps v
    let ds ← dumpsFields l
    return (text, d) :: ds

end

/-! ## Loading -/

mutual

/-- `json.loads`: a name that comes twice keeps its last value. -/
def loads : Doc → Value
  | .null => .none
  | .bool b => .bool b
  | .int n => .int n
  | .float x => .float x
  | .str s => .str s
  | .list items => .list (loadsItems items)
  | .object fields => .dict (loadsFields fields [])

def loadsItems : List Doc → List Value
  | [] => []
  | d :: l => loads d :: loadsItems l

def loadsFields : List (String × Doc) → List (Key × Value) → List (Key × Value)
  | [], acc => acc
  | (name, d) :: l, acc => loadsFields l (Dict.upsert (.str name) (loads d) acc)

end

mutual

/-- Nothing in the document is a token JSON does not have. -/
def Doc.wellFormed : Doc → Bool
  | .float (.finite _ _) => true
  | .float _ => false
  | .list items => wellFormedItems items
  | .object fields => wellFormedFields fields
  | _ => true

def wellFormedItems : List Doc → Bool
  | [] => true
  | d :: l => d.wellFormed && wellFormedItems l

def wellFormedFields : List (String × Doc) → Bool
  | [] => true
  | (_, d) :: l => d.wellFormed && wellFormedFields l

end

/-! ## Equality -/

def PyFloat.number? : PyFloat → Option ℚ
  | .finite x _ => some x
  | _ => Option.none

def Key.number? : Key → Option ℚ
  | .bool b => some (if b then 1 else 0)
  | .int n => some n
  | .float x => x.number?
  | _ => Option.none

/-- Two keys a dictionary holds as one. -/
def Key.eqv : Key → Key → Bool
  | .str s, .str t => s == t
  | .none, .none => true
  | .float (.infinity s), .float (.infinity t) => s == t
  | k, l => k.number?.isSome && k.number? == l.number?

def Value.number? : Value → Option ℚ
  | .bool b => some (if b then 1 else 0)
  | .int n => some n
  | .float x => x.number?
  | _ => Option.none

/-- The value a dictionary has at a key. -/
def fieldAt (k : Key) : List (Key × Value) → Option Value
  | [] => Option.none
  | f :: l => if f.1.eqv k then some f.2 else fieldAt k l

mutual

/-- `==`: sequences item by item, dictionaries key by key in any order. -/
def eqv : Value → Value → Bool
  | .none, .none => true
  | .str s, .str t => s == t
  | .list xs, .list ys => eqvItems xs ys
  | .tuple xs, .tuple ys => eqvItems xs ys
  | .dict fs, .dict gs => fs.length == gs.length && eqvFields fs gs
  | .float (.infinity s), .float (.infinity t) => s == t
  | v, w => v.number?.isSome && v.number? == w.number?

def eqvItems : List Value → List Value → Bool
  | [], [] => true
  | v :: l, w :: m => eqv v w && eqvItems l m
  | _, _ => false

def eqvFields : List (Key × Value) → List (Key × Value) → Bool
  | [], _ => true
  | (k, v) :: l, gs => (match fieldAt k gs with
    | some w => eqv v w
    | Option.none => false) && eqvFields l gs

end

/-! ## What survives -/

mutual

/-- No dictionary inside holds a key twice. -/
def distinct : Value → Bool
  | .list items => distinctItems items
  | .tuple items => distinctItems items
  | .dict fields => distinctFields fields
  | _ => true

def distinctItems : List Value → Bool
  | [] => true
  | v :: l => distinct v && distinctItems l

def distinctFields : List (Key × Value) → Bool
  | [] => true
  | (k, v) :: l => (fieldAt k l).isNone && distinct v && distinctFields l

end

def Key.isStr : Key → Bool
  | .str _ => true
  | _ => false

mutual

/-- Finite numbers, strings, lists, and dictionaries keyed by strings. -/
def plain : Value → Bool
  | .float x => x.number?.isSome
  | .list items => plainItems items
  | .dict fields => plainFields fields
  | .tuple _ => false
  | .object _ => false
  | _ => true

def plainItems : List Value → Bool
  | [] => true
  | v :: l => plain v && plainItems l

def plainFields : List (Key × Value) → Bool
  | [] => true
  | (k, v) :: l => k.isStr && plain v && plainFields l

end

/-- What holds of the parts holds of the whole: the induction over a value. -/
theorem Value.induct {P : Value → Prop} (leaf : ∀ v, (∀ l, v ≠ .list l) → (∀ l, v ≠ .tuple l) → (∀ l, v ≠ .dict l) → P v)
    (list : ∀ l, (∀ v ∈ l, P v) → P (.list l)) (tuple : ∀ l, (∀ v ∈ l, P v) → P (.tuple l))
    (dict : ∀ l, (∀ f ∈ l, P f.2) → P (.dict l)) : ∀ v, P v
  | .list l => list l fun v _ => Value.induct leaf list tuple dict v
  | .tuple l => tuple l fun v _ => Value.induct leaf list tuple dict v
  | .dict l => dict l fun f _ => Value.induct leaf list tuple dict f.2
  | .none | .bool _ | .int _ | .float _ | .str _ | .object _ => leaf _ nofun nofun nofun
termination_by v => sizeOf v
decreasing_by
  · have := List.sizeOf_lt_of_mem ‹_ ∈ _›
    simp only [Value.list.sizeOf_spec]
    omega
  · have := List.sizeOf_lt_of_mem ‹_ ∈ _›
    simp only [Value.tuple.sizeOf_spec]
    omega
  · have h₁ := List.sizeOf_lt_of_mem ‹_ ∈ _›
    have h₂ : sizeOf f = 1 + sizeOf f.1 + sizeOf f.2 := by cases f; rfl
    simp only [Value.dict.sizeOf_spec]
    omega

theorem distinctItems_iff {l : List Value} : distinctItems l = true ↔ ∀ v ∈ l, distinct v = true := by
  induction l with
  | nil => simp [distinctItems]
  | cons v l ih => simp [distinctItems, ih]

theorem distinctFields_mem {l : List (Key × Value)} (h : distinctFields l = true) : ∀ f ∈ l, distinct f.2 = true := by
  induction l with
  | nil => simp
  | cons f l ih =>
    simp only [distinctFields, Bool.and_eq_true] at h
    exact List.forall_mem_cons.2 ⟨h.1.2, ih h.2⟩

theorem plainItems_iff {l : List Value} : plainItems l = true ↔ ∀ v ∈ l, plain v = true := by
  induction l with
  | nil => simp [plainItems]
  | cons v l ih => simp [plainItems, ih]

theorem plainFields_iff {l : List (Key × Value)} :
    plainFields l = true ↔ ∀ f ∈ l, f.1.isStr = true ∧ plain f.2 = true := by
  induction l with
  | nil => simp [plainFields]
  | cons f l ih => simp [plainFields, ih]

theorem wellFormedItems_iff {l : List Doc} : wellFormedItems l = true ↔ ∀ d ∈ l, d.wellFormed = true := by
  induction l with
  | nil => simp [wellFormedItems]
  | cons d l ih => simp [wellFormedItems, ih]

theorem wellFormedFields_iff {l : List (String × Doc)} : wellFormedFields l = true ↔ ∀ f ∈ l, f.2.wellFormed = true := by
  induction l with
  | nil => simp [wellFormedFields]
  | cons f l ih => simp [wellFormedFields, ih]

theorem eqv_str {k : Key} {s : String} : k.eqv (.str s) = true ↔ k = .str s := by
  cases k <;> simp [Key.eqv, Key.number?, Option.isSome_iff_ne_none]

theorem fieldAt_str_mem {s : String} {w : Value} : ∀ {l : List (Key × Value)}, fieldAt (.str s) l = some w → (.str s, w) ∈ l
  | f :: l, h => by
    unfold fieldAt at h
    split at h
    · next hk =>
      cases h
      rw [← eqv_str.1 hk]
      exact List.mem_cons_self
    · exact List.mem_cons_of_mem _ (fieldAt_str_mem h)

/-- In a dictionary that holds each key once, a string key has its own value. -/
theorem fieldAt_of_mem {s : String} {v : Value} : ∀ {l : List (Key × Value)}, distinctFields l = true →
    (.str s, v) ∈ l → fieldAt (.str s) l = some v
  | f :: l, hd, h => by
    simp only [distinctFields, Bool.and_eq_true, Option.isNone_iff_eq_none] at hd
    unfold fieldAt
    rcases List.mem_cons.1 h with rfl | h
    · rw [if_pos (eqv_str.2 rfl)]
    · have hrest := fieldAt_of_mem hd.2 h
      rw [if_neg fun hk => ?_, hrest]
      rw [eqv_str.1 hk, hrest] at hd
      cases hd.1.1

/-! ### Through the text -/

theorem dumpsItems_forall₂ : ∀ {l : List Value} {ds : List Doc}, dumpsItems l = .ok ds →
    List.Forall₂ (fun v d => dumps v = .ok d) l ds
  | [], ds, h => by
    cases h
    exact .nil
  | v :: l, ds, h => by
    cases hd : dumps v with
    | error e => simp [dumpsItems, hd, bind, Except.bind] at h
    | ok d =>
      cases hr : dumpsItems l with
      | error e => simp [dumpsItems, hd, hr, bind, Except.bind] at h
      | ok rest =>
        simp only [dumpsItems, hd, hr, bind, Except.bind, pure, Except.pure, Except.ok.injEq] at h
        exact h ▸ .cons hd (dumpsItems_forall₂ hr)

/-- A field as it is written: its key's text and its value's. -/
def Written (f : Key × Value) (g : String × Doc) : Prop := f.1.text = .ok g.1 ∧ dumps f.2 = .ok g.2

theorem dumpsFields_forall₂ : ∀ {l : List (Key × Value)} {ds : List (String × Doc)}, dumpsFields l = .ok ds →
    List.Forall₂ Written l ds
  | [], ds, h => by
    cases h
    exact .nil
  | f :: l, ds, h => by
    cases ht : f.1.text with
    | error e => simp [dumpsFields, ht, bind, Except.bind] at h
    | ok text =>
      cases hd : dumps f.2 with
      | error e => simp [dumpsFields, ht, hd, bind, Except.bind] at h
      | ok d =>
        cases hr : dumpsFields l with
        | error e => simp [dumpsFields, ht, hd, hr, bind, Except.bind] at h
        | ok rest =>
          simp only [dumpsFields, ht, hd, hr, bind, Except.bind, pure, Except.pure, Except.ok.injEq] at h
          exact h ▸ .cons ⟨ht, hd⟩ (dumpsFields_forall₂ hr)

theorem dumps_list {l : List Value} {d : Doc} (h : dumps (.list l) = .ok d) : ∃ ds, dumpsItems l = .ok ds ∧ d = .list ds := by
  cases hl : dumpsItems l with
  | error e => simp [dumps, hl, bind, Except.bind] at h
  | ok ds => exact ⟨ds, rfl, by simpa [dumps, hl, bind, Except.bind, pure, Except.pure, eq_comm] using h⟩

theorem dumps_tuple {l : List Value} {d : Doc} (h : dumps (.tuple l) = .ok d) : ∃ ds, d = .list ds := by
  cases hl : dumpsItems l with
  | error e => simp [dumps, hl, bind, Except.bind] at h
  | ok ds => exact ⟨ds, by simpa [dumps, hl, bind, Except.bind, pure, Except.pure, eq_comm] using h⟩

theorem dumps_dict {l : List (Key × Value)} {d : Doc} (h : dumps (.dict l) = .ok d) :
    ∃ ds, dumpsFields l = .ok ds ∧ d = .object ds := by
  cases hl : dumpsFields l with
  | error e => simp [dumps, hl, bind, Except.bind] at h
  | ok ds => exact ⟨ds, rfl, by simpa [dumps, hl, bind, Except.bind, pure, Except.pure, eq_comm] using h⟩

theorem dumps_int {n : ℤ} {d : Doc} (h : dumps (.int n) = .ok d) : d = .int n := by
  cases ht : intText n with
  | error e => simp [dumps, ht, bind, Except.bind] at h
  | ok text => simpa [dumps, ht, bind, Except.bind, pure, Except.pure, eq_comm] using h

theorem upsert_fresh {α : Type} {k : Key} {v : α} : ∀ {l : List (Key × α)}, k ∉ l.map Prod.fst →
    Dict.upsert k v l = l ++ [(k, v)]
  | [], _ => rfl
  | f :: l, h => by
    simp only [List.map_cons, List.mem_cons, not_or] at h
    rw [Dict.upsert, if_neg (Ne.symm h.1), upsert_fresh h.2, List.cons_append]

/-- Fields whose names are new and distinct are loaded as they stand. -/
theorem loadsFields_fresh : ∀ (ds : List (String × Doc)) (acc : List (Key × Value)),
    (acc.map Prod.fst ++ ds.map fun f => Key.str f.1).Nodup →
      loadsFields ds acc = acc ++ ds.map fun f => (Key.str f.1, loads f.2)
  | [], acc, _ => by simp [loadsFields]
  | f :: l, acc, h => by
    have hf : Key.str f.1 ∉ acc.map Prod.fst := fun hm =>
      (List.nodup_append.1 h).2.2 _ hm _ List.mem_cons_self rfl
    rw [loadsFields, upsert_fresh hf, loadsFields_fresh l _ (by simpa using h)]
    simp

/-- Loading never makes a dictionary longer than its text, and where it is as long no name came twice. -/
theorem loadsFields_length : ∀ (ds : List (String × Doc)) (acc : List (Key × Value)), (acc.map Prod.fst).Nodup →
    (loadsFields ds acc).length ≤ acc.length + ds.length ∧
      ((loadsFields ds acc).length = acc.length + ds.length → (acc.map Prod.fst ++ ds.map fun f => Key.str f.1).Nodup)
  | [], acc, h => by simpa [loadsFields] using h
  | f :: l, acc, h => by
    have hkeys := Dict.upsert_keys (Key.str f.1) (loads f.2) acc
    have hlength := congrArg List.length hkeys
    rw [List.length_map] at hlength
    rw [loadsFields, List.length_cons]
    by_cases hf : Key.str f.1 ∈ acc.map Prod.fst
    · rw [if_pos hf] at hkeys hlength
      obtain ⟨hle, -⟩ := loadsFields_length l (Dict.upsert (.str f.1) (loads f.2) acc) (hkeys ▸ h)
      rw [List.length_map] at hlength
      exact ⟨by omega, fun heq => by omega⟩
    · rw [if_neg hf] at hkeys hlength
      obtain ⟨hle, hnodup⟩ := loadsFields_length l (Dict.upsert (.str f.1) (loads f.2) acc)
        (hkeys ▸ List.nodup_append.2 ⟨h, List.nodup_singleton _, by grind⟩)
      rw [List.length_append, List.length_map, List.length_singleton] at hlength
      refine ⟨by omega, fun heq => ?_⟩
      have := hnodup (by omega)
      rwa [hkeys, List.append_assoc] at this

theorem loadsItems_eq_map (l : List Doc) : loadsItems l = l.map loads := by
  induction l with
  | nil => rfl
  | cons d l ih => rw [loadsItems, ih, List.map_cons]

/-- String keys that are not held twice are distinct. -/
theorem distinctFields_nodup {l : List (Key × Value)} (h : distinctFields l = true) (hstr : ∀ f ∈ l, f.1.isStr = true) :
    (l.map Prod.fst).Nodup := by
  induction l with
  | nil => exact List.nodup_nil
  | cons f l ih =>
    rw [List.forall_mem_cons] at hstr
    simp only [distinctFields, Bool.and_eq_true, Option.isNone_iff_eq_none] at h
    refine List.nodup_cons.2 ⟨fun hm => ?_, ih h.2 hstr.2⟩
    obtain ⟨g, hg, hkey⟩ := List.mem_map.1 hm
    cases hs : f.1 with
    | str s =>
      rw [hs] at hkey h
      have hat := fieldAt_of_mem h.2 (show (Key.str s, g.2) ∈ l by rwa [← hkey])
      rw [hat] at h
      cases h.1.1
    | _ => simp [hs, Key.isStr] at hstr

theorem read_of_forall₂ {α β : Type} {Q : β → Prop} {f : β → α} {l : List α} {ds : List β}
    (h : List.Forall₂ (fun v d => Q d ∧ f d = v) l ds) : (∀ d ∈ ds, Q d) ∧ ds.map f = l := by
  induction h with
  | nil => exact ⟨by simp, rfl⟩
  | cons hd _ ih => exact ⟨List.forall_mem_cons.2 ⟨hd.1, ih.1⟩, by rw [List.map_cons, hd.2, ih.2]⟩

/-- A field under a string key is read back under its own name. -/
theorem field_read {f : Key × Value} {g : String × Doc} (ht : f.1.text = .ok g.1) (hs : f.1.isStr = true)
    (h : g.2.wellFormed = true ∧ loads g.2 = f.2) : g.2.wellFormed = true ∧ (Key.str g.1, loads g.2) = f := by
  obtain ⟨k, v⟩ := f
  cases k with
  | str s =>
    cases ht
    exact ⟨h.1, by rw [h.2]⟩
  | _ => cases hs

/-- **A plain value survives**: its text is JSON, and loading it returns the value. -/
theorem loads_dumps (v : Value) : ∀ d, plain v = true → distinct v = true → dumps v = .ok d →
    d.wellFormed = true ∧ loads d = v := by
  induction v using Value.induct with
  | leaf v hlist htuple hdict =>
    intro d hp _ hd
    cases v with
    | list l => exact absurd rfl (hlist l)
    | tuple l => exact absurd rfl (htuple l)
    | dict l => exact absurd rfl (hdict l)
    | int n =>
      cases dumps_int hd
      exact ⟨rfl, rfl⟩
    | float x =>
      cases hd
      cases x <;> first
        | exact ⟨rfl, rfl⟩
        | cases hp
    | object typeName => cases hp
    | _ =>
      cases hd
      exact ⟨rfl, rfl⟩
  | list l ih =>
    intro d hp hk hd
    obtain ⟨ds, hds, rfl⟩ := dumps_list hd
    rw [plain, plainItems_iff] at hp
    rw [distinct, distinctItems_iff] at hk
    have hall := (List.forall₂_and_left (p := (· ∈ l)) l ds).2 ⟨fun v hv => hv, dumpsItems_forall₂ hds⟩
    obtain ⟨hwf, hread⟩ := read_of_forall₂ (hall.imp fun v d h => ih v h.1 d (hp v h.1) (hk v h.1) h.2)
    exact ⟨wellFormedItems_iff.2 hwf, by rw [loads, loadsItems_eq_map, hread]⟩
  | tuple l ih =>
    intro d hp
    cases hp
  | dict l ih =>
    intro d hp hk hd
    obtain ⟨ds, hds, rfl⟩ := dumps_dict hd
    rw [plain, plainFields_iff] at hp
    have hkeys := distinctFields_nodup hk fun f hf => (hp f hf).1
    have hall := (List.forall₂_and_left (p := (· ∈ l)) l ds).2 ⟨fun f hf => hf, dumpsFields_forall₂ hds⟩
    obtain ⟨hwf, hread⟩ := read_of_forall₂ (Q := fun g : String × Doc => g.2.wellFormed = true)
      (f := fun g : String × Doc => (Key.str g.1, loads g.2))
      (hall.imp fun f g h => field_read h.2.1 (hp f h.1).1 (ih f h.1 g.2 (hp f h.1).2 (distinctFields_mem hk f h.1) h.2.2))
    refine ⟨wellFormedFields_iff.2 hwf, ?_⟩
    have hnames : (ds.map fun g => Key.str g.1) = l.map Prod.fst := by rw [← hread, List.map_map]; rfl
    rw [loads, loadsFields_fresh ds [] (by rw [hnames]; exact hkeys), List.nil_append, hread]

/-! ### Equal to what was written -/

theorem eqvItems_iff : ∀ {l m : List Value}, eqvItems l m = true ↔ List.Forall₂ (fun v w => eqv v w = true) l m
  | [], [] => by simp [eqvItems]
  | [], _ :: _ => by simp [eqvItems]
  | _ :: _, [] => by simp [eqvItems]
  | v :: l, w :: m => by simp [eqvItems, eqvItems_iff]

theorem eqvFields_iff {l m : List (Key × Value)} :
    eqvFields l m = true ↔ ∀ f ∈ l, ∃ w, fieldAt f.1 m = some w ∧ eqv f.2 w = true := by
  induction l with
  | nil => simp [eqvFields]
  | cons f l ih =>
    rw [eqvFields, Bool.and_eq_true, ih, List.forall_mem_cons]
    cases fieldAt f.1 m <;> simp

/-- A plain value equals itself. -/
theorem eqv_self (v : Value) : plain v = true → distinct v = true → eqv v v = true := by
  induction v using Value.induct with
  | leaf v hlist htuple hdict =>
    intro hp _
    cases v with
    | list l => exact absurd rfl (hlist l)
    | tuple l => exact absurd rfl (htuple l)
    | dict l => exact absurd rfl (hdict l)
    | object typeName => cases hp
    | float x =>
      cases x with
      | finite q repr => simp [eqv, Value.number?, PyFloat.number?]
      | _ => cases hp
    | _ => simp [eqv, Value.number?]
  | list l ih =>
    intro hp hk
    rw [plain, plainItems_iff] at hp
    rw [distinct, distinctItems_iff] at hk
    rw [eqv, eqvItems_iff, List.forall₂_same]
    exact fun v hv => ih v hv (hp v hv) (hk v hv)
  | tuple l ih =>
    intro hp
    cases hp
  | dict l ih =>
    intro hp hk
    rw [plain, plainFields_iff] at hp
    rw [eqv, beq_self_eq_true, Bool.true_and, eqvFields_iff]
    intro f hf
    obtain ⟨hs, hv⟩ := hp f hf
    refine ⟨f.2, ?_, ih f hf hv (distinctFields_mem hk f hf)⟩
    obtain ⟨k, v⟩ := f
    cases k with
    | str s => exact fieldAt_of_mem hk hf
    | _ => cases hs

theorem partner {α β : Type} {R : α → β → Prop} {S : β → α → Prop} {l : List α} {m : List β} (h : List.Forall₂ R l m)
    (h' : List.Forall₂ S m l) : ∀ a ∈ l, ∃ b ∈ m, R a b ∧ S b a := by
  induction h with
  | nil => simp
  | cons hab hr ih =>
    cases h' with
    | cons hba hs =>
      refine List.forall_mem_cons.2 ⟨⟨_, List.mem_cons_self, hab, hba⟩, fun a ha => ?_⟩
      obtain ⟨b, hb, hrest⟩ := ih hs a ha
      exact ⟨b, List.mem_cons_of_mem _ hb, hrest⟩

/-- **Only a plain value survives**: what loads equal to the value it was dumped from was plain. -/
theorem plain_of_eqv (v : Value) : ∀ d, distinct v = true → dumps v = .ok d → d.wellFormed = true →
    eqv (loads d) v = true → plain v = true := by
  induction v using Value.induct with
  | leaf v hlist htuple hdict =>
    intro d _ hd hwf _
    cases v with
    | list l => exact absurd rfl (hlist l)
    | tuple l => exact absurd rfl (htuple l)
    | dict l => exact absurd rfl (hdict l)
    | object typeName => cases hd
    | float x =>
      cases hd
      cases x with
      | finite q repr => rfl
      | _ => cases hwf
    | _ => rfl
  | list l ih =>
    intro d hk hd hwf h
    obtain ⟨ds, hds, rfl⟩ := dumps_list hd
    rw [distinct, distinctItems_iff] at hk
    rw [loads, loadsItems_eq_map, eqv, eqvItems_iff, List.forall₂_map_left_iff] at h
    rw [plain, plainItems_iff]
    intro v hv
    obtain ⟨d, hmem, hd, he⟩ := partner (dumpsItems_forall₂ hds) h v hv
    exact ih v hv d (hk v hv) hd (wellFormedItems_iff.1 hwf d hmem) he
  | tuple l ih =>
    intro d _ hd _ h
    obtain ⟨ds, rfl⟩ := dumps_tuple hd
    cases h
  | dict l ih =>
    intro d hk hd hwf h
    obtain ⟨ds, hds, rfl⟩ := dumps_dict hd
    have hwritten := dumpsFields_forall₂ hds
    rw [loads, eqv, Bool.and_eq_true, beq_iff_eq, eqvFields_iff] at h
    have hnodup : (ds.map fun g => Key.str g.1).Nodup := by
      have := (loadsFields_length ds [] List.nodup_nil).2 (by rw [h.1, hwritten.length_eq, List.length_nil, Nat.zero_add])
      simpa using this
    rw [loadsFields_fresh ds [] (by simpa using hnodup), List.nil_append] at h
    have hfound : ∀ g ∈ ds, ∃ w, fieldAt (.str g.1) l = some w ∧ eqv (loads g.2) w = true := fun g hg =>
      h.2 _ (List.mem_map_of_mem hg)
    -- as many distinct names as there are keys, all of them keys: no key is anything else
    have hkeys : ∀ f ∈ l, f.1.isStr = true := by
      have hsub : (ds.map fun g => Key.str g.1) ⊆ l.map Prod.fst := by
        intro k hmem
        obtain ⟨g, hg, rfl⟩ := List.mem_map.1 hmem
        obtain ⟨w, hw, -⟩ := hfound g hg
        exact List.mem_map_of_mem (fieldAt_str_mem hw)
      have hperm := (List.subperm_of_subset hnodup hsub).perm_of_length_le (by simp [hwritten.length_eq])
      intro f hf
      obtain ⟨g, -, hg⟩ := List.mem_map.1 (hperm.mem_iff.2 (List.mem_map_of_mem hf))
      rw [← hg]
      rfl
    rw [plain, plainFields_iff]
    intro f hf
    refine ⟨hkeys f hf, ?_⟩
    obtain ⟨g, hg, ⟨ht, hd⟩, -⟩ := partner hwritten (hwritten.flip.imp fun _ _ _ => trivial) f hf
    obtain ⟨k, v⟩ := f
    cases k with
    | str s =>
      cases ht
      obtain ⟨w, hw, he⟩ := hfound g hg
      rw [fieldAt_of_mem hk hf] at hw
      cases hw
      exact ih _ hf g.2 (distinctFields_mem hk _ hf) hd (wellFormedFields_iff.1 hwf g hg) he
    | _ => cases hkeys _ hf

/-! ### Loading makes dictionaries -/

/-- What is loaded of an object so far: string keys, each held once, over values that hold none twice. -/
def Loaded (l : List (Key × Value)) : Prop :=
  (l.map Prod.fst).Nodup ∧ ∀ f ∈ l, f.1.isStr = true ∧ distinct f.2 = true

theorem Loaded.distinctFields {l : List (Key × Value)} (h : Loaded l) : distinctFields l = true := by
  induction l with
  | nil => rfl
  | cons f l ih =>
    obtain ⟨hnodup, hparts⟩ := h
    rw [List.map_cons, List.nodup_cons] at hnodup
    rw [List.forall_mem_cons] at hparts
    obtain ⟨k, v⟩ := f
    rw [JsonValues.distinctFields, ih ⟨hnodup.2, hparts.2⟩, hparts.1.2, Bool.and_true, Bool.and_true, Option.isNone_iff_eq_none]
    cases k with
    | str s =>
      by_contra hat
      obtain ⟨w, hw⟩ := Option.ne_none_iff_exists'.1 hat
      exact hnodup.1 (List.mem_map.2 ⟨_, fieldAt_str_mem hw, rfl⟩)
    | _ => cases hparts.1.1

theorem mem_upsert {k : Key} {v : Value} {f : Key × Value} : ∀ {l : List (Key × Value)}, f ∈ Dict.upsert k v l →
    f = (k, v) ∨ f ∈ l
  | [], h => .inl (List.mem_singleton.1 h)
  | g :: l, h => by
    unfold Dict.upsert at h
    split at h
    · rcases List.mem_cons.1 h with h | h
      · exact .inl h
      · exact .inr (List.mem_cons_of_mem _ h)
    · rcases List.mem_cons.1 h with h | h
      · exact .inr (h ▸ List.mem_cons_self)
      · exact (mem_upsert h).imp_right (List.mem_cons_of_mem _)

theorem Loaded.upsert {l : List (Key × Value)} (h : Loaded l) (s : String) {v : Value} (hv : distinct v = true) :
    Loaded (Dict.upsert (.str s) v l) := by
  refine ⟨?_, fun f hf => ?_⟩
  · rw [Dict.upsert_keys]
    split
    · exact h.1
    · exact List.nodup_append.2 ⟨h.1, List.nodup_singleton _, by grind⟩
  · rcases mem_upsert hf with rfl | hf
    · exact ⟨rfl, hv⟩
    · exact h.2 f hf

mutual

/-- **Whatever is loaded is made of dictionaries.** -/
theorem distinct_loads : ∀ d : Doc, distinct (loads d) = true
  | .null | .bool _ | .int _ | .float _ | .str _ => rfl
  | .list items => by
    rw [loads, distinct]
    exact distinct_loadsItems items
  | .object fields => by
    rw [loads, distinct]
    exact (loaded_loadsFields fields [] ⟨List.nodup_nil, by simp⟩).distinctFields

theorem distinct_loadsItems : ∀ l : List Doc, distinctItems (loadsItems l) = true
  | [] => rfl
  | d :: l => by rw [loadsItems, distinctItems, distinct_loads d, distinct_loadsItems l]; rfl

theorem loaded_loadsFields : ∀ (ds : List (String × Doc)) (acc : List (Key × Value)), Loaded acc → Loaded (loadsFields ds acc)
  | [], _, h => h
  | (name, d) :: l, _, h => loaded_loadsFields l _ (h.upsert name (distinct_loads d))

end

end JsonValues
