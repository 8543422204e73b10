import Mathlib.Algebra.BigOperators.Group.Finset.Basic
import Mathlib.Data.List.Nodup
import Mathlib.Tactic.Abel
import Mathlib.Tactic.Common
/-!
# Dict — insertion-ordered dictionaries

A dictionary is a list of entries whose keys are distinct, in the order they were first set: setting a key that is
there replaces the value in place, setting a new one appends, erasing keeps the order of the rest.
-/
namespace Atp

structure Dict (κ α : Type) where
  entries : List (κ × α)
  nodup : (entries.map Prod.fst).Nodup
deriving DecidableEq

namespace Dict

variable {κ α : Type}

def empty : Dict κ α := ⟨[], List.nodup_nil⟩

def keys (d : Dict κ α) : List κ := d.entries.map Prod.fst

def values (d : Dict κ α) : List α := d.entries.map Prod.snd

variable [DecidableEq κ]

def lookup (k : κ) : List (κ × α) → Option α
  | [] => none
  | e :: l => if e.1 = k then some e.2 else lookup k l

def upsert (k : κ) (v : α) : List (κ × α) → List (κ × α)
  | [] => [(k, v)]
  | e :: l => if e.1 = k then (k, v) :: l else e :: upsert k v l

def get? (d : Dict κ α) (k : κ) : Option α := lookup k d.entries

def contains (d : Dict κ α) (k : κ) : Bool := (d.get? k).isSome

theorem upsert_keys (k : κ) (v : α) : ∀ l : List (κ × α),
    (upsert k v l).map Prod.fst = if k ∈ l.map Prod.fst then l.map Prod.fst else l.map Prod.fst ++ [k]
  | [] => by simp [upsert]
  | e :: l => by
    unfold upsert
    by_cases he : e.1 = k
    · simp [he]
    · rw [if_neg he, List.map_cons, upsert_keys k v l]
      by_cases hk : k ∈ l.map Prod.fst
      · simp [hk]
      · simp [hk, Ne.symm he]

def set (d : Dict κ α) (k : κ) (v : α) : Dict κ α where
  entries := upsert k v d.entries
  nodup := by
    rw [upsert_keys]
    split
    · exact d.nodup
    · exact List.nodup_append.2 ⟨d.nodup, List.nodup_singleton k, by grind⟩

def erase (d : Dict κ α) (k : κ) : Dict κ α where
  entries := d.entries.filter (fun e => e.1 ≠ k)
  nodup := d.nodup.sublist (List.filter_sublist.map Prod.fst)

/-- `setdefault`: the value there, or `v` inserted. -/
def setdefault (d : Dict κ α) (k : κ) (v : α) : Dict κ α :=
  if d.contains k then d else d.set k v

theorem lookup_upsert (k k' : κ) (v : α) : ∀ l : List (κ × α),
    lookup k' (upsert k v l) = if k' = k then some v else lookup k' l
  | [] => by
    by_cases h : k' = k
    · simp [upsert, lookup, h]
    · simp [upsert, lookup, h, Ne.symm h]
  | e :: l => by
    unfold upsert
    by_cases he : e.1 = k
    · rw [if_pos he]
      by_cases h : k' = k
      · simp [lookup, h]
      · simp [lookup, h, Ne.symm h, he]
    · rw [if_neg he]
      unfold lookup
      rw [lookup_upsert k k' v l]
      by_cases h : k' = k
      · simp [h, he]
      · simp [h]

theorem upsert_upsert (k : κ) (v w : α) : ∀ l : List (κ × α), upsert k w (upsert k v l) = upsert k w l
  | [] => by simp [upsert]
  | e :: l => by
    by_cases he : e.1 = k
    · simp [upsert, he]
    · simp [upsert, he, upsert_upsert k v w l]

theorem lookup_filter (k k' : κ) : ∀ l : List (κ × α),
    lookup k' (l.filter (fun e => e.1 ≠ k)) = if k' = k then none else lookup k' l
  | [] => by simp [lookup]
  | e :: l => by
    by_cases he : e.1 = k
    · rw [List.filter_cons_of_neg (by simpa using he), lookup_filter k k' l]
      by_cases h : k' = k
      · simp [h]
      · simp [lookup, h, he, Ne.symm h]
    · rw [List.filter_cons_of_pos (by simpa using he)]
      unfold lookup
      rw [lookup_filter k k' l]
      by_cases h : k' = k
      · simp [h, he]
      · simp [h]

@[simp] theorem get?_empty (k : κ) : (empty : Dict κ α).get? k = none := rfl

theorem get?_set (d : Dict κ α) (k k' : κ) (v : α) :
    (d.set k v).get? k' = if k' = k then some v else d.get? k' :=
  lookup_upsert k k' v d.entries

@[simp] theorem get?_set_self (d : Dict κ α) (k : κ) (v : α) : (d.set k v).get? k = some v := by
  rw [get?_set, if_pos rfl]

theorem get?_set_ne (d : Dict κ α) {k k' : κ} (v : α) (h : k' ≠ k) : (d.set k v).get? k' = d.get? k' := by
  rw [get?_set, if_neg h]

theorem upsert_new {k : κ} (v : α) : ∀ {l : List (κ × α)}, lookup k l = none → upsert k v l = l ++ [(k, v)]
  | [], _ => rfl
  | e :: l, h => by
    unfold lookup at h
    by_cases he : e.1 = k
    · simp [he] at h
    · rw [if_neg he] at h
      rw [upsert, if_neg he, upsert_new v h, List.cons_append]

theorem values_set_new (d : Dict κ α) {k : κ} {v : α} (h : d.get? k = none) : (d.set k v).values = d.values ++ [v] := by
  show (upsert k v d.entries).map Prod.snd = _
  rw [upsert_new v h, List.map_append, List.map_singleton, values]

theorem set_set (d : Dict κ α) (k : κ) (v w : α) : (d.set k v).set k w = d.set k w := by
  unfold set
  simp only [upsert_upsert]

theorem setdefault_set (d : Dict κ α) (k : κ) (v w : α) : (d.setdefault k v).set k w = d.set k w := by
  unfold setdefault
  split
  · rfl
  · exact set_set d k v w

theorem get?_setdefault_self (d : Dict κ α) (k : κ) (v : α) : (d.setdefault k v).get? k = some ((d.get? k).getD v) := by
  unfold setdefault contains
  cases h : d.get? k with
  | none => simp
  | some w => simp [h]

theorem get?_setdefault_ne (d : Dict κ α) {k k' : κ} (v : α) (h : k' ≠ k) : (d.setdefault k v).get? k' = d.get? k' := by
  unfold setdefault
  split
  · rfl
  · exact get?_set_ne d v h

theorem get?_erase (d : Dict κ α) (k k' : κ) : (d.erase k).get? k' = if k' = k then none else d.get? k' :=
  lookup_filter k k' d.entries

theorem lookup_mem {k : κ} {v : α} : ∀ {l : List (κ × α)}, lookup k l = some v → (k, v) ∈ l
  | e :: l, h => by
    unfold lookup at h
    by_cases he : e.1 = k
    · rw [if_pos he, Option.some.injEq] at h
      exact List.mem_cons.2 (.inl (Prod.ext he.symm h.symm))
    · rw [if_neg he] at h
      exact List.mem_cons_of_mem _ (lookup_mem h)

theorem mem_lookup {k : κ} {v : α} : ∀ {l : List (κ × α)}, (l.map Prod.fst).Nodup → (k, v) ∈ l → lookup k l = some v
  | e :: l, hnd, h => by
    rw [List.map_cons, List.nodup_cons] at hnd
    unfold lookup
    rcases List.mem_cons.1 h with rfl | h
    · simp
    · have hne : e.1 ≠ k := fun he => hnd.1 (he ▸ List.mem_map.2 ⟨(k, v), h, rfl⟩)
      rw [if_neg hne]
      exact mem_lookup hnd.2 h

/-- **An entry is what its key looks up.** -/
theorem mem_entries_iff (d : Dict κ α) (k : κ) (v : α) : (k, v) ∈ d.entries ↔ d.get? k = some v :=
  ⟨mem_lookup d.nodup, lookup_mem⟩

theorem mem_keys_iff (d : Dict κ α) (k : κ) : k ∈ d.keys ↔ (d.get? k).isSome := by
  unfold keys
  rw [Option.isSome_iff_exists, List.mem_map]
  constructor
  · rintro ⟨⟨k, v⟩, hkv, rfl⟩
    exact ⟨v, (mem_entries_iff d k v).1 hkv⟩
  · rintro ⟨v, hv⟩
    exact ⟨(k, v), (mem_entries_iff d k v).2 hv, rfl⟩

theorem mem_values_iff (d : Dict κ α) (v : α) : v ∈ d.values ↔ ∃ k, d.get? k = some v := by
  unfold values
  rw [List.mem_map]
  constructor
  · rintro ⟨⟨k, w⟩, hkw, rfl⟩
    exact ⟨k, (mem_entries_iff d k w).1 hkw⟩
  · rintro ⟨k, hk⟩
    exact ⟨(k, v), (mem_entries_iff d k v).2 hk, rfl⟩

/-- The values `f` keeps, under the keys they had. -/
def filterMap {β : Type} (f : α → Option β) (d : Dict κ α) : Dict κ β where
  entries := d.entries.filterMap fun e => (f e.2).map (Prod.mk e.1)
  nodup := by
    refine d.nodup.sublist ?_
    induction d.entries with
    | nil => exact List.nil_sublist _
    | cons e l ih =>
      rw [List.filterMap_cons]
      cases f e.2 with
      | none => exact ih.cons _
      | some b => exact ih.cons_cons _

theorem get?_filterMap {β : Type} (f : α → Option β) (d : Dict κ α) (k : κ) :
    (d.filterMap f).get? k = (d.get? k).bind f := by
  refine Option.ext fun b => ?_
  rw [← mem_entries_iff, Option.bind_eq_some_iff]
  simp only [← mem_entries_iff, filterMap, List.mem_filterMap, Option.map_eq_some_iff, Prod.mk.injEq]
  constructor
  · rintro ⟨e, he, b', hb, rfl, rfl⟩
    exact ⟨e.2, he, hb⟩
  · rintro ⟨a, ha, hb⟩
    exact ⟨(k, a), ha, b, hb, rfl, rfl⟩

/-- The last row wins. -/
theorem get?_foldl_set {ρ : Type} (key : ρ → κ) (val : ρ → α) (k : κ) : ∀ (l : List ρ) (d : Dict κ α),
    (l.foldl (fun d r => d.set (key r) (val r)) d).get? k =
      ((l.filter fun r => key r = k).getLast?.map val).or (d.get? k)
  | [], d => by simp
  | r :: l, d => by
    rw [List.foldl_cons, get?_foldl_set key val k l, get?_set, List.filter_cons]
    by_cases h : key r = k
    · rw [if_pos h.symm, if_pos (decide_eq_true h)]
      cases hl : (l.filter fun r => key r = k).getLast? with
      | none => simp [List.getLast?_eq_none_iff.1 hl]
      | some x => simp [List.getLast?_cons, hl]
    · rw [if_neg (Ne.symm h), if_neg (by simpa using h)]

/-- `d.update(e)`. -/
def update (d e : Dict κ α) : Dict κ α := e.entries.foldl (fun d kv => d.set kv.1 kv.2) d

/-- What is updated with wins. -/
theorem get?_update (d e : Dict κ α) (k : κ) : (d.update e).get? k = (e.get? k).or (d.get? k) := by
  unfold update
  rw [get?_foldl_set]
  congr 1
  cases he : e.get? k with
  | none =>
    have hnone : (e.entries.filter fun kv => kv.1 = k) = [] := List.filter_eq_nil_iff.2 fun kv hkv hk => by
      have := (mem_entries_iff e k kv.2).1 (of_decide_eq_true hk ▸ hkv)
      rw [he] at this
      cases this
    rw [hnone]
    rfl
  | some v =>
    cases hlast : (e.entries.filter fun kv => kv.1 = k).getLast? with
    | none =>
      have hkv : (k, v) ∈ e.entries.filter fun kv => kv.1 = k :=
        List.mem_filter.2 ⟨(mem_entries_iff e k v).2 he, decide_eq_true rfl⟩
      rw [List.getLast?_eq_none_iff.1 hlast] at hkv
      cases hkv
    | some kv =>
      obtain ⟨hkv, hk⟩ := List.mem_filter.1 (List.mem_of_getLast? hlast)
      have := (mem_entries_iff e k kv.2).1 (of_decide_eq_true hk ▸ hkv)
      rw [he] at this
      exact this.symm

/-- `setdefault`, row after row: what is there stays, and of the new rows the first is kept. -/
theorem get?_foldl_setdefault {ρ : Type} (key : ρ → κ) (val : ρ → α) (k : κ) : ∀ (l : List ρ) (d : Dict κ α),
    (l.foldl (fun d r => d.setdefault (key r) (val r)) d).get? k = (d.get? k).or ((l.find? fun r => key r = k).map val)
  | [], d => by simp
  | r :: l, d => by
    rw [List.foldl_cons, get?_foldl_setdefault key val k l, List.find?_cons]
    by_cases h : key r = k
    · subst h
      rw [get?_setdefault_self, decide_eq_true rfl]
      cases d.get? (key r) <;> rfl
    · rw [get?_setdefault_ne _ _ (Ne.symm h), decide_eq_false h]

/-! ## Grouping -/

/-- `setdefault(k, []).append(v)`, row after row. -/
def group (l : List (κ × α)) : Dict κ (List α) :=
  l.foldl (fun d x => d.set x.1 ((d.get? x.1).getD [] ++ [x.2])) .empty

theorem get?_foldl_group (k : κ) : ∀ (l : List (κ × α)) (d : Dict κ (List α)),
    (l.foldl (fun d x => d.set x.1 ((d.get? x.1).getD [] ++ [x.2])) d).get? k =
      if (l.filter fun x => x.1 = k) = [] then d.get? k
      else some ((d.get? k).getD [] ++ (l.filter fun x => x.1 = k).map Prod.snd)
  | [], d => by simp
  | x :: l, d => by
    rw [List.foldl_cons, get?_foldl_group k l, List.filter_cons]
    by_cases h : x.1 = k
    · rw [← h, get?_set_self, if_pos (decide_eq_true rfl), if_neg (List.cons_ne_nil _ _)]
      by_cases hnil : (l.filter fun y => y.1 = x.1) = []
      · simp [hnil]
      · simp [hnil]
    · simp only [get?_set_ne _ _ (Ne.symm h), h, decide_false, Bool.false_eq_true, if_false]

/-- **A group holds the rows of its key, in their order**, and a key without rows has no group. -/
theorem get?_group (l : List (κ × α)) (k : κ) : (group l).get? k =
    if (l.filter fun x => x.1 = k) = [] then none else some ((l.filter fun x => x.1 = k).map Prod.snd) := by
  unfold group
  rw [get?_foldl_group, get?_empty]
  rfl

/-- What is listed for one key is listed for its value. -/
theorem flatMap_lookup {β : Type} (g : κ → α → List β) (k : κ) : ∀ {l : List (κ × α)}, (l.map Prod.fst).Nodup →
    (l.flatMap fun e => if e.1 = k then g e.1 e.2 else []) = (lookup k l).elim [] (g k)
  | [], _ => rfl
  | e :: l, h => by
    rw [List.map_cons, List.nodup_cons] at h
    rw [List.flatMap_cons, flatMap_lookup g k h.2, lookup]
    by_cases he : e.1 = k
    · have habsent : lookup k l = none :=
        Option.eq_none_iff_forall_ne_some.2 fun v hv => h.1 (he ▸ List.mem_map.2 ⟨(k, v), lookup_mem hv, rfl⟩)
      simp [he, habsent]
    · simp [he]

/-- Rows taken group by group are the rows. -/
theorem flatMap_filter_perm {β : Type} (key : β → κ) (l : List β) : ∀ {ks : List κ}, ks.Nodup →
    (ks.flatMap fun k => l.filter fun x => key x = k).Perm (l.filter fun x => key x ∈ ks)
  | [], _ => by simp
  | k :: ks, h => by
    rw [List.nodup_cons] at h
    have hfirst : (l.filter fun x => key x ∈ k :: ks).filter (fun x => key x = k) = l.filter fun x => key x = k := by
      rw [List.filter_filter]
      refine List.filter_congr fun x _ => ?_
      by_cases hx : key x = k <;> simp [hx]
    have hrest : (l.filter fun x => key x ∈ k :: ks).filter (fun x => !decide (key x = k)) = l.filter fun x => key x ∈ ks := by
      rw [List.filter_filter]
      refine List.filter_congr fun x _ => ?_
      by_cases hx : key x = k
      · simp [hx, h.1]
      · simp [hx]
    have hsplit := List.filter_append_perm (fun x => decide (key x = k)) (l.filter fun x => key x ∈ k :: ks)
    rw [hfirst, hrest] at hsplit
    rw [List.flatMap_cons]
    exact ((flatMap_filter_perm key l h.2).append_left _).trans hsplit

section totals
variable {M : Type} [AddCommGroup M] (f : α → M)

theorem sum_upsert (k : κ) (v : α) : ∀ l : List (κ × α),
    ((upsert k v l).map (fun e => f e.2)).sum = (l.map (fun e => f e.2)).sum - (lookup k l).elim 0 f + f v
  | [] => by simp [upsert, lookup]
  | e :: l => by
    unfold upsert lookup
    by_cases he : e.1 = k
    · simp [he, add_comm]
    · rw [if_neg he, if_neg he, List.map_cons, List.sum_cons, sum_upsert k v l, List.map_cons, List.sum_cons]
      abel

/-- **Setting a key moves a total by that key's values**, the old one out and the new one in. -/
theorem sum_values_set (d : Dict κ α) (k : κ) (v : α) :
    ((d.set k v).values.map f).sum = (d.values.map f).sum - (d.get? k).elim 0 f + f v := by
  simp only [values, List.map_map, Function.comp_def]
  exact sum_upsert f k v d.entries

theorem map_keys_get? (d : Dict κ α) : d.keys.map (fun k => (d.get? k).elim 0 f) = d.values.map f := by
  unfold keys values
  rw [List.map_map, List.map_map]
  refine List.map_congr_left fun e he => ?_
  have hget : d.get? e.1 = some e.2 := (mem_entries_iff d e.1 e.2).1 he
  simp [hget]

/-- A total over the values is one over any set of keys that has them all. -/
theorem sum_values_eq (d : Dict κ α) (S : Finset κ) (hS : ∀ k ∈ d.keys, k ∈ S) :
    (d.values.map f).sum = ∑ k ∈ S, (d.get? k).elim 0 f := by
  have hnodup : d.keys.Nodup := d.nodup
  rw [← map_keys_get?, ← List.sum_toFinset _ hnodup]
  refine Finset.sum_subset (fun k hk => hS k (List.mem_toFinset.1 hk)) fun k _ hk => ?_
  have hnone : d.get? k = none := by
    cases hg : d.get? k with
    | none => rfl
    | some v =>
      have hmem := (mem_entries_iff d k v).2 hg
      exact absurd (List.mem_toFinset.2 (List.mem_map.2 ⟨(k, v), hmem, rfl⟩)) hk
  rw [hnone]
  rfl

end totals

end Dict
end Atp
