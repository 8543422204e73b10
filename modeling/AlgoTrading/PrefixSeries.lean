import Mathlib.Data.List.Basic
import Mathlib.Data.List.ReduceOption
import Mathlib.Order.Basic
import Mathlib.Tactic.Common
/-!
# PrefixSeries — series whose entries are read off the values so far

`prefixSeries w f l` has at each index `f` of the values up to it, once there are more than `w` of them.  It is causal and
defined from index `w` on by construction, so a way to compute a series is shown to be so by being one (`settles`,
`OneDefinition.ofPrefix`).
-/
namespace Atp
namespace Series

variable {α β γ δ ε : Type}

def prefixSeries (w : ℕ) (f : List α → β) (l : List α) : List (Option β) :=
  (List.range l.length).map fun i => if w ≤ i then some (f (l.take (i + 1))) else none

/-- Entry by entry, where both are defined. -/
def lift₂ (g : β → γ → δ) (a : Option β) (b : Option γ) : Option δ := a.bind fun x => b.map (g x)

section
variable {w w' : ℕ} {f : List α → β} {f' : List α → γ} {l : List α} {vals : List β}

@[simp] theorem length_prefixSeries : (prefixSeries w f l).length = l.length := by
  rw [prefixSeries, List.length_map, List.length_range]

theorem getElem?_prefixSeries {i : ℕ} (h : i < l.length) :
    (prefixSeries w f l)[i]? = some (if w ≤ i then some (f (l.take (i + 1))) else none) := by
  rw [prefixSeries, List.getElem?_map, List.getElem?_range h]
  rfl

/-- **Causal**: the series of a prefix is the prefix of the series. -/
theorem prefixSeries_take (k : ℕ) : prefixSeries w f (l.take k) = (prefixSeries w f l).take k := by
  rw [prefixSeries, prefixSeries, ← List.map_take, List.take_range, List.length_take]
  refine List.map_congr_left fun i hi => ?_
  have hlt : i < min k l.length := List.mem_range.1 hi
  rw [List.take_take, Nat.min_eq_left (by omega)]

theorem prefixSeries_congr {g : List α → β} (h : ∀ i, w ≤ i → i < l.length → f (l.take (i + 1)) = g (l.take (i + 1))) :
    prefixSeries w f l = prefixSeries w g l := by
  refine List.map_congr_left fun i hi => ?_
  by_cases hw : w ≤ i
  · rw [if_pos hw, if_pos hw, h i hw (List.mem_range.1 hi)]
  · rw [if_neg hw, if_neg hw]

/-- A series too short to be defined anywhere. -/
theorem prefixSeries_short (h : l.length ≤ w) : prefixSeries w f l = List.replicate l.length none := by
  refine List.eq_replicate_iff.2 ⟨length_prefixSeries, fun x hx => ?_⟩
  obtain ⟨i, hi, rfl⟩ := List.mem_map.1 hx
  have hlt : i < l.length := List.mem_range.1 hi
  rw [if_neg (by omega)]

/-- **A warm-up and then values is a prefix series**, if each value is read off the values so far. -/
theorem settles (hw : w ≤ l.length) (hlen : vals.length = l.length - w)
    (hvals : ∀ j, w + j < l.length → vals[j]? = some (f (l.take (w + j + 1)))) :
    List.replicate w none ++ vals.map some = prefixSeries w f l := by
  refine List.ext_getElem? fun i => ?_
  by_cases hi : i < l.length
  · rw [getElem?_prefixSeries hi]
    by_cases hwi : w ≤ i
    · obtain ⟨j, rfl⟩ := Nat.exists_eq_add_of_le hwi
      rw [if_pos hwi, List.getElem?_append_right (by rw [List.length_replicate]; exact hwi), List.length_replicate,
        Nat.add_sub_cancel_left, List.getElem?_map, hvals j hi]
      rfl
    · rw [if_neg hwi, List.getElem?_append_left (by rw [List.length_replicate]; omega), List.getElem?_replicate,
        if_pos (by omega)]
  · have hsum : (List.replicate w none ++ vals.map some).length = l.length := by
      rw [List.length_append, List.length_replicate, List.length_map, hlen]
      omega
    rw [List.getElem?_eq_none (by omega), List.getElem?_eq_none (by rw [length_prefixSeries]; omega)]

/-- Two series, entry by entry, are defined where both are. -/
theorem zipWith_prefixSeries (g : β → γ → δ) :
    List.zipWith (lift₂ g) (prefixSeries w f l) (prefixSeries w' f' l) = prefixSeries (max w w') (fun l => g (f l) (f' l)) l := by
  rw [prefixSeries, prefixSeries, prefixSeries, List.zipWith_map, List.zipWith_self]
  refine List.map_congr_left fun i _ => ?_
  by_cases hw : w ≤ i <;> by_cases hw' : w' ≤ i <;> simp [Nat.max_le, hw, hw', lift₂]

theorem prefixSeries_map (g : γ → α) (l : List γ) : prefixSeries w f (l.map g) = prefixSeries w (fun l => f (l.map g)) l := by
  rw [prefixSeries, prefixSeries, List.length_map]
  refine List.map_congr_left fun i _ => ?_
  rw [List.map_take]

theorem map_prefixSeries (g : β → γ) : (prefixSeries w f l).map (Option.map g) = prefixSeries w (fun l => g (f l)) l := by
  rw [prefixSeries, prefixSeries, List.map_map]
  refine List.map_congr_left fun i _ => ?_
  by_cases hw : w ≤ i <;> simp [hw]

end

/-! ## A series of a series -/

/-- The values of a prefix series from where it is defined. -/
def tailValues (w : ℕ) (f : List α → β) (l : List α) : List β := (List.range (l.length - w)).map fun j => f (l.take (w + j + 1))

section
variable {w w' : ℕ} {f : List α → β} {l : List α}

@[simp] theorem length_tailValues : (tailValues w f l).length = l.length - w := by
  rw [tailValues, List.length_map, List.length_range]

theorem reduceOption_map_some (l : List α) : (l.map some).reduceOption = l := by
  rw [List.reduceOption, List.filterMap_map]
  exact List.filterMap_some

/-- From its first value on a prefix series is its values. -/
theorem reduceOption_drop_prefixSeries : ((prefixSeries w f l).drop w).reduceOption = tailValues w f l := by
  have hsome : (prefixSeries w f l).drop w = (tailValues w f l).map some := by
    refine List.ext_getElem? fun j => ?_
    rw [List.getElem?_drop]
    by_cases hj : w + j < l.length
    · rw [getElem?_prefixSeries hj, if_pos (Nat.le_add_right w j), List.getElem?_map, tailValues, List.getElem?_map,
        List.getElem?_range (by omega)]
      rfl
    · rw [List.getElem?_eq_none (by rw [length_prefixSeries]; omega),
        List.getElem?_eq_none (by rw [List.length_map, length_tailValues]; omega)]
  rw [hsome, reduceOption_map_some]

theorem tailValues_take {m : ℕ} (h : w + m ≤ l.length) : tailValues w f (l.take (w + m)) = (tailValues w f l).take m := by
  rw [tailValues, tailValues, ← List.map_take, List.take_range, List.length_take, Nat.min_eq_left h, Nat.add_sub_cancel_left,
    Nat.min_eq_left (by omega)]
  refine List.map_congr_left fun j hj => ?_
  have hlt : j < m := List.mem_range.1 hj
  rw [List.take_take, Nat.min_eq_left (by omega)]

/-- **A series of the values of a series is a series.** -/
theorem prefixSeries_tailValues (g : List β → γ) (hw : w ≤ l.length) :
    List.replicate w none ++ prefixSeries w' g (tailValues w f l) = prefixSeries (w + w') (fun l => g (tailValues w f l)) l := by
  refine List.ext_getElem? fun i => ?_
  by_cases hi : i < l.length
  · rw [getElem?_prefixSeries hi]
    by_cases hwi : w ≤ i
    · obtain ⟨j, rfl⟩ := Nat.exists_eq_add_of_le hwi
      rw [List.getElem?_append_right (by rw [List.length_replicate]; exact hwi), List.length_replicate, Nat.add_sub_cancel_left,
        getElem?_prefixSeries (by rw [length_tailValues]; omega), Nat.add_assoc, tailValues_take (by omega)]
      by_cases hj : w' ≤ j
      · rw [if_pos hj, if_pos (by omega)]
      · rw [if_neg hj, if_neg (by omega)]
    · rw [if_neg (by omega), List.getElem?_append_left (by rw [List.length_replicate]; omega), List.getElem?_replicate,
        if_pos (by omega)]
  · have hsum : (List.replicate w none ++ prefixSeries w' g (tailValues w f l)).length = l.length := by
      rw [List.length_append, List.length_replicate, length_prefixSeries, length_tailValues]
      omega
    rw [List.getElem?_eq_none (by omega), List.getElem?_eq_none (by rw [length_prefixSeries]; omega)]

end

/-! ## One definition -/

/-- **Causal**, and defined from index `w` on. -/
structure Causal (series : List α → Except ε (List (Option β))) (w : ℕ) : Prop where
  causal : ∀ l k, series (l.take k) = (series l).map (List.take k)
  length : ∀ l s, series l = .ok s → s.length = l.length
  defined : ∀ l s, series l = .ok s → ∀ i < l.length, (∃ x, s[i]? = some (some x)) ↔ w ≤ i

/-- **A scalar form is the series' last entry**, and defined where that is. -/
structure OneDefinition (series : List α → Except ε (List (Option β))) (scalar : List α → Except ε β) (w : ℕ) : Prop
    extends Causal series w where
  scalar : ∀ l k x, k ≤ l.length → (scalar (l.take k) = .ok x ↔ ∃ s i, series l = .ok s ∧ i + 1 = k ∧ s[i]? = some (some x))

section
variable {series : List α → Except ε (List (Option β))} {scalar : List α → Except ε β} {w : ℕ} {f : List α → β}

theorem Causal.ofPrefix (h : ∀ l, series l = .ok (prefixSeries w f l)) : Causal series w where
  causal l k := by
    rw [h, h, prefixSeries_take]
    rfl
  length l s hs := by
    rw [h] at hs
    cases hs
    exact length_prefixSeries
  defined l s hs i hi := by
    rw [h] at hs
    cases hs
    rw [getElem?_prefixSeries hi]
    by_cases hw : w ≤ i <;> simp [hw]

theorem Causal.ofError {e : ε} (h : ∀ l, series l = .error e) : Causal series w where
  causal l k := by
    rw [h, h]
    rfl
  length l s hs := by
    rw [h] at hs
    cases hs
  defined l s hs := by
    rw [h] at hs
    cases hs

/-- A scalar that is `f` of more than `w` values, and undefined on fewer. -/
theorem OneDefinition.ofPrefix (h : ∀ l, series l = .ok (prefixSeries w f l)) (hshort : ∀ l x, l.length ≤ w → scalar l ≠ .ok x)
    (hlong : ∀ l, w < l.length → scalar l = .ok (f l)) : OneDefinition series scalar w where
  toCausal := .ofPrefix h
  scalar l k x hk := by
    have hlen : (l.take k).length = k := by rw [List.length_take, Nat.min_eq_left hk]
    constructor
    · intro hx
      have hw : w < k := by
        by_contra hshort'
        exact hshort _ x (by rw [hlen]; omega) hx
      rw [hlong _ (hlen.symm ▸ hw), Except.ok.injEq] at hx
      obtain ⟨i, rfl⟩ := Nat.exists_eq_succ_of_ne_zero (Nat.ne_of_gt (Nat.zero_lt_of_lt hw))
      exact ⟨_, i, h l, rfl, by rw [getElem?_prefixSeries hk, if_pos (Nat.le_of_lt_succ hw), ← hx]⟩
    · rintro ⟨s, i, hs, rfl, hx⟩
      rw [h, Except.ok.injEq] at hs
      rw [← hs, getElem?_prefixSeries hk] at hx
      by_cases hw : w ≤ i
      · rw [if_pos hw, Option.some.injEq, Option.some.injEq] at hx
        rw [hlong _ (hlen.symm ▸ Nat.lt_succ_of_le hw), hx]
      · rw [if_neg hw] at hx
        cases hx

/-- Neither form of an indicator that refuses is defined. -/
theorem OneDefinition.ofError {e : ε} (h : ∀ l, series l = .error e) (hscalar : ∀ l x, scalar l ≠ .ok x) :
    OneDefinition series scalar w where
  toCausal := .ofError h
  scalar l k x _ := by
    refine iff_of_false (hscalar _ x) ?_
    rintro ⟨s, i, hs, -⟩
    rw [h] at hs
    cases hs

end

end Series
end Atp
