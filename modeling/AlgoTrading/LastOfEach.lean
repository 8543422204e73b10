import Mathlib.Data.List.Sort
import AlgoTrading.Dict
/-!
# LastOfEach — the last element of every bucket

A dictionary filled element by element keeps the last of each key, and read in the order of its keys it is the only list that
increases in the key and has exactly the last of each (`lastOfEach_unique`).  Of a list whose keys do not go back it is a sublist
with the same end, and keeping the last of each bucket and then of each wider one is keeping the last of each wider one.
-/
namespace Atp
namespace LastOfEach

variable {α : Type} (key : α → ℤ)

/-- Element after element, the later over the earlier of its key. -/
def kept (l : List α) : Dict ℤ α := l.foldl (fun d a => d.set (key a) a) .empty

/-- `[kept[k] for k in sorted(kept)]`. -/
def lastOfEach (l : List α) : List α := ((kept key l).keys.insertionSort (· ≤ ·)).filterMap (kept key l).get?

/-- No later element has its key. -/
def IsLast (l : List α) (a : α) : Prop := ∃ l₁ l₂, l = l₁ ++ a :: l₂ ∧ ∀ b ∈ l₂, key b ≠ key a

variable {key} {l m r : List α} {a b : α}

theorem getLast?_filter_iff {p : α → Bool} : (l.filter p).getLast? = some a ↔
    ∃ l₁ l₂, l = l₁ ++ a :: l₂ ∧ p a = true ∧ ∀ b ∈ l₂, p b = false := by
  induction l using List.reverseRecOn with
  | nil => simp
  | append_singleton l x ih =>
    rw [List.filter_append]
    cases hx : p x with
    | true =>
      rw [List.filter_cons_of_pos hx, List.filter_nil, List.getLast?_append, List.getLast?_singleton, Option.some_or,
        Option.some.injEq]
      constructor
      · rintro rfl
        exact ⟨l, [], rfl, hx, by simp⟩
      · rintro ⟨l₁, l₂, heq, -, hnone⟩
        rcases List.eq_nil_or_concat l₂ with rfl | ⟨l₂, y, rfl⟩
        · exact (List.cons.inj (List.append_inj' heq rfl).2).1
        · rw [List.concat_eq_append, ← List.cons_append, ← List.append_assoc] at heq
          obtain rfl : x = y := (List.cons.inj (List.append_inj' heq rfl).2).1
          rw [hnone x (by simp)] at hx
          cases hx
    | false =>
      rw [List.filter_cons_of_neg (by rw [hx]; decide), List.filter_nil, List.append_nil, ih]
      constructor
      · rintro ⟨l₁, l₂, rfl, hpa, hnone⟩
        refine ⟨l₁, l₂ ++ [x], by simp, hpa, fun b hb => ?_⟩
        rcases List.mem_append.1 hb with hb | hb
        · exact hnone b hb
        · rw [List.mem_singleton.1 hb]
          exact hx
      · rintro ⟨l₁, l₂, heq, hpa, hnone⟩
        rcases List.eq_nil_or_concat l₂ with rfl | ⟨l₂, y, rfl⟩
        · obtain rfl : x = a := (List.cons.inj (List.append_inj' heq rfl).2).1
          rw [hpa] at hx
          cases hx
        · rw [List.concat_eq_append, ← List.cons_append, ← List.append_assoc] at heq
          exact ⟨l₁, l₂, (List.append_inj' heq rfl).1, hpa, fun b hb => hnone b (by simp [hb])⟩

theorem get?_kept (l : List α) (k : ℤ) : (kept key l).get? k = (l.filter fun a => key a = k).getLast? := by
  unfold kept
  rw [Dict.get?_foldl_set key (fun a => a), Dict.get?_empty, Option.or_none, Option.map_id']

theorem get?_kept_congr {key' : α → ℤ} (h : ∀ a ∈ l, key a = key' a) (k : ℤ) : (kept key l).get? k = (kept key' l).get? k := by
  rw [get?_kept, get?_kept]
  congr 1
  refine List.filter_congr fun a ha => ?_
  rw [h a ha]

theorem get?_kept_iff {k : ℤ} : (kept key l).get? k = some a ↔ IsLast key l a ∧ key a = k := by
  rw [get?_kept, getLast?_filter_iff]
  unfold IsLast
  constructor
  · rintro ⟨l₁, l₂, hl, hk, hnone⟩
    obtain rfl := of_decide_eq_true hk
    exact ⟨⟨l₁, l₂, hl, fun b hb => of_decide_eq_false (hnone b hb)⟩, rfl⟩
  · rintro ⟨⟨l₁, l₂, hl, hnone⟩, rfl⟩
    exact ⟨l₁, l₂, hl, decide_eq_true rfl, fun b hb => decide_eq_false (hnone b hb)⟩

/-- **What is kept is the last of each key.** -/
theorem mem_lastOfEach : a ∈ lastOfEach key l ↔ IsLast key l a := by
  unfold lastOfEach
  rw [List.mem_filterMap]
  constructor
  · rintro ⟨k, -, hget⟩
    exact (get?_kept_iff.1 hget).1
  · intro h
    have hget := get?_kept_iff.2 ⟨h, rfl⟩
    refine ⟨key a, ?_, hget⟩
    rw [List.mem_insertionSort, Dict.mem_keys_iff, hget]
    rfl

/-- **In the order of the keys, each once.** -/
theorem lastOfEach_increasing (key : α → ℤ) (l : List α) : (lastOfEach key l).Pairwise fun a b => key a < key b := by
  unfold lastOfEach
  rw [List.pairwise_filterMap]
  have hle : ((kept key l).keys.insertionSort (· ≤ ·)).Pairwise (· ≤ ·) := List.pairwise_insertionSort ..
  have hne : ((kept key l).keys.insertionSort (· ≤ ·)).Nodup := (List.perm_insertionSort ..).nodup_iff.2 (kept key l).nodup
  refine (hle.and hne).imp fun {k k'} hk a ha b hb => ?_
  rw [(get?_kept_iff.1 ha).2, (get?_kept_iff.1 hb).2]
  exact lt_of_le_of_ne hk.1 hk.2

/-- Two lists that increase in the key and have the same elements are one. -/
theorem increasing_ext (hl : l.Pairwise fun a b => key a < key b) (hm : m.Pairwise fun a b => key a < key b)
    (h : ∀ a, a ∈ l ↔ a ∈ m) : l = m := by
  have hnodup {l : List α} (hl : l.Pairwise fun a b => key a < key b) : l.Nodup := hl.imp fun hlt heq => absurd (heq ▸ hlt) (lt_irrefl _)
  refine ((List.perm_ext_iff_of_nodup (hnodup hl) (hnodup hm)).2 h).eq_of_pairwise (fun a b _ _ hab hba => ?_) hl hm
  exact absurd (hab.trans hba) (lt_irrefl _)

/-- **The only list that increases in the key and has the last of each.** -/
theorem lastOfEach_unique (hr : r.Pairwise fun a b => key a < key b) (h : ∀ a, a ∈ r ↔ IsLast key l a) : r = lastOfEach key l :=
  increasing_ext hr (lastOfEach_increasing key l) fun a => (h a).trans mem_lastOfEach.symm

theorem IsLast.mem (h : IsLast key l a) : a ∈ l := by
  obtain ⟨l₁, l₂, rfl, -⟩ := h
  simp

/-- Every key of the list is there, under an element that no other of the key comes after. -/
theorem exists_lastOfEach (key : α → ℤ) (ha : a ∈ l) : ∃ b ∈ lastOfEach key l, key b = key a ∧
    ∃ l₁ l₂, l = l₁ ++ b :: l₂ ∧ a ∈ l₁ ++ [b] := by
  obtain ⟨b, hb⟩ : ∃ b, (kept key l).get? (key a) = some b := by
    rw [get?_kept]
    cases hget : (l.filter fun x => key x = key a).getLast? with
    | none =>
      rw [List.getLast?_eq_none_iff, List.filter_eq_nil_iff] at hget
      exact absurd (decide_eq_true rfl) (hget a ha)
    | some b => exact ⟨b, rfl⟩
  obtain ⟨hlast, hkey⟩ := get?_kept_iff.1 hb
  refine ⟨b, mem_lastOfEach.2 hlast, hkey, ?_⟩
  obtain ⟨l₁, l₂, rfl, hnone⟩ := hlast
  refine ⟨l₁, l₂, rfl, ?_⟩
  have hnot : a ∉ l₂ := fun hmem => hnone a hmem hkey.symm
  rw [List.mem_append, List.mem_singleton]
  rcases List.mem_append.1 ha with ha | ha
  · exact .inl ha
  · exact .inr ((List.mem_cons.1 ha).resolve_right hnot)

/-- Where a second key increases, the last of a key is the one at its top. -/
theorem isLast_iff {ts : α → ℤ} (h : l.Pairwise fun a b => ts a < ts b) :
    IsLast key l a ↔ a ∈ l ∧ ∀ b ∈ l, key b = key a → ts b ≤ ts a := by
  constructor
  · rintro ⟨l₁, l₂, rfl, hnone⟩
    obtain ⟨-, htail, hbefore⟩ := List.pairwise_append.1 h
    refine ⟨by simp, fun b hb heq => ?_⟩
    rcases List.mem_append.1 hb with hb | hb
    · exact le_of_lt (hbefore b hb a List.mem_cons_self)
    · rcases List.mem_cons.1 hb with rfl | hb
      · exact le_rfl
      · exact absurd heq (hnone b hb)
  · rintro ⟨hmem, htop⟩
    obtain ⟨l₁, l₂, rfl⟩ := List.append_of_mem hmem
    obtain ⟨-, htail, -⟩ := List.pairwise_append.1 h
    refine ⟨l₁, l₂, rfl, fun b hb heq => ?_⟩
    have hlt : ts a < ts b := (List.pairwise_cons.1 htail).1 b hb
    have hle := htop b (by simp [hb]) heq
    omega

/-! ## Keys that do not go back -/

/-- The head of such a list is kept unless the rest has its key. -/
theorem lastOfEach_cons (h : (a :: l).Pairwise fun a b => key a ≤ key b) :
    lastOfEach key (a :: l) = if ∃ b ∈ l, key b = key a then lastOfEach key l else a :: lastOfEach key l := by
  obtain ⟨ha, -⟩ := List.pairwise_cons.1 h
  have hcons (b : α) : IsLast key (a :: l) b ↔ (b = a ∧ ∀ c ∈ l, key c ≠ key a) ∨ IsLast key l b := by
    constructor
    · rintro ⟨l₁, l₂, heq, hnone⟩
      cases l₁ with
      | nil =>
        obtain ⟨rfl, rfl⟩ := List.cons.inj heq
        exact .inl ⟨rfl, hnone⟩
      | cons x l₁ =>
        obtain ⟨rfl, rfl⟩ := List.cons.inj heq
        exact .inr ⟨l₁, l₂, rfl, hnone⟩
    · rintro (⟨rfl, hnone⟩ | ⟨l₁, l₂, rfl, hnone⟩)
      · exact ⟨[], l, rfl, hnone⟩
      · exact ⟨a :: l₁, l₂, rfl, hnone⟩
  symm
  split_ifs with hsame
  · refine lastOfEach_unique (lastOfEach_increasing key l) fun b => ?_
    rw [mem_lastOfEach, hcons]
    refine ⟨.inr, fun hb => hb.resolve_left ?_⟩
    rintro ⟨-, hnone⟩
    obtain ⟨c, hc, heq⟩ := hsame
    exact hnone c hc heq
  · have hnone : ∀ c ∈ l, key c ≠ key a := fun c hc heq => hsame ⟨c, hc, heq⟩
    refine lastOfEach_unique (List.pairwise_cons.2 ⟨fun b hb => ?_, lastOfEach_increasing key l⟩) fun b => ?_
    · have hbl := (mem_lastOfEach.1 hb).mem
      exact lt_of_le_of_ne (ha b hbl) fun heq => hnone b hbl heq.symm
    · rw [List.mem_cons, mem_lastOfEach, hcons]
      exact or_congr_left ⟨fun heq => ⟨heq, hnone⟩, And.left⟩

/-- **Nothing is made up and nothing moved.** -/
theorem lastOfEach_sublist : ∀ {l : List α}, l.Pairwise (fun a b => key a ≤ key b) → (lastOfEach key l).Sublist l
  | [], _ => .slnil
  | a :: l, h => by
    have ih := lastOfEach_sublist (List.pairwise_cons.1 h).2
    rw [lastOfEach_cons h]
    split_ifs
    · exact ih.cons a
    · exact ih.cons_cons a

/-- **The newest element is always there**, at the end. -/
theorem getLast?_lastOfEach : ∀ {l : List α}, l.Pairwise (fun a b => key a ≤ key b) → (lastOfEach key l).getLast? = l.getLast?
  | [], _ => rfl
  | [a], h => by
    rw [lastOfEach_cons h, if_neg (by simp)]
    rfl
  | a :: b :: l, h => by
    have ih := getLast?_lastOfEach (List.pairwise_cons.1 h).2
    rw [lastOfEach_cons h, List.getLast?_cons_cons]
    split_ifs
    · exact ih
    · rw [List.getLast?_cons, ih]
      rfl

/-- An element is the last of its bucket in what was kept exactly when it was in the list. -/
theorem isLast_coarse {g : ℤ → ℤ} (h : l.Pairwise fun a b => key a ≤ key b) :
    IsLast (fun a => g (key a)) (lastOfEach key l) a ↔ IsLast (fun a => g (key a)) l a := by
  constructor
  · rintro ⟨r₁, r₂, heq, hnone⟩
    have hmem : IsLast key l a := mem_lastOfEach.1 (heq ▸ by simp)
    obtain ⟨l₁, l₂, rfl, hlast⟩ := hmem
    refine ⟨l₁, l₂, rfl, fun b hb hgb => ?_⟩
    -- were a later one of the bucket, the last of its key would be in what is kept, and later
    obtain ⟨-, htail, -⟩ := List.pairwise_append.1 h
    have hab : key a < key b := lt_of_le_of_ne ((List.pairwise_cons.1 htail).1 b hb) (Ne.symm (hlast b hb))
    obtain ⟨c, hclast, hckey, -⟩ := exists_lastOfEach key (show b ∈ l₁ ++ a :: l₂ by simp [hb])
    have hcmem : c ∈ r₁ ++ a :: r₂ := heq ▸ hclast
    have hincreasing := heq ▸ lastOfEach_increasing key (l₁ ++ a :: l₂)
    obtain ⟨-, -, hbefore⟩ := List.pairwise_append.1 hincreasing
    rcases List.mem_append.1 hcmem with hcr | hcr
    · have hlt := hbefore c hcr a List.mem_cons_self
      omega
    · rcases List.mem_cons.1 hcr with rfl | hcr
      · omega
      · exact hnone c hcr ((congrArg g hckey).trans hgb)
  · rintro ⟨l₁, l₂, rfl, hnone⟩
    have hlast : IsLast key (l₁ ++ a :: l₂) a := ⟨l₁, l₂, rfl, fun b hb heq => hnone b hb (congrArg g heq)⟩
    obtain ⟨r₁, r₂, heq⟩ := List.append_of_mem (mem_lastOfEach.2 hlast)
    refine ⟨r₁, r₂, heq, fun b hb hgb => ?_⟩
    have hincreasing := heq ▸ lastOfEach_increasing key (l₁ ++ a :: l₂)
    obtain ⟨-, htail, -⟩ := List.pairwise_append.1 hincreasing
    have hab : key a < key b := (List.pairwise_cons.1 htail).1 b hb
    have hbr : b ∈ lastOfEach key (l₁ ++ a :: l₂) := by
      rw [heq]
      simp [hb]
    have hbl : b ∈ l₁ ++ a :: l₂ := (mem_lastOfEach.1 hbr).mem
    obtain ⟨-, -, hbefore⟩ := List.pairwise_append.1 h
    rcases List.mem_append.1 hbl with hbl | hbl
    · have hle := hbefore b hbl a List.mem_cons_self
      omega
    · rcases List.mem_cons.1 hbl with rfl | hbl
      · exact lt_irrefl _ hab
      · exact hnone b hbl hgb

/-- **The last of each bucket, and then of each wider one, is the last of each wider one.** -/
theorem lastOfEach_coarse {g : ℤ → ℤ} (h : l.Pairwise fun a b => key a ≤ key b) :
    lastOfEach (fun a => g (key a)) (lastOfEach key l) = lastOfEach (fun a => g (key a)) l :=
  lastOfEach_unique (lastOfEach_increasing _ _) fun _ => mem_lastOfEach.trans (isLast_coarse h)

theorem kept_coarse {g : ℤ → ℤ} (h : l.Pairwise fun a b => key a ≤ key b) (k : ℤ) :
    (kept (fun a => g (key a)) (lastOfEach key l)).get? k = (kept (fun a => g (key a)) l).get? k := by
  refine Option.ext fun a => ?_
  rw [get?_kept_iff, get?_kept_iff, isLast_coarse h]

/-- No more of them than there are keys to have. -/
theorem length_increasing : ∀ {r : List α} {lo hi : ℤ}, r.Pairwise (fun a b => key a < key b) →
    (∀ b ∈ r, lo ≤ key b ∧ key b ≤ hi) → r.length ≤ (hi - lo + 1).toNat
  | [], _, _, _, _ => Nat.zero_le _
  | a :: _, _, _, hr, hin => by
    obtain ⟨ha, hrest⟩ := List.pairwise_cons.1 hr
    have ih := length_increasing hrest fun b hb =>
      ⟨ha b hb, (hin b (List.mem_cons_of_mem _ hb)).2⟩
    have hbounds := hin a List.mem_cons_self
    rw [List.length_cons]
    omega

end LastOfEach
end Atp
