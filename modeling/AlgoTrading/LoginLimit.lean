import Mathlib.Data.Finset.Max
import Mathlib.Data.Finset.Prod
import Mathlib.Order.Interval.Finset.Nat
import AlgoTrading.Runs
/-!
# LoginLimit — how many sign-ins a fixed window lets through, and the window that never ends

`RedisRateLimiter.check` of `apps/api/ratelimit.py` on one key, any number of calls at once: an INCR, an EXPIRE by the call that
made the key, and a TTL by the ones over the limit, each a round trip that can fail, or land and lose its reply.  Instants are
milliseconds.  A key's life is from the INCR that makes it to the INCR that finds it expired; the counts of one life are
distinct, and two lives are a window apart.
-/
namespace Atp
namespace LoginLimit

open Runs

/-- The key: how often it was incremented, and when it expires, if ever. -/
structure Counter where
  count : ℕ
  expireAt : Option ℤ := none
deriving DecidableEq

/-- When an INCR landed, in which life of the key, and what it made of the count. -/
structure Stamp where
  «at» : ℤ
  life : ℕ
  count : ℕ
deriving DecidableEq

/-- Where a call of `check` stands; `opened` is a call that an exception let through, with its INCR if that landed. -/
inductive Phase
  | incrementing
  | expiring (s : Stamp)
  | asking (s : Stamp)
  | admitted (s : Stamp)
  | refused (s : Stamp) (retryAfter : ℤ)
  | opened (s : Option Stamp)
deriving DecidableEq

def Phase.stamp : Phase → Option Stamp
  | incrementing => none
  | expiring s | asking s | admitted s | refused s _ => some s
  | opened s => s

/-- The INCRs of the calls the count let through. -/
def Phase.admission : Phase → Option Stamp
  | admitted s => some s
  | _ => none

/-- A round trip: answered, or it landed and the reply was lost, or it never landed. -/
inductive Reply
  | answered
  | lost
  | failed
deriving DecidableEq

structure Limiter where
  now : ℤ := 0
  key : Option Counter := none
  born : List ℤ := []
  calls : List Phase := []

inductive Event
  | tick (ms : ℕ)
  | arrive
  | trip (i : ℕ) (reply : Reply)

variable (limit window : ℕ)

/-- What Redis finds under the key: it is gone once its expiry has passed. -/
def Limiter.live (s : Limiter) : Option Counter := s.key.filter fun c => c.expireAt.all fun x => decide (s.now ≤ x)

/-- INCR, and its stamp. -/
def Limiter.incr (s : Limiter) : Limiter × Stamp :=
  match s.live with
  | none => ({ s with key := some ⟨1, none⟩, born := s.born ++ [s.now] }, ⟨s.now, s.born.length + 1, 1⟩)
  | some c => ({ s with key := some { c with count := c.count + 1 } }, ⟨s.now, s.born.length, c.count + 1⟩)

/-- EXPIRE. -/
def Limiter.expire (s : Limiter) : Limiter :=
  { s with key := s.live.map fun c => { c with expireAt := some (s.now + 1000 * window) } }

/-- TTL: to the nearest second; -1 where the key has no expiry, -2 where there is no key. -/
def Limiter.ttl (s : Limiter) : ℤ :=
  match s.live with
  | none => -2
  | some c =>
    match c.expireAt with
    | none => -1
    | some x => (x - s.now + 500) / 1000

/-- Past the INCR and its EXPIRE: the verdict, or the TTL of a refusal. -/
def counted (st : Stamp) : Phase := if st.count ≤ limit then .admitted st else .asking st

/-- **`check`**, a round trip at a time. -/
def advance (s : Limiter) (reply : Reply) : Phase → Option (Limiter × Phase)
  | .incrementing =>
    match reply with
    | .answered => some (s.incr.1, if s.incr.2.count = 1 then .expiring s.incr.2 else counted limit s.incr.2)
    | .lost => some (s.incr.1, .opened (some s.incr.2))
    | .failed => some (s, .opened none)
  | .expiring st =>
    match reply with
    | .answered => some (s.expire window, counted limit st)
    | .lost => some (s.expire window, .opened (some st))
    | .failed => some (s, .opened (some st))
  | .asking st =>
    match reply with
    | .answered => some (s, .refused st (max s.ttl 1))
    | _ => some (s, .opened (some st))
  | _ => none

def act (s : Limiter) : Event → Option Limiter
  | .tick ms => some { s with now := s.now + ms }
  | .arrive => some { s with calls := s.calls ++ [.incrementing] }
  | .trip i reply =>
    match s.calls[i]? with
    | none => none
    | some p => (advance limit window s reply p).map fun r => { r.1 with calls := s.calls.set i r.2 }

def Act (s : Limiter) (e : Event) (t : Limiter) : Prop := act limit window s e = some t

/-! ## The lives of the key -/

/-- **The books of the key**: its lives are a window apart, an INCR lies in the life it names and before every later one, and no
two INCRs of one life made the same count. -/
structure Ledger (now : ℤ) (key : Option Counter) (born : List ℤ) (stamps : List Stamp) : Prop where
  spaced : born.Pairwise fun a b => a + 1000 * (window : ℤ) ≤ b
  past : ∀ b ∈ born, b ≤ now
  stamped : ∀ st ∈ stamps, (∃ b, born[st.life - 1]? = some b ∧ b ≤ st.at ∧ (st.count = 1 → st.at = b)) ∧ 1 ≤ st.life ∧ st.life ≤ born.length ∧ 1 ≤ st.count ∧
    st.at ≤ now ∧ ∀ b ∈ born.drop st.life, st.at ≤ b
  distinct : (stamps.map fun st => (st.life, st.count)).Nodup
  current : ∀ c ∈ key, (∀ st ∈ stamps, st.life = born.length → st.count ≤ c.count) ∧
    (∀ x ∈ c.expireAt, ∀ b ∈ born, b + 1000 * window ≤ x) ∧ 1 ≤ c.count ∧ born ≠ []
  fresh : key = none → born = []

variable {limit window}

section
variable {now : ℤ} {key : Option Counter} {born : List ℤ} {stamps stamps' : List Stamp}

theorem Ledger.perm (h : Ledger window now key born stamps) (hperm : stamps'.Perm stamps) : Ledger window now key born stamps' where
  spaced := h.spaced
  past := h.past
  stamped st hst := h.stamped st (hperm.mem_iff.1 hst)
  distinct := (hperm.map _).nodup_iff.2 h.distinct
  current c hc := ⟨fun st hst => (h.current c hc).1 st (hperm.mem_iff.1 hst), (h.current c hc).2⟩
  fresh := h.fresh

theorem Ledger.tick (h : Ledger window now key born stamps) (ms : ℕ) : Ledger window (now + ms) key born stamps where
  spaced := h.spaced
  past b hb := by have := h.past b hb; omega
  stamped st hst := by
    obtain ⟨hb, hpos, hlife, hcount, hat, hlater⟩ := h.stamped st hst
    exact ⟨hb, hpos, hlife, hcount, by omega, hlater⟩
  distinct := h.distinct
  current := h.current
  fresh := h.fresh

/-- An INCR of a key that is there. -/
theorem Ledger.count {c : Counter} (h : Ledger window now (some c) born stamps) :
    Ledger window now (some { c with count := c.count + 1 }) born (⟨now, born.length, c.count + 1⟩ :: stamps) where
  spaced := h.spaced
  past := h.past
  stamped st hst := by
    rcases List.mem_cons.1 hst with rfl | hst
    · have hpos := List.length_pos_iff.2 (h.current c rfl).2.2.2
      obtain ⟨b, hb⟩ : ∃ b, born[born.length - 1]? = some b := ⟨born[born.length - 1], List.getElem?_eq_getElem (by omega)⟩
      have hone : c.count + 1 ≠ 1 := by
        have hle := (h.current c rfl).2.2.1
        omega
      refine ⟨⟨b, hb, h.past b (List.mem_of_getElem? hb), fun heq => absurd heq hone⟩, hpos, le_refl _, by simp, le_refl _, fun b hb => ?_⟩
      rw [List.drop_length] at hb
      cases hb
    · exact h.stamped st hst
  distinct := by
    rw [List.map_cons, List.nodup_cons]
    refine ⟨fun hmem => ?_, h.distinct⟩
    obtain ⟨st, hst, heq⟩ := List.mem_map.1 hmem
    obtain ⟨hlife, hcount⟩ := Prod.mk.inj heq
    have hle := (h.current c rfl).1 st hst hlife
    exact absurd (hcount ▸ hle) (Nat.not_succ_le_self _)
  current c' hc' := by
    obtain rfl : { c with count := c.count + 1 } = c' := Option.some.inj hc'
    obtain ⟨hcurrent, hexpiry, -, hborn⟩ := h.current c rfl
    refine ⟨fun st hst hlife => ?_, hexpiry, Nat.le_add_left 1 _, hborn⟩
    rcases List.mem_cons.1 hst with rfl | hst
    · exact le_refl _
    · exact (hcurrent st hst hlife).trans (Nat.le_succ _)
  fresh hnone := by cases hnone

/-- **An INCR that makes the key**: the last life is over, a window after it began. -/
theorem Ledger.create (h : Ledger window now key born stamps) (hdead : ∀ c ∈ key, ∃ x ∈ c.expireAt, x < now) :
    Ledger window now (some ⟨1, none⟩) (born ++ [now]) (⟨now, born.length + 1, 1⟩ :: stamps) where
  spaced := by
    refine List.pairwise_append.2 ⟨h.spaced, List.pairwise_singleton _ _, fun a ha b hb => ?_⟩
    rw [List.mem_singleton.1 hb]
    cases hkey : key with
    | none =>
      rw [h.fresh hkey] at ha
      cases ha
    | some c =>
      obtain ⟨x, hx, hlt⟩ := hdead c hkey
      have hle := (h.current c hkey).2.1 x hx a ha
      omega
  past b hb := by
    rcases List.mem_append.1 hb with hb | hb
    · exact h.past b hb
    · exact (List.mem_singleton.1 hb).le
  stamped st hst := by
    rcases List.mem_cons.1 hst with rfl | hst
    · refine ⟨⟨now, by simp, le_refl _, fun _ => rfl⟩, by simp, by simp, le_refl _, le_refl _, fun b hb => ?_⟩
      rw [List.drop_of_length_le (by simp)] at hb
      cases hb
    · obtain ⟨⟨b, hb, hbat⟩, hpos, hlife, hcount, hat, hlater⟩ := h.stamped st hst
      refine ⟨⟨b, ?_, hbat⟩, hpos, by simp; omega, hcount, hat, fun b' hb' => ?_⟩
      · rw [List.getElem?_append_left (by omega)]
        exact hb
      · rw [List.drop_append_of_le_length hlife] at hb'
        rcases List.mem_append.1 hb' with hb' | hb'
        · exact hlater b' hb'
        · rw [List.mem_singleton.1 hb']
          exact hat
  distinct := by
    rw [List.map_cons, List.nodup_cons]
    refine ⟨fun hmem => ?_, h.distinct⟩
    obtain ⟨st, hst, heq⟩ := List.mem_map.1 hmem
    obtain ⟨hlife, -⟩ := Prod.mk.inj heq
    have hle := (h.stamped st hst).2.2.1
    exact absurd (hlife ▸ hle) (Nat.not_succ_le_self _)
  current c hc := by
    obtain rfl : (⟨1, none⟩ : Counter) = c := Option.some.inj hc
    refine ⟨fun st hst hlife => ?_, by simp, le_refl _, by simp⟩
    rcases List.mem_cons.1 hst with rfl | hst
    · exact le_refl _
    · have hle := (h.stamped st hst).2.2.1
      rw [hlife, List.length_append, List.length_singleton] at hle
      omega
  fresh hnone := by cases hnone

/-- **EXPIRE gives the life its window**, from now. -/
theorem Ledger.expire {c : Counter} (h : Ledger window now (some c) born stamps) :
    Ledger window now (some { c with expireAt := some (now + 1000 * window) }) born stamps where
  spaced := h.spaced
  past := h.past
  stamped := h.stamped
  distinct := h.distinct
  current c' hc' := by
    obtain rfl : { c with expireAt := some (now + 1000 * (window : ℤ)) } = c' := Option.some.inj hc'
    refine ⟨(h.current c rfl).1, fun x hx b hb => ?_, (h.current c rfl).2.2⟩
    obtain rfl : now + 1000 * (window : ℤ) = x := Option.some.inj hx
    have hle := h.past b hb
    omega
  fresh hnone := by cases hnone

/-- **Of three lives, the first and the last are a window apart.** -/
theorem Ledger.apart (h : Ledger window now key born stamps) {a b c : Stamp} (ha : a ∈ stamps) (hb : b ∈ stamps) (hc : c ∈ stamps)
    (hab : a.life < b.life) (hbc : b.life < c.life) : a.at + 1000 * window ≤ c.at := by
  obtain ⟨-, -, -, -, -, halater⟩ := h.stamped a ha
  obtain ⟨⟨y, hy, -, -⟩, hbpos, hblife, -⟩ := h.stamped b hb
  obtain ⟨⟨z, hz, hzat, -⟩, hcpos, hclife, -⟩ := h.stamped c hc
  have hay : a.at ≤ y := by
    refine halater y (List.mem_of_getElem? (i := b.life - 1 - a.life) ?_)
    rw [List.getElem?_drop, show a.life + (b.life - 1 - a.life) = b.life - 1 by omega]
    exact hy
  have hyz : y + 1000 * window ≤ z := by
    obtain ⟨hby, rfl⟩ := List.getElem?_eq_some_iff.1 hy
    obtain ⟨hcz, rfl⟩ := List.getElem?_eq_some_iff.1 hz
    exact List.pairwise_iff_getElem.1 h.spaced _ _ hby hcz (by omega)
  omega

/-- The INCR that makes the key is a window before any INCR of a later life. -/
theorem Ledger.first_apart (h : Ledger window now key born stamps) {a c : Stamp} (ha : a ∈ stamps) (hc : c ∈ stamps)
    (hone : a.count = 1) (hac : a.life < c.life) : a.at + 1000 * window ≤ c.at := by
  obtain ⟨⟨y, hy, -, hmade⟩, hapos, halife, -⟩ := h.stamped a ha
  obtain ⟨⟨z, hz, hzat, -⟩, hcpos, hclife, -⟩ := h.stamped c hc
  obtain ⟨hay, rfl⟩ := List.getElem?_eq_some_iff.1 hy
  obtain ⟨hcz, rfl⟩ := List.getElem?_eq_some_iff.1 hz
  have hyz := List.pairwise_iff_getElem.1 h.spaced _ _ hay hcz (by omega)
  have hat := hmade hone
  omega

/-- **A window sees two lives at most**, each counts to the limit once, and of two the earlier one's first is out of the window. -/
theorem Ledger.bound (h : Ledger window now key born stamps) {t : ℤ} {l : List Stamp} (hsub : l.Sublist stamps)
    (hcount : ∀ st ∈ l, st.count ≤ limit) (hin : ∀ st ∈ l, t ≤ st.at ∧ st.at < t + 1000 * window) : l.length ≤ 2 * limit - 1 := by
  let lives : Finset ℕ := (l.map Stamp.life).toFinset
  have hmem (n : ℕ) (hn : n ∈ lives) : ∃ st ∈ l, st.life = n := List.mem_map.1 (List.mem_toFinset.1 hn)
  -- of three lives in the window, in whichever order, the first and the last would be a window apart
  have hordered (p q r : ℕ) (hp : p ∈ lives) (hq : q ∈ lives) (hr : r ∈ lives) (hpq : p < q) (hqr : q < r) : False := by
    obtain ⟨a, ha, rfl⟩ := hmem p hp
    obtain ⟨b, hb, rfl⟩ := hmem q hq
    obtain ⟨c, hc, rfl⟩ := hmem r hr
    have hle := h.apart (hsub.subset ha) (hsub.subset hb) (hsub.subset hc) hpq hqr
    have hta := hin a ha
    have htc := hin c hc
    omega
  have hnodup : (l.map fun st => (st.life, st.count)).Nodup := h.distinct.sublist (hsub.map _)
  have hcard : l.length = (l.map fun st => (st.life, st.count)).toFinset.card := by
    rw [List.toFinset_card_of_nodup hnodup, List.length_map]
  have hsubset : (l.map fun st => (st.life, st.count)).toFinset ⊆ lives ×ˢ Finset.Icc 1 limit := by
    intro e he
    obtain ⟨st, hst, rfl⟩ := List.mem_map.1 (List.mem_toFinset.1 he)
    refine Finset.mem_product.2 ⟨List.mem_toFinset.2 (List.mem_map_of_mem hst), Finset.mem_Icc.2 ⟨?_, hcount st hst⟩⟩
    exact (h.stamped st (hsub.subset hst)).2.2.2.1
  rcases l.eq_nil_or_concat with rfl | ⟨_, last, hlast⟩
  · exact Nat.zero_le _
  have hin_last : last ∈ l := by rw [hlast, List.concat_eq_append]; simp
  have hlimit : 1 ≤ limit := (h.stamped last (hsub.subset hin_last)).2.2.2.1.trans (hcount last hin_last)
  have hnonempty : lives.Nonempty := ⟨last.life, List.mem_toFinset.2 (List.mem_map_of_mem hin_last)⟩
  let first := lives.min' hnonempty
  by_cases hone : lives ⊆ {first}
  · calc l.length
        _ ≤ (lives ×ˢ Finset.Icc 1 limit).card := hcard ▸ Finset.card_le_card hsubset
        _ = lives.card * limit := by rw [Finset.card_product, Nat.card_Icc, Nat.add_sub_cancel]
        _ ≤ 1 * limit := Nat.mul_le_mul_right limit (Finset.card_le_card hone)
        _ ≤ 2 * limit - 1 := by omega
  · obtain ⟨second, hsecond, hne⟩ : ∃ n ∈ lives, n ≠ first := by
      by_contra hnone
      exact hone fun n hn => Finset.mem_singleton.2 (by
        by_contra hne
        exact hnone ⟨n, hn, hne⟩)
    have hfirst : first ∈ lives := lives.min'_mem hnonempty
    have hlt : first < second := lt_of_le_of_ne (lives.min'_le second hsecond) (Ne.symm hne)
    have htwo : lives ⊆ {first, second} := by
      intro n hn
      rw [Finset.mem_insert, Finset.mem_singleton]
      by_contra hother
      obtain ⟨hnf, hns⟩ := not_or.1 hother
      have hlt' : first < n := lt_of_le_of_ne (lives.min'_le n hn) (Ne.symm hnf)
      rcases lt_or_gt_of_ne hns with hless | hmore
      · exact hordered first n second hfirst hn hsecond hlt' hless
      · exact hordered first second n hfirst hsecond hn hlt hmore
    have herase : (l.map fun st => (st.life, st.count)).toFinset ⊆ (lives ×ˢ Finset.Icc 1 limit).erase (first, 1) := by
      intro e he
      refine Finset.mem_erase.2 ⟨?_, hsubset he⟩
      rintro rfl
      obtain ⟨a, ha, heq⟩ := List.mem_map.1 (List.mem_toFinset.1 he)
      obtain ⟨halife, hacount⟩ := Prod.mk.inj heq
      obtain ⟨c, hc, hclife⟩ := hmem second hsecond
      have hle := h.first_apart (hsub.subset ha) (hsub.subset hc) hacount (by omega)
      have hta := hin a ha
      have htc := hin c hc
      omega
    have hproduct : (first, 1) ∈ lives ×ˢ Finset.Icc 1 limit :=
      Finset.mem_product.2 ⟨hfirst, Finset.mem_Icc.2 ⟨le_refl 1, hlimit⟩⟩
    calc l.length
        _ ≤ ((lives ×ˢ Finset.Icc 1 limit).erase (first, 1)).card := hcard ▸ Finset.card_le_card herase
        _ = lives.card * limit - 1 := by
          rw [Finset.card_erase_of_mem hproduct, Finset.card_product, Nat.card_Icc, Nat.add_sub_cancel]
        _ ≤ 2 * limit - 1 := Nat.sub_le_sub_right (Nat.mul_le_mul_right limit ((Finset.card_le_card htwo).trans Finset.card_le_two)) 1

end

/-! ## Every run -/

section
variable {s t : Limiter}

/-- Every INCR that landed for a call. -/
def Limiter.stamps (s : Limiter) : List Stamp := s.calls.filterMap Phase.stamp

/-- The INCRs of the calls the count let through. -/
def Limiter.admissions (s : Limiter) : List Stamp := s.calls.filterMap Phase.admission

/-- A call that is about to set the expiry made the key, and the key has none; and one let through was within the limit. -/
structure Paced (limit window : ℕ) (s : Limiter) : Prop where
  ledger : Ledger window s.now s.key s.born s.stamps
  expiring : ∀ st, .expiring st ∈ s.calls → (st.life, st.count) = (s.born.length, 1) ∧ ∃ c ∈ s.key, c.expireAt = none
  admitted : ∀ st, .admitted st ∈ s.calls → st.count ≤ limit

/-- One call of a list, in place. -/
theorem split_set {α : Type} {l : List α} {i : ℕ} {x : α} (h : l[i]? = some x) :
    ∃ l₁ l₂, l = l₁ ++ x :: l₂ ∧ ∀ y, l.set i y = l₁ ++ y :: l₂ := by
  induction l generalizing i with
  | nil => cases h
  | cons a l ih =>
    cases i with
    | zero =>
      obtain rfl : a = x := Option.some.inj h
      exact ⟨[], l, rfl, fun y => rfl⟩
    | succ i =>
      obtain ⟨l₁, l₂, rfl, hset⟩ := ih h
      exact ⟨a :: l₁, l₂, rfl, fun y => by rw [List.set_cons_succ, hset]; rfl⟩

/-- **What a round trip does to the stamps**: nothing, or it adds its own. -/
theorem stamps_set {calls : List Phase} {i : ℕ} {p : Phase} (p' : Phase) (h : calls[i]? = some p) :
    (p'.stamp = p.stamp → (calls.set i p').filterMap Phase.stamp = calls.filterMap Phase.stamp) ∧
      ∀ st, p.stamp = none → p'.stamp = some st →
        ((calls.set i p').filterMap Phase.stamp).Perm (st :: calls.filterMap Phase.stamp) := by
  obtain ⟨l₁, l₂, rfl, hset⟩ := split_set h
  rw [hset]
  simp only [List.filterMap_append, List.filterMap_cons]
  refine ⟨fun heq => by rw [heq], fun st hnone hsome => ?_⟩
  rw [hnone, hsome]
  exact List.perm_middle

theorem live_eq (s : Limiter) : (s.live = none ∧ ∀ c ∈ s.key, ∃ x ∈ c.expireAt, x < s.now) ∨ ∃ c, s.live = some c ∧ s.key = some c := by
  unfold Limiter.live
  cases hkey : s.key with
  | none => exact .inl ⟨rfl, fun c hc => by cases hc⟩
  | some c =>
    rw [Option.filter_some]
    by_cases hlive : (c.expireAt.all fun x => decide (s.now ≤ x)) = true
    · rw [if_pos hlive]
      exact .inr ⟨c, rfl, rfl⟩
    · rw [if_neg hlive]
      refine .inl ⟨rfl, fun c' hc' => ?_⟩
      obtain rfl : c = c' := Option.some.inj hc'
      cases hx : c.expireAt with
      | none => simp [hx] at hlive
      | some x => exact ⟨x, rfl, by simpa [hx] using hlive⟩

/-- A key with no expiry is there. -/
theorem live_of_endless {c : Counter} (hkey : s.key = some c) (hnone : c.expireAt = none) : s.live = some c := by
  unfold Limiter.live
  rw [hkey, Option.filter_some, hnone]
  rfl

/-- **INCR, in the books.** -/
theorem incr_ledger (h : Ledger window s.now s.key s.born s.stamps) :
    Ledger window s.now s.incr.1.key s.incr.1.born (s.incr.2 :: s.stamps) ∧ s.incr.1.now = s.now ∧ s.incr.1.calls = s.calls ∧
      (s.incr.2.count = 1 → s.incr.1.key = some ⟨1, none⟩ ∧ s.incr.2.life = s.incr.1.born.length) ∧
      ((∃ c ∈ s.key, c.expireAt = none) → (∃ c ∈ s.incr.1.key, c.expireAt = none) ∧ s.incr.1.born = s.born) := by
  unfold Limiter.incr
  rcases live_eq s with ⟨hlive, hdead⟩ | ⟨c, hlive, hkey⟩ <;> rw [hlive]
  · refine ⟨h.create hdead, rfl, rfl, fun _ => ⟨rfl, by simp⟩, fun hendless => ?_⟩
    obtain ⟨c, hc, hnone⟩ := hendless
    obtain ⟨x, hx, -⟩ := hdead c hc
    rw [hnone] at hx
    cases hx
  · rw [hkey] at h
    obtain ⟨-, -, hpos, -⟩ := h.current c rfl
    refine ⟨h.count, rfl, rfl, fun hone => absurd hone (by dsimp only; omega), ?_⟩
    rintro ⟨c', hc', hnone⟩
    obtain rfl : c = c' := Option.some.inj (hkey.symm.trans hc')
    exact ⟨⟨_, rfl, hnone⟩, rfl⟩

theorem counted_stamp (st : Stamp) : (counted limit st).stamp = some st := by
  unfold counted
  split_ifs <;> rfl

/-- What a call becomes once its INCR is counted. -/
theorem counted_spec (st : Stamp) : (∀ st', counted limit st ≠ .expiring st') ∧ ∀ st', counted limit st = .admitted st' → st'.count ≤ limit := by
  unfold counted
  split_ifs with h
  · refine ⟨by simp, fun st' heq => ?_⟩
    obtain rfl : st = st' := Phase.admitted.inj heq
    exact h
  · exact ⟨by simp, by simp⟩

/-- A call of the list after one of them moved. -/
theorem mem_set_cases {calls : List Phase} {i : ℕ} {p q : Phase} (h : q ∈ calls.set i p) : q = p ∨ q ∈ calls :=
  (List.mem_or_eq_of_mem_set h).symm

/-- **What a round trip is, in the books**: an INCR that adds its stamp, an EXPIRE by the call that made the key, or neither. -/
theorem advance_paced {i : ℕ} {p p' : Phase} {reply : Reply} (h : Paced limit window s) (hp : s.calls[i]? = some p)
    (hadvance : advance limit window s reply p = some (t, p')) : Paced limit window { t with calls := s.calls.set i p' } := by
  have hmem : p ∈ s.calls := List.mem_of_getElem? hp
  obtain ⟨hsame, hadds⟩ := stamps_set p' hp
  -- a call that ends, or goes on without an INCR of its own, leaves the books as they are
  have hquiet (ht : t = s) (hstamp : p'.stamp = p.stamp) (hexp : ∀ st, p' ≠ .expiring st) (hadm : ∀ st, p' = .admitted st → st.count ≤ limit) :
      Paced limit window { t with calls := s.calls.set i p' } := by
    subst ht
    refine ⟨(congrArg (Ledger window t.now t.key t.born) (hsame hstamp)).mpr h.ledger, fun st hst => ?_, fun st hst => ?_⟩
    · rcases mem_set_cases hst with heq | hst
      · exact absurd heq.symm (hexp st)
      · exact h.expiring st hst
    · rcases mem_set_cases hst with heq | hst
      · exact hadm st heq.symm
      · exact h.admitted st hst
  have hincr (ht : t = s.incr.1) (hnone : p.stamp = none) (hstamp : p'.stamp = some s.incr.2)
      (hexp : ∀ st, p' = .expiring st → st = s.incr.2 ∧ st.count = 1) (hadm : ∀ st, p' = .admitted st → st.count ≤ limit) :
      Paced limit window { t with calls := s.calls.set i p' } := by
    obtain ⟨hledger, hnow, -, hmade, hendless⟩ := incr_ledger h.ledger
    subst ht
    refine ⟨?_, fun st hst => ?_, fun st hst => ?_⟩
    · change Ledger window s.incr.1.now s.incr.1.key s.incr.1.born ((s.calls.set i p').filterMap Phase.stamp)
      rw [hnow]
      exact hledger.perm (hadds _ hnone hstamp)
    · rcases mem_set_cases hst with heq | hst
      · obtain ⟨rfl, hone⟩ := hexp st heq.symm
        obtain ⟨hkey, hlife⟩ := hmade hone
        exact ⟨Prod.ext hlife hone, _, hkey, rfl⟩
      · obtain ⟨hfirst, hno⟩ := h.expiring st hst
        obtain ⟨hno', hborn⟩ := hendless hno
        exact ⟨hfirst.trans (by rw [← hborn]), hno'⟩
    · rcases mem_set_cases hst with heq | hst
      · exact hadm st heq.symm
      · exact h.admitted st hst
  have hexpire (st : Stamp) (hphase : p = .expiring st) (ht : t = s.expire window) (hstamp : p'.stamp = some st)
      (hexp : ∀ st, p' ≠ .expiring st) (hadm : ∀ st, p' = .admitted st → st.count ≤ limit) :
      Paced limit window { t with calls := s.calls.set i p' } := by
    subst hphase ht
    obtain ⟨hfirst, c, hc, hnone⟩ := h.expiring st hmem
    have hkey : (s.expire window).key = some { c with expireAt := some (s.now + 1000 * window) } := by
      show s.live.map _ = _
      rw [live_of_endless hc hnone]
      rfl
    refine ⟨?_, fun st' hst' => ?_, fun st' hst' => ?_⟩
    · change Ledger window s.now (s.expire window).key s.born ((s.calls.set i p').filterMap Phase.stamp)
      rw [hkey, hsame hstamp]
      exact Ledger.expire (hc ▸ h.ledger)
    · -- only one call of a life makes the key
      obtain ⟨l₁, l₂, hcalls, hset⟩ := split_set hp
      change Phase.expiring st' ∈ s.calls.set i p' at hst'
      rw [hset, List.mem_append, List.mem_cons] at hst'
      have hother : Phase.expiring st' ∈ l₁ ++ l₂ := by
        rw [List.mem_append]
        rcases hst' with hst' | heq | hst'
        · exact .inl hst'
        · exact absurd heq.symm (hexp st')
        · exact .inr hst'
      have hfirst' := (h.expiring st' (by
        rw [hcalls, List.mem_append, List.mem_cons]
        exact (List.mem_append.1 hother).imp_right .inr)).1
      have hnodup : (((l₁ ++ Phase.expiring st :: l₂).filterMap Phase.stamp).map fun st => (st.life, st.count)).Nodup :=
        hcalls ▸ h.ledger.distinct
      have hperm : (((l₁ ++ Phase.expiring st :: l₂).filterMap Phase.stamp).map fun st => (st.life, st.count)).Perm
          ((st.life, st.count) :: ((l₁ ++ l₂).filterMap Phase.stamp).map fun st => (st.life, st.count)) :=
        (List.perm_middle.filterMap Phase.stamp).map fun st => (st.life, st.count)
      refine absurd ?_ (List.nodup_cons.1 (hperm.nodup_iff.1 hnodup)).1
      rw [hfirst, ← hfirst']
      exact List.mem_map.2 ⟨st', List.mem_filterMap.2 ⟨_, hother, rfl⟩, rfl⟩
    · rcases mem_set_cases hst' with heq | hst'
      · exact hadm st' heq.symm
      · exact h.admitted st' hst'
  cases p with
  | incrementing =>
    cases reply with
    | answered =>
      simp only [advance, Option.some.injEq, Prod.mk.injEq] at hadvance
      obtain ⟨rfl, rfl⟩ := hadvance
      refine hincr rfl rfl ?_ (fun st heq => ?_) fun st heq => ?_
      · split_ifs
        · rfl
        · exact counted_stamp _
      · split_ifs at heq with hone
        · obtain rfl : s.incr.2 = st := Phase.expiring.inj heq
          exact ⟨rfl, hone⟩
        · exact absurd heq ((counted_spec _).1 st)
      · split_ifs at heq
        exact (counted_spec _).2 st heq
    | lost =>
      simp only [advance, Option.some.injEq, Prod.mk.injEq] at hadvance
      obtain ⟨rfl, rfl⟩ := hadvance
      exact hincr rfl rfl rfl (by simp) (by simp)
    | failed =>
      simp only [advance, Option.some.injEq, Prod.mk.injEq] at hadvance
      obtain ⟨rfl, rfl⟩ := hadvance
      exact hquiet rfl rfl (by simp) (by simp)
  | expiring st =>
    cases reply with
    | answered =>
      simp only [advance, Option.some.injEq, Prod.mk.injEq] at hadvance
      obtain ⟨rfl, rfl⟩ := hadvance
      exact hexpire st rfl rfl (counted_stamp st) (counted_spec st).1 (counted_spec st).2
    | lost =>
      simp only [advance, Option.some.injEq, Prod.mk.injEq] at hadvance
      obtain ⟨rfl, rfl⟩ := hadvance
      exact hexpire st rfl rfl rfl (by simp) (by simp)
    | failed =>
      simp only [advance, Option.some.injEq, Prod.mk.injEq] at hadvance
      obtain ⟨rfl, rfl⟩ := hadvance
      exact hquiet rfl rfl (by simp) (by simp)
  | asking st =>
    cases reply with
    | answered =>
      simp only [advance, Option.some.injEq, Prod.mk.injEq] at hadvance
      obtain ⟨rfl, rfl⟩ := hadvance
      exact hquiet rfl rfl (by simp) (by simp)
    | lost =>
      simp only [advance, Option.some.injEq, Prod.mk.injEq] at hadvance
      obtain ⟨rfl, rfl⟩ := hadvance
      exact hquiet rfl rfl (by simp) (by simp)
    | failed =>
      simp only [advance, Option.some.injEq, Prod.mk.injEq] at hadvance
      obtain ⟨rfl, rfl⟩ := hadvance
      exact hquiet rfl rfl (by simp) (by simp)
  | admitted st => cases hadvance
  | refused st retryAfter => cases hadvance
  | opened st => cases hadvance

theorem act_paced {e : Event} (h : Paced limit window s) (hstep : Act limit window s e t) : Paced limit window t := by
  unfold Act at hstep
  cases e with
  | tick ms =>
    cases hstep
    exact ⟨h.ledger.tick ms, h.expiring, h.admitted⟩
  | arrive =>
    cases hstep
    have hstamps : ({ s with calls := s.calls ++ [.incrementing] } : Limiter).stamps = s.stamps := by
      unfold Limiter.stamps
      rw [List.filterMap_append, List.filterMap_cons_none rfl, List.filterMap_nil, List.append_nil]
    refine ⟨(congrArg (Ledger window s.now s.key s.born) hstamps).mpr h.ledger, fun st hst => ?_, fun st hst => ?_⟩
    · exact h.expiring st ((List.mem_append.1 hst).resolve_right (by simp))
    · exact h.admitted st ((List.mem_append.1 hst).resolve_right (by simp))
  | trip i reply =>
    simp only [act] at hstep
    cases hp : s.calls[i]? with
    | none => simp [hp] at hstep
    | some p =>
      simp only [hp, Option.map_eq_some_iff] at hstep
      obtain ⟨r, hr, rfl⟩ := hstep
      exact advance_paced h hp hr

theorem paced_always {l : List Event} (h : Run (Act limit window) {} l s) : Paced limit window s := by
  refine run_invariant (Paced limit window) (fun _ _ _ hs hstep => act_paced hs hstep) ⟨?_, by simp, by simp⟩ h
  exact { spaced := .nil, past := by simp, stamped := by simp [Limiter.stamps], distinct := by simp [Limiter.stamps],
          current := by simp, fresh := fun _ => rfl }

/-- **Less than two allowances to a window.**  However the calls' round trips interleave, fail and lose their replies, of the calls
whose INCR lands in any stretch of one window's length, the count lets through one fewer than twice the limit, or less. -/
theorem window_bound {l : List Event} (h : Run (Act limit window) {} l s) (t : ℤ) :
    (s.admissions.filter fun st => decide (t ≤ st.at ∧ st.at < t + 1000 * window)).length ≤ 2 * limit - 1 := by
  have hpaced := paced_always h
  have hsub : s.admissions.Sublist s.stamps := by
    unfold Limiter.admissions Limiter.stamps
    induction s.calls with
    | nil => exact .slnil
    | cons p calls ih =>
      cases p with
      | admitted st => exact ih.cons_cons st
      | incrementing => exact ih
      | expiring st => exact ih.cons st
      | asking st => exact ih.cons st
      | refused st r => exact ih.cons st
      | opened st =>
        cases st with
        | none => exact ih
        | some st => exact ih.cons st
  refine hpaced.ledger.bound (t := t) (List.filter_sublist.trans hsub) (fun st hst => ?_) fun st hst => ?_
  · obtain ⟨p, hp, hadm⟩ := List.mem_filterMap.1 (List.mem_filter.1 hst).1
    cases p with
    | admitted st' =>
      obtain rfl : st' = st := Option.some.inj hadm
      exact hpaced.admitted st' hp
    | _ => cases hadm
  · exact of_decide_eq_true (List.mem_filter.1 hst).2

/-! ## A key that nobody gives an expiry -/

/-- The key counts `n` or more, has no expiry, and no call is about to give it one. -/
def Endless (n : ℕ) (s : Limiter) : Prop :=
  (∃ c, s.key = some c ∧ c.expireAt = none ∧ n ≤ c.count) ∧ ∀ st, .expiring st ∉ s.calls

/-- What an endless key lets a call become: never one that the count admits. -/
def Locked (p : Phase) : Prop :=
  match p with
  | .incrementing | .asking _ | .opened _ => True
  | .refused _ r => r = 1
  | .expiring _ | .admitted _ => False

/-- Locked from its first call on: the calls from the `k`-th. -/
structure Shut (limit k : ℕ) (s : Limiter) : Prop where
  endless : Endless limit s
  locked : ∀ i p, k ≤ i → s.calls[i]? = some p → Locked p

/-- **A round trip under an endless key** at the limit: the key stays, and no call is admitted that was not already. -/
theorem advance_endless {p p' : Phase} {reply : Reply} (hkey : ∃ c, s.key = some c ∧ c.expireAt = none ∧ limit ≤ c.count)
    (hp : ∀ st, p ≠ .expiring st) (hpos : 0 < limit) (hadvance : advance limit window s reply p = some (t, p')) :
    (∃ c, t.key = some c ∧ c.expireAt = none ∧ limit ≤ c.count) ∧ (∀ st, p' ≠ .expiring st) ∧ Locked p' := by
  obtain ⟨c, hc, hnone, hle⟩ := hkey
  have hincr : s.incr = ({ s with key := some { c with count := c.count + 1 } }, ⟨s.now, s.born.length, c.count + 1⟩) := by
    unfold Limiter.incr
    rw [live_of_endless hc hnone]
  have hkept : ∃ c', s.incr.1.key = some c' ∧ c'.expireAt = none ∧ limit ≤ c'.count := by
    rw [hincr]
    exact ⟨_, rfl, hnone, hle.trans (Nat.le_succ _)⟩
  cases p with
  | incrementing =>
    cases reply with
    | answered =>
      have hphase : (if s.incr.2.count = 1 then Phase.expiring s.incr.2 else counted limit s.incr.2) = .asking s.incr.2 := by
        unfold counted
        rw [hincr]
        dsimp only
        rw [if_neg (by omega), if_neg (by omega)]
      simp only [advance, hphase, Option.some.injEq, Prod.mk.injEq] at hadvance
      obtain ⟨rfl, rfl⟩ := hadvance
      exact ⟨hkept, by simp, trivial⟩
    | lost =>
      simp only [advance, Option.some.injEq, Prod.mk.injEq] at hadvance
      obtain ⟨rfl, rfl⟩ := hadvance
      exact ⟨hkept, by simp, trivial⟩
    | failed =>
      simp only [advance, Option.some.injEq, Prod.mk.injEq] at hadvance
      obtain ⟨rfl, rfl⟩ := hadvance
      exact ⟨⟨c, hc, hnone, hle⟩, by simp, trivial⟩
  | expiring st => exact absurd rfl (hp st)
  | asking st =>
    have httl : s.ttl = -1 := by
      unfold Limiter.ttl
      rw [live_of_endless hc hnone]
      dsimp only
      rw [hnone]
    cases reply with
    | answered =>
      simp only [advance, httl, Option.some.injEq, Prod.mk.injEq] at hadvance
      obtain ⟨rfl, rfl⟩ := hadvance
      exact ⟨⟨c, hc, hnone, hle⟩, by simp, rfl⟩
    | lost =>
      simp only [advance, Option.some.injEq, Prod.mk.injEq] at hadvance
      obtain ⟨rfl, rfl⟩ := hadvance
      exact ⟨⟨c, hc, hnone, hle⟩, by simp, trivial⟩
    | failed =>
      simp only [advance, Option.some.injEq, Prod.mk.injEq] at hadvance
      obtain ⟨rfl, rfl⟩ := hadvance
      exact ⟨⟨c, hc, hnone, hle⟩, by simp, trivial⟩
  | admitted st => cases hadvance
  | refused st retryAfter => cases hadvance
  | opened st => cases hadvance

theorem act_shut {k : ℕ} {e : Event} (hpos : 0 < limit) (h : Shut limit k s) (hstep : Act limit window s e t) : Shut limit k t := by
  unfold Act at hstep
  cases e with
  | tick ms =>
    cases hstep
    exact ⟨h.endless, h.locked⟩
  | arrive =>
    cases hstep
    refine ⟨⟨h.endless.1, fun st hst => ?_⟩, fun i p hi hp => ?_⟩
    · exact h.endless.2 st ((List.mem_append.1 hst).resolve_right (by simp))
    · change (s.calls ++ [.incrementing])[i]? = some p at hp
      rw [List.getElem?_append] at hp
      split_ifs at hp
      · exact h.locked i p hi hp
      · obtain ⟨_, rfl⟩ := List.getElem?_eq_some_iff.1 hp
        rw [List.getElem_singleton]
        trivial
  | trip j reply =>
    simp only [act] at hstep
    cases hp : s.calls[j]? with
    | none => simp [hp] at hstep
    | some p =>
      simp only [hp, Option.map_eq_some_iff] at hstep
      obtain ⟨r, hr, rfl⟩ := hstep
      obtain ⟨hkey, hexp, hlocked⟩ := advance_endless h.endless.1 (fun st heq => h.endless.2 st (heq ▸ List.mem_of_getElem? hp)) hpos hr
      refine ⟨⟨hkey, fun st hst => ?_⟩, fun i q hi hq => ?_⟩
      · rcases mem_set_cases hst with heq | hst
        · exact hexp st heq.symm
        · exact h.endless.2 st hst
      · change (s.calls.set j r.2)[i]? = some q at hq
        rw [List.getElem?_set] at hq
        split_ifs at hq with hji
        · obtain rfl : r.2 = q := Option.some.inj hq
          exact hlocked
        · exact h.locked i q hi hq

/-- **A window that never ends.**  Once the key counts to the limit with no expiry and no call left to give it one, which is what an
exception between a key's INCR and its EXPIRE leaves, the key is never let go of: no later call is let through by the count, and
each that is refused is told to come back in one second. -/
theorem locked_for_good {l : List Event} (hpos : 0 < limit) (hendless : Endless limit s) (h : Run (Act limit window) s l t) : Endless limit t ∧ ∀ i p, s.calls.length ≤ i → t.calls[i]? = some p → Locked p := by
  have hshut : Shut limit s.calls.length s := by
    refine ⟨hendless, fun i p hi hp => ?_⟩
    rw [List.getElem?_eq_none hi] at hp
    cases hp
  have ht := run_invariant (Shut limit s.calls.length) (fun _ _ _ hs hstep => act_shut hpos hs hstep) hshut h
  exact ⟨ht.endless, ht.locked⟩

/-- Two a second: one at 0, one at 900, and two more once the key is gone, at 1001 and 1002. -/
def seam : List Event :=
  [.arrive, .trip 0 .answered, .trip 0 .answered, .tick 900, .arrive, .trip 1 .answered, .tick 101, .arrive, .trip 2 .answered,
    .trip 2 .answered, .tick 1, .arrive, .trip 3 .answered]

/-- The bound is reached across a seam. -/
theorem window_bound_seam : ∃ s, Run (Act 2 1) {} seam s ∧
    (s.admissions.filter fun st => decide (900 ≤ st.at ∧ st.at < 900 + 1000 * ((1 : ℕ) : ℤ))).length = 3 ∧
      (s.admissions.filter fun st => decide (900 ≤ st.at ∧ st.at < 900 + 1000 * ((1 : ℕ) : ℤ))).length ≤ 2 * 2 - 1 := by
  have hfold : (seam.foldlM (act 2 1) {}).map (fun s =>
      (s.admissions.filter fun st => decide (900 ≤ st.at ∧ st.at < 900 + 1000 * ((1 : ℕ) : ℤ))).length) = some 3 := by decide +kernel
  obtain ⟨s, hs, hend⟩ := Option.map_eq_some_iff.1 hfold
  have hrun : Run (Act 2 1) {} seam s := run_fold_iff.2 hs
  exact ⟨s, hrun, hend, window_bound hrun 900⟩

/-- One sign-in, whose EXPIRE fails. -/
def expireFails : List Event := [.arrive, .trip 0 .answered, .trip 0 .failed]

/-- A day later, one call. -/
def nextDay : List Event := [.tick 86400000, .arrive, .trip 1 .answered, .trip 1 .answered]

theorem locked_for_good_day : ∃ s t, Run (Act 1 1) {} expireFails s ∧
    Run (Act 1 1) s nextDay t ∧ ∀ p, t.calls[1]? = some p → Locked p := by
  have hfold : (expireFails.foldlM (act 1 1) {}).map (fun s => (s.key, s.calls)) =
      some (some ⟨1, none⟩, [.opened (some ⟨0, 1, 1⟩)]) := by decide +kernel
  obtain ⟨s, hs, hend⟩ := Option.map_eq_some_iff.1 hfold
  obtain ⟨hkey, hcalls⟩ := Prod.mk.inj hend
  have hday : ((expireFails ++ nextDay).foldlM (act 1 1) {}).isSome = true := by
    decide +kernel
  obtain ⟨t, ht⟩ := Option.isSome_iff_exists.1 hday
  obtain ⟨s', hs', hrest⟩ := run_append_iff.1 (run_fold_iff.2 ht : Run (Act 1 1) {} _ t)
  obtain rfl : s = s' := Option.some.inj (hs.symm.trans (run_fold_iff.1 hs'))
  have hendless : Endless 1 s := ⟨⟨_, hkey, rfl, le_refl _⟩, by simp [hcalls]⟩
  exact ⟨s, t, hs', hrest, fun p hp => (locked_for_good one_pos hendless hrest).2 1 p (by rw [hcalls]; rfl) hp⟩

end

end LoginLimit
end Atp
