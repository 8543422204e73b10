import AlgoTrading.HaltAlerts
/-!
# DailyRollover — the one clear no human makes

`rollover_daily_counters` of the worker's `scheduler.py`, beside everything else that engages and clears: it reads every halt in
one trip and deletes the ones it judged yesterday's in others, so a halt can change between the two.
-/
namespace Atp
namespace DailyRollover

open Runs HaltRaces

def dailyLossRule : String := "daily_loss_limit"

def rolloverActor : String := "daily_loss_rollover"

/-- **`_key`**; `none` where it raises, on a scoped halt with no target. -/
def keyOf : HaltScope → Option String → Option HaltKey
  | .global, _ => some .global
  | _, none => none
  | .strategy, some t => if t = "" then none else some (.strategy t)
  | .symbol, some t => if t = "" then none else some (.symbol t)

/-- `instant.date()`, in UTC. -/
def dateOf (t : ℤ) : ℤ := t / 86400

/-- What the job lets go of: yesterday's loss limit, engaged by the rule itself, that impugns nothing. -/
def releasable (now : ℤ) (r : HaltRecord) : Bool :=
  r.impugned.isEmpty && decide (r.reason = .dailyLossLimit) && decide (r.engagedBy = dailyLossRule) &&
    decide (dateOf r.engagedAt < dateOf now)

/-- A record as the job read it, with the key it was under and how many clears that key had seen. -/
structure Judged where
  record : HaltRecord
  key : HaltKey
  landed : ℕ

/-- One clear by the job: what it judged, and what its delete returned, with the clears of the key up to then. -/
structure Release where
  now : ℤ
  judged : Judged
  removed : Option HaltRecord
  landed : ℕ

/-- The halts by their keys; the job, when one is under way, with the records it has still to look at; what it has released;
and the alerts it sent. -/
structure Platform where
  keys : HaltKey → Switch := fun _ => {}
  job : Option (ℤ × List Judged) := none
  released : List Release := []
  alerts : List Alert := []

def Platform.put (s : Platform) (k : HaltKey) (t : Switch) : Platform := { s with keys := Function.update s.keys k t }

inductive Deed
  | engage (call : EngageCall)
  | round (k : HaltKey) (p : ℕ) (now : ℤ)
  | clear (scope : HaltScope) (target : Option String) (clearedBy : String)
  | rollover (now : ℤ) (scanned : List HaltKey)
  | next

variable (str : StrMethods) (isoformat isodate : ℤ → String)

/-- The alert of a release, sent whether or not the delete found anything. -/
def releaseAlert (r : HaltRecord) : Alert where
  severity := .info
  title := "Daily loss halt released"
  body := "The halt engaged at " ++ isoformat r.engagedAt ++ " was the daily loss limit, and a new session resets it. " ++
    "Trading may resume. Nothing else that is halted has been touched."
  key := "halt.rollover." ++ isodate (dateOf r.engagedAt)
  context := [("scope", r.scope.value)]

/-- What `active_halts` finds under the keys its scan returned. -/
def found (s : Platform) (scanned : List HaltKey) : List (HaltKey × HaltPayload) :=
  scanned.filterMap fun k => (s.keys k).stored.map (Prod.mk k)

/-- **`active_halts`**: every record decoded, or it raises. -/
def activeHalts (s : Platform) (scanned : List HaltKey) : Option (List Judged) :=
  (found s scanned).mapM fun e => e.2.decode.map fun r => ⟨r, e.1, (s.keys e.1).cleared.length⟩

/-- One key's trip, in the platform. -/
def onKey (s : Platform) (k : HaltKey) (i : Trip) : Option Platform := (step str (s.keys k) i).map (s.put k)

/-- **`rollover_daily_counters`**, one record of its loop. -/
def judge (s : Platform) (now : ℤ) (j : Judged) (rest : List Judged) : Option Platform :=
  if releasable now j.record then
    match keyOf j.record.scope j.record.target with
    | none => some { s with job := none }
    | some k => (onKey str s k (.clear rolloverActor)).map fun t =>
      { t with
        job := some (now, rest)
        released := s.released ++ [⟨now, j, (s.keys k).stored.bind HaltPayload.decode, (s.keys k).cleared.length⟩]
        alerts := s.alerts ++ [releaseAlert isoformat isodate j.record] }
  else some { s with job := some (now, rest) }

def act (s : Platform) : Deed → Option Platform
  | .engage call => (keyOf call.scope call.target).bind fun k => onKey str s k (.engage call)
  | .round k p now => onKey str s k (.round p now)
  | .clear scope target clearedBy => (keyOf scope target).bind fun k => onKey str s k (.clear clearedBy)
  | .rollover now scanned =>
    match s.job with
    | some _ => none
    | none => some { s with job := (activeHalts s scanned).map (Prod.mk now) }
  | .next =>
    match s.job with
    | none => none
    | some (_, []) => some { s with job := none }
    | some (now, j :: rest) => judge str isoformat isodate s now j rest

def Act (s : Platform) (i : Deed) (t : Platform) : Prop := act str isoformat isodate s i = some t

/-! ## What each key keeps -/

/-- **A record that stands where another stood**, with no clear in between: nothing is lost, and if it is another it has learned
something it cannot prove. -/
structure Grown (q r : HaltRecord) : Prop where
  extended : Extends q r
  other : r = q ∨ r.impugned ≠ []

/-- Every halt under a key is the key's own, and so is every call. -/
structure Filed (k : HaltKey) (s : Switch) : Prop where
  sound : Sound s
  stored : ∀ r : HaltRecord, s.stored = some r.encode → keyOf r.scope r.target = some k
  calls : ∀ (p : ℕ) c phase, s.engages[p]? = some (c, phase) → keyOf c.scope c.target = some k

section
variable {str isoformat isodate} {s t : Switch} {k : HaltKey} {q r : HaltRecord}

theorem Extends.trans {a b c : HaltRecord} (h : Extends a b) (h' : Extends b c) : Extends a c :=
  ⟨fun x hx => h'.symbols x (h.symbols x hx), fun x hx => h'.cites x (h.cites x hx),
    h'.engaged.1.trans h.engaged.1, h'.engaged.2.trans h.engaged.2⟩

/-- Evidence is not lost to what extends it. -/
theorem grown_step {i : Trip} (hs : Sound s) (hstep : Step str s i t) (hr : s.stored = some r.encode) (hq : Grown q r)
    (hcleared : t.cleared.length = s.cleared.length) : ∃ r', t.stored = some r'.encode ∧ Grown q r' := by
  have htells := step_tells .global none hs hstep
  generalize noticeOf s t .global none i = notice at htells
  cases htells with
  | silent hstored => exact ⟨r, hstored.trans hr, hq⟩
  | engaged p c phase now hcall hidle hstored =>
    rw [hr] at hidle
    cases hidle
  | escalated q' r' hstanding hstored hraises =>
    obtain rfl : r = q' := encode_injective (Option.some.inj (hr.symm.trans hstanding))
    exact ⟨r', hstored, Extends.trans hq.extended hraises.extended, .inr hraises.evidence⟩
  | cleared r' clearedBy hstanding hstored =>
    -- a removal counts among the clears
    rcases step_onward hs hstep with ⟨-, hkept⟩ | ⟨r'', -, -, hgone⟩
    · obtain ⟨r'', hr'', -⟩ := hkept r hr
      rw [hstored] at hr''
      cases hr''
    · rw [hgone, List.length_append, List.length_singleton] at hcleared
      omega

theorem cleared_mono {i : Trip} (hs : Sound s) (hstep : Step str s i t) : s.cleared.length ≤ t.cleared.length := by
  rcases step_onward hs hstep with ⟨hcleared, -⟩ | ⟨r, -, -, hcleared⟩
  · rw [hcleared]
  · rw [hcleared, List.length_append]
    omega

theorem step_filed {i : Trip} (h : Filed k s) (hcall : ∀ c, i = .engage c → keyOf c.scope c.target = some k)
    (hstep : Step str s i t) : Filed k t := by
  have htells := step_tells .global none h.sound hstep
  refine ⟨step_sound h.sound hstep, fun r hr => ?_, ?_⟩
  · generalize noticeOf s t .global none i = notice at htells
    cases htells with
    | silent hstored => exact h.stored r (hstored ▸ hr)
    | engaged p c phase now hp hidle hstored =>
      obtain rfl : c.record now = r := encode_injective (Option.some.inj (hstored.symm.trans hr))
      exact h.calls p c phase hp
    | escalated q r' hstanding hstored hraises =>
      obtain rfl : r' = r := encode_injective (Option.some.inj (hstored.symm.trans hr))
      rw [hraises.place.1, hraises.place.2]
      exact h.stored q hstanding
    | cleared r' clearedBy hstanding hstored =>
      rw [hstored] at hr
      cases hr
  · intro p c phase hp
    unfold Step at hstep
    cases i with
    | engage call =>
      simp only [step] at hstep
      split at hstep
      · cases hstep
      · simp only [Option.some.injEq] at hstep
        subst hstep
        rcases called hp with hp | hnew
        · exact h.calls p c phase hp
        · obtain ⟨rfl, -⟩ := Prod.mk.inj hnew
          exact hcall call rfl
    | round p' now =>
      simp only [step] at hstep
      split at hstep
      · cases hstep
      · rename_i e he
        split at hstep
        · cases hstep
        · simp only [Option.some.injEq] at hstep
          subst hstep
          simp only [List.getElem?_set] at hp
          split_ifs at hp with hpp
          · obtain ⟨rfl, -⟩ := Prod.mk.inj (Option.some.inj hp)
            exact h.calls p' e.1 e.2 he
          · exact h.calls p c phase hp
    | clear clearedBy =>
      simp only [step] at hstep
      split_ifs at hstep
      split at hstep
      · cases hstep
        exact h.calls p c phase hp
      · cases hstep
        exact h.calls p c phase hp

end

/-! ## What the job releases -/

section
variable {str isoformat isodate} {s t : Platform} {j : Judged}

/-- **A record the job holds is what stands under its key, or grew into it**, unless a clear has landed since. -/
structure Tracks (s : Platform) (j : Judged) : Prop where
  place : keyOf j.record.scope j.record.target = some j.key
  landed : j.landed ≤ (s.keys j.key).cleared.length
  grown : (s.keys j.key).cleared.length = j.landed → ∃ r, (s.keys j.key).stored = some r.encode ∧ Grown j.record r

/-- **One release**: judged on a record that met every test; and with no clear between the read and the delete, what was deleted
is that record, or that record with evidence it did not have. -/
structure Sanctioned (e : Release) : Prop where
  judged : releasable e.now e.judged.record = true
  order : e.judged.landed ≤ e.landed
  undisturbed : e.landed = e.judged.landed → ∃ r, e.removed = some r ∧ Extends e.judged.record r ∧ (r = e.judged.record ↔ r.impugned = [])

variable (isoformat isodate) in
structure Sane (s : Platform) : Prop where
  keys : ∀ k, Filed k (s.keys k)
  job : ∀ now todo, s.job = some (now, todo) → ∀ j ∈ todo, Tracks s j
  released : ∀ e ∈ s.released, Sanctioned e
  alerts : s.alerts = s.released.map fun e => releaseAlert isoformat isodate e.judged.record

theorem put_same (s : Platform) (k : HaltKey) (u : Switch) : (s.put k u).keys k = u := Function.update_self ..

theorem put_other (s : Platform) {k k' : HaltKey} (u : Switch) (h : k' ≠ k) : (s.put k u).keys k' = s.keys k' :=
  Function.update_of_ne h ..

theorem onKey_some {k : HaltKey} {i : Trip} (h : onKey str s k i = some t) : ∃ u, Step str (s.keys k) i u ∧ t = s.put k u := by
  obtain ⟨u, hu, rfl⟩ := Option.map_eq_some_iff.1 h
  exact ⟨u, hu, rfl⟩

/-- **A trip on one key keeps the platform sane**, whoever makes it. -/
theorem Sane.trip {k : HaltKey} {i : Trip} {u : Switch} (h : Sane isoformat isodate s)
    (hcall : ∀ c, i = .engage c → keyOf c.scope c.target = some k) (hstep : Step str (s.keys k) i u) :
    Sane isoformat isodate (s.put k u) := by
  refine ⟨fun k' => ?_, fun now todo hjob j hj => ?_, h.released, h.alerts⟩
  · by_cases hk : k' = k
    · subst hk
      rw [put_same]
      exact step_filed (h.keys k') hcall hstep
    · rw [put_other s u hk]
      exact h.keys k'
  · have htracks := h.job now todo hjob j hj
    by_cases hk : j.key = k
    · subst hk
      have hmono := cleared_mono (h.keys j.key).sound hstep
      have hlanded := htracks.landed
      refine ⟨htracks.place, by rw [put_same]; omega, fun hcleared => ?_⟩
      rw [put_same] at hcleared ⊢
      obtain ⟨r, hr, hgrown⟩ := htracks.grown (by omega)
      exact grown_step (h.keys j.key).sound hstep hr hgrown (by omega)
    · refine ⟨htracks.place, ?_, ?_⟩ <;> rw [put_other s u hk]
      · exact htracks.landed
      · exact htracks.grown

theorem releasable_unimpugned {now : ℤ} {r : HaltRecord} (h : releasable now r = true) : r.impugned = [] := by
  unfold releasable at h
  simp only [Bool.and_eq_true, List.isEmpty_iff] at h
  exact h.1.1.1

/-- What `active_halts` read is what stood. -/
theorem activeHalts_tracks {scanned : List HaltKey} {todo : List Judged} (hkeys : ∀ k, Filed k (s.keys k))
    (h : activeHalts s scanned = some todo) :
    ∀ j ∈ todo, j.key ∈ scanned ∧ (s.keys j.key).stored = some j.record.encode ∧ Tracks s j := by
  have hfound : ∀ e ∈ found s scanned, e.1 ∈ scanned ∧ (s.keys e.1).stored = some e.2 := by
    intro e he
    obtain ⟨k, hk, hraw⟩ := List.mem_filterMap.1 he
    obtain ⟨raw, hstored, rfl⟩ := Option.map_eq_some_iff.1 hraw
    exact ⟨hk, hstored⟩
  unfold activeHalts at h
  generalize found s scanned = entries at h hfound
  induction entries generalizing todo with
  | nil =>
    cases h
    intro j hj
    cases hj
  | cons e entries ih =>
    simp only [List.mapM_cons, Option.bind_eq_bind, Option.bind_eq_some_iff, Option.pure_def, Option.some.injEq] at h
    obtain ⟨j, hj, rest, hrest, rfl⟩ := h
    obtain ⟨r, hr, rfl⟩ := Option.map_eq_some_iff.1 hj
    obtain ⟨hk, hstored⟩ := hfound e List.mem_cons_self
    intro j hmem
    rcases List.mem_cons.1 hmem with rfl | hmem
    · obtain ⟨q, hq, -⟩ := (hkeys e.1).sound.stored e.2 hstored
      rw [hq, HaltRecord.decode_encode, Option.some.injEq] at hr
      subst hr
      rw [hq] at hstored
      exact ⟨hk, hstored, (hkeys e.1).stored q hstored, le_refl _, fun _ => ⟨q, hstored, Extends.refl q, .inl rfl⟩⟩
    · exact ih hrest (fun e' he' => hfound e' (List.mem_cons_of_mem _ he')) j hmem

theorem act_sane {i : Deed} (h : Sane isoformat isodate s) (hstep : Act str isoformat isodate s i t) :
    Sane isoformat isodate t := by
  unfold Act at hstep
  cases i with
  | engage call =>
    obtain ⟨k, hk, hon⟩ := Option.bind_eq_some_iff.1 hstep
    obtain ⟨u, hu, rfl⟩ := onKey_some hon
    exact h.trip (fun c hc => by cases hc; exact hk) hu
  | round k p now =>
    obtain ⟨u, hu, rfl⟩ := onKey_some hstep
    exact h.trip (fun c hc => by cases hc) hu
  | clear scope target clearedBy =>
    obtain ⟨k, -, hon⟩ := Option.bind_eq_some_iff.1 hstep
    obtain ⟨u, hu, rfl⟩ := onKey_some hon
    exact h.trip (fun c hc => by cases hc) hu
  | rollover now scanned =>
    simp only [act] at hstep
    cases hjob : s.job with
    | some e => simp [hjob] at hstep
    | none =>
      simp only [hjob, Option.some.injEq] at hstep
      subst hstep
      refine ⟨h.keys, fun now' todo htodo j hj => ?_, h.released, h.alerts⟩
      obtain ⟨todo', hread, heq⟩ := Option.map_eq_some_iff.1 htodo
      obtain ⟨rfl, rfl⟩ := Prod.mk.inj heq
      obtain ⟨-, -, hplace, hlanded, hgrown⟩ := activeHalts_tracks h.keys hread j hj
      exact ⟨hplace, hlanded, hgrown⟩
  | next =>
    simp only [act] at hstep
    cases hjob : s.job with
    | none => simp [hjob] at hstep
    | some e =>
      obtain ⟨now, todo⟩ := e
      cases todo with
      | nil =>
        simp only [hjob, Option.some.injEq] at hstep
        subst hstep
        exact ⟨h.keys, by simp, h.released, h.alerts⟩
      | cons j rest =>
        have htracks := h.job now (j :: rest) hjob
        simp only [hjob, judge] at hstep
        split_ifs at hstep with hrel
        · have hplace := (htracks j List.mem_cons_self).place
          simp only [hplace, Option.map_eq_some_iff] at hstep
          obtain ⟨t', hon, rfl⟩ := hstep
          obtain ⟨u, hu, rfl⟩ := onKey_some hon
          have htrip := h.trip (fun c hc => by cases hc) hu
          refine ⟨htrip.keys, fun now' todo' htodo j' hj' => ?_, fun e he => ?_, ?_⟩
          · obtain ⟨rfl, rfl⟩ := Prod.mk.inj (Option.some.inj htodo)
            obtain ⟨hplace', hlanded', hgrown'⟩ := htrip.job now (j :: rest) hjob j' (List.mem_cons_of_mem _ hj')
            exact ⟨hplace', hlanded', hgrown'⟩
          · rcases List.mem_append.1 he with he | he
            · exact h.released e he
            · rw [List.mem_singleton] at he
              subst he
              refine ⟨hrel, (htracks j List.mem_cons_self).landed, fun hsame => ?_⟩
              obtain ⟨r, hr, hgrown⟩ := (htracks j List.mem_cons_self).grown hsame
              refine ⟨r, by simp [hr], hgrown.extended, fun heq => heq ▸ releasable_unimpugned hrel, fun hnone => ?_⟩
              exact hgrown.other.resolve_right fun hsome => hsome hnone
          · show s.alerts ++ _ = _
            rw [List.map_append, h.alerts]
            rfl
        · simp only [Option.some.injEq] at hstep
          subst hstep
          refine ⟨h.keys, fun now' todo' htodo j' hj' => ?_, h.released, h.alerts⟩
          obtain ⟨rfl, rfl⟩ := Prod.mk.inj (Option.some.inj htodo)
          obtain ⟨hplace', hlanded', hgrown'⟩ := htracks j' (List.mem_cons_of_mem _ hj')
          exact ⟨hplace', hlanded', hgrown'⟩

theorem sane_start : Sane isoformat isodate {} where
  keys _ := { sound := ⟨by simp, by simp, by simp⟩, stored := by simp, calls := by simp }
  job := by simp
  released := by simp
  alerts := rfl

theorem sane_always {l : List Deed} (h : Run (Act str isoformat isodate) {} l s) :
    Sane isoformat isodate s :=
  run_invariant _ (fun _ _ _ hs hstep => act_sane hs hstep) sane_start h

variable (str) in
/-- The job's delete of one record's key: it finds what it finds. -/
theorem clear_lands (s : Platform) (k : HaltKey) : ∃ u, step str (s.keys k) (.clear rolloverActor) = some u ∧ u.stored = none := by
  have hactor : (str.strip rolloverActor).isEmpty = false := by
    rw [str.strip_graphic rolloverActor (List.forall_iff_forall_mem.1 (by decide))]
    decide
  simp only [step, hactor, Bool.false_eq_true, if_false]
  cases hstored : (s.keys k).stored with
  | none => exact ⟨s.keys k, rfl, hstored⟩
  | some raw => exact ⟨_, rfl, rfl⟩

/-- **One step of the loop**: the key of a record it lets go of holds nothing after it, and nothing else moves. -/
theorem next_spec {now : ℤ} {rest : List Judged} (h : Sane isoformat isodate s)
    (hjob : s.job = some (now, j :: rest)) :
    ∃ t, Act str isoformat isodate s .next t ∧ t.job = some (now, rest) ∧
      (if releasable now j.record then (t.keys j.key).stored = none ∧ (∀ k, k ≠ j.key → t.keys k = s.keys k) ∧
          t.released = s.released ++ [⟨now, j, (s.keys j.key).stored.bind HaltPayload.decode, (s.keys j.key).cleared.length⟩]
        else t.keys = s.keys ∧ t.released = s.released) := by
  have hplace := (h.job now (j :: rest) hjob j List.mem_cons_self).place
  unfold Act act judge
  simp only [hjob]
  by_cases hrel : releasable now j.record = true
  · obtain ⟨u, hu, hnone⟩ := clear_lands str s j.key
    simp only [hrel, if_true, hplace, onKey, hu, Option.map_some, Option.some.injEq, exists_eq_left']
    refine ⟨trivial, ?_, fun k hk => put_other s u hk, trivial⟩
    rw [put_same]
    exact hnone
  · simp only [hrel, if_false, Option.some.injEq, exists_eq_left', Bool.false_eq_true]
    exact ⟨trivial, trivial, trivial⟩

/-- **The rest of the loop, with nothing beside it.** -/
theorem loop_spec {now : ℤ} : ∀ (todo : List Judged) {s : Platform}, Sane isoformat isodate s →
    s.job = some (now, todo) →
      ∃ t, Run (Act str isoformat isodate) s (List.replicate (todo.length + 1) .next) t ∧ t.job = none ∧
        (∀ j ∈ todo, releasable now j.record = true → (t.keys j.key).stored = none) ∧
        ∀ k, (∀ j ∈ todo, j.key = k → releasable now j.record = false) → t.keys k = s.keys k
  | [], s, _, hjob => by
    refine ⟨{ s with job := none }, .cons (t := { s with job := none }) ?_ (.nil _), rfl, by simp, fun k _ => rfl⟩
    unfold Act act
    simp only [hjob]
  | j :: rest, s, h, hjob => by
    obtain ⟨u, hu, hujob, hspec⟩ := next_spec h hjob
    obtain ⟨t, hrun, htjob, hgone, hkept⟩ := loop_spec rest (act_sane h hu) hujob
    refine ⟨t, .cons hu hrun, htjob, fun j' hj' hrel => ?_, fun k hk => ?_⟩
    · by_cases hmem : ∃ j'' ∈ rest, j''.key = j'.key ∧ releasable now j''.record = true
      · obtain ⟨j'', hj'', hkey, hrel''⟩ := hmem
        rw [← hkey]
        exact hgone j'' hj'' hrel''
      · -- no later record has this key, so what this one left stands
        rcases List.mem_cons.1 hj' with rfl | hj'
        · rw [if_pos hrel] at hspec
          rw [hkept j'.key fun j'' hj'' hkey => by
            by_contra hne
            exact hmem ⟨j'', hj'', hkey, by simpa using hne⟩]
          exact hspec.1
        · exact absurd ⟨j', hj', rfl, hrel⟩ hmem
    · rw [hkept k fun j' hj' hkey => hk j' (List.mem_cons_of_mem _ hj') hkey]
      by_cases hrel : releasable now j.record = true
      · rw [if_pos hrel] at hspec
        refine hspec.2.1 k fun heq => ?_
        rw [hk j List.mem_cons_self heq.symm] at hrel
        cases hrel
      · rw [if_neg hrel] at hspec
        rw [hspec.1]

/-- **What `active_halts` reads**: every key scanned that holds a halt, and it never raises on the switch's own records. -/
theorem activeHalts_reads (scanned : List HaltKey) (hkeys : ∀ k, Filed k (s.keys k)) : ∃ todo, activeHalts s scanned = some todo ∧
    todo.length = (found s scanned).length ∧
    ∀ k ∈ scanned, ∀ r : HaltRecord, (s.keys k).stored = some r.encode → ∃ j ∈ todo, j.key = k ∧ j.record = r := by
  have hfound : ∀ k ∈ scanned, ∀ raw, (s.keys k).stored = some raw → (k, raw) ∈ found s scanned :=
    fun k hk raw hraw => List.mem_filterMap.2 ⟨k, hk, by rw [hraw]; rfl⟩
  have hencoded : ∀ e ∈ found s scanned, ∃ r : HaltRecord, e.2 = r.encode := by
    intro e he
    obtain ⟨k, -, hraw⟩ := List.mem_filterMap.1 he
    obtain ⟨raw, hstored, rfl⟩ := Option.map_eq_some_iff.1 hraw
    obtain ⟨r, rfl, -⟩ := (hkeys k).sound.stored raw hstored
    exact ⟨r, rfl⟩
  suffices hread : ∀ l : List (HaltKey × HaltPayload), (∀ e ∈ l, ∃ r : HaltRecord, e.2 = r.encode) →
      ∃ todo, l.mapM (fun e => e.2.decode.map fun r => (⟨r, e.1, (s.keys e.1).cleared.length⟩ : Judged)) = some todo ∧
        todo.length = l.length ∧ ∀ e ∈ l, ∃ j ∈ todo, j.key = e.1 ∧ j.record.encode = e.2 by
    obtain ⟨todo, htodo, hlength, hmem⟩ := hread _ hencoded
    refine ⟨todo, htodo, hlength, fun k hk r hr => ?_⟩
    obtain ⟨j, hj, hkey, hrecord⟩ := hmem _ (hfound k hk _ hr)
    exact ⟨j, hj, hkey, encode_injective hrecord⟩
  intro l
  induction l with
  | nil => exact fun _ => ⟨[], rfl, rfl, by simp⟩
  | cons e l ih =>
    intro h
    obtain ⟨r, hr⟩ := h e List.mem_cons_self
    obtain ⟨todo, htodo, hlength, hmem⟩ := ih fun e' he' => h e' (List.mem_cons_of_mem _ he')
    refine ⟨⟨r, e.1, (s.keys e.1).cleared.length⟩ :: todo, ?_, by simp [hlength], fun e' he' => ?_⟩
    · rw [List.mapM_cons, htodo, hr, HaltRecord.decode_encode]
      rfl
    · rcases List.mem_cons.1 he' with rfl | he'
      · exact ⟨_, List.mem_cons_self, rfl, hr.symm⟩
      · obtain ⟨j, hj, hkey, hrecord⟩ := hmem e' he'
        exact ⟨j, List.mem_cons_of_mem _ hj, hkey, hrecord⟩

/-- **The job by itself releases what it should, and nothing else.**  From any state the platform can be in, a rollover that
nothing runs beside ends; every halt under a key it scanned that is yesterday's loss limit and impugns nothing is gone, and every
other key is as it was. -/
theorem rollover_alone {l : List Deed} (now : ℤ) (scanned : List HaltKey) (h : Run (Act str isoformat isodate) {} l s)
    (hidle : s.job = none) : ∃ t,
      Run (Act str isoformat isodate) s (.rollover now scanned :: List.replicate ((found s scanned).length + 1) .next) t ∧ t.job = none ∧
      (∀ k ∈ scanned, ∀ r : HaltRecord, (s.keys k).stored = some r.encode → releasable now r = true → (t.keys k).stored = none) ∧
      ∀ k, (∀ r : HaltRecord, k ∈ scanned → (s.keys k).stored = some r.encode → releasable now r = false) → t.keys k = s.keys k := by
  have hsane := sane_always h
  obtain ⟨todo, hread, hlength, hreads⟩ := activeHalts_reads scanned hsane.keys
  let u : Platform := { s with job := some (now, todo) }
  have hbegin : Act str isoformat isodate s (.rollover now scanned) u := by
    unfold Act act
    simp only [hidle, hread, Option.map_some]
    rfl
  obtain ⟨t, hrun, htjob, hgone, hkept⟩ := loop_spec todo (act_sane hsane hbegin) rfl
  refine ⟨t, .cons hbegin (hlength ▸ hrun), htjob, fun k hk r hr hrel => ?_, fun k hk => ?_⟩
  · obtain ⟨j, hj, rfl, rfl⟩ := hreads k hk r hr
    exact hgone j hj hrel
  · refine hkept k fun j hj hkey => ?_
    obtain ⟨hscanned, hstored, -⟩ := activeHalts_tracks hsane.keys hread j hj
    subst hkey
    exact hk j.record hscanned hstored

/-- **What a run of everything else can make of the job.**  However engages, clears and rollovers interleave, each release was
judged on a record that was yesterday's loss limit and impugned nothing; if no clear of its key landed between the read and the
delete, what was deleted is that record or one that extends it, and is that record exactly when it still impugns nothing; and a
step of the job moves no key but the one it releases. -/
theorem released_judged {l : List Deed} (h : Run (Act str isoformat isodate) {} l s) :
    (∀ e ∈ s.released, Sanctioned e) ∧ (s.alerts = s.released.map fun e => releaseAlert isoformat isodate e.judged.record) ∧
      ∀ t, Act str isoformat isodate s .next t → ∀ k, t.keys k = s.keys k ∨
        ∃ e, t.released = s.released ++ [e] ∧ e.judged.key = k ∧ e.removed = (s.keys k).stored.bind HaltPayload.decode ∧
          (t.keys k).stored = none := by
  have hsane := sane_always h
  refine ⟨hsane.released, hsane.alerts, fun t hstep k => ?_⟩
  cases hjob : s.job with
  | none => simp [Act, act, hjob] at hstep
  | some e =>
    obtain ⟨now, todo⟩ := e
    cases todo with
    | nil =>
      simp only [Act, act, hjob, Option.some.injEq] at hstep
      subst hstep
      exact .inl rfl
    | cons j rest =>
      obtain ⟨t', hstep', -, hspec⟩ := next_spec hsane hjob
      obtain rfl : t' = t := Option.some.inj (hstep'.symm.trans hstep)
      by_cases hrel : releasable now j.record = true
      · rw [if_pos hrel] at hspec
        by_cases hk : k = j.key
        · subst hk
          exact .inr ⟨_, hspec.2.2, rfl, rfl, hspec.1⟩
        · exact .inl (hspec.2.1 k hk)
      · rw [if_neg hrel] at hspec
        exact .inl (congrFun hspec.1 k)

end

/-! ## Evidence that lands in the gap -/

/-- Yesterday's loss limit. -/
def byLoss : EngageCall := { scope := .global, reason := .dailyLossLimit, engagedBy := dailyLossRule }

/-- The job reads yesterday's halt, the reconciler raises it, and the job deletes what it never judged. -/
def raced : List Deed :=
  [.engage byLoss, .round .global 0 10, .rollover 90000 [.global], .engage byReconciler, .round .global 1 90001,
    .round .global 1 90002, .round .global 1 90003, .next, .next]

theorem released_judged_raced : ∃ s, Run (Act .ascii (fun _ => "") fun _ => "") {} raced s ∧
    ∃ e ∈ s.released, releasable e.now e.judged.record = true ∧ ∃ r, e.removed = some r ∧ "SPY" ∈ r.unprovenSymbols := by
  have hfold : (raced.foldlM (act .ascii (fun _ => "") fun _ => "") {}).map (fun s => s.released.map fun e => (e.removed.map
      fun r => decide ("SPY" ∈ r.unprovenSymbols), e.landed)) = some [(some true, 0)] := by decide +kernel
  obtain ⟨s, hs, hend⟩ := Option.map_eq_some_iff.1 hfold
  have hrun : Run (Act .ascii (fun _ => "") fun _ => "") {} raced s := run_fold_iff.2 hs
  obtain ⟨e, hreleased, hlast⟩ : ∃ e, s.released = [e] ∧ (e.removed.map fun r => decide ("SPY" ∈ r.unprovenSymbols)) = some true := by
    obtain ⟨e, he, hval⟩ := List.map_eq_singleton_iff.1 hend
    exact ⟨e, he, (Prod.mk.inj hval).1⟩
  obtain ⟨r, hr, hspy⟩ := Option.map_eq_some_iff.1 hlast
  have hmem : e ∈ s.released := hreleased ▸ List.mem_singleton_self e
  exact ⟨s, hrun, e, hmem, ((released_judged hrun).1 e hmem).judged, r, hr, of_decide_eq_true hspy⟩

theorem rollover_alone_yesterday : ∃ s t, Run (Act .ascii (fun _ => "") fun _ => "") {} [.engage byLoss, .round .global 0 10] s ∧
    (s.keys .global).stored = some (byLoss.record 10).encode ∧
    Run (Act .ascii (fun _ => "") fun _ => "") s (.rollover 90000 [.global] :: List.replicate ((found s [.global]).length + 1) .next) t ∧
    (t.keys .global).stored = none := by
  have hfold : (([.engage byLoss, .round .global 0 10] : List Deed).foldlM (act .ascii (fun _ => "") fun _ => "") {}).map
      (fun s => ((s.keys .global).stored, s.job.isNone)) = some (some (byLoss.record 10).encode, true) := by decide +kernel
  obtain ⟨s, hs, hend⟩ := Option.map_eq_some_iff.1 hfold
  obtain ⟨hstored, hjob⟩ := Prod.mk.inj hend
  have hrun := run_fold_iff.2 hs
  obtain ⟨t, ht, -, hgone, -⟩ := rollover_alone 90000 [.global] hrun (Option.isNone_iff_eq_none.1 hjob)
  exact ⟨s, t, hrun, hstored, ht, hgone .global (by simp) _ hstored (by decide)⟩

end DailyRollover
end Atp
