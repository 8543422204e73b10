import Mathlib.Data.List.DropRight
import AlgoTrading.Alerts
import AlgoTrading.HaltRaces
/-!
# HaltAlerts — what the phone is told of a halt, whatever races for it

`_announce_engaged`, `_announce_escalated`, `clear`'s own announcement and the four texts under them in
`risk/killswitch.py`.  Each is sent by the call whose write landed, one message at a time and after the write, so the sends of
several calls interleave; what is sent is decided by the writes alone, and the writes of one halt's life name every symbol that
became unproven once.
-/
namespace Atp
namespace HaltRaces

open Runs

/-! ## The texts -/

/-- `sorted(...)` of a set of symbols. -/
def sortedSet (l : List String) : List String := l.dedup.insertionSort (· ≤ ·)

/-- `f" [{target}]" if target else ""`. -/
def targetSuffix (target : Option String) : String :=
  match target with
  | none => ""
  | some t => if t = "" then "" else " [" ++ t ++ "]"

/-- `target or 'all'`. -/
def targetOrAll (target : Option String) : String :=
  match target with
  | none => "all"
  | some t => if t = "" then "all" else t

/-- **`_alert_engaged`.** -/
def alertEngaged (r : HaltRecord) : Alert where
  severity := .critical
  title := "Trading halted: " ++ r.reason.value
  body := joined "\n" ([r.scope.value ++ targetSuffix r.target ++ " halted by " ++ r.engagedBy ++ "."] ++
    (if r.detail = "" then [] else [r.detail]) ++ ["Check the dashboard, then docs/RUNBOOK.md."])
  key := "halt." ++ r.scope.value ++ "." ++ targetOrAll r.target ++ "." ++ r.reason.value
  context := [("scope", r.scope.value), ("reason", r.reason.value), ("engaged_by", r.engagedBy)]

/-- The key of an escalation up to the symbols. -/
def escalationPrefix (r : HaltRecord) : String :=
  "halt." ++ r.scope.value ++ "." ++ targetOrAll r.target ++ ".escalated." ++ r.reason.value ++ "."

/-- **`_alert_escalated`.** -/
def alertEscalated (r : HaltRecord) (newly : List String) : Alert :=
  let every := sortedSet r.unprovenSymbols
  let symbols := joined ", " every
  let added := if joined ", " newly = "" then symbols else joined ", " newly
  let also := if !newly.isEmpty && newly.length ≠ every.length then "In total the platform will not close: " ++ symbols ++ "."
    else "Every other symbol still closes normally."
  { severity := .critical
    title := "Halt escalated: cannot prove " ++ added
    body := joined "\n"
      [r.scope.value ++ targetSuffix r.target ++ " was halted; the platform now also refuses to close: " ++ added ++ ".",
        "Reason: " ++ r.reason.value ++ ". " ++ also,
        "To get flat in these, use the broker's own UI. Then docs/RUNBOOK.md."]
    key := escalationPrefix r ++ joined "-" every
    context := [("scope", r.scope.value), ("reason", r.reason.value), ("unproven", symbols)] }

/-- **`_alert_cleared`**, of the scope and target the clear was asked for. -/
def alertCleared (scope : HaltScope) (target : Option String) (clearedBy : String) : Alert where
  severity := .info
  title := "Trading resumed"
  body := scope.value ++ targetSuffix target ++ " cleared by " ++ clearedBy ++ "."
  key := "halt." ++ scope.value ++ "." ++ targetOrAll target ++ ".cleared"
  context := [("scope", scope.value), ("cleared_by", clearedBy)]

/-- **`_announce`**'s message, of a record: the two last fields are what only a clear has. -/
structure HaltMessage where
  transition : String
  scope : HaltScope
  target : Option String
  reason : HaltReason
  engagedAt : ℤ
  engagedBy : String
  detail : String
  actor : Option String := none
deriving DecidableEq

def announced (transition : String) (r : HaltRecord) (actor : Option String := none) : HaltMessage :=
  ⟨transition, r.scope, r.target, r.reason, r.engagedAt, r.engagedBy, r.detail, actor⟩

inductive Dispatch
  | publish (m : HaltMessage)
  | alert (a : Alert)
deriving DecidableEq

/-- What one call's write did to the halt. -/
inductive Notice
  | engaged (r : HaltRecord)
  | escalated (before after : HaltRecord)
  | cleared (r : HaltRecord) (scope : HaltScope) (target : Option String) (clearedBy : String)
deriving DecidableEq

namespace Notice

/-- `after.unproven_symbols - before.unproven_symbols`, sorted; of a new halt, all it names. -/
def newly : Notice → List String
  | engaged r => sortedSet r.unprovenSymbols
  | escalated before after => sortedSet (after.unprovenSymbols.filter fun x => !before.unprovenSymbols.contains x)
  | cleared .. => []

/-- The alerts that say a symbol cannot be proven: a halt engaged with evidence sends one of its own. -/
def escalations : Notice → List Alert
  | engaged r => if r.impugned.isEmpty then [] else [alertEscalated r (newly (engaged r))]
  | escalated before after => [alertEscalated after (newly (escalated before after))]
  | cleared .. => []

/-- **`_announce_engaged`, `_announce_escalated`, and the end of `clear`.** -/
def dispatches : Notice → List Dispatch
  | n@(engaged r) => .publish (announced "engaged" r) :: .alert (alertEngaged r) :: n.escalations.map .alert
  | n@(escalated _ after) => .publish (announced "escalated" after) :: n.escalations.map .alert
  | cleared r scope target clearedBy =>
    [.publish (announced "cleared" r (some clearedBy)), .alert (alertCleared scope target clearedBy)]

def isCleared : Notice → Bool
  | cleared .. => true
  | _ => false

def isEscalated : Notice → Bool
  | escalated .. => true
  | _ => false

end Notice

/-! ## The switch, and what its callers still have to send -/

/-- The key and the calls; what the writes did, in order; what each writer has yet to send; and what has been sent. -/
structure Announcing where
  switch : Switch := {}
  log : List Notice := []
  due : List (List Dispatch) := []
  sent : List Dispatch := []

/-- What the round trip an engage took means to the phone: nothing, unless it wrote. -/
def engageNotice (before after : Phase) : Option Notice :=
  match after, before with
  | .wrote r _, .setting _ => some (.engaged r)
  | .wrote r _, .swapping _ raw _ => raw.decode.map fun existing => .escalated existing r
  | _, _ => none

/-- What the last round trip of a call means to the phone. -/
def noticeOf (s t : Switch) (scope : HaltScope) (target : Option String) : Trip → Option Notice
  | .engage _ => none
  | .round p _ =>
    match s.engages[p]?, t.engages[p]? with
    | some before, some after => engageNotice before.2 after.2
    | _, _ => none
  | .clear clearedBy =>
    match s.stored with
    | none => none
    | some raw => raw.decode.map fun r => .cleared r scope target clearedBy

/-- One round trip of one call, with the scope and target a clear names; or the next thing one of the writers sends. -/
inductive Move
  | trip (i : Trip) (scope : HaltScope) (target : Option String)
  | send (k : ℕ)

def announce (str : StrMethods) (s : Announcing) : Move → Option Announcing
  | .trip i scope target =>
    match step str s.switch i with
    | none => none
    | some t =>
      match noticeOf s.switch t scope target i with
      | none => some { s with switch := t }
      | some n => some { s with switch := t, log := s.log ++ [n], due := s.due ++ [n.dispatches] }
  | .send k =>
    match s.due[k]? with
    | some (d :: rest) => some { s with due := s.due.set k rest, sent := s.sent ++ [d] }
    | _ => none

def Announce (str : StrMethods) (s : Announcing) (i : Move) (t : Announcing) : Prop := announce str s i = some t

/-- The notices since the last clear. -/
def life (log : List Notice) : List Notice := log.rtakeWhile fun n => !n.isCleared

/-- **One halt's life in notices**: engaged once, and raised by what it learned since; each symbol of its record is newly
unproven in exactly one of them, and no two of the alerts that name symbols share a key. -/
structure Told (life : List Notice) (r : HaltRecord) : Prop where
  once : ∃ first rest, life = .engaged first :: rest ∧ ∀ n ∈ rest, n.isEscalated = true
  apart : (life.flatMap Notice.newly).Nodup
  named : ∀ x, x ∈ life.flatMap Notice.newly ↔ x ∈ r.unprovenSymbols
  keys : ((life.flatMap Notice.escalations).map Alert.key).Nodup

/-! ## What one write adds to a life -/

section
variable {str : StrMethods} {q r : HaltRecord} {lf : List Notice} {c : EngageCall} {now : ℤ} {s t : Switch}

theorem sortedSet_nodup (l : List String) : (sortedSet l).Nodup :=
  (List.perm_insertionSort (· ≤ ·) l.dedup).nodup_iff.2 l.nodup_dedup

@[simp] theorem mem_sortedSet {l : List String} {x : String} : x ∈ sortedSet l ↔ x ∈ l := by
  unfold sortedSet
  rw [List.mem_insertionSort, List.mem_dedup]

theorem life_concat (log : List Notice) (n : Notice) : life (log ++ [n]) = if n.isCleared then [] else life log ++ [n] := by
  unfold life
  cases hn : n.isCleared with
  | true => rw [List.rtakeWhile_concat_neg _ _ _ (by simp [hn])]; rfl
  | false => rw [List.rtakeWhile_concat_pos _ _ _ (by simp [hn])]; rfl

/-- A record with evidence names a symbol. -/
def Naming (r : HaltRecord) : Prop := r.impugned ≠ [] → r.unprovenSymbols ≠ []

theorem record_naming (c : EngageCall) (now : ℤ) : Naming (c.record now) := by
  intro h
  rw [record_unproven]
  rintro hnil
  exact h (by unfold EngageCall.record; simp [hnil])

/-- **What a merge that writes does**: it loses nothing, names a symbol more, and leaves a reason that has evidence where it
is. -/
structure Raises (q r : HaltRecord) : Prop where
  extended : Extends q r
  place : r.scope = q.scope ∧ r.target = q.target
  more : ∃ x ∈ r.unprovenSymbols, x ∉ q.unprovenSymbols
  same : q.impugned ≠ [] → escalationPrefix r = escalationPrefix q
  evidence : r.impugned ≠ []

theorem merge_raises (hq : Formed q) (h : merge q (c.record now) ≠ q) : Raises q (merge q (c.record now)) := by
  have hfresh : freshOf q (c.record now) ≠ [] := by
    intro hnil
    rcases merge_cases q (c.record now) with ⟨-, hm⟩ | ⟨hne, -⟩ | ⟨hne, -⟩
    · exact h hm
    · exact hne hnil
    · exact hne hnil
  obtain ⟨i, hi⟩ := List.exists_mem_of_ne_nil _ hfresh
  obtain ⟨himpugned, hnew⟩ := List.mem_filter.1 hi
  rw [Bool.not_eq_true', List.all_eq_false] at hnew
  obtain ⟨x, hx, hnot⟩ := hnew
  have hcovers : x ∈ (merge q (c.record now)).unprovenSymbols := merge_covers x (mem_unproven.2 ⟨i, himpugned, hx⟩)
  refine ⟨(merge_extends hq).1, ?_, ⟨x, hcovers, by simpa using hnot⟩, fun hsome => ?_, ?_⟩
  · rcases merge_cases q (c.record now) with ⟨-, hm⟩ | ⟨-, -, hm⟩ | ⟨-, -, hm⟩ <;> rw [hm] <;> exact ⟨rfl, rfl⟩
  · rcases merge_cases q (c.record now) with ⟨-, hm⟩ | ⟨-, -, hm⟩ | ⟨-, hnone, -⟩
    · rw [hm]
    · rw [hm]
      rfl
    · exact absurd hnone hsome
  · obtain ⟨j, hj, -⟩ := mem_unproven.1 hcovers
    exact List.ne_nil_of_mem hj

/-- The key of the alert that names everything a record cannot prove. -/
def escalationKey (r : HaltRecord) : String := escalationPrefix r ++ joined "-" (sortedSet r.unprovenSymbols)

@[simp] theorem alertEscalated_key (r : HaltRecord) (newly : List String) : (alertEscalated r newly).key = escalationKey r := rfl

/-- **A record raised has a longer key**, so no alert before it had that one. -/
theorem Raises.longer (h : Raises q r) (hq : Naming q) (hsome : q.impugned ≠ []) :
    (escalationKey q).length < (escalationKey r).length := by
  obtain ⟨x, hx, hnew⟩ := h.more
  let fresh := sortedSet (r.unprovenSymbols.filter fun y => !q.unprovenSymbols.contains y)
  have hmem (y : String) : y ∈ fresh ↔ y ∈ r.unprovenSymbols ∧ y ∉ q.unprovenSymbols := by simp [fresh]
  have hdisjoint : (sortedSet q.unprovenSymbols ++ fresh).Nodup :=
    (sortedSet_nodup _).append (sortedSet_nodup _) fun y hy hy' => ((hmem y).1 hy').2 (mem_sortedSet.1 hy)
  have hperm : (sortedSet r.unprovenSymbols).Perm (sortedSet q.unprovenSymbols ++ fresh) := by
    refine (List.perm_ext_iff_of_nodup (sortedSet_nodup _) hdisjoint).2 fun y => ?_
    rw [List.mem_append, mem_sortedSet, mem_sortedSet, hmem]
    constructor
    · intro hy
      by_cases hyq : y ∈ q.unprovenSymbols
      · exact .inl hyq
      · exact .inr ⟨hy, hyq⟩
    · rintro (hy | ⟨hy, -⟩)
      · exact h.extended.symbols y hy
      · exact hy
  have hjoined := joined_longer "-" (by decide) hperm
    (fun hnil => by
      obtain ⟨y, hy⟩ := List.exists_mem_of_ne_nil _ (hq hsome)
      rw [← mem_sortedSet, hnil] at hy
      cases hy)
    (List.ne_nil_of_mem ((hmem x).2 ⟨hx, hnew⟩))
  unfold escalationKey
  rw [String.length_append, String.length_append, h.same hsome]
  omega

/-- What is known of the alerts of a life beside what `Told` says: none is longer than the last would be. -/
structure Telling (lf : List Notice) (r : HaltRecord) : Prop extends Told lf r where
  quiet : r.impugned = [] → lf.flatMap Notice.escalations = []
  bound : ∀ a ∈ lf.flatMap Notice.escalations, a.key.length ≤ (escalationKey r).length
  naming : Naming r

theorem telling_engaged (hr : Naming r) : Telling [.engaged r] r := by
  have hnewly : [Notice.engaged r].flatMap Notice.newly = sortedSet r.unprovenSymbols := List.flatMap_singleton ..
  have hescalations : [Notice.engaged r].flatMap Notice.escalations = (Notice.engaged r).escalations := List.flatMap_singleton ..
  refine { once := ⟨r, [], rfl, fun n hn => by cases hn⟩, apart := ?_, named := fun x => ?_, keys := ?_, quiet := fun h => ?_,
           bound := fun a ha => ?_, naming := hr }
  · rw [hnewly]
    exact sortedSet_nodup _
  · rw [hnewly, mem_sortedSet]
  · rw [hescalations, Notice.escalations]
    split_ifs <;> simp
  · rw [hescalations, Notice.escalations, if_pos (by rw [h]; rfl)]
  · rw [hescalations, Notice.escalations] at ha
    split_ifs at ha
    · cases ha
    · rw [List.mem_singleton.1 ha]
      rfl

/-- **A halt raised is told of what it learned, under a key of its own.** -/
theorem Telling.escalated (h : Telling lf q) (hr : Raises q r) : Telling (lf ++ [.escalated q r]) r := by
  obtain ⟨first, rest, hlf, hrest⟩ := h.once
  have hmem (x : String) : x ∈ (Notice.escalated q r).newly ↔ x ∈ r.unprovenSymbols ∧ x ∉ q.unprovenSymbols := by
    simp [Notice.newly]
  have hkey : (Notice.escalated q r).escalations.map Alert.key = [escalationKey r] := rfl
  have hshorter : ∀ a ∈ lf.flatMap Notice.escalations, a.key.length < (escalationKey r).length := by
    intro a ha
    by_cases hsome : q.impugned = []
    · rw [h.quiet hsome] at ha
      cases ha
    · exact lt_of_le_of_lt (h.bound a ha) (hr.longer h.naming hsome)
  refine { once := ⟨first, rest ++ [.escalated q r], by rw [hlf]; rfl, fun n hn => ?_⟩, apart := ?_, named := fun x => ?_,
           keys := ?_, quiet := fun hnone => absurd hnone hr.evidence, bound := fun a ha => ?_, naming := fun _ => ?_ }
  · rcases List.mem_append.1 hn with hn | hn
    · exact hrest n hn
    · rw [List.mem_singleton.1 hn]
      rfl
  · rw [List.flatMap_append, List.flatMap_singleton]
    refine h.apart.append (sortedSet_nodup _) fun x hx hx' => ?_
    exact ((hmem x).1 hx').2 ((h.named x).1 hx)
  · rw [List.flatMap_append, List.mem_append, List.flatMap_singleton, h.named, hmem]
    constructor
    · rintro (hx | ⟨hx, -⟩)
      · exact hr.extended.symbols x hx
      · exact hx
    · intro hx
      by_cases hxq : x ∈ q.unprovenSymbols
      · exact .inl hxq
      · exact .inr ⟨hx, hxq⟩
  · rw [List.flatMap_append, List.map_append, List.flatMap_singleton, hkey]
    refine h.keys.append (List.nodup_singleton _) fun k hk hk' => ?_
    obtain ⟨a, ha, rfl⟩ := List.mem_map.1 hk
    have hlt := hshorter a ha
    rw [List.mem_singleton.1 hk'] at hlt
    exact lt_irrefl _ hlt
  · rw [List.flatMap_append, List.mem_append, List.flatMap_singleton] at ha
    rcases ha with ha | ha
    · exact (hshorter a ha).le
    · rw [List.mem_singleton.1 ha]
      rfl
  · obtain ⟨x, hx, -⟩ := hr.more
    exact List.ne_nil_of_mem hx

/-! ## Every run -/

/-- **What a round trip does, with what its caller then tells**: nothing, unless it wrote or removed. -/
inductive Tells (s t : Switch) (scope : HaltScope) (target : Option String) : Option Notice → Prop
  | silent (hstored : t.stored = s.stored) : Tells s t scope target none
  | engaged (p : ℕ) (c : EngageCall) (phase : Phase) (now : ℤ) (hcall : s.engages[p]? = some (c, phase))
      (hidle : s.stored = none) (hstored : t.stored = some (c.record now).encode) :
      Tells s t scope target (some (.engaged (c.record now)))
  | escalated (q r : HaltRecord) (hstanding : s.stored = some q.encode) (hstored : t.stored = some r.encode)
      (hraises : Raises q r) : Tells s t scope target (some (.escalated q r))
  | cleared (r : HaltRecord) (clearedBy : String) (hstanding : s.stored = some r.encode) (hstored : t.stored = none) :
      Tells s t scope target (some (.cleared r scope target clearedBy))

theorem advance_tells {stored stored' : Option HaltPayload} {landed p : ℕ} {phase phase' : Phase} {scope : HaltScope}
    {target : Option String} (hp : s.engages[p]? = some (c, phase)) (hfair : Fair s c phase) (hs : s.stored = stored)
    (h : advance c now stored landed phase = some (stored', phase')) :
    Tells s { s with stored := stored', engages := s.engages.set p (c, phase') } scope target (engageNotice phase phase') := by
  have hagain (n : ℕ) (b : Bool) (phase : Phase) : engageNotice phase (again n b) = none := by
    unfold again
    split_ifs <;> rfl
  cases phase with
  | setting n =>
    cases stored with
    | none =>
      cases h
      exact .engaged p c _ now hp hs rfl
    | some raw =>
      cases h
      exact .silent hs.symm
  | getting n record =>
    cases stored with
    | none =>
      cases h
      rw [hagain]
      exact .silent hs.symm
    | some raw =>
      cases hraw : raw.decode with
      | none =>
        simp only [advance, hraw, Option.some.injEq, Prod.mk.injEq] at h
        obtain ⟨rfl, rfl⟩ := h
        exact .silent hs.symm
      | some existing =>
        simp only [advance, hraw] at h
        split_ifs at h
        all_goals
          simp only [Option.some.injEq, Prod.mk.injEq] at h
          obtain ⟨rfl, rfl⟩ := h
          exact .silent hs.symm
  | swapping n raw merged =>
    obtain ⟨existing, now', rfl, hformed, rfl, hne⟩ := hfair
    simp only [advance] at h
    split_ifs at h with hsame
    · cases h
      simp only [engageNotice, HaltRecord.decode_encode, Option.map_some]
      exact .escalated existing _ (hs.trans hsame) rfl (merge_raises hformed hne)
    · simp only [Option.some.injEq, Prod.mk.injEq] at h
      obtain ⟨rfl, rfl⟩ := h
      rw [hagain]
      exact .silent hs.symm
  | wrote r landed => cases h
  | found r landed => cases h
  | raised b => cases h
  | undecodable => cases h

theorem step_tells {i : Trip} (scope : HaltScope) (target : Option String) (hs : Sound s) (hstep : Step str s i t) :
    Tells s t scope target (noticeOf s t scope target i) := by
  unfold Step at hstep
  cases i with
  | engage call =>
    simp only [step] at hstep
    cases hclean : cleanSymbols str call.symbols with
    | error e => simp [hclean] at hstep
    | ok symbols =>
      simp only [hclean, Option.some.injEq] at hstep
      subst hstep
      exact .silent rfl
  | round p now =>
    simp only [step] at hstep
    cases hp : s.engages[p]? with
    | none => simp [hp] at hstep
    | some e =>
      obtain ⟨c, phase⟩ := e
      simp only [hp] at hstep
      cases hadvance : advance c now s.stored s.cleared.length phase with
      | none => simp [hadvance] at hstep
      | some o =>
        obtain ⟨stored, phase'⟩ := o
        simp only [hadvance, Option.some.injEq] at hstep
        subst hstep
        have hafter : (s.engages.set p (c, phase'))[p]? = some (c, phase') := by
          rw [List.getElem?_set_self (List.getElem?_eq_some_iff.1 hp).1]
        simp only [noticeOf, hp, hafter]
        exact advance_tells hp (hs.engages p c phase hp) rfl hadvance
  | clear clearedBy =>
    simp only [step] at hstep
    split_ifs at hstep
    cases hstored : s.stored with
    | none =>
      simp only [hstored, Option.some.injEq] at hstep
      subst hstep
      simp only [noticeOf, hstored]
      exact .silent rfl
    | some raw =>
      obtain ⟨r, rfl, -⟩ := hs.stored raw hstored
      simp only [hstored, Option.some.injEq] at hstep
      subst hstep
      simp only [noticeOf, hstored, HaltRecord.decode_encode, Option.map_some]
      exact .cleared r clearedBy hstored rfl

/-- **What the phone has been told, and what is still to be told, is the history of the key.** -/
structure Paged (s : Announcing) : Prop where
  sends : (s.sent ++ s.due.flatten).Perm (s.log.flatMap Notice.dispatches)
  standing : ∀ raw, s.switch.stored = some raw → ∃ r, raw = r.encode ∧ Told (life s.log) r
  idle : s.switch.stored = none → life s.log = []
  past : ∀ before r scope target clearedBy after, s.log = before ++ .cleared r scope target clearedBy :: after → Told (life before) r

/-- The invariant: the standing halt's life, with what the keys of its alerts are bounded by. -/
structure Paging (s : Announcing) : Prop where
  sound : Sound s.switch
  sends : (s.sent ++ s.due.flatten).Perm (s.log.flatMap Notice.dispatches)
  standing : ∀ r, s.switch.stored = some r.encode → Telling (life s.log) r
  idle : s.switch.stored = none → life s.log = []
  past : ∀ before r scope target clearedBy after, s.log = before ++ .cleared r scope target clearedBy :: after → Told (life before) r

/-- A notice added to the log is the last, or it was there. -/
theorem concat_split {log before after : List Notice} {n m : Notice} (h : log ++ [n] = before ++ m :: after) :
    (log = before ∧ n = m) ∨ ∃ rest, log = before ++ m :: rest := by
  rcases List.eq_nil_or_concat after with rfl | ⟨rest, last, rfl⟩
  · obtain ⟨hlog, hlast⟩ := List.append_inj' h rfl
    exact .inl ⟨hlog, (List.cons.inj hlast).1⟩
  · rw [List.concat_eq_append, ← List.cons_append, ← List.append_assoc] at h
    exact .inr ⟨rest, (List.append_inj' h rfl).1⟩

/-- **Sending takes from what is due, and nothing else.** -/
theorem send_perm {due : List (List Dispatch)} {k : ℕ} {d : Dispatch} {rest : List Dispatch} (hk : due[k]? = some (d :: rest)) :
    ([d] ++ (due.set k rest).flatten).Perm due.flatten := by
  induction due generalizing k with
  | nil => cases hk
  | cons x due ih =>
    cases k with
    | zero =>
      rw [List.getElem?_cons_zero, Option.some.injEq] at hk
      subst hk
      rw [List.set_cons_zero, List.flatten_cons, List.flatten_cons]
      rfl
    | succ k =>
      rw [List.getElem?_cons_succ] at hk
      rw [List.set_cons_succ, List.flatten_cons, List.flatten_cons]
      calc [d] ++ (x ++ (due.set k rest).flatten)
          _ = ([d] ++ x) ++ (due.set k rest).flatten := (List.append_assoc ..).symm
          List.Perm _ ((x ++ [d]) ++ (due.set k rest).flatten) := List.perm_append_comm.append_right _
          _ = x ++ ([d] ++ (due.set k rest).flatten) := List.append_assoc ..
          List.Perm _ (x ++ due.flatten) := (ih hk).append_left x

/-- A notice adds what it dispatches to what is due. -/
theorem Paging.noticed {u : Announcing} (h : Paging u) (n : Notice) :
    (u.sent ++ (u.due ++ [n.dispatches]).flatten).Perm ((u.log ++ [n]).flatMap Notice.dispatches) := by
  rw [List.flatten_append, List.flatten_singleton, List.flatMap_append, List.flatMap_singleton, ← List.append_assoc]
  exact h.sends.append_right _

/-- The past lives of a log with one more notice in it. -/
theorem Paging.past_concat {u : Announcing} (h : Paging u) {n : Notice}
    (hn : ∀ r scope target clearedBy, n = .cleared r scope target clearedBy → Told (life u.log) r)
    (before : List Notice) (r : HaltRecord) (scope : HaltScope) (target : Option String) (clearedBy : String) (after : List Notice)
    (heq : u.log ++ [n] = before ++ .cleared r scope target clearedBy :: after) : Told (life before) r := by
  rcases concat_split heq with ⟨rfl, hlast⟩ | ⟨rest, hlog⟩
  · exact hn r scope target clearedBy hlast
  · exact h.past before r scope target clearedBy rest hlog

theorem announce_paging {u v : Announcing} {i : Move} (h : Paging u) (hstep : Announce str u i v) : Paging v := by
  unfold Announce at hstep
  cases i with
  | send k =>
    simp only [announce] at hstep
    split at hstep
    · rename_i d rest hk
      simp only [Option.some.injEq] at hstep
      subst hstep
      refine ⟨h.sound, ?_, h.standing, h.idle, h.past⟩
      rw [List.append_assoc]
      exact ((send_perm hk).append_left u.sent).trans h.sends
    · cases hstep
  | trip i scope target =>
    simp only [announce] at hstep
    cases ht : step str u.switch i with
    | none => simp [ht] at hstep
    | some t =>
      have hsound : Sound t := step_sound h.sound ht
      have htells := step_tells scope target h.sound ht
      simp only [ht] at hstep
      generalize hnotice : noticeOf u.switch t scope target i = notice at hstep htells
      cases htells with
      | silent hstored =>
        simp only [Option.some.injEq] at hstep
        subst hstep
        exact ⟨hsound, h.sends, fun r hr => h.standing r (hstored ▸ hr), fun hn => h.idle (hstored ▸ hn), h.past⟩
      | engaged p c phase now hcall hidle hstored =>
        simp only [Option.some.injEq] at hstep
        subst hstep
        refine ⟨hsound, h.noticed _, fun r' hr' => ?_, fun hn => ?_, h.past_concat fun _ _ _ _ hn => by cases hn⟩
        · obtain rfl : c.record now = r' := encode_injective (Option.some.inj (hstored.symm.trans hr'))
          rw [life_concat, h.idle hidle]
          exact telling_engaged (record_naming c now)
        · rw [hstored] at hn
          cases hn
      | escalated q r hstanding hstored hraises =>
        simp only [Option.some.injEq] at hstep
        subst hstep
        refine ⟨hsound, h.noticed _, fun r' hr' => ?_, fun hn => ?_, h.past_concat fun _ _ _ _ hn => by cases hn⟩
        · obtain rfl : r = r' := encode_injective (Option.some.inj (hstored.symm.trans hr'))
          rw [life_concat]
          exact (h.standing q hstanding).escalated hraises
        · rw [hstored] at hn
          cases hn
      | cleared r clearedBy hstanding hstored =>
        simp only [Option.some.injEq] at hstep
        subst hstep
        refine ⟨hsound, h.noticed _, fun r' hr' => ?_, fun _ => ?_, h.past_concat fun r' _ _ _ hn => ?_⟩
        · rw [hstored] at hr'
          cases hr'
        · rw [life_concat]
          rfl
        · cases hn
          exact (h.standing r hstanding).toTold

theorem paging_always {l : List Move} {u : Announcing} (h : Run (Announce str) {} l u) : Paging u := by
  refine run_invariant Paging (fun _ _ _ hs hstep => announce_paging hs hstep) ?_ h
  exact { sound := ⟨by simp, by simp, by simp⟩, sends := .refl _, standing := by simp, idle := fun _ => rfl, past := by simp }

/-- **The phone hears every halt whole.**  Whatever the order of the round trips and of the sends, what has been sent and is
still to be sent is what the writes of the key called for; a halt's life, standing or over, is one engagement and then its
escalations, which between them name each symbol of its record as newly unproven exactly once; and no two of the alerts that
name symbols in one life share the key a transport collapses repeats by. -/
theorem every_symbol_paged {l : List Move} {u : Announcing} (h : Run (Announce str) {} l u) : Paged u := by
  have hp := paging_always h
  refine ⟨hp.sends, fun raw hraw => ?_, hp.idle, hp.past⟩
  obtain ⟨r, rfl, -⟩ := hp.sound.stored raw hraw
  exact ⟨r, rfl, (hp.standing r hraw).toTold⟩

/-- A halt by hand that the reconciler raises before the hand has sent a thing. -/
theorem every_symbol_paged_raised : ∃ u, Run (Announce .ascii) {} [.trip (.engage byHand) .global none, .trip (.round 0 10) .global none,
      .trip (.engage byReconciler) .global none, .trip (.round 1 20) .global none, .trip (.round 1 21) .global none,
      .trip (.round 1 22) .global none, .send 1, .send 0, .send 1] u ∧ u.sent.length = 3 ∧ Told (life u.log) raisedHalt := by
  let moves : List Move := [.trip (.engage byHand) .global none, .trip (.round 0 10) .global none,
    .trip (.engage byReconciler) .global none, .trip (.round 1 20) .global none, .trip (.round 1 21) .global none,
    .trip (.round 1 22) .global none, .send 1, .send 0, .send 1]
  have hfold : (moves.foldlM (announce .ascii) {}).map (fun u => (u.switch.stored, u.sent.length)) = some (some raisedHalt.encode, 3) := by
    decide +kernel
  obtain ⟨u, hu, hend⟩ := Option.map_eq_some_iff.1 hfold
  obtain ⟨hstored, hsent⟩ := Prod.mk.inj hend
  have hrun : Run (Announce .ascii) {} moves u := run_fold_iff.2 hu
  obtain ⟨r, hr, htold⟩ := (every_symbol_paged hrun).standing _ hstored
  exact ⟨u, hrun, hsent, encode_injective hr ▸ htold⟩

end

end HaltRaces
end Atp
