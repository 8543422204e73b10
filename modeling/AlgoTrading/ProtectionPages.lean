import AlgoTrading.Market
import Mathlib.Data.Finset.Sort
import Mathlib.Data.List.TakeWhile
import Mathlib.Data.String.Basic
/-!
# ProtectionPages — paging for positions with no stop at the venue

`_announce_unprotected` of `runner.py`: the page, or the all-clear, that goes out for the symbols a pass found naked.
`Follows` is what the paging state remembers of the passes before; `paged_always` is what a human is told over a whole run of
passes.
-/
namespace Atp
namespace Pages

/-! ## What is sent -/

/-- The page, and the all-clear. -/
inductive Alert
  | unprotected (names newly : List String) (minutes : ℤ)
  | restored (symbols : ℕ)
deriving DecidableEq

namespace Alert

/-- `f"{n}"`. -/
def count (n : ℕ) : Piece := .dec n

def title : Alert → List Piece
  | unprotected names newly _ =>
    if newly ≠ [] then [count names.length, .lit " position(s) with NO stop at the broker"]
    else [.lit "Still ", count names.length, .lit " position(s) with NO stop at the broker"]
  | restored _ => [.lit "Protection restored — every position has a venue stop"]

def body : Alert → List Piece
  | unprotected names newly minutes =>
    [.lit "No protective order is working at the venue for: ", .lit (", ".intercalate names), .lit ".\n"] ++
      (if newly ≠ [] then [.lit "Newly unprotected: ", .lit (", ".intercalate newly), .lit ".\n"] else []) ++
      [.lit "Longest without a stop: ", .ts minutes, .lit " min.\nThe engine-side stop only exists while this worker is running — ",
        .lit "it does not survive a crash, a restart or the overnight gap.\ndocs/RUNBOOK.md, and check the broker's own UI."]
  | restored _ => [.lit "Every open position now has a stop working at the broker. Nothing further is required."]

def key : Alert → String
  | unprotected .. => "protection.unprotected"
  | restored _ => "protection.restored"

def isPage : Alert → Bool
  | unprotected .. => true
  | restored _ => false

/-- The symbols it names. -/
def names : Alert → List String
  | unprotected names .. => names
  | restored _ => []

end Alert

/-- What the runner remembers: since when each symbol has been naked, the set the last page named, and when it went. -/
structure Paging where
  since : String → Option ℤ := fun _ => none
  alerted : Finset String := ∅
  alertedAt : Option ℤ := none

/-- A page went out less than the cooldown ago. -/
def Within (cooldown : ℚ) (now : ℤ) (at_ : Option ℤ) : Prop := ∃ s ∈ at_, ((now - s : ℤ) : ℚ) < cooldown

instance (cooldown : ℚ) (now : ℤ) (at_ : Option ℤ) : Decidable (Within cooldown now at_) :=
  decidable_of_iff (at_.any fun s => decide (((now - s : ℤ) : ℚ) < cooldown)) (by cases at_ <;> simp [Within])

/-- The symbols naked now, since the first pass of each one's run: `_unprotected_since`. -/
def Paging.sinceAt (p : Paging) (now : ℤ) (current : Finset String) (symbol : String) : Option ℤ :=
  if symbol ∈ current then some ((p.since symbol).getD now) else none

/-- Whole minutes the oldest has gone without a stop. -/
def minutesSince (now : ℤ) (symbols : List String) (since : String → Option ℤ) : ℤ :=
  (now - (symbols.filterMap since).min?.getD now) / 60

/-- **`_announce_unprotected`**, where there is a sink to send to: at most one alert a pass. -/
def announce (sink : Bool) (cooldown : ℚ) (now : ℤ) (current : Finset String) (p : Paging) : Option Alert × Paging :=
  if !sink then (none, p)
  else
    let since := p.sinceAt now current
    if current = ∅ then
      (if p.alerted = ∅ then none else some (.restored p.alerted.card), { since })
    else
      let newly := current \ p.alerted
      if newly = ∅ ∧ Within cooldown now p.alertedAt then (none, { p with since })
      else
        (some (.unprotected current.sort newly.sort (minutesSince now current.sort since)),
          { since, alerted := current, alertedAt := some now })

/-! ## A run of passes -/

/-- One pass: when, what was naked, and what was sent. -/
structure Pass where
  now : ℤ
  naked : Finset String
  sent : Option Alert

namespace Pass

def paged (q : Pass) : Bool := q.sent.any Alert.isPage

def cleared (q : Pass) : Bool := q.sent.any fun a => !a.isPage

/-- A page of this pass names the symbol. -/
def Names (q : Pass) (symbol : String) : Prop := ∃ a ∈ q.sent, symbol ∈ a.names

end Pass

/-- One more pass, with a sink to send to. -/
def pass (cooldown : ℚ) (h : List Pass × Paging) (x : ℤ × Finset String) : List Pass × Paging :=
  (h.1 ++ [⟨x.1, x.2, (announce true cooldown x.1 x.2 h.2).1⟩], (announce true cooldown x.1 x.2 h.2).2)

/-- The passes of a run, from a runner that has just come up, and what it remembers after them. -/
def run (cooldown : ℚ) (passes : List (ℤ × Finset String)) : List Pass × Paging := passes.foldl (pass cooldown) ([], {})

/-- The passes since nothing was naked, the latest first. -/
def streak (log : List Pass) : List Pass := log.reverse.takeWhile fun q => decide (q.naked ≠ ∅)

/-- The last page since nothing was naked. -/
def lastPage (log : List Pass) : Option Pass := (streak log).find? Pass.paged

/-- **What is remembered follows the passes**: the last page's set and instant, and a set that covers the last pass's. -/
structure Follows (log : List Pass) (p : Paging) : Prop where
  alerted : p.alerted = (lastPage log).elim ∅ Pass.naked
  alertedAt : p.alertedAt = (lastPage log).map Pass.now
  covered : ∀ q ∈ log.getLast?, q.naked ⊆ p.alerted
  named : ∀ q ∈ log, ∀ symbol, q.Names symbol ↔ q.paged = true ∧ symbol ∈ q.naked

section
variable {cooldown : ℚ} {now : ℤ} {current : Finset String} {p : Paging} {log : List Pass}

/-- **What a pass does**: an all-clear if one is owed, nothing, or a page. -/
theorem announce_cases (cooldown : ℚ) (now : ℤ) (current : Finset String) (p : Paging) :
    (current = ∅ ∧ announce true cooldown now current p =
      (if p.alerted = ∅ then none else some (.restored p.alerted.card), { since := p.sinceAt now current })) ∨
    (current ≠ ∅ ∧ current ⊆ p.alerted ∧ Within cooldown now p.alertedAt ∧
      announce true cooldown now current p = (none, { p with since := p.sinceAt now current })) ∨
    (current ≠ ∅ ∧ ¬(current ⊆ p.alerted ∧ Within cooldown now p.alertedAt) ∧ announce true cooldown now current p =
      (some (.unprotected current.sort (current \ p.alerted).sort (minutesSince now current.sort (p.sinceAt now current))),
        { since := p.sinceAt now current, alerted := current, alertedAt := some now })) := by
  unfold announce
  by_cases hempty : current = ∅
  · exact .inl ⟨hempty, by simp [hempty]⟩
  · right
    simp only [Bool.not_true, Bool.false_eq_true, if_false, hempty, ← Finset.sdiff_eq_empty_iff_subset]
    by_cases hquiet : current \ p.alerted = ∅ ∧ Within cooldown now p.alertedAt
    · exact .inl ⟨hempty, hquiet.1, hquiet.2, if_pos hquiet⟩
    · exact .inr ⟨hempty, hquiet, if_neg hquiet⟩

theorem streak_concat (log : List Pass) (q : Pass) : streak (log ++ [q]) = if q.naked = ∅ then [] else q :: streak log := by
  unfold streak
  rw [List.reverse_append, List.reverse_singleton, List.singleton_append, List.takeWhile_cons]
  split <;> simp_all

theorem lastPage_concat (log : List Pass) (q : Pass) :
    lastPage (log ++ [q]) = if q.naked = ∅ then none else if q.paged then some q else lastPage log := by
  unfold lastPage
  rw [streak_concat]
  by_cases hempty : q.naked = ∅
  · rw [if_pos hempty, if_pos hempty]
    rfl
  · rw [if_neg hempty, if_neg hempty, List.find?_cons]
    cases q.paged <;> rfl

/-- **One pass keeps what is remembered in step.** -/
theorem pass_follows (h : Follows log p) (x : ℤ × Finset String) :
    Follows (pass cooldown (log, p) x).1 (pass cooldown (log, p) x).2 := by
  obtain ⟨now, current⟩ := x
  obtain ⟨rfl, heq⟩ | ⟨hne, hsub, -, heq⟩ | ⟨hne, -, heq⟩ := announce_cases cooldown now current p
  · unfold pass
    rw [heq]
    refine ⟨by rw [lastPage_concat]; rfl, by rw [lastPage_concat]; rfl, by simp, ?_⟩
    simp only [List.forall_mem_append, List.forall_mem_singleton]
    refine ⟨h.named, fun symbol => ?_⟩
    split <;> simp [Pass.Names, Alert.names]
  · unfold pass
    rw [heq]
    refine ⟨?_, ?_, ?_, ?_⟩
    · rw [lastPage_concat, if_neg hne]
      exact h.alerted
    · rw [lastPage_concat, if_neg hne]
      exact h.alertedAt
    · simpa using hsub
    · simp only [List.forall_mem_append, List.forall_mem_singleton]
      exact ⟨h.named, fun symbol => by simp [Pass.Names, Pass.paged]⟩
  · unfold pass
    rw [heq]
    refine ⟨?_, ?_, by simp, ?_⟩
    · rw [lastPage_concat, if_neg hne]
      rfl
    · rw [lastPage_concat, if_neg hne]
      rfl
    · simp only [List.forall_mem_append, List.forall_mem_singleton]
      exact ⟨h.named, fun symbol => by simp [Pass.Names, Pass.paged, Alert.names, Alert.isPage]⟩

theorem run_concat (cooldown : ℚ) (passes : List (ℤ × Finset String)) (x : ℤ × Finset String) :
    run cooldown (passes ++ [x]) = pass cooldown (run cooldown passes) x := by
  simp [run]

theorem run_follows (cooldown : ℚ) (passes : List (ℤ × Finset String)) :
    Follows (run cooldown passes).1 (run cooldown passes).2 := by
  induction passes using List.reverseRecOn with
  | nil => exact ⟨rfl, rfl, by simp [run], by simp [run]⟩
  | append_singleton passes x ih =>
    rw [run_concat]
    exact pass_follows ih x

/-- The passes of the log are the passes of the run. -/
theorem run_log (cooldown : ℚ) (passes : List (ℤ × Finset String)) :
    (run cooldown passes).1.map (fun q => (q.now, q.naked)) = passes := by
  induction passes using List.reverseRecOn with
  | nil => rfl
  | append_singleton passes x ih => simp [run_concat, pass, ih]

theorem mem_streak {q : Pass} (h : q ∈ streak log) : q ∈ log ∧ q.naked ≠ ∅ :=
  ⟨List.mem_reverse.1 ((List.takeWhile_sublist _).subset h), by simpa using List.mem_takeWhile_imp h⟩

theorem lastPage_some {q : Pass} (h : lastPage log = some q) : q ∈ log ∧ q.paged = true ∧ q.naked ≠ ∅ :=
  have hmem := mem_streak (List.mem_of_find?_eq_some h)
  ⟨hmem.1, List.find?_some h, hmem.2⟩

/-- The last page is the latest. -/
theorem lastPage_latest {r : Pass} : ∀ {log : List Pass}, lastPage log = some r → log.Pairwise (fun a b => a.now ≤ b.now) →
    ∀ q ∈ log, q.paged = true → q.now ≤ r.now := by
  intro log
  induction log using List.reverseRecOn with
  | nil => exact fun h _ q hq => by cases hq
  | append_singleton log x ih =>
    intro h hrising q hq hpaged
    rw [lastPage_concat] at h
    obtain ⟨hlog, -, hlast⟩ := List.pairwise_append.1 hrising
    obtain hold | hnew := List.mem_append.1 hq
    · split at h
      · cases h
      · split at h
        · obtain rfl := Option.some.inj h
          exact hlast q hold x (List.mem_singleton_self x)
        · exact ih h hlog q hold hpaged
    · obtain rfl := List.mem_singleton.1 hnew
      rw [if_pos hpaged] at h
      split at h
      · cases h
      · cases h
        exact le_rfl

/-- **Something is remembered exactly while a page is outstanding.** -/
theorem Follows.alerted_empty (h : Follows log p) : p.alerted = ∅ ↔ ∀ q ∈ streak log, q.paged = false := by
  rw [h.alerted]
  cases hlast : lastPage log with
  | none => simpa using List.find?_eq_none.1 hlast
  | some r =>
    obtain ⟨-, hpaged, hne⟩ := lastPage_some hlast
    refine ⟨fun hempty => absurd hempty hne, fun hall => ?_⟩
    exact absurd hpaged (by simp [hall r (List.mem_of_find?_eq_some hlast)])

end

/-- The pass made at `now`, after the passes of the log. -/
def here (cooldown : ℚ) (now : ℤ) (current : Finset String) (p : Paging) : Pass :=
  ⟨now, current, (announce true cooldown now current p).1⟩

section
variable {cooldown : ℚ} {now : ℤ} {current : Finset String} {p : Paging} {log : List Pass}

/-- What was alerted was named. -/
theorem Follows.alerted_named (h : Follows log p) {symbol : String} (hs : symbol ∈ p.alerted) :
    ∃ q, lastPage log = some q ∧ p.alertedAt = some q.now ∧ q.Names symbol := by
  have hmem := hs
  rw [h.alerted] at hmem
  cases hlast : lastPage log with
  | none => simp [hlast] at hmem
  | some q =>
    obtain ⟨hq, hpaged, -⟩ := lastPage_some hlast
    exact ⟨q, rfl, by rw [h.alertedAt, hlast]; rfl, (h.named q hq symbol).2 ⟨hpaged, by simpa [hlast] using hmem⟩⟩

/-- **The floor**: a symbol the last page did not name is named now. -/
theorem here_names (h : Follows log p) : ∀ symbol ∈ current, (∀ q ∈ lastPage log, ¬q.Names symbol) →
    (here cooldown now current p).Names symbol := by
  intro symbol hs hunnamed
  unfold here
  obtain ⟨rfl, -⟩ | ⟨-, hsub, -, -⟩ | ⟨-, -, heq⟩ := announce_cases cooldown now current p
  · simp at hs
  · obtain ⟨q, hlast, -, hnames⟩ := h.alerted_named (hsub hs)
    exact absurd hnames (hunnamed q hlast)
  · rw [heq]
    exact ⟨_, rfl, by simpa [Alert.names] using hs⟩

/-- A naked symbol is named now, or was less than the cooldown ago. -/
theorem here_named (h : Follows log p) : ∀ symbol ∈ current, (here cooldown now current p).Names symbol ∨
    ∃ q ∈ log, q.Names symbol ∧ ((now - q.now : ℤ) : ℚ) < cooldown := by
  intro symbol hs
  unfold here
  obtain ⟨rfl, -⟩ | ⟨-, hsub, ⟨at_, hat, hlt⟩, -⟩ | ⟨-, -, heq⟩ := announce_cases cooldown now current p
  · simp at hs
  · obtain ⟨q, hlast, hnow, hnames⟩ := h.alerted_named (hsub hs)
    rw [hnow] at hat
    cases hat
    exact .inr ⟨q, (lastPage_some hlast).1, hnames, hlt⟩
  · rw [heq]
    exact .inl ⟨_, rfl, by simpa [Alert.names] using hs⟩

/-- **The ceiling**: a set that has not grown, inside the cooldown of a page, sends none. -/
theorem here_quiet (h : Follows log p) (hrising : log.Pairwise fun a b => a.now ≤ b.now)
    (hshrunk : ∀ symbol ∈ current, ∃ q ∈ log.getLast?, symbol ∈ q.naked)
    (hpage : ∃ q ∈ log, q.paged = true ∧ ((now - q.now : ℤ) : ℚ) < cooldown) : (here cooldown now current p).paged = false := by
  unfold here
  obtain ⟨-, heq⟩ | ⟨-, -, -, heq⟩ | ⟨hne, hloud, -⟩ := announce_cases cooldown now current p
  · rw [heq]
    by_cases halerted : p.alerted = ∅ <;> simp [Pass.paged, halerted, Alert.isPage]
  · rw [heq]
    rfl
  · have hsub : current ⊆ p.alerted := fun symbol hs => by
      obtain ⟨q, hq, hnaked⟩ := hshrunk symbol hs
      exact h.covered q hq hnaked
    obtain ⟨symbol, hs⟩ := Finset.nonempty_iff_ne_empty.2 hne
    obtain ⟨r, hlast, hnow, -⟩ := h.alerted_named (hsub hs)
    obtain ⟨q, hq, hpaged, hlt⟩ := hpage
    -- the last page of the streak is the latest of all, so it is inside the cooldown too
    have hle : now - r.now ≤ now - q.now := by
      have := lastPage_latest hlast hrising q hq hpaged
      omega
    exact absurd ⟨hsub, r.now, hnow, lt_of_le_of_lt (by exact_mod_cast hle) hlt⟩ hloud

/-- **The all-clear** goes out at the first pass with nothing naked after a page. -/
theorem here_cleared (h : Follows log p) : (here cooldown now current p).cleared = true ↔
    current = ∅ ∧ ∃ q ∈ streak log, q.paged = true := by
  have howed : (∃ q ∈ streak log, q.paged = true) ↔ p.alerted ≠ ∅ := by
    rw [Ne, h.alerted_empty]
    simp
  rw [howed]
  unfold here
  obtain ⟨hempty, heq⟩ | ⟨hne, -, -, heq⟩ | ⟨hne, -, heq⟩ := announce_cases cooldown now current p
  · rw [heq]
    by_cases halerted : p.alerted = ∅ <;> simp [Pass.cleared, halerted, hempty, Alert.isPage]
  · rw [heq]
    simp [Pass.cleared, hne]
  · rw [heq]
    simp [Pass.cleared, hne, Alert.isPage]

end

/-- **What a human is told, over any run of passes**: a naked symbol the last page did not name is named at once; every naked
symbol has been named within the cooldown; a set that has not grown is not paged for twice in a cooldown; and the all-clear
goes out at the first pass with nothing naked after a page, and at no other. -/
theorem paged_always (cooldown : ℚ) (passes : List (ℤ × Finset String)) (now : ℤ) (current : Finset String)
    (hrising : (passes ++ [(now, current)]).Pairwise fun a b => a.1 ≤ b.1) :
    let before := (run cooldown passes).1
    let here := here cooldown now current (run cooldown passes).2
    (run cooldown (passes ++ [(now, current)])).1 = before ++ [here] ∧
    (∀ symbol ∈ current, (∀ q ∈ lastPage before, ¬q.Names symbol) → here.Names symbol) ∧
    (∀ symbol ∈ current, here.Names symbol ∨ ∃ q ∈ before, q.Names symbol ∧ ((now - q.now : ℤ) : ℚ) < cooldown) ∧
    ((∀ symbol ∈ current, ∃ q ∈ before.getLast?, symbol ∈ q.naked) →
      (∃ q ∈ before, q.paged = true ∧ ((now - q.now : ℤ) : ℚ) < cooldown) → here.paged = false) ∧
    (here.cleared = true ↔ current = ∅ ∧ ∃ q ∈ streak before, q.paged = true) := by
  have hfollows := run_follows cooldown passes
  have hbefore : (run cooldown passes).1.Pairwise fun a b => a.now ≤ b.now := by
    have h := (List.pairwise_append.1 hrising).1
    rw [← run_log cooldown passes, List.pairwise_map] at h
    exact h
  exact ⟨by rw [run_concat]; rfl, here_names hfollows, here_named hfollows, here_quiet hfollows hbefore, here_cleared hfollows⟩

/-- Two naked positions, one of them for a moment covered. -/
def flicker : List (ℤ × Finset String) := [(0, {"KO", "PEP"}), (60, {"KO"})]

/-- **A third symbol pages at once.** -/
theorem paged_always_grown : (here 900 120 {"KO", "PEP", "INTC"} (run 900 flicker).2).Names "INTC" := by
  have hunnamed : ∀ q ∈ lastPage (run 900 flicker).1, ¬q.Names "INTC" := by
    intro q hq hnames
    have hlog := (lastPage_some (Option.mem_def.1 hq)).1
    have hpass : (q.now, q.naked) ∈ flicker := run_log 900 flicker ▸ List.mem_map_of_mem hlog
    have hnaked := (((run_follows 900 flicker).named q hlog "INTC").1 hnames).2
    exact absurd hnaked ((by decide : ∀ x ∈ flicker, "INTC" ∉ x.2) _ hpass)
  exact (paged_always 900 flicker 120 {"KO", "PEP", "INTC"} (by decide)).2.1 "INTC" (by decide) hunnamed

/-- **A symbol naked again inside the cooldown**, which was not at the last pass: nothing is sent. -/
theorem naked_again : "PEP" ∈ ({"KO", "PEP"} : Finset String) ∧ (∀ q ∈ (run 900 flicker).1.getLast?, "PEP" ∉ q.naked) ∧
    (here 900 120 {"KO", "PEP"} (run 900 flicker).2).sent = none := by
  refine ⟨by decide, ?_, ?_⟩ <;> decide +kernel

end Pages
end Atp
