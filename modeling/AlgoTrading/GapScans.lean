import AlgoTrading.GapBackfill
import AlgoTrading.Streaks
/-!
# GapScans — what a scan counts, and the range it reads

The merge of `scan_gaps` keeps four counts and a run; each count is a count over the whole input (`scan_counts`), and the
runs are the streaks of the missing windows (`runs_streaks`).
-/
namespace Atp
namespace Gaps

open Streaks

/-- A run of windows as one: from its first start to its last end. -/
def span (run : List Window) : Option Window := run.head?.bind fun first => run.getLast?.map fun last => (first.1, last.2)

/-- **What a scan is to answer**, of the expected windows and the stored timestamps. -/
structure Meets (l : List Window) (present : List ℤ) (scan : GapScan) : Prop where
  expected : scan.expected = l.length
  missing : scan.missing = l.countP fun w => ¬∃ ts ∈ present, Inside w ts
  matched : scan.matched = present.countP fun ts => ∃ w ∈ l, Inside w ts
  unmatched : scan.unmatched = present.countP fun ts => l.getLast?.any (fun last => ts < last.1) ∧ ¬∃ w ∈ l, Inside w ts
  windows : scan.windows = (streaks (fun w => ¬∃ ts ∈ present, Inside w ts) l).filterMap span

section
variable {w : Window} {l : List Window} {present : List ℤ} {s : Scanning}

theorem countP_add {α : Type*} {p q r : α → Prop} [DecidablePred p] [DecidablePred q] [DecidablePred r] :
    ∀ {l : List α}, (∀ a ∈ l, (r a ↔ p a ∨ q a) ∧ ¬(p a ∧ q a)) → l.countP (fun a => r a) = l.countP (fun a => p a) + l.countP fun a => q a
  | [], _ => rfl
  | a :: l, h => by
    obtain ⟨hor, hnot⟩ := h a List.mem_cons_self
    have ih := countP_add fun b hb => h b (List.mem_cons_of_mem _ hb)
    simp only [List.countP_cons, decide_eq_true_eq, ih]
    by_cases hp : p a <;> by_cases hq : q a <;> simp_all <;> omega

/-- What one window counts of the timestamps that lie ahead. -/
structure Counted (s : Scanning) (w : Window) (s' : Scanning) : Prop where
  expected : s'.found.expected = s.found.expected + 1
  missing : s'.found.missing = s.found.missing + if ∃ ts ∈ s.rest, Inside w ts then 0 else 1
  matched : s'.found.matched = s.found.matched + s.rest.countP fun ts => Inside w ts
  unmatched : s'.found.unmatched = s.found.unmatched + s.rest.countP fun ts => ts < w.1

theorem window_counted (hs : s.rest.Pairwise (· ≤ ·)) (hw : w.1 ≤ w.2) : Counted s w (s.window w) := by
  have hahead := dropWhile_lt (c := w.1) hs
  have hrest : (s.rest.dropWhile (· < w.1)).dropWhile (· < w.2) = (s.rest.dropWhile (· < w.1)).filter (w.2 ≤ ·) :=
    dropWhile_lt (hahead ▸ hs.filter _)
  have hunmatched : s.rest.length - (s.rest.dropWhile (· < w.1)).length = s.rest.countP fun ts => ts < w.1 := by
    have hsplit := List.length_eq_countP_add_countP (l := s.rest) fun ts => decide (w.1 ≤ ts)
    rw [hahead, ← List.countP_eq_length_filter]
    simp only [decide_eq_true_eq, not_le] at hsplit
    omega
  have hmatched : (s.rest.dropWhile (· < w.1)).length - ((s.rest.dropWhile (· < w.1)).dropWhile (· < w.2)).length =
      s.rest.countP fun ts => Inside w ts := by
    have hsplit : s.rest.countP (fun ts => w.1 ≤ ts) = s.rest.countP (fun ts => Inside w ts) + s.rest.countP fun ts => w.2 ≤ ts := by
      refine countP_add fun ts _ => ?_
      unfold Inside
      omega
    have hlater : (s.rest.filter (w.1 ≤ ·)).countP (fun ts => w.2 ≤ ts) = s.rest.countP fun ts => w.2 ≤ ts := by
      rw [List.countP_filter]
      refine List.countP_congr fun ts _ => ?_
      simp only [Bool.and_eq_true, decide_eq_true_eq]
      omega
    rw [hrest, hahead, ← List.countP_eq_length_filter, ← List.countP_eq_length_filter, hlater]
    omega
  have hcovered := head_inside (w := w) hs
  unfold Scanning.window
  dsimp only
  rw [hunmatched, hmatched]
  split
  · rename_i hany
    exact ⟨rfl, by rw [if_pos (hcovered.1 hany)]; rfl, rfl, rfl⟩
  · rename_i hany
    exact ⟨rfl, by rw [if_neg (mt hcovered.2 hany)], rfl, rfl⟩

/-- Before the start of the last window is before the start of some window. -/
theorem Ascending.before_last (h : Ascending l) (ts : ℤ) : l.getLast?.any (fun last => ts < last.1) = true ↔ ∃ w ∈ l, ts < w.1 := by
  induction l with
  | nil => simp
  | cons w l ih =>
    cases l with
    | nil => simp
    | cons v l =>
      have hle : w.1 ≤ v.1 := (h.forward w List.mem_cons_self).trans ((List.pairwise_cons.1 h.apart).1 v List.mem_cons_self)
      rw [List.getLast?_cons_cons, ih h.tail]
      constructor
      · rintro ⟨u, hu, hlt⟩
        exact ⟨u, List.mem_cons_of_mem _ hu, hlt⟩
      · rintro ⟨u, hu, hlt⟩
        obtain rfl | hu := List.mem_cons.1 hu
        · exact ⟨v, List.mem_cons_self, hlt.trans_le hle⟩
        · exact ⟨u, hu, hlt⟩

/-- **The counts of a pass**, from where it stands: each is a count over all that lies ahead. -/
theorem scan_counts : ∀ {l : List Window} (s : Scanning), Ascending l → s.rest.Pairwise (· ≤ ·) →
    (l.foldl Scanning.window s).found.expected = s.found.expected + l.length ∧
      (l.foldl Scanning.window s).found.missing = s.found.missing + l.countP (fun w => ¬∃ ts ∈ s.rest, Inside w ts) ∧
      (l.foldl Scanning.window s).found.matched = s.found.matched + s.rest.countP (fun ts => ∃ w ∈ l, Inside w ts) ∧
      (l.foldl Scanning.window s).found.unmatched =
        s.found.unmatched + s.rest.countP (fun ts => (∃ w ∈ l, ts < w.1) ∧ ¬∃ w ∈ l, Inside w ts)
  | [], s, _, _ => by simp
  | w :: l, s, hl, hs => by
    have hforward := hl.forward w List.mem_cons_self
    have hapart : ∀ v ∈ l, w.2 ≤ v.1 := (List.pairwise_cons.1 hl.apart).1
    have hcounted := window_counted hs hforward
    have hrest := window_rest hs hforward
    obtain ⟨hexpected, hmissing, hmatched, hunmatched⟩ := scan_counts (s.window w) hl.tail (hrest ▸ hs.filter _)
    rw [List.foldl_cons, hexpected, hmissing, hmatched, hunmatched, hcounted.expected, hcounted.missing, hcounted.matched,
      hcounted.unmatched, hrest, List.countP_filter, List.countP_filter]
    refine ⟨by rw [List.length_cons]; omega, ?_, ?_, ?_⟩
    · -- what was passed lies before every later window
      have hlater : l.countP (fun v => ¬∃ ts ∈ s.rest.filter (w.2 ≤ ·), Inside v ts) = l.countP fun v => ¬∃ ts ∈ s.rest, Inside v ts := by
        refine List.countP_congr fun v hv => ?_
        rw [decide_eq_true_eq, decide_eq_true_eq, not_iff_not]
        constructor
        · rintro ⟨ts, hts, hin⟩
          exact ⟨ts, (List.mem_filter.1 hts).1, hin⟩
        · rintro ⟨ts, hts, hin⟩
          exact ⟨ts, List.mem_filter.2 ⟨hts, decide_eq_true ((hapart v hv).trans hin.1)⟩, hin⟩
      rw [hlater, List.countP_cons]
      simp only [decide_eq_true_eq, ite_not]
      omega
    · have hsplit : s.rest.countP (fun ts => ∃ v ∈ w :: l, Inside v ts) =
          s.rest.countP (fun ts => Inside w ts) + s.rest.countP fun ts => (∃ v ∈ l, Inside v ts) ∧ w.2 ≤ ts := by
        refine countP_add fun ts _ => ?_
        rw [List.exists_mem_cons_iff]
        have hpast : (∃ v ∈ l, Inside v ts) → w.2 ≤ ts := fun ⟨v, hv, hin⟩ => (hapart v hv).trans hin.1
        refine ⟨or_congr_right ⟨fun h => ⟨h, hpast h⟩, And.left⟩, ?_⟩
        rintro ⟨hin, -, hle⟩
        exact absurd hin.2 (not_lt.2 hle)
      simp only [Bool.decide_and] at hsplit ⊢
      rw [hsplit]
      omega
    · have hsplit : s.rest.countP (fun ts => (∃ v ∈ w :: l, ts < v.1) ∧ ¬∃ v ∈ w :: l, Inside v ts) =
          s.rest.countP (fun ts => ts < w.1) +
            s.rest.countP fun ts => ((∃ v ∈ l, ts < v.1) ∧ ¬∃ v ∈ l, Inside v ts) ∧ w.2 ≤ ts := by
        refine countP_add fun ts _ => ?_
        rw [List.exists_mem_cons_iff, List.exists_mem_cons_iff, not_or]
        constructor
        · constructor
          · rintro ⟨hbefore, hout, hnone⟩
            rcases lt_or_ge ts w.1 with hlt | hge
            · exact .inl hlt
            · exact .inr ⟨⟨hbefore.resolve_left (not_lt.2 hge), hnone⟩, not_lt.1 fun hlt => hout ⟨hge, hlt⟩⟩
          · rintro (hlt | ⟨⟨hbefore, hnone⟩, hle⟩)
            · refine ⟨.inl hlt, fun hin => absurd hin.1 (not_le.2 hlt), ?_⟩
              rintro ⟨v, hv, hin⟩
              have := hapart v hv
              have := hin.1
              omega
            · exact ⟨.inr hbefore, fun hin => absurd hin.2 (not_lt.2 hle), hnone⟩
        · rintro ⟨hlt, -, hle⟩
          omega
      simp only [Bool.decide_and] at hsplit ⊢
      rw [hsplit]
      omega

/-- **The coalesced runs are the streaks**, from a streak of missing windows already begun. -/
theorem runsFrom_streaks {missing : Window → Bool} : ∀ {l run : List Window}, (∀ w ∈ run, missing w = true) →
    runsFrom missing (span run) l = (streaks missing (run ++ l)).filterMap span
  | [], [], _ => rfl
  | [], v :: run, h => by
    rw [List.append_nil, streaks_all (List.cons_ne_nil v run) h]
    rfl
  | w :: l, run, h => by
    unfold runsFrom
    cases hw : missing w with
    | true =>
      have hgrown : some (grown (span run) w) = span (run ++ [w]) := by
        cases run with
        | nil => rfl
        | cons v run =>
          obtain ⟨last, hlast⟩ : ∃ last, (v :: run).getLast? = some last := ⟨_, List.getLast?_eq_some_getLast (List.cons_ne_nil v run)⟩
          unfold span
          rw [hlast, List.getLast?_concat]
          rfl
      have hrun : ∀ v ∈ run ++ [w], missing v = true := by
        intro v hv
        rcases List.mem_append.1 hv with hv | hv
        · exact h v hv
        · rw [List.mem_singleton.1 hv, hw]
      rw [if_pos rfl, hgrown, runsFrom_streaks hrun, List.append_cons run w l]
    | false =>
      have hnext := @runsFrom_streaks missing l [] fun v hv => (List.not_mem_nil hv).elim
      rw [if_neg Bool.false_ne_true]
      cases run with
      | nil =>
        have hskip : streaks missing (w :: l) = streaks missing l := streaks_skip (m := [w]) fun v hv => List.mem_singleton.1 hv ▸ hw
        rw [List.nil_append, hskip]
        exact hnext
      | cons v run =>
        rw [streaks_cut (List.cons_ne_nil v run) h hw, List.filterMap_cons]
        exact congrArg _ hnext

/-- **A scan answers what it is to answer.** -/
theorem scanGaps_meets (hl : Ascending l) (hs : present.Pairwise (· ≤ ·)) : Meets l present (scanGaps l present) := by
  obtain ⟨hexpected, hmissing, hmatched, hunmatched⟩ := scan_counts (.start present) hl hs
  refine ⟨?_, ?_, ?_, ?_, ?_⟩
  · exact hexpected.trans (Nat.zero_add _)
  · exact hmissing.trans (Nat.zero_add _)
  · exact hmatched.trans (Nat.zero_add _)
  · refine hunmatched.trans ((Nat.zero_add _).trans ?_)
    refine List.countP_congr fun ts _ => ?_
    rw [decide_eq_true_eq, decide_eq_true_eq, hl.before_last]
  · rw [scanGaps_windows hl hs]
    exact @runsFrom_streaks _ l [] fun v hv => (List.not_mem_nil hv).elim

end

/-- **The gap scan meets its specification, and reads all that could match**: of daily bars, where no session closes more than
24 hours before its local day ends. -/
theorem scan_specified :
    (∀ l present, Ascending l → present.Pairwise (· ≤ ·) → Meets l present (scanGaps l present)) ∧
      ∀ cal timeframe start stop, supported timeframe = true → start < stop → (timeframe = .d1 → EndsSoon cal) →
        ∀ w ∈ expectedWindows cal timeframe start stop, ∀ ts, Inside w ts → Inside (queryBounds timeframe start stop) ts := by
  refine ⟨fun l present => scanGaps_meets, ?_⟩
  intro cal timeframe start stop _ _ hcal w hw ts hin
  have hread := expectedWindows_read hcal hw
  exact ⟨hread.1.trans hin.1, hin.2.trans_le hread.2⟩

theorem scan_specified_days :
    Meets [(0, 10), (10, 20), (30, 40)] [-5, 12, 12, 25, 50] (scanGaps [(0, 10), (10, 20), (30, 40)] [-5, 12, 12, 25, 50]) ∧
      ∀ ts, Inside (86400, 172800) ts → Inside (queryBounds .d1 0 172800) ts := by
  have hsoon : EndsSoon TradingCalendar.everyDay := fun d s hs => by
    cases hs
    show 86400 * (d + 1) ≤ 86400 * d + 60000 + 86400
    omega
  refine ⟨scan_specified.1 _ _ ⟨by decide, by decide⟩ (by decide), ?_⟩
  exact scan_specified.2 TradingCalendar.everyDay .d1 0 172800 rfl (by decide) (fun _ => hsoon) (86400, 172800) (by decide +kernel)

/-- **On a long night** a bar that matches the day's window lies outside what is read for it. -/
theorem match_unread : (0, 90000) ∈ expectedWindows Backfill.longNight .d1 0 1800 ∧ Inside (0, 90000) 89000 ∧
    ¬Inside (queryBounds .d1 0 1800) 89000 := by
  decide +kernel

end Gaps
end Atp
