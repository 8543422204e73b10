import AlgoTrading.Gaps
/-!
# GapBackfill — fetching what a calendar says is missing

`backfill_gaps` of `data/backfill.py`, over the bar table and `find_gaps`.  `Exact` is a provider that answers with the bars
of its tape that fall in the window asked for; `remaining_exact` is what one pass then leaves open.
-/
namespace Atp
namespace Backfill

open Raising Gaps

/-- A gap still open. -/
structure Remaining where
  symbol : String
  window : Window
deriving DecidableEq

structure GapBackfillResult where
  symbols : List String
  timeframe : Timeframe
  gapsFound : ℕ := 0
  barsWritten : ℕ := 0
  requests : ℕ := 0
  remaining : List Remaining := []
  truncated : List String := []
deriving DecidableEq

/-- Nothing is missing any more and nothing was left untried. -/
def GapBackfillResult.ok (r : GapBackfillResult) : Bool := r.remaining.isEmpty && r.truncated.isEmpty

/-- The gaps of one symbol that are still open. -/
def GapBackfillResult.remainingOf (r : GapBackfillResult) (symbol : String) : List Window :=
  (r.remaining.filter (·.symbol = symbol)).map Remaining.window

/-- `DEFAULT_MAX_GAPS_PER_SYMBOL`. -/
def defaultMaxGapsPerSymbol : ℤ := 50

/-- What `backfill_gaps` refuses before it reads anything. -/
def refuseGaps (p : Ports) (symbols : List String) (timeframe : Timeframe) (start stop maxGaps : ℤ) : Except Exc Unit :=
  match refuseRange p symbols start stop with
  | .error e => .error e
  | .ok () =>
    if maxGaps < 1 then .error ⟨.valueError, [.lit "max_gaps_per_symbol must be at least 1, got ", .ts maxGaps]⟩
    else requireSupported timeframe

section
variable (cal : TradingCalendar) (p : Ports) (timeframe : Timeframe) (adjusted : Bool)

/-- The windows attempted of one symbol: one the provider has nothing for is passed over. -/
def fetchGaps (symbol : String) : List Window → GapBackfillResult → Prog BarTable Exc GapBackfillResult
  | [], r => return r
  | w :: rest, r =>
    let r := { r with requests := r.requests + 1 }
    match p.getBars [symbol] timeframe w.1 w.2 adjusted with
    | .error e => if e.cls.isA .dataGapError then fetchGaps symbol rest r else throw e
    | .ok fetched =>
      let bars := fetched.values.flatten
      if bars.isEmpty then fetchGaps symbol rest r
      else
        match p.upsertRaises bars with
        | some exc => throw exc
        | none => do
          modify fun table => table.upsertBars bars
          fetchGaps symbol rest { r with barsWritten := r.barsWritten + bars.length }

/-- Symbol by symbol: what is missing, what of it can be fetched, and what is missing still. -/
def closeGaps (start stop maxGaps : ℤ) : List String → GapBackfillResult → Prog BarTable Exc GapBackfillResult
  | [], r => return r
  | symbol :: rest, r => do
    let table ← get
    let gaps ← fromExcept (findGaps cal table symbol timeframe start stop)
    let r := { r with gapsFound := r.gapsFound + gaps.length }
    if gaps.isEmpty then closeGaps start stop maxGaps rest r
    else do
      let attempted := gaps.take maxGaps.toNat
      let r := if maxGaps < gaps.length then { r with truncated := r.truncated ++ [symbol] } else r
      let r ← fetchGaps p timeframe adjusted symbol attempted r
      let table ← get
      let left ← fromExcept (findGaps cal table symbol timeframe start stop)
      closeGaps start stop maxGaps rest { r with remaining := r.remaining ++ left.map fun w => ⟨symbol, w⟩ }

/-- **`backfill_gaps`.** -/
def backfillGaps (symbols : List String) (start stop : ℤ) (maxGaps : ℤ := defaultMaxGapsPerSymbol) :
    Prog BarTable Exc GapBackfillResult := do
  fromExcept (refuseGaps p symbols timeframe start stop maxGaps)
  closeGaps cal p timeframe adjusted start stop maxGaps (fromKeys symbols) { symbols := fromKeys symbols, timeframe }

end

/-! ## A provider that answers exactly -/

/-- **A provider that has a tape**: asked for a symbol and a window it returns the symbol's bars that fall in it, and raises
a gap when there are none. -/
structure Exact (tape : String → Bool → List Bar) (timeframe : Timeframe) (p : Ports) : Prop where
  named : ∀ symbol adjusted, ∀ b ∈ tape symbol adjusted, b.symbol = symbol ∧ b.timeframe = timeframe
  found : ∀ symbol start stop adjusted, (∃ b ∈ tape symbol adjusted, Inside (start, stop) b.ts) →
    ∃ bars, p.getBars [symbol] timeframe start stop adjusted = .ok bars ∧
      ∀ b, b ∈ bars.values.flatten ↔ b ∈ tape symbol adjusted ∧ Inside (start, stop) b.ts
  gap : ∀ symbol start stop adjusted, (¬∃ b ∈ tape symbol adjusted, Inside (start, stop) b.ts) →
    ∃ e, p.getBars [symbol] timeframe start stop adjusted = .error e ∧ e.cls.isA .dataGapError = true

/-- **The table with some windows of a symbol fetched**: the bars of the tape in them are stored, and nothing else is new or
gone. -/
def Filled (tape : String → Bool → List Bar) (timeframe : Timeframe) (adjusted : Bool) (symbol : String) (windows : List Window)
    (before after : BarTable) : Prop :=
  ∀ s tf ts, after.Has s tf ts ↔ before.Has s tf ts ∨
    (s = symbol ∧ tf = timeframe ∧ ∃ w ∈ windows, Inside w ts ∧ ∃ b ∈ tape symbol adjusted, b.ts = ts)

section
variable {tape : String → Bool → List Bar} {cal : TradingCalendar} {p : Ports} {timeframe : Timeframe} {adjusted : Bool}
  {symbol : String} {start stop maxGaps : ℤ}

theorem Filled.refl (t : BarTable) : Filled tape timeframe adjusted symbol [] t t := fun s tf ts => by simp

/-- **One window.** -/
theorem Filled.one (hp : Exact tape timeframe p) {w : Window} {t : BarTable} {bars : List Bar}
    (hbars : ∀ b, b ∈ bars ↔ b ∈ tape symbol adjusted ∧ Inside w b.ts) :
    Filled tape timeframe adjusted symbol [w] t (t.upsertBars bars) := by
  intro s tf ts
  rw [BarTable.has_upsertBars, or_comm]
  refine or_congr_right ?_
  constructor
  · rintro ⟨b, hb, rfl, rfl, rfl⟩
    obtain ⟨htape, hin⟩ := (hbars b).1 hb
    obtain ⟨hsymbol, htimeframe⟩ := hp.named symbol adjusted b htape
    exact ⟨hsymbol, htimeframe, w, List.mem_singleton_self w, hin, b, htape, rfl⟩
  · rintro ⟨rfl, rfl, v, hv, hin, b, htape, rfl⟩
    obtain rfl := List.mem_singleton.1 hv
    obtain ⟨hsymbol, htimeframe⟩ := hp.named _ adjusted b htape
    exact ⟨b, (hbars b).2 ⟨htape, hin⟩, hsymbol.symm, htimeframe.symm, rfl⟩

/-- One window after the other. -/
theorem Filled.cons {w : Window} {rest : List Window} {t t' t'' : BarTable} (h : Filled tape timeframe adjusted symbol [w] t t')
    (h' : Filled tape timeframe adjusted symbol rest t' t'') : Filled tape timeframe adjusted symbol (w :: rest) t t'' := by
  intro s tf ts
  rw [h' s tf ts, h s tf ts, or_assoc]
  refine or_congr_right ?_
  simp only [List.mem_singleton, exists_eq_left, List.exists_mem_cons_iff]
  rw [← and_or_left, ← and_or_left]

/-- **What fetching the windows of a symbol leaves.** -/
theorem fetchGaps_filled (hp : Exact tape timeframe p) (hwrites : ∀ rows, p.upsertRaises rows = none) :
    ∀ (windows : List Window) (r : GapBackfillResult) (t : BarTable), Triple (fun t' => t' = t)
      (fetchGaps p timeframe adjusted symbol windows r)
      (fun r' t' => Filled tape timeframe adjusted symbol windows t t' ∧ r'.remaining = r.remaining ∧ r'.truncated = r.truncated)
      (fun _ _ => False)
  | [], r, t => triple_pure _ fun t' ht => by
    subst ht
    exact ⟨.refl _, rfl, rfl⟩
  | w :: rest, r, t => by
    have hnext := fetchGaps_filled hp hwrites rest
    unfold fetchGaps
    dsimp only
    by_cases hw : ∃ b ∈ tape symbol adjusted, Inside (w.1, w.2) b.ts
    · obtain ⟨bars, hbars, hexact⟩ := hp.found symbol w.1 w.2 adjusted hw
      rw [hbars]
      dsimp only
      -- bars of the window were returned, so they are written
      have hsome : bars.values.flatten.isEmpty = false := by
        obtain ⟨b, hb, hin⟩ := hw
        exact List.isEmpty_eq_false_iff.2 (List.ne_nil_of_mem ((hexact b).2 ⟨hb, hin⟩))
      rw [hsome, hwrites]
      dsimp only
      refine triple_bind (R := fun _ t' => Filled tape timeframe adjusted symbol [w] t t')
        (triple_modify _ fun t' ht => ht ▸ .one hp hexact) fun _ => triple_at fun t' ht' => ?_
      exact triple_conseq (hnext _ t') (fun _ h => h) (fun r' t'' h => ⟨ht'.cons h.1, h.2⟩) fun _ _ h => h
    · obtain ⟨e, he, hgap⟩ := hp.gap symbol w.1 w.2 adjusted hw
      rw [he]
      dsimp only
      rw [if_pos hgap]
      have hempty : Filled tape timeframe adjusted symbol [w] t t := fun s tf ts => by
        rw [iff_self_or]
        rintro ⟨-, -, v, hv, hin, b, htape, rfl⟩
        obtain rfl := List.mem_singleton.1 hv
        exact absurd ⟨b, htape, hin⟩ hw
      exact triple_conseq (hnext _ t) (fun _ h => h) (fun r' t'' h => ⟨hempty.cons h.1, h.2⟩) fun _ _ h => h

/-- Neither the store nor the provider holds a bar of the window. -/
def unheld (table : BarTable) (tape : List Bar) (symbol : String) (timeframe : Timeframe) (w : Window) : Bool :=
  unstored table symbol timeframe w && tape.all fun b => ¬Inside w b.ts

theorem unheld_iff {t : BarTable} {bars : List Bar} {w : Window} : unheld t bars symbol timeframe w = true ↔
    unstored t symbol timeframe w = true ∧ ∀ b ∈ bars, ¬Inside w b.ts := by
  simp [unheld]

/-- **What is missing once every missing run is fetched**: the windows the provider has no bar of either. -/
theorem Filled.unstored {l : List Window} {t t' : BarTable} (hl : Tiles l)
    (h : Filled tape timeframe adjusted symbol (runs (unstored t symbol timeframe) l) t t') :
    runs (Gaps.unstored t' symbol timeframe) l = runs (unheld t (tape symbol adjusted) symbol timeframe) l := by
  refine runs_congr fun w hw => ?_
  rw [Bool.eq_iff_iff, unheld_iff, unstored_iff]
  constructor
  · intro hleft
    have hbefore : Gaps.unstored t symbol timeframe w = true :=
      unstored_iff.2 fun ts hts => hleft ts ((h _ _ _).2 (.inl hts))
    refine ⟨hbefore, fun b hb hin => ?_⟩
    -- the run the window is part of was asked for whole
    obtain ⟨g, hg, hlow, hhigh⟩ := runs_covers hl hw hbefore
    obtain ⟨hin1, hin2⟩ := hin
    exact hleft b.ts ((h _ _ _).2 (.inr ⟨rfl, rfl, g, hg, ⟨by omega, by omega⟩, b, hb, rfl⟩)) ⟨hin1, hin2⟩
  · rintro ⟨hbefore, htape⟩ ts hts hin
    obtain hts | ⟨-, -, g, -, -, b, hb, rfl⟩ := (h _ _ _).1 hts
    · exact unstored_iff.1 hbefore ts hts hin
    · exact htape b hb hin

/-- Another symbol's windows are as they were. -/
theorem Filled.unstored_elsewhere {windows : List Window} {t t' : BarTable}
    (h : Filled tape timeframe adjusted symbol windows t t') {s : String} (hs : s ≠ symbol) :
    Gaps.unstored t' s timeframe = Gaps.unstored t s timeframe := by
  funext w
  rw [Bool.eq_iff_iff, unstored_iff, unstored_iff]
  refine forall_congr' fun ts => ?_
  rw [h s timeframe ts]
  simp [hs]

theorem remainingOf_append (r : GapBackfillResult) (symbol s : String) (left : List Window) :
    ({ r with remaining := r.remaining ++ left.map fun w => ⟨symbol, w⟩ } : GapBackfillResult).remainingOf s =
      r.remainingOf s ++ if s = symbol then left else [] := by
  unfold GapBackfillResult.remainingOf
  rw [List.filter_append, List.map_append]
  congr 1
  split
  · rename_i h
    subst h
    rw [List.filter_eq_self.2 fun e he => ?_, List.map_map]
    · exact List.map_id _
    · obtain ⟨w, -, rfl⟩ := List.mem_map.1 he
      simp
  · rename_i h
    rw [List.filter_eq_nil_iff.2 fun e he => ?_, List.map_nil]
    obtain ⟨w, -, rfl⟩ := List.mem_map.1 he
    simpa using fun heq => h heq.symm

/-- What a pass over some symbols leaves of a table and a result. -/
structure Closed (cal : TradingCalendar) (tape : String → Bool → List Bar) (timeframe : Timeframe) (adjusted : Bool)
    (start stop maxGaps : ℤ) (symbols : List String) (r : GapBackfillResult) (t : BarTable) (r' : GapBackfillResult)
    (t' : BarTable) : Prop where
  kept : ∀ s tf ts, t.Has s tf ts → t'.Has s tf ts
  reported : ∀ s, s ∈ r'.truncated ↔ s ∈ r.truncated ∨
    (s ∈ symbols ∧ maxGaps < (runs (unstored t s timeframe) (expectedWindows cal timeframe start stop)).length)
  others : ∀ s ∉ symbols, r'.remainingOf s = r.remainingOf s
  whole : ∀ s ∈ symbols, s ∉ r'.truncated → r'.remainingOf s =
    r.remainingOf s ++ runs (unheld t (tape s adjusted) s timeframe) (expectedWindows cal timeframe start stop)

/-- **One pass over the symbols.**  Each is met once, so what is left open of it is judged on the table its own turn leaves,
which holds of it what was stored before and what the tape has of the windows that were missing. -/
theorem closeGaps_closed (hcal : timeframe = .d1 → EndsSoon cal) (hp : Exact tape timeframe p)
    (hwrites : ∀ rows, p.upsertRaises rows = none) (hrange : start < stop) (hsupported : requireSupported timeframe = .ok ())
    (hmax : 0 < maxGaps) : ∀ (symbols : List String) (r : GapBackfillResult) (t : BarTable), symbols.Nodup → Triple (fun t' => t' = t)
      (closeGaps cal p timeframe adjusted start stop maxGaps symbols r)
      (fun r' t' => Closed cal tape timeframe adjusted start stop maxGaps symbols r t r' t') (fun _ _ => False)
  | [], r, t, _ => triple_pure _ fun t' ht => by
    subst ht
    exact ⟨fun _ _ _ h => h, fun s => by simp, fun _ _ => rfl, fun s hs => by cases hs⟩
  | symbol :: rest, r, t, hnodup => by
    obtain ⟨hsymbol, hrest⟩ := List.nodup_cons.1 hnodup
    have hnext := closeGaps_closed hcal hp hwrites hrange hsupported hmax rest
    unfold closeGaps
    refine triple_get_bind fun t0 ht0 => ?_
    obtain rfl : t = t0 := ht0.symm
    rw [findGaps_ok hcal hrange hsupported]
    refine triple_bind (R := fun gaps t' => t' = t ∧ gaps = runs (unstored t symbol timeframe) (expectedWindows cal timeframe start stop))
      (triple_fromExcept _ (fun gaps hgaps t' ht => ⟨ht, by cases hgaps; rfl⟩) fun e he => (nomatch he)) fun gaps => ?_
    refine triple_at fun t' ht' => ?_
    obtain ⟨rfl, hgaps⟩ := ht'
    dsimp only
    refine triple_ite (fun hnone => ?_) fun hsome => ?_
    · -- nothing is missing, and so nothing that the provider could have had
      refine triple_conseq (hnext _ t' hrest) (fun _ h => h) (fun r' t'' h => ?_) fun _ _ h => h
      have hnil : runs (unstored t' symbol timeframe) (expectedWindows cal timeframe start stop) = [] :=
        hgaps ▸ List.isEmpty_iff.1 hnone
      refine ⟨h.kept, fun s => ?_, fun s hs => h.others s fun hmem => hs (List.mem_cons_of_mem _ hmem), fun s hs hcomplete => ?_⟩
      · rw [h.reported, List.mem_cons]
        refine or_congr_right ⟨fun hs => ⟨.inr hs.1, hs.2⟩, fun hs => ⟨hs.1.resolve_left ?_, hs.2⟩⟩
        rintro rfl
        have hlong := hs.2
        rw [hnil] at hlong
        simp only [List.length_nil, Nat.cast_zero] at hlong
        omega
      obtain rfl | hs := List.mem_cons.1 hs
      · have hfilled : Filled tape timeframe adjusted s (runs (unstored t' s timeframe)
            (expectedWindows cal timeframe start stop)) t' t' := hnil ▸ .refl t'
        rw [h.others s hsymbol, ← hfilled.unstored expectedWindows_tiles, hnil, List.append_nil]
        rfl
      · exact h.whole s hs hcomplete
    · refine triple_bind (triple_from (fetchGaps_filled hp hwrites _ _ t') rfl) fun r1 => triple_get_bind fun t1 ht1 => ?_
      obtain ⟨hfilled, hremaining, htruncated⟩ := ht1
      rw [findGaps_ok hcal hrange hsupported]
      refine triple_bind
        (R := fun left t'' => t'' = t1 ∧ left = runs (unstored t1 symbol timeframe) (expectedWindows cal timeframe start stop))
        (triple_fromExcept _ (fun left hleft t'' ht => ⟨ht, by cases hleft; rfl⟩) fun e he => (nomatch he)) fun left => ?_
      refine triple_at fun t2 ht2 => ?_
      obtain ⟨rfl, hleft⟩ := ht2
      refine triple_conseq (hnext _ t2 hrest) (fun _ h => h) (fun r' t'' h => ?_) fun _ _ h => h
      have hr1 (s : String) : r1.remainingOf s = r.remainingOf s := by
        unfold GapBackfillResult.remainingOf
        rw [hremaining]
        split <;> rfl
      have htrunc (s : String) : s ∈ r1.truncated ↔ s ∈ r.truncated ∨ (s = symbol ∧ maxGaps < gaps.length) := by
        rw [htruncated]
        split
        · rename_i hlong
          simp [hlong]
        · rename_i hshort
          simp [hshort]
      refine ⟨fun s tf ts hts => h.kept _ _ _ ((hfilled _ _ _).2 (.inl hts)), fun s => ?_, fun s hs => ?_,
        fun s hs hcomplete => ?_⟩
      · rw [h.reported]
        show s ∈ r1.truncated ∨ _ ↔ _
        rw [htrunc, or_assoc, List.mem_cons]
        refine or_congr_right ?_
        by_cases hs : s = symbol
        · subst hs
          simp [hsymbol, hgaps]
        · rw [hfilled.unstored_elsewhere hs]
          simp [hs]
      · obtain ⟨hne, hmem⟩ := not_or.1 (mt List.mem_cons.2 hs)
        rw [h.others s hmem, remainingOf_append, if_neg hne, List.append_nil, hr1]
      · obtain rfl | hmem := List.mem_cons.1 hs
        · -- the symbol was not truncated, so every run was attempted
          have hall : gaps.take maxGaps.toNat = gaps := by
            refine List.take_of_length_le ?_
            by_contra hlong
            exact hcomplete ((h.reported s).2 (.inl ((htrunc s).2 (.inr ⟨rfl, by omega⟩))))
          rw [hall, hgaps] at hfilled
          rw [h.others s hsymbol, remainingOf_append, if_pos rfl, hr1, hleft, hfilled.unstored expectedWindows_tiles]
        · have hne : s ≠ symbol := fun heq => hsymbol (heq ▸ hmem)
          rw [h.whole s hmem hcomplete, remainingOf_append, if_neg hne, List.append_nil, hr1]
          unfold unheld
          rw [hfilled.unstored_elsewhere hne]

theorem fromKeys_nodup (symbols : List String) : (fromKeys symbols).Nodup :=
  List.nodup_reverse.2 (List.nodup_dedup _)

/-- What arguments that are not refused are. -/
theorem refuseGaps_ok {symbols : List String} (h : refuseGaps p symbols timeframe start stop maxGaps = .ok ()) :
    start < stop ∧ 0 < maxGaps ∧ requireSupported timeframe = .ok () := by
  unfold refuseGaps refuseRange at h
  split at h
  · cases h
  · rename_i hrange
    split_ifs at hrange h
    exact ⟨by omega, by omega, h⟩

/-- **One pass closes every gap that can be closed.**  It returns; a symbol is reported truncated when it has more runs
missing than one pass attempts, and what is left of any other is the runs of the expected windows that neither the store nor
the provider holds a bar of, so nothing where the provider has every one of them; no row is lost. -/
theorem remaining_exact (hcal : timeframe = .d1 → EndsSoon cal) (hp : Exact tape timeframe p)
    (hwrites : ∀ rows, p.upsertRaises rows = none) {symbols : List String}
    (hargs : refuseGaps p symbols timeframe start stop maxGaps = .ok ()) (t : BarTable) :
    ∃ r t', exec (backfillGaps cal p timeframe adjusted symbols start stop maxGaps) t = (.ok r, t') ∧
      (∀ symbol ∈ symbols, symbol ∉ r.truncated →
        r.remainingOf symbol =
          runs (unheld t (tape symbol adjusted) symbol timeframe) (expectedWindows cal timeframe start stop) ∧
        ((∀ w ∈ expectedWindows cal timeframe start stop, ∃ b ∈ tape symbol adjusted, Inside w b.ts) →
          r.remainingOf symbol = [])) ∧
      (∀ symbol, symbol ∈ r.truncated ↔ symbol ∈ symbols ∧
        maxGaps < (runs (unstored t symbol timeframe) (expectedWindows cal timeframe start stop)).length) ∧
      (∀ e ∈ r.remaining, e.symbol ∈ symbols) ∧
      ∀ symbol tf ts, t.Has symbol tf ts → t'.Has symbol tf ts := by
  obtain ⟨hrange, hmax, hsupported⟩ := refuseGaps_ok hargs
  have hrun : Triple (fun t' => t' = t) (backfillGaps cal p timeframe adjusted symbols start stop maxGaps)
      (fun r t' => Closed cal tape timeframe adjusted start stop maxGaps (fromKeys symbols)
        { symbols := fromKeys symbols, timeframe } t r t') (fun _ _ => False) := by
    unfold backfillGaps
    rw [hargs]
    exact closeGaps_closed hcal hp hwrites hrange hsupported hmax _ _ t (fromKeys_nodup symbols)
  have h := hrun t rfl
  rcases hexec : exec (backfillGaps cal p timeframe adjusted symbols start stop maxGaps) t with ⟨_ | r, t'⟩ <;> rw [hexec] at h
  · exact h.elim
  refine ⟨r, t', rfl, fun symbol hsymbol hcomplete => ?_, fun symbol => ?_, fun e he => ?_, h.kept⟩
  · have hleft := h.whole symbol (mem_fromKeys.2 hsymbol) hcomplete
    refine ⟨hleft, fun hall => hleft.trans (runs_nil fun w hw => ?_)⟩
    obtain ⟨b, hb, hin⟩ := hall w hw
    exact Bool.eq_false_iff.2 fun hheld => (unheld_iff.1 hheld).2 b hb hin
  · rw [h.reported, mem_fromKeys]
    simp
  · by_contra hmem
    have hnone : r.remainingOf e.symbol = [] := h.others e.symbol (mt mem_fromKeys.1 hmem)
    have he : e.window ∈ r.remainingOf e.symbol := List.mem_map_of_mem (List.mem_filter.2 ⟨he, by simp⟩)
    rw [hnone] at he
    exact absurd he List.not_mem_nil

end

/-! ## Concretely -/

/-- A provider that serves a tape, a symbol at a time. -/
def served (tape : String → Bool → List Bar) : Ports where
  getBars symbols _ start stop adjusted :=
    symbols.foldlM (fun found symbol =>
      let series := (tape symbol adjusted).filter fun b => Inside (start, stop) b.ts
      if series.isEmpty then .error ⟨.dataGapError, [.lit "no bars for ", .lit symbol]⟩ else .ok (found.set symbol series)) .empty

theorem served_exact {tape : String → Bool → List Bar} {timeframe : Timeframe}
    (h : ∀ symbol adjusted, ∀ b ∈ tape symbol adjusted, b.symbol = symbol ∧ b.timeframe = timeframe) :
    Exact tape timeframe (served tape) where
  named := h
  found symbol start stop adjusted hsome := by
    obtain ⟨b, hb, hin⟩ := hsome
    have hne : ((tape symbol adjusted).filter fun b => Inside (start, stop) b.ts).isEmpty = false :=
      List.isEmpty_eq_false_iff.2 (List.ne_nil_of_mem (List.mem_filter.2 ⟨hb, decide_eq_true hin⟩))
    refine ⟨Dict.empty.set symbol ((tape symbol adjusted).filter fun b => Inside (start, stop) b.ts), ?_, fun c => ?_⟩
    · unfold served
      simp only [List.foldlM_cons, List.foldlM_nil, hne]
      rfl
    · rw [Dict.values_set_new _ rfl]
      simp [Dict.values, Dict.empty]
  gap symbol start stop adjusted hnone := by
    refine ⟨⟨.dataGapError, [.lit "no bars for ", .lit symbol]⟩, ?_, rfl⟩
    have he : ((tape symbol adjusted).filter fun b => Inside (start, stop) b.ts).isEmpty = true :=
      List.isEmpty_iff.2 (List.filter_eq_nil_iff.2 fun b hb hin => hnone ⟨b, hb, of_decide_eq_true hin⟩)
    unfold served
    simp only [List.foldlM_cons, he]
    rfl

/-- A half hour at the start of one day. -/
def halfHour (d : ℤ) : Option Session := if d = 0 then some ⟨0, 0, 1800⟩ else none

theorem halfHour_some {d : ℤ} {s : Session} (h : halfHour d = some s) : d = 0 ∧ s = ⟨0, 0, 1800⟩ := by
  unfold halfHour at h
  split at h
  · cases h
    exact ⟨‹_›, rfl⟩
  · cases h

theorem halfHour_ordered {d e : ℤ} {s t : Session} (hs : halfHour d = some s) (ht : halfHour e = some t) (hlt : d < e) :
    s.closeAt ≤ t.openAt := by
  have := (halfHour_some hs).1
  have := (halfHour_some ht).1
  omega

theorem halfHour_proper {d : ℤ} {s : Session} (h : halfHour d = some s) : s.openAt ≤ s.closeAt := by
  rw [(halfHour_some h).2]
  decide

theorem halfHour_named {d : ℤ} {s : Session} (h : halfHour d = some s) : s.day = d := by
  rw [(halfHour_some h).2, (halfHour_some h).1]

def longNightStart (d : ℤ) : ℤ := if d ≤ 0 then 86400 * d else 86400 * d + 3600

def longNightDate (ts : ℤ) : ℤ := if ts < 0 then ts / 86400 else if ts < 90000 then 0 else (ts - 3600) / 86400

theorem longNightStart_rising (d : ℤ) : longNightStart d < longNightStart (d + 1) := by
  unfold longNightStart
  split <;> split <;> omega

theorem longNightStart_offset (d : ℤ) : 86400 * (d - 1) < longNightStart d ∧ longNightStart d < 86400 * (d + 1) := by
  unfold longNightStart
  split <;> omega

theorem longNightDate_dated (ts : ℤ) : longNightStart (longNightDate ts) ≤ ts ∧ ts < longNightStart (longNightDate ts + 1) := by
  unfold longNightStart longNightDate
  split_ifs <;> omega

/-- One day of 25 hours, whose only session is its first half hour. -/
def longNight : TradingCalendar where
  sessionOn := halfHour
  dayStart := longNightStart
  localDate := longNightDate
  named := halfHour_named
  proper := halfHour_proper
  ordered := halfHour_ordered
  rising := longNightStart_rising
  offset := longNightStart_offset
  dated := longNightDate_dated

def dailyBar (price : ℚ) (ts : ℤ) : Bar where
  symbol := "X"
  ts := ts
  timeframe := .d1
  «open» := price
  high := price
  low := price
  close := price
  volume := 100
  openInside := flat_inside price
  closeInside := flat_inside price

/-- One bar of one symbol. -/
def oneBar (ts : ℤ) (symbol : String) (_ : Bool) : List Bar := if symbol = "X" then [dailyBar 10 ts] else []

theorem oneBar_named (ts : ℤ) (symbol : String) (adjusted : Bool) :
    ∀ b ∈ oneBar ts symbol adjusted, b.symbol = symbol ∧ b.timeframe = .d1 := by
  intro b hb
  unfold oneBar at hb
  split at hb
  · obtain rfl := List.mem_singleton.1 hb
    exact ⟨Eq.symm ‹_›, rfl⟩
  · cases hb

theorem accepted {tape : String → Bool → List Bar} {timeframe : Timeframe} {start stop : ℤ} (hrange : start < stop)
    (hsupported : requireSupported timeframe = .ok ()) : refuseGaps (served tape) ["X"] timeframe start stop 50 = .ok () := by
  have hupper : (served tape).upper "X" = "X" := by
    show "X".toUpper = "X"
    unfold String.toUpper
    rw [← String.toList_inj, String.toList_map]
    simp
  unfold refuseGaps refuseRange
  rw [if_neg (by simp), if_neg (by omega), List.find?_cons_of_neg (by simp [hupper]), List.find?_nil]
  exact hsupported

/-- **Of two days one is to be had.** -/
theorem remaining_exact_half : ∃ r t',
    exec (backfillGaps TradingCalendar.everyDay (served (oneBar 0)) .d1 true ["X"] 0 172800 50) .empty = (.ok r, t') ∧
      r.remainingOf "X" = [(86400, 172800)] := by
  have hsoon : EndsSoon TradingCalendar.everyDay := fun d s hs => by
    cases hs
    show 86400 * (d + 1) ≤ 86400 * d + 60000 + 86400
    omega
  have hargs : refuseGaps (served (oneBar 0)) ["X"] .d1 0 172800 50 = .ok () := accepted (by decide) (by decide)
  obtain ⟨r, t', hexec, hleft, htruncated, -⟩ :=
    remaining_exact (fun _ => hsoon) (served_exact (oneBar_named 0)) (fun _ => rfl) hargs .empty
  have hshort : "X" ∉ r.truncated := fun h => absurd ((htruncated "X").1 h).2 (by decide +kernel)
  exact ⟨r, t', hexec, (hleft "X" (by simp) hshort).1.trans (by decide +kernel)⟩

/-- **A long night**: the provider has the only day's bar and it is stored, an hour before the day ends, and the day is
reported missing all the same. -/
theorem reported_missing :
    expectedWindows longNight .d1 0 1800 = [(0, 90000)] ∧ (∃ b ∈ oneBar 89000 "X" true, Inside (0, 90000) b.ts) ∧
      (exec (backfillGaps longNight (served (oneBar 89000)) .d1 true ["X"] 0 1800 50) .empty).2.Has "X" .d1 89000 ∧
      (exec (backfillGaps longNight (served (oneBar 89000)) .d1 true ["X"] 0 1800 50) .empty).1.map
        (fun r => (r.remainingOf "X", r.truncated)) = .ok ([(0, 90000)], []) := by
  have hargs : refuseGaps (served (oneBar 89000)) ["X"] .d1 0 1800 50 = .ok () := accepted (by decide) (by decide)
  have hrun : backfillGaps longNight (served (oneBar 89000)) .d1 true ["X"] 0 1800 50 =
      closeGaps longNight (served (oneBar 89000)) .d1 true 0 1800 50 (fromKeys ["X"]) { symbols := fromKeys ["X"], timeframe := .d1 } := by
    unfold backfillGaps
    rw [hargs]
    rfl
  rw [hrun]
  exact ⟨by decide +kernel, by decide +kernel, by decide +kernel, by decide +kernel⟩

end Backfill
end Atp
