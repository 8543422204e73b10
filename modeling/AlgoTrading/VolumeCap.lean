import AlgoTrading.BarFills
import AlgoTrading.Levels
/-!
# VolumeCap — how much of a bar a backtest trades

`_execute` caps each order at a share of its bar's volume, and several orders of a symbol can fill on one bar: what they
take together is the sum of what each is cut to.  `participation_kept` says when that sum still fits the share.
-/
namespace Atp
namespace Backtest

open Raising

/-! ## Quantities cut to a cap, one by one -/

/-- What quantities take together when each of them is cut to a cap. -/
def cappedSum (c : ℚ) (l : List ℚ) : ℚ := (l.map fun q => min q c).sum

theorem cappedSum_append (c : ℚ) (l m : List ℚ) : cappedSum c (l ++ m) = cappedSum c l + cappedSum c m := by
  simp [cappedSum]

/-- One of several positive numbers is less than their sum. -/
theorem lt_sum_of_mem {l : List ℚ} (hpos : ∀ x ∈ l, 0 < x) (hlen : 1 < l.length) {x : ℚ} (hx : x ∈ l) : x < l.sum := by
  rw [(List.perm_cons_erase hx).sum_eq, List.sum_cons, lt_add_iff_pos_right]
  refine List.sum_pos _ (fun y hy => hpos y (List.mem_of_mem_erase hy)) fun hnil => ?_
  have hone := List.length_erase_of_mem hx
  rw [hnil, List.length_nil] at hone
  omega

theorem cappedSum_prefix_le {c : ℚ} {l m : List ℚ} (hpos : ∀ q ∈ m, 0 < min q c) (h : l <+: m) :
    cappedSum c l ≤ cappedSum c m := by
  obtain ⟨rest, rfl⟩ := h
  rw [cappedSum_append]
  refine le_add_of_nonneg_right (List.sum_nonneg fun x hx => ?_)
  obtain ⟨q, hq, rfl⟩ := List.mem_map.1 hx
  exact (hpos q (List.mem_append_right _ hq)).le

/-- **What is cut one by one stays within the cap** only when one is asked for or all of it fits. -/
theorem cappedSum_le_iff {c : ℚ} {l : List ℚ} (hpos : ∀ q ∈ l, 0 < min q c) :
    cappedSum c l ≤ c ↔ 0 ≤ c ∧ (l.length ≤ 1 ∨ l.sum ≤ c) := by
  have hmap : ∀ x ∈ l.map fun q => min q c, 0 < x := fun x hx => by
    obtain ⟨q, hq, rfl⟩ := List.mem_map.1 hx
    exact hpos q hq
  constructor
  · intro h
    refine ⟨(List.sum_nonneg fun x hx => (hmap x hx).le).trans h, or_iff_not_imp_left.2 fun hlen => ?_⟩
    -- each of several is less than all of them, so none of them was cut
    have huncut : ∀ q ∈ l, min q c = q := fun q hq => by
      have hlt : min q c < c :=
        (lt_sum_of_mem hmap (by rw [List.length_map]; omega) (List.mem_map_of_mem hq)).trans_le h
      exact min_eq_left ((min_lt_iff.1 hlt).resolve_right (lt_irrefl _)).le
    rwa [cappedSum, List.map_congr_left huncut, List.map_id'] at h
  · rintro ⟨h0, hlen | hsum⟩
    · cases l with
      | nil => exact h0
      | cons q rest =>
        obtain rfl : rest = [] := List.eq_nil_of_length_eq_zero (by simpa using hlen)
        simp [cappedSum]
    · refine le_trans ?_ hsum
      have hle := List.sum_le_sum (l := l) (f := fun q => min q c) (g := fun q => q) fun q _ => min_le_left q c
      rwa [List.map_id'] at hle

/-! ## What a log has taken of a bar -/

section
variable {L σ τ : Type} (eng : BacktestEngine L σ τ) (bars : Dict String (List Bar))

/-- What is booked while a bar is the one being walked. -/
def takenFrom (bar : Bar) : Option Bar → List (Event σ τ) → ℚ
  | _, [] => 0
  | _, .bar b _ :: l => takenFrom bar (some b) l
  | now, .booked _ f _ _ :: l => (if now = some bar then f.qty else 0) + takenFrom bar now l

/-- **What a run has traded of a bar.** -/
def taken (bar : Bar) (log : List (Event σ τ)) : ℚ := takenFrom bar none log

/-- **What was asked of a bar** in a run. -/
def asksOf (bar : Bar) : List (Event σ τ) → List ℚ
  | [] => []
  | .bar b met :: l => (if b = bar then asksAt eng bars met b else []) ++ asksOf bar l
  | .booked _ _ _ _ :: l => asksOf bar l

/-- **What a bar was asked for fits it**: it has a share to give, and either one order alone asks for it or they fit it
together. -/
def Allowed (bar : Bar) (log : List (Event σ τ)) : Prop :=
  0 ≤ volumeCap eng bar ∧ ((asksOf eng bars bar log).length ≤ 1 ∨ (asksOf eng bars bar log).sum ≤ volumeCap eng bar)

instance (bar : Bar) (log : List (Event σ τ)) : Decidable (Allowed eng bars bar log) := inferInstanceAs (Decidable (_ ∧ _))

variable {eng bars} {bar : Bar}

theorem takenFrom_append : ∀ (l : List (Event σ τ)) (now : Option Bar) (b : Bar) (met : EngineState σ τ) (m : List (Event σ τ)),
    takenFrom bar now (l ++ .bar b met :: m) = takenFrom bar now l + takenFrom bar (some b) m
  | [], _, _, _, _ => (zero_add _).symm
  | .bar b' _ :: l, _, b, met, m => takenFrom_append l (some b') b met m
  | .booked _ f _ _ :: l, now, b, met, m => by
    rw [List.cons_append, takenFrom, takenFrom, takenFrom_append l now b met m, add_assoc]

theorem asksOf_append : ∀ l m : List (Event σ τ), asksOf eng bars bar (l ++ m) = asksOf eng bars bar l ++ asksOf eng bars bar m
  | [], _ => rfl
  | .bar b met :: l, m => by rw [List.cons_append, asksOf, asksOf, asksOf_append l m, List.append_assoc]
  | .booked _ _ _ _ :: l, m => asksOf_append l m

/-- What a stretch of fills takes. -/
theorem takenFrom_fills {b : Bar} {fills : List (Event σ τ)} {asks : List ℚ} (h : List.Forall₂ (Serves eng b) fills asks) :
    takenFrom bar (some b) fills = cappedSum (volumeCap eng bar) (if b = bar then asks else []) := by
  induction h with
  | nil => split <;> rfl
  | cons hserves _ ih =>
    obtain ⟨o, x, before, after, rfl, -, rfl, -, -⟩ := hserves
    rw [takenFrom, ih]
    by_cases hb : b = bar
    · subst hb
      simp [cappedSum, fillFor, fillQty]
    · simp [hb]

theorem asksOf_fills {b : Bar} {fills : List (Event σ τ)} {asks : List ℚ} (h : List.Forall₂ (Serves eng b) fills asks) :
    asksOf eng bars bar fills = [] := by
  induction h with
  | nil => rfl
  | cons hserves _ ih =>
    obtain ⟨o, x, before, after, rfl, -⟩ := hserves
    exact ih

/-- A bar has something for each quantity asked of it. -/
theorem asksOf_pos : ∀ log : List (Event σ τ), ∀ q ∈ asksOf eng bars bar log, 0 < min q (volumeCap eng bar)
  | [], q, hq => absurd hq List.not_mem_nil
  | .booked _ _ _ _ :: l, q, hq => asksOf_pos l q hq
  | .bar b met :: l, q, hq => by
    rcases List.mem_append.1 hq with hask | hask
    · by_cases hb : b = bar
      · rw [if_pos hb] at hask
        have hans := of_decide_eq_true (List.mem_filter.1 hask).2
        rw [hb] at hans
        exact (lt_max_iff.1 hans).resolve_left (lt_irrefl _)
      · rw [if_neg hb] at hask
        cases hask
    · exact asksOf_pos l q hask

theorem served_taken {log : List (Event σ τ)} (h : Served eng bars log) :
    taken bar log = cappedSum (volumeCap eng bar) (asksOf eng bars bar log) := by
  induction h with
  | nil => rfl
  | bar _ hfills ih =>
    rw [taken, takenFrom_append, takenFrom_fills hfills, asksOf_append, asksOf, asksOf_fills hfills, List.append_nil,
      cappedSum_append, ← ih]
    rfl

/-- Of a run that raised, what was taken is what was asked first. -/
theorem servedPartly_taken {log : List (Event σ τ)} (h : ServedPartly eng bars log) :
    taken bar log ≤ cappedSum (volumeCap eng bar) (asksOf eng bars bar log) := by
  obtain h | ⟨log', fills, b, met, asks, rfl, hserved, hasks, hfills⟩ := h
  · exact (served_taken h).le
  have hpos : ∀ q ∈ asksOf eng bars bar (log' ++ .bar b met :: fills), 0 < min q (volumeCap eng bar) := asksOf_pos _
  rw [asksOf_append, asksOf, asksOf_fills hfills, List.append_nil] at hpos ⊢
  rw [taken, takenFrom_append, takenFrom_fills hfills, cappedSum_append, ← served_taken hserved]
  refine add_le_add_right (cappedSum_prefix_le (fun q hq => hpos q (List.mem_append_right _ hq)) ?_) _
  split
  · exact hasks
  · exact List.prefix_rfl

/-- Everything booked is something. -/
def Event.Grows : Event σ τ → Prop
  | .bar _ _ => True
  | .booked _ f _ _ => 0 ≤ f.qty

theorem takenFrom_prefix_le : ∀ (l m : List (Event σ τ)) (now : Option Bar), (∀ e ∈ l ++ m, e.Grows) →
    takenFrom bar now l ≤ takenFrom bar now (l ++ m)
  | [], [], _, _ => le_rfl
  | [], .bar b _ :: m, _, h => takenFrom_prefix_le [] m (some b) fun e he => h e (List.mem_cons_of_mem _ he)
  | [], .booked _ f _ _ :: m, now, h => by
    have hf : 0 ≤ f.qty := h _ List.mem_cons_self
    refine add_nonneg (by split <;> simp [hf]) ?_
    exact takenFrom_prefix_le [] m now fun e he => h e (List.mem_cons_of_mem _ he)
  | .bar b _ :: l, m, _, h => takenFrom_prefix_le l m (some b) fun e he => h e (List.mem_cons_of_mem _ he)
  | .booked _ _ _ _ :: l, m, now, h =>
    add_le_add_right (takenFrom_prefix_le l m now fun e he => h e (List.mem_cons_of_mem _ he)) _

theorem fills_grow {b : Bar} {fills : List (Event σ τ)} {asks : List ℚ} (h : List.Forall₂ (Serves eng b) fills asks) :
    ∀ e ∈ fills, e.Grows := by
  induction h with
  | nil => exact fun _ he => absurd he List.not_mem_nil
  | cons hserves _ ih =>
    obtain ⟨o, x, before, after, rfl, -, -, hqty, -⟩ := hserves
    exact fun e he => (List.mem_cons.1 he).elim (fun h => h ▸ hqty.le) (ih e)

theorem served_grows {log : List (Event σ τ)} (h : Served eng bars log) : ∀ e ∈ log, e.Grows := by
  induction h with
  | nil => exact fun _ he => absurd he List.not_mem_nil
  | bar _ hfills ih =>
    intro e he
    rcases List.mem_append.1 he with he | he
    · exact ih e he
    · exact (List.mem_cons.1 he).elim (fun h => h ▸ trivial) (fills_grow hfills e)

theorem servedPartly_grows {log : List (Event σ τ)} (h : ServedPartly eng bars log) : ∀ e ∈ log, e.Grows := by
  obtain h | ⟨log', fills, b, met, asks, rfl, hserved, -, hfills⟩ := h
  · exact served_grows h
  · intro e he
    rcases List.mem_append.1 he with he | he
    · exact served_grows hserved e he
    · exact (List.mem_cons.1 he).elim (fun h => h ▸ trivial) (fills_grow hfills e)

end

/-! ## The run -/

section
variable {L σ τ : Type} (eng : BacktestEngine L σ τ) (bars : Dict String (List Bar)) (portfolio : Portfolio) (rules : σ)
  (strategy : τ)

/-- What a run has logged. -/
def logOf : List (Event σ τ) := (exec (run eng bars) (fresh portfolio rules strategy)).2.log

theorem logOf_served : ServedPartly eng bars (logOf eng bars portfolio rules strategy) ∧
    ((exec (run eng bars) (fresh portfolio rules strategy)).1 = .ok ⟨⟩ →
      Served eng bars (logOf eng bars portfolio rules strategy)) := by
  have h := @run_served _ _ _ eng bars (fresh portfolio rules strategy) .nil
  unfold logOf
  rcases hrun : exec (run eng bars) (fresh portfolio rules strategy) with ⟨_ | _, r⟩
  · rw [hrun] at h
    exact ⟨h, fun hok => by cases hok⟩
  · rw [hrun] at h
    exact ⟨.inl h, fun _ => h⟩

/-- **A run keeps to its share of a bar** at every moment when what the bar is asked for fits it, and a run that returns
only then. -/
theorem participation_kept (bar : Bar) :
    (Allowed eng bars bar (logOf eng bars portfolio rules strategy) →
      ∀ pre, pre <+: logOf eng bars portfolio rules strategy → taken bar pre ≤ volumeCap eng bar) ∧
    ((exec (run eng bars) (fresh portfolio rules strategy)).1 = .ok ⟨⟩ →
      ((∀ pre, pre <+: logOf eng bars portfolio rules strategy → taken bar pre ≤ volumeCap eng bar) ↔
        Allowed eng bars bar (logOf eng bars portfolio rules strategy))) := by
  obtain ⟨hpartly, hserved⟩ := logOf_served eng bars portfolio rules strategy
  have hfits : cappedSum (volumeCap eng bar) _ ≤ _ ↔ Allowed eng bars bar (logOf eng bars portfolio rules strategy) :=
    cappedSum_le_iff (asksOf_pos _)
  have hallowed (h : Allowed eng bars bar (logOf eng bars portfolio rules strategy)) (pre : List (Event σ τ))
      (hpre : pre <+: logOf eng bars portfolio rules strategy) : taken bar pre ≤ volumeCap eng bar := by
    obtain ⟨rest, hrest⟩ := hpre
    have hgrows := servedPartly_grows hpartly
    rw [← hrest] at hgrows
    calc taken bar pre ≤ taken bar (pre ++ rest) := takenFrom_prefix_le pre rest none hgrows
      _ ≤ cappedSum (volumeCap eng bar) (asksOf eng bars bar (logOf eng bars portfolio rules strategy)) := by
        rw [hrest]
        exact servedPartly_taken hpartly
      _ ≤ volumeCap eng bar := hfits.2 h
  refine ⟨hallowed, fun hreturned => ⟨fun h => hfits.1 ?_, hallowed⟩⟩
  rw [← served_taken (hserved hreturned)]
  exact h _ List.prefix_rfl

end

/-! ## A stop and an exit on one thin bar -/

/-- A fall through the stop, on a bar that has ten shares to give. -/
def thinFall : Dict String (List Bar) :=
  Dict.empty.set "SPY" [Levels.flatDay 1 100 1000, Levels.flatDay 2 100 1000, Levels.flatDay 3 90 100]

theorem participation_kept_entry : taken (Levels.flatDay 2 100 1000) (logOf buyThenExit thinFall
    { cash := 10000, startingEquity := 10000 } () 0) ≤ 100 := by
  refine ((participation_kept buyThenExit thinFall _ () 0 (Levels.flatDay 2 100 1000)).1 (by decide +kernel) _
    List.prefix_rfl).trans ?_
  decide +kernel

/-- **The stop and the exit each take all the bar allows.** -/
theorem cap_taken_twice : volumeCap buyThenExit (Levels.flatDay 3 90 100) = 10 ∧
    taken (Levels.flatDay 3 90 100) (logOf buyThenExit thinFall { cash := 10000, startingEquity := 10000 } () 0) = 20 := by
  decide +kernel

end Backtest
end Atp
