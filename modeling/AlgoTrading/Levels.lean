import AlgoTrading.Acts
import AlgoTrading.StopRatchet
/-!
# Levels — whose position a stop of a backtest sits on

Levels wait under the id of the order that asked for them and are armed when it fills, whatever the fill leaves of the
position.  `levels_belong` says when the stop armed is one derived for the side the position is on, and moves only toward
the price while the position stays there.
-/
namespace Atp
namespace Backtest
namespace Levels

open Raising Runs StopRatchet

variable {L σ τ : Type}

/-! ## What a fill arms -/

def sideOf (p : Position) : Side := if p.isLong then .buy else .sell

def withLevels (p : Position) : Option (Option ℚ × Option ℚ) → Position
  | none => p
  | some levels => { p with stopLossPrice := levels.1, takeProfitPrice := levels.2 }

section
variable (eng : BacktestEngine L σ τ) (bars : Dict String (List Bar))

/-- The stop the configuration gives a position from its average entry. -/
def configStop (atr : Option ℚ) (p : Position) : Option ℚ :=
  match eng.stopConfig with
  | none => none
  | some c => if p.isFlat || decide (c.stopType = .time) then none else (initialStop p.avgEntryPrice (sideOf p) c atr).toOption

def configTarget (p : Position) : Option ℚ :=
  match eng.stopConfig with
  | none => none
  | some c =>
    if p.isFlat || decide (c.stopType = .time) || !c.stopType.fromEntry then none
    else (takeProfitLevel p.avgEntryPrice (sideOf p) c).toOption

variable {eng bars}

/-- **`_arm_from_config` fills the gaps.** -/
theorem armFromConfig_eq (atr : Option ℚ) (p : Position) : armFromConfig eng atr p =
    { p with
      stopLossPrice := p.stopLossPrice.or (configStop eng atr p)
      takeProfitPrice := p.takeProfitPrice.or (configTarget eng p) } := by
  have hside : (if p.isLong = true then Side.buy else Side.sell) = sideOf p := rfl
  unfold armFromConfig configStop configTarget
  cases eng.stopConfig with
  | none => simp
  | some c =>
    cases hidle : (p.isFlat || decide (c.stopType = .time)) with
    | true => simp [hidle]
    | false =>
      simp only [hidle, hside, Bool.false_eq_true, if_false, Bool.false_or]
      obtain ⟨symbol, qty, avg, realized, fees, opened, last, stop, target, mark, covered⟩ := p
      cases stop <;> cases target <;> cases c.stopType.fromEntry <;>
        cases initialStop avg _ c atr <;> cases takeProfitLevel avg _ c <;> simp [Except.toOption]

variable {s t : EngineState σ τ} {o : Order} {f : Fill}

/-- The position a fill leaves, before its levels are armed. -/
def settledBy (s : EngineState σ τ) (o : Order) (f : Fill) : Position :=
  (s.portfolio.position o.symbol).settled f (f.qty * o.side.sign)

/-- **What booking a fill does to the positions.** -/
theorem bookFill_positions (h : bookFill eng bars o f s = .ok t) :
    t.portfolio.position o.symbol = (if (settledBy s o f).qty = 0 then settledBy s o f
        else armFromConfig eng (atrOf eng bars s o.symbol) (withLevels (settledBy s o f) (s.protection.get? o.id))) ∧
      (∀ symbol, symbol ≠ o.symbol → t.portfolio.position symbol = s.portfolio.position symbol) ∧
        t.protection = s.protection.erase o.id := by
  unfold bookFill at h
  cases hp : s.portfolio.applyToPortfolio o f with
  | error e => simp [hp] at h
  | ok b =>
    have hb := hp
    unfold Portfolio.applyToPortfolio at hb
    cases hf : (s.portfolio.position o.symbol).applyFill f (f.qty * o.side.sign) with
    | error e => simp [hf] at hb
    | ok a =>
      obtain ⟨q, realized⟩ := a
      simp only [hf, Except.ok.injEq] at hb
      obtain ⟨-, -, -, hq, -⟩ := Position.applyFill_ok.1 hf
      have hpos : b.position o.symbol = settledBy s o f := by
        rw [← hb]
        simp [Portfolio.position, Portfolio.setPosition, hq, settledBy]
      have hother (symbol : String) (hs : symbol ≠ o.symbol) : b.position symbol = s.portfolio.position symbol := by
        rw [← hb]
        simp [Portfolio.position, Portfolio.setPosition, Dict.get?_set_ne _ _ hs]
      simp only [hp, hpos] at h
      by_cases hflat : (settledBy s o f).qty = 0
      · have hisflat : (settledBy s o f).isFlat = true := by simp [Position.isFlat, hflat]
        simp only [hisflat, if_true, Except.ok.injEq] at h
        rw [← h, if_pos hflat]
        exact ⟨hpos, hother, rfl⟩
      · have hisflat : (settledBy s o f).isFlat = false := by simp [Position.isFlat, hflat]
        simp only [hisflat, Bool.false_eq_true, if_false, Except.ok.injEq] at h
        rw [← h, if_neg hflat]
        refine ⟨?_, fun symbol hs => ?_, rfl⟩
        · simp only [Portfolio.position, Portfolio.setPosition, Dict.get?_set_self, Option.getD_some]
          cases s.protection.get? o.id <;> rfl
        · rw [← hother symbol hs]
          simp [Portfolio.position, Portfolio.setPosition, Dict.get?_set_ne _ _ hs]

/-! ## Whose stop it is -/

/-- The side each armed stop was derived for. -/
abbrev Provenance := Dict String Side

/-- A fill arms the levels of its order, for the side of that order; what the configuration derives, and what a ratchet
moves, is for the side of the position. -/
def derivedFor (s : EngineState σ τ) (g : Provenance) (t : EngineState σ τ) : Deed → Provenance
  | .filled o _ =>
    match s.protection.get? o.id with
    | some (some _, _) => g.set o.symbol o.side
    | some (none, _) => g.set o.symbol (sideOf (t.portfolio.position o.symbol))
    | none =>
      if (s.portfolio.position o.symbol).stopLossPrice.isSome then g
      else g.set o.symbol (sideOf (t.portfolio.position o.symbol))
  | .ratcheted bar =>
    if (t.portfolio.position bar.symbol).stopLossPrice = (s.portfolio.position bar.symbol).stopLossPrice then g
    else g.set bar.symbol (sideOf (t.portfolio.position bar.symbol))
  | _ => g

variable (eng bars) in
/-- An act, with the provenance it leaves. -/
def Step (x : EngineState σ τ × Provenance) (i : Deed) (y : EngineState σ τ × Provenance) : Prop :=
  Act eng bars x.1 i y.1 ∧ y.2 = derivedFor x.1 x.2 y.1 i

/-- **Every armed stop was derived for the side its position is on**, and a flat position has none. -/
structure Belongs (s : EngineState σ τ) (g : Provenance) : Prop where
  flat : ∀ symbol, (s.portfolio.position symbol).qty = 0 → (s.portfolio.position symbol).stopLossPrice = none
  side : ∀ symbol, (s.portfolio.position symbol).stopLossPrice.isSome = true →
    g.get? symbol = some (sideOf (s.portfolio.position symbol))

variable (eng bars) in
/-- The stop a fill calls for: its order's own, else the configuration's. -/
def calledFor (s : EngineState σ τ) (o : Order) (f : Fill) (levels : Option ℚ × Option ℚ) : Option ℚ :=
  levels.1.or (configStop eng (atrOf eng bars s o.symbol) (settledBy s o f))

def NoLooser (side : Side) (stop : Option ℚ) (current : ℚ) : Prop :=
  ∃ level, stop = some level ∧ if side = .buy then current ≤ level else level ≤ current

/-- What a fill that leaves the position open must meet. -/
structure FillFits (eng : BacktestEngine L σ τ) (bars : Dict String (List Bar)) (s : EngineState σ τ) (o : Order) (f : Fill) :
    Prop where
  /-- Levels are armed on the side they were asked for. -/
  onSide : ∀ levels, s.protection.get? o.id = some levels → sideOf (settledBy s o f) = o.side
  /-- An order without levels does not carry an armed position through zero. -/
  noFlip : s.protection.get? o.id = none → (s.portfolio.position o.symbol).stopLossPrice.isSome = true →
    sideOf (settledBy s o f) = sideOf (s.portfolio.position o.symbol)
  /-- A scale-in asks for no looser stop than the one armed. -/
  noLooser : ∀ levels, s.protection.get? o.id = some levels → sideOf (s.portfolio.position o.symbol) = o.side →
    ∀ current, (s.portfolio.position o.symbol).stopLossPrice = some current → NoLooser o.side (calledFor eng bars s o f levels) current

variable (eng bars) in
def Fits (x : EngineState σ τ × Provenance) : Deed → Prop
  | .filled o f => (settledBy x.1 o f).qty ≠ 0 → FillFits eng bars x.1 o f
  | _ => True

/-! ### What the other acts leave -/

/-- The quantity and the stop of every symbol are what they were. -/
def SameStops (s t : EngineState σ τ) : Prop := ∀ symbol,
  (t.portfolio.position symbol).qty = (s.portfolio.position symbol).qty ∧
    (t.portfolio.position symbol).stopLossPrice = (s.portfolio.position symbol).stopLossPrice

theorem sideOf_qty {p q : Position} (h : p.qty = q.qty) : sideOf p = sideOf q := by
  unfold sideOf Position.isLong
  rw [h]

theorem Belongs.same {g : Provenance} (h : Belongs s g) (hs : SameStops s t) : Belongs t g := by
  refine ⟨fun symbol hq => ?_, fun symbol hstop => ?_⟩
  · rw [(hs symbol).1] at hq
    rw [(hs symbol).2, h.flat symbol hq]
  · rw [(hs symbol).2] at hstop
    rw [sideOf_qty (hs symbol).1, h.side symbol hstop]

theorem position_mark (b : Portfolio) (symbol other : String) (price : Option ℚ) :
    ((b.setPosition symbol { b.position symbol with lastPrice := price }).position other).qty = (b.position other).qty ∧
      ((b.setPosition symbol { b.position symbol with lastPrice := price }).position other).stopLossPrice =
        (b.position other).stopLossPrice := by
  by_cases h : other = symbol
  · subst h
    simp [Portfolio.position, Portfolio.setPosition]
  · simp [Portfolio.position, Portfolio.setPosition, Dict.get?_set_ne _ _ h]

theorem closeBook_same (ts : ℤ) (printed : List (String × ℕ × Bar)) (s : EngineState σ τ) :
    SameStops s (closeBook ts printed s) := by
  suffices h : ∀ (l : List (String × ℕ × Bar)) (s : EngineState σ τ), SameStops s (l.foldl markClose s) from h printed s
  intro l
  induction l with
  | nil => exact fun _ _ => ⟨rfl, rfl⟩
  | cons x l ih =>
    intro s symbol
    obtain ⟨hq, hstop⟩ := ih (markClose s x) symbol
    obtain ⟨hq', hstop'⟩ := position_mark s.portfolio x.1 symbol (some x.2.2.close)
    exact ⟨hq.trans hq', hstop.trans hstop'⟩

/-- The ratchet leaves a flat position alone, and an open one where it is with a stop no looser. -/
theorem ratchet_levels (bar : Bar) :
    (ratchet eng bars s bar).2.qty = (s.portfolio.position bar.symbol).qty ∧
      ((s.portfolio.position bar.symbol).qty = 0 → (ratchet eng bars s bar).2 = s.portfolio.position bar.symbol) ∧
        ∀ long, OnSide long (s.portfolio.position bar.symbol) →
          Tighter long (s.portfolio.position bar.symbol) (ratchet eng bars s bar).2 := by
  refine ⟨ratchet_qty eng bars s bar, fun hflat => ?_, fun long hside => ?_⟩
  · unfold ratchet
    cases eng.stopConfig with
    | none => rfl
    | some c =>
      have hisflat : (s.portfolio.position bar.symbol).isFlat = true := by simp [Position.isFlat, hflat]
      simp [updateTrailing, exec_bind, hisflat]
  · unfold ratchet
    cases eng.stopConfig with
    | none => exact Tighter.refl long _
    | some c => exact triple_left (updateTrailing_tighter hside bar c (atrOf eng bars s bar.symbol)) rfl

/-! ### Steps and runs -/

theorem OnSide.sideOf {long : Bool} {p : Position} (h : OnSide long p) : sideOf p = if long then .buy else .sell := by
  unfold Levels.sideOf
  rw [h.isLong]

theorem armFromConfig_qty' (atr : Option ℚ) (levels : Option (Option ℚ × Option ℚ)) (p : Position) :
    (armFromConfig eng atr (withLevels p levels)).qty = p.qty := by
  rw [armFromConfig_qty]
  cases levels <;> rfl

/-- The stop a fill leaves on a position that stays open. -/
theorem bookFill_stop (h : bookFill eng bars o f s = .ok t) (hopen : (settledBy s o f).qty ≠ 0) :
    (t.portfolio.position o.symbol).qty = (settledBy s o f).qty ∧
      (s.protection.get? o.id = none → (t.portfolio.position o.symbol).stopLossPrice =
        (s.portfolio.position o.symbol).stopLossPrice.or
          (configStop eng (atrOf eng bars s o.symbol) (settledBy s o f))) ∧
      ∀ levels, s.protection.get? o.id = some levels →
        (t.portfolio.position o.symbol).stopLossPrice = calledFor eng bars s o f levels := by
  have hpos := (bookFill_positions h).1
  rw [if_neg hopen] at hpos
  have hkept : (settledBy s o f).stopLossPrice = (s.portfolio.position o.symbol).stopLossPrice := by
    unfold settledBy at hopen ⊢
    rw [Position.settled_qty] at hopen
    simp [Position.settled, hopen]
  have hconfig (levels : Option (Option ℚ × Option ℚ)) :
      configStop eng (atrOf eng bars s o.symbol) (withLevels (settledBy s o f) levels) =
        configStop eng (atrOf eng bars s o.symbol) (settledBy s o f) := by
    cases levels <;> rfl
  refine ⟨by rw [hpos, armFromConfig_qty'], fun hnone => ?_, fun levels hsome => ?_⟩
  · rw [hpos, armFromConfig_eq, hconfig, hnone, ← hkept]
    rfl
  · rw [hpos, armFromConfig_eq, hconfig, hsome]
    rfl

variable {x y : EngineState σ τ × Provenance} {i : Deed}

/-- What neither fills nor ratchets keeps every stop and its provenance. -/
theorem same_of_quiet (h : Act eng bars s i t) (hfill : ∀ o f, i ≠ .filled o f) (hratchet : ∀ bar, i ≠ .ratcheted bar) :
    SameStops s t := by
  have heffect := h.effect
  cases i with
  | aside =>
    have hp : t.portfolio = s.portfolio := congrArg Books.portfolio heffect
    exact fun symbol => by rw [hp]; exact ⟨rfl, rfl⟩
  | queued o levels =>
    have hp : t.portfolio = s.portfolio := congrArg Books.portfolio heffect
    exact fun symbol => by rw [hp]; exact ⟨rfl, rfl⟩
  | opened symbol i bar =>
    have hp := congrArg Books.portfolio heffect
    intro other
    have hmark := position_mark s.portfolio symbol other (some bar.close)
    change t.portfolio = _ at hp
    rw [hp]
    exact hmark
  | closed ts =>
    obtain ⟨printed, hb⟩ := heffect
    have hp : t.portfolio = (closeBook ts printed s).portfolio := congrArg Books.portfolio hb
    intro other
    rw [hp]
    exact closeBook_same ts printed s other
  | filled o f => exact absurd rfl (hfill o f)
  | ratcheted bar => exact absurd rfl (hratchet bar)

/-- What is done to one symbol leaves the provenance of the others. -/
theorem derivedFor_other {g : Provenance} {symbol : String} (hfill : ∀ o f, i = .filled o f → symbol ≠ o.symbol)
    (hratchet : ∀ bar, i = .ratcheted bar → symbol ≠ bar.symbol) : (derivedFor s g t i).get? symbol = g.get? symbol := by
  unfold derivedFor
  cases i with
  | aside => rfl
  | queued o levels => rfl
  | opened symbol' i bar => rfl
  | closed ts => rfl
  | filled o f =>
    have hs := hfill o f rfl
    dsimp only
    split
    · exact Dict.get?_set_ne _ _ hs
    · exact Dict.get?_set_ne _ _ hs
    · split
      · rfl
      · exact Dict.get?_set_ne _ _ hs
  | ratcheted bar =>
    dsimp only
    split
    · rfl
    · exact Dict.get?_set_ne _ _ (hratchet bar rfl)

/-- What one act does to one symbol is judged on that symbol. -/
theorem Belongs.moved {g : Provenance} {moved : String} (h : Belongs s g)
    (hother : ∀ symbol, symbol ≠ moved → t.portfolio.position symbol = s.portfolio.position symbol)
    (hfill : ∀ o f, i = .filled o f → o.symbol = moved) (hratchet : ∀ bar, i = .ratcheted bar → bar.symbol = moved)
    (hflat : (t.portfolio.position moved).qty = 0 → (t.portfolio.position moved).stopLossPrice = none)
    (hside : (t.portfolio.position moved).stopLossPrice.isSome = true →
      (derivedFor s g t i).get? moved = some (sideOf (t.portfolio.position moved))) : Belongs t (derivedFor s g t i) := by
  refine ⟨fun symbol hq => ?_, fun symbol hstop => ?_⟩
  · by_cases hs : symbol = moved
    · rw [hs] at hq ⊢
      exact hflat hq
    · rw [hother symbol hs] at hq ⊢
      exact h.flat symbol hq
  · by_cases hs : symbol = moved
    · rw [hs] at hstop ⊢
      exact hside hstop
    · have hkept := derivedFor_other (s := s) (t := t) (g := g) (fun o f hi => by rw [hfill o f hi]; exact hs)
        (fun bar hi => by rw [hratchet bar hi]; exact hs)
      rw [hother symbol hs] at hstop
      rw [hkept, hother symbol hs, h.side symbol hstop]

theorem ratcheted_belongs {g : Provenance} {bar : Bar} (h : Belongs s g)
    (hp : t.portfolio = s.portfolio.setPosition bar.symbol (ratchet eng bars s bar).2) :
    Belongs t (derivedFor s g t (.ratcheted bar)) := by
  obtain ⟨hq, hflat, -⟩ := ratchet_levels (s := s) bar
  have hown : t.portfolio.position bar.symbol = (ratchet eng bars s bar).2 := by
    rw [hp]
    simp [Portfolio.position, Portfolio.setPosition]
  have hother (symbol : String) (hs : symbol ≠ bar.symbol) :
      t.portfolio.position symbol = s.portfolio.position symbol := by
    rw [hp]
    simp [Portfolio.position, Portfolio.setPosition, Dict.get?_set_ne _ _ hs]
  refine h.moved hother (by simp) (by simp) (fun hzero => ?_) (fun hstop => ?_)
  · rw [hown, hq] at hzero
    rw [hown, hflat hzero]
    exact h.flat _ hzero
  · unfold derivedFor
    dsimp only
    split
    · rename_i hsame
      rw [hsame] at hstop
      rw [h.side _ hstop, hown, sideOf_qty hq]
    · exact Dict.get?_set_self _ _ _

theorem filled_belongs {g : Provenance} {u : EngineState σ τ} (h : Belongs s g)
    (hfit : (settledBy s o f).qty ≠ 0 → FillFits eng bars s o f) (hu : bookFill eng bars o f s = .ok u)
    (hp : t.portfolio = u.portfolio) : Belongs t (derivedFor s g t (.filled o f)) := by
  obtain ⟨hown, hother, -⟩ := bookFill_positions hu
  rw [← hp] at hown
  refine h.moved (fun symbol hs => by rw [hp]; exact hother symbol hs) (by simp) (by simp) ?_ ?_
  · intro hzero
    by_cases hflat : (settledBy s o f).qty = 0
    · rw [hown, if_pos hflat]
      unfold settledBy at hflat ⊢
      rw [Position.settled_qty] at hflat
      exact (Position.settled_flat _ _ _ hflat).2.1
    · rw [hown, if_neg hflat, armFromConfig_qty'] at hzero
      exact absurd hzero hflat
  · intro hstop
    by_cases hflat : (settledBy s o f).qty = 0
    · rw [hown, if_pos hflat] at hstop
      unfold settledBy at hflat hstop
      rw [Position.settled_qty] at hflat
      rw [(Position.settled_flat _ _ _ hflat).2.1] at hstop
      cases hstop
    · have hfits := hfit hflat
      have hside : sideOf (t.portfolio.position o.symbol) = sideOf (settledBy s o f) := by
        rw [hown, if_neg hflat]
        exact sideOf_qty (armFromConfig_qty' _ _ _)
      unfold derivedFor
      dsimp only
      split
      · rename_i level target hlevels
        rw [Dict.get?_set_self, hside, hfits.onSide _ hlevels]
      · exact Dict.get?_set_self _ _ _
      · rename_i hnone
        split
        · rename_i hbefore
          rw [h.side _ hbefore, hside, hfits.noFlip hnone hbefore]
        · exact Dict.get?_set_self _ _ _

/-- **One act keeps every stop on the side it was derived for.** -/
theorem step_belongs (h : Belongs x.1 x.2) (hfit : Fits eng bars x i) (hstep : Step eng bars x i y) : Belongs y.1 y.2 := by
  obtain ⟨hact, hprov⟩ := hstep
  rw [hprov]
  cases i with
  | aside => exact h.same (same_of_quiet hact (by simp) (by simp))
  | queued o levels => exact h.same (same_of_quiet hact (by simp) (by simp))
  | opened symbol i bar => exact h.same (same_of_quiet hact (by simp) (by simp))
  | closed ts => exact h.same (same_of_quiet hact (by simp) (by simp))
  | ratcheted bar => exact ratcheted_belongs h (congrArg Books.portfolio hact.effect)
  | filled o f =>
    obtain ⟨u, hu, hb⟩ := hact.effect
    exact filled_belongs h hfit hu (congrArg Books.portfolio hb)

theorem noLooser_of_side {long : Bool} {side : Side} {stop : Option ℚ} {current : ℚ} (hside : side = if long then .buy else .sell)
    (h : NoLooser side stop current) : ∃ level, stop = some level ∧ if long then current ≤ level else level ≤ current := by
  obtain ⟨level, hlevel, hle⟩ := h
  refine ⟨level, hlevel, ?_⟩
  cases long <;> simpa [hside] using hle

/-- **No act widens the stop of a position that stays on its side.** -/
theorem step_tighter {long : Bool} {symbol : String} (hfit : Fits eng bars x i) (hstep : Step eng bars x i y)
    (hbefore : OnSide long (x.1.portfolio.position symbol)) (hafter : OnSide long (y.1.portfolio.position symbol)) :
    Tighter long (x.1.portfolio.position symbol) (y.1.portfolio.position symbol) := by
  have hact := hstep.1
  have hquiet (h : SameStops x.1 y.1) : Tighter long (x.1.portfolio.position symbol) (y.1.portfolio.position symbol) :=
    Tighter.of_eq (h symbol).2
  cases i with
  | aside => exact hquiet (same_of_quiet hact (by simp) (by simp))
  | queued o levels => exact hquiet (same_of_quiet hact (by simp) (by simp))
  | opened symbol i bar => exact hquiet (same_of_quiet hact (by simp) (by simp))
  | closed ts => exact hquiet (same_of_quiet hact (by simp) (by simp))
  | ratcheted bar =>
    have hp : y.1.portfolio = x.1.portfolio.setPosition bar.symbol (ratchet eng bars x.1 bar).2 :=
      congrArg Books.portfolio hact.effect
    by_cases hs : symbol = bar.symbol
    · have hown : y.1.portfolio.position symbol = (ratchet eng bars x.1 bar).2 := by
        rw [hp, hs]
        simp [Portfolio.position, Portfolio.setPosition]
      rw [hown]
      rw [hs] at hbefore ⊢
      exact (ratchet_levels bar).2.2 long hbefore
    · refine Tighter.of_eq ?_
      rw [hp]
      simp [Portfolio.position, Portfolio.setPosition, Dict.get?_set_ne _ _ hs]
  | filled o f =>
    obtain ⟨u, hu, hb⟩ := hact.effect
    have hp : y.1.portfolio = u.portfolio := congrArg Books.portfolio hb
    by_cases hs : symbol = o.symbol
    · subst hs
      have hne : (y.1.portfolio.position o.symbol).qty ≠ 0 := by
        unfold OnSide at hafter
        cases long with
        | true => exact ne_of_gt hafter
        | false => exact ne_of_lt hafter
      have hopen : (settledBy x.1 o f).qty ≠ 0 := by
        intro hflat
        rw [hp, (bookFill_positions hu).1, if_pos hflat] at hne
        exact hne hflat
      obtain ⟨hq, hnone, hsome⟩ := bookFill_stop hu hopen
      rw [← hp] at hq hnone hsome
      intro current hcurrent
      cases hl : x.1.protection.get? o.id with
      | none =>
        refine Tighter.refl long (x.1.portfolio.position o.symbol) current hcurrent |>.imp fun level hlevel => ?_
        rw [hnone hl, hlevel.1]
        exact ⟨rfl, hlevel.2⟩
      | some levels =>
        have hfits := hfit hopen
        have hside : o.side = if long then .buy else .sell := by
          rw [← hfits.onSide levels hl, ← sideOf_qty hq]
          exact OnSide.sideOf hafter
        rw [hsome levels hl]
        exact noLooser_of_side hside (hfits.noLooser levels hl ((OnSide.sideOf hbefore).trans hside.symm) current hcurrent)
    · refine Tighter.of_eq ?_
      rw [hp, (bookFill_positions hu).2.1 symbol hs]

/-- A backtest that starts with cash alone. -/
def started (cash : ℚ) (rules : σ) (strategy : τ) : EngineState σ τ × Provenance :=
  ((fresh { cash := cash, startingEquity := cash } rules strategy).state, .empty)

/-- A run of acts is a run with the provenance it leaves. -/
theorem run_lift {l : List Deed} (h : Run (Act eng bars) s l t) (g : Provenance) :
    ∃ g', Run (Step eng bars) (s, g) l (t, g') := by
  induction h generalizing g with
  | nil s => exact ⟨g, .nil _⟩
  | @cons s t u i l ha _ ih =>
    obtain ⟨g', hrun⟩ := ih (derivedFor s g t i)
    exact ⟨g', .cons ⟨ha, rfl⟩ hrun⟩

/-- **Protective levels belong to the position they sit on**, in a run whose fills all fit: every armed stop was derived for
the side its position is on, and no further act that fits widens the stop of a position that stays on its side. -/
theorem levels_belong {cash : ℚ} {rules : σ} {strategy : τ} {l : List Deed}
    (h : Run (guarded (Step eng bars) (Fits eng bars)) (started cash rules strategy) l x) :
    Belongs x.1 x.2 ∧ ∀ i y symbol long, Step eng bars x i y → Fits eng bars x i →
      OnSide long (x.1.portfolio.position symbol) → OnSide long (y.1.portfolio.position symbol) →
        Tighter long (x.1.portfolio.position symbol) (y.1.portfolio.position symbol) := by
  refine ⟨?_, fun i y symbol long hstep hfit hbefore hafter => step_tighter hfit hstep hbefore hafter⟩
  refine run_guarded (Fits eng bars) (fun x => Belongs x.1 x.2) (fun x i y hx hfit hstep => step_belongs hx hfit hstep) ?_ h
  exact ⟨fun symbol _ => by simp [started, fresh, Portfolio.position], fun symbol hstop => by
    simp [started, fresh, Portfolio.position] at hstop⟩

end

/-! ## Buying a dip, and a reversal that fills in part -/

/-- A day at one price. -/
def flatDay (day : ℤ) (price volume : ℚ) : Bar where
  symbol := "SPY"
  ts := 86400 * day
  timeframe := .d1
  «open» := price
  high := price
  low := price
  close := price
  volume := volume
  openInside := ⟨le_refl _, le_refl _⟩
  closeInside := ⟨le_refl _, le_refl _⟩

/-- Enters as told on its first two bars: ten shares long, twenty short. -/
def enters (first second : SignalAction) : BacktestEngine Unit Unit ℕ :=
  { buyThenExit with
    strategy :=
      { name := "sample"
        warmupBars := 0
        onBar := fun _ bar n =>
          (.ok (((match n with | 0 => some first | 1 => some second | _ => none).toList).map fun action =>
            { strategyId := "sample", symbol := "SPY", action := action, ts := bar.ts, id := "signal" }), n + 1) }
    positionSizer := some fun signal _ _ => .ok (if signal.action = .enterLong then 10 else 20) }

def dipDays : Dict String (List Bar) := Dict.empty.set "SPY" [flatDay 1 100 1000, flatDay 2 98 1000, flatDay 3 98 1000]

def thinDays : Dict String (List Bar) := Dict.empty.set "SPY" [flatDay 1 100 1000, flatDay 2 100 1000, flatDay 3 100 40]

/-- The engine after the instants up to a day. -/
def afterDay (eng : BacktestEngine Unit Unit ℕ) (bars : Dict String (List Bar)) (day : ℤ) : EngineState Unit ℕ :=
  (exec (((timeline bars).filter (fun ts => ts ≤ 86400 * day)).forM (stepAt eng bars))
    (fresh { cash := 10000, startingEquity := 10000 } () 0)).2.state

def heldAt (s : EngineState Unit ℕ) : ℚ × Option ℚ := ((s.portfolio.position "SPY").qty, (s.portfolio.position "SPY").stopLossPrice)

def firstBuy : Order := { bought "o-1" 10 100 with symbol := "SPY" }

def tenAt (order : Order) (price : ℚ) : Fill where
  orderId := order.id
  ts := 86400 * 3
  qty := 10
  price := price
  fee := 0
  venueFillId := none

/-- A purchase that asked for a stop at 95 fills, and the stop is armed for the long it opens. -/
theorem levels_belong_purchase : ∃ l x, Run (guarded (Step (enters .enterLong .enterLong) dipDays)
    (Fits (enters .enterLong .enterLong) dipDays)) (started 10000 () 0) l x ∧ heldAt x.1 = (10, some 95) ∧ Belongs x.1 x.2 := by
  let eng := enters .enterLong .enterLong
  let s : EngineState Unit ℕ := { (started 10000 () 0).1 with protection := Dict.empty.set "o-1" (some 95, none) }
  have hheld : (bookFill eng dipDays firstBuy (tenAt firstBuy 100) s).toOption.map heldAt = some (10, some 95) := by
    decide +kernel
  cases hb : bookFill eng dipDays firstBuy (tenAt firstBuy 100) s with
  | error e =>
    rw [hb] at hheld
    cases hheld
  | ok t =>
    obtain ⟨hsignals, hwarnings, -⟩ := bookFill_frame hb
    rw [hb] at hheld
    have hlevels : s.protection.get? firstBuy.id = some (some 95, none) := by decide +kernel
    have hstop : (s.portfolio.position firstBuy.symbol).stopLossPrice = none := by decide +kernel
    have hfits : FillFits eng dipDays s firstBuy (tenAt firstBuy 100) := by
      refine ⟨fun levels _ => by decide +kernel, fun hnone => ?_, fun levels _ _ current hcurrent => ?_⟩
      · rw [hlevels] at hnone
        cases hnone
      · rw [hstop] at hcurrent
        cases hcurrent
    have hqueued : guarded (Step eng dipDays) (Fits eng dipDays) (started 10000 () 0) (.queued firstBuy (some 95, none))
        (s, .empty) := ⟨⟨⟨rfl, List.prefix_rfl, List.prefix_rfl⟩, rfl⟩, trivial⟩
    have hfilled : guarded (Step eng dipDays) (Fits eng dipDays) (s, .empty) (.filled firstBuy (tenAt firstBuy 100))
        (t, derivedFor s .empty t (.filled firstBuy (tenAt firstBuy 100))) :=
      ⟨⟨⟨⟨t, hb, rfl⟩, hsignals ▸ List.prefix_rfl, hwarnings ▸ List.prefix_rfl⟩, rfl⟩, fun _ => hfits⟩
    have hrun := Run.cons hqueued (.cons hfilled (.nil _))
    exact ⟨_, _, hrun, Option.some.inj hheld, (levels_belong hrun).1⟩

/-- **Levels stray**: bought again two points lower, the stop at 95 becomes one at 93.10; and a short of twenty that fills for
four leaves the short's stop at 105 on the six shares of the long. -/
theorem levels_stray : (¬ ∀ (eng : BacktestEngine Unit Unit ℕ) (bars : Dict String (List Bar)) (cash : ℚ) (l : List Deed)
      (x y : EngineState Unit ℕ × Provenance) (i : Deed) (symbol : String) (long : Bool),
      Run (Step eng bars) (started cash () 0) l x → Step eng bars x i y →
        OnSide long (x.1.portfolio.position symbol) → OnSide long (y.1.portfolio.position symbol) →
          Tighter long (x.1.portfolio.position symbol) (y.1.portfolio.position symbol)) ∧
    heldAt (afterDay (enters .enterLong .enterLong) dipDays 2) = (10, some 95) ∧
    heldAt (afterDay (enters .enterLong .enterLong) dipDays 3) = (20, some (931 / 10)) ∧
    heldAt (afterDay (enters .enterLong .enterShort) thinDays 3) = (6, some 105) := by
  refine ⟨fun h => ?_, by decide +kernel⟩
  let eng := enters .enterLong .enterLong
  let s := afterDay eng dipDays 2
  let o := s.pending.headD firstBuy
  have hheld : heldAt s = (10, some 95) := by decide +kernel
  have hwidened : (bookFill eng dipDays o (tenAt o 98) s).toOption.map heldAt = some (20, some (931 / 10)) := by decide +kernel
  obtain ⟨l, hl⟩ : ∃ l, Run (Act eng dipDays) (started 10000 () 0).1 l s :=
    triple_left (run_acts ((timeline dipDays).filter (fun ts => ts ≤ 86400 * 2)) (started 10000 () 0).1) ⟨[], .nil _⟩
  obtain ⟨g, hrun⟩ := run_lift hl .empty
  cases hb : bookFill eng dipDays o (tenAt o 98) s with
  | error e =>
    rw [hb] at hwidened
    cases hwidened
  | ok t =>
    rw [hb] at hwidened
    have ht : heldAt t = (20, some (931 / 10)) := Option.some.inj hwidened
    obtain ⟨hsignals, hwarnings, -⟩ := bookFill_frame hb
    have hbefore : OnSide true (s.portfolio.position "SPY") := by
      show 0 < (heldAt s).1
      rw [hheld]
      norm_num
    have hafter : OnSide true (t.portfolio.position "SPY") := by
      show 0 < (heldAt t).1
      rw [ht]
      norm_num
    obtain ⟨level, hlevel, hle⟩ := h eng dipDays 10000 l (s, g) (t, derivedFor s g t (.filled o (tenAt o 98)))
      (.filled o (tenAt o 98)) "SPY" true hrun
      ⟨⟨⟨t, hb, rfl⟩, hsignals ▸ List.prefix_rfl, hwarnings ▸ List.prefix_rfl⟩, rfl⟩ hbefore hafter 95
      (congrArg Prod.snd hheld)
    have hstop : some level = some (931 / 10) := hlevel.symm.trans (congrArg Prod.snd ht)
    rw [Option.some.inj hstop] at hle
    norm_num at hle

end Levels
end Backtest
end Atp
