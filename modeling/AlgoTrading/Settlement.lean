import AlgoTrading.Reconciliation
import AlgoTrading.Runs
/-!
# Settlement — how often a venue charge has left our cash

Two things move our cash toward the venue's: settling, which takes what the ledger has seen less what the book says it has
settled, and adopting, which overwrites.  A book is followed with what the code does not record: which charges its settled
figure stands for, how often each has left its cash, and what its cash would be had none.  `accounts_always` says that these
explain the cash in every run; `charges_once` says when no charge is in it twice.
-/
namespace Atp

namespace FeeLedger

def Sub (d e : FeeLedger) : Prop := ∀ k c, d.get? k = some c → e.get? k = some c

/-- Every charge is under its own identifier. -/
def Keyed (d : FeeLedger) : Prop := ∀ k c, d.get? k = some c → c.activityId = k

/-- How often a ledger holds a charge. -/
def occurs (d : FeeLedger) (k : String) : ℤ := if d.contains k then 1 else 0

variable {d e f : FeeLedger}

theorem Sub.refl (d : FeeLedger) : Sub d d := fun _ _ h => h

theorem Sub.trans (h : Sub d e) (h' : Sub e f) : Sub d f := fun k c hc => h' k c (h k c hc)

theorem Sub.empty (d : FeeLedger) : Sub .empty d := fun _ _ h => by cases h

theorem Sub.contains (h : Sub d e) {k : String} (hk : d.contains k = true) : e.contains k = true := by
  obtain ⟨c, hc⟩ := Option.isSome_iff_exists.1 hk
  exact Option.isSome_iff_exists.2 ⟨c, h k c hc⟩

theorem Sub.set_new (h : Sub d e) {k : String} {c : FeeActivity} (hk : e.get? k = none) : Sub d (e.set k c) := by
  intro k' c' hc
  have hne : k' ≠ k := by
    rintro rfl
    rw [h k' c' hc] at hk
    cases hk
  rw [Dict.get?_set_ne _ _ hne]
  exact h k' c' hc

/-- What a list of venue charges adds to a ledger is among them. -/
theorem recordSeen_sub {l posted : FeeLedger} {feed : List FeeActivity} (hl : Sub l posted)
    (hfeed : ∀ a ∈ feed, posted.get? a.activityId = some a) : Sub l (l.recordSeen feed) ∧ Sub (l.recordSeen feed) posted := by
  have hbyId : ∀ a ∈ (feed.foldl (fun d (a : FeeActivity) => d.set a.activityId a) (Dict.empty : FeeLedger)).values,
      posted.get? a.activityId = some a := by
    intro a ha
    obtain ⟨k, hk⟩ := (Dict.mem_values_iff _ a).1 ha
    rw [Dict.get?_foldl_set FeeActivity.activityId (fun a => a), Dict.get?_empty, Option.or_none, Option.map_id'] at hk
    exact hfeed a (List.mem_filter.1 (List.mem_of_getLast? hk)).1
  unfold recordSeen
  dsimp only
  generalize (feed.foldl (fun d (a : FeeActivity) => d.set a.activityId a) (Dict.empty : FeeLedger)).values = news at hbyId
  induction news generalizing l with
  | nil => exact ⟨Sub.refl l, hl⟩
  | cons a news ih =>
    have hrest (b : FeeActivity) (hb : b ∈ news) : posted.get? b.activityId = some b := hbyId b (List.mem_cons_of_mem _ hb)
    rw [List.foldl_cons]
    unfold Dict.setdefault
    by_cases hthere : l.contains a.activityId = true
    · rw [if_pos hthere]
      exact ih hl hrest
    · rw [if_neg hthere]
      have hnone : l.get? a.activityId = none := by simpa [Dict.contains] using hthere
      have hset : Sub (l.set a.activityId a) posted := by
        intro k c hc
        rw [Dict.get?_set] at hc
        split_ifs at hc with hk
        · rw [hk, hbyId a (List.mem_cons_self ..), hc]
        · exact hl k c hc
      obtain ⟨hgrown, hwithin⟩ := ih hset hrest
      exact ⟨((Sub.refl l).set_new hnone).trans hgrown, hwithin⟩

/-- The charges of `posted`, each as often as `n` says. -/
def weighed (posted : FeeLedger) (n : String → ℤ) : ℚ := (posted.values.map fun (c : FeeActivity) => (n c.activityId : ℚ) * c.amount).sum

theorem weighed_eq {posted : FeeLedger} (hkeyed : posted.Keyed) (n : String → ℤ) :
    posted.weighed n = ∑ k ∈ posted.keys.toFinset, (posted.get? k).elim 0 fun c => (n k : ℚ) * c.amount := by
  unfold weighed
  rw [Dict.sum_values_eq (fun c : FeeActivity => (n c.activityId : ℚ) * c.amount) posted _ fun k hk => List.mem_toFinset.2 hk]
  refine Finset.sum_congr rfl fun k _ => ?_
  cases hc : posted.get? k with
  | none => rfl
  | some c => simp [hkeyed k c hc]

theorem weighed_add {posted : FeeLedger} (hkeyed : posted.Keyed) (n m : String → ℤ) :
    posted.weighed (fun k => n k + m k) = posted.weighed n + posted.weighed m := by
  rw [weighed_eq hkeyed, weighed_eq hkeyed, weighed_eq hkeyed, ← Finset.sum_add_distrib]
  refine Finset.sum_congr rfl fun k _ => ?_
  cases posted.get? k with
  | none => simp
  | some c => simp [add_mul]

theorem weighed_neg {posted : FeeLedger} (hkeyed : posted.Keyed) (n : String → ℤ) :
    posted.weighed (fun k => -n k) = -posted.weighed n := by
  have hzero : posted.weighed (fun k => n k + -n k) = 0 := by
    rw [weighed_eq hkeyed]
    refine Finset.sum_eq_zero fun k _ => ?_
    cases posted.get? k <;> simp
  rw [weighed_add hkeyed] at hzero
  linarith

/-- A part of what is posted, each of its charges once, weighs its total. -/
theorem weighed_occurs {posted : FeeLedger} (hkeyed : posted.Keyed) (h : Sub d posted) :
    posted.weighed d.occurs = d.totalSeen := by
  unfold totalSeen
  rw [weighed_eq hkeyed, Dict.sum_values_eq FeeActivity.amount d posted.keys.toFinset fun k hk =>
    List.mem_toFinset.2 ((Dict.mem_keys_iff _ k).2 (h.contains ((Dict.mem_keys_iff _ k).1 hk)))]
  refine Finset.sum_congr rfl fun k _ => ?_
  cases hd : d.get? k with
  | none => cases posted.get? k <;> simp [occurs, Dict.contains, hd]
  | some c => simp [h k c hd, occurs, Dict.contains, hd]

theorem weighed_set_new {posted : FeeLedger} {n : String → ℤ} {c : FeeActivity} (hnew : posted.get? c.activityId = none)
    (hn : n c.activityId = 0) : weighed (posted.set c.activityId c) n = posted.weighed n := by
  unfold weighed
  rw [Dict.sum_values_set (fun c : FeeActivity => (n c.activityId : ℚ) * c.amount), hnew, hn]
  simp

theorem Keyed.set {posted : FeeLedger} (h : posted.Keyed) (c : FeeActivity) : Keyed (posted.set c.activityId c) := by
  intro k a ha
  rw [Dict.get?_set] at ha
  split_ifs at ha with hk
  · rw [hk, Option.some.inj ha]
  · exact h k a ha

end FeeLedger

/-- `snapshot`, then `latest`: what a restart has of a book. -/
def Portfolio.restored (p : Portfolio) : Portfolio where
  cash := p.cash
  feesSettled := p.feesSettled
  startingEquity := p.equity
  positions := p.openPositions.foldl
    (fun (d : Dict String Position) q => d.set q.symbol { q with lastPrice := some (q.lastPrice.getD q.avgEntryPrice) }) .empty

namespace Settlement

open Runs Reconciler FeeLedger

/-- A book as a process holds it: which charges `fees_settled` stands for, how often each has left cash, and what cash would
be had none. -/
structure Book where
  portfolio : Portfolio
  settled : FeeLedger := .empty
  reflects : String → ℤ := fun _ => 0
  gross : ℚ

/-- An account as `get_account` answered, the rows of `get_positions`, and the charges that cash is net of. -/
structure Reading where
  cash : ℚ
  rows : List Position
  posted : FeeLedger
deriving DecidableEq

/-- The venue, the database, and a process between its awaits: what each settling pass was told the ledger held, and what
each adoption has read. -/
structure World where
  cash : ℚ
  posted : FeeLedger := .empty
  ledger : FeeLedger := .empty
  told : List FeeLedger := []
  readings : List Reading := []
  book : Book
  stored : Option Book := none

inductive Move
  | charged (c : FeeActivity)
  | traded (x : ℚ)
  | booked (x : ℚ)
  | recorded (feed : List FeeActivity)
  | applied (seen : FeeLedger)
  | read (rows : List Position)
  | adopted (r : Reading)
  | resynced (r : Reading)
  | snapshot
  | restarted

/-- The book a boot starts from, and the one the script fills. -/
def fresh : Book := { portfolio := { cash := 0, startingEquity := 0 }, gross := 0 }

/-- The end of a settling pass: charges newly told of leave cash, and ones no longer told of return to it. -/
def Book.settle (b : Book) (seen : FeeLedger) : Book where
  portfolio := b.portfolio.settleTo seen.totalSeen
  settled := seen
  reflects := fun k => b.reflects k + (seen.occurs k + -b.settled.occurs k)
  gross := b.gross

/-- The end of an adoption: the cash is the venue's, and `fees_settled` is not touched. -/
def Book.adopt (b : Book) (r : Reading) : Book where
  portfolio := adoptBrokerState b.portfolio r.cash r.rows
  settled := b.settled
  reflects := r.posted.occurs
  gross := r.cash + r.posted.totalSeen

def Book.trade (b : Book) (x : ℚ) : Book :=
  { b with portfolio := { b.portfolio with cash := b.portfolio.cash + x }, gross := b.gross + x }

/-- **One move.**  A restart loses what the passes were told; a reading may be the script's, which is another process. -/
def step (w : World) : Move → Option World
  | .charged c =>
    if w.posted.contains c.activityId then none
    else some { w with cash := w.cash - c.amount, posted := w.posted.set c.activityId c }
  | .traded x => some { w with cash := w.cash + x }
  | .booked x => some { w with book := w.book.trade x }
  | .recorded feed =>
    if feed.all fun a => decide (w.posted.get? a.activityId = some a) then
      some { w with ledger := w.ledger.recordSeen feed, told := w.ledger.recordSeen feed :: w.told }
    else none
  | .applied seen => if seen ∈ w.told then some { w with book := w.book.settle seen } else none
  | .read rows => some { w with readings := ⟨w.cash, rows, w.posted⟩ :: w.readings }
  | .adopted r => if r ∈ w.readings then some { w with book := w.book.adopt r } else none
  | .resynced r => if r ∈ w.readings then some { w with stored := some (fresh.adopt r) } else none
  | .snapshot => some { w with stored := some w.book }
  | .restarted =>
    some { w with
      told := []
      book := w.stored.elim fresh fun b => { b with portfolio := b.portfolio.restored } }

def Step (w : World) (m : Move) (w' : World) : Prop := step w m = some w'

/-- An account before its first charge, and a worker that has not booted. -/
def opening (cash : ℚ) : World := { cash := cash, book := fresh }

/-- The two halves of a pass with nothing between them are `settle_broker_fees`. -/
theorem settle_pass (b : Book) (feed : List FeeActivity) (ledger : FeeLedger) :
    (settleBrokerFees b.portfolio (.ok feed) ledger).2 =
      ((b.settle (ledger.recordSeen feed)).portfolio, ledger.recordSeen feed) := rfl

/-! ## What explains the cash -/

/-- The charges a book reflects explain its cash, and the ones it has settled its settled figure. -/
structure Explained (posted ledger : FeeLedger) (b : Book) : Prop where
  settled : Sub b.settled ledger
  feesSettled : b.portfolio.feesSettled = b.settled.totalSeen
  reflects : ∀ k, b.reflects k ≠ 0 → posted.contains k = true
  cash : b.portfolio.cash = b.gross - posted.weighed b.reflects

structure Accounts (w : World) : Prop where
  keyed : w.posted.Keyed
  ledger : Sub w.ledger w.posted
  told : ∀ seen ∈ w.told, Sub seen w.ledger
  readings : ∀ r ∈ w.readings, Sub r.posted w.posted
  book : Explained w.posted w.ledger w.book
  stored : ∀ b ∈ w.stored, Explained w.posted w.ledger b

variable {posted ledger : FeeLedger} {b : Book} {w w' : World}

theorem fresh_explained (posted ledger : FeeLedger) : Explained posted ledger fresh where
  settled := Sub.empty ledger
  feesSettled := rfl
  reflects := fun _ h => absurd rfl h
  cash := by simp [fresh, weighed]

theorem Explained.trade (h : Explained posted ledger b) (x : ℚ) : Explained posted ledger (b.trade x) where
  settled := h.settled
  feesSettled := h.feesSettled
  reflects := h.reflects
  cash := by
    show b.portfolio.cash + x = b.gross + x - posted.weighed b.reflects
    rw [h.cash]
    ring

theorem occurs_ne {d : FeeLedger} {k : String} (h : d.occurs k ≠ 0) : d.contains k = true := by
  unfold occurs at h
  split at h
  · assumption
  · exact absurd rfl h

theorem Explained.settle (h : Explained posted ledger b) (hkeyed : posted.Keyed) (hledger : Sub ledger posted)
    {seen : FeeLedger} (hseen : Sub seen ledger) : Explained posted ledger (b.settle seen) where
  settled := hseen
  feesSettled := Portfolio.settleTo_feesSettled ..
  reflects := by
    intro k hk
    by_contra habsent
    have hnot {d : FeeLedger} (hd : Sub d ledger) : d.occurs k = 0 := by
      by_contra hne
      exact habsent ((hd.trans hledger).contains (occurs_ne hne))
    have hzero : b.reflects k = 0 := by
      by_contra hne
      exact habsent (h.reflects k hne)
    exact hk (by simp [Book.settle, hzero, hnot hseen, hnot h.settled])
  cash := by
    show (b.portfolio.settleTo seen.totalSeen).cash = b.gross - posted.weighed _
    rw [Portfolio.settleTo_cash, h.cash, h.feesSettled]
    show _ = b.gross - posted.weighed fun k => b.reflects k + (seen.occurs k + -b.settled.occurs k)
    rw [weighed_add hkeyed, weighed_add hkeyed, weighed_neg hkeyed, weighed_occurs hkeyed (hseen.trans hledger),
      weighed_occurs hkeyed (h.settled.trans hledger)]
    ring

theorem Explained.adopt (h : Explained posted ledger b) (hkeyed : posted.Keyed) {r : Reading} (hr : Sub r.posted posted) :
    Explained posted ledger (b.adopt r) where
  settled := h.settled
  feesSettled := h.feesSettled
  reflects := fun _ hk => hr.contains (occurs_ne hk)
  cash := by
    show r.cash = r.cash + r.posted.totalSeen - posted.weighed r.posted.occurs
    rw [weighed_occurs hkeyed hr]
    ring

theorem Explained.restored (h : Explained posted ledger b) :
    Explained posted ledger { b with portfolio := b.portfolio.restored } := ⟨h.settled, h.feesSettled, h.reflects, h.cash⟩

theorem Explained.charged (h : Explained posted ledger b) {c : FeeActivity} (hnew : posted.get? c.activityId = none) :
    Explained (posted.set c.activityId c) ledger b where
  settled := h.settled
  feesSettled := h.feesSettled
  reflects := fun k hk => ((Sub.refl posted).set_new hnew).contains (h.reflects k hk)
  cash := by
    have hzero : b.reflects c.activityId = 0 := by
      by_contra hne
      have := h.reflects _ hne
      simp [Dict.contains, hnew] at this
    rw [weighed_set_new hnew hzero, h.cash]

theorem Explained.recorded (h : Explained posted ledger b) {ledger' : FeeLedger} (hgrown : Sub ledger ledger') :
    Explained posted ledger' b := ⟨h.settled.trans hgrown, h.feesSettled, h.reflects, h.cash⟩

/-- **Every move keeps the accounts.** -/
theorem step_accounts {m : Move} (h : Accounts w) (hstep : Step w m w') : Accounts w' := by
  obtain ⟨hkeyed, hledger, htold, hreadings, hbook, hstored⟩ := h
  unfold Step at hstep
  cases m with
  | charged c =>
    simp only [step] at hstep
    split_ifs at hstep with hthere
    cases hstep
    have hnew : w.posted.get? c.activityId = none := by simpa [Dict.contains] using hthere
    exact ⟨hkeyed.set c, hledger.set_new hnew, htold, fun r hr => (hreadings r hr).set_new hnew, hbook.charged hnew,
      fun b hb => (hstored b hb).charged hnew⟩
  | traded x =>
    cases hstep
    exact ⟨hkeyed, hledger, htold, hreadings, hbook, hstored⟩
  | booked x =>
    cases hstep
    exact ⟨hkeyed, hledger, htold, hreadings, hbook.trade x, hstored⟩
  | recorded feed =>
    simp only [step] at hstep
    split_ifs at hstep with hfeed
    cases hstep
    have hfeed' : ∀ a ∈ feed, w.posted.get? a.activityId = some a := by simpa using hfeed
    obtain ⟨hgrown, hwithin⟩ := recordSeen_sub hledger hfeed'
    refine ⟨hkeyed, hwithin, fun seen hseen => ?_, hreadings, hbook.recorded hgrown, fun b hb => (hstored b hb).recorded hgrown⟩
    rcases List.mem_cons.1 hseen with rfl | hseen
    · exact Sub.refl _
    · exact (htold seen hseen).trans hgrown
  | applied seen =>
    simp only [step] at hstep
    split_ifs at hstep with hseen
    cases hstep
    exact ⟨hkeyed, hledger, htold, hreadings, hbook.settle hkeyed hledger (htold seen hseen), hstored⟩
  | read rows =>
    cases hstep
    refine ⟨hkeyed, hledger, htold, fun r hr => ?_, hbook, hstored⟩
    rcases List.mem_cons.1 hr with rfl | hr
    · exact Sub.refl _
    · exact hreadings r hr
  | adopted r =>
    simp only [step] at hstep
    split_ifs at hstep with hr
    cases hstep
    exact ⟨hkeyed, hledger, htold, hreadings, hbook.adopt hkeyed (hreadings r hr), hstored⟩
  | resynced r =>
    simp only [step] at hstep
    split_ifs at hstep with hr
    cases hstep
    refine ⟨hkeyed, hledger, htold, hreadings, hbook, fun b hb => ?_⟩
    cases hb
    exact (fresh_explained w.posted w.ledger).adopt hkeyed (hreadings r hr)
  | snapshot =>
    cases hstep
    refine ⟨hkeyed, hledger, htold, hreadings, hbook, fun b hb => ?_⟩
    cases hb
    exact hbook
  | restarted =>
    cases hstep
    refine ⟨hkeyed, hledger, by simp, hreadings, ?_, hstored⟩
    cases hs : w.stored with
    | none => exact fresh_explained w.posted w.ledger
    | some b => exact (hstored b hs).restored

/-- **Whatever the order of the moves, the charges a book reflects explain its cash.** -/
theorem accounts_always {cash : ℚ} {l : List Move} (h : Run Step (opening cash) l w) : Accounts w := by
  refine run_invariant Accounts (fun _ _ _ hw hs => step_accounts hw hs) ?_ h
  exact ⟨fun _ _ hc => by (cases hc), Sub.empty _, by simp [opening], by simp [opening], fresh_explained _ _,
    by simp [opening]⟩

/-! ## No charge twice -/

/-- What is adopted is net of exactly the charges the adopting book has settled; for a fresh book, of none. -/
def Fits (w : World) : Move → Prop
  | .adopted r => ∀ k, r.posted.contains k = w.book.settled.contains k
  | .resynced r => ∀ k, r.posted.contains k = false
  | _ => True

/-- A book reflects each charge it has settled, once. -/
def Book.Once (b : Book) : Prop := ∀ k, b.reflects k = b.settled.occurs k

theorem step_once {m : Move} (h : w.book.Once ∧ ∀ b ∈ w.stored, b.Once) (hfits : Fits w m) (hstep : Step w m w') :
    w'.book.Once ∧ ∀ b ∈ w'.stored, b.Once := by
  obtain ⟨hbook, hstored⟩ := h
  unfold Step at hstep
  cases m with
  | charged c =>
    simp only [step] at hstep
    split_ifs at hstep
    cases hstep
    exact ⟨hbook, hstored⟩
  | traded x =>
    cases hstep
    exact ⟨hbook, hstored⟩
  | booked x =>
    cases hstep
    exact ⟨hbook, hstored⟩
  | recorded feed =>
    simp only [step] at hstep
    split_ifs at hstep
    cases hstep
    exact ⟨hbook, hstored⟩
  | applied seen =>
    simp only [step] at hstep
    split_ifs at hstep
    cases hstep
    refine ⟨fun k => ?_, hstored⟩
    show w.book.reflects k + (seen.occurs k + -w.book.settled.occurs k) = seen.occurs k
    rw [hbook k]
    omega
  | read rows =>
    cases hstep
    exact ⟨hbook, hstored⟩
  | adopted r =>
    simp only [step] at hstep
    split_ifs at hstep
    cases hstep
    refine ⟨fun k => ?_, hstored⟩
    show r.posted.occurs k = w.book.settled.occurs k
    unfold occurs
    rw [hfits k]
  | resynced r =>
    simp only [step] at hstep
    split_ifs at hstep
    cases hstep
    refine ⟨hbook, fun b hb k => ?_⟩
    cases hb
    show r.posted.occurs k = 0
    unfold occurs
    rw [hfits k]
    rfl
  | snapshot =>
    cases hstep
    refine ⟨hbook, fun b hb => ?_⟩
    cases hb
    exact hbook
  | restarted =>
    cases hstep
    refine ⟨?_, hstored⟩
    cases hs : w.stored with
    | none => exact fun _ => rfl
    | some b => exact hstored b hs

/-- Two parts of what is posted that hold the same charges come to the same total. -/
theorem totalSeen_congr {d e : FeeLedger} (hkeyed : posted.Keyed) (hd : Sub d posted) (he : Sub e posted)
    (h : ∀ k, d.contains k = e.contains k) : d.totalSeen = e.totalSeen := by
  rw [← weighed_occurs hkeyed hd, ← weighed_occurs hkeyed he]
  have hsame : d.occurs = e.occurs := by
    funext k
    unfold occurs
    rw [h k]
  rw [hsame]

/-- **No venue charge is taken from cash twice**, in a run whose adoptions all fit: cash is net of each charge at most once, and
a settling pass straight after an adoption that fits leaves the venue's cash. -/
theorem charges_once {cash : ℚ} {l : List Move} (h : Run (guarded Step Fits) (opening cash) l w) :
    (w.book.portfolio.cash = w.book.gross - w.posted.weighed w.book.reflects ∧ ∀ k, w.book.reflects k ≤ 1) ∧
      ∀ rows feed, (∀ l, feed = .ok l → ∀ a ∈ l, w.posted.get? a.activityId = some a) →
        Fits w (.adopted ⟨w.cash, rows, w.posted⟩) →
          (settleBrokerFees (w.book.adopt ⟨w.cash, rows, w.posted⟩).portfolio feed w.ledger).2.1.cash = w.cash := by
  have hunguarded : Run Step (opening cash) l w := run_mono (fun _ _ _ hs => hs.1) h
  obtain ⟨hkeyed, hledger, -, -, hbook, -⟩ := accounts_always hunguarded
  obtain ⟨honce, -⟩ := run_guarded Fits (fun w => w.book.Once ∧ ∀ b ∈ w.stored, b.Once)
    (fun _ _ _ hw hf hs => step_once hw hf hs) ⟨fun _ => rfl, by simp [opening]⟩ h
  refine ⟨⟨hbook.cash, fun k => ?_⟩, fun rows feed hfeed hfits => ?_⟩
  · rw [honce k]
    unfold occurs
    split <;> omega
  · cases feed with
    | error e => rfl
    | ok charged =>
      obtain ⟨hgrown, hwithin⟩ := recordSeen_sub hledger (hfeed charged rfl)
      have htotal : (w.ledger.recordSeen charged).totalSeen = w.book.settled.totalSeen := by
        refine totalSeen_congr hkeyed hwithin (hbook.settled.trans hledger) fun k => ?_
        rw [Bool.eq_iff_iff]
        exact ⟨fun hk => (hfits k) ▸ hwithin.contains hk, fun hk => (hbook.settled.trans hgrown).contains hk⟩
      show (Portfolio.settleTo _ (w.ledger.recordSeen charged).totalSeen).cash = w.cash
      rw [Portfolio.settleTo_cash, htotal]
      show w.cash - (w.book.settled.totalSeen - w.book.portfolio.feesSettled) = w.cash
      rw [hbook.feesSettled]
      ring

/-- **The condition is tight**: a charge the adopted cash is net of and the book has not settled leaves cash again with the
next pass told of it. -/
theorem adopted_unsettled {r : Reading} {seen : FeeLedger} {k : String} {w'' : World} (hadopt : Step w (.adopted r) w')
    (happly : Step w' (.applied seen) w'') (hr : r.posted.contains k = true) (hseen : seen.contains k = true)
    (hnot : w.book.settled.contains k = false) : w''.book.reflects k = 2 := by
  simp only [Step, step] at hadopt happly
  split_ifs at hadopt
  cases hadopt
  split_ifs at happly
  cases happly
  simp [Book.settle, Book.adopt, occurs, hr, hseen, hnot]

/-! ## A first boot -/

def sessionFee : FeeActivity := { activityId := "fee-1", bookedOn := 0, amount := 414 / 100 }

def seenFee : FeeLedger := Dict.empty.set "fee-1" sessionFee

theorem step_charged (w : World) {c : FeeActivity} (h : w.posted.get? c.activityId = none) :
    Step w (.charged c) { w with cash := w.cash - c.amount, posted := w.posted.set c.activityId c } :=
  if_neg (by simp [Dict.contains, h])

theorem step_recorded (w : World) {feed : List FeeActivity} (h : ∀ a ∈ feed, w.posted.get? a.activityId = some a) :
    Step w (.recorded feed) { w with ledger := w.ledger.recordSeen feed, told := w.ledger.recordSeen feed :: w.told } :=
  if_pos (by simpa using h)

theorem step_applied (w : World) {seen : FeeLedger} (h : seen ∈ w.told) :
    Step w (.applied seen) { w with book := w.book.settle seen } := if_pos h

theorem step_adopted (w : World) {r : Reading} (h : r ∈ w.readings) :
    Step w (.adopted r) { w with book := w.book.adopt r } := if_pos h

/-- Booted before the fee is charged: the fee leaves cash once, and cash is the venue's. -/
theorem charges_once_booted : ∃ l w, Run (guarded Step Fits) (opening 1000) l w ∧
    w.book.portfolio.cash = 1000 - 414 / 100 ∧ w.cash = 1000 - 414 / 100 ∧ ∀ k, w.book.reflects k ≤ 1 := by
  let read : World := { opening 1000 with readings := [⟨1000, [], .empty⟩] }
  let booted : World := { read with book := fresh.adopt ⟨1000, [], .empty⟩ }
  let charged : World := { booted with cash := 1000 - sessionFee.amount, posted := seenFee }
  let told : World := { charged with ledger := recordSeen .empty [sessionFee], told := [recordSeen .empty [sessionFee]] }
  have hread : guarded Step Fits (opening 1000) (.read []) read := ⟨rfl, trivial⟩
  have hadopt : guarded Step Fits read (.adopted ⟨1000, [], .empty⟩) booted :=
    ⟨step_adopted read (List.mem_singleton_self _), fun _ => rfl⟩
  have hcharge : guarded Step Fits booted (.charged sessionFee) charged := ⟨step_charged booted rfl, trivial⟩
  have hrecord : guarded Step Fits charged (.recorded [sessionFee]) told :=
    ⟨step_recorded charged (by decide +kernel), trivial⟩
  have happly := step_applied told (List.mem_singleton_self (recordSeen .empty [sessionFee]))
  have hrun := Run.cons hread (.cons hadopt (.cons hcharge (.cons hrecord (.cons ⟨happly, trivial⟩ (.nil _)))))
  exact ⟨_, _, hrun, by decide +kernel, by decide +kernel, (charges_once hrun).1.2⟩

/-- **A charge is taken twice**: a first boot adopts cash that is net of the fee, and its first pass takes the fee again. -/
theorem fee_taken_twice : (¬ ∀ (cash : ℚ) (l : List Move) (w : World), Run Step (opening cash) l w →
      ∀ k, w.book.reflects k ≤ 1) ∧
    ∃ l w, Run Step (opening 1000) l w ∧ w.book.reflects "fee-1" = 2 ∧ w.cash = 1000 - 414 / 100 ∧
      w.book.portfolio.cash = 1000 - 828 / 100 := by
  let charged : World := { opening 1000 with cash := 1000 - sessionFee.amount, posted := seenFee }
  let adopted : Reading := ⟨charged.cash, [], seenFee⟩
  let read : World := { charged with readings := [adopted] }
  let booted : World := { read with book := fresh.adopt adopted }
  let told : World := { booted with ledger := recordSeen .empty [sessionFee], told := [recordSeen .empty [sessionFee]] }
  have hcharge : Step (opening 1000) (.charged sessionFee) charged := step_charged _ rfl
  have hread : Step charged (.read []) read := rfl
  have hadopt : Step read (.adopted adopted) booted := step_adopted read (List.mem_singleton_self _)
  have hrecord : Step booted (.recorded [sessionFee]) told := step_recorded booted (by decide +kernel)
  have happly := step_applied told (List.mem_singleton_self (recordSeen .empty [sessionFee]))
  have hrun := Run.cons hcharge (.cons hread (.cons hadopt (.cons hrecord (.cons happly (.nil _)))))
  refine ⟨fun h => ?_, _, _, hrun, ?_, by decide +kernel, by decide +kernel⟩
  · have hle := h 1000 _ _ hrun "fee-1"
    revert hle
    decide +kernel
  · decide +kernel

end Settlement
end Atp
