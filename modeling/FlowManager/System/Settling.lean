import FlowManager.Lib.Fair
import FlowManager.PositionManager.GenuineFills
import FlowManager.System.Outstanding
import Mathlib.Data.Prod.Lex
import Mathlib.Data.Fintype.EquivFin

/-!
# The system settles

A run in which nobody interferes: no target is set, the terminate flag stays clear, and only the loop,
the order threads and the timers make steps. It starts between two iterations, with no outstanding
order being cancelled. Then every confirmation is of a complete fill, which leaves the working
positions, so the loop never calls the broker (`SimStep.quiet`).

If no thread and no iteration of the loop waits for ever, the threads finish, the loop takes the last
confirmation, and from then on every position is its target (`undisturbed_settles`).
-/

namespace FlowManager.System

open FlowManager.Lib FlowManager.Broker FlowManager.Position FlowManager.Broker.Simulated

variable {t : Shared} {c c' : SimConfig} {ω : ℕ → SimConfig}

/-- A step of the thread of an order or of a timer. -/
def Internal : SimEvent → Prop
  | .thread _ _ | .timer _ => True
  | .submitOrder _ _ _ _ | .cancelOrder _ | .stop => False

/-- What the broker does by itself submits nothing. -/
theorem Internal.notSubmit {e : SimEvent} (h : Internal e) : NotSubmit e := by
  cases e with
  | submitOrder => exact h
  | thread | timer | cancelOrder | stop => trivial

/-- No outstanding order is being cancelled. -/
def Uncancelled (t : Shared) : Prop :=
  ∀ o ∈ t.2.orders, ticket o ∈ outstanding t → o.cancelling = false

/-- Nobody interferes: no target waits, and the flag is clear. -/
def SimConfig.Undisturbed (c : SimConfig) : Prop :=
  c.pm.targetUpdatesQ = [] ∧ c.terminateFlag = false

/-! ## Steps that nobody disturbs -/

/-- A step of the loop that changes where it is and nothing else. -/
inductive Advance (q : List TradeConfirmationMessage) : RunPhase → RunPhase → Prop
  | enterLoop : Advance q .testing (.looping (.confirmations ∅))
  | confirmationsDone (affected : Finset String) :
      q = [] → Advance q (.looping (.confirmations affected)) (.looping (.targets affected ∅))
  | targetsDone (fromTrades affected : Finset String) :
      Advance q (.looping (.targets fromTrades affected))
        (.looping (.reconciling (fromTrades ∪ affected)))
  | onTarget {left : Finset String} {symbol : String} :
      symbol ∈ left →
      Advance q (.looping (.reconciling left)) (.looping (.reconciling (left.erase symbol)))
  | iterationDone : Advance q (.looping (.reconciling ∅)) .testing

/-- All that a step can do while nobody disturbs the run: the loop makes no call of the broker. -/
inductive QuietStep : SimConfig → SimConfig → Prop
  | idle (c : SimConfig) : QuietStep c c
  | thread (c : SimConfig) (i draw : ℕ) : QuietStep c (c.setShared (threadStep i draw c.shared))
  | takeConfirmation {conf : TradeConfirmationMessage} {rest : List TradeConfirmationMessage}
      (affected : Finset String) (flag : Bool) (pm : PositionManager) (b : SimulatedBroker) :
      pm.tradeConfirmationsQ = conf :: rest →
      QuietStep ⟨.looping (.confirmations affected), flag, pm, b⟩
        ⟨.looping (.confirmations (insert conf.symbol affected)), flag,
          processConfirmation conf { pm with tradeConfirmationsQ := rest }, b⟩
  | advance {phase phase' : RunPhase} (flag : Bool) (pm : PositionManager) (b : SimulatedBroker) :
      Advance pm.tradeConfirmationsQ phase phase' →
      QuietStep ⟨phase, flag, pm, b⟩ ⟨phase', flag, pm, b⟩

/-- The invariant: every symbol is on target, and no outstanding order is being cancelled. -/
structure SimConfig.Quiet (c : SimConfig) : Prop where
  tracked : c.Tracked
  onTarget : ∀ s, c.pm.OnTarget s
  uncancelled : Uncancelled c.shared
  inLoop : c.phase ≠ .stopping ∧ c.phase ≠ .returned

/-- A step of an order's thread moves that order. -/
theorem orders_threadStep (i draw : ℕ) (t : Shared) :
    (threadStep i draw t).2.orders = t.2.orders.modify i (·.move draw) := by
  cases ho : t.2.orders[i]? with
  | none =>
      rw [List.modify_eq_self]
      · simp [threadStep, ho]
      · exact List.getElem?_eq_none_iff.mp ho
  | some o =>
      cases hthread : o.thread <;>
        simp [threadStep, ho, hthread, SimulatedBroker.write, Simulated.callback]

/-- What a thread does leaves the orders that are being cancelled. -/
theorem Uncancelled.threadStep (h : Uncancelled t) (horderly : Orderly t) (i draw : ℕ) :
    Uncancelled (threadStep i draw t) := by
  have hcontinues : Continues t (Simulated.threadStep i draw t) :=
    continues_apply (e := .thread i draw) trivial horderly
  intro o' ho' hout
  rw [hcontinues.outstanding] at hout
  have hbefore : ∃ o ∈ t.2.orders, ticket o' = ticket o ∧ o'.cancelling = o.cancelling := by
    rw [orders_threadStep] at ho'
    obtain ⟨j, hj⟩ := List.mem_iff_getElem?.mp ho'
    rcases getElem?_modify_cases hj with ⟨-, o'', ho'', rfl⟩ | ⟨-, hj⟩
    · exact ⟨o'', List.mem_of_getElem? ho'', ticket_move o'' draw, move_cancelling o'' draw⟩
    · exact ⟨o', List.mem_of_getElem? hj, rfl, rfl⟩
  obtain ⟨o, ho, hticket, hcancelling⟩ := hbefore
  rw [hcancelling]
  exact h o ho (hticket ▸ hout)

/-- The confirmation of an order that nobody cancels is of all of it. -/
theorem SimConfig.Tracked.genuine (hc : c.Tracked) (huncancelled : Uncancelled c.shared)
    {conf : TradeConfirmationMessage} (hconf : conf ∈ c.pm.tradeConfirmationsQ) :
    ∃ d, GenuineFill c.pm.liveOrders [] conf d := by
  obtain ⟨o, ho, hfinished, finalStatus, hof, hends, hdecides⟩ :=
    hc.orderly.queued conf hconf
  have hout : ticket o ∈ outstanding c.shared := by
    refine ticket_mem_outstanding ho ?_
    unfold isOutstanding
    rw [Bool.or_eq_true, List.any_eq_true]
    exact Or.inr ⟨conf, hconf, decide_eq_true (hof ▸ rfl)⟩
  have hfilled : finalStatus = .FILLED := by
    rcases hdecides with hfilled | ⟨-, hcancelling⟩
    · exact hfilled
    · rw [huncancelled o ho hout] at hcancelling
      exact absurd hcancelling Bool.false_ne_true
  obtain ⟨d, hd, hticket⟩ := hc.tracks.tracked _ hout
  obtain ⟨-, -, hnothing⟩ := hc.tracks.live hd
  have hstatus : conf.status = .FILLED := by
    rw [hof]
    exact hfilled
  have hamount : conf.filledQuantity = o.amount := by
    rw [hof]
    exact hends hfilled
  have hquantity : conf.filledQuantity = d.quantity :=
    hamount.trans (congrArg Ticket.quantity hticket).symm
  refine ⟨d, ?_, ?_, ?_, ?_, ?_, ?_⟩
  · rw [hof]
    exact hd
  · rw [hof]
    exact (congrArg Ticket.symbol hticket).symm
  · rw [hof]
    exact (congrArg Ticket.sideIsBuy hticket).symm
  · rw [hamount]
    exact hc.orderly.positive o ho
  · simp [hnothing, hquantity]
  · simp [hnothing, hquantity, hstatus]

/-- On target, reconciling a symbol makes no call. -/
theorem reconcileSymbol_of_onTarget {β : Type} (B : Position.Broker β) {w : World β}
    {symbol : String} (hon : w.pm.OnTarget symbol) (newId : String) :
    (reconcileSymbol B symbol newId).run w = .returned () w := by
  have hdelta : w.pm.targetPositions.getD symbol 0 - calculateWorkingPosition w.pm symbol = 0 :=
    sub_eq_zero.mpr hon.symm
  simp [reconcileSymbol, hdelta]

/-- **While nobody disturbs the run the loop makes no call of the broker.** -/
theorem SimStep.quiet (h : SimStep Internal c c') (hc : c.Quiet) (hd : c.Undisturbed)
    (hd' : c'.Undisturbed) : QuietStep c c' ∧ c'.Quiet := by
  have htracked : c'.Tracked := (h.mono fun _ he => he.notSubmit).tracked hc.tracked
  have hon := hc.onTarget
  have huncancelled := hc.uncancelled
  obtain ⟨hq, hflag⟩ := hd
  obtain ⟨hq', hflag'⟩ := hd'
  cases h with
  | event _ e he =>
      cases e with
      | submitOrder | cancelOrder | stop => exact he.elim
      | thread i draw =>
          exact ⟨.thread c i draw, htracked, hon,
            huncancelled.threadStep hc.tracked.orderly i draw, hc.inLoop⟩
      | timer k =>
          have hsame : timerStep k c.shared = c.shared := by
            simp [timerStep, hc.tracked.orderly.unduplicated.timers]
          have hsame' : c.setShared (SimEvent.apply (.timer k) c.shared) = c :=
            congrArg c.setShared hsame
          rw [hsame']
          exact ⟨.idle c, hc⟩
  | targetArrives => simp [updateTargetPosition] at hq'
  | terminate => cases hflag'
  | enterLoop pm b =>
      exact ⟨.advance _ _ _ .enterLoop, htracked, hon, huncancelled, by simp, by simp⟩
  | @takeConfirmation conf rest affected flag pm b hconfs =>
      refine ⟨.takeConfirmation affected flag pm b hconfs, htracked, fun s => ?_, ?_, by simp, by simp⟩
      · have hmem : conf ∈ pm.tradeConfirmationsQ := by simp [hconfs]
        obtain ⟨d, hfill⟩ := hc.tracked.genuine hc.uncancelled hmem
        have hpm : PositionManager.Consistent { pm with tradeConfirmationsQ := rest } :=
          ⟨hc.tracked.consistent.listed, hc.tracked.consistent.symbol,
            hc.tracked.consistent.nodup, hc.tracked.consistent.notTerminal⟩
        have hfill' : GenuineFill { pm with tradeConfirmationsQ := rest }.liveOrders [] conf d :=
          hfill
        have hworking := hfill'.calculateWorkingPosition_eq hpm s
        rw [PositionManager.OnTarget, processConfirmation_targetPositions, hworking]
        exact hon s
      · have horderly : Orderly (conf :: rest, b) := by
          have horderly := hc.tracked.orderly
          rwa [SimConfig.shared, hconfs] at horderly
        have hbefore : Uncancelled (conf :: rest, b) := by
          rwa [SimConfig.shared, hconfs] at huncancelled
        intro o ho hout
        rw [SimConfig.shared, processConfirmation_tradeConfirmationsQ,
          horderly.outstanding_taken] at hout
        exact hbefore o ho (List.mem_of_mem_filter hout)
  | confirmationsDone affected flag pm b hconfs =>
      exact ⟨.advance _ _ _ (.confirmationsDone affected hconfs), htracked, hon, huncancelled,
        by simp, by simp⟩
  | @takeTarget update rest fromTrades affected flag pm b htargets =>
      rw [htargets] at hq
      cases hq
  | targetsDone fromTrades affected flag pm b =>
      exact ⟨.advance _ _ _ (.targetsDone fromTrades affected), htracked, hon, huncancelled,
        by simp, by simp⟩
  | @reconcile pm b w' left flag symbol newId schedule hmem hnew hallowed hrun =>
      have hsame : w' = ⟨pm, ⟨b, schedule⟩⟩ := by
        have hnone := reconcileSymbol_of_onTarget scheduled (w := ⟨pm, ⟨b, schedule⟩⟩)
          (hon symbol) newId
        rw [hnone, Outcome.returned.injEq] at hrun
        exact hrun.2.symm
      subst hsame
      exact ⟨.advance _ _ _ (.onTarget hmem), htracked, hon, huncancelled, by simp, by simp⟩
  | iterationDone flag pm b =>
      exact ⟨.advance _ _ _ .iterationDone, htracked, hon, huncancelled, by simp, by simp⟩
  | leaveLoop => cases hflag
  | stop => exact absurd rfl hc.inLoop.1

/-- The requests that the broker has been made: the orders, and which of them are cancelled. -/
def requests (b : SimulatedBroker) : List (String × Bool) :=
  b.orders.map fun o => (o.clientOrderId, o.cancelling)

/-- A quiet step requests nothing. -/
theorem QuietStep.requests_eq (h : QuietStep c c') : requests c'.broker = requests c.broker := by
  cases h with
  | idle | takeConfirmation | advance => rfl
  | thread _ i draw =>
      have horders : (c.setShared (threadStep i draw c.shared)).broker.orders =
          c.broker.orders.modify i (·.move draw) := orders_threadStep i draw c.shared
      unfold requests
      rw [horders]
      refine map_eq_of_forall₂ (forall₂_modify (R := fun o o' : SimulatedOrder =>
        o'.clientOrderId = o.clientOrderId ∧ o'.cancelling = o.cancelling)
        (fun _ => ⟨rfl, rfl⟩) _ _ _ fun o _ => ⟨SimulatedOrder.move_clientOrderId,
          move_cancelling o draw⟩) ?_
      rintro o o' ⟨hid, hcancelling⟩
      rw [hid, hcancelling]

/-- A quiet step sets no target. -/
theorem QuietStep.targetPositions_eq (h : QuietStep c c') :
    c'.pm.targetPositions = c.pm.targetPositions := by
  cases h with
  | idle | thread | advance => rfl
  | takeConfirmation => exact processConfirmation_targetPositions _

/-! ## The threads finish -/

/-- The steps that the thread of an order has to do at most. -/
def workOf (o : SimulatedOrder) : ℕ :=
  match o.thread with
  | .testing => 2 * (o.amount - o.amountFilled).toNat + 6
  | .filling => 2 * (o.amount - o.amountFilled).toNat + 5
  | .finishing => 4
  | .writing _ => 3
  | .removing _ => 2
  | .queueing _ => 1
  | .finished => 0

/-- The steps that all threads have to do at most. -/
def work (b : SimulatedBroker) : ℕ := (b.orders.map workOf).sum

/-- A step of a thread that has not finished leaves it less to do. -/
theorem workOf_move_lt {o : SimulatedOrder} (h : o.Sound) (hunfinished : o.isFinished = false)
    (draw : ℕ) : workOf (o.move draw) < workOf o := by
  have hknows := h.knows
  cases hthread : o.thread with
  | testing =>
      simp only [SimulatedOrder.move, workOf, hthread]
      split_ifs <;> dsimp only <;> omega
  | filling =>
      rw [hthread] at hknows
      have hpos := SimulatedOrder.filledThisStep_pos draw hknows
      have hlt : o.amountFilled < o.amount := hknows
      simp only [SimulatedOrder.move, workOf, hthread]
      omega
  | finished => simp [SimulatedOrder.isFinished, hthread] at hunfinished
  | finishing | writing | removing | queueing => simp [SimulatedOrder.move, workOf, hthread]

/-- A step of a thread leaves the orders, or less to do. -/
theorem work_threadStep (h : t.2.Sound) (i draw : ℕ) :
    (threadStep i draw t).2.orders = t.2.orders ∨ work (threadStep i draw t).2 < work t.2 := by
  unfold work
  rw [orders_threadStep]
  cases ho : t.2.orders[i]? with
  | none => exact Or.inl (List.modify_eq_self (List.getElem?_eq_none_iff.mp ho))
  | some o =>
      cases hfinished : o.isFinished with
      | true =>
          left
          have hsame : List.Forall₂ Eq t.2.orders (t.2.orders.modify i (·.move draw)) := by
            refine forall₂_modify (fun _ => rfl) _ _ _ fun o' ho' => ?_
            obtain rfl := Option.some.inj (ho.symm.trans ho')
            unfold SimulatedOrder.move
            rw [of_decide_eq_true hfinished]
          rw [List.forall₂_eq_eq_eq] at hsame
          exact hsame.symm
      | false => exact Or.inr (sum_map_modify_lt ho (workOf_move_lt (h.order ho) hfinished draw))

/-- **A quiet step** leaves the orders or there is less work to do. -/
theorem QuietStep.orders_or_work (h : QuietStep c c') (hc : c.Quiet) :
    c'.broker.orders = c.broker.orders ∨ work c'.broker < work c.broker := by
  cases h with
  | idle | takeConfirmation | advance => exact Or.inl rfl
  | thread _ i draw => exact work_threadStep hc.tracked.orderly.sound i draw

/-! ## The loop takes what is left -/

/-- The steps from a place of the loop to its next confirmation. -/
def stepsToConfirmations : RunPhase → ℕ
  | .testing => 1
  | .looping (.confirmations _) => 0
  | .looping (.targets fromTrades affected) => 3 + (fromTrades ∪ affected).card
  | .looping (.reconciling left) => 2 + left.card
  | .stopping | .returned => 0

/-- What the loop has to do once the threads have finished. -/
def SimConfig.backlog (c : SimConfig) : ℕ ×ₗ ℕ :=
  toLex (c.pm.tradeConfirmationsQ.length, stepsToConfirmations c.phase)

/-- Moving on brings the loop nearer to the confirmation that waits. -/
theorem Advance.lt {q : List TradeConfirmationMessage} {phase phase' : RunPhase}
    (h : Advance q phase phase') :
    q = [] ∨ stepsToConfirmations phase' < stepsToConfirmations phase := by
  cases h with
  | enterLoop | iterationDone => exact Or.inr (by simp [stepsToConfirmations])
  | confirmationsDone _ hq => exact Or.inl hq
  | targetsDone fromTrades affected => exact Or.inr (by simp [stepsToConfirmations])
  | onTarget hmem =>
      right
      have hcard := Finset.card_erase_lt_of_mem hmem
      simp only [stepsToConfirmations]
      omega

/-- Every thread has finished. -/
def SimConfig.Finished (c : SimConfig) : Prop := ∀ o ∈ c.broker.orders, o.isFinished = true

/-- Once the threads have finished, a step keeps the place of the loop or leaves it less to do. -/
theorem QuietStep.phase_or_backlog (h : QuietStep c c') (hc : c.Quiet) (hfinished : c.Finished) :
    c.pm.tradeConfirmationsQ = [] ∨
      (c'.backlog ≤ c.backlog ∧ (c'.phase = c.phase ∨ c'.backlog < c.backlog)) := by
  cases h with
  | idle => exact Or.inr ⟨le_rfl, Or.inl rfl⟩
  | thread _ i draw =>
      have hdone : AllDone c.pm.tradeConfirmationsQ c.shared :=
        ⟨rfl, hc.tracked.orderly.unduplicated.timers, hfinished⟩
      have hq : (c.setShared (threadStep i draw c.shared)).pm.tradeConfirmationsQ =
          c.pm.tradeConfirmationsQ := (hdone.apply (e := .thread i draw) trivial).queue
      refine Or.inr ⟨le_of_eq ?_, Or.inl rfl⟩
      unfold SimConfig.backlog
      rw [hq]
      rfl
  | @takeConfirmation conf rest affected flag pm b hq =>
      have hlt : SimConfig.backlog ⟨.looping (.confirmations (insert conf.symbol affected)), flag,
          processConfirmation conf { pm with tradeConfirmationsQ := rest }, b⟩ <
          SimConfig.backlog ⟨.looping (.confirmations affected), flag, pm, b⟩ := by
        refine Prod.Lex.toLex_lt_toLex.mpr (Or.inl ?_)
        simp [hq]
      exact Or.inr ⟨hlt.le, Or.inr hlt⟩
  | @advance phase phase' flag pm b hadvance =>
      rcases hadvance.lt with hq | hlt
      · exact Or.inl hq
      · have hlt' : SimConfig.backlog ⟨phase', flag, pm, b⟩ <
            SimConfig.backlog ⟨phase, flag, pm, b⟩ :=
          Prod.Lex.toLex_lt_toLex.mpr (Or.inr ⟨rfl, hlt⟩)
        exact Or.inr ⟨hlt'.le, Or.inr hlt'⟩

/-- Once the threads have finished nothing is put into the queue. -/
theorem QuietStep.finished (h : QuietStep c c') (hc : c.Quiet) (hfinished : c.Finished) :
    c'.Finished ∧ (c.pm.tradeConfirmationsQ = [] → c'.pm.tradeConfirmationsQ = []) := by
  cases h with
  | idle | advance => exact ⟨hfinished, id⟩
  | takeConfirmation affected flag pm b hq =>
      refine ⟨hfinished, fun hnil => ?_⟩
      rw [hq] at hnil
      cases hnil
  | thread _ i draw =>
      have hdone : AllDone c.pm.tradeConfirmationsQ c.shared :=
        ⟨rfl, hc.tracked.orderly.unduplicated.timers, hfinished⟩
      have hdone' := hdone.apply (e := .thread i draw) trivial
      exact ⟨hdone'.finished, fun hnil => hdone'.queue.trans hnil⟩

/-! ## Fair runs -/

/-- An endless run that nobody disturbs, in which no thread and no iteration of the loop waits for
ever. -/
structure FairRun (ω : ℕ → SimConfig) : Prop where
  step : ∀ n, SimStep Internal (ω n) (ω (n + 1))
  undisturbed : ∀ n, (ω n).Undisturbed
  /-- A thread that has not finished goes on. -/
  thread : ∀ (n i : ℕ) (o : SimulatedOrder), (ω n).broker.orders[i]? = some o → o.isFinished = false →
    ∃ m, n ≤ m ∧ (ω m).broker.orders[i]? ≠ some o
  /-- The loop goes on. -/
  loop : ∀ n, ∃ m, n ≤ m ∧ (ω m).phase ≠ (ω n).phase

/-- A run can start here: between two iterations, with no outstanding order being cancelled. -/
structure Starts (c : SimConfig) : Prop where
  reached : SimReaches NotSubmit .init c
  phase : c.phase = .testing
  undisturbed : c.Undisturbed
  uncancelled : Uncancelled c.shared

/-- The start is quiet. -/
theorem Starts.quiet (h : Starts c) : c.Quiet := by
  have htracked := h.reached.tracked
  refine ⟨htracked, fun s => htracked.settled s ?_, h.uncancelled, ?_⟩
  · rw [h.phase]
    exact Finset.notMem_empty s
  · rw [h.phase]
    exact ⟨nofun, nofun⟩

namespace FairRun

/-- In every state of a fair run it is quiet. -/
theorem quiet (h : FairRun ω) (hstart : (ω 0).Quiet) : ∀ n, (ω n).Quiet
  | 0 => hstart
  | n + 1 => ((h.step n).quiet (h.quiet hstart n) (h.undisturbed n) (h.undisturbed (n + 1))).2

/-- Every step of a fair run is quiet. -/
theorem quietStep (h : FairRun ω) (hstart : (ω 0).Quiet) (n : ℕ) :
    QuietStep (ω n) (ω (n + 1)) :=
  ((h.step n).quiet (h.quiet hstart n) (h.undisturbed n) (h.undisturbed (n + 1))).1

/-- What every quiet step keeps. -/
theorem eq_zero {γ : Type} (h : FairRun ω) (hstart : (ω 0).Quiet) {f : SimConfig → γ}
    (hf : ∀ {c c'}, QuietStep c c' → f c' = f c) : ∀ n, f (ω n) = f (ω 0)
  | 0 => rfl
  | n + 1 => (hf (h.quietStep hstart n)).trans (h.eq_zero hstart hf n)

/-- The threads finish. -/
theorem exists_finished (h : FairRun ω) (hstart : (ω 0).Quiet) : ∃ n, (ω n).Finished := by
  obtain ⟨n, -, hn⟩ := exists_of_fair (fun n => (ω n).Finished)
    (fun n => work (ω n).broker) (fun n => (ω n).broker.orders)
    (fun n => by
      right
      rcases (h.quietStep hstart n).orders_or_work (h.quiet hstart n) with hsame | hlt
      · have hwork : work (ω (n + 1)).broker = work (ω n).broker := by rw [work, work, hsame]
        exact ⟨hwork.le, Or.inl hsame⟩
      · exact ⟨hlt.le, Or.inr hlt⟩)
    (fun n hn => by
      simp only [SimConfig.Finished, not_forall] at hn
      obtain ⟨o, ho, hunfinished⟩ := hn
      obtain ⟨i, hi⟩ := List.mem_iff_getElem?.mp ho
      obtain ⟨m, hnm, hm⟩ := h.thread n i o hi (by simpa using hunfinished)
      refine ⟨m, hnm, fun hsame => hm ?_⟩
      rw [hsame]
      exact hi) 0
  exact ⟨n, hn⟩

/-- What has finished in a fair run stays finished. -/
theorem finished (h : FairRun ω) (hstart : (ω 0).Quiet) {n m : ℕ} (hnm : n ≤ m)
    (hn : (ω n).Finished) : (ω m).Finished := by
  induction m, hnm using Nat.le_induction with
  | base => exact hn
  | succ m _ ih => exact ((h.quietStep hstart m).finished (h.quiet hstart m) ih).1

/-- The loop takes the last confirmation. -/
theorem exists_rest (h : FairRun ω) (hstart : (ω 0).Quiet) :
    ∃ n, ∀ m, n ≤ m → (ω m).Finished ∧ (ω m).pm.tradeConfirmationsQ = [] := by
  obtain ⟨N, hN⟩ := h.exists_finished hstart
  have hfinished : ∀ m, (ω (N + m)).Finished := fun m => h.finished hstart (Nat.le_add_right N m) hN
  obtain ⟨n, -, hn⟩ := exists_of_fair (fun n => (ω (N + n)).pm.tradeConfirmationsQ = [])
    (fun n => (ω (N + n)).backlog) (fun n => (ω (N + n)).phase)
    (fun n => (h.quietStep hstart (N + n)).phase_or_backlog (h.quiet hstart (N + n))
      (hfinished n))
    (fun n _ => by
      obtain ⟨m, hnm, hm⟩ := h.loop (N + n)
      refine ⟨m - N, by omega, ?_⟩
      rwa [Nat.add_sub_cancel' (by omega)]) 0
  refine ⟨N + n, fun m hnm => ?_⟩
  induction m, hnm using Nat.le_induction with
  | base => exact ⟨hfinished n, hn⟩
  | succ m _ ih =>
      obtain ⟨hnext, hempty⟩ := (h.quietStep hstart m).finished (h.quiet hstart m) ih.1
      exact ⟨hnext, hempty ih.2⟩

end FairRun

/-! ## There are fair runs -/

/-- A step of a scheduler that lets the threads finish first, and the loop go on then. -/
structure Scheduling (c c' : SimConfig) : Prop where
  step : SimStep Internal c c'
  undisturbed : c'.Undisturbed
  progress : work c'.broker < work c.broker ∨
    c.Finished ∧ c'.broker = c.broker ∧
      (c'.phase ≠ c.phase ∨ c'.pm.tradeConfirmationsQ.length < c.pm.tradeConfirmationsQ.length)

/-- The loop can always go on. -/
theorem exists_loopStep (hc : c.Quiet) (hd : c.Undisturbed) :
    ∃ c', SimStep Internal c c' ∧ c'.Undisturbed ∧ c'.broker = c.broker ∧
      (c'.phase ≠ c.phase ∨
        c'.pm.tradeConfirmationsQ.length < c.pm.tradeConfirmationsQ.length) := by
  obtain ⟨phase, flag, pm, b⟩ := c
  obtain ⟨hq, rfl⟩ : pm.targetUpdatesQ = [] ∧ flag = false := hd
  cases phase with
  | testing => exact ⟨_, .enterLoop pm b, ⟨hq, rfl⟩, rfl, Or.inl nofun⟩
  | stopping => exact absurd rfl hc.inLoop.1
  | returned => exact absurd rfl hc.inLoop.2
  | looping phase =>
      cases phase with
      | confirmations affected =>
          cases hconfs : pm.tradeConfirmationsQ with
          | nil => exact ⟨_, .confirmationsDone affected false pm b hconfs, ⟨hq, rfl⟩, rfl, Or.inl nofun⟩
          | cons conf rest =>
              refine ⟨_, .takeConfirmation affected false pm b hconfs, ⟨?_, rfl⟩, rfl, Or.inr ?_⟩
              · simpa using hq
              · simp
      | targets fromTrades affected =>
          exact ⟨_, .targetsDone fromTrades affected false pm b hq, ⟨hq, rfl⟩, rfl, Or.inl nofun⟩
      | reconciling left =>
          rcases left.eq_empty_or_nonempty with rfl | ⟨symbol, hmem⟩
          · exact ⟨_, .iterationDone false pm b, ⟨hq, rfl⟩, rfl, Or.inl nofun⟩
          · obtain ⟨newId, hnew⟩ := Infinite.exists_notMem_finset (clientIds b).toFinset
            have hunplaced : Unplaced newId b := by
              rw [unplaced_iff]
              simpa using hnew
            refine ⟨_, .reconcile false symbol newId [] hmem hunplaced (by simp)
              (reconcileSymbol_of_onTarget scheduled (hc.onTarget symbol) newId), ⟨hq, rfl⟩, rfl,
              Or.inl ?_⟩
            intro hsame
            have herase : left.erase symbol = left := by simpa using hsame
            rw [Finset.erase_eq_self] at herase
            exact herase hmem

/-- Where nobody disturbs there is a next step. -/
theorem exists_scheduling (hc : c.Quiet) (hd : c.Undisturbed) : ∃ c', Scheduling c c' := by
  by_cases hfinished : c.Finished
  · obtain ⟨c', hstep, hd', hbroker, hprogress⟩ := exists_loopStep hc hd
    exact ⟨c', hstep, hd', Or.inr ⟨hfinished, hbroker, hprogress⟩⟩
  · simp only [SimConfig.Finished, not_forall] at hfinished
    obtain ⟨o, ho, hunfinished⟩ := hfinished
    obtain ⟨i, hi⟩ := List.mem_iff_getElem?.mp ho
    refine ⟨_, .event c (.thread i 0) trivial, hd, Or.inl ?_⟩
    change ((threadStep i 0 c.shared).2.orders.map workOf).sum < work c.broker
    rw [orders_threadStep]
    exact sum_map_modify_lt hi
      (workOf_move_lt (hc.tracked.orderly.sound.order hi) (by simpa using hunfinished) 0)

/-- **Fair runs exist**, from wherever a run can start. -/
theorem Starts.exists_fairRun (h : Starts c) : ∃ ω, ω 0 = c ∧ FairRun ω := by
  have hnext : ∀ x : {c : SimConfig // c.Quiet ∧ c.Undisturbed},
      ∃ y : {c : SimConfig // c.Quiet ∧ c.Undisturbed}, Scheduling x.1 y.1 := by
    rintro ⟨c, hc, hd⟩
    obtain ⟨c', hscheduling⟩ := exists_scheduling hc hd
    have hd' := hscheduling.undisturbed
    exact ⟨⟨c', (hscheduling.step.quiet hc hd hd').2, hd'⟩, hscheduling⟩
  choose next hscheduling using hnext
  obtain ⟨run, hrun₀, hrun⟩ : ∃ run : ℕ → {c : SimConfig // c.Quiet ∧ c.Undisturbed},
      (run 0).1 = c ∧ ∀ n, Scheduling (run n).1 (run (n + 1)).1 :=
    ⟨fun n => next^[n] ⟨c, h.quiet, h.undisturbed⟩, rfl, fun n => by
      dsimp only
      rw [Function.iterate_succ_apply']
      exact hscheduling _⟩
  refine ⟨fun n => (run n).1, hrun₀, fun n => (hrun n).step, fun n => (run n).2.2, ?_, ?_⟩
  · intro n i o ho hunfinished
    obtain ⟨m, hnm, hfinished⟩ := exists_of_rank (fun n => (run n).1.Finished)
      (fun n => work (run n).1.broker)
      (fun n => (hrun n).progress.elim (fun hlt => ⟨n + 1, Nat.le_succ n, Or.inr hlt⟩)
        fun hfinished => ⟨n, le_rfl, Or.inl hfinished.1⟩) n
    refine ⟨m, hnm, fun hm => ?_⟩
    rw [hfinished o (List.mem_of_getElem? hm)] at hunfinished
    cases hunfinished
  · intro n
    refine exists_of_rank (fun m => (run m).1.phase ≠ (run n).1.phase)
      (fun m => toLex (work (run m).1.broker, (run m).1.pm.tradeConfirmationsQ.length))
      (fun m => ?_) n
    rcases (hrun m).progress with hlt | ⟨-, hbroker, hphase | hlt⟩
    · exact ⟨m + 1, Nat.le_succ m, Or.inr (Prod.Lex.toLex_lt_toLex.mpr (Or.inl hlt))⟩
    · by_cases hsame : (run m).1.phase = (run n).1.phase
      · exact ⟨m + 1, Nat.le_succ m, Or.inl (hsame ▸ hphase)⟩
      · exact ⟨m, le_rfl, Or.inl hsame⟩
    · refine ⟨m + 1, Nat.le_succ m, Or.inr (Prod.Lex.toLex_lt_toLex.mpr (Or.inr ⟨?_, hlt⟩))⟩
      exact congrArg work hbroker

/-- **Left alone, the system settles.** From between any two iterations of a run, with no
outstanding order being cancelled, there are fair runs, and in every one of them the loop makes no
request of the broker, all working positions stay on target, and from some step on every position
is its target and no order is live. -/
theorem undisturbed_settles (h : Starts c) :
    (∃ ω, ω 0 = c ∧ FairRun ω) ∧ ∀ ω, ω 0 = c → FairRun ω →
      (∀ n, requests (ω n).broker = requests c.broker ∧
        ∀ s, calculateWorkingPosition (ω n).pm s = c.pm.targetPositions.getD s 0) ∧
      ∃ n, ∀ m, n ≤ m → (ω m).pm.liveOrders = ∅ ∧
        ∀ s, (ω m).pm.positions.getD s 0 = c.pm.targetPositions.getD s 0 := by
  refine ⟨h.exists_fairRun, ?_⟩
  rintro ω rfl hω
  have hquiet := hω.quiet h.quiet
  have hworking : ∀ n s, calculateWorkingPosition (ω n).pm s =
      (ω 0).pm.targetPositions.getD s 0 := by
    intro n s
    have htargets : (ω n).pm.targetPositions = (ω 0).pm.targetPositions :=
      hω.eq_zero (f := fun c => c.pm.targetPositions) h.quiet QuietStep.targetPositions_eq n
    rw [← htargets]
    exact (hquiet n).onTarget s
  refine ⟨fun n => ⟨hω.eq_zero (f := fun c => requests c.broker) h.quiet
    QuietStep.requests_eq n, hworking n⟩, ?_⟩
  obtain ⟨n, hn⟩ := hω.exists_rest h.quiet
  refine ⟨n, fun m hnm => ?_⟩
  obtain ⟨hfinished, hq⟩ := hn m hnm
  obtain ⟨hlive, hposition⟩ := (hquiet m).tracked.of_nil (outstanding_eq_nil hq hfinished)
  exact ⟨hlive, fun s => (hposition s).symm.trans (hworking m s)⟩

/-- A fair run may start once the order is partly filled. -/
theorem starts_partlyFilled : Starts partlyFilled where
  reached := reaches_partlyFilled fun _ _ => trivial
  phase := rfl
  undisturbed := ⟨rfl, rfl⟩
  uncancelled := by
    intro o ho _
    have hall : ∀ o ∈ partlyFilled.broker.orders, o.cancelling = false := by decide
    exact hall o ho

/-- An order of 20 with 1 filled is filled up, and nothing else is ordered. -/
theorem undisturbed_settles_partlyFilled : ∃ ω, ω 0 = partlyFilled ∧ FairRun ω ∧
    (∀ n, (requests (ω n).broker).length = 1) ∧
    ∃ n, ∀ m, n ≤ m → (ω m).pm.positions.getD "AMD" 0 = 20 := by
  obtain ⟨⟨ω, hstart, hω⟩, hall⟩ := undisturbed_settles starts_partlyFilled
  obtain ⟨hrequests, n, hn⟩ := hall ω hstart hω
  refine ⟨ω, hstart, hω, fun m => ?_, n, fun m hnm => ?_⟩
  · rw [(hrequests m).1]
    decide
  · rw [(hn m hnm).2 "AMD"]
    decide

end FlowManager.System
