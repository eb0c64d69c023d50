import FlowManager.Strategy.OneWayTargets

/-!
# No replay overshoots

Whatever the interleaving of the main thread, the loop and the order threads, the replay of a log
whose targets do not turn back cancels no order before the loop has been left. At any time, behind
the loop too, the position of a symbol, what has been filled of it, what has been ordered of it and
its last target lie one behind the other (`replay_never_overshoots`).
-/

namespace FlowManager.Strategy

open FlowManager.Lib FlowManager.Broker FlowManager.Position FlowManager.System
open FlowManager.Broker.Simulated

variable {log : List EventData} {c c' : Runner} {up : String → Bool} {s : String}
  {sim sim' : SimConfig} {updates unsent : List (String × ℤ)}

/-- The targets of each symbol move away from 0 in one direction. -/
def OneWay (log : List EventData) : Prop :=
  ∀ s, ∃ buying, (0 :: targetsFor s (updatesOf log)).Pairwise (Toward buying)

/-! ## Orders of one direction -/

/-- What is added in a direction goes in that direction. -/
theorem toward_zero_add {buying : Bool} {x y : ℤ} (h : Toward buying 0 y) :
    Toward buying x (x + y) := by
  unfold Toward at *
  rwa [add_sub_cancel_left, ← sub_zero y]

/-- Steps in a direction add up to a step in it. -/
theorem Toward.add {buying : Bool} {x x' y y' : ℤ} (h : Toward buying x y)
    (h' : Toward buying x' y') : Toward buying (x + x') (y + y') := by
  unfold Toward at *
  rw [add_sub_add_comm, add_mul]
  exact add_nonneg h h'

/-- Sums of steps in a direction are a step in it. -/
theorem Toward.sum {α : Type} {buying : Bool} {f g : α → ℤ} : ∀ {l : List α},
    (∀ a ∈ l, Toward buying (f a) (g a)) → Toward buying (l.map f).sum (l.map g).sum
  | [], _ => Toward.refl buying 0
  | _ :: _, h =>
      (h _ List.mem_cons_self).add (Toward.sum fun a ha => h a (List.mem_cons_of_mem _ ha))

/-- What is more in size lies further in the direction. -/
theorem toward_mul_bsInt (buying : Bool) {x y : ℤ} (h : x ≤ y) :
    Toward buying (x * bsInt buying) (y * bsInt buying) := by
  unfold Toward
  cases buying <;> simp only [bsInt_true, bsInt_false] <;> omega

/-- Every order is of the direction of its symbol, and none goes beyond the last target. -/
structure Capped (up : String → Bool) (updates : List (String × ℤ)) (b : SimulatedBroker) :
    Prop where
  sides : ∀ k ∈ tickets b, k.sideIsBuy = up k.symbol
  within : ∀ s, Toward (up s) (orderedOf s (tickets b)) (lastTarget updates s)

/-- The target after some updates is one of theirs, or as before. -/
theorem queuedTarget_mem (s : String) : ∀ (updates : List (String × ℤ)) (target : ℤ),
    queuedTarget s updates target ∈ target :: targetsFor s updates
  | [], target => List.mem_singleton.mpr rfl
  | update :: rest, target => by
      have hrest := queuedTarget_mem s rest (if update.1 = s then update.2 else target)
      rw [queuedTarget, targetsFor_cons]
      by_cases hs : update.1 = s
      · rw [if_pos hs] at hrest ⊢
        rw [if_pos hs]
        exact List.mem_cons_of_mem _ hrest
      · rw [if_neg hs] at hrest ⊢
        rwa [if_neg hs]

/-- While the targets go one way, no symbol is ordered past its last one. -/
theorem Directed.capped (h : Directed up unsent sim) (hsent : Sent updates unsent sim) :
    Capped up updates sim.broker := by
  constructor
  · intro k hk
    obtain ⟨o, ho, rfl⟩ := List.mem_map.mp hk
    exact (h.order ho).1
  · intro s
    rw [h.ordered, ← hsent s]
    exact (List.pairwise_cons.mp (h.path s)).1 _ (queuedTarget_mem s _ _)

namespace Capped

variable {b : SimulatedBroker}

/-- The cap depends on the tickets and on nothing else. -/
theorem of_tickets (h : Capped up updates b) {b' : SimulatedBroker} (hb : tickets b' = tickets b) :
    Capped up updates b' :=
  ⟨hb ▸ h.sides, hb ▸ h.within⟩

/-- What an order has filled is of its direction, and at most what it is for. -/
theorem order (h : Capped up updates b) (hsound : b.Sound) {o : SimulatedOrder} (ho : o ∈ b.orders)
    (hs : o.symbol = s) :
    Toward (up s) 0 o.signedFilled ∧ Toward (up s) o.signedFilled (ticket o).signed := by
  obtain ⟨i, hi⟩ := List.mem_iff_getElem?.mp ho
  have hside : o.buySell = up s := by
    rw [← hs]
    exact h.sides (ticket o) (List.mem_map_of_mem ho)
  have hnonneg := toward_mul_bsInt o.buySell (hsound.order hi).nonneg
  have hle := toward_mul_bsInt o.buySell (hsound.order hi).le
  rw [zero_mul] at hnonneg
  rw [← hside]
  exact ⟨hnonneg, hle⟩

/-- What orders have filled is of their direction. -/
theorem filledBy (h : Capped up updates b) (hsound : b.Sound) (s : String)
    (counts : SimulatedOrder → Bool) : Toward (up s) 0 (b.filledBy s counts) := by
  have hsum : Toward (up s) (b.orders.map fun _ => (0 : ℤ)).sum (b.filledBy s counts) := by
    refine Toward.sum fun o ho => ?_
    split_ifs with hs
    · exact (h.order hsound ho hs.1).1
    · exact Toward.refl _ _
  simpa using hsum

/-- What orders have filled is at most what they are for. -/
theorem filledBy_ordered (h : Capped up updates b) (hsound : b.Sound) (s : String) :
    Toward (up s) (b.filledBy s fun _ => true) (orderedOf s (tickets b)) := by
  unfold SimulatedBroker.filledBy orderedOf tickets
  rw [List.map_map]
  refine Toward.sum fun o ho => ?_
  by_cases hs : o.symbol = s
  · simpa [hs, ticket] using (h.order hsound ho hs).2
  · simpa [hs, ticket] using Toward.refl _ _

/-- What the queue holds is of the direction of its symbol. -/
theorem filledOf (h : Capped up updates b) (hsound : b.Sound) {q : List TradeConfirmationMessage}
    (hqueued : ∀ conf ∈ q, ∃ o ∈ b.orders, ConfirmationOf conf o) (s : String) :
    Toward (up s) 0 (filledOf s q) := by
  have hsum : Toward (up s) ((q.filter fun conf => conf.symbol = s).map fun _ => (0 : ℤ)).sum
      (Broker.filledOf s q) := by
    refine Toward.sum fun conf hconf => ?_
    obtain ⟨hmem, hs⟩ := List.mem_filter.mp hconf
    obtain ⟨o, ho, -, finalStatus, rfl, -, -⟩ := hqueued conf hmem
    exact (h.order hsound ho (of_decide_eq_true hs)).1
  simpa using hsum

end Capped

/-! ## Every run -/

/-- A step that stops the broker, or comes later, submits nothing. -/
theorem SystemStep.tickets_eq (h : SystemStep sim sim') (hphase : sim'.phase = .returned) :
    tickets sim'.broker = tickets sim.broker := by
  obtain ⟨hstep, -, -⟩ := h
  cases hstep with
  | event _ e he => exact tickets_congr (asked_apply he sim.shared)
  | targetArrives | terminate => rfl
  | stop flag pm b =>
      unfold tickets SimulatedBroker.stop
      rw [List.map_map]
      refine List.map_congr_left fun o _ => ?_
      rw [Function.comp_apply]
      split_ifs <;> rfl
  | enterLoop | takeConfirmation | confirmationsDone | takeTarget | targetsDone | reconcile
  | iterationDone | leaveLoop => cases hphase

/-- A step takes a confirmation from the queue, or leaves the positions. -/
theorem SystemStep.positions_cases (h : SystemStep sim sim') :
    sim'.pm.positions = sim.pm.positions ∨ ∃ conf ∈ sim.pm.tradeConfirmationsQ,
      ∀ s, sim'.pm.positions.getD s 0 = sim.pm.positions.getD s 0 + filledOf s [conf] := by
  obtain ⟨hstep, -, -⟩ := h
  cases hstep with
  | event | targetArrives | terminate | enterLoop | confirmationsDone | takeTarget | targetsDone
  | iterationDone | leaveLoop | stop => exact Or.inl rfl
  | reconcile flag symbol newId schedule _ _ _ hrun =>
      exact Or.inl (reconcileSymbol_returned hrun).positions
  | @takeConfirmation conf rest affected flag pm b hconfs =>
      refine Or.inr ⟨conf, by simp [hconfs], fun s => ?_⟩
      rw [processConfirmation_positions, filledOf_cons, filledOf_nil, add_zero]

/-- The invariant of the replay of a log. -/
structure Replayed (up : String → Bool) (log : List EventData) (c : Runner) : Prop where
  reached : SimReaches NotSubmit .init c.sim
  flag : c.sim.terminateFlag = true → c.main = .joining
  sent : Sent (updatesOf log) c.main.unsent c.sim
  directed : c.sim.phase ≠ .returned → Directed up c.main.unsent c.sim
  capped : Capped up (updatesOf log) c.sim.broker
  forward : ∀ s, Toward (up s) 0 (c.sim.pm.positions.getD s 0)

/-- A replay starts as one. -/
theorem replayed_init (hup : ∀ s, (0 :: targetsFor s (updatesOf log)).Pairwise (Toward (up s))) :
    Replayed up log (.init log) := by
  have hsent : Sent (updatesOf log) (updatesOf log) .init := fun _ => rfl
  have hdirected : Directed up (updatesOf log) .init := by
    refine ⟨by simp [asked, SimConfig.init, SimulatedBroker.init], fun _ => rfl, fun s => ?_⟩
    refine List.pairwise_cons.mpr ⟨fun x hx => ?_, hup s⟩
    rcases List.mem_cons.mp hx with rfl | hx
    · exact Toward.refl _ _
    · exact (List.pairwise_cons.mp (hup s)).1 x hx
  exact ⟨.refl, fun hset => absurd hset Bool.false_ne_true, hsent, fun _ => hdirected,
    hdirected.capped hsent, fun s => Toward.refl _ _⟩

/-- A step of the loop or of another thread. -/
theorem Replayed.system {main : MainPlace} (h : Replayed up log ⟨main, sim⟩)
    (hstep : SystemStep sim sim') : Replayed up log ⟨main, sim'⟩ := by
  have htracked := h.reached.tracked
  have hdirected : sim'.phase ≠ .returned → Directed up main.unsent sim' := fun hphase =>
    (h.directed fun hreturned => hphase (hstep.returned hreturned)).step htracked hstep hphase
  have hsent := h.sent.step hstep
  refine ⟨h.reached.tail (hstep.step.mono fun _ he => he.notSubmit), ?_, hsent, hdirected, ?_,
    fun s => ?_⟩
  · rw [hstep.flag]
    exact h.flag
  · by_cases hphase : sim'.phase = .returned
    · exact h.capped.of_tickets (hstep.tickets_eq hphase)
    · exact (hdirected hphase).capped hsent
  · rcases hstep.positions_cases with hsame | ⟨conf, hconf, hbooked⟩
    · rw [hsame]
      exact h.forward s
    · rw [hbooked]
      refine (h.forward s).trans (toward_zero_add ?_)
      refine h.capped.filledOf htracked.orderly.sound (fun conf' hconf' => ?_) s
      rw [List.mem_singleton.mp hconf']
      exact htracked.orderly.queued conf hconf

/-- A step of the main thread. -/
theorem Replayed.mainStep (h : Replayed up log c) : Replayed up log c.mainStep := by
  obtain ⟨hreached, hflag, hsent, hdirected, hcapped, hforward⟩ := h
  have hjoining : c.main = .joining → c.mainStep.main = .joining := fun hmain =>
    (congrArg Runner.main (mainStep_of_joining hmain)).trans hmain
  rcases mainStep_cases hflag with ⟨hsim, hunsent⟩ | ⟨symbol, target, hunsent, hsim⟩ |
    ⟨hmain, hunsent⟩
  · refine ⟨?_, ?_, ?_, ?_, ?_, ?_⟩ <;> rw [hsim]
    · exact hreached
    · exact fun h => hjoining (hflag h)
    · rwa [hunsent]
    · rwa [hunsent]
    · exact hcapped
    · exact hforward
  · rw [hunsent] at hsent hdirected
    refine ⟨?_, ?_, ?_, ?_, ?_, ?_⟩ <;> rw [hsim]
    · exact hreached.tail (.targetArrives c.sim symbol target)
    · exact fun h => hjoining (hflag h)
    · exact hsent.send
    · exact fun hphase => (hdirected hphase).send
    · exact hcapped
    · exact hforward
  · rw [hunsent] at hsent hdirected
    rw [hmain]
    exact ⟨hreached.tail (.terminate c.sim), fun _ => rfl, hsent,
      fun hphase => (hdirected hphase).of_same rfl (fun _ => rfl) rfl rfl, hcapped, hforward⟩

/-- **A step of the runner** keeps the replay. -/
theorem RunnerStep.replayed (h : RunnerStep c c') (hc : Replayed up log c) :
    Replayed up log c' := by
  cases h with
  | main => exact hc.mainStep
  | system _ hstep => exact hc.system hstep

/-- A one-way log has a direction for each symbol, which its replay keeps to. -/
theorem RunnerReaches.replayed (h : RunnerReaches log c) (hone : OneWay log) :
    ∃ up, Replayed up log c := by
  choose up hup using hone
  refine ⟨up, ?_⟩
  induction h with
  | refl => exact replayed_init hup
  | tail _ hstep ih => exact hstep.replayed ih

/-- **No replay of a one-way log overshoots.** Whatever the interleaving, no order is cancelled
until the broker is stopped; and at any time, for each symbol, all orders are of one direction, and
in that direction its position, what has been filled, what has been ordered and its last target lie
one behind the other. -/
theorem replay_never_overshoots (h : RunnerReaches log c) (hone : OneWay log) :
    (c.sim.phase ≠ .returned → ∀ o ∈ c.sim.broker.orders, o.cancelling = false) ∧
    ∀ s, ∃ buying, (∀ o ∈ c.sim.broker.orders, o.symbol = s → o.buySell = buying) ∧
      [0, c.sim.pm.positions.getD s 0, (c.sim.broker.filledBy s fun _ => true),
        orderedOf s (tickets c.sim.broker), lastTarget (updatesOf log) s].Pairwise
          (Toward buying) := by
  obtain ⟨up, hc⟩ := h.replayed hone
  refine ⟨fun hphase o ho => ((hc.directed hphase).order ho).2, fun s => ⟨up s, ?_, ?_⟩⟩
  · intro o ho hs
    rw [← hs]
    exact hc.capped.sides (ticket o) (List.mem_map_of_mem ho)
  · have haccounted := hc.reached.accounted_of_notSubmit
    have horderly := hc.reached.tracked.orderly
    have hfilled : c.sim.broker.filledBy s (fun _ => true) = c.sim.pm.positions.getD s 0 +
        (filledOf s c.sim.pm.tradeConfirmationsQ +
          c.sim.broker.filledBy s fun o => !o.isFinished) := by
      rw [← add_assoc, haccounted.booked, haccounted.sound.fills,
        SimulatedBroker.filledBy_add_not]
    have hbooked : Toward (up s) (c.sim.pm.positions.getD s 0)
        (c.sim.broker.filledBy s fun _ => true) := by
      rw [hfilled]
      exact toward_zero_add ((hc.capped.filledOf horderly.sound horderly.queued s).add
        (hc.capped.filledBy horderly.sound s _))
    have : IsTrans ℤ (Toward (up s)) := ⟨fun _ _ _ => Toward.trans⟩
    rw [← List.isChain_iff_pairwise]
    simp only [List.isChain_cons_cons, List.isChain_singleton, and_true]
    exact ⟨hc.forward s, hbooked, hc.capped.filledBy_ordered horderly.sound s, hc.capped.within s⟩

/-- A log that sets a target of 20 and waits a minute. -/
def twentyLog : List EventData :=
  [{ event := some "Target", symbol := some "AMD", target := some 20 },
    { event := some "Wait", seconds := .finite 60 }]

/-- The targets of the log go one way. -/
theorem oneWay_twentyLog : OneWay twentyLog := by
  intro s
  refine ⟨true, ?_⟩
  have hupdates : updatesOf twentyLog = [("AMD", 20)] := by decide
  rw [hupdates, targetsFor_cons]
  by_cases hs : "AMD" = s
  · rw [if_pos hs]
    exact List.pairwise_pair.mpr (by decide)
  · rw [if_neg hs]
    exact List.pairwise_singleton _ _

/-- The main thread waits, and 1 of 20 has been filled. -/
theorem reaches_partlyReplayed :
    RunnerReaches twentyLog ⟨.replaying twentyLog.tail, partlyFilled⟩ := by
  have hlive : ∀ e, MainPlace.replaying twentyLog.tail ≠ .raised e := nofun
  have hsystem : ∀ {sim sim' : SimConfig}, SystemStep sim sim' →
      RunnerStep ⟨.replaying twentyLog.tail, sim⟩ ⟨.replaying twentyLog.tail, sim'⟩ :=
    fun hstep => .system hlive hstep
  have hqueued : RunnerReaches twentyLog ⟨.replaying twentyLog.tail,
      ⟨.looping (.targets ∅ ∅), false, updateTargetPosition "AMD" 20 .init, .init⟩⟩ :=
    ((Relation.ReflTransGen.single (.main _)).tail
      (hsystem ⟨.enterLoop _ _, List.suffix_rfl, rfl⟩)).tail
      (hsystem ⟨.confirmationsDone _ _ _ _ rfl, List.suffix_rfl, rfl⟩)
  have htaken : RunnerReaches twentyLog ⟨.replaying twentyLog.tail,
      ⟨.looping (.reconciling (∅ ∪ insert "AMD" ∅)), false, targetTaken, .init⟩⟩ :=
    (hqueued.tail (hsystem
      ⟨@SimStep.takeTarget _ ("AMD", 20) [] _ _ _ _ _ rfl, List.nil_suffix, rfl⟩)).tail
      (hsystem ⟨.targetsDone _ _ _ _ _ rfl, List.suffix_rfl, rfl⟩)
  have hsubmitted : RunnerReaches twentyLog ⟨.replaying twentyLog.tail,
      ⟨.looping (.reconciling ∅), false, submitted.pm, submitted.broker.broker⟩⟩ :=
    htaken.tail (hsystem ⟨.reconcile false "AMD" "buy" [] (by decide)
      (by simp [Unplaced, SimulatedBroker.init]) (by simp) rfl, List.nil_suffix, rfl⟩)
  exact ((hsubmitted.tail (hsystem ⟨.iterationDone _ _ _, List.suffix_rfl, rfl⟩)).tail
    (hsystem ⟨.event _ (.thread 0 0) trivial, List.suffix_rfl, rfl⟩)).tail
    (hsystem ⟨.event _ (.thread 0 0) trivial, List.suffix_rfl, rfl⟩)

/-- 0 is booked, 1 filled, and 20 ordered. -/
theorem replay_never_overshoots_twentyLog :
    (∀ o ∈ partlyFilled.broker.orders, o.cancelling = false) ∧
      ∃ buying, [0, 0, 1, 20, 20].Pairwise (Toward buying) := by
  obtain ⟨hcancelling, hall⟩ := replay_never_overshoots reaches_partlyReplayed oneWay_twentyLog
  obtain ⟨buying, -, hpath⟩ := hall "AMD"
  have hvalues : [0, partlyFilled.pm.positions.getD "AMD" 0,
      (partlyFilled.broker.filledBy "AMD" fun _ => true),
      orderedOf "AMD" (tickets partlyFilled.broker), lastTarget (updatesOf twentyLog) "AMD"] =
        [0, 0, 1, 20, 20] := by decide
  exact ⟨hcancelling nofun, buying, hvalues ▸ hpath⟩

end FlowManager.Strategy
