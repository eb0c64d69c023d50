import FlowManager.Strategy.Replays
import FlowManager.System.Retargeting

/-!
# What a replay settles on

Once the last target of a one-way log has been sent, the main thread waits. Wherever the loop and
the order threads are then, if none of them waits for ever the loop takes the targets that are left
and gets back to the test of its flag (`WaitingRun.exists_paused`), and from there on the system
settles (`System/Settling.lean`): every position ends on the last target of the log
(`replay_settles_on_last_targets`).
-/

namespace FlowManager.Strategy

open FlowManager.Lib FlowManager.Broker FlowManager.Position FlowManager.System
open FlowManager.Broker.Simulated

variable {log : List EventData} {main : MainPlace} {up : String → Bool} {sim sim' : SimConfig}
  {ω : ℕ → SimConfig}

/-- An endless run of the loop and the order threads while the main thread does nothing, in which
none of them waits for ever. -/
structure WaitingRun (ω : ℕ → SimConfig) : Prop where
  step : ∀ n, SystemStep (ω n) (ω (n + 1))
  /-- A thread that has not finished goes on. -/
  thread : ∀ (n i : ℕ) (o : SimulatedOrder), (ω n).broker.orders[i]? = some o →
    o.isFinished = false → ∃ m, n ≤ m ∧ (ω m).broker.orders[i]? ≠ some o
  /-- The loop goes on. -/
  loop : ∀ n, ∃ m, n ≤ m ∧ (ω m).phase ≠ (ω n).phase

/-- The loop is between two iterations, and has taken all targets. -/
def Paused (sim : SimConfig) : Prop := sim.phase = .testing ∧ sim.pm.targetUpdatesQ = []

/-! ## How far it is to the pause -/

/-- The places of the loop up to the one where targets are taken; once they have been taken, up to
the end of the iteration. -/
def placesLeft (taken : Prop) [Decidable taken] : RunPhase → ℕ
  | .testing => 2
  | .looping (.confirmations _) => if taken then 5 else 1
  | .looping (.targets _ _) => if taken then 4 else 0
  | .looping (.reconciling _) => 3
  | .stopping | .returned => 0

/-- What the loop can do at its place at most. -/
def workAt (ks : List Ticket) : RunPhase → ℕ
  | .looping (.confirmations _) => ks.length
  | .looping (.reconciling left) => left.card
  | .testing | .looping (.targets _ _) | .stopping | .returned => 0

/-- What is left to do before the pause. -/
def distance (sim : SimConfig) : ℕ ×ₗ ℕ ×ₗ ℕ :=
  toLex (sim.pm.targetUpdatesQ.length, toLex (placesLeft (sim.pm.targetUpdatesQ = []) sim.phase,
    workAt (outstanding sim.shared) sim.phase))

/-- A target is taken. -/
theorem distance_lt_of_queue (h : sim'.pm.targetUpdatesQ.length < sim.pm.targetUpdatesQ.length) :
    distance sim' < distance sim :=
  Prod.Lex.toLex_lt_toLex.mpr (Or.inl h)

/-- The loop goes to a place that is nearer. -/
theorem distance_lt_of_place (hq : sim'.pm.targetUpdatesQ = sim.pm.targetUpdatesQ)
    (h : placesLeft (sim.pm.targetUpdatesQ = []) sim'.phase <
      placesLeft (sim.pm.targetUpdatesQ = []) sim.phase) : distance sim' < distance sim := by
  unfold distance
  rw [hq]
  exact Prod.Lex.toLex_lt_toLex.mpr (Or.inr ⟨rfl, Prod.Lex.toLex_lt_toLex.mpr (Or.inl h)⟩)

/-- The loop does some of the work at its place. -/
theorem distance_lt_of_work (hq : sim'.pm.targetUpdatesQ = sim.pm.targetUpdatesQ)
    (hplace : placesLeft (sim.pm.targetUpdatesQ = []) sim'.phase =
      placesLeft (sim.pm.targetUpdatesQ = []) sim.phase)
    (h : workAt (outstanding sim'.shared) sim'.phase <
      workAt (outstanding sim.shared) sim.phase) : distance sim' < distance sim := by
  unfold distance
  rw [hq, hplace]
  exact Prod.Lex.toLex_lt_toLex.mpr (Or.inr ⟨rfl, Prod.Lex.toLex_lt_toLex.mpr (Or.inr ⟨rfl, h⟩)⟩)

/-- The loop takes a confirmation. -/
theorem distance_takeConfirmation {conf : TradeConfirmationMessage}
    {rest : List TradeConfirmationMessage} {affected : Finset String} {flag : Bool}
    {pm : PositionManager} {b : SimulatedBroker}
    (hc : SimConfig.Tracked ⟨.looping (.confirmations affected), flag, pm, b⟩)
    (hconfs : pm.tradeConfirmationsQ = conf :: rest) :
    distance ⟨.looping (.confirmations (insert conf.symbol affected)), flag,
        processConfirmation conf { pm with tradeConfirmationsQ := rest }, b⟩ <
      distance ⟨.looping (.confirmations affected), flag, pm, b⟩ := by
  have horderly : Orderly (conf :: rest, b) := by
    have horderly := hc.orderly
    rwa [SimConfig.shared, hconfs] at horderly
  have hqueued : conf ∈ (conf :: rest, b).1 := List.mem_cons_self
  obtain ⟨k, hk, hid, -⟩ := horderly.outstanding_of_queued hqueued
  refine distance_lt_of_work (processConfirmation_targetUpdatesQ _) rfl ?_
  change (outstanding (_, b)).length < (outstanding (pm.tradeConfirmationsQ, b)).length
  rw [processConfirmation_tradeConfirmationsQ, hconfs, horderly.outstanding_taken]
  exact List.length_filter_lt_length_iff_exists.mpr ⟨k, hk, by simp [hid]⟩

/-- The loop reconciles a symbol. -/
theorem distance_reconcile {left : Finset String} {symbol : String} {flag : Bool}
    {pm pm' : PositionManager} {b b' : SimulatedBroker} (hmem : symbol ∈ left)
    (hq : pm'.targetUpdatesQ = pm.targetUpdatesQ) :
    distance ⟨.looping (.reconciling (left.erase symbol)), flag, pm', b'⟩ <
      distance ⟨.looping (.reconciling left), flag, pm, b⟩ :=
  distance_lt_of_work hq rfl (Finset.card_erase_lt_of_mem hmem)

/-- The loop runs as long as its flag is clear. -/
def InLoop (sim : SimConfig) : Prop :=
  sim.terminateFlag = false ∧ sim.phase ≠ .stopping ∧ sim.phase ≠ .returned

/-- A step of the system leaves the loop running. -/
theorem SystemStep.inLoop (h : SystemStep sim sim') (hin : InLoop sim) : InLoop sim' := by
  refine ⟨h.flag.trans hin.1, ?_⟩
  obtain ⟨hflag, hstopping, hreturned⟩ := hin
  cases h.step with
  | event | targetArrives | terminate => exact ⟨hstopping, hreturned⟩
  | enterLoop | takeConfirmation | confirmationsDone | takeTarget | targetsDone | reconcile
  | iterationDone => exact ⟨nofun, nofun⟩
  | leaveLoop => cases hflag
  | stop => exact absurd rfl hstopping

/-- **No step leads away from the pause**: it brings the loop nearer, or leaves it where it is. -/
theorem SystemStep.distance_le (h : SystemStep sim sim') (hc : sim.Tracked) (hin : InLoop sim) :
    Paused sim ∨ distance sim' < distance sim ∨
      (sim'.phase = sim.phase ∧ distance sim' = distance sim) := by
  have htargets := h.targets
  have hflag := h.flag
  cases h.step with
  | event _ e he =>
      refine Or.inr (Or.inr ⟨rfl, ?_⟩)
      have houtstanding : outstanding (sim.setShared (e.apply sim.shared)).shared =
          outstanding sim.shared := (continues_apply he.notSubmit hc.orderly).outstanding
      unfold distance
      rw [houtstanding]
      rfl
  | targetArrives _ symbol targetAmount =>
      have hlength := htargets.length_le
      simp [updateTargetPosition] at hlength
  | terminate => exact absurd (hflag.trans hin.1) Bool.noConfusion
  | enterLoop pm b =>
      by_cases hq : pm.targetUpdatesQ = []
      · exact Or.inl ⟨rfl, hq⟩
      · exact Or.inr (Or.inl (distance_lt_of_place rfl (by simp [placesLeft, hq])))
  | takeConfirmation affected flag pm b hconfs =>
      exact Or.inr (Or.inl (distance_takeConfirmation hc hconfs))
  | confirmationsDone affected flag pm b =>
      refine Or.inr (Or.inl (distance_lt_of_place rfl ?_))
      by_cases hq : pm.targetUpdatesQ = [] <;> simp [placesLeft, hq]
  | takeTarget fromTrades affected flag pm b hq =>
      exact Or.inr (Or.inl (distance_lt_of_queue (by simp [processTargetUpdate, hq])))
  | targetsDone fromTrades affected flag pm b hq =>
      exact Or.inr (Or.inl (distance_lt_of_place rfl (by simp [placesLeft, hq])))
  | @reconcile pm b w' left flag symbol newId schedule hmem _ _ hrun =>
      have hqueue : w'.pm.targetUpdatesQ = pm.targetUpdatesQ :=
        Proc.wp.returned (keeps_reconcileSymbol scheduled symbol newId _ rfl) hrun
      exact Or.inr (Or.inl (distance_reconcile hmem hqueue))
  | iterationDone flag pm b =>
      exact Or.inr (Or.inl (distance_lt_of_place rfl (by simp [placesLeft])))
  | leaveLoop => exact absurd hin.1 Bool.noConfusion
  | stop => exact absurd rfl hin.2.1

/-! ## The loop can go on -/

/-- Reconciling a symbol in its direction returns. -/
theorem Directed.exists_reconciled {unsent : List (String × ℤ)} (h : Directed up unsent sim)
    (hc : sim.Tracked) (symbol : String) : ∃ newId w', Unplaced newId sim.broker ∧
      (reconcileSymbol scheduled symbol newId).run ⟨sim.pm, ⟨sim.broker, []⟩⟩ =
        .returned () w' := by
  obtain ⟨newId, hnew⟩ := Infinite.exists_notMem_finset (clientIds sim.broker).toFinset
  have hnew' : newId ∉ clientIds sim.broker := by simpa using hnew
  refine ⟨newId, ?_⟩
  by_cases hon : sim.pm.OnTarget symbol
  · exact ⟨_, unplaced_iff.mpr hnew', reconcileSymbol_of_onTarget scheduled hon newId⟩
  · have hdelta : sim.pm.targetPositions.getD symbol 0 -
        calculateWorkingPosition sim.pm symbol ≠ 0 := fun hzero => hon (sub_eq_zero.mp hzero).symm
    have hside := (h.toward symbol).side_eq (mul_bsInt_pos hdelta)
    have hnone : (cancelOpposing scheduled (decide (0 < sim.pm.targetPositions.getD symbol 0 -
        calculateWorkingPosition sim.pm symbol)) (sim.pm.index symbol)).run
          ⟨sim.pm, ⟨sim.broker, []⟩⟩ = .returned () ⟨sim.pm, ⟨sim.broker, []⟩⟩ := by
      refine cancelOpposing_of_not_opposes scheduled _ _ fun id hid d hd => ?_
      rw [hside]
      simp [opposes, h.live hc hid hd]
    have hlive : sim.broker.liveOrders.lookup newId = none := by
      rw [Option.eq_none_iff_forall_ne_some]
      exact fun i hi => hnew' (hc.orderly.unduplicated.live hi)
    exact ⟨_, unplaced_iff.mpr hnew', run_reconcileSymbol rfl hdelta hnone hlive⟩

/-- **The loop can always come nearer to the pause.** -/
theorem exists_nearer {unsent : List (String × ℤ)} (h : Directed up unsent sim) (hc : sim.Tracked)
    (hin : InLoop sim) (hpaused : ¬Paused sim) :
    ∃ sim', SystemStep sim sim' ∧ distance sim' < distance sim := by
  obtain ⟨phase, flag, pm, b⟩ := sim
  obtain ⟨rfl, hstopping, hreturned⟩ : flag = false ∧ phase ≠ .stopping ∧ phase ≠ .returned := hin
  cases phase with
  | stopping => exact absurd rfl hstopping
  | returned => exact absurd rfl hreturned
  | testing =>
      have hq : pm.targetUpdatesQ ≠ [] := fun hq => hpaused ⟨rfl, hq⟩
      exact ⟨_, ⟨.enterLoop pm b, List.suffix_rfl, rfl⟩,
        distance_lt_of_place rfl (by simp [placesLeft, hq])⟩
  | looping phase =>
      cases phase with
      | confirmations affected =>
          cases hconfs : pm.tradeConfirmationsQ with
          | cons conf rest =>
              refine ⟨_, ⟨.takeConfirmation affected false pm b hconfs, ?_, rfl⟩,
                distance_takeConfirmation hc hconfs⟩
              rw [processConfirmation_targetUpdatesQ]
          | nil =>
              refine ⟨_, ⟨.confirmationsDone affected false pm b hconfs, List.suffix_rfl, rfl⟩,
                distance_lt_of_place rfl ?_⟩
              by_cases hq : pm.targetUpdatesQ = [] <;> simp [placesLeft, hq]
      | targets fromTrades affected =>
          cases hq : pm.targetUpdatesQ with
          | cons update rest =>
              refine ⟨_, ⟨.takeTarget fromTrades affected false pm b hq, ?_, rfl⟩,
                distance_lt_of_queue (by simp [processTargetUpdate, hq])⟩
              dsimp only [processTargetUpdate]
              rw [hq]
              exact List.suffix_cons _ _
          | nil =>
              exact ⟨_, ⟨.targetsDone fromTrades affected false pm b hq, List.suffix_rfl, rfl⟩,
                distance_lt_of_place rfl (by simp [placesLeft, hq])⟩
      | reconciling left =>
          rcases left.eq_empty_or_nonempty with rfl | ⟨symbol, hmem⟩
          · exact ⟨_, ⟨.iterationDone false pm b, List.suffix_rfl, rfl⟩,
              distance_lt_of_place rfl (by simp [placesLeft])⟩
          · obtain ⟨newId, w', hnew, hrun⟩ := h.exists_reconciled hc symbol
            have hqueue : w'.pm.targetUpdatesQ = pm.targetUpdatesQ :=
              Proc.wp.returned (keeps_reconcileSymbol scheduled symbol newId _ rfl) hrun
            exact ⟨_, ⟨.reconcile false symbol newId [] hmem hnew (by simp) hrun,
              hqueue ▸ List.suffix_rfl, rfl⟩, distance_reconcile hmem hqueue⟩

/-! ## Runs of a waiting strategy -/

/-- The state of a replay that has sent its last target, with the loop running. -/
structure Waits (up : String → Bool) (log : List EventData) (main : MainPlace) (sim : SimConfig) :
    Prop where
  replayed : Replayed up log ⟨main, sim⟩
  unsent : main.unsent = []
  inLoop : InLoop sim

namespace Waits

/-- A step of the system keeps the waiting. -/
theorem step (h : Waits up log main sim) (hstep : SystemStep sim sim') : Waits up log main sim' :=
  ⟨h.replayed.system hstep, h.unsent, hstep.inLoop h.inLoop⟩

/-- While the main thread waits, everything goes one way. -/
theorem directed (h : Waits up log main sim) : Directed up [] sim := by
  have hdirected := h.replayed.directed h.inLoop.2.2
  rwa [h.unsent] at hdirected

/-- At the pause the system is left alone. -/
theorem starts (h : Waits up log main sim) (hpaused : Paused sim) : Starts sim :=
  ⟨h.replayed.reached, hpaused.1, ⟨hpaused.2, h.inLoop.1⟩, h.directed.uncancelled⟩

/-- Once the queue is empty, the targets are the last ones of the log. -/
theorem target_eq (h : Waits up log main sim) (hq : sim.pm.targetUpdatesQ = []) (s : String) :
    sim.pm.targetPositions.getD s 0 = lastTarget (updatesOf log) s := by
  have hsent := h.replayed.sent s
  dsimp only at hsent
  rwa [hq, h.unsent] at hsent

end Waits

namespace WaitingRun

/-- **In every state of a waiting run** the main thread waits. -/
theorem waits (h : WaitingRun ω) (hstart : Waits up log main (ω 0)) : ∀ n, Waits up log main (ω n)
  | 0 => hstart
  | n + 1 => (h.waits hstart n).step (h.step n)

/-- The loop comes to the pause. -/
theorem exists_paused (h : WaitingRun ω) (hstart : Waits up log main (ω 0)) :
    ∃ n, Paused (ω n) := by
  obtain ⟨n, -, hn⟩ := exists_of_fair (fun n => Paused (ω n)) (fun n => distance (ω n))
    (fun n => (ω n).phase)
    (fun n => by
      have hwaits := h.waits hstart n
      rcases (h.step n).distance_le hwaits.replayed.reached.tracked hwaits.inLoop with
        hpaused | hlt | ⟨hphase, hsame⟩
      · exact Or.inl hpaused
      · exact Or.inr ⟨hlt.le, Or.inr hlt⟩
      · exact Or.inr ⟨hsame.le, Or.inl hphase⟩)
    (fun n _ => h.loop n) 0
  exact ⟨n, hn⟩

/-- An empty queue of targets stays empty. -/
theorem queue_eq (h : WaitingRun ω) {n m : ℕ} (hnm : n ≤ m) (hq : (ω n).pm.targetUpdatesQ = []) :
    (ω m).pm.targetUpdatesQ = [] := by
  induction m, hnm using Nat.le_induction with
  | base => exact hq
  | succ m _ ih =>
      have htargets := (h.step m).targets
      rwa [ih, List.suffix_nil] at htargets

/-- From the pause on nobody disturbs the run. -/
theorem fairRun (h : WaitingRun ω) (hstart : Waits up log main (ω 0)) {n : ℕ}
    (hpaused : Paused (ω n)) : FairRun fun m => ω (n + m) := by
  refine ⟨fun m => (h.step (n + m)).step, fun m => ⟨h.queue_eq (Nat.le_add_right n m) hpaused.2,
    (h.waits hstart (n + m)).inLoop.1⟩, fun m i o ho hunfinished => ?_, fun m => ?_⟩
  · obtain ⟨k, hk, hne⟩ := h.thread (n + m) i o ho hunfinished
    refine ⟨k - n, by omega, ?_⟩
    rwa [Nat.add_sub_cancel' (by omega)]
  · obtain ⟨k, hk, hne⟩ := h.loop (n + m)
    refine ⟨k - n, by omega, ?_⟩
    rwa [Nat.add_sub_cancel' (by omega)]

/-- A fair run can be preceded by a step. -/
theorem cons (h : WaitingRun ω) (hstep : SystemStep sim (ω 0)) :
    WaitingRun fun n => n.casesOn sim ω := by
  refine ⟨?_, ?_, ?_⟩
  · rintro (_ | n)
    · exact hstep
    · exact h.step n
  · rintro (_ | n) i o ho hunfinished
    · by_cases hsame : (ω 0).broker.orders[i]? = some o
      · obtain ⟨m, -, hm⟩ := h.thread 0 i o hsame hunfinished
        exact ⟨m + 1, Nat.zero_le _, hm⟩
      · exact ⟨1, Nat.zero_le _, hsame⟩
    · obtain ⟨m, hnm, hm⟩ := h.thread n i o ho hunfinished
      exact ⟨m + 1, Nat.succ_le_succ hnm, hm⟩
  · rintro (_ | n)
    · by_cases hsame : (ω 0).phase = sim.phase
      · obtain ⟨m, -, hm⟩ := h.loop 0
        exact ⟨m + 1, Nat.zero_le _, fun heq => hm (heq.trans hsame.symm)⟩
      · exact ⟨1, Nat.zero_le _, hsame⟩
    · obtain ⟨m, hnm, hm⟩ := h.loop n
      exact ⟨m + 1, Nat.succ_le_succ hnm, hm⟩

end WaitingRun

/-- A run that nobody disturbs is one of a waiting strategy. -/
theorem waitingRun_of_fairRun (h : FairRun ω) : WaitingRun ω := by
  refine ⟨fun n => ⟨h.step n, ?_, ?_⟩, h.thread, h.loop⟩
  · rw [(h.undisturbed n).1, (h.undisturbed (n + 1)).1]
  · rw [(h.undisturbed n).2, (h.undisturbed (n + 1)).2]

/-- **Fair runs exist**, from wherever the replay has sent its last target. -/
theorem Waits.exists_waitingRun (h : Waits up log main sim) : ∃ ω, ω 0 = sim ∧ WaitingRun ω := by
  induction hr : distance sim using WellFoundedLT.induction generalizing sim with
  | ind r ih =>
      by_cases hpaused : Paused sim
      · obtain ⟨ω, hω₀, hω⟩ := (h.starts hpaused).exists_fairRun
        exact ⟨ω, hω₀, waitingRun_of_fairRun hω⟩
      · obtain ⟨sim', hstep, hlt⟩ := exists_nearer h.directed h.replayed.reached.tracked h.inLoop
          hpaused
        obtain ⟨ω, rfl, hω⟩ := ih (distance sim') (hr ▸ hlt) (h.step hstep) rfl
        exact ⟨_, rfl, hω.cons hstep⟩

/-- With its flag clear the loop has not been left. -/
theorem inLoop_of_reaches (h : SimReaches NotSubmit .init sim) (hflag : sim.terminateFlag = false) :
    InLoop sim := by
  have hleft : sim.phase = .stopping ∨ sim.phase = .returned → sim.terminateFlag = true := by
    clear hflag
    induction h with
    | refl => exact fun h => h.elim nofun nofun
    | tail _ hstep ih =>
        cases hstep with
        | event | targetArrives => exact ih
        | terminate | leaveLoop => exact fun _ => rfl
        | stop => exact fun _ => ih (Or.inl rfl)
        | enterLoop | takeConfirmation | confirmationsDone | takeTarget | targetsDone | reconcile
        | iterationDone => exact fun h => h.elim nofun nofun
  refine ⟨hflag, fun hphase => ?_, fun hphase => ?_⟩
  · exact Bool.false_ne_true (hflag.symm.trans (hleft (Or.inl hphase)))
  · exact Bool.false_ne_true (hflag.symm.trans (hleft (Or.inr hphase)))

/-- **A one-way replay settles on the last targets of its log.** Once no event that is left sends a
target, from wherever the loop and the order threads are there are runs in which none of them waits
for ever while the main thread waits, and in every such run from some step on no order is live and
no request is made, and every position is the last target of its symbol. -/
theorem replay_settles_on_last_targets {events : List EventData}
    (h : RunnerReaches log ⟨.replaying events, sim⟩) (hone : OneWay log)
    (hsent : updatesOf events = []) :
    (∃ ω, ω 0 = sim ∧ WaitingRun ω) ∧ ∀ ω, ω 0 = sim → WaitingRun ω →
      ∃ n, ∀ m, n ≤ m → (ω m).pm.liveOrders = ∅ ∧
        requests (ω m).broker = requests (ω n).broker ∧
        ∀ s, (ω m).pm.positions.getD s 0 = lastTarget (updatesOf log) s := by
  obtain ⟨up, hreplayed⟩ := h.replayed hone
  have hflag : sim.terminateFlag = false := by
    cases hset : sim.terminateFlag with
    | false => rfl
    | true => cases hreplayed.flag hset
  have hwaits : Waits up log (.replaying events) sim :=
    ⟨hreplayed, hsent, inLoop_of_reaches hreplayed.reached hflag⟩
  refine ⟨hwaits.exists_waitingRun, ?_⟩
  rintro ω rfl hω
  obtain ⟨n, hpaused⟩ := hω.exists_paused hwaits
  have hfair := hω.fairRun hwaits hpaused
  have hquiet : ∀ m, (ω (n + m)).Quiet :=
    hfair.quiet ((hω.waits hwaits n).starts hpaused).quiet
  have hrequests : ∀ m, requests (ω (n + m)).broker = requests (ω n).broker :=
    hfair.eq_zero (f := fun c => requests c.broker) (hquiet 0) QuietStep.requests_eq
  obtain ⟨k, hk⟩ := hfair.exists_rest (hquiet 0)
  refine ⟨n + k, fun m hm => ?_⟩
  obtain ⟨d, rfl⟩ := Nat.exists_eq_add_of_le ((Nat.le_add_right n k).trans hm)
  obtain ⟨hfinished, hq⟩ := hk d (by omega)
  obtain ⟨hlive, hposition⟩ := (hquiet d).tracked.of_nil (outstanding_eq_nil hq hfinished)
  refine ⟨hlive, (hrequests d).trans (hrequests k).symm, fun s => ?_⟩
  rw [← hposition s, (hquiet d).onTarget s]
  exact (hω.waits hwaits (n + d)).target_eq (hfair.undisturbed d).1 s

/-- From when the target has just been sent, the position becomes 20. -/
theorem replay_settles_on_last_targets_twentyLog :
    ∃ ω, ω 0 = { SimConfig.init with pm := updateTargetPosition "AMD" 20 .init } ∧ WaitingRun ω ∧
      ∃ n, ∀ m, n ≤ m → (ω m).pm.positions.getD "AMD" 0 = 20 := by
  have hreaches : RunnerReaches twentyLog ⟨.replaying twentyLog.tail,
      { SimConfig.init with pm := updateTargetPosition "AMD" 20 .init }⟩ :=
    Relation.ReflTransGen.single (.main _)
  obtain ⟨⟨ω, hstart, hω⟩, hall⟩ :=
    replay_settles_on_last_targets hreaches oneWay_twentyLog (by decide)
  obtain ⟨n, hn⟩ := hall ω hstart hω
  refine ⟨ω, hstart, hω, n, fun m hnm => ?_⟩
  obtain ⟨-, -, hposition⟩ := hn m hnm
  rw [hposition "AMD"]
  decide

end FlowManager.Strategy
