import FlowManager.Book.Depth

/-!
# The calls, as the queues see them

`OnQueues` is what a call does, said of the two queues and of the number of order objects alone:
whether the id is in the queues decides if an order is taken, and the trades are those that placing
it makes. A call on a book is such a step (`CallStep.onQueues`) and there is only one
(`OnQueues.unique`). The snapshot shows them too (`Invariant.getOrderInfos`). So what holds of two
runs, one read into the other, is proved of the queues.
-/

namespace FlowManager.Book

open FlowManager.Lib FlowManager.Lib.PriceTime

/-- The id that a call names. -/
def Call.orderId : Call → OrderId
  | .addOrder o => o.orderId
  | .cancelOrder orderId => orderId

/-- The queues of a book, with the number of order objects. -/
structure QueueState where
  queues : Sides OrderTerms
  nextOrder : OrderPointer

/-- What a book shows of itself. -/
def Store.queueState (s : Store) : QueueState := ⟨s.sides, s.nextOrder⟩

/-- What a call does to the queues. -/
inductive OnQueues (q : QueueState) : Call → Answer → QueueState → Prop
  | refused (o : Order) : ¬ Unused q.queues o.orderId →
      OnQueues q (.addOrder o) (.added [] none) ⟨q.queues, q.nextOrder + 1⟩
  | taken (o : Order) (ts : Trades) : Unused q.queues o.orderId →
      List.Forall₂ Trade.Records ts
        (acceptOrder o.toOrderTerms o.remainingQuantity.toNat q.queues).fills →
      OnQueues q (.addOrder o) (.added ts (some q.nextOrder))
        ⟨(acceptOrder o.toOrderTerms o.remainingQuantity.toNat q.queues).sides, q.nextOrder + 1⟩
  | notFound (id : OrderId) : Unused q.queues id →
      OnQueues q (.cancelOrder id) (.cancelled false) q
  | withdrawn (id : OrderId) : ¬ Unused q.queues id →
      OnQueues q (.cancelOrder id) (.cancelled true) ⟨withdraw id q.queues, q.nextOrder⟩

/-- A run of calls on the queues. -/
inductive QueueRun : QueueState → List Call → List Answer → QueueState → Prop
  | nil (q : QueueState) : QueueRun q [] [] q
  | cons {q q' q'' : QueueState} {c : Call} {a : Answer} {cs : List Call} {as : List Answer} :
      OnQueues q c a q' → QueueRun q' cs as q'' → QueueRun q (c :: cs) (a :: as) q''

/-- Two queues are given by their sides. -/
theorem queues_ext {q q' : Sides OrderTerms} (h : ∀ side, queueOf q side = queueOf q' side) :
    q = q' :=
  congrArg₂ Sides.mk (h .Buy) (h .Sell)

section step

variable {s s' : Store} {q q' q'' : QueueState} {c : Call} {a a' : Answer}

/-- **A call on a book is a step of its queues.** -/
theorem CallStep.onQueues (h : CallStep s c a s') (hi : Invariant s) :
    OnQueues s.queueState c a s'.queueState := by
  have hunused : ∀ id, Unused s.sides id ↔ id ∉ s.book.ordersMap := fun _ =>
    hi.toWellIndexed.unused_iff
  cases h with
  | refused o hmem =>
      have hstate : (s.alloc o).queueState = ⟨s.sides, s.nextOrder + 1⟩ :=
        congrArg₂ QueueState.mk hi.alloc_sides rfl
      rw [hstate]
      exact .refused o fun hnot => (hunused _).mp hnot hmem
  | turnedAway o hid hfak hcan =>
      have hhandled := (CallStep.turnedAway o hid hfak hcan).handled hi
      have hstate : (s.alloc o).queueState =
          ⟨(acceptOrder o.toOrderTerms o.remainingQuantity.toNat s.sides).sides,
            s.nextOrder + 1⟩ := congrArg₂ QueueState.mk hhandled.sides rfl
      rw [hstate]
      exact .taken o [] hhandled.unused hhandled.records
  | accepted o ts _ hid hcan hacc =>
      have hhandled := (CallStep.accepted o ts s' hid hcan hacc).handled hi
      have hstate : s'.queueState =
          ⟨(acceptOrder o.toOrderTerms o.remainingQuantity.toNat s.sides).sides,
            s.nextOrder + 1⟩ := congrArg₂ QueueState.mk hhandled.sides hacc.nextOrder
      rw [hstate]
      exact .taken o ts hhandled.unused hhandled.records
  | notFound id hid => exact .notFound id ((hunused id).mpr hid)
  | cancelled n _ hn hremoved =>
      have hstate : s'.queueState = ⟨withdraw (s.idAt n) s.sides, s.nextOrder⟩ :=
        congrArg₂ QueueState.mk (hremoved.sides hi.toWellIndexed hn) hremoved.nextOrder
      rw [hstate]
      refine .withdrawn _ fun hnot => (hunused _).mp hnot ?_
      exact hi.toWellIndexed.mem_ordersMap_iff.mpr ⟨n, hn, rfl⟩

/-- **There is one such step.** -/
theorem OnQueues.unique (h : OnQueues q c a q') (h' : OnQueues q c a' q'') : a = a' ∧ q' = q'' := by
  cases h with
  | refused o hused =>
      cases h' with
      | refused => exact ⟨rfl, rfl⟩
      | taken _ _ hunused => exact absurd hunused hused
  | taken o ts hunused hrec =>
      cases h' with
      | refused _ hused => exact absurd hunused hused
      | taken _ ts' _ hrec' => exact ⟨by rw [records_unique hrec hrec'], rfl⟩
  | notFound id hunused =>
      cases h' with
      | notFound => exact ⟨rfl, rfl⟩
      | withdrawn _ hused => exact absurd hunused hused
  | withdrawn id hused =>
      cases h' with
      | notFound _ hunused => exact absurd hunused hused
      | withdrawn => exact ⟨rfl, rfl⟩

/-- The ids in the queues come from the calls. -/
theorem OnQueues.mem_imp (h : OnQueues q c a q') {r : Resting OrderTerms}
    (hr : r ∈ restingOrders q'.queues) :
    (∃ o, c = .addOrder o ∧ r.terms = o.toOrderTerms) ∨
      ∃ r' ∈ restingOrders q.queues, r'.terms = r.terms := by
  cases h with
  | refused => exact .inr ⟨r, hr, rfl⟩
  | taken o ts hunused hrec => exact (mem_acceptOrder_imp hr).imp (fun h => ⟨o, rfl, h⟩) id
  | notFound => exact .inr ⟨r, hr, rfl⟩
  | withdrawn id hused => exact .inr ⟨r, (mem_restingOrders_withdraw.mp hr).1, rfl⟩

end step

section run

variable {s s' : Store} {q q' q'' : QueueState} {cs : List Call} {as as' : List Answer}

/-- A run of calls on a book is a run of its queues. -/
theorem CallSteps.queueRun (h : CallSteps s cs as s') (hi : Invariant s) :
    QueueRun s.queueState cs as s'.queueState := by
  induction h with
  | nil s => exact .nil _
  | cons hstep _ ih => exact .cons (hstep.onQueues hi) (ih (hstep.invariant hi))

/-- A run over queues has one outcome. -/
theorem QueueRun.unique (h : QueueRun q cs as q') (h' : QueueRun q cs as' q'') :
    as = as' ∧ q' = q'' := by
  induction h generalizing as' with
  | nil => cases h' with | nil => exact ⟨rfl, rfl⟩
  | cons hstep _ ih =>
      cases h' with
      | cons hstep' hrest =>
          obtain ⟨rfl, rfl⟩ := hstep.unique hstep'
          obtain ⟨rfl, rfl⟩ := ih hrest
          exact ⟨rfl, rfl⟩

/-- **Every run of calls shows a run of the queues.** -/
theorem calls_queueRun (hi : Invariant s) (cs : List Call) :
    ∃ as s', (calls cs).run s = .returned as s' ∧ Invariant s' ∧
      QueueRun s.queueState cs as s'.queueState := by
  obtain ⟨as, s', hrun, hsteps⟩ := calls_steps hi cs
  exact ⟨as, s', hrun, hsteps.invariant hi, hsteps.queueRun hi⟩

end run

/-! ## The snapshot -/

/-- The levels of a queue, with their quantities modulo `2 ^ 32`. -/
def levelsShown (rs : List (Resting OrderTerms)) : List LevelInfo :=
  (aggregate OrderTerms.price rs).map fun l => ⟨l.terms, UInt32.ofNat l.qty⟩

/-- What the snapshot shows of two queues. -/
def snapshotOf (q : Sides OrderTerms) : OrderBookLevelInfos :=
  ⟨levelsShown q.bids, levelsShown q.asks⟩

/-- The snapshot of a side shows the levels of its queue. -/
theorem levelInfos_eq {r : Price → Price → Prop} [IsStrictTotalOrder Price r]
    {heap : OrderPointer → Order} {side : Side} {levels : OrderedMap Price OrderPointers r}
    (h : SideOk heap side levels) (hne : NoEmptyLevel levels) :
    levelInfos heap levels = levelsShown (queueIn heap levels) := by
  have hall : levels.entries.filter (fun e => !e.2.isEmpty) = levels.entries := by
    apply List.filter_eq_self.mpr
    intro e he
    simpa using hne e he
  unfold levelsShown queueIn OrderedMap.flat
  rw [aggregate_entries levels.sorted h.keyed hne]
  unfold levelInfos
  rw [hall, List.map_map]
  apply List.map_congr_left
  rintro ⟨p, ns⟩ he
  have hlevel := createLevelInfoFromOrders_eq h he
  rw [openAt_queueIn h he] at hlevel
  exact hlevel

/-- **The snapshot shows the queues.** -/
theorem Invariant.getOrderInfos {s : Store} (hi : Invariant s) :
    Book.getOrderInfos.run s = .returned (snapshotOf s.sides) s := by
  have hinfos : snapshotOf s.sides =
      ⟨levelInfos s.heap s.book.bids, levelInfos s.heap s.book.asks⟩ :=
    congrArg₂ OrderBookLevelInfos.mk (levelInfos_eq hi.bids hi.bids_nonempty).symm
      (levelInfos_eq hi.asks hi.asks_nonempty).symm
  rw [hinfos]
  rfl

end FlowManager.Book
