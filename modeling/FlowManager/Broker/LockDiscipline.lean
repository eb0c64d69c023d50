import FlowManager.Broker.Fills

/-!
# The lock of the broker

`_lock` protects the counter and the maps and is not reentrant. `submit_order` cleans up after a
fill with the lock free, and after the final status of the new order with the lock held, so that
cleanup never returns. `CleansUpLocked` says from the call and its reply when this happens: the
final status is `FILLED` or `REJECTED_BY_BOOK` and the legs of the order do not reach its
quantity. `lock_discipline` is the equivalence, for every reachable state of the broker, every call
and every reply.
-/

namespace FlowManager.Broker

open FlowManager.Lib FlowManager.Server

/-! ## Calls and what they leave -/

/-- A call of the position manager on the broker. -/
inductive BrokerCall where
  | submitOrder (clientOrderId symbol : String) (quantity : ℤ) (sideIsBuy : Bool)
      (orderTypeStr : String) (price : Option PyFloat)
  | cancelOrder (clientOrderId : String)
  deriving DecidableEq

/-- What a call returns. -/
inductive CallResult where
  | submitted (brokerOrdId : Option ℤ)
  | cancelled (accepted : Bool)
  deriving DecidableEq, Repr

/-- Make a call. -/
def BrokerCall.run {ε : Type} (sendRequestToOb : Json → ε → Option Reply × ε) :
    BrokerCall → BrokerProc ε CallResult
  | .submitOrder clientOrderId symbol quantity sideIsBuy orderTypeStr price => do
      let brokerOrdId ← Broker.submitOrder sendRequestToOb clientOrderId symbol quantity sideIsBuy
        orderTypeStr price
      pure (.submitted brokerOrdId)
  | .cancelOrder clientOrderId => do
      let accepted ← Broker.cancelOrder sendRequestToOb clientOrderId
      pure (.cancelled accepted)

/-- A computation has ended, with a value or an exception, and has left the state. -/
def Ends {ε σ α : Type} (o : Outcome ε σ α) (s : σ) : Prop :=
  (∃ a, o = .returned a s) ∨ ∃ e, o = .raised e s

/-- The other end of the socket gives one reply, or none. -/
def answering (response : Option Reply) : Json → Unit → Option Reply × Unit :=
  fun _ _ => (response, ())

/-- The states of the broker after calls that have ended, whatever the replies to them. -/
inductive Reachable : CppOrderBookBroker Unit → Prop
  | init : Reachable (.init ())
  | call {s s' : CppOrderBookBroker Unit} (call : BrokerCall) (response : Option Reply) :
      Reachable s → Ends ((call.run (answering response)).run s) s' → Reachable s'

/-- The call has not tried to acquire the lock while it held it, which would not return, and has
left it free. -/
def LockSafe {α : Type} (o : Outcome PyError (CppOrderBookBroker Unit) α) : Prop :=
  ∃ s', Ends o s' ∧ s'.lockHeld = false

/-! ## When the cleanup runs under the lock -/

/-- The legs that fill the new order reach its quantity; fills of an order with an empty client id
are ignored. -/
def FillsComplete (clientOrderId : String) (quantity : ℤ) (own : List FillInfo) : Prop :=
  clientOrderId ≠ "" ∧ own ≠ [] ∧ quantity ≤ totalFilled own

/-- Whether fills complete an order of that quantity is decided. -/
instance (clientOrderId : String) (quantity : ℤ) (own : List FillInfo) :
    Decidable (FillsComplete clientOrderId quantity own) :=
  inferInstanceAs (Decidable (_ ∧ _))

/-- The reply makes `submit_order` clean up while it holds the lock: the price converts, the order
is acknowledged with a final status that ends it, and its legs do not reach its quantity. -/
def CleansUpLocked {ε : Type} (s : CppOrderBookBroker ε) : BrokerCall → Option Reply → Prop
  | .submitOrder clientOrderId _ quantity _ _ (some price), some reply =>
      (pyInt price).isOk = true ∧ reply.status = some .OK ∧
        finishes reply.orderFinalStatusInBook = true ∧
        ¬FillsComplete clientOrderId quantity
          (ownFills (s.brokerOrderIdCounter + 1) (reply.trades.getD []))
  | _, _ => False

section submit

variable {ε : Type} {s : CppOrderBookBroker ε} (clientOrderId symbol : String) (quantity : ℤ)
  (sideIsBuy : Bool) (orderTypeStr : String) (price : PyFloat) (orderBook : ε)

/-- The new order is tracked when the loop over the trades starts. -/
theorem tracks_acknowledged :
    (s.acknowledged clientOrderId symbol quantity sideIsBuy orderTypeStr price orderBook).Tracks
      (s.brokerOrderIdCounter + 1) clientOrderId
      { s.nextDetails clientOrderId symbol quantity sideIsBuy orderTypeStr price with
        status := .ACKNOWLEDGED } where
  client := (Dict.lookup_insert_ite _ _ _ _).trans (if_pos rfl)
  details := (setDetails_lookup _ _ _).trans (if_pos rfl)

/-- After the loop the new order is forgotten if its legs reach its quantity, and otherwise
tracked and not filled. -/
theorem acknowledged_applyFills (fills : List FillInfo) :
    (FillsComplete clientOrderId quantity (ownFills (s.brokerOrderIdCounter + 1) fills) ∧
      ((s.acknowledged clientOrderId symbol quantity sideIsBuy orderTypeStr price
        orderBook).applyFills fills).brokerIdToOrderDetails.lookup (s.brokerOrderIdCounter + 1) =
          none) ∨
    (¬FillsComplete clientOrderId quantity (ownFills (s.brokerOrderIdCounter + 1) fills) ∧
      ∃ current, ((s.acknowledged clientOrderId symbol quantity sideIsBuy orderTypeStr price
        orderBook).applyFills fills).brokerIdToOrderDetails.lookup (s.brokerOrderIdCounter + 1) =
          some current ∧ current.status ≠ .FILLED) := by
  have htracks := tracks_acknowledged (s := s) clientOrderId symbol quantity sideIsBuy orderTypeStr
    price orderBook
  have hack : Status.ACKNOWLEDGED ≠ .FILLED := by decide
  by_cases hclient : clientOrderId = ""
  · right
    subst hclient
    exact ⟨fun h => h.1 rfl, _, (applyFills_tracks_of_empty htracks fills).details, hack⟩
  · have hdone : ∀ own, Done { s.nextDetails clientOrderId symbol quantity sideIsBuy orderTypeStr
        price with status := .ACKNOWLEDGED } own ↔ FillsComplete clientOrderId quantity own := by
      intro own
      simp [Done, FillsComplete, hclient, CppOrderBookBroker.nextDetails, newDetails]
    rcases applyFills_tracks htracks hack fills fun heq => absurd heq hclient with ⟨hd, hgone⟩ | ⟨hd, htracks'⟩
    · exact .inl ⟨(hdone _).mp hd, hgone⟩
    · right
      refine ⟨fun h => hd ((hdone _).mpr h), _, htracks'.details, ?_⟩
      unfold filledBy
      split_ifs
      · exact hack
      · show Status.WORKING ≠ .FILLED
        decide

end submit

section discipline

variable {s : CppOrderBookBroker Unit} {α : Type} {cond : Prop}
  {o : Outcome PyError (CppOrderBookBroker Unit) α}

/-- The condition decides between a call that never returns and one that keeps the discipline. -/
structure Decides (cond : Prop) (o : Outcome PyError (CppOrderBookBroker Unit) α) : Prop where
  stuck : cond → ∃ s', o = .stuck s'
  safe : ¬cond → LockSafe o

/-- What returns with the lock free is safe. -/
theorem lockSafe_returned {a : α} {s' : CppOrderBookBroker Unit} (h : s'.lockHeld = false) :
    LockSafe (.returned a s') :=
  ⟨s', .inl ⟨a, rfl⟩, h⟩

/-- What returns with the lock free is not the case that gets stuck. -/
theorem decides_returned {a : α} {s' : CppOrderBookBroker Unit} (hcond : ¬cond)
    (h : s'.lockHeld = false) : Decides cond (.returned a s') :=
  ⟨fun hc => absurd hc hcond, fun _ => lockSafe_returned h⟩

/-- Conditions that say the same decide the same. -/
theorem Decides.congr {cond' : Prop} (h : Decides cond o) (hiff : cond ↔ cond') :
    Decides cond' o :=
  ⟨fun hc => h.stuck (hiff.mpr hc), fun hc => h.safe fun hc' => hc (hiff.mp hc')⟩

/-- An outcome that a condition decides is safe exactly where the condition fails. -/
theorem Decides.lockSafe_iff (h : Decides cond o) : LockSafe o ↔ ¬cond := by
  constructor
  · rintro ⟨s', hends, _⟩ hc
    obtain ⟨s'', rfl⟩ := h.stuck hc
    rcases hends with ⟨_, hends⟩ | ⟨_, hends⟩ <;> cases hends
  · exact h.safe

/-- A call that has ended has left the lock free. -/
theorem Decides.lockHeld_of_ends (h : Decides cond o) {s' : CppOrderBookBroker Unit}
    (hends : Ends o s') : s'.lockHeld = false := by
  by_cases hc : cond
  · obtain ⟨s'', rfl⟩ := h.stuck hc
    rcases hends with ⟨_, hends⟩ | ⟨_, hends⟩ <;> cases hends
  · obtain ⟨s'', hends', hfree⟩ := h.safe hc
    rcases hends with ⟨_, rfl⟩ | ⟨_, rfl⟩ <;>
      rcases hends' with ⟨_, hends'⟩ | ⟨_, hends'⟩ <;> cases hends' <;> exact hfree

/-- Passing the result on does not touch the lock. -/
theorem Decides.bind_pure {β : Type} (h : Decides cond o) (f : α → β) :
    Decides cond (o.bind fun a s' => .returned (f a) s') where
  stuck := by
    intro hc
    obtain ⟨s', rfl⟩ := h.stuck hc
    exact ⟨s', rfl⟩
  safe := by
    intro hc
    obtain ⟨s', ⟨a, rfl⟩ | ⟨e, rfl⟩, hfree⟩ := h.safe hc
    · exact lockSafe_returned hfree
    · exact ⟨s', .inr ⟨e, rfl⟩, hfree⟩

/-- The final status leaves the lock in order unless it ends an order that is still tracked. -/
theorem decides_handleFinalStatus (hfree : s.lockHeld = false) (clientOrderId symbol : String)
    (sideIsBuy : Bool) (price : PyFloat) (b : ℤ) (finalStatus : Option BookStatus)
    (hstatus : ∀ current, s.brokerIdToOrderDetails.lookup b = some current →
      current.status ≠ .FILLED) :
    Decides (finishes finalStatus = true ∧ s.brokerIdToOrderDetails.lookup b ≠ none)
      ((handleFinalStatus clientOrderId symbol sideIsBuy price b finalStatus).run s) := by
  cases htracked : s.brokerIdToOrderDetails.lookup b with
  | none =>
      rw [run_handleFinalStatus_of_not_tracked _ _ _ _ hfree htracked]
      exact decides_returned (fun h => h.2 rfl) hfree
  | some current =>
      by_cases hfinal : finishes finalStatus = true
      · obtain ⟨s', hstuck⟩ := handleFinalStatus_stuck clientOrderId symbol sideIsBuy price hfree
          htracked (hstatus current htracked) hfinal
        rw [hstuck]
        exact ⟨fun _ => ⟨s', rfl⟩, fun h => absurd ⟨hfinal, by simp⟩ h⟩
      · rw [run_handleFinalStatus_of_working _ _ _ _ hfree (by simpa using hfinal)]
        apply decides_returned (fun h => hfinal h.1)
        unfold CppOrderBookBroker.markWorking
        rw [htracked]
        dsimp only
        split_ifs
        · exact hfree
        · exact hfree

/-- **`submit_order` gets stuck exactly where it cleans up under the lock.** -/
theorem decides_submitOrder (hfree : s.lockHeld = false) (clientOrderId symbol : String)
    (quantity : ℤ) (sideIsBuy : Bool) (orderTypeStr : String) (price : Option PyFloat)
    (response : Option Reply) :
    Decides (CleansUpLocked s
        (.submitOrder clientOrderId symbol quantity sideIsBuy orderTypeStr price) response)
      ((submitOrder (answering response) clientOrderId symbol quantity sideIsBuy orderTypeStr
        price).run s) := by
  cases price with
  | none =>
      rw [run_submitOrder_of_no_price]
      exact decides_returned id hfree
  | some price =>
      cases hprice : pyInt price with
      | error e =>
          rw [run_submitOrder_of_raise _ _ _ _ _ _ hfree hprice]
          refine ⟨fun h => ?_, fun _ => ⟨_, .inr ⟨e, rfl⟩, hfree⟩⟩
          cases response with
          | none => exact h.elim
          | some reply =>
              obtain ⟨hok, -⟩ := h
              rw [hprice] at hok
              cases hok
      | ok intPrice =>
          rw [run_submitOrder clientOrderId symbol quantity sideIsBuy orderTypeStr price hfree hprice
            (show answering response _ _ = (response, ()) from rfl)]
          cases response with
          | none => exact decides_returned id hfree
          | some reply =>
              dsimp only
              by_cases hstatus : reply.status = some .OK
              · rw [if_pos hstatus]
                apply Decides.bind_pure
                have hloop := acknowledged_applyFills (s := s) clientOrderId symbol quantity
                  sideIsBuy orderTypeStr price () (reply.trades.getD [])
                have hfree' : ((s.acknowledged clientOrderId symbol quantity sideIsBuy orderTypeStr
                    price ()).applyFills (reply.trades.getD [])).lockHeld = false :=
                  (applyFills_lockHeld _).trans hfree
                apply (decides_handleFinalStatus hfree' _ _ _ _ _ _ ?_).congr
                · rcases hloop with ⟨hdone, hgone⟩ | ⟨hdone, current, hcurrent, -⟩
                  · exact ⟨fun h => absurd hgone h.2, fun h => absurd hdone h.2.2.2⟩
                  · constructor
                    · rintro ⟨hfinal, -⟩
                      exact ⟨by rw [hprice]; rfl, hstatus, hfinal, hdone⟩
                    · rintro ⟨-, -, hfinal, -⟩
                      exact ⟨hfinal, by simp [hcurrent]⟩
                · intro current hcurrent
                  rcases hloop with ⟨-, hgone⟩ | ⟨-, current', hcurrent', hnot⟩
                  · rw [hgone] at hcurrent
                    cases hcurrent
                  · obtain rfl := Option.some.inj (hcurrent.symm.trans hcurrent')
                    exact hnot
              · rw [if_neg hstatus]
                exact decides_returned (fun h => hstatus h.2.1) hfree

/-- `cancel_order` never gets stuck. -/
theorem decides_cancelOrder (hfree : s.lockHeld = false) (clientOrderId : String)
    (response : Option Reply) :
    Decides False ((cancelOrder (answering response) clientOrderId).run s) := by
  cases htracked : s.tracked clientOrderId with
  | none =>
      rw [run_cancelOrder_of_not_tracked clientOrderId hfree htracked]
      exact decides_returned id hfree
  | some tracked =>
      obtain ⟨b, details⟩ := tracked
      by_cases hdone : details.status.isDone = true
      · rw [run_cancelOrder_of_done clientOrderId hfree htracked hdone]
        exact decides_returned id hfree
      · rw [run_cancelOrder clientOrderId hfree htracked (by simpa using hdone)
          (show answering response _ _ = (response, ()) from rfl)]
        split_ifs
        · exact decides_returned id hfree
        · exact decides_returned id hfree

/-- From a free lock a call never returns if its reply makes it clean up under the lock, and
otherwise keeps the discipline. -/
theorem decides_run (hfree : s.lockHeld = false) (call : BrokerCall) (response : Option Reply) :
    Decides (CleansUpLocked s call response) ((call.run (answering response)).run s) := by
  cases call with
  | submitOrder clientOrderId symbol quantity sideIsBuy orderTypeStr price =>
      rw [BrokerCall.run, Proc.run_bind]
      exact (decides_submitOrder hfree clientOrderId symbol quantity sideIsBuy orderTypeStr price
        response).bind_pure CallResult.submitted
  | cancelOrder clientOrderId =>
      rw [BrokerCall.run, Proc.run_bind]
      exact (decides_cancelOrder hfree clientOrderId response).bind_pure CallResult.cancelled

/-- In every state that calls reach the lock is free. -/
theorem Reachable.lockHeld (h : Reachable s) : s.lockHeld = false := by
  induction h with
  | init => rfl
  | call call response _ hends ih => exact (decides_run ih call response).lockHeld_of_ends hends

/-- **The lock discipline.** In every reachable state and for every call and reply, the call never
waits for the lock it holds and leaves it free, if and only if the reply does not make it clean up
after the final status of an order that is still tracked. -/
theorem lock_discipline (h : Reachable s) (call : BrokerCall) (response : Option Reply) :
    LockSafe ((call.run (answering response)).run s) ↔ ¬CleansUpLocked s call response :=
  (decides_run h.lockHeld call response).lockSafe_iff

/-- A fill-and-kill order is booked and filled. -/
theorem lock_discipline_filled :
    LockSafe ((BrokerCall.run (answering (some
      { status := some .OK, trades := some [⟨1, 100, 5, .Buy⟩],
        orderFinalStatusInBook := some .FILLED }))
      (.submitOrder "a" "AMD" 5 true "FAK" (some (.finite 100)))).run (.init ())) := by
  apply (lock_discipline .init _ _).mpr
  rintro ⟨-, -, -, h⟩
  exact h (by decide)

/-- The server answers a fill-and-kill order that cannot match with `REJECTED_BY_BOOK` and no
trades: the call never returns. -/
theorem lock_discipline_fails :
    ¬∀ (s : CppOrderBookBroker Unit) (call : BrokerCall) (response : Option Reply), Reachable s →
      LockSafe ((call.run (answering response)).run s) := by
  intro h
  have hsafe := h _ (.submitOrder "a" "AMD" 5 true "FAK" (some (.finite 100)))
    (some { status := some .OK, trades := some [],
            orderFinalStatusInBook := some .REJECTED_BY_BOOK }) .init
  rw [(decides_run rfl _ _).lockSafe_iff] at hsafe
  apply hsafe
  refine ⟨rfl, rfl, rfl, ?_⟩
  rintro ⟨-, hnil, -⟩
  exact hnil rfl

end discipline

end FlowManager.Broker
