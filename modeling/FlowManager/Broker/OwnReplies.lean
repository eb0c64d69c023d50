import FlowManager.Broker.InTurn
import FlowManager.Server.OrderBookServer

/-!
# Which calls get their own replies

A call that sends while another waits for its reply is out of turn: the socket raises, the handler
closes it under the other call, and the call itself returns `None` (`Lost`). So a run in which all
calls have returned has given every call its own reply exactly if it was in turn
(`replies_kept_iff`). `collision` is a run in which an order that the book has accepted is reported
as rejected.
-/

namespace FlowManager.Broker

open FlowManager.Lib FlowManager.Server

section order

variable {σ : Type} {respond : Json → σ → Reply × σ} {s : Connection σ} {i j : ℕ}
  {record : CallRecord}

/-! ## Calls out of turn -/

/-- The call is in the handler of `ZMQError`, or has come out of it with `None`. -/
def CallRecord.Lost (record : CallRecord) : Prop :=
  record.place = .closing ∨ record.place = .clearing ∨
    record.place = .returned ∧ record.result = some none

/-- A call is lost. -/
def Connection.Lost (s : Connection σ) (i : ℕ) : Prop :=
  ∃ record, s.calls[i]? = some record ∧ record.Lost

/-- A write that leaves lost calls lost. -/
theorem Connection.Lost.modify (h : s.Lost i) {s' : Connection σ} {f : CallRecord → CallRecord}
    (hcalls : s'.calls = s.calls.modify j f)
    (hf : ∀ record, s.calls[j]? = some record → record.Lost → (f record).Lost) : s'.Lost i := by
  obtain ⟨record, hi, hlost⟩ := h
  by_cases hj : j = i
  · subst hj
    exact ⟨f record, hcalls ▸ getElem?_modify_of_some f hi, hf record hi hlost⟩
  · exact ⟨record, hcalls ▸ (List.getElem?_modify_ne f _ hj).trans hi, hlost⟩

/-- Dropping the socket leaves the calls. -/
theorem dropSocket_calls (s : Connection σ) (socket : Option Socket) :
    (s.dropSocket socket).calls = s.calls := by
  unfold Connection.dropSocket
  split <;> rfl

/-- A call writes to its own record only. -/
theorem stepCall_calls (s : Connection σ) (i : ℕ) (record : CallRecord) :
    ∃ f, (s.stepCall i record).calls = s.calls.modify i f := by
  have hnothing : ∃ f, s.calls = s.calls.modify i f := ⟨id, (List.modify_id i s.calls).symm⟩
  unfold Connection.stepCall
  cases record.place with
  | checking | starting => exact ⟨_, rfl⟩
  | rechecking =>
      dsimp only
      split <;> exact ⟨_, rfl⟩
  | sending =>
      dsimp only
      split
      · exact ⟨_, rfl⟩
      · split
        · exact ⟨_, rfl⟩
        · exact hnothing
      · exact ⟨_, rfl⟩
  | receiving =>
      dsimp only
      split
      · exact ⟨_, rfl⟩
      · exact ⟨_, rfl⟩
      · exact hnothing
      · exact ⟨_, rfl⟩
  | closing =>
      dsimp only
      split
      · exact ⟨_, rfl⟩
      · exact ⟨_, congrArg (List.modify · i _) (dropSocket_calls s _)⟩
  | clearing => exact ⟨_, congrArg (List.modify · i _) (dropSocket_calls s _)⟩
  | returned => exact hnothing

namespace Connection.Lost

/-- A call that is in the handler comes out of it with `None`. -/
theorem stepCall (h : s.Lost i) (hj : s.calls[j]? = some record) :
    (s.stepCall j record).Lost i := by
  by_cases hlost : record.Lost
  · unfold Connection.stepCall
    rcases hlost with hplace | hplace | ⟨hplace, -⟩
    · rw [hplace]
      dsimp only
      split
      · exact h.modify rfl fun _ _ _ => Or.inr (Or.inr ⟨rfl, rfl⟩)
      · exact h.modify (congrArg (List.modify · j _) (dropSocket_calls s _))
          fun _ _ _ => Or.inr (Or.inl rfl)
    · rw [hplace]
      exact h.modify (congrArg (List.modify · j _) (dropSocket_calls s _))
        fun _ _ _ => Or.inr (Or.inr ⟨rfl, rfl⟩)
    · rw [hplace]
      exact h
  · obtain ⟨f, hf⟩ := stepCall_calls s j record
    refine h.modify hf fun record' hrecord' hlost' => absurd ?_ hlost
    rwa [Option.some.inj (hrecord'.symm.trans hj)] at hlost'

/-- A call that is lost stays so when another is made. -/
theorem startCall (h : s.Lost i) (c : SocketCall) : (s.startCall c).Lost i := by
  obtain ⟨record, hi, hlost⟩ := h
  have hlt := (List.getElem?_eq_some_iff.mp hi).1
  unfold Connection.startCall
  split
  · exact ⟨record, hi, hlost⟩
  · split <;> exact ⟨record, (List.getElem?_append_left hlt).trans hi, hlost⟩

/-- A call that is lost stays so. -/
theorem apply (h : s.Lost i) (e : SocketEvent) : (s.apply respond e).Lost i := by
  cases e with
  | call c => exact h.startCall c
  | step j =>
      dsimp only [Connection.apply]
      cases hj : s.calls[j]? with
      | none => exact h
      | some record => exact h.stepCall hj
  | serve =>
      dsimp only [Connection.apply]
      split
      · exact h.modify rfl fun _ _ hlost => hlost
      · exact h
  | serveAbandoned k =>
      dsimp only [Connection.apply]
      split
      · exact h.modify rfl fun _ _ hlost => hlost
      · exact h

/-- A call that is lost stays so in every run. -/
theorem run : ∀ {es : List SocketEvent} {s : Connection σ}, s.Lost i → (s.run respond es).Lost i
  | [], _, h => h
  | _ :: _, _, h => (h.apply _).run

end Connection.Lost

/-- **A call that sends out of turn is lost.** -/
theorem Connection.Orderly.lost_of_not_inTurn (h : s.Orderly) {e : SocketEvent}
    (hturn : ¬s.InTurn e) : ∃ i, (s.apply respond e).Lost i := by
  cases e with
  | call c => exact absurd trivial hturn
  | serve => exact absurd trivial hturn
  | serveAbandoned k => exact absurd trivial hturn
  | step i =>
      simp only [Connection.InTurn, not_forall] at hturn
      obtain ⟨record, hi, hplace, record', hrecord', hreceiving⟩ := hturn
      rw [not_not] at hreceiving
      obtain ⟨j, hj⟩ := List.mem_iff_getElem?.mp hrecord'
      have howner := (h.fits hj).owner_eq hreceiving
      refine ⟨i, { record with place := .closing }, ?_, Or.inl rfl⟩
      -- the socket has sent, or has got, something for the call that waits
      have hgoes : s.stepCall i record = s.goTo i .closing := by
        unfold Connection.stepCall
        rw [hplace]
        rcases hsocket : s.socket with _ | _ | _ | _ | _
        · simp [hsocket] at howner
        · rfl
        · simp [hsocket] at howner
        · rfl
        · rfl
      dsimp only [Connection.apply]
      rw [hi]
      dsimp only
      rw [hgoes]
      exact getElem?_modify_of_some _ hi

/-- **A run in which some event is out of turn loses a call.** -/
theorem Connection.Orderly.lost_of_not_exclusive : ∀ {es : List SocketEvent} {s : Connection σ},
    s.Orderly → ¬Exclusive respond s es → ∃ i, (s.run respond es).Lost i
  | [], _, _, hnot => absurd trivial hnot
  | e :: es, s, h, hnot => by
      by_cases hturn : s.InTurn e
      · exact (h.apply hturn).lost_of_not_exclusive fun hrest => hnot ⟨hturn, hrest⟩
      · obtain ⟨i, hlost⟩ := h.lost_of_not_inTurn hturn
        exact ⟨i, hlost.run⟩

/-- A call that has returned with `None` has not got its reply. -/
theorem Connection.Lost.not_kept (h : s.Lost i)
    (hreturned : ∀ record ∈ s.calls, record.place = .returned) : ¬s.Kept := by
  intro hkept
  obtain ⟨record, hi, hlost⟩ := h
  have hplace := hreturned record (List.mem_of_getElem? hi)
  rcases hlost with hclosing | hclearing | ⟨-, hresult⟩
  · rw [hplace] at hclosing
    cases hclosing
  · rw [hplace] at hclearing
    cases hclearing
  · obtain ⟨reply, hnone, -⟩ := hkept.replies hi hresult
    cases hnone

/-! ## Own replies -/

/-- **The calls keep their own replies exactly as long as no call sends while another waits.** In a
run in turn they do, and it can be brought to its end; and if all calls of a run have returned, they
have got their own replies only if the run was in turn. -/
theorem replies_kept_iff (respond : Json → σ → Reply × σ) (s : Connection σ) (h : s.Fresh)
    (es : List SocketEvent) :
    (Exclusive respond s es → (s.run respond es).Kept ∧
      ∃ es', Exclusive respond (s.run respond es) es' ∧
        ∀ record ∈ ((s.run respond es).run respond es').calls, record.place = .returned) ∧
    ((∀ record ∈ (s.run respond es).calls, record.place = .returned) →
      ((s.run respond es).Kept ↔ Exclusive respond s es)) := by
  refine ⟨fun hexclusive => ?_, fun hreturned => ⟨fun hkept => ?_, fun hexclusive => ?_⟩⟩
  · have hrun := h.orderly.run hexclusive
    exact ⟨hrun.kept, hrun.exists_returned⟩
  · by_contra hnot
    obtain ⟨i, hlost⟩ := h.orderly.lost_of_not_exclusive hnot
    exact hlost.not_kept hreturned hkept
  · exact (h.orderly.run hexclusive).kept

end order

/-! ## An order that the book has accepted and the broker rejects -/

/-- The order book server behind the socket; where the request ends it, there is no reply. -/
def orderBookServer (req : Json) (server : ServerState) : Reply × ServerState :=
  (serve Libraries.nlohmann req server).getD ({}, server)

/-- A broker that has just connected to a new server. -/
def connected : Connection ServerState :=
  { broker := .init (), socket := some .ready, calls := [], server := .init, abandoned := [] }

/-- Nothing has been called on the connected broker. -/
theorem fresh_connected : connected.Fresh := ⟨rfl, rfl, Or.inr rfl⟩

/-- An order is sent. Before its reply is received, the API sends a request of its own, and its
handler closes the socket. -/
def collision : List SocketEvent :=
  [.call (.positionManager (.submitOrder "a" "AMD" 5 true "GTC" (some (.finite 100)))),
    .call (.api "AMD"), .step 0, .step 0, .serve, .step 1, .step 1, .step 1, .step 1, .step 0]

/-- **The broker rejects an order that the book has accepted**, and the API gets no reply. -/
theorem replies_kept_fails : ¬∀ s : Connection ServerState, s.Fresh → ∀ es,
    (∀ record ∈ (s.run orderBookServer es).calls, record.place = .returned) →
    (s.run orderBookServer es).Kept := by
  intro h
  have hkept := h connected fresh_connected collision (by decide)
  have hrejected : ((connected.run orderBookServer collision).calls[0]?.map fun record =>
      (record.rejected, record.answered.map (·.status))) = some (true, some (some .OK)) := by
    decide
  obtain ⟨record, hi, hrecord⟩ := Option.map_eq_some_iff.mp hrejected
  rw [Prod.mk.injEq] at hrecord
  obtain ⟨reply, hanswered, hok⟩ := Option.map_eq_some_iff.mp hrecord.2
  exact hkept.rejections hi hrecord.1 hanswered hok

/-- The same calls, one after the other. -/
def noCollision : List SocketEvent :=
  [.call (.positionManager (.submitOrder "a" "AMD" 5 true "GTC" (some (.finite 100)))),
    .call (.api "AMD"), .step 0, .step 0, .serve, .step 0, .step 1, .step 1, .serve, .step 1]

/-- Two calls that take turns keep their replies. -/
theorem replies_kept_iff_noCollision :
    connected.Fresh ∧ Exclusive orderBookServer connected noCollision ∧
      (connected.run orderBookServer noCollision).Kept := by
  have hexclusive : Exclusive orderBookServer connected noCollision := by decide
  exact ⟨fresh_connected, hexclusive,
    ((replies_kept_iff orderBookServer connected fresh_connected noCollision).1 hexclusive).1⟩

end FlowManager.Broker
