import FlowManager.Broker.Rejections
import FlowManager.Lib.InPlace

/-!
# Calls in turn

Nothing keeps the two threads from overlapping between `send_json` and `recv_json`. `Exclusive` are
the runs in which no call sends while another waits for its reply. They leave the calls in order
(`Orderly`): what the socket has sent or got belongs to the call that waits for it. Then every call
gets its own reply (`Orderly.kept`), and the calls can all return (`Orderly.exists_returned`).
-/

namespace FlowManager.Broker

open FlowManager.Lib FlowManager.Server

/-! ## Calls in order -/

section order

variable {σ : Type} {respond : Json → σ → Reply × σ} {s : Connection σ} {i j : ℕ}
  {record : CallRecord}

/-- A call has its turn unless it sends while another waits for its reply. -/
def Connection.InTurn (s : Connection σ) : SocketEvent → Prop
  | .step i => ∀ record ∈ s.calls[i]?, record.place = .sending →
      ∀ record' ∈ s.calls, record'.place ≠ .receiving
  | _ => True

/-- Whether an event has its turn is decided. -/
instance (s : Connection σ) : (e : SocketEvent) → Decidable (s.InTurn e)
  | .step i => inferInstanceAs (Decidable (∀ record ∈ s.calls[i]?, record.place = .sending →
      ∀ record' ∈ s.calls, record'.place ≠ .receiving))
  | .call _ => .isTrue trivial
  | .serve => .isTrue trivial
  | .serveAbandoned _ => .isTrue trivial

/-- The call that the socket has sent, or has got, something for. -/
def owner : Option Socket → Option ℕ
  | some (.sent i _) => some i
  | some (.answered i _) => some i
  | _ => none

/-- `None` is busy with no call. -/
@[simp] theorem owner_none : owner none = none := rfl

/-- A closed socket is busy with no call. -/
@[simp] theorem owner_closed : owner (some .closed) = none := rfl

/-- A socket that is ready is busy with no call. -/
@[simp] theorem owner_ready : owner (some .ready) = none := rfl

/-- A socket that waits for a reply is busy with the call. -/
@[simp] theorem owner_sent {request : Json} : owner (some (.sent i request)) = some i := rfl

/-- A socket that has a reply is busy with the call. -/
@[simp] theorem owner_answered {reply : Reply} : owner (some (.answered i reply)) = some i := rfl

/-- Nothing has come of the call yet. -/
structure CallRecord.Open (record : CallRecord) : Prop where
  priced : record.call.Priced
  request : record.request.isSome = true
  answered : record.answered = none
  result : record.result = none
  rejected : record.rejected = false

/-- A call that goes to another place is still open. -/
theorem CallRecord.Open.moveTo (h : record.Open) (place : SendPlace) :
    { record with place := place }.Open :=
  ⟨h.priced, h.request, h.answered, h.result, h.rejected⟩

/-- The call has got its own reply and has believed it, or has sent nothing. -/
def CallRecord.Done (record : CallRecord) (i : ℕ) : Prop :=
  (record.result = none ∧ record.answered = none) ∨
    ∃ reply, record.result = some (some (i, reply)) ∧ record.answered = some reply ∧
      (record.rejected = true → reply.status ≠ some .OK)

/-- What holds of a call at its place, as long as no call has sent out of turn. -/
def CallRecord.Fits (record : CallRecord) (i : ℕ) (socket : Option Socket) : Prop :=
  match record.place with
  | .checking | .starting => record.Open
  | .rechecking | .sending => record.Open ∧ socket ≠ none
  | .receiving =>
      record.Open ∧ (∃ request, socket = some (.sent i request)) ∨
        ∃ reply, { record with answered := none }.Open ∧ record.answered = some reply ∧
          socket = some (.answered i reply)
  | .closing | .clearing => False
  | .returned => record.Done i

/-- The socket is busy with the call that receives on it. -/
theorem CallRecord.Fits.owner_eq {socket : Option Socket} (h : record.Fits i socket)
    (hplace : record.place = .receiving) : owner socket = some i := by
  unfold CallRecord.Fits at h
  rw [hplace] at h
  rcases h with ⟨-, request, rfl⟩ | ⟨reply, -, -, rfl⟩ <;> rfl

/-- Calls that do not wait for a reply do not mind what becomes of the socket, if there is one. -/
theorem CallRecord.Fits.of_owner_ne {socket socket' : Option Socket}
    (h : record.Fits i socket) (hne : owner socket ≠ some i) (hsome : socket' ≠ none) :
    record.Fits i socket' := by
  have howner := h.owner_eq
  unfold CallRecord.Fits at h ⊢
  cases hplace : record.place with
  | receiving => exact absurd (howner hplace) hne
  | rechecking | sending =>
      rw [hplace] at h
      exact ⟨h.1, hsome⟩
  | checking | starting | closing | clearing | returned =>
      rw [hplace] at h
      exact h

/-- The calls are in order: the socket is not closed, and what it has sent or got belongs to a call
that waits for it. -/
structure Connection.Orderly (s : Connection σ) : Prop where
  notClosed : s.socket ≠ some .closed
  waits : ∀ {i : ℕ}, owner s.socket = some i →
    ∃ record : CallRecord, s.calls[i]? = some record ∧ record.place = .receiving
  fits : ∀ {i : ℕ} {record : CallRecord}, s.calls[i]? = some record → record.Fits i s.socket
  abandoned : s.abandoned = []

/-- A fresh connection is orderly. -/
theorem Connection.Fresh.orderly (h : s.Fresh) : s.Orderly := by
  refine ⟨?_, ?_, by simp [h.calls], h.abandoned⟩
  · rcases h.socket with hsocket | hsocket <;> simp [hsocket]
  · rcases h.socket with hsocket | hsocket <;> simp [hsocket, owner]

namespace Connection.Orderly

/-- The socket of a call that does not wait belongs to others. -/
theorem owner_ne (h : s.Orderly) (hi : s.calls[i]? = some record)
    (hplace : record.place ≠ .receiving) : owner s.socket ≠ some i := by
  intro howner
  obtain ⟨record', hrecord', hreceiving⟩ := h.waits howner
  obtain rfl := Option.some.inj (hi.symm.trans hrecord')
  exact hplace hreceiving

/-- One call and the socket change. -/
theorem update (h : s.Orderly) {s' : Connection σ} {f : CallRecord → CallRecord}
    (hi : s.calls[i]? = some record) (hcalls : s'.calls = s.calls.modify i f)
    (habandoned : s'.abandoned = s.abandoned) (hclosed : s'.socket ≠ some .closed)
    (hfits : (f record).Fits i s'.socket)
    (hwaits : ∀ j, owner s'.socket = some j →
      j = i ∧ (f record).place = .receiving ∨ j ≠ i ∧ s'.socket = s.socket)
    (hothers : s'.socket = s.socket ∨
      s'.socket ≠ none ∧ ∀ j, j ≠ i → owner s.socket ≠ some j) : s'.Orderly := by
  refine ⟨hclosed, ?_, ?_, habandoned.trans h.abandoned⟩
  · intro j howner
    rw [hcalls]
    rcases hwaits j howner with ⟨rfl, hplace⟩ | ⟨hj, hsocket⟩
    · exact ⟨_, getElem?_modify_of_some f hi, hplace⟩
    · obtain ⟨record', hrecord', hplace⟩ := h.waits (hsocket ▸ howner)
      exact ⟨record', (List.getElem?_modify_ne f _ (Ne.symm hj)).trans hrecord', hplace⟩
  · intro j record' hrecord'
    rw [hcalls] at hrecord'
    rcases getElem?_modify_cases hrecord' with ⟨rfl, before, hbefore, rfl⟩ | ⟨hj, hrecord'⟩
    · obtain rfl := Option.some.inj (hi.symm.trans hbefore)
      exact hfits
    · rcases hothers with hsocket | ⟨hsome, hne⟩
      · rw [hsocket]
        exact h.fits hrecord'
      · exact (h.fits hrecord').of_owner_ne (hne j hj) hsome

/-- A call that does not wait goes on, and leaves the socket as it is. -/
theorem update_call (h : s.Orderly) {s' : Connection σ} {f : CallRecord → CallRecord}
    (hi : s.calls[i]? = some record) (hplace : record.place ≠ .receiving)
    (hcalls : s'.calls = s.calls.modify i f) (habandoned : s'.abandoned = s.abandoned)
    (hsocket : s'.socket = s.socket) (hfits : (f record).Fits i s.socket) : s'.Orderly := by
  refine h.update hi hcalls habandoned (hsocket ▸ h.notClosed) (hsocket ▸ hfits) ?_ (Or.inl hsocket)
  intro j howner
  refine Or.inr ⟨?_, hsocket⟩
  rintro rfl
  exact h.owner_ne hi hplace (hsocket ▸ howner)

/-- One call has the socket for itself, before and after. -/
theorem update_socket (h : s.Orderly) {s' : Connection σ} {f : CallRecord → CallRecord}
    (hi : s.calls[i]? = some record) (hcalls : s'.calls = s.calls.modify i f)
    (habandoned : s'.abandoned = s.abandoned) (hclosed : s'.socket ≠ some .closed)
    (hsome : s'.socket ≠ none) (hfits : (f record).Fits i s'.socket)
    (hbefore : ∀ j, owner s.socket = some j → j = i)
    (hafter : ∀ j, owner s'.socket = some j → j = i ∧ (f record).place = .receiving) :
    s'.Orderly :=
  h.update hi hcalls habandoned hclosed hfits (fun j howner => Or.inl (hafter j howner))
    (Or.inr ⟨hsome, fun j hj howner => hj (hbefore j howner)⟩)

/-- A call is made. -/
theorem append (h : s.Orderly) (broker : CppOrderBookBroker Unit)
    (hfits : ∀ i, record.Fits i s.socket) :
    { s with broker := broker, calls := s.calls ++ [record] }.Orderly := by
  refine ⟨h.notClosed, fun howner => ?_, fun {i record'} hi => ?_, h.abandoned⟩
  · obtain ⟨record', hrecord', hplace⟩ := h.waits howner
    have hlt := (List.getElem?_eq_some_iff.mp hrecord').1
    exact ⟨record', (List.getElem?_append_left hlt).trans hrecord', hplace⟩
  · rcases lt_or_ge i s.calls.length with hlt | hge
    · exact h.fits ((List.getElem?_append_left hlt).symm.trans hi)
    · rw [List.getElem?_append_right hge] at hi
      obtain rfl := List.mem_singleton.mp (List.mem_of_getElem? hi)
      exact hfits i

/-! ## One step in order -/

/-- The socket is open exactly if it is not `None`. -/
theorem isOpen_eq (h : s.Orderly) : s.isOpen = s.socket.isSome := by
  have hclosed := h.notClosed
  unfold Connection.isOpen
  rcases hsocket : s.socket with _ | _ | _ | _ | _ <;> simp_all

/-- The socket of a call that can send. -/
theorem socket_ready (h : s.Orderly) (hsome : s.socket ≠ none) (howner : owner s.socket = none) :
    s.socket = some .ready := by
  have hclosed := h.notClosed
  rcases hsocket : s.socket with _ | _ | _ | _ | _ <;> simp_all

/-- The next operation of a call whose turn it is. -/
theorem stepCall (h : s.Orderly) (hi : s.calls[i]? = some record)
    (hturn : record.place = .sending → ∀ record' ∈ s.calls, record'.place ≠ .receiving) :
    (s.stepCall i record).Orderly := by
  have hfits := h.fits hi
  unfold CallRecord.Fits at hfits
  unfold Connection.stepCall
  cases hplace : record.place with
  | checking =>
      rw [hplace] at hfits
      refine h.update_call hi (by simp [hplace]) rfl rfl rfl ?_
      rw [h.isOpen_eq]
      rcases hsocket : s.socket with _ | socket
      · exact hfits.moveTo .starting
      · exact ⟨hfits.moveTo .sending, by simp⟩
  | starting =>
      rw [hplace] at hfits
      dsimp only
      rw [h.isOpen_eq]
      rcases hsocket : s.socket with _ | socket
      · exact h.update_socket hi rfl rfl (by simp) (by simp) ⟨hfits.moveTo .rechecking, by simp⟩
          (by simp [hsocket]) (by simp)
      · exact h.update_call hi (by simp [hplace]) rfl rfl hsocket.symm
          ⟨hfits.moveTo .rechecking, by simp [hsocket]⟩
  | rechecking =>
      rw [hplace] at hfits
      dsimp only
      rw [if_pos (by rw [h.isOpen_eq]; exact Option.isSome_iff_ne_none.mpr hfits.2)]
      exact h.update_call hi (by simp [hplace]) rfl rfl rfl ⟨hfits.1.moveTo .sending, hfits.2⟩
  | sending =>
      rw [hplace] at hfits
      obtain ⟨request, hrequest⟩ := Option.isSome_iff_exists.mp hfits.1.request
      have howner : owner s.socket = none := by
        rw [Option.eq_none_iff_forall_ne_some]
        intro j howner
        obtain ⟨record', hrecord', hreceiving⟩ := h.waits howner
        exact hturn hplace record' (List.mem_of_getElem? hrecord') hreceiving
      have hready := h.socket_ready hfits.2 howner
      dsimp only
      rw [hready, hrequest]
      exact h.update_socket hi rfl rfl (by simp) (by simp)
        (Or.inl ⟨hfits.1.moveTo .receiving, request, rfl⟩) (by simp [hready]) (by simp)
  | receiving =>
      rw [hplace] at hfits
      rcases hfits with ⟨-, request, hsocket⟩ | ⟨reply, hopen, hanswered, hsocket⟩
      · rw [hsocket]
        exact h
      · rw [hsocket]
        refine h.update_socket hi rfl rfl (by simp) (by simp) ?_ (by simp [hsocket]) (by simp)
        refine Or.inr ⟨reply, rfl, hanswered, fun hrejected hok => ?_⟩
        have hnot := SocketCall.not_dispatchesRejection hopen.priced hok s.broker
        exact Bool.false_ne_true (hnot.symm.trans hrejected)
  | closing | clearing =>
      rw [hplace] at hfits
      exact hfits.elim
  | returned => exact h

/-- A thread makes a call. -/
theorem startCall (h : s.Orderly) (c : SocketCall) : (s.startCall c).Orderly := by
  unfold Connection.startCall
  split
  · exact h
  · cases hrequest : c.request s.broker with
    | some request =>
        exact h.append s.broker fun _ => ⟨SocketCall.priced_of_request hrequest, rfl, rfl, rfl, rfl⟩
    | none => exact h.append _ fun _ => (Or.inl ⟨rfl, rfl⟩)

/-- **One step in turn** leaves the calls in order. -/
theorem apply (h : s.Orderly) {e : SocketEvent} (hturn : s.InTurn e) :
    (s.apply respond e).Orderly := by
  cases e with
  | call c => exact h.startCall c
  | step i =>
      dsimp only [Connection.apply]
      cases hi : s.calls[i]? with
      | none => exact h
      | some record => exact h.stepCall hi (hturn record hi)
  | serve =>
      dsimp only [Connection.apply]
      split
      · next i request hsocket =>
          obtain ⟨record, hi, hplace⟩ := h.waits (by rw [hsocket]; rfl)
          have hfits := h.fits hi
          unfold CallRecord.Fits at hfits
          rw [hplace, hsocket] at hfits
          have hopen : record.Open := by
            rcases hfits with ⟨hopen, -⟩ | ⟨reply, -, -, hanswered⟩
            · exact hopen
            · cases hanswered
          refine h.update_socket hi rfl rfl (by simp) (by simp) ?_ (by simp [hsocket])
            (by simp [hplace])
          unfold CallRecord.Fits
          rw [hplace]
          exact Or.inr ⟨_, ⟨hopen.priced, hopen.request, rfl, hopen.result, hopen.rejected⟩,
            rfl, rfl⟩
      · exact h
  | serveAbandoned k =>
      dsimp only [Connection.apply]
      rw [h.abandoned]
      exact h

end Connection.Orderly

/-! ## Runs in order -/

/-- Every event of the run has its turn. -/
def Exclusive (respond : Json → σ → Reply × σ) : Connection σ → List SocketEvent → Prop
  | _, [] => True
  | s, e :: es => s.InTurn e ∧ Exclusive respond (s.apply respond e) es

/-- Whether every event of a run has its turn is decided. -/
instance decidableExclusive (respond : Json → σ → Reply × σ) : (s : Connection σ) →
    (es : List SocketEvent) → Decidable (Exclusive respond s es)
  | _, [] => .isTrue trivial
  | s, e :: es =>
      have := decidableExclusive respond (s.apply respond e) es
      inferInstanceAs (Decidable (s.InTurn e ∧ Exclusive respond (s.apply respond e) es))

/-- **A run in turn** leaves the calls in order. -/
theorem Connection.Orderly.run : ∀ {es : List SocketEvent} {s : Connection σ}, s.Orderly →
    Exclusive respond s es → (s.run respond es).Orderly
  | [], _, h, _ => h
  | _ :: _, _, h, ⟨hturn, hrest⟩ => (h.apply hturn).run hrest

/-- What the threads may count on: a call that waits is waiting for the server or has its own reply
in the socket; `_send_request_to_ob` has returned to every call its own reply; and no order that
the book has accepted has been reported as rejected. -/
structure Connection.Kept (s : Connection σ) : Prop where
  waits : ∀ {i : ℕ} {record : CallRecord}, s.calls[i]? = some record →
    record.place = .receiving → owner s.socket = some i
  replies : ∀ {i : ℕ} {record : CallRecord} {result : Option (ℕ × Reply)},
    s.calls[i]? = some record → record.result = some result →
    ∃ reply, result = some (i, reply) ∧ record.answered = some reply
  rejections : ∀ {i : ℕ} {record : CallRecord} {reply : Reply}, s.calls[i]? = some record →
    record.rejected = true → record.answered = some reply → reply.status ≠ some .OK

/-- A call that has not returned has no result and has rejected nothing. -/
theorem CallRecord.Fits.open {socket : Option Socket} (h : record.Fits i socket)
    (hplace : record.place ≠ .returned) : record.result = none ∧ record.rejected = false := by
  unfold CallRecord.Fits at h
  cases hplace' : record.place with
  | checking | starting =>
      rw [hplace'] at h
      exact ⟨h.result, h.rejected⟩
  | rechecking | sending =>
      rw [hplace'] at h
      exact ⟨h.1.result, h.1.rejected⟩
  | receiving =>
      rw [hplace'] at h
      rcases h with ⟨hopen, -⟩ | ⟨reply, hopen, -, -⟩
      · exact ⟨hopen.result, hopen.rejected⟩
      · exact ⟨hopen.result, hopen.rejected⟩
  | closing | clearing =>
      rw [hplace'] at h
      exact h.elim
  | returned => exact absurd hplace' hplace

/-- A call that has returned is done. -/
theorem Connection.Orderly.done (h : s.Orderly) (hi : s.calls[i]? = some record)
    (hplace : record.place = .returned) : record.Done i := by
  have hfits := h.fits hi
  unfold CallRecord.Fits at hfits
  rwa [hplace] at hfits

/-- In order, every call that has returned has its reply. -/
theorem Connection.Orderly.kept (h : s.Orderly) : s.Kept := by
  refine ⟨fun hi hplace => (h.fits hi).owner_eq hplace, ?_, ?_⟩
  · intro i record result hi hresult
    by_cases hplace : record.place = .returned
    · rcases h.done hi hplace with ⟨hnone, -⟩ | ⟨reply, hsome, hanswered, -⟩
      · rw [hnone] at hresult
        cases hresult
      · exact ⟨reply, Option.some.inj (hresult.symm.trans hsome), hanswered⟩
    · rw [((h.fits hi).open hplace).1] at hresult
      cases hresult
  · intro i record reply hi hrejected hanswered
    by_cases hplace : record.place = .returned
    · rcases h.done hi hplace with ⟨-, hnone⟩ | ⟨reply', -, hanswered', hstatus⟩
      · rw [hnone] at hanswered
        cases hanswered
      · obtain rfl := Option.some.inj (hanswered.symm.trans hanswered')
        exact hstatus hrejected
    · rw [((h.fits hi).open hplace).2] at hrejected
      cases hrejected

/-! ## Runs to the end -/

/-- What a call has ahead of it: its operations, and the answer of the server. -/
def CallRecord.ahead (record : CallRecord) : ℕ :=
  match record.place with
  | .checking => 6
  | .starting => 5
  | .rechecking => 4
  | .sending => 3
  | .receiving => if record.answered.isNone then 2 else 1
  | .closing | .clearing | .returned => 0

/-- What the calls have ahead of them. -/
def Connection.ahead (s : Connection σ) : ℕ := (s.calls.map CallRecord.ahead).sum

/-- A call that goes on has less ahead of it. -/
theorem ahead_lt {s' : Connection σ} {f : CallRecord → CallRecord} (hi : s.calls[i]? = some record)
    (hcalls : s'.calls = s.calls.modify i f) (hlt : (f record).ahead < record.ahead) :
    s'.ahead < s.ahead := by
  unfold Connection.ahead
  rw [hcalls]
  exact sum_map_modify_lt hi hlt

namespace Connection.Orderly

/-- While no call waits for a reply, every call can go on. -/
theorem ahead_stepCall (h : s.Orderly) (hi : s.calls[i]? = some record)
    (howner : owner s.socket = none) (hplace : record.place ≠ .returned) :
    (s.stepCall i record).ahead < s.ahead := by
  have hfits := h.fits hi
  have howner_eq := hfits.owner_eq
  unfold CallRecord.Fits at hfits
  unfold Connection.stepCall
  cases hplace' : record.place with
  | checking =>
      refine ahead_lt hi rfl ?_
      unfold CallRecord.ahead
      rw [hplace']
      split_ifs <;> simp
  | starting => exact ahead_lt hi rfl (by simp [CallRecord.ahead, hplace'])
  | rechecking =>
      rw [hplace'] at hfits
      dsimp only
      rw [if_pos (by rw [h.isOpen_eq]; exact Option.isSome_iff_ne_none.mpr hfits.2)]
      exact ahead_lt hi rfl (by simp [CallRecord.ahead, hplace'])
  | sending =>
      rw [hplace'] at hfits
      obtain ⟨request, hrequest⟩ := Option.isSome_iff_exists.mp hfits.1.request
      dsimp only
      rw [h.socket_ready hfits.2 howner, hrequest]
      refine ahead_lt hi rfl ?_
      simp only [CallRecord.ahead, hplace']
      split_ifs <;> simp
  | receiving => exact absurd (howner_eq hplace') (by simp [howner])
  | closing | clearing =>
      rw [hplace'] at hfits
      exact hfits.elim
  | returned => exact absurd hplace' hplace

/-- As long as a call has not returned, there is an event in turn that brings the calls nearer to
their ends. -/
theorem exists_ahead_lt (h : s.Orderly) (hmem : record ∈ s.calls) (hplace : record.place ≠ .returned) :
    ∃ e, s.InTurn e ∧ (s.apply respond e).ahead < s.ahead := by
  obtain ⟨i, hi⟩ := List.mem_iff_getElem?.mp hmem
  rcases howner : owner s.socket with _ | j
  · refine ⟨.step i, ?_, ?_⟩
    · intro _ _ _ record' hrecord' hreceiving
      obtain ⟨j, hj⟩ := List.mem_iff_getElem?.mp hrecord'
      have howner' := (h.fits hj).owner_eq hreceiving
      simp [howner] at howner'
    · simpa only [Connection.apply, hi] using h.ahead_stepCall hi howner hplace
  · obtain ⟨record', hj, hreceiving⟩ := h.waits howner
    have hfits := h.fits hj
    unfold CallRecord.Fits at hfits
    rw [hreceiving] at hfits
    rcases hfits with ⟨hopen, request, hsocket⟩ | ⟨reply, -, hanswered, hsocket⟩
    · refine ⟨.serve, trivial, ?_⟩
      simp only [Connection.apply, hsocket]
      exact ahead_lt hj rfl (by simp [CallRecord.ahead, hreceiving, hopen.answered])
    · refine ⟨.step j, ?_, ?_⟩
      · intro record hrecord hsending
        obtain rfl := Option.some.inj (hj.symm.trans hrecord)
        rw [hreceiving] at hsending
        cases hsending
      · simp only [Connection.apply, hj, Connection.stepCall, hreceiving, hsocket]
        exact ahead_lt hj rfl (by simp [CallRecord.ahead, hreceiving, hanswered])

/-- **Calls in order can all return**, in turn. -/
theorem exists_returned (h : s.Orderly) : ∃ es, Exclusive respond s es ∧
    ∀ record ∈ (s.run respond es).calls, record.place = .returned := by
  induction hn : s.ahead using Nat.strong_induction_on generalizing s with
  | _ n ih =>
    by_cases hall : ∀ record ∈ s.calls, record.place = .returned
    · exact ⟨[], trivial, hall⟩
    · push Not at hall
      obtain ⟨record, hmem, hplace⟩ := hall
      obtain ⟨e, hturn, hlt⟩ := h.exists_ahead_lt hmem hplace
      obtain ⟨es, hexclusive, hreturned⟩ := ih _ (hn ▸ hlt) (h.apply hturn) rfl
      exact ⟨e :: es, ⟨hturn, hexclusive⟩, hreturned⟩

end Connection.Orderly

end order

end FlowManager.Broker
