import FlowManager.Broker.Faults
import FlowManager.Broker.OwnReplies
import FlowManager.Lib.Transducer

/-!
# What holds in spite of the faults

Whatever goes wrong, and whoever calls, the server executes the request of each call at most once,
because a call sends once and a request that has been sent is in one place: in a socket, or among
those of closed sockets (`Flight`). In a run in which no call begins to send while another sends or
waits, a reply that `_send_request_to_ob` returns is the reply to the request of that very call
(`Own`), also where earlier calls have given up on theirs, and where other threads replace the
socket meanwhile.
-/

namespace FlowManager.Broker

open FlowManager.Lib FlowManager.Server

section faults

variable {σ : Type} {respond : Json → σ → Reply × σ} {s s' : Line σ} {e : LineEvent}
  {i j k n : ℕ} {task : Task} {place : LinePlace} {request : Json} {reply : Reply}
  {done new : List Execution} {f : Task → Task}

/-! ## A thread that goes on -/

/-- A task goes to a place, and keeps its errand, its request and its answer. -/
structure GoesTo (f : Task → Task) (goal : LinePlace) : Prop where
  place : ∀ task, (f task).place = goal
  errand : ∀ task, (f task).errand = task.errand
  request : ∀ task, (f task).request = task.request
  answered : ∀ task, (f task).answered = task.answered
  result : ∀ task, (f task).result = if goal = .returned then some none else task.result

/-- A thread goes on at a place, and nothing but its task and the broker changes. -/
def GoesOn (s : Line σ) (i : ℕ) (place : LinePlace) (s' : Line σ) : Prop :=
  ∃ f broker, GoesTo f place ∧ s' = ({ s with broker := broker } : Line σ).write i f

/-- A thread that goes to a place goes on there. -/
theorem goesOn_goTo (h : place ≠ .returned) : GoesOn s i place (s.goTo i place) := by
  refine ⟨fun task => { task with place := place }, s.broker, ?_, rfl⟩
  exact ⟨fun _ => rfl, fun _ => rfl, fun _ => rfl, fun _ => rfl, fun _ => (if_neg h).symm⟩

/-- A method that returns `None` is over. -/
theorem goesOn_finish : GoesOn s i .returned (s.finish i task none) := by
  refine ⟨fun task => { task with place := .returned, result := some none },
    task.errand.after none s.broker, ?_, rfl⟩
  exact ⟨fun _ => rfl, fun _ => rfl, fun _ => rfl, fun _ => rfl, fun _ => rfl⟩

/-- A thread that proceeds goes on, at the place or at the end of its method. -/
theorem goesOn_proceed : GoesOn s i place (s.proceed i task place) := by
  by_cases hplace : place = .returned
  · rw [hplace, proceed_returned]
    exact goesOn_finish
  · rw [proceed_of_ne task hplace]
    exact goesOn_goTo hplace

/-! ## Requests on their way -/

/-- The requests that the server may still execute. -/
def Line.inFlight (s : Line σ) : List (ℕ × Json) :=
  s.sockets.flatMap SocketObject.sending ++ s.abandoned

/-- What is on its way where a socket has been found in one state and put in another. -/
theorem inFlight_put {object : SocketObject} (hk : s.sockets[k]? = some object)
    (object' : SocketObject) :
    ((s.put k object').inFlight ++ object.sending).Perm (s.inFlight ++ object'.sending) := by
  have hset := perm_flatMap_set SocketObject.sending object' hk
  calc (s.sockets.set k object').flatMap SocketObject.sending ++ s.abandoned ++ object.sending
    _ = (s.sockets.set k object').flatMap SocketObject.sending ++
          (s.abandoned ++ object.sending) := List.append_assoc _ _ _
    List.Perm _ ((s.sockets.set k object').flatMap SocketObject.sending ++
          (object.sending ++ s.abandoned)) := List.perm_append_comm.append_left _
    _ = (s.sockets.set k object').flatMap SocketObject.sending ++ object.sending ++
          s.abandoned := (List.append_assoc _ _ _).symm
    List.Perm _ (s.sockets.flatMap SocketObject.sending ++ object'.sending ++ s.abandoned) :=
          hset.append_right _
    _ = s.sockets.flatMap SocketObject.sending ++ (object'.sending ++ s.abandoned) :=
          List.append_assoc _ _ _
    List.Perm _ (s.sockets.flatMap SocketObject.sending ++ (s.abandoned ++ object'.sending)) :=
          List.perm_append_comm.append_left _
    _ = s.inFlight ++ object'.sending := (List.append_assoc _ _ _).symm

/-- Nothing gets on its way where a socket that has sent nothing is put in such a state. -/
theorem inFlight_put_of_nil {object object' : SocketObject} (hk : s.sockets[k]? = some object)
    (hobject : object.sending = []) (hobject' : object'.sending = []) :
    (s.put k object').inFlight.Perm s.inFlight := by
  have hput := inFlight_put hk object'
  rwa [hobject, hobject', List.append_nil, List.append_nil] at hput

/-- The request of a socket that is closed stays on its way. -/
theorem inFlight_close (s : Line σ) (k : ℕ) : (s.close k).inFlight.Perm s.inFlight := by
  have happend : (s.close k).inFlight =
      (s.put k .closed).inFlight ++ (s.sockets[k]?).elim [] SocketObject.sending :=
    (List.append_assoc _ _ _).symm
  rw [happend]
  cases hk : s.sockets[k]? with
  | none =>
      have hset : s.put k .closed = s := by
        unfold Line.put
        rw [List.set_eq_of_length_le (List.getElem?_eq_none_iff.mp hk)]
      rw [hset]
      exact .of_eq (List.append_nil _)
  | some object =>
      have hput := inFlight_put hk .closed
      rwa [show SocketObject.closed.sending = [] from rfl, List.append_nil] at hput

/-- A socket that is created has sent nothing. -/
theorem inFlight_create (s : Line σ) : s.create.inFlight = s.inFlight := by
  unfold Line.inFlight Line.create
  rw [List.flatMap_append]
  exact congrArg (· ++ s.abandoned) (List.append_nil _)

/-- A call at this place is not going to send any more. -/
def LinePlace.PastSending : LinePlace → Prop
  | .looks .receives | .uses .receives _ | .holds | .looks .closesFaulty | .uses .closesFaulty _
  | .clears .faulty | .returned | .raised => True
  | _ => False

/-- A step leaves a call past sending. -/
theorem Onward.pastSending {errand : Errand} {place place' : LinePlace}
    (h : Onward s errand place place') (hpast : place.PastSending) : place'.PastSending := by
  cases h with
  | isNone _ | isSome _ | vanished _ | looksAgain _ | shut _ | opened _ | cannotSet _ | sets _
    | cannotConnect _ | isConnected _ => exact hpast.elim
  | @usesNone use _ => cases use <;> first | exact hpast.elim | trivial
  | @looks use _ _ => cases use <;> first | exact hpast.elim | trivial
  | sendsOutOfTurn _ | receivesOutOfTurn _ | holdsNone _ | holds _ => trivial

/-- A fault leaves a call past sending. -/
theorem LineFault.pastSending {errand : Errand} {place place' : LinePlace}
    (h : LineFault s errand place place' n) (hpast : place.PastSending) : place'.PastSending := by
  cases h with
  | sendingTimesOut _ _ | receivingTimesOut _ | sendingRaises _ _ | receivingRaises _ _ => trivial
  | unconnected _ => exact hpast.elim

/-- A thread that closes a socket and clears `self.socket` stays past sending. -/
theorem Closes.pastSending {use : SocketUse} {what : SocketClear} (h : Closes use what)
    (hpast : (LinePlace.uses use k).PastSending) : (LinePlace.clears what).PastSending := by
  cases h with
  | unconnected | stopped => exact hpast.elim
  | faulty => trivial

/-- What is on its way or has been executed, no request twice, is what calls have sent. -/
structure Flight (s : Line σ) (done : List Execution) : Prop where
  once : (s.inFlight.map Prod.fst ++ done.map Execution.call).Nodup
  sent : ∀ p ∈ s.inFlight, ∃ task, s.tasks[p.1]? = some task ∧ task.request = some p.2 ∧
    task.place.PastSending
  executed : ∀ x ∈ done, ∃ task, s.tasks[x.call]? = some task ∧ task.request = some x.request ∧
    task.answered = some x.reply ∧ task.place.PastSending

/-- Calls past sending stay so, with their requests and answers. -/
def KeepsSent (s s' : Line σ) : Prop :=
  ∀ (i : ℕ) (task : Task), s.tasks[i]? = some task → task.place.PastSending →
    ∃ task' : Task, s'.tasks[i]? = some task' ∧ task'.request = task.request ∧
      task'.answered = task.answered ∧ task'.place.PastSending

/-- Where the tasks are the same, so are those past sending. -/
theorem keepsSent_of_tasks_eq (h : s'.tasks = s.tasks) : KeepsSent s s' := by
  intro i task hi hpast
  exact ⟨task, h ▸ hi, rfl, rfl, hpast⟩

/-- A new task changes none before it. -/
theorem keepsSent_append (h : s'.tasks = s.tasks ++ [task]) : KeepsSent s s' := by
  intro i task' hi hpast
  have hlt := (List.getElem?_eq_some_iff.mp hi).1
  exact ⟨task', h ▸ (List.getElem?_append_left hlt).trans hi, rfl, rfl, hpast⟩

/-- One task changes. -/
theorem keepsSent_modify (hi : s.tasks[i]? = some task) (h : s'.tasks = s.tasks.modify i f)
    (hf : task.place.PastSending → (f task).request = task.request ∧
      (f task).answered = task.answered ∧ (f task).place.PastSending) : KeepsSent s s' := by
  intro j task' hj hpast
  rw [h]
  by_cases hji : i = j
  · subst hji
    obtain rfl := Option.some.inj (hi.symm.trans hj)
    exact ⟨f task, getElem?_modify_of_some f hi, hf hpast⟩
  · exact ⟨task', (List.getElem?_modify_ne f _ hji).trans hj, rfl, rfl, hpast⟩

/-- A thread goes on, and one that is past sending stays so. -/
theorem keepsSent_goesOn {s₁ : Line σ} (hgoes : GoesOn s₁ i place s')
    (htasks : s₁.tasks = s.tasks) (hi : s.tasks[i]? = some task)
    (hpast : task.place.PastSending → place.PastSending) : KeepsSent s s' := by
  obtain ⟨f, broker, hf, rfl⟩ := hgoes
  refine keepsSent_modify hi (congrArg (List.modify · i f) htasks) fun hsent => ?_
  exact ⟨hf.request _, hf.answered _, (hf.place task).symm ▸ hpast hsent⟩

/-- What is on its way is not changed by where a thread is. -/
theorem inFlight_goesOn {s₁ : Line σ} (hgoes : GoesOn s₁ i place s') :
    s'.inFlight = s₁.inFlight := by
  obtain ⟨f, broker, -, rfl⟩ := hgoes
  rfl

namespace Flight

/-- Nothing is sent and nothing executed. -/
theorem of_keepsSent (h : Flight s done) (hflight : s'.inFlight.Perm s.inFlight)
    (hkeeps : KeepsSent s s') : Flight s' done := by
  refine ⟨?_, ?_, ?_⟩
  · exact ((hflight.map Prod.fst).append_right _).nodup_iff.mpr h.once
  · intro p hp
    obtain ⟨task, hi, hrequest, hpast⟩ := h.sent p (hflight.subset hp)
    obtain ⟨task', hi', hrequest', -, hpast'⟩ := hkeeps _ _ hi hpast
    exact ⟨task', hi', hrequest'.trans hrequest, hpast'⟩
  · intro x hx
    obtain ⟨task, hi, hrequest, hanswered, hpast⟩ := h.executed x hx
    obtain ⟨task', hi', hrequest', hanswered', hpast'⟩ := hkeeps _ _ hi hpast
    exact ⟨task', hi', hrequest'.trans hrequest, hanswered'.trans hanswered, hpast'⟩

/-- A call sends. -/
theorem send (h : Flight s done) (hi : s.tasks[i]? = some task)
    (hplace : task.place = .uses .sends k) (hrequest : task.request = some request)
    (hflight : s'.inFlight.Perm ((i, request) :: s.inFlight))
    (htasks : s'.tasks = s.tasks.modify i f) (hkept : (f task).request = task.request)
    (hpast : (f task).place.PastSending) : Flight s' done := by
  have hnot : ¬task.place.PastSending := by
    rw [hplace]
    exact id
  have hkeeps : KeepsSent s s' := keepsSent_modify hi htasks fun hsent => absurd hsent hnot
  -- a call that has not sent is not on its way, and has not been executed
  have hfresh : i ∉ s.inFlight.map Prod.fst ++ done.map Execution.call := by
    intro hmem
    rcases List.mem_append.mp hmem with hmem | hmem
    · obtain ⟨p, hp, rfl⟩ := List.mem_map.mp hmem
      obtain ⟨task', hi', -, hsent⟩ := h.sent p hp
      obtain rfl := Option.some.inj (hi.symm.trans hi')
      exact hnot hsent
    · obtain ⟨x, hx, rfl⟩ := List.mem_map.mp hmem
      obtain ⟨task', hi', -, -, hsent⟩ := h.executed x hx
      obtain rfl := Option.some.inj (hi.symm.trans hi')
      exact hnot hsent
  refine ⟨?_, ?_, ?_⟩
  · refine ((hflight.map Prod.fst).append_right _).nodup_iff.mpr ?_
    rw [List.map_cons, List.cons_append, List.nodup_cons]
    exact ⟨hfresh, h.once⟩
  · intro p hp
    rcases List.mem_cons.mp (hflight.subset hp) with rfl | hp
    · exact ⟨f task, htasks ▸ getElem?_modify_of_some f hi, hkept.trans hrequest, hpast⟩
    · obtain ⟨task', hi', hrequest', hsent⟩ := h.sent p hp
      obtain ⟨task'', hi'', hrequest'', -, hsent''⟩ := hkeeps _ _ hi' hsent
      exact ⟨task'', hi'', hrequest''.trans hrequest', hsent''⟩
  · intro x hx
    obtain ⟨task', hi', hrequest', hanswered, hsent⟩ := h.executed x hx
    obtain ⟨task'', hi'', hrequest'', hanswered'', hsent''⟩ := hkeeps _ _ hi' hsent
    exact ⟨task'', hi'', hrequest''.trans hrequest', hanswered''.trans hanswered, hsent''⟩

/-- The server executes a request. -/
theorem execute (h : Flight s done) (hflight : s.inFlight.Perm ((i, request) :: s'.inFlight))
    (htasks : s'.tasks = s.tasks.modify i fun task => { task with answered := some reply }) :
    Flight s' (done ++ [⟨i, request, reply⟩]) := by
  have honce : (i :: (s'.inFlight.map Prod.fst ++ done.map Execution.call)).Nodup :=
    ((hflight.map Prod.fst).append_right _).nodup_iff.mp h.once
  have hfresh := (List.nodup_cons.mp honce).1
  -- the other calls have what they had
  have hother : ∀ j, j ≠ i → s'.tasks[j]? = s.tasks[j]? := by
    intro j hj
    rw [htasks]
    exact List.getElem?_modify_ne _ _ (Ne.symm hj)
  refine ⟨?_, ?_, ?_⟩
  · rw [List.map_append, List.map_singleton, ← List.append_assoc]
    exact (List.perm_append_singleton _ _).nodup_iff.mpr honce
  · intro p hp
    have hne : p.1 ≠ i := by
      rintro rfl
      exact hfresh (List.mem_append_left _ (List.mem_map_of_mem hp))
    obtain ⟨task, hi, hrequest, hpast⟩ := h.sent p (hflight.mem_iff.mpr (List.mem_cons_of_mem _ hp))
    exact ⟨task, (hother _ hne).trans hi, hrequest, hpast⟩
  · intro x hx
    rcases List.mem_append.mp hx with hold | hx
    · have hne : x.call ≠ i := by
        rintro rfl
        exact hfresh (List.mem_append_right _ (List.mem_map_of_mem hold))
      obtain ⟨task, hi, hrequest, hanswered, hpast⟩ := h.executed x hold
      exact ⟨task, (hother _ hne).trans hi, hrequest, hanswered, hpast⟩
    · rw [List.mem_singleton.mp hx]
      obtain ⟨task, hi, hrequest, hpast⟩ := h.sent (i, request)
        (hflight.mem_iff.mpr List.mem_cons_self)
      refine ⟨{ task with answered := some reply }, ?_, hrequest, rfl, hpast⟩
      rw [htasks]
      exact getElem?_modify_of_some _ hi

end Flight

/-- **One event** keeps the requests apart. -/
theorem Flight.move (h : Flight s done) (hmove : Move respond s e n new s') :
    Flight s' (done ++ new) := by
  have hquiet : ∀ {s' : Line σ}, s'.inFlight.Perm s.inFlight → KeepsSent s s' →
      Flight s' (done ++ []) := by
    intro s' hflight hkeeps
    rw [List.append_nil]
    exact h.of_keepsSent hflight hkeeps
  -- a thread goes on, after a change of the sockets that keeps what is on its way
  have hgoesOn : ∀ {s₁ s' : Line σ} {i : ℕ} {task : Task} {place : LinePlace},
      GoesOn s₁ i place s' → s₁.tasks = s.tasks → s₁.inFlight.Perm s.inFlight →
      s.tasks[i]? = some task → (task.place.PastSending → place.PastSending) →
      Flight s' (done ++ []) := by
    intro s₁ s' i task place hgoes htasks hflight hi hpast
    exact hquiet (inFlight_goesOn hgoes ▸ hflight) (keepsSent_goesOn hgoes htasks hi hpast)
  cases hmove with
  | nothing => exact hquiet (.refl _) (keepsSent_of_tasks_eq rfl)
  | begins _ _ _ => exact hquiet (.refl _) (keepsSent_append rfl)
  | goes _ hi honward => exact hgoesOn goesOn_proceed rfl (.refl _) hi honward.pastSending
  | fails hi hfault => exact hgoesOn goesOn_proceed rfl (.refl _) hi hfault.pastSending
  | creates hi hplace =>
      exact hgoesOn (goesOn_goTo (by simp)) rfl (.of_eq (inFlight_create s)) hi
        (hplace ▸ False.elim)
  | connects hi hplace hk =>
      exact hgoesOn goesOn_proceed rfl (inFlight_put_of_nil hk rfl rfl) hi (hplace ▸ False.elim)
  | closes hi hplace hcloses =>
      exact hgoesOn (goesOn_goTo (by simp)) rfl (inFlight_close s _) hi
        (hplace ▸ hcloses.pastSending)
  | @clears i task what hi hplace =>
      refine hgoesOn goesOn_proceed rfl (.refl _) hi (hplace ▸ fun hpast => ?_)
      cases what with
      | faulty => trivial
      | unconnected | stopped => exact hpast.elim
  | @sends i k task request hi hplace hk hrequest =>
      rw [List.append_nil]
      refine h.send hi hplace hrequest ?_ rfl rfl trivial
      have hput := inFlight_put hk (.sent i request)
      rw [show SocketObject.ready.sending = [] from rfl, List.append_nil] at hput
      exact hput.trans (List.perm_append_singleton _ _)
  | gets hi hplace hk =>
      exact hquiet (inFlight_put_of_nil hk rfl rfl)
        (keepsSent_modify hi rfl fun _ => ⟨rfl, rfl, trivial⟩)
  | garbles hi hplace hk =>
      exact hgoesOn goesOn_finish rfl (inFlight_put_of_nil hk rfl rfl) hi fun _ => trivial
  | @serves i k request hk =>
      refine h.execute ?_ rfl
      have hput := inFlight_put hk (.answered i (respond request s.server).1)
      rw [show (SocketObject.answered i _).sending = [] from rfl, List.append_nil] at hput
      exact hput.symm.trans (List.perm_append_singleton _ _)
  | @servesAbandoned i k request hk =>
      refine h.execute ?_ rfl
      exact ((perm_cons_eraseIdx hk).append_left _).trans List.perm_middle

/-! ## The server on the requests that it executes -/

/-- What is executed in an event is one run of the server. -/
theorem Move.run_server (hmove : Move respond s e n new s') :
    (Transducer.mk respond).run (new.map Execution.request) s.server =
      (new.map Execution.reply, s'.server) := by
  have hproceed : ∀ (s : Line σ) (i : ℕ) (task : Task) (place : LinePlace),
      (s.proceed i task place).server = s.server := by
    intro s i task place
    have hgoes : GoesOn s i place (s.proceed i task place) := goesOn_proceed
    obtain ⟨f, broker, -, heq⟩ := hgoes
    rw [heq]
    rfl
  cases hmove with
  | goes _ _ _ | fails _ _ => exact congrArg (Prod.mk []) (hproceed s _ _ _).symm
  | connects _ _ _ => exact congrArg (Prod.mk []) (hproceed (s.put _ .ready) _ _ _).symm
  | clears _ _ => exact congrArg (Prod.mk []) (hproceed s.clear _ _ _).symm
  | nothing | begins _ _ _ | creates _ _ | closes _ _ _ | sends _ _ _ _ | gets _ _ _
    | garbles _ _ _ | serves _ | servesAbandoned _ => rfl

/-! ## Replies -/

/-- A call at this place sends, or has sent and waits for the reply. -/
def LinePlace.inTransit : LinePlace → Bool
  | .uses .sends _ | .looks .receives | .uses .receives _ => true
  | _ => false

/-- An event in its turn: no call begins to send while another sends or waits for its reply. -/
def Line.InTurn (s : Line σ) : LineEvent → Prop
  | .step i => ∀ task ∈ s.tasks[i]?, task.place = .looks .sends →
      ∀ task' ∈ s.tasks, task'.place.inTransit = false
  | _ => True

/-- Whether an event has its turn is decided. -/
instance (s : Line σ) : (e : LineEvent) → Decidable (s.InTurn e)
  | .step i => inferInstanceAs (Decidable (∀ task ∈ s.tasks[i]?, task.place = .looks .sends →
      ∀ task' ∈ s.tasks, task'.place.inTransit = false))
  | .begins _ | .serve _ | .serveAbandoned _ | .timesOut _ | .raises _ | .undecodable _
  | .unconnected _ => .isTrue trivial

/-- Every event of the run has its turn. -/
def ExclusiveLine (respond : Json → σ → Reply × σ) : Line σ → List LineEvent → Prop
  | _, [] => True
  | s, e :: es => s.InTurn e ∧ ExclusiveLine respond (s.apply respond e) es

/-- Whether every event of a run has its turn is decided. -/
instance decidableExclusiveLine (respond : Json → σ → Reply × σ) : (s : Line σ) →
    (es : List LineEvent) → Decidable (ExclusiveLine respond s es)
  | _, [] => .isTrue trivial
  | s, e :: es =>
      have := decidableExclusiveLine respond (s.apply respond e) es
      inferInstanceAs (Decidable (s.InTurn e ∧ ExclusiveLine respond (s.apply respond e) es))

/-- The server has executed the request of a call with this reply. -/
def Answered (done : List Execution) (i : ℕ) (reply : Reply) : Prop :=
  ∃ x ∈ done, x.call = i ∧ x.reply = reply

/-- What has been executed stays so. -/
theorem Answered.append (h : Answered done i reply) (new : List Execution) :
    Answered (done ++ new) i reply := by
  obtain ⟨x, hx, hcall⟩ := h
  exact ⟨x, List.mem_append_left _ hx, hcall⟩

/-- The call that a socket is busy with. -/
def Line.ownerOf (s : Line σ) (k : ℕ) : Option ℕ := (s.sockets[k]?).bind SocketObject.owner

/-- The call that `self.socket` is busy with. -/
def Line.owner (s : Line σ) : Option ℕ := s.socket.bind s.ownerOf

/-- What a call in transit finds in the socket is its own: the socket that it has looked up to send
is still `self.socket`, or another that is busy with no call has taken its place; and the socket
that it receives from is busy with no other call. -/
def Waits (s : Line σ) (i : ℕ) : LinePlace → Prop
  | .uses .sends k => s.socket = some k ∨ s.owner = none
  | .looks .receives => ∀ j, s.owner = some j → j = i
  | .uses .receives k => ∀ j, s.ownerOf k = some j → j = i
  | _ => True

/-- A call that is not in transit waits for nothing. -/
theorem waits_of_not_inTransit (h : place.inTransit = false) : Waits s i place := by
  cases place with
  | looks use =>
      cases use with
      | receives => cases h
      | setsOptions | connects | closesUnconnected | sends | closesFaulty | closesStopped =>
          trivial
  | uses use k =>
      cases use with
      | sends | receives => cases h
      | setsOptions | connects | closesUnconnected | closesFaulty | closesStopped => trivial
  | isNone _ | looksAgain _ | readsClosed _ _ | creates | holds | clears _ | returned | raised =>
      trivial

/-! ### Sockets that no call gets -/

/-- No socket gets busy with a call, and `self.socket` stays or is replaced by one that is busy with
none. -/
structure NoNewOwner (s s' : Line σ) : Prop where
  ownerOf : ∀ k, s'.ownerOf k = s.ownerOf k ∨ s'.ownerOf k = none
  socket : s'.socket = s.socket ∨ s'.owner = none

namespace NoNewOwner

/-- Nothing happens to the sockets. -/
theorem refl (s : Line σ) : NoNewOwner s s := ⟨fun _ => Or.inl rfl, Or.inl rfl⟩

/-- `self.socket` is busy with the call that it was busy with, or with none. -/
theorem owner (h : NoNewOwner s s') : s'.owner = s.owner ∨ s'.owner = none := by
  rcases h.socket with hsocket | hnone
  · unfold Line.owner
    rw [hsocket]
    cases s.socket with
    | none => exact Or.inl rfl
    | some k => exact h.ownerOf k
  · exact Or.inr hnone

/-- A call that waits does so still. -/
theorem waits (h : NoNewOwner s s') (hwaits : Waits s i place) : Waits s' i place := by
  have howner : ∀ {before after : Option ℕ}, after = before ∨ after = none →
      (∀ j, before = some j → j = i) → ∀ j, after = some j → j = i := by
    rintro before after (rfl | rfl) hbefore j hj
    · exact hbefore j hj
    · cases hj
  cases place with
  | looks use =>
      cases use with
      | receives => exact howner h.owner hwaits
      | setsOptions | connects | closesUnconnected | sends | closesFaulty | closesStopped =>
          trivial
  | uses use k =>
      cases use with
      | sends =>
          rcases h.socket with hsocket | hnone
          · rcases hwaits with hk | hfree
            · exact Or.inl (hsocket.trans hk)
            · rcases h.owner with hsame | hnone
              · exact Or.inr (hsame.trans hfree)
              · exact Or.inr hnone
          · exact Or.inr hnone
      | receives => exact howner (h.ownerOf k) hwaits
      | setsOptions | connects | closesUnconnected | closesFaulty | closesStopped => trivial
  | isNone _ | looksAgain _ | readsClosed _ _ | creates | holds | clears _ | returned | raised =>
      trivial

end NoNewOwner

/-- The sockets once one is in a new state. -/
theorem ownerOf_put (s : Line σ) (k : ℕ) (object : SocketObject) (k' : ℕ) :
    (s.put k object).ownerOf k' = s.ownerOf k' ∨
      k = k' ∧ (s.put k object).ownerOf k' = object.owner := by
  unfold Line.ownerOf Line.put
  rw [List.getElem?_set]
  split
  · next hk =>
      split
      · exact Or.inr ⟨hk, rfl⟩
      · next hlt =>
          subst hk
          rw [List.getElem?_eq_none (not_lt.mp hlt)]
          exact Or.inl rfl
  · exact Or.inl rfl

/-- The socket that is in a new state. -/
theorem ownerOf_put_self {before : SocketObject} (hk : s.sockets[k]? = some before)
    (object : SocketObject) : (s.put k object).ownerOf k = object.owner := by
  unfold Line.ownerOf Line.put
  rw [List.getElem?_set_self (List.getElem?_eq_some_iff.mp hk).1]
  rfl

/-- A socket is put in a state in which it is busy with no call. -/
theorem quiet_put {object : SocketObject} (h : object.owner = none) :
    NoNewOwner s (s.put k object) := by
  refine ⟨fun k' => ?_, Or.inl rfl⟩
  rcases ownerOf_put s k object k' with hsame | ⟨-, hnew⟩
  · exact Or.inl hsame
  · exact Or.inr (hnew.trans h)

/-- A socket is closed. -/
theorem quiet_close (s : Line σ) (k : ℕ) : NoNewOwner s (s.close k) :=
  ⟨(quiet_put rfl : NoNewOwner s (s.put k .closed)).ownerOf, Or.inl rfl⟩

/-- A socket is created. -/
theorem quiet_create (s : Line σ) : NoNewOwner s s.create := by
  have hnew : s.create.ownerOf s.sockets.length = none := by
    unfold Line.ownerOf Line.create
    rw [List.getElem?_concat_length]
    rfl
  refine ⟨fun k => ?_, Or.inr hnew⟩
  unfold Line.ownerOf Line.create
  rcases lt_trichotomy k s.sockets.length with hlt | rfl | hlt
  · exact Or.inl (congrArg (Option.bind · _) (List.getElem?_append_left hlt))
  · exact Or.inr hnew
  · refine Or.inr (congrArg (Option.bind · SocketObject.owner) (List.getElem?_eq_none ?_))
    rw [List.length_append]
    exact hlt

/-- `self.socket` is set to `None`. -/
theorem quiet_clear (s : Line σ) : NoNewOwner s s.clear := ⟨fun _ => Or.inl rfl, Or.inr rfl⟩

/-! ### Every call and its own reply -/

/-- A call in transit finds nothing of another call, no two calls are in transit, a reply in a
socket is that of the call that it is kept for, and a reply that has been returned is the caller's
own. -/
structure Own (s : Line σ) (done : List Execution) : Prop where
  waits : ∀ {i : ℕ} {task : Task}, s.tasks[i]? = some task → Waits s i task.place
  alone : ∀ {i j : ℕ} {task task' : Task}, s.tasks[i]? = some task → s.tasks[j]? = some task' →
    task.place.inTransit = true → task'.place.inTransit = true → i = j
  answered : ∀ {k i : ℕ} {reply : Reply}, s.sockets[k]? = some (.answered i reply) →
    Answered done i reply
  results : ∀ {i : ℕ} {task : Task} {j : ℕ} {reply : Reply}, s.tasks[i]? = some task →
    task.result = some (some (j, reply)) → j = i ∧ Answered done i reply

/-- Replies are in the sockets in which they were, or in none. -/
def KeepsReplies (s s' : Line σ) : Prop :=
  ∀ {k i : ℕ} {reply : Reply}, s'.sockets[k]? = some (.answered i reply) →
    s.sockets[k]? = some (.answered i reply)

/-- A state without a reply takes none into a socket. -/
theorem keepsReplies_put {object : SocketObject} (h : ∀ i reply, object ≠ .answered i reply) :
    KeepsReplies s (s.put k object) := by
  intro k' i reply hk'
  unfold Line.put at hk'
  rw [List.getElem?_set] at hk'
  split at hk'
  · split at hk'
    · exact absurd (Option.some.inj hk') (h i reply)
    · cases hk'
  · exact hk'

/-- A socket that is created holds no reply. -/
theorem keepsReplies_create (s : Line σ) : KeepsReplies s s.create := by
  intro k i reply hk
  unfold Line.create at hk
  rcases lt_or_ge k s.sockets.length with hlt | hge
  · exact (List.getElem?_append_left hlt).symm.trans hk
  · rw [List.getElem?_append_right hge] at hk
    exact absurd (List.mem_singleton.mp (List.mem_of_getElem? hk)) (by simp)

namespace Own

/-- The server has executed something. -/
theorem mono (h : Own s done) (new : List Execution) : Own s (done ++ new) := by
  refine ⟨h.waits, h.alone, fun hsocket => (h.answered hsocket).append new, fun hi hresult => ?_⟩
  obtain ⟨hj, hanswered⟩ := h.results hi hresult
  exact ⟨hj, hanswered.append new⟩

/-- One task changes, and no call gets a socket but the one whose task it is. -/
theorem update (h : Own s done) (hi : s.tasks[i]? = some task)
    (htasks : s'.tasks = s.tasks.modify i f)
    (hothers : ∀ j task', j ≠ i → s.tasks[j]? = some task' → Waits s' j task'.place)
    (hwaits : Waits s' i (f task).place)
    (htransit : (f task).place.inTransit = true → task.place.inTransit = true ∨
      ∀ task' ∈ s.tasks, task'.place.inTransit = false)
    (hanswered : KeepsReplies s s')
    (hresult : ∀ j reply, (f task).result = some (some (j, reply)) →
      task.result = some (some (j, reply)) ∨ j = i ∧ Answered done i reply) : Own s' done := by
  have hcases : ∀ {j : ℕ} {task' : Task}, s'.tasks[j]? = some task' →
      (j = i ∧ task' = f task) ∨ (j ≠ i ∧ s.tasks[j]? = some task') := by
    intro j task' hj
    rw [htasks] at hj
    rcases getElem?_modify_cases hj with ⟨rfl, before, hbefore, rfl⟩ | hother
    · obtain rfl := Option.some.inj (hi.symm.trans hbefore)
      exact Or.inl ⟨rfl, rfl⟩
    · exact Or.inr hother
  -- another call in transit is the one whose task changes
  have honly : ∀ {j : ℕ} {task' : Task}, s.tasks[j]? = some task' →
      task'.place.inTransit = true → (f task).place.inTransit = true → j = i := by
    intro j task' hj hin hinNew
    rcases htransit hinNew with hbefore | hnone
    · exact h.alone hj hi hin hbefore
    · rw [hnone _ (List.mem_of_getElem? hj)] at hin
      cases hin
  refine ⟨?_, ?_, fun hsocket => h.answered (hanswered hsocket), ?_⟩
  · intro j task' hj
    rcases hcases hj with ⟨rfl, rfl⟩ | ⟨hne, hj⟩
    · exact hwaits
    · exact hothers j task' hne hj
  · intro j j' task₁ task₂ hj hj' hin hin'
    rcases hcases hj with ⟨rfl, rfl⟩ | ⟨-, hj⟩
    · rcases hcases hj' with ⟨rfl, rfl⟩ | ⟨-, hj'⟩
      · rfl
      · exact (honly hj' hin' hin).symm
    · rcases hcases hj' with ⟨rfl, rfl⟩ | ⟨-, hj'⟩
      · exact honly hj hin hin'
      · exact h.alone hj hj' hin hin'
  · intro j task' j' reply hj hresult'
    rcases hcases hj with ⟨rfl, rfl⟩ | ⟨-, hj⟩
    · rcases hresult j' reply hresult' with hbefore | hown
      · exact h.results hi hbefore
      · exact hown
    · exact h.results hj hresult'

/-- A thread goes on, after a change of the sockets in which no call gets one. -/
theorem goesOn {s₁ : Line σ} (h : Own s done) (hgoes : GoesOn s₁ i place s')
    (htasks : s₁.tasks = s.tasks) (hi : s.tasks[i]? = some task) (hquiet : NoNewOwner s s₁)
    (hkeeps : KeepsReplies s s₁) (hwaits : Waits s₁ i place)
    (htransit : place.inTransit = true → task.place.inTransit = true ∨
      ∀ task' ∈ s.tasks, task'.place.inTransit = false) : Own s' done := by
  obtain ⟨f, broker, hf, rfl⟩ := hgoes
  refine h.update hi (congrArg (List.modify · i f) htasks) ?_ ?_ ?_ hkeeps ?_
  · intro j task' _ hj
    exact hquiet.waits (h.waits hj)
  · rw [hf.place]
    exact hwaits
  · rw [hf.place]
    exact htransit
  · intro j reply hresult
    rw [hf.result] at hresult
    split at hresult
    · cases hresult
    · exact Or.inl hresult

/-- A thread goes on to a place where it is not in transit. -/
theorem leaves {s₁ : Line σ} (h : Own s done) (hgoes : GoesOn s₁ i place s')
    (htasks : s₁.tasks = s.tasks) (hi : s.tasks[i]? = some task) (hquiet : NoNewOwner s s₁)
    (hkeeps : KeepsReplies s s₁) (hplace : place.inTransit = false) : Own s' done :=
  h.goesOn hgoes htasks hi hquiet hkeeps (waits_of_not_inTransit hplace)
    (by rw [hplace]; rintro ⟨⟩)

/-- A method is called. -/
theorem append (h : Own s done) (broker : CppOrderBookBroker Unit) (hnew : task.New) :
    Own { s with broker := broker, tasks := s.tasks ++ [task] } done := by
  have hplace : task.place.inTransit = false := by
    rcases hnew.place with hplace | hplace
    · rw [hplace]
      rfl
    · rw [hplace]
      cases task.errand <;> rfl
  have hcases : ∀ {j : ℕ} {task' : Task}, (s.tasks ++ [task])[j]? = some task' →
      s.tasks[j]? = some task' ∨ task' = task := by
    intro j task' hj
    rcases lt_or_ge j s.tasks.length with hlt | hge
    · exact Or.inl ((List.getElem?_append_left hlt).symm.trans hj)
    · rw [List.getElem?_append_right hge] at hj
      exact Or.inr (List.mem_singleton.mp (List.mem_of_getElem? hj))
  refine ⟨?_, ?_, h.answered, ?_⟩
  · intro j task' hj
    rcases hcases hj with hj | rfl
    · exact h.waits hj
    · exact waits_of_not_inTransit hplace
  · intro j j' task₁ task₂ hj hj' hin hin'
    rcases hcases hj with hj | rfl
    · rcases hcases hj' with hj' | rfl
      · exact h.alone hj hj' hin hin'
      · rw [hplace] at hin'
        cases hin'
    · rw [hplace] at hin
      cases hin
  · intro j task' k reply hj hresult
    rcases hcases hj with hj | rfl
    · exact h.results hj hresult
    · rw [hnew.result] at hresult
      cases hresult

/-- The server answers a request; every socket stays with the call that it was with. -/
theorem answer (h : Own s done) {s₁ : Line σ} (htasks : s₁.tasks = s.tasks)
    (hquiet : NoNewOwner s s₁)
    (hanswered : ∀ {k j : ℕ} {reply : Reply}, s₁.sockets[k]? = some (.answered j reply) →
      Answered done j reply) : Own (s₁.answer respond i request) done := by
  have hcases : ∀ {j : ℕ} {task' : Task}, (s₁.answer respond i request).tasks[j]? = some task' →
      ∃ task, s.tasks[j]? = some task ∧ task'.place = task.place ∧ task'.result = task.result := by
    intro j task' hj
    unfold Line.answer Line.write at hj
    dsimp only at hj
    rw [htasks] at hj
    rcases getElem?_modify_cases hj with ⟨rfl, before, hbefore, rfl⟩ | ⟨-, hj⟩
    · exact ⟨before, hbefore, rfl, rfl⟩
    · exact ⟨task', hj, rfl, rfl⟩
  refine ⟨?_, ?_, fun hsocket => hanswered hsocket, ?_⟩
  · intro j task' hj
    obtain ⟨task, htask, hplace, -⟩ := hcases hj
    rw [hplace]
    exact hquiet.waits (h.waits htask)
  · intro j j' task₁ task₂ hj hj' hin hin'
    obtain ⟨task, htask, hplace, -⟩ := hcases hj
    obtain ⟨task', htask', hplace', -⟩ := hcases hj'
    rw [hplace] at hin
    rw [hplace'] at hin'
    exact h.alone htask htask' hin hin'
  · intro j task' k reply hj hresult
    obtain ⟨task, htask, -, hsame⟩ := hcases hj
    exact h.results htask (hsame ▸ hresult)

/-- A call sends: it is the only one in transit. -/
theorem send (h : Own s done) (hi : s.tasks[i]? = some task)
    (hplace : task.place = .uses .sends k) (hk : s.sockets[k]? = some .ready) :
    Own ((s.put k (.sent i request)).goTo i (.looks .receives)) done := by
  have hin : task.place.inTransit = true := by
    rw [hplace]
    rfl
  have hwaits : Waits s i (.uses .sends k) := hplace ▸ h.waits hi
  refine h.update hi rfl ?_ ?_ (fun _ => Or.inl hin) (keepsReplies_put (by simp))
    fun j reply => Or.inl
  · intro j task' hne hj
    refine waits_of_not_inTransit (Bool.eq_false_iff.mpr fun hin' => ?_)
    exact hne (h.alone hj hi hin' hin)
  · -- `self.socket` is the one that has been sent on, or is busy with no call
    intro j hj
    obtain ⟨k', hk', howner⟩ := Option.bind_eq_some_iff.mp hj
    have hk' : s.socket = some k' := hk'
    have howner : (s.put k (.sent i request)).ownerOf k' = some j := howner
    have hself := ownerOf_put_self hk (.sent i request)
    rcases hwaits with hsocket | hfree
    · obtain rfl := Option.some.inj (hsocket.symm.trans hk')
      exact (Option.some.inj (hself.symm.trans howner)).symm
    · rcases ownerOf_put s k (.sent i request) k' with hsame | ⟨rfl, -⟩
      · unfold Line.owner at hfree
        rw [hk'] at hfree
        cases (hsame.symm.trans howner).symm.trans hfree
      · exact (Option.some.inj (hself.symm.trans howner)).symm

end Own

/-- A step takes a thread where it is not in transit, or from a look at `self.socket` to the
operation on the socket that it has found. -/
theorem Onward.transit_cases {errand : Errand} {place place' : LinePlace}
    (h : Onward s errand place place') : place'.inTransit = false ∨
      ∃ use k, place = .looks use ∧ place' = .uses use k ∧ s.socket = some k := by
  cases h with
  | @isNone test _ | @shut test _ _ => exact Or.inl (by cases test <;> rfl)
  | @opened test _ _ => exact Or.inl (by cases test <;> cases errand <;> rfl)
  | @usesNone use _ => exact Or.inl (by cases use <;> rfl)
  | isConnected _ => exact Or.inl (by cases errand <;> rfl)
  | @looks use k hsocket => exact Or.inr ⟨use, k, rfl, rfl, hsocket⟩
  | isSome _ | vanished _ | looksAgain _ | cannotSet _ | sets _ | cannotConnect _
    | sendsOutOfTurn _ | receivesOutOfTurn _ | holdsNone _ | holds _ => exact Or.inl rfl

/-- A fault takes a thread where it is not in transit. -/
theorem LineFault.inTransit {errand : Errand} {place place' : LinePlace}
    (h : LineFault s errand place place' n) : place'.inTransit = false := by
  cases h <;> rfl

namespace Own

/-- A thread looks up the socket that it is going to use. -/
theorem looks (h : Own s done) (hturn : s.InTurn (.step i)) {use : SocketUse}
    (hi : s.tasks[i]? = some task) (hplace : task.place = .looks use)
    (hsocket : s.socket = some k) :
    Own (s.goTo i (.uses use k)) done := by
  have hwaits : Waits s i (.looks use) := hplace ▸ h.waits hi
  refine h.goesOn (goesOn_goTo (by simp)) rfl hi (.refl s) id ?_ ?_
  · cases use with
    | sends => exact Or.inl hsocket
    | receives =>
        intro j hj
        refine hwaits j ?_
        unfold Line.owner
        rw [hsocket]
        exact hj
    | setsOptions | connects | closesUnconnected | closesFaulty | closesStopped => trivial
  · cases use with
    | sends => exact fun _ => Or.inr (hturn task hi hplace)
    | receives => exact fun _ => Or.inl (hplace ▸ rfl)
    | setsOptions | connects | closesUnconnected | closesFaulty | closesStopped => rintro ⟨⟩

/-- A call gets what it waits for. -/
theorem get (h : Own s done) (hi : s.tasks[i]? = some task)
    (hplace : task.place = .uses .receives k) (hk : s.sockets[k]? = some (.answered j reply)) :
    Own ((s.put k .ready).finish i task (some (j, reply))) done := by
  have hwaits : Waits s i (.uses .receives k) := hplace ▸ h.waits hi
  have hquiet : NoNewOwner s ((s.put k .ready).finish i task (some (j, reply))) :=
    ⟨(quiet_put rfl : NoNewOwner s (s.put k .ready)).ownerOf, Or.inl rfl⟩
  refine h.update hi rfl (fun j' task' _ hj' => hquiet.waits (h.waits hj')) trivial (by rintro ⟨⟩)
    (keepsReplies_put (by simp)) fun j' reply' hresult => ?_
  obtain ⟨rfl, rfl⟩ : j = j' ∧ reply = reply' := by simpa using hresult
  obtain rfl := hwaits j (by unfold Line.ownerOf; rw [hk]; rfl)
  exact Or.inr ⟨rfl, h.answered hk⟩

/-- **One event in its turn.** -/
theorem move (h : Own s done) (hturn : s.InTurn e) (hmove : Move respond s e n new s') :
    Own s' (done ++ new) := by
  cases hmove with
  | nothing => exact h.mono []
  | begins _ _ hnew => exact (h.append _ hnew).mono []
  | goes he hi honward =>
      subst he
      rcases honward.transit_cases with hplace | ⟨use, k, hlooks, rfl, hsocket⟩
      · exact (h.leaves goesOn_proceed rfl hi (.refl s) id hplace).mono []
      · rw [proceed_of_ne _ (by simp)]
        exact (h.looks hturn hi hlooks hsocket).mono []
  | fails hi hfault =>
      exact (h.leaves goesOn_proceed rfl hi (.refl s) id hfault.inTransit).mono []
  | creates hi hplace =>
      exact (h.leaves (goesOn_goTo (s := s.create) (by simp)) rfl hi (quiet_create s)
        (keepsReplies_create s) rfl).mono []
  | @connects i k task hi hplace hk =>
      have hnot : task.errand.afterStart.inTransit = false := by cases task.errand <;> rfl
      exact (h.leaves (goesOn_proceed (s := s.put k .ready)) rfl hi (quiet_put rfl)
        (keepsReplies_put (by simp)) hnot).mono []
  | @closes i k task use what hi hplace hcloses =>
      have hkeeps : KeepsReplies s (s.put k .closed) := keepsReplies_put (by simp)
      exact (h.leaves (goesOn_goTo (s := s.close k) (by simp)) rfl hi (quiet_close s k) hkeeps
        rfl).mono []
  | @clears i task what hi hplace =>
      have hnot : (what.next task.errand).inTransit = false := by
        cases what <;> cases task.errand <;> rfl
      exact (h.leaves (goesOn_proceed (s := s.clear)) rfl hi (quiet_clear s) id hnot).mono []
  | sends hi hplace hk hrequest => exact (h.send hi hplace hk).mono []
  | gets hi hplace hk => exact (h.get hi hplace hk).mono []
  | @garbles i j k task reply hi hplace hk =>
      exact (h.leaves (goesOn_finish (s := s.put k .ready)) rfl hi (quiet_put rfl)
        (keepsReplies_put (by simp)) rfl).mono []
  | @serves i k request hk =>
      have hown := h.mono [⟨i, request, (respond request s.server).1⟩]
      refine hown.answer rfl ⟨fun k' => ?_, Or.inl rfl⟩ ?_
      · rcases ownerOf_put s k (.answered i (respond request s.server).1) k' with
          hsame | ⟨rfl, hnew⟩
        · exact Or.inl hsame
        · refine Or.inl (hnew.trans ?_)
          unfold Line.ownerOf
          rw [hk]
          rfl
      · intro k' j reply hk'
        unfold Line.put at hk'
        rw [List.getElem?_set] at hk'
        split at hk'
        · split at hk'
          · obtain ⟨rfl, rfl⟩ : i = j ∧ (respond request s.server).1 = reply := by simpa using hk'
            exact ⟨_, List.mem_append_right _ (List.mem_singleton_self _), rfl, rfl⟩
          · cases hk'
        · exact hown.answered hk'
  | @servesAbandoned i k request hk =>
      have hown := h.mono [⟨i, request, (respond request s.server).1⟩]
      exact hown.answer rfl ⟨fun _ => Or.inl rfl, Or.inl rfl⟩ hown.answered

end Own

/-! ## Whole runs -/

/-- **In every run** the requests stay apart. -/
theorem Flight.run : ∀ {es : List LineEvent} {s : Line σ} {done : List Execution},
    Flight s done → Flight (s.run respond es) (done ++ executions respond s es)
  | [], _, done, h => (List.append_nil done).symm ▸ h
  | e :: es, s, done, h => by
      rw [Line.run_cons, executions, ← List.append_assoc]
      exact (h.move move_apply).run

/-- **In every run in turn** the replies are the callers' own. -/
theorem Own.run : ∀ {es : List LineEvent} {s : Line σ} {done : List Execution},
    Own s done → ExclusiveLine respond s es →
    Own (s.run respond es) (done ++ executions respond s es)
  | [], _, done, h, _ => (List.append_nil done).symm ▸ h
  | e :: es, s, done, h, ⟨hturn, hrest⟩ => by
      rw [Line.run_cons, executions, ← List.append_assoc]
      exact (h.move hturn move_apply).run hrest

/-- The server answers what it executes, in order. -/
theorem run_server : ∀ (es : List LineEvent) (s : Line σ),
    (Transducer.mk respond).run ((executions respond s es).map Execution.request) s.server =
      ((executions respond s es).map Execution.reply, (s.run respond es).server)
  | [], _ => rfl
  | e :: es, s => by
      have hmove : Move respond s e _ _ _ := move_apply
      rw [executions, List.map_append, Transducer.run_append, hmove.run_server, run_server es,
        List.map_append, Line.run_cons]

/-- Nothing is on its way before the first call. -/
theorem Line.Fresh.flight (h : s.Fresh) : Flight s [] := by
  have hnone : s.inFlight = [] := by
    unfold Line.inFlight
    rw [h.abandoned, List.append_nil]
    rcases h.socket with ⟨-, hsockets⟩ | ⟨-, hsockets⟩ <;> rw [hsockets] <;> rfl
  exact ⟨by simp [hnone], by simp [hnone], by simp⟩

/-- Nobody waits before the first call. -/
theorem Line.Fresh.own (h : s.Fresh) : Own s [] := by
  refine ⟨by simp [h.tasks], by simp [h.tasks], ?_, by simp [h.tasks]⟩
  intro k i reply hk
  rcases h.socket with ⟨-, hsockets⟩ | ⟨-, hsockets⟩
  · simp [hsockets] at hk
  · rw [hsockets] at hk
    exact absurd (List.mem_singleton.mp (List.mem_of_getElem? hk)) (by simp)

/-- **What holds in spite of the faults.** In every run with timeouts, errors, unreadable replies
and failed connections, with `start` and `stop` on any threads interleaved step by step with the
calls, the replies of the server are those of one run over the requests that it executes; it
executes the request of each call at most once; and the reply that it makes is kept for that call.
If no call begins to send while another sends or waits, a reply that `_send_request_to_ob` returns
to a call is the one made to its own request, which the server has executed before. -/
theorem replies_despite_faults (respond : Json → σ → Reply × σ) (s : Line σ) (h : s.Fresh)
    (es : List LineEvent) :
    (Transducer.mk respond).run ((executions respond s es).map Execution.request) s.server =
        ((executions respond s es).map Execution.reply, (s.run respond es).server) ∧
      ((executions respond s es).map Execution.call).Nodup ∧
      (∀ x ∈ executions respond s es, ∃ task : Task,
        (s.run respond es).tasks[x.call]? = some task ∧
          task.request = some x.request ∧ task.answered = some x.reply) ∧
      (ExclusiveLine respond s es → ∀ (i : ℕ) (task : Task) (j : ℕ) (reply : Reply),
        (s.run respond es).tasks[i]? = some task →
        task.result = some (some (j, reply)) →
        j = i ∧ ∃ x ∈ executions respond s es, x.call = i ∧ task.request = some x.request ∧
          x.reply = reply) := by
  have hflight : Flight (s.run respond es) (executions respond s es) := h.flight.run
  refine ⟨run_server es s, (List.nodup_append.mp hflight.once).2.1, fun x hx => ?_, ?_⟩
  · obtain ⟨task, hi, hrequest, hanswered, -⟩ := hflight.executed x hx
    exact ⟨task, hi, hrequest, hanswered⟩
  · intro hexclusive i task j reply hi hresult
    have hown : Own (s.run respond es) (executions respond s es) := h.own.run hexclusive
    obtain ⟨hj, x, hx, rfl, hreply⟩ := hown.results hi hresult
    obtain ⟨task', hi', hrequest, -⟩ := hflight.executed x hx
    obtain rfl := Option.some.inj (hi.symm.trans hi')
    exact ⟨hj, x, hx, rfl, hrequest, hreply⟩

/-- A broker that has not been started, and a new server. -/
def unstarted : Line ServerState :=
  { broker := .init (), socket := none, sockets := [], tasks := [], server := .init,
    abandoned := [] }

/-- Nothing has been called on it. -/
theorem fresh_unstarted : unstarted.Fresh := ⟨rfl, rfl, Or.inl ⟨rfl, rfl⟩⟩

/-- A thread makes some steps. -/
def steps (i n : ℕ) : List LineEvent := List.replicate n (.step i)

/-- The broker is started. The reply to an order is not awaited. The next call finds the socket in
the wrong state and drops it, and the one after that connects again and gets its own reply. -/
def givenUp : List LineEvent :=
  .begins .start :: steps 0 6 ++
  .begins (.call (.positionManager (.submitOrder "a" "AMD" 5 true "GTC" (some (.finite 100))))) ::
    steps 1 6 ++ .timesOut 1 :: .serve 0 ::
  .begins (.call (.positionManager (.submitOrder "b" "AMD" 3 false "GTC" (some (.finite 100))))) ::
    steps 2 9 ++
  .begins (.call (.positionManager (.submitOrder "c" "AMD" 3 false "GTC" (some (.finite 100))))) ::
    steps 3 13 ++ [.serve 1, .step 3]

/-- The book executes the first order and the third, and nobody gets another's reply. -/
theorem replies_despite_faults_givenUp :
    unstarted.Fresh ∧ ExclusiveLine orderBookServer unstarted givenUp ∧
      (executions orderBookServer unstarted givenUp).map Execution.call = [1, 3] ∧
      ((executions orderBookServer unstarted givenUp).map Execution.call).Nodup ∧
      ∀ (i : ℕ) (task : Task) (j : ℕ) (reply : Reply),
        (unstarted.run orderBookServer givenUp).tasks[i]? = some task →
        task.result = some (some (j, reply)) → j = i := by
  have hexclusive : ExclusiveLine orderBookServer unstarted givenUp := by decide
  have h := replies_despite_faults orderBookServer unstarted fresh_unstarted givenUp
  exact ⟨fresh_unstarted, hexclusive, by decide, h.2.1,
    fun i task j reply hi hresult => (h.2.2.2 hexclusive i task j reply hi hresult).1⟩

end faults

end FlowManager.Broker
