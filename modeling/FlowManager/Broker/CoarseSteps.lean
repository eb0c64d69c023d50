import FlowManager.Broker.Faults
import FlowManager.Lib.InPlace

/-!
# The steps of `SharedSocket`, taken apart

In `SharedSocket.lean` a call makes one step of a test, of `self.start()` and of each operation, and
in `SocketOperations.lean` every look at `self.socket` is a step. Each run of the first is a run of
the second in which a call that has begun one of these steps goes through to its end
(`Connection.run_corresponds`). `Corresponds` says when the states of the two are the same: a call
is at the first look of its step, `self.socket` is the same socket, and the same requests are on
their way from sockets that have been dropped, be they closed or not.
-/

namespace FlowManager.Broker

open FlowManager.Lib FlowManager.Server

/-! ## States -/

/-- The first look of a step. -/
def SendPlace.first : SendPlace → LinePlace
  | .checking => .isNone .checks
  | .starting => .isNone .starts
  | .rechecking => .isNone .rechecks
  | .sending => .looks .sends
  | .receiving => .looks .receives
  | .closing => .holds
  | .clearing => .clears .faulty
  | .returned => .returned

/-- The thread that makes a call. -/
def CallRecord.task (record : CallRecord) : Task :=
  ⟨.call record.call, record.request, record.place.first, record.answered, record.result⟩

/-- The socket among the sockets created so far. -/
def Socket.object : Socket → SocketObject
  | .closed => .closed
  | .ready => .ready
  | .sent i request => .sent i request
  | .answered i reply => .answered i reply

section correspondence

variable {σ : Type} {respond : Json → σ → Reply × σ} {c : Connection σ} {s s' s'' : Line σ}
  {i k : ℕ} {record : CallRecord} {task : Task} {place : LinePlace}

/-- The sockets, without the state of the one that is `self.socket`. -/
def Line.others (s : Line σ) : List SocketObject :=
  s.socket.elim s.sockets fun k => s.sockets.set k .closed

/-- The requests on their way from sockets that are no longer `self.socket`. -/
def Line.dropped (s : Line σ) : List (ℕ × Json) := s.abandoned ++ s.others.flatMap (·.sending)

/-- The two states are the same. -/
structure Corresponds (c : Connection σ) (s : Line σ) : Prop where
  broker : s.broker = c.broker
  server : s.server = c.server
  tasks : s.tasks = c.calls.map CallRecord.task
  socket : Option.Rel (fun k x => s.sockets[k]? = some x.object) s.socket c.socket
  dropped : s.dropped.Perm c.abandoned

/-- Every fresh connection is the same as a fresh line. -/
theorem Connection.Fresh.exists_corresponds (h : c.Fresh) :
    ∃ s : Line σ, s.Fresh ∧ Corresponds c s := by
  rcases h.socket with hsocket | hsocket
  · refine ⟨⟨c.broker, none, [], [], c.server, []⟩, ⟨rfl, rfl, Or.inl ⟨rfl, rfl⟩⟩, rfl, rfl,
      ?_, ?_, ?_⟩
    · rw [h.calls]; rfl
    · rw [hsocket]; exact .none
    · rw [h.abandoned]; exact .rfl
  · refine ⟨⟨c.broker, some 0, [.ready], [], c.server, []⟩, ⟨rfl, rfl, Or.inr ⟨rfl, rfl⟩⟩, rfl, rfl,
      ?_, ?_, ?_⟩
    · rw [h.calls]; rfl
    · rw [hsocket]; exact .some rfl
    · rw [h.abandoned]; exact .rfl

/-! ## Runs of one thread -/

/-- Some steps of threads and of the server lead from one state to the other. -/
def Goes (respond : Json → σ → Reply × σ) (s s' : Line σ) : Prop := ∃ es, s.run respond es = s'

/-- Nothing done leads nowhere. -/
theorem Goes.refl (s : Line σ) : Goes respond s s := ⟨[], rfl⟩

/-- One run after another. -/
theorem Goes.trans (h : Goes respond s s') (h' : Goes respond s' s'') : Goes respond s s'' := by
  obtain ⟨es, rfl⟩ := h
  obtain ⟨es', rfl⟩ := h'
  exact ⟨es ++ es', List.foldl_append⟩

variable (respond)

/-- The next step of a thread. -/
theorem goes_step (hi : s.tasks[i]? = some task) : Goes respond s (s.step i task) := by
  refine ⟨[.step i], ?_⟩
  simp [Line.run, Line.apply, Line.withTask, hi]

/-- The thread is where it has gone. -/
theorem getElem?_goTo (hi : s.tasks[i]? = some task) :
    (s.goTo i place).tasks[i]? = some { task with place := place } :=
  getElem?_modify_of_some _ hi

/-- The next step of a thread that has gone to a place. -/
theorem goes_goTo (place : LinePlace) (hi : s.tasks[i]? = some task) :
    Goes respond (s.goTo i place) ((s.goTo i place).step i { task with place := place }) :=
  goes_step respond (getElem?_goTo hi)

/-- A thread is where it is. -/
theorem goTo_place (hi : s.tasks[i]? = some task) : s.goTo i task.place = s := by
  have htasks : s.tasks.modify i (fun other => { other with place := task.place }) = s.tasks := by
    refine List.ext_getElem? fun j => ?_
    by_cases hj : i = j
    · subst hj
      rw [getElem?_modify_of_some _ hi, hi]
    · rw [List.getElem?_modify_ne _ _ hj]
  unfold Line.goTo Line.write
  rw [htasks]

/-- A thread that goes on leaves the socket. -/
@[simp] theorem Line.socket_goTo (s : Line σ) (i : ℕ) (place : LinePlace) :
    (s.goTo i place).socket = s.socket := rfl

/-- A thread that goes on leaves the sockets. -/
@[simp] theorem Line.sockets_goTo (s : Line σ) (i : ℕ) (place : LinePlace) :
    (s.goTo i place).sockets = s.sockets := rfl

/-- A thread that goes on leaves the sockets open or closed. -/
@[simp] theorem Line.isClosed_goTo (s : Line σ) (i : ℕ) (place : LinePlace) :
    (s.goTo i place).isClosed = s.isClosed := rfl

/-- A socket may come to its new state before the thread goes on. -/
theorem Line.put_goTo (s : Line σ) (i k : ℕ) (place : LinePlace) (object : SocketObject) :
    (s.goTo i place).put k object = (s.put k object).goTo i place := rfl

/-- A socket may be closed before the thread goes on. -/
theorem Line.close_goTo (s : Line σ) (i k : ℕ) (place : LinePlace) :
    (s.goTo i place).close k = (s.close k).goTo i place := rfl

/-- A place that has been gone through does not show. -/
@[simp] theorem goTo_goTo (s : Line σ) (i : ℕ) (place place' : LinePlace) :
    (s.goTo i place).goTo i place' = s.goTo i place' := by
  simp [Line.goTo, Line.write, List.modify_modify_eq, Function.comp_def]

/-- It does not show in what a method leaves. -/
@[simp] theorem finish_goTo (s : Line σ) (i : ℕ) (task : Task) (place place' : LinePlace)
    (result : Option (ℕ × Reply)) :
    (s.goTo i place).finish i { task with place := place' } result = s.finish i task result := by
  simp [Line.finish, Line.goTo, Line.write, List.modify_modify_eq, Function.comp_def]

/-- It does not show in where the thread goes on. -/
@[simp] theorem proceed_goTo (s : Line σ) (i : ℕ) (task : Task) (place place' next : LinePlace) :
    (s.goTo i place).proceed i { task with place := place' } next = s.proceed i task next := by
  unfold Line.proceed
  split <;> simp

/-- The socket is `None` or closed. -/
def Line.isShut (s : Line σ) : Bool := s.socket.elim true s.isClosed

/-- A test goes through to its end. -/
theorem goes_test (hi : s.tasks[i]? = some task) (test : SocketTest) :
    Goes respond (s.goTo i (.isNone test))
      (s.proceed i task (if s.isShut then test.shut else test.opened task.errand)) := by
  have hfirst := goes_goTo respond (.isNone test) hi
  cases hsocket : s.socket with
  | none => simpa [Line.step, Line.isShut, hsocket] using hfirst
  | some k =>
      have hagain := goes_goTo respond (.looksAgain test) hi
      have hreads := goes_goTo respond (.readsClosed test k) hi
      simp only [Line.step, Line.socket_goTo, hsocket, goTo_goTo] at hfirst hagain
      simp only [Line.step, Line.isClosed_goTo, proceed_goTo] at hreads
      have hshut : s.isShut = s.isClosed k := by simp [Line.isShut, hsocket]
      rw [hshut]
      exact (hfirst.trans hagain).trans hreads

/-- An operation on `None`. -/
theorem goes_looks_none (hi : s.tasks[i]? = some task) (hsocket : s.socket = none)
    (use : SocketUse) : Goes respond (s.goTo i (.looks use)) (s.proceed i task use.onNone) := by
  have hlooks := goes_goTo respond (.looks use) hi
  simpa [Line.step, hsocket] using hlooks

/-- An operation on the socket that is `self.socket`. -/
theorem goes_looks_some (hi : s.tasks[i]? = some task) (hsocket : s.socket = some k)
    (use : SocketUse) :
    Goes respond (s.goTo i (.looks use))
      ((s.goTo i (.uses use k)).useSocket i { task with place := .uses use k } k use) := by
  have hlooks := goes_goTo respond (.looks use) hi
  have huses := goes_goTo respond (.uses use k) hi
  simp only [Line.step, Line.socket_goTo, hsocket, goTo_goTo] at hlooks
  exact hlooks.trans huses

/-- `start` connects a new socket. -/
theorem goes_creates (hi : s.tasks[i]? = some task) :
    Goes respond (s.goTo i .creates)
      ((s.create.put s.sockets.length .ready).proceed i task task.errand.afterStart) := by
  have hcreates := goes_goTo respond .creates hi
  have hi' : s.create.tasks[i]? = some task := hi
  have hobject : s.create.sockets[s.sockets.length]? = some .unconnected := by simp [Line.create]
  have hopen : s.create.isClosed s.sockets.length = false := by simp [Line.isClosed, hobject]
  have hsets := goes_looks_some respond hi' rfl .setsOptions
  have hconnects := goes_looks_some respond hi' rfl .connects
  simp only [Line.useSocket, Line.isClosed_goTo, hopen, goTo_goTo] at hsets
  simp only [Line.useSocket, Line.sockets_goTo, hobject, Line.put_goTo, proceed_goTo] at hconnects
  have hlooks : Goes respond (s.goTo i .creates) (s.create.goTo i (.looks .setsOptions)) := by
    change Goes respond _ ((s.create.goTo i .creates).goTo i (.looks .setsOptions)) at hcreates
    rwa [goTo_goTo] at hcreates
  exact (hlooks.trans hsets).trans hconnects

/-! ## What is kept -/

/-- A write to a call and to its task. -/
theorem map_task_modify {f : CallRecord → CallRecord} {g : Task → Task}
    (h : ∀ record : CallRecord, (f record).task = g record.task) (calls : List CallRecord) (i : ℕ) :
    (calls.modify i f).map CallRecord.task = (calls.map CallRecord.task).modify i g := by
  refine List.ext_getElem? fun j => ?_
  by_cases hj : i = j
  · subst hj
    simp [List.getElem?_modify_eq, Function.comp_def, h]
  · simp [List.getElem?_modify_ne _ _ hj]

/-- The requests on their way once the socket has been dropped. -/
theorem Connection.dropSocket_eq (c : Connection σ) (socket : Option Socket) :
    c.dropSocket socket =
      { c with socket := socket,
               abandoned := c.abandoned ++ c.socket.elim [] (·.object.sending) } := by
  unfold Connection.dropSocket
  rcases c.socket with _ | object
  · simp
  · cases object <;> simp [Socket.object, SocketObject.sending]

namespace Corresponds

/-- The task of a call. -/
theorem getElem?_task (h : Corresponds c s) (hi : c.calls[i]? = some record) :
    s.tasks[i]? = some record.task := by
  rw [h.tasks, List.getElem?_map, hi]
  rfl

/-- The thread is at the first look of the step. -/
theorem goTo_first (h : Corresponds c s) (hi : c.calls[i]? = some record) :
    s.goTo i record.place.first = s := goTo_place (h.getElem?_task hi)

/-- The call and the thread go on. -/
theorem goTo (h : Corresponds c s) (i : ℕ) (place : SendPlace) :
    Corresponds (c.goTo i place) (s.goTo i place.first) := by
  refine ⟨h.broker, h.server, ?_, h.socket, h.dropped⟩
  change s.tasks.modify i _ = (c.calls.modify i _).map CallRecord.task
  rw [h.tasks]
  exact (map_task_modify (fun _ => rfl) c.calls i).symm

/-- The method returns. -/
theorem finish (h : Corresponds c s) (i : ℕ) (record : CallRecord)
    (result : Option (ℕ × Reply)) :
    Corresponds (c.finish i record result) (s.finish i record.task result) := by
  refine ⟨?_, h.server, ?_, h.socket, h.dropped⟩
  · change record.call.after (result.map Prod.snd) s.broker = _
    rw [h.broker]
    rfl
  · change s.tasks.modify i _ = (c.calls.modify i _).map CallRecord.task
    rw [h.tasks]
    exact (map_task_modify (fun _ => rfl) c.calls i).symm

/-- The server answers. -/
theorem answer (h : Corresponds c s) (i : ℕ) (request : Json) :
    Corresponds (c.answer respond i request) (s.answer respond i request) := by
  refine ⟨h.broker, ?_, ?_, h.socket, h.dropped⟩
  · change (respond request s.server).2 = _
    rw [h.server]
    rfl
  · change s.tasks.modify i _ = (c.calls.modify i _).map CallRecord.task
    rw [h.tasks, h.server]
    exact (map_task_modify (fun _ => rfl) c.calls i).symm

/-- The socket is `None` or closed in both. -/
theorem isShut (h : Corresponds c s) : s.isShut = !c.isOpen := by
  have hsocket := h.socket
  unfold Line.isShut Connection.isOpen
  generalize hx : s.socket = x, hy : c.socket = y at hsocket
  cases hsocket with
  | none => rfl
  | @some k object hobject =>
      cases object <;> simp [Line.isClosed, hobject, Socket.object]

/-- The socket is `None` in both. -/
theorem socket_none (h : Corresponds c s) (hsocket : c.socket = none) : s.socket = none := by
  have hrel := h.socket
  rw [hsocket] at hrel
  generalize s.socket = x at hrel ⊢
  cases hrel
  rfl

/-- The socket is the same object. -/
theorem socket_some (h : Corresponds c s) {object : Socket} (hsocket : c.socket = some object) :
    ∃ k, s.socket = some k ∧ s.sockets[k]? = some object.object := by
  have hrel := h.socket
  rw [hsocket] at hrel
  generalize s.socket = x at hrel ⊢
  cases hrel with
  | some hobject => exact ⟨_, rfl, hobject⟩

/-! ### The socket -/

/-- A socket that is `self.socket` is in a new state. -/
theorem put (h : Corresponds c s) (hk : s.socket = some k) {object : SocketObject}
    (hobject : s.sockets[k]? = some object) (object' : Socket) :
    Corresponds { c with socket := some object' } (s.put k object'.object) := by
  refine ⟨h.broker, h.server, h.tasks, ?_, ?_⟩
  · change Option.Rel _ s.socket _
    rw [hk]
    refine .some ?_
    obtain ⟨hlt, -⟩ := List.getElem?_eq_some_iff.mp hobject
    exact List.getElem?_set_self hlt
  · have hdropped : (s.put k object'.object).dropped = s.dropped := by
      simp [Line.dropped, Line.others, Line.put, hk]
    rw [hdropped]
    exact h.dropped

/-- The sockets that are no longer `self.socket`, once `self.socket` is one of them. -/
theorem perm_of_socket (h : Corresponds c s) :
    (s.abandoned ++ s.sockets.flatMap (·.sending)).Perm
      (c.abandoned ++ c.socket.elim [] (·.object.sending)) := by
  have hdropped := h.dropped
  unfold Line.dropped Line.others at hdropped
  cases hsocket : c.socket with
  | none =>
      rw [h.socket_none hsocket] at hdropped
      simpa using hdropped
  | some object =>
      obtain ⟨k, hk, hobject⟩ := h.socket_some hsocket
      rw [hk] at hdropped
      have hset : ((s.sockets.set k .closed).flatMap (·.sending) ++ object.object.sending).Perm
          (s.sockets.flatMap (·.sending) ++ []) := perm_flatMap_set _ .closed hobject
      rw [List.append_nil] at hset
      calc (s.abandoned ++ s.sockets.flatMap (·.sending)).Perm
            (s.abandoned ++ ((s.sockets.set k .closed).flatMap (·.sending) ++
              object.object.sending)) := hset.symm.append_left _
        (s.abandoned ++ ((s.sockets.set k .closed).flatMap (·.sending) ++
              object.object.sending)).Perm
            (c.abandoned ++ object.object.sending) := by
              rw [← List.append_assoc]
              exact hdropped.append_right _

/-- The socket is closed. -/
theorem close (h : Corresponds c s) (hk : s.socket = some k) {object : Socket}
    (hsocket : c.socket = some object) (hobject : s.sockets[k]? = some object.object) :
    Corresponds (c.dropSocket (some .closed)) (s.close k) := by
  rw [Connection.dropSocket_eq, hsocket]
  refine ⟨h.broker, h.server, h.tasks, (h.put hk hobject .closed).socket, ?_⟩
  have hdropped := h.dropped
  simp only [Line.dropped, Line.others, hk, Option.elim_some] at hdropped
  simp only [Line.dropped, Line.others, Line.close, Line.put, hk, hobject, Option.elim_some, List.set_set]
  calc (s.abandoned ++ object.object.sending ++
          (s.sockets.set k .closed).flatMap (·.sending)).Perm
        (s.abandoned ++ (s.sockets.set k .closed).flatMap (·.sending) ++
          object.object.sending) := by
          rw [List.append_assoc, List.append_assoc]
          exact List.perm_append_comm.append_left _
    (s.abandoned ++ (s.sockets.set k .closed).flatMap (·.sending) ++
          object.object.sending).Perm (c.abandoned ++ object.object.sending) :=
          hdropped.append_right _

/-- `self.socket` is `None`. -/
theorem clear (h : Corresponds c s) : Corresponds (c.dropSocket none) s.clear := by
  rw [Connection.dropSocket_eq]
  exact ⟨h.broker, h.server, h.tasks, .none, h.perm_of_socket⟩

/-- A new socket has been connected. -/
theorem create (h : Corresponds c s) (hshut : c.isOpen = false) :
    Corresponds { c with socket := some .ready } (s.create.put s.sockets.length .ready) := by
  refine ⟨h.broker, h.server, h.tasks, .some (by simp [Line.create, Line.put, Socket.object]), ?_⟩
  have hnothing : c.socket.elim [] (·.object.sending) = [] := by
    unfold Connection.isOpen at hshut
    rcases hsocket : c.socket with _ | object
    · rfl
    · cases object <;> simp_all [Socket.object, SocketObject.sending]
  have hperm := h.perm_of_socket
  rw [hnothing, List.append_nil] at hperm
  simpa [Line.dropped, Line.others, Line.create, Line.put, SocketObject.sending] using hperm

/-! ### The steps of a call -/

/-- A test, and where the call goes on. -/
theorem test (h : Corresponds c s) (hi : c.calls[i]? = some record) (test : SocketTest)
    (hplace : record.place.first = .isNone test) :
    Goes respond s (s.proceed i record.task
      (if c.isOpen then test.opened (.call record.call) else test.shut)) := by
  have htask := h.getElem?_task hi
  have htest := goes_test respond htask test
  rw [← hplace, h.goTo_first hi, h.isShut] at htest
  cases hopen : c.isOpen <;> simpa [hopen, CallRecord.task] using htest

/-- `self.start()`. -/
theorem starting (h : Corresponds c s) (hi : c.calls[i]? = some record)
    (hplace : record.place = .starting) :
    ∃ s', Goes respond s s' ∧ Corresponds (c.stepCall i record) s' := by
  have htest := h.test respond hi .starts (by rw [hplace]; rfl)
  simp only [Connection.stepCall, hplace]
  cases hopen : c.isOpen with
  | true =>
      rw [hopen] at htest
      exact ⟨_, htest, h.goTo i .rechecking⟩
  | false =>
      rw [hopen] at htest
      exact ⟨_, htest.trans (goes_creates respond (h.getElem?_task hi)),
        (h.create hopen).goTo i .rechecking⟩

/-- An operation of a call on `None`. -/
theorem onNone (h : Corresponds c s) (hi : c.calls[i]? = some record) {use : SocketUse}
    (hplace : record.place.first = .looks use) (huse : use.onNone = .returned)
    (hsocket : c.socket = none) :
    ∃ s', Goes respond s s' ∧ Corresponds (c.finish i record none) s' := by
  have htask := h.getElem?_task hi
  have hlooks := goes_looks_none respond htask (h.socket_none hsocket) use
  rw [huse, ← hplace, h.goTo_first hi, proceed_returned] at hlooks
  exact ⟨_, hlooks, h.finish i record none⟩

/-- An operation of a call on the socket. -/
theorem onSocket (h : Corresponds c s) (hi : c.calls[i]? = some record) {use : SocketUse}
    (hplace : record.place.first = .looks use) {object : Socket} (hsocket : c.socket = some object) :
    ∃ k, s.socket = some k ∧ s.sockets[k]? = some object.object ∧
      Goes respond s ((s.goTo i (.uses use k)).useSocket i { record.task with place := .uses use k }
        k use) := by
  have htask := h.getElem?_task hi
  obtain ⟨k, hk, hobject⟩ := h.socket_some hsocket
  have hlooks := goes_looks_some respond htask hk use
  rw [← hplace, h.goTo_first hi] at hlooks
  exact ⟨k, hk, hobject, hlooks⟩

/-- `send_json`. -/
theorem sending (h : Corresponds c s) (hi : c.calls[i]? = some record)
    (hplace : record.place = .sending) :
    ∃ s', Goes respond s s' ∧ Corresponds (c.stepCall i record) s' := by
  have hfirst : record.place.first = .looks .sends := by rw [hplace]; rfl
  simp only [Connection.stepCall, hplace]
  cases hsocket : c.socket with
  | none => exact h.onNone respond hi hfirst rfl hsocket
  | some object =>
      obtain ⟨k, hk, hobject, huse⟩ := h.onSocket respond hi hfirst hsocket
      simp only [Line.useSocket, Line.sockets_goTo, hobject] at huse
      cases object with
      | ready =>
          cases hrequest : record.request with
          | none => exact ⟨s, Goes.refl s, h⟩
          | some request =>
              simp only [Socket.object, CallRecord.task, hrequest, Line.put_goTo, goTo_goTo] at huse
              exact ⟨_, huse, (h.put hk hobject (.sent i request)).goTo i .receiving⟩
      | closed | sent | answered =>
          simp only [Socket.object, goTo_goTo] at huse
          exact ⟨_, huse, h.goTo i .closing⟩

/-- `recv_json`. -/
theorem receiving (h : Corresponds c s) (hi : c.calls[i]? = some record)
    (hplace : record.place = .receiving) :
    ∃ s', Goes respond s s' ∧ Corresponds (c.stepCall i record) s' := by
  have hfirst : record.place.first = .looks .receives := by rw [hplace]; rfl
  simp only [Connection.stepCall, hplace]
  cases hsocket : c.socket with
  | none => exact h.onNone respond hi hfirst rfl hsocket
  | some object =>
      obtain ⟨k, hk, hobject, huse⟩ := h.onSocket respond hi hfirst hsocket
      simp only [Line.useSocket, Line.sockets_goTo, hobject] at huse
      cases object with
      | sent j request => exact ⟨s, Goes.refl s, h⟩
      | answered j reply =>
          simp only [Socket.object, Line.put_goTo, finish_goTo] at huse
          exact ⟨_, huse, (h.put hk hobject .ready).finish i record (some (j, reply))⟩
      | closed | ready =>
          simp only [Socket.object, goTo_goTo] at huse
          exact ⟨_, huse, h.goTo i .closing⟩

/-- `self.socket.close()`, if there is one. -/
theorem closing (h : Corresponds c s) (hi : c.calls[i]? = some record)
    (hplace : record.place = .closing) :
    ∃ s', Goes respond s s' ∧ Corresponds (c.stepCall i record) s' := by
  have htask := h.getElem?_task hi
  have hholds := goes_goTo respond .holds htask
  have hstart : s.goTo i .holds = s := by
    have hfirst := h.goTo_first hi
    rwa [hplace] at hfirst
  rw [hstart] at hholds
  simp only [Connection.stepCall, hplace]
  cases hsocket : c.socket with
  | none =>
      simp only [Line.step, h.socket_none hsocket] at hholds
      exact ⟨_, hholds, h.finish i record none⟩
  | some object =>
      obtain ⟨k, hk, hobject⟩ := h.socket_some hsocket
      simp only [Line.step, hk] at hholds
      have hcloses := goes_looks_some respond htask hk .closesFaulty
      simp only [Line.useSocket, Line.close_goTo, goTo_goTo] at hcloses
      exact ⟨_, hholds.trans hcloses, (h.close hk hsocket hobject).goTo i .clearing⟩

/-- `self.socket = None`. -/
theorem clearing (h : Corresponds c s) (hi : c.calls[i]? = some record)
    (hplace : record.place = .clearing) :
    ∃ s', Goes respond s s' ∧ Corresponds (c.stepCall i record) s' := by
  have htask := h.getElem?_task hi
  have hstep := goes_step respond htask
  simp only [Connection.stepCall, hplace]
  simp only [Line.step, CallRecord.task, hplace, SendPlace.first] at hstep
  exact ⟨_, hstep, h.clear.finish i record none⟩

/-- The next operation of a call. -/
theorem stepCall (h : Corresponds c s) (hi : c.calls[i]? = some record) :
    ∃ s', Goes respond s s' ∧ Corresponds (c.stepCall i record) s' := by
  cases hplace : record.place with
  | checking =>
      have htest := h.test respond hi .checks (by rw [hplace]; rfl)
      simp only [Connection.stepCall, hplace]
      refine ⟨_, htest, ?_⟩
      cases c.isOpen with
      | true => exact h.goTo i .sending
      | false => exact h.goTo i .starting
  | starting => exact h.starting respond hi hplace
  | rechecking =>
      have htest := h.test respond hi .rechecks (by rw [hplace]; rfl)
      simp only [Connection.stepCall, hplace]
      refine ⟨_, htest, ?_⟩
      cases c.isOpen with
      | true => exact h.goTo i .sending
      | false => exact h.finish i record none
  | sending => exact h.sending respond hi hplace
  | receiving => exact h.receiving respond hi hplace
  | closing => exact h.closing respond hi hplace
  | clearing => exact h.clearing respond hi hplace
  | returned =>
      simp only [Connection.stepCall, hplace]
      exact ⟨s, Goes.refl s, h⟩

/-! ### Calls and answers -/

/-- A thread is within a call in both. -/
theorem isBusy (h : Corresponds c s) (call : SocketCall) : s.isBusy call = c.isBusy call := by
  unfold Line.isBusy Connection.isBusy
  rw [h.tasks, h.broker, List.any_map]
  congr 2
  funext record
  cases hplace : record.place <;> simp [CallRecord.task, SendPlace.first, hplace]

/-- A thread makes a call. -/
theorem startCall (h : Corresponds c s) (call : SocketCall) :
    Corresponds (c.startCall call) (s.startCall call) := by
  have htasks : ∀ record : CallRecord,
      s.tasks ++ [record.task] = (c.calls ++ [record]).map CallRecord.task := by
    intro record
    rw [h.tasks, List.map_append, List.map_singleton]
  unfold Connection.startCall Line.startCall
  rw [h.isBusy, h.broker]
  cases hbusy : c.isBusy call with
  | true =>
      rw [if_pos rfl, if_pos rfl]
      exact h
  | false =>
      rw [if_neg Bool.false_ne_true, if_neg Bool.false_ne_true]
      cases hrequest : call.request c.broker with
      | none =>
          exact ⟨rfl, h.server, htasks ⟨call, none, .returned, none, none, _⟩, h.socket, h.dropped⟩
      | some request =>
          exact ⟨rfl, h.server, htasks ⟨call, some request, .checking, none, none, false⟩, h.socket,
            h.dropped⟩

/-- The server answers the request of the socket. -/
theorem serve (h : Corresponds c s) {request : Json} (hsocket : c.socket = some (.sent i request)) :
    ∃ s', Goes respond s s' ∧ Corresponds (c.apply respond .serve) s' := by
  obtain ⟨k, hk, hobject⟩ := h.socket_some hsocket
  refine ⟨s.apply respond (.serve k), ⟨[.serve k], rfl⟩, ?_⟩
  simp only [Connection.apply, hsocket, Line.apply, hobject, Socket.object, h.server]
  exact (h.put hk hobject (.answered i (respond request c.server).1)).answer respond i request

/-- A socket that is not `self.socket` and has sent a request. -/
theorem exists_other {s : Line σ} {request : Json}
    (h : (i, request) ∈ s.others.flatMap (·.sending)) :
    ∃ m, s.socket ≠ some m ∧ s.sockets[m]? = some (.sent i request) := by
  obtain ⟨object, hobject, hsending⟩ := List.mem_flatMap.mp h
  have hsent : object = .sent i request := by
    cases object <;> simp_all [SocketObject.sending]
  obtain ⟨m, hm⟩ := List.mem_iff_getElem?.mp hobject
  rw [hsent] at hm
  unfold Line.others at hm
  cases hsocket : s.socket with
  | none =>
      rw [hsocket] at hm
      exact ⟨m, by simp, hm⟩
  | some k =>
      rw [hsocket, Option.elim_some, List.getElem?_set] at hm
      split at hm
      · split at hm <;> cases hm
      · next hne => exact ⟨m, fun heq => hne (Option.some.inj heq), hm⟩

/-- The request of a socket that is closed is answered. -/
theorem eraseAbandoned (h : Corresponds c s) {request : Json} {m : ℕ}
    (hk : c.abandoned[k]? = some (i, request)) (hm : s.abandoned[m]? = some (i, request)) :
    Corresponds { c with abandoned := c.abandoned.eraseIdx k }
      { s with abandoned := s.abandoned.eraseIdx m } := by
  refine ⟨h.broker, h.server, h.tasks, h.socket, List.Perm.cons_inv (a := (i, request)) ?_⟩
  calc ((i, request) :: (s.abandoned.eraseIdx m ++ s.others.flatMap (·.sending))).Perm s.dropped :=
        (perm_cons_eraseIdx hm).symm.append_right _
    s.dropped.Perm c.abandoned := h.dropped
    c.abandoned.Perm ((i, request) :: c.abandoned.eraseIdx k) := perm_cons_eraseIdx hk

/-- The request of a socket that has been dropped and is not closed is answered. -/
theorem putOther (h : Corresponds c s) {request : Json} {m : ℕ} (reply : Reply)
    (hk : c.abandoned[k]? = some (i, request)) (hne : s.socket ≠ some m)
    (hm : s.sockets[m]? = some (.sent i request)) :
    Corresponds { c with abandoned := c.abandoned.eraseIdx k } (s.put m (.answered i reply)) := by
  have hothers : s.others[m]? = some (.sent i request) ∧
      (s.put m (.answered i reply)).others = s.others.set m (.answered i reply) := by
    unfold Line.others Line.put
    cases hsocket : s.socket with
    | none => exact ⟨hm, rfl⟩
    | some n =>
        have hmn : n ≠ m := fun heq => hne (by rw [hsocket, heq])
        exact ⟨(List.getElem?_set_ne hmn).trans hm, List.set_comm _ _ hmn.symm⟩
  refine ⟨h.broker, h.server, h.tasks, ?_, List.Perm.cons_inv (a := (i, request)) ?_⟩
  · have hrel := h.socket
    change Option.Rel (fun k x => (s.sockets.set m _)[k]? = some x.object) s.socket c.socket
    generalize s.socket = x, c.socket = y at hrel hne
    cases hrel with
    | none => exact .none
    | some hobject =>
        refine .some ((List.getElem?_set_ne ?_).trans hobject)
        exact fun heq => hne (congrArg some heq.symm)
  · obtain ⟨hget, hset⟩ := hothers
    have hperm : ((s.others.set m (.answered i reply)).flatMap (·.sending) ++ [(i, request)]).Perm
        (s.others.flatMap (·.sending) ++ []) := perm_flatMap_set _ _ hget
    rw [List.append_nil] at hperm
    unfold Line.dropped
    rw [hset]
    calc ((i, request) :: (s.abandoned ++
            (s.others.set m (.answered i reply)).flatMap (·.sending))).Perm
          (s.abandoned ++ ((s.others.set m (.answered i reply)).flatMap (·.sending) ++
            [(i, request)])) := by
            rw [← List.append_assoc]
            exact (List.perm_append_singleton _ _).symm
      (s.abandoned ++ ((s.others.set m (.answered i reply)).flatMap (·.sending) ++
            [(i, request)])).Perm s.dropped := hperm.append_left _
      s.dropped.Perm c.abandoned := h.dropped
      c.abandoned.Perm ((i, request) :: c.abandoned.eraseIdx k) := perm_cons_eraseIdx hk

/-- The server answers a request whose socket has been dropped: the socket may be closed or not. -/
theorem serveAbandoned (h : Corresponds c s) {request : Json}
    (habandoned : c.abandoned[k]? = some (i, request)) :
    ∃ s', Goes respond s s' ∧ Corresponds (c.apply respond (.serveAbandoned k)) s' := by
  simp only [Connection.apply, habandoned]
  have hmem : (i, request) ∈ s.dropped :=
    h.dropped.mem_iff.mpr (List.mem_of_getElem? habandoned)
  rcases List.mem_append.mp hmem with hclosed | hother
  · obtain ⟨m, hm⟩ := List.mem_iff_getElem?.mp hclosed
    refine ⟨s.apply respond (.serveAbandoned m), ⟨[.serveAbandoned m], rfl⟩, ?_⟩
    simp only [Line.apply, hm]
    exact (h.eraseAbandoned habandoned hm).answer respond i request
  · obtain ⟨m, hne, hsent⟩ := exists_other hother
    refine ⟨s.apply respond (.serve m), ⟨[.serve m], rfl⟩, ?_⟩
    simp only [Line.apply, hsent]
    exact (h.putOther _ habandoned hne hsent).answer respond i request

/-- Each event of the one is a run of the other. -/
theorem apply (h : Corresponds c s) (e : SocketEvent) :
    ∃ s', Goes respond s s' ∧ Corresponds (c.apply respond e) s' := by
  cases e with
  | call call => exact ⟨_, ⟨[.begins (.call call)], rfl⟩, h.startCall call⟩
  | step i =>
      simp only [Connection.apply]
      cases hi : c.calls[i]? with
      | none => exact ⟨s, Goes.refl s, h⟩
      | some record => exact h.stepCall respond hi
  | serve =>
      cases hsocket : c.socket with
      | none =>
          simp only [Connection.apply, hsocket]
          exact ⟨s, Goes.refl s, h⟩
      | some object =>
          cases object with
          | sent i request => exact h.serve respond hsocket
          | closed | ready | answered =>
              simp only [Connection.apply, hsocket]
              exact ⟨s, Goes.refl s, h⟩
  | serveAbandoned k =>
      cases habandoned : c.abandoned[k]? with
      | none =>
          simp only [Connection.apply, habandoned]
          exact ⟨s, Goes.refl s, h⟩
      | some sent => exact h.serveAbandoned respond habandoned

/-- Each run of the one is a run of the other. -/
theorem run (h : Corresponds c s) (es : List SocketEvent) :
    ∃ s', Goes respond s s' ∧ Corresponds (c.run respond es) s' := by
  induction es generalizing c s with
  | nil => exact ⟨s, Goes.refl s, h⟩
  | cons e es ih =>
      obtain ⟨s₁, hgoes, h₁⟩ := h.apply respond e
      obtain ⟨s₂, hgoes', h₂⟩ := ih h₁
      exact ⟨s₂, hgoes.trans hgoes', h₂⟩

end Corresponds

/-- **The steps taken apart.** Every state that a run of `SharedSocket` from a fresh connection
reaches is the state that a run from a fresh line reaches. -/
theorem Connection.run_corresponds (h : c.Fresh) (es : List SocketEvent) :
    ∃ (s : Line σ) (es' : List LineEvent), s.Fresh ∧
      Corresponds (c.run respond es) (s.run respond es') := by
  obtain ⟨s, hfresh, hs⟩ := h.exists_corresponds
  obtain ⟨_, ⟨es', rfl⟩, hrun⟩ := hs.run respond es
  exact ⟨s, es', hfresh, hrun⟩

end correspondence

end FlowManager.Broker
