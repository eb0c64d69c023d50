import FlowManager.Broker.SharedSocket

/-!
# The operations on the socket, one by one

`SharedSocket.lean` takes `self.start()` as one operation of a call, and nothing goes wrong there.
Here every look at `self.socket` is a step of its own, and so is what is done with the object that
was found, in `_send_request_to_ob` as in `start` and `stop`, which other threads call at any time.
A thread may hold an object that another has replaced, closed or set to `None` meanwhile.

* `self.socket` is an index into the list of the `zmq.REQ` sockets created so far. A socket that is
  no longer `self.socket` stays in the list: a thread may hold it, and the server may have its
  request.
* An attribute of `None` raises `AttributeError`. An operation on a closed socket, or out of turn,
  raises `ZMQError`. Which handler catches it, if any, depends on the line.
* A socket that is not connected sends nothing: `send_json` waits. The options are set by one step
  for the three of them: they only fail where the socket is closed.
* `zmq.Again`, any other `ZMQError`, a reply that is not JSON, and a `connect` that fails are events
  of their own (`LineEvent`).
* An exception that nothing catches ends a thread of `start` or `stop` and that of the position
  manager, whose `run` has no handler; the API answers it and goes on to the next request.
* What a method has written to the maps before it raises does not show here: only the thread of the
  position manager writes to them, and it makes no further call.
-/

namespace FlowManager.Broker

open FlowManager.Lib FlowManager.Server

/-! ## Threads -/

/-- What a thread does on the broker. -/
inductive Errand where
  | call (c : SocketCall)
  | start
  | stop
  deriving DecidableEq

/-- `self.socket is None or self.socket.closed`, or its negation. -/
inductive SocketTest where
  /-- Source: `cpp_ob_broker.py`, `CppOrderBookBroker._send_request_to_ob`, line 74 -/
  | checks
  /-- Source: `cpp_ob_broker.py`, `CppOrderBookBroker._send_request_to_ob`, line 79 -/
  | rechecks
  /-- Source: `cpp_ob_broker.py`, `CppOrderBookBroker.start`, line 37 -/
  | starts
  /-- Source: `cpp_ob_broker.py`, `CppOrderBookBroker.stop`, line 62 -/
  | stops
  deriving DecidableEq

/-- An operation on the socket that `self.socket` is when it is looked up. -/
inductive SocketUse where
  /-- Source: `cpp_ob_broker.py`, `CppOrderBookBroker.start`, lines 39-41 -/
  | setsOptions
  /-- Source: `cpp_ob_broker.py`, `CppOrderBookBroker.start`, line 44 -/
  | connects
  /-- Source: `cpp_ob_broker.py`, `CppOrderBookBroker.start`, line 53 -/
  | closesUnconnected
  /-- Source: `cpp_ob_broker.py`, `CppOrderBookBroker._send_request_to_ob`, line 86 -/
  | sends
  /-- Source: `cpp_ob_broker.py`, `CppOrderBookBroker._send_request_to_ob`, line 87 -/
  | receives
  /-- Source: `cpp_ob_broker.py`, `CppOrderBookBroker._send_request_to_ob`, line 97 -/
  | closesFaulty
  /-- Source: `cpp_ob_broker.py`, `CppOrderBookBroker.stop`, line 64 -/
  | closesStopped
  deriving DecidableEq

/-- `self.socket = None`. -/
inductive SocketClear where
  /-- Source: `cpp_ob_broker.py`, `CppOrderBookBroker.start`, line 54 -/
  | unconnected
  /-- Source: `cpp_ob_broker.py`, `CppOrderBookBroker._send_request_to_ob`, line 97 -/
  | faulty
  /-- Source: `cpp_ob_broker.py`, `CppOrderBookBroker.stop`, line 68 -/
  | stopped
  deriving DecidableEq

/-- Where a thread is: the step that comes next. -/
inductive LinePlace where
  /-- `self.socket is None`, in a test. -/
  | isNone (test : SocketTest)
  /-- The look at `self.socket` for `self.socket.closed`. -/
  | looksAgain (test : SocketTest)
  /-- `closed` of the socket that has been found. -/
  | readsClosed (test : SocketTest) (k : ℕ)
  /-- `self.socket = self.context.socket(zmq.REQ)`, in `start`. -/
  | creates
  /-- The look at `self.socket` for an operation. -/
  | looks (use : SocketUse)
  /-- The operation on the socket that has been found. -/
  | uses (use : SocketUse) (k : ℕ)
  /-- `if self.socket`, in the handler of `ZMQError`. -/
  | holds
  /-- `self.socket = None`. -/
  | clears (what : SocketClear)
  /-- The method has returned. -/
  | returned
  /-- The method has raised. -/
  | raised
  deriving DecidableEq

/-- The method is over. -/
def LinePlace.isOver (place : LinePlace) : Bool := place ∈ [.returned, .raised]

namespace Errand

/-- The thread has made a call. -/
def isCall : Errand → Bool
  | .call _ => true
  | .start | .stop => false

/-- Where a thread goes on after `start`. -/
def afterStart : Errand → LinePlace
  | .call _ => .isNone .rechecks
  | .start | .stop => .returned

/-- Where a thread goes on when `start` has raised `ConnectionError`.
Source: `cpp_ob_broker.py`, `CppOrderBookBroker._send_request_to_ob`, lines 81-82 -/
def unconnected : Errand → LinePlace
  | .call _ => .returned
  | .start | .stop => .raised

/-- What the method leaves of the broker once it is over. -/
def after (errand : Errand) (response : Option Reply) (broker : CppOrderBookBroker Unit) :
    CppOrderBookBroker Unit :=
  match errand with
  | .call c => c.after response broker
  | .start | .stop => broker

end Errand

/-- Where a thread goes on from a test that finds the socket `None` or closed. -/
def SocketTest.shut : SocketTest → LinePlace
  | .checks => .isNone .starts
  | .rechecks => .returned
  | .starts => .creates
  | .stops => .clears .stopped

/-- Where a thread goes on from a test that finds the socket open. -/
def SocketTest.opened (errand : Errand) : SocketTest → LinePlace
  | .checks | .rechecks => .looks .sends
  | .starts => errand.afterStart
  | .stops => .looks .closesStopped

/-- Where a thread goes on from an operation on `None`: the last `except` of `_send_request_to_ob`
and that of `stop` catch the `AttributeError`, the other lines are not within one that does. -/
def SocketUse.onNone : SocketUse → LinePlace
  | .sends | .receives => .returned
  | .closesStopped => .clears .stopped
  | .setsOptions | .connects | .closesUnconnected | .closesFaulty => .raised

/-- Where a thread goes on from `self.socket = None`. -/
def SocketClear.next (errand : Errand) : SocketClear → LinePlace
  | .unconnected => errand.unconnected
  | .faulty | .stopped => .returned

/-- A thread within a method: the request it sends, if any, what the server has answered to it, and
what `_send_request_to_ob` has returned with the call whose reply that is. -/
structure Task where
  errand : Errand
  request : Option Json
  place : LinePlace
  answered : Option Reply
  result : Option (Option (ℕ × Reply))

/-! ## The line -/

/-- A `zmq.REQ` socket: what it has sent, or has got, for a call. -/
inductive SocketObject where
  | unconnected
  | ready
  | sent (i : ℕ) (request : Json)
  | answered (i : ℕ) (reply : Reply)
  | closed

namespace SocketObject

/-- The call that the socket is busy with. -/
def owner : SocketObject → Option ℕ
  | .sent i _ => some i
  | .answered i _ => some i
  | .unconnected | .ready | .closed => none

/-- The request that the socket has sent, if it waits for the reply. -/
def sending : SocketObject → List (ℕ × Json)
  | .sent i request => [(i, request)]
  | .unconnected | .ready | .answered _ _ | .closed => []

end SocketObject

/-- The broker, `self.socket`, the sockets created so far, the threads that have been or are within
a method, the server at the other end, and the requests of sockets that have been closed. -/
structure Line (σ : Type) where
  broker : CppOrderBookBroker Unit
  socket : Option ℕ
  sockets : List SocketObject
  tasks : List Task
  server : σ
  abandoned : List (ℕ × Json)

/-- A step of a thread or of the server, or a fault. -/
inductive LineEvent where
  /-- A thread calls a method. -/
  | begins (errand : Errand)
  /-- A thread makes its next step. -/
  | step (i : ℕ)
  /-- The server answers the request of a socket. -/
  | serve (k : ℕ)
  /-- The server answers a request whose socket has been closed. -/
  | serveAbandoned (k : ℕ)
  /-- `send_json` or `recv_json` of a call times out.
  Source: `cpp_ob_broker.py`, `CppOrderBookBroker._send_request_to_ob`, lines 90-92 -/
  | timesOut (i : ℕ)
  /-- `send_json` or `recv_json` of a call raises another `ZMQError`.
  Source: `cpp_ob_broker.py`, `CppOrderBookBroker._send_request_to_ob`, lines 93-97 -/
  | raises (i : ℕ)
  /-- `recv_json` of a call cannot decode the reply.
  Source: `cpp_ob_broker.py`, `CppOrderBookBroker._send_request_to_ob`, lines 98-100 -/
  | undecodable (i : ℕ)
  /-- `connect` raises `ZMQError`.
  Source: `cpp_ob_broker.py`, `CppOrderBookBroker.start`, lines 51-55 -/
  | unconnected (i : ℕ)

namespace Line

variable {σ : Type}

/-- `closed` of a socket. -/
def isClosed (s : Line σ) (k : ℕ) : Bool :=
  match s.sockets[k]? with
  | some .closed => true
  | _ => false

/-- Write to a task. -/
def write (s : Line σ) (i : ℕ) (f : Task → Task) : Line σ := { s with tasks := s.tasks.modify i f }

/-- A thread goes on at a place. -/
def goTo (s : Line σ) (i : ℕ) (place : LinePlace) : Line σ :=
  s.write i fun task => { task with place := place }

/-- A method returns. -/
def finish (s : Line σ) (i : ℕ) (task : Task) (result : Option (ℕ × Reply)) : Line σ :=
  { s with broker := task.errand.after (result.map Prod.snd) s.broker }.write i fun task =>
    { task with place := .returned, result := some result }

/-- A thread goes on at a place, or its method returns `None`. -/
def proceed (s : Line σ) (i : ℕ) (task : Task) (place : LinePlace) : Line σ :=
  if place = .returned then s.finish i task none else s.goTo i place

/-- A socket is in a new state. -/
def put (s : Line σ) (k : ℕ) (object : SocketObject) : Line σ :=
  { s with sockets := s.sockets.set k object }

/-- A socket is closed. A request that it has sent may still arrive. -/
def close (s : Line σ) (k : ℕ) : Line σ :=
  { s.put k .closed with abandoned := s.abandoned ++ ((s.sockets[k]?).elim [] (·.sending)) }

/-- `self.socket = self.context.socket(zmq.REQ)`. -/
def create (s : Line σ) : Line σ :=
  { s with socket := some s.sockets.length, sockets := s.sockets ++ [.unconnected] }

/-- `self.socket = None`. -/
def clear (s : Line σ) : Line σ := { s with socket := none }

/-- A thread is within a call, or in one that never returns. The exception that nothing catches is
the end of the thread of the position manager. -/
def isBusy (s : Line σ) (c : SocketCall) : Bool :=
  (s.tasks.any fun task =>
    match task.errand with
    | .call c' => c'.isPositionManager = c.isPositionManager ∧ task.place ≠ .returned ∧
        (c.isPositionManager ∨ task.place ≠ .raised)
    | .start | .stop => false) ||
    c.isPositionManager && s.broker.lockHeld

/-- A thread makes a call: up to `_send_request_to_ob`, or to its end if it sends nothing. -/
def startCall (s : Line σ) (c : SocketCall) : Line σ :=
  if s.isBusy c then s
  else match c.request s.broker with
    | some request =>
        { s with tasks := s.tasks ++ [⟨.call c, some request, .isNone .checks, none, none⟩] }
    | none =>
        { s with
          broker := c.after none s.broker,
          tasks := s.tasks ++ [⟨.call c, none, .returned, none, none⟩] }

/-- A thread calls a method. -/
def begin (s : Line σ) : Errand → Line σ
  | .call c => s.startCall c
  | .start => { s with tasks := s.tasks ++ [⟨.start, none, .isNone .starts, none, none⟩] }
  | .stop => { s with tasks := s.tasks ++ [⟨.stop, none, .isNone .stops, none, none⟩] }

/-- An operation on the socket that has been found. -/
def useSocket (s : Line σ) (i : ℕ) (task : Task) (k : ℕ) : SocketUse → Line σ
  | .setsOptions => s.goTo i (if s.isClosed k then .raised else .looks .connects)
  | .connects =>
      match s.sockets[k]? with
      | some .closed => s.goTo i (.looks .closesUnconnected)
      | some .unconnected => (s.put k .ready).proceed i task task.errand.afterStart
      | _ => s.proceed i task task.errand.afterStart
  | .sends =>
      match s.sockets[k]?, task.request with
      | some .ready, some request => (s.put k (.sent i request)).goTo i (.looks .receives)
      | some .ready, none => s
      | some .unconnected, _ => s
      | _, _ => s.goTo i .holds
  | .receives =>
      match s.sockets[k]? with
      | some (.answered j reply) => (s.put k .ready).finish i task (some (j, reply))
      | some (.sent _ _) => s
      | _ => s.goTo i .holds
  | .closesUnconnected => (s.close k).goTo i (.clears .unconnected)
  | .closesFaulty => (s.close k).goTo i (.clears .faulty)
  | .closesStopped => (s.close k).goTo i (.clears .stopped)

/-- The next step of a thread.
Source: `cpp_ob_broker.py`, `CppOrderBookBroker._send_request_to_ob`, `CppOrderBookBroker.start`,
`CppOrderBookBroker.stop` -/
def step (s : Line σ) (i : ℕ) (task : Task) : Line σ :=
  match task.place with
  | .isNone test =>
      match s.socket with
      | none => s.proceed i task test.shut
      | some _ => s.goTo i (.looksAgain test)
  | .looksAgain test =>
      match s.socket with
      | none => s.goTo i .raised
      | some k => s.goTo i (.readsClosed test k)
  | .readsClosed test k =>
      s.proceed i task
        (if s.isClosed k then test.shut else test.opened task.errand)
  | .creates => s.create.goTo i (.looks .setsOptions)
  | .looks use =>
      match s.socket with
      | none => s.proceed i task use.onNone
      | some k => s.goTo i (.uses use k)
  | .uses use k => s.useSocket i task k use
  | .holds =>
      match s.socket with
      | none => s.finish i task none
      | some _ => s.goTo i (.looks .closesFaulty)
  | .clears what => s.clear.proceed i task (what.next task.errand)
  | .returned | .raised => s

/-! ## Faults -/

/-- The operation of a call times out, if it is one that can. -/
def timeOut (s : Line σ) (i : ℕ) (task : Task) : Line σ :=
  match task.place with
  | .uses .sends k =>
      match s.sockets[k]? with
      | some .unconnected | some .ready => s.finish i task none
      | _ => s
  | .uses .receives k =>
      match s.sockets[k]? with
      | some (.sent _ _) => s.finish i task none
      | _ => s
  | _ => s

/-- The operation of a call raises, though the socket is in the state for it. -/
def raise (s : Line σ) (i : ℕ) (task : Task) : Line σ :=
  match task.place with
  | .uses .sends k =>
      match s.sockets[k]? with
      | some .unconnected | some .ready => s.goTo i .holds
      | _ => s
  | .uses .receives k =>
      match s.sockets[k]? with
      | some (.sent _ _) | some (.answered _ _) => s.goTo i .holds
      | _ => s
  | _ => s

/-- The reply that a call receives is not JSON. -/
def receiveUndecodable (s : Line σ) (i : ℕ) (task : Task) : Line σ :=
  match task.place with
  | .uses .receives k =>
      match s.sockets[k]? with
      | some (.answered _ _) => (s.put k .ready).finish i task none
      | _ => s
  | _ => s

/-- `connect` fails, though the socket is not closed. -/
def failToConnect (s : Line σ) (i : ℕ) (task : Task) : Line σ :=
  match task.place with
  | .uses .connects k =>
      if s.isClosed k then s else s.goTo i (.looks .closesUnconnected)
  | _ => s

/-- What is done with a task, if there is one. -/
def withTask (s : Line σ) (i : ℕ) (f : Line σ → ℕ → Task → Line σ) : Line σ :=
  match s.tasks[i]? with
  | some task => f s i task
  | none => s

section respond

variable (respond : Json → σ → Reply × σ)

/-- The server answers the request of a call. -/
def answer (s : Line σ) (i : ℕ) (request : Json) : Line σ :=
  { s with server := (respond request s.server).2 }.write i fun task =>
    { task with answered := some (respond request s.server).1 }

/-- What an event does; one that cannot happen does nothing. -/
def apply (s : Line σ) : LineEvent → Line σ
  | .begins errand => s.begin errand
  | .step i => s.withTask i step
  | .serve k =>
      match s.sockets[k]? with
      | some (.sent i request) =>
          (s.put k (.answered i (respond request s.server).1)).answer respond i request
      | _ => s
  | .serveAbandoned k =>
      match s.abandoned[k]? with
      | some (i, request) =>
          { s with abandoned := s.abandoned.eraseIdx k }.answer respond i request
      | none => s
  | .timesOut i => s.withTask i timeOut
  | .raises i => s.withTask i raise
  | .undecodable i => s.withTask i receiveUndecodable
  | .unconnected i => s.withTask i failToConnect

/-- A run. -/
def run (s : Line σ) (es : List LineEvent) : Line σ := es.foldl (apply respond) s

/-- A run without events. -/
@[simp] theorem run_nil (s : Line σ) : s.run respond [] = s := rfl

/-- A run: the first event, and then the others. -/
@[simp] theorem run_cons (s : Line σ) (e : LineEvent) (es : List LineEvent) :
    s.run respond (e :: es) = (s.apply respond e).run respond es := rfl

end respond

/-- No method has been called yet, and the socket is connected or `None`. -/
structure Fresh (s : Line σ) : Prop where
  tasks : s.tasks = []
  abandoned : s.abandoned = []
  socket : s.socket = none ∧ s.sockets = [] ∨ s.socket = some 0 ∧ s.sockets = [.ready]

/-- Every method has returned or raised. -/
def AllOver (s : Line σ) : Prop := ∀ task ∈ s.tasks, task.place.isOver = true

/-- Whether every method is over is decided. -/
instance (s : Line σ) : Decidable s.AllOver :=
  inferInstanceAs (Decidable (∀ task ∈ s.tasks, task.place.isOver = true))

end Line

end FlowManager.Broker
