import FlowManager.Broker.LockDiscipline

/-!
# The socket of the broker, shared by threads

`_send_request_to_ob` as the steps of a thread: a request and its reply are two operations on one
`zmq.REQ` socket, which the thread of the position manager and the thread of the API share without
a lock. `Connection` is the broker with its socket and the calls made so far; a call is known by
its place in the list. `SocketEvent` is one step: a thread makes a call, a call goes on by one
operation, the server answers.

* A `REQ` socket alternates between sending and receiving. An operation out of turn, or on a closed
  socket, raises `ZMQError`; on `None` it raises `AttributeError`, which the last `except` catches.
  `recv_json` waits until there is a reply.
* The server answers what it receives. A request whose socket has been closed may still arrive,
  and then nobody receives the reply; or it does not.
* Nothing times out, and connecting succeeds.
* `get_market_data_api` tests the socket before it calls the broker. What it has seen may no longer
  hold when the call begins, so the test does not count here.

What a method does before and after `_send_request_to_ob` concerns the caller's own thread, so it is
taken as one step with the end of the call. It is the method of `CppOrderBookBroker.lean`, run on
the reply.
-/

namespace FlowManager.Broker

open FlowManager.Lib FlowManager.Server

/-! ## Calls -/

/-- A call on the broker, on the thread of the position manager or on that of the API.
Source: `main_api.py`, `get_market_data_api` -/
inductive SocketCall where
  | positionManager (call : BrokerCall)
  | api (symbol : String)
  deriving DecidableEq

namespace SocketCall

/-- The call is made by the thread of the position manager. -/
def isPositionManager : SocketCall → Bool
  | .positionManager _ => true
  | .api _ => false

/-- What the method leaves of the broker. -/
def effect {ε : Type} (sendRequestToOb : Json → ε → Option Reply × ε) (c : SocketCall)
    (s : CppOrderBookBroker ε) : CppOrderBookBroker ε :=
  match c with
  | .positionManager call => ((call.run sendRequestToOb).run s).state
  | .api symbol => ((getMarketDataSnapshot sendRequestToOb symbol).run s).state

/-- What the method leaves once `_send_request_to_ob` has returned. -/
def after (c : SocketCall) (response : Option Reply) (s : CppOrderBookBroker Unit) :
    CppOrderBookBroker Unit :=
  c.effect (answering response) s

/-- The other end of the socket keeps the request. -/
def recording : Json → Option Json → Option Reply × Option Json :=
  fun request _ => (none, some request)

/-- The request that the method sends, if it sends one. -/
def request (c : SocketCall) (s : CppOrderBookBroker Unit) : Option Json :=
  (c.effect recording
    { brokerOrderIdCounter := s.brokerOrderIdCounter, lockHeld := s.lockHeld,
      clientToBrokerIdMap := s.clientToBrokerIdMap, brokerToClientIdMap := s.brokerToClientIdMap,
      brokerIdToOrderDetails := s.brokerIdToOrderDetails, confirmations := s.confirmations,
      orderBook := none }).orderBook

end SocketCall

/-- Whether the method has dispatched a rejection. -/
def dispatchesRejection (s s' : CppOrderBookBroker Unit) : Bool :=
  (s'.confirmations.drop s.confirmations.length).any fun conf => conf.status = .REJECTED

/-- Where a call is in `_send_request_to_ob`: the operation that comes next.
Source: `cpp_ob_broker.py`, `CppOrderBookBroker._send_request_to_ob` -/
inductive SendPlace where
  /-- The first test of the socket. -/
  | checking
  /-- `self.start()`. -/
  | starting
  /-- The test behind it. -/
  | rechecking
  | sending
  | receiving
  /-- In the handler of `ZMQError`, `self.socket.close()`. -/
  | closing
  /-- In the handler of `ZMQError`, `self.socket = None`. -/
  | clearing
  | returned
  deriving DecidableEq

/-- A call: the request it sends, if any, what the server has answered to it, what
`_send_request_to_ob` has returned with the call whose reply that is, and whether the method has
dispatched a rejection. -/
structure CallRecord where
  call : SocketCall
  request : Option Json
  place : SendPlace
  answered : Option Reply
  result : Option (Option (ℕ × Reply))
  rejected : Bool

/-! ## The connection -/

/-- A `zmq.REQ` socket: what it has sent, or has got, for a call. -/
inductive Socket where
  | closed
  | ready
  | sent (i : ℕ) (request : Json)
  | answered (i : ℕ) (reply : Reply)

/-- The broker, `self.socket`, the calls made so far, the server at the other end, and the requests
of sockets that have been closed. -/
structure Connection (σ : Type) where
  broker : CppOrderBookBroker Unit
  socket : Option Socket
  calls : List CallRecord
  server : σ
  abandoned : List (ℕ × Json)

/-- A step of a thread or of the server. -/
inductive SocketEvent where
  /-- A thread calls the broker. -/
  | call (c : SocketCall)
  /-- A call makes its next operation. -/
  | step (i : ℕ)
  /-- The server answers the request of the socket. -/
  | serve
  /-- The server answers a request whose socket has been closed. -/
  | serveAbandoned (k : ℕ)

namespace Connection

variable {σ : Type}

/-- Write to the record of a call. -/
def write (s : Connection σ) (i : ℕ) (f : CallRecord → CallRecord) : Connection σ :=
  { s with calls := s.calls.modify i f }

/-- A call goes on at a place. -/
def goTo (s : Connection σ) (i : ℕ) (place : SendPlace) : Connection σ :=
  s.write i fun record => { record with place := place }

/-- A call that goes to another place leaves the socket. -/
@[simp] theorem goTo_socket (s : Connection σ) (i : ℕ) (place : SendPlace) :
    (s.goTo i place).socket = s.socket := rfl

/-- `self.socket is None or self.socket.closed` is false. -/
def isOpen (s : Connection σ) : Bool :=
  match s.socket with
  | none => false
  | some .closed => false
  | some _ => true

/-- Drop the socket object with the request it has sent. -/
def dropSocket (s : Connection σ) (socket : Option Socket) : Connection σ :=
  match s.socket with
  | some (.sent i request) =>
      { s with socket := socket, abandoned := s.abandoned ++ [(i, request)] }
  | _ => { s with socket := socket }

/-- `_send_request_to_ob` returns, and the method runs to its end. -/
def finish (s : Connection σ) (i : ℕ) (record : CallRecord) (result : Option (ℕ × Reply)) :
    Connection σ :=
  let broker := record.call.after (result.map Prod.snd) s.broker
  { s with broker := broker }.write i fun record =>
    { record with place := .returned, result := some result,
                  rejected := dispatchesRejection s.broker broker }

/-- A call that returns leaves the socket. -/
@[simp] theorem finish_socket (s : Connection σ) (i : ℕ) (record : CallRecord)
    (result : Option (ℕ × Reply)) : (s.finish i record result).socket = s.socket := rfl

/-- A thread is within a call, or in one that never returns. -/
def isBusy (s : Connection σ) (c : SocketCall) : Bool :=
  (s.calls.any fun record =>
    record.call.isPositionManager = c.isPositionManager ∧ record.place ≠ .returned) ||
    c.isPositionManager && s.broker.lockHeld

/-- A thread makes a call: up to `_send_request_to_ob`, or to its end if it sends nothing. -/
def startCall (s : Connection σ) (c : SocketCall) : Connection σ :=
  if s.isBusy c then s
  else match c.request s.broker with
    | some request =>
        { s with calls := s.calls ++ [⟨c, some request, .checking, none, none, false⟩] }
    | none =>
        let broker := c.after none s.broker
        { s with
          broker := broker,
          calls := s.calls ++
            [⟨c, none, .returned, none, none, dispatchesRejection s.broker broker⟩] }

/-- The next operation of a call.
Source: `cpp_ob_broker.py`, `CppOrderBookBroker._send_request_to_ob` -/
def stepCall (s : Connection σ) (i : ℕ) (record : CallRecord) : Connection σ :=
  match record.place with
  | .checking => s.goTo i (if s.isOpen then .sending else .starting)
  | .starting => { s with socket := if s.isOpen then s.socket else some .ready }.goTo i .rechecking
  | .rechecking => if s.isOpen then s.goTo i .sending else s.finish i record none
  | .sending =>
      match s.socket with
      | none => s.finish i record none
      | some .ready =>
          match record.request with
          | some request => { s with socket := some (.sent i request) }.goTo i .receiving
          | none => s
      | some _ => s.goTo i .closing
  | .receiving =>
      match s.socket with
      | none => s.finish i record none
      | some (.answered j reply) =>
          { s with socket := some .ready }.finish i record (some (j, reply))
      | some (.sent _ _) => s
      | some _ => s.goTo i .closing
  | .closing =>
      match s.socket with
      | none => s.finish i record none
      | some _ => (s.dropSocket (some .closed)).goTo i .clearing
  | .clearing => (s.dropSocket none).finish i record none
  | .returned => s

section respond

variable (respond : Json → σ → Reply × σ)

/-- The server answers the request of a call. -/
def answer (s : Connection σ) (i : ℕ) (request : Json) : Connection σ :=
  { s with server := (respond request s.server).2 }.write i fun record =>
    { record with answered := some (respond request s.server).1 }

/-- The server's answer to a call leaves the socket. -/
@[simp] theorem answer_socket (s : Connection σ) (i : ℕ) (request : Json) :
    (s.answer respond i request).socket = s.socket := rfl

/-- What an event does; one that cannot happen does nothing. -/
def apply (s : Connection σ) : SocketEvent → Connection σ
  | .call c => s.startCall c
  | .step i =>
      match s.calls[i]? with
      | some record => s.stepCall i record
      | none => s
  | .serve =>
      match s.socket with
      | some (.sent i request) =>
          { s with socket := some (.answered i (respond request s.server).1) }.answer respond i
            request
      | _ => s
  | .serveAbandoned k =>
      match s.abandoned[k]? with
      | some (i, request) =>
          { s with abandoned := s.abandoned.eraseIdx k }.answer respond i request
      | none => s

/-- A run. -/
def run (s : Connection σ) (es : List SocketEvent) : Connection σ := es.foldl (apply respond) s

end respond

/-- No call has been made yet, and the socket is connected or `None`. -/
structure Fresh (s : Connection σ) : Prop where
  calls : s.calls = []
  abandoned : s.abandoned = []
  socket : s.socket = none ∨ s.socket = some .ready

end Connection

end FlowManager.Broker
