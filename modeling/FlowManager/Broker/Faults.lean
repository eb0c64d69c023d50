import FlowManager.Broker.SocketOperations

/-!
# What an event of the line can do

`Move` says once what an event does to the line, with what the server executes in it and what it
costs. `Onward` are the steps that only take a thread to another place, `LineFault` the faults that
do. What the server executes in a run is the list `executions`, and `tolls` is what a run costs.

A fault costs a call that would have got its reply, and a reply that is waited for in vain costs
two: the socket goes on waiting for it, so the next call that sends is out of turn. A step of
`start` or `stop` on another thread costs one where it replaces, closes or clears the socket during
a call.
-/

namespace FlowManager.Broker

open FlowManager.Lib FlowManager.Server

/-! ## What the server executes -/

/-- The server has executed the request of a call. -/
structure Execution where
  call : ℕ
  request : Json
  reply : Reply

section executions

variable {σ : Type} (respond : Json → σ → Reply × σ)

/-- What the server executes in an event. -/
def executed (s : Line σ) : LineEvent → List Execution
  | .serve k =>
      match s.sockets[k]? with
      | some (.sent i request) => [⟨i, request, (respond request s.server).1⟩]
      | _ => []
  | .serveAbandoned k =>
      match s.abandoned[k]? with
      | some (i, request) => [⟨i, request, (respond request s.server).1⟩]
      | none => []
  | _ => []

/-- What the server executes in a run, in order. -/
def executions : Line σ → List LineEvent → List Execution
  | _, [] => []
  | s, e :: es => executed respond s e ++ executions (s.apply respond e) es

end executions

/-! ## What an event costs -/

namespace Line

variable {σ : Type}

/-- The socket that `self.socket` is. -/
def current (s : Line σ) : Option SocketObject := s.socket.bind fun k => s.sockets[k]?

/-- A call that looks at `self.socket` now can send on it. -/
def isUsable (s : Line σ) : Bool :=
  match s.current with
  | some .unconnected | some .ready => true
  | _ => false

/-- A thread is within a call. -/
def inCall (s : Line σ) : Bool :=
  s.tasks.any fun task => task.errand.isCall && !task.place.isOver

/-- What it costs that a thread replaces, closes or clears the socket. -/
def disturbance (s : Line σ) (task : Task) : ℕ := if s.inCall && !task.errand.isCall then 1 else 0

/-- What a step of a thread costs. -/
def stepToll (s : Line σ) (task : Task) : ℕ :=
  match task.place with
  | .creates | .clears _ => s.disturbance task
  | .uses .closesUnconnected _ | .uses .closesFaulty _ | .uses .closesStopped _ =>
      s.disturbance task
  | _ => 0

/-- What it costs that an operation of a call times out. One that has lost its socket is lost
already. -/
def timeOutToll (s : Line σ) (task : Task) : ℕ :=
  match task.place with
  | .uses .sends k =>
      match s.sockets[k]? with
      | some .unconnected | some .ready => if s.socket = some k then 1 else 0
      | _ => 0
  | .uses .receives k =>
      match s.sockets[k]? with
      | some (.sent _ _) => if s.socket = some k then 2 else 1
      | _ => 0
  | _ => 0

/-- What it costs that an operation of a call raises. -/
def raiseToll (s : Line σ) (task : Task) : ℕ :=
  match task.place with
  | .uses .sends k =>
      match s.sockets[k]? with
      | some .unconnected | some .ready => if s.socket = some k then 1 else 0
      | _ => 0
  | .uses .receives k =>
      match s.sockets[k]? with
      | some (.sent _ _) | some (.answered _ _) => 1
      | _ => 0
  | _ => 0

/-- What it costs that a reply is not JSON. -/
def undecodableToll (s : Line σ) (task : Task) : ℕ :=
  match task.place with
  | .uses .receives k =>
      match s.sockets[k]? with
      | some (.answered _ _) => 1
      | _ => 0
  | _ => 0

/-- What it costs that `connect` fails. -/
def unconnectedToll (s : Line σ) (task : Task) : ℕ :=
  match task.place with
  | .uses .connects k =>
      if s.isClosed k then 0 else if task.errand.isCall && s.isUsable then 1 else 0
  | _ => 0

end Line

section tolls

variable {σ : Type} (respond : Json → σ → Reply × σ)

/-- What an event costs. -/
def toll (s : Line σ) : LineEvent → ℕ
  | .step i => (s.tasks[i]?).elim 0 s.stepToll
  | .timesOut i => (s.tasks[i]?).elim 0 s.timeOutToll
  | .raises i => (s.tasks[i]?).elim 0 s.raiseToll
  | .undecodable i => (s.tasks[i]?).elim 0 s.undecodableToll
  | .unconnected i => (s.tasks[i]?).elim 0 s.unconnectedToll
  | .begins _ | .serve _ | .serveAbandoned _ => 0

/-- What a run costs. -/
def tolls : Line σ → List LineEvent → ℕ
  | _, [] => 0
  | s, e :: es => toll s e + tolls (s.apply respond e) es

end tolls

/-! ## What an event can do -/

/-- A thread that has just called a method: it is about to begin, or has sent nothing and is
over. -/
structure Task.New (task : Task) : Prop where
  place : task.place = .returned ∨
    task.place = match task.errand with
      | .call _ => .isNone .checks
      | .start => .isNone .starts
      | .stop => .isNone .stops
  answered : task.answered = none
  result : task.result = none

/-- What a thread does to the socket on its way from `close` to `self.socket = None`. -/
inductive Closes : SocketUse → SocketClear → Prop
  | unconnected : Closes .closesUnconnected .unconnected
  | faulty : Closes .closesFaulty .faulty
  | stopped : Closes .closesStopped .stopped

section moves

variable {σ : Type} {respond : Json → σ → Reply × σ} {s : Line σ} {e : LineEvent} {i k : ℕ}
  {task : Task}

/-- The socket can be sent on, or is about to be connected. -/
def SocketObject.Idle (object : SocketObject) : Prop := object = .unconnected ∨ object = .ready

/-- A step takes a thread from one place to another, and changes no socket. -/
inductive Onward (s : Line σ) (errand : Errand) : LinePlace → LinePlace → Prop
  | isNone {test : SocketTest} : s.socket = none → Onward s errand (.isNone test) test.shut
  | isSome {test : SocketTest} {k : ℕ} : s.socket = some k →
      Onward s errand (.isNone test) (.looksAgain test)
  | vanished {test : SocketTest} : s.socket = none → Onward s errand (.looksAgain test) .raised
  | looksAgain {test : SocketTest} {k : ℕ} : s.socket = some k →
      Onward s errand (.looksAgain test) (.readsClosed test k)
  | shut {test : SocketTest} {k : ℕ} : s.isClosed k = true →
      Onward s errand (.readsClosed test k) test.shut
  | opened {test : SocketTest} {k : ℕ} : s.isClosed k = false →
      Onward s errand (.readsClosed test k) (test.opened errand)
  | usesNone {use : SocketUse} : s.socket = none → Onward s errand (.looks use) use.onNone
  | looks {use : SocketUse} {k : ℕ} : s.socket = some k →
      Onward s errand (.looks use) (.uses use k)
  | cannotSet {k : ℕ} : s.isClosed k = true → Onward s errand (.uses .setsOptions k) .raised
  | sets {k : ℕ} : s.isClosed k = false →
      Onward s errand (.uses .setsOptions k) (.looks .connects)
  | cannotConnect {k : ℕ} : s.isClosed k = true →
      Onward s errand (.uses .connects k) (.looks .closesUnconnected)
  | isConnected {k : ℕ} : s.isClosed k = false →
      Onward s errand (.uses .connects k) errand.afterStart
  | sendsOutOfTurn {k : ℕ} : (∀ object, s.sockets[k]? = some object → ¬object.Idle) →
      Onward s errand (.uses .sends k) .holds
  | receivesOutOfTurn {k : ℕ} : (∀ object, s.sockets[k]? = some object → object.owner = none) →
      Onward s errand (.uses .receives k) .holds
  | holdsNone : s.socket = none → Onward s errand .holds .returned
  | holds {k : ℕ} : s.socket = some k → Onward s errand .holds (.looks .closesFaulty)

/-- A fault takes a thread from one place to another, and changes no socket. -/
inductive LineFault (s : Line σ) (errand : Errand) : LinePlace → LinePlace → ℕ → Prop
  | sendingTimesOut {k : ℕ} {object : SocketObject} : s.sockets[k]? = some object → object.Idle →
      LineFault s errand (.uses .sends k) .returned (if s.socket = some k then 1 else 0)
  | receivingTimesOut {k i : ℕ} {request : Json} : s.sockets[k]? = some (.sent i request) →
      LineFault s errand (.uses .receives k) .returned (if s.socket = some k then 2 else 1)
  | sendingRaises {k : ℕ} {object : SocketObject} : s.sockets[k]? = some object → object.Idle →
      LineFault s errand (.uses .sends k) .holds (if s.socket = some k then 1 else 0)
  | receivingRaises {k i : ℕ} {object : SocketObject} : s.sockets[k]? = some object →
      object.owner = some i → LineFault s errand (.uses .receives k) .holds 1
  | unconnected {k : ℕ} : s.isClosed k = false →
      LineFault s errand (.uses .connects k) (.looks .closesUnconnected)
        (if errand.isCall && s.isUsable then 1 else 0)

/-- What an event does to the line, with its toll and what the server executes. -/
inductive Move (respond : Json → σ → Reply × σ) (s : Line σ) (e : LineEvent) :
    ℕ → List Execution → Line σ → Prop
  | nothing : Move respond s e 0 [] s
  | begins {broker : CppOrderBookBroker Unit} {task : Task} : e = .begins task.errand →
      (∀ c, task.errand = .call c → s.isBusy c = false) → task.New →
      Move respond s e 0 [] { s with broker := broker, tasks := s.tasks ++ [task] }
  | goes {i : ℕ} {task : Task} {place : LinePlace} : e = .step i → s.tasks[i]? = some task →
      Onward s task.errand task.place place → Move respond s e 0 [] (s.proceed i task place)
  | fails {i : ℕ} {task : Task} {place : LinePlace} {n : ℕ} : s.tasks[i]? = some task →
      LineFault s task.errand task.place place n → Move respond s e n [] (s.proceed i task place)
  | creates {i : ℕ} {task : Task} : s.tasks[i]? = some task → task.place = .creates →
      Move respond s e (s.disturbance task) [] (s.create.goTo i (.looks .setsOptions))
  | connects {i k : ℕ} {task : Task} : s.tasks[i]? = some task →
      task.place = .uses .connects k → s.sockets[k]? = some .unconnected →
      Move respond s e 0 [] ((s.put k .ready).proceed i task task.errand.afterStart)
  | closes {i k : ℕ} {task : Task} {use : SocketUse} {what : SocketClear} :
      s.tasks[i]? = some task → task.place = .uses use k → Closes use what →
      Move respond s e (s.disturbance task) [] ((s.close k).goTo i (.clears what))
  | clears {i : ℕ} {task : Task} {what : SocketClear} : s.tasks[i]? = some task →
      task.place = .clears what →
      Move respond s e (s.disturbance task) [] (s.clear.proceed i task (what.next task.errand))
  | sends {i k : ℕ} {task : Task} {request : Json} : s.tasks[i]? = some task →
      task.place = .uses .sends k → s.sockets[k]? = some .ready → task.request = some request →
      Move respond s e 0 [] ((s.put k (.sent i request)).goTo i (.looks .receives))
  | gets {i j k : ℕ} {task : Task} {reply : Reply} : s.tasks[i]? = some task →
      task.place = .uses .receives k → s.sockets[k]? = some (.answered j reply) →
      Move respond s e 0 [] ((s.put k .ready).finish i task (some (j, reply)))
  | garbles {i j k : ℕ} {task : Task} {reply : Reply} : s.tasks[i]? = some task →
      task.place = .uses .receives k → s.sockets[k]? = some (.answered j reply) →
      Move respond s e 1 [] ((s.put k .ready).finish i task none)
  | serves {i k : ℕ} {request : Json} : s.sockets[k]? = some (.sent i request) →
      Move respond s e 0 [⟨i, request, (respond request s.server).1⟩]
        ((s.put k (.answered i (respond request s.server).1)).answer respond i request)
  | servesAbandoned {i k : ℕ} {request : Json} : s.abandoned[k]? = some (i, request) →
      Move respond s e 0 [⟨i, request, (respond request s.server).1⟩]
        ({ s with abandoned := s.abandoned.eraseIdx k }.answer respond i request)

/-- A method that returns goes to its end, and one that does not goes on. -/
theorem proceed_of_ne (task : Task) {place : LinePlace} (h : place ≠ .returned) :
    s.proceed i task place = s.goTo i place := if_neg h

/-- A method that goes on to its end returns `None`. -/
@[simp] theorem proceed_returned : s.proceed i task .returned = s.finish i task none := if_pos rfl

/-- A socket that is not closed, or is none. -/
theorem isClosed_eq_false_of_ne (h : ∀ object, s.sockets[k]? = some object → object ≠ .closed) :
    s.isClosed k = false := by
  unfold Line.isClosed
  split
  · next hclosed => exact absurd rfl (h _ hclosed)
  · rfl

/-- A closed socket is known by its entry. -/
theorem isClosed_eq_true_iff : s.isClosed k = true ↔ s.sockets[k]? = some .closed := by
  unfold Line.isClosed
  split
  · next hclosed => simp [hclosed]
  · next hclosed => simpa using hclosed

/-- An operation on a socket that has been found. -/
theorem move_useSocket {use : SocketUse} (hi : s.tasks[i]? = some task)
    (hplace : task.place = .uses use k) :
    Move respond s (.step i) (s.stepToll task) [] (s.useSocket i task k use) := by
  have hgoes : ∀ {place : LinePlace}, place ≠ .returned →
      Onward s task.errand (.uses use k) place →
      Move respond s (.step i) 0 [] (s.goTo i place) := by
    intro place hne honward
    rw [← proceed_of_ne task hne]
    exact .goes rfl hi (hplace ▸ honward)
  unfold Line.useSocket Line.stepToll
  rw [hplace]
  cases use with
  | setsOptions =>
      dsimp only
      cases hclosed : s.isClosed k with
      | true => exact hgoes (by decide) (.cannotSet hclosed)
      | false => exact hgoes (by decide) (.sets hclosed)
  | connects =>
      dsimp only
      split
      · next hclosed =>
          exact hgoes (by decide) (.cannotConnect (isClosed_eq_true_iff.mpr hclosed))
      · next hunconnected => exact .connects hi hplace hunconnected
      · next hclosed _ =>
          refine .goes rfl hi (hplace ▸ .isConnected (isClosed_eq_false_of_ne fun object hk => ?_))
          rintro rfl
          exact hclosed hk
  | sends =>
      have hturn : ∀ {object : Option SocketObject}, s.sockets[k]? = object →
          (∀ object', object = some object' → ¬object'.Idle) →
          Move respond s (.step i) 0 [] (s.goTo i .holds) := by
        rintro _ rfl hnot
        exact hgoes (by decide) (.sendsOutOfTurn hnot)
      dsimp only
      cases hk : s.sockets[k]? with
      | none => exact hturn hk (by simp)
      | some object =>
          cases object with
          | unconnected => exact .nothing
          | ready =>
              cases hrequest : task.request with
              | none => exact .nothing
              | some request => exact .sends hi hplace hk hrequest
          | sent _ _ | answered _ _ | closed => exact hturn hk (by simp [SocketObject.Idle])
  | receives =>
      dsimp only
      split
      · next hanswered => exact .gets hi hplace hanswered
      · exact .nothing
      · next hanswered hsent =>
          refine hgoes (by decide) (.receivesOutOfTurn fun object hk => ?_)
          cases object with
          | sent j request => exact absurd hk (hsent j request)
          | answered j reply => exact absurd hk (hanswered j reply)
          | unconnected | ready | closed => rfl
  | closesUnconnected => exact .closes hi hplace .unconnected
  | closesFaulty => exact .closes hi hplace .faulty
  | closesStopped => exact .closes hi hplace .stopped

/-- A thread makes its next step. -/
theorem move_step (hi : s.tasks[i]? = some task) :
    Move respond s (.step i) (s.stepToll task) [] (s.step i task) := by
  have hgoes : ∀ {place : LinePlace}, Onward s task.errand task.place place →
      Move respond s (.step i) 0 [] (s.proceed i task place) := fun honward => .goes rfl hi honward
  cases hplace : task.place with
  | uses use k =>
      have hmove : Move respond s (.step i) (s.stepToll task) [] (s.useSocket i task k use) :=
        move_useSocket hi hplace
      unfold Line.step
      rwa [hplace]
  | isNone test =>
      unfold Line.step Line.stepToll
      rw [hplace] at hgoes ⊢
      dsimp only
      cases hsocket : s.socket with
      | none => exact hgoes (.isNone hsocket)
      | some k => exact hgoes (.isSome hsocket)
  | looksAgain test =>
      unfold Line.step Line.stepToll
      rw [hplace] at hgoes ⊢
      dsimp only
      cases hsocket : s.socket with
      | none => exact hgoes (.vanished hsocket)
      | some k => exact hgoes (.looksAgain hsocket)
  | readsClosed test k =>
      unfold Line.step Line.stepToll
      rw [hplace] at hgoes ⊢
      dsimp only
      cases hclosed : s.isClosed k with
      | true => exact hgoes (.shut hclosed)
      | false => exact hgoes (.opened hclosed)
  | creates =>
      unfold Line.step Line.stepToll
      rw [hplace]
      exact .creates hi hplace
  | looks use =>
      unfold Line.step Line.stepToll
      rw [hplace] at hgoes ⊢
      dsimp only
      cases hsocket : s.socket with
      | none => exact hgoes (.usesNone hsocket)
      | some k => exact hgoes (.looks hsocket)
  | holds =>
      unfold Line.step Line.stepToll
      rw [hplace] at hgoes ⊢
      dsimp only
      cases hsocket : s.socket with
      | none => exact hgoes (.holdsNone hsocket)
      | some k => exact hgoes (.holds hsocket)
  | clears what =>
      unfold Line.step Line.stepToll
      rw [hplace]
      exact .clears hi hplace
  | returned | raised =>
      unfold Line.step Line.stepToll
      rw [hplace]
      exact .nothing

/-- A thread makes a call. -/
theorem move_startCall (c : SocketCall) :
    Move respond s (.begins (.call c)) 0 [] (s.startCall c) := by
  have hbegins : ∀ {broker : CppOrderBookBroker Unit} {request : Option Json} {place : LinePlace},
      s.isBusy c = false → place = .returned ∨ place = .isNone .checks →
      Move respond s (.begins (.call c)) 0 []
        { s with
          broker := broker
          tasks := s.tasks ++ [⟨.call c, request, place, none, none⟩] } := by
    intro broker request place hbusy hplace
    refine .begins rfl ?_ ⟨hplace, rfl, rfl⟩
    rintro c' ⟨⟩
    exact hbusy
  unfold Line.startCall
  cases hbusy : s.isBusy c with
  | true => exact .nothing
  | false =>
      rw [if_neg Bool.false_ne_true]
      cases c.request s.broker with
      | some request => exact hbegins hbusy (Or.inr rfl)
      | none => exact hbegins hbusy (Or.inl rfl)

/-- A thread calls a method. -/
theorem move_begin (errand : Errand) : Move respond s (.begins errand) 0 [] (s.begin errand) := by
  cases errand with
  | call c => exact move_startCall c
  | start => exact .begins rfl (by rintro c ⟨⟩) ⟨Or.inr rfl, rfl, rfl⟩
  | stop => exact .begins rfl (by rintro c ⟨⟩) ⟨Or.inr rfl, rfl, rfl⟩

/-- The operation of a call times out. -/
theorem move_timeOut (hi : s.tasks[i]? = some task) :
    Move respond s (.timesOut i) (s.timeOutToll task) [] (s.timeOut i task) := by
  have hfails : ∀ {n : ℕ}, LineFault s task.errand task.place .returned n →
      Move respond s (.timesOut i) n [] (s.finish i task none) := by
    intro n hfault
    rw [← proceed_returned]
    exact .fails hi hfault
  unfold Line.timeOut Line.timeOutToll
  cases hplace : task.place with
  | uses use k =>
      rw [hplace] at hfails
      cases use with
      | sends =>
          dsimp only
          rcases hk : s.sockets[k]? with _ | _ | _ | _ | _ | _
          case some.unconnected => exact hfails (.sendingTimesOut hk (Or.inl rfl))
          case some.ready => exact hfails (.sendingTimesOut hk (Or.inr rfl))
          all_goals exact .nothing
      | receives =>
          dsimp only
          rcases hk : s.sockets[k]? with _ | _ | _ | _ | _ | _
          case some.sent => exact hfails (.receivingTimesOut hk)
          all_goals exact .nothing
      | setsOptions | connects | closesUnconnected | closesFaulty | closesStopped =>
          exact .nothing
  | isNone _ | looksAgain _ | readsClosed _ _ | creates | looks _ | holds | clears _ | returned
    | raised => exact .nothing

/-- The operation of a call raises. -/
theorem move_raise (hi : s.tasks[i]? = some task) :
    Move respond s (.raises i) (s.raiseToll task) [] (s.raise i task) := by
  have hfails : ∀ {n : ℕ}, LineFault s task.errand task.place .holds n →
      Move respond s (.raises i) n [] (s.goTo i .holds) := by
    intro n hfault
    rw [← proceed_of_ne task (by decide)]
    exact .fails hi hfault
  unfold Line.raise Line.raiseToll
  cases hplace : task.place with
  | uses use k =>
      rw [hplace] at hfails
      cases use with
      | sends =>
          dsimp only
          rcases hk : s.sockets[k]? with _ | _ | _ | _ | _ | _
          case some.unconnected => exact hfails (.sendingRaises hk (Or.inl rfl))
          case some.ready => exact hfails (.sendingRaises hk (Or.inr rfl))
          all_goals exact .nothing
      | receives =>
          dsimp only
          rcases hk : s.sockets[k]? with _ | _ | _ | _ | _ | _
          case some.sent => exact hfails (.receivingRaises hk rfl)
          case some.answered => exact hfails (.receivingRaises hk rfl)
          all_goals exact .nothing
      | setsOptions | connects | closesUnconnected | closesFaulty | closesStopped =>
          exact .nothing
  | isNone _ | looksAgain _ | readsClosed _ _ | creates | looks _ | holds | clears _ | returned
    | raised => exact .nothing

/-- The reply that a call receives is not JSON. -/
theorem move_receiveUndecodable (hi : s.tasks[i]? = some task) :
    Move respond s (.undecodable i) (s.undecodableToll task) [] (s.receiveUndecodable i task) := by
  unfold Line.receiveUndecodable Line.undecodableToll
  cases hplace : task.place with
  | uses use k =>
      cases use with
      | receives =>
          dsimp only
          rcases hk : s.sockets[k]? with _ | _ | _ | _ | _ | _
          case some.answered => exact .garbles hi hplace hk
          all_goals exact .nothing
      | setsOptions | connects | sends | closesUnconnected | closesFaulty | closesStopped =>
          exact .nothing
  | isNone _ | looksAgain _ | readsClosed _ _ | creates | looks _ | holds | clears _ | returned
    | raised => exact .nothing

/-- `connect` fails. -/
theorem move_failToConnect (hi : s.tasks[i]? = some task) :
    Move respond s (.unconnected i) (s.unconnectedToll task) [] (s.failToConnect i task) := by
  unfold Line.failToConnect Line.unconnectedToll
  cases hplace : task.place with
  | uses use k =>
      cases use with
      | connects =>
          dsimp only
          cases hclosed : s.isClosed k with
          | true => exact .nothing
          | false =>
              rw [if_neg Bool.false_ne_true, if_neg Bool.false_ne_true,
                ← proceed_of_ne task (by decide)]
              exact .fails hi (hplace ▸ .unconnected hclosed)
      | setsOptions | sends | receives | closesUnconnected | closesFaulty | closesStopped =>
          exact .nothing
  | isNone _ | looksAgain _ | readsClosed _ _ | creates | looks _ | holds | clears _ | returned
    | raised => exact .nothing

/-- What is done with a task is a move, if it is one where there is a task. -/
theorem move_withTask {f : Line σ → ℕ → Task → Line σ} {g : Task → ℕ}
    (h : ∀ task, s.tasks[i]? = some task → Move respond s e (g task) [] (f s i task)) :
    Move respond s e ((s.tasks[i]?).elim 0 g) [] (s.withTask i f) := by
  unfold Line.withTask
  cases hi : s.tasks[i]? with
  | none => exact .nothing
  | some task => exact h task hi

/-- **Every event is a move.** -/
theorem move_apply : Move respond s e (toll s e) (executed respond s e) (s.apply respond e) := by
  cases e with
  | begins errand => exact move_begin errand
  | step i => exact move_withTask fun _ hi => move_step hi
  | timesOut i => exact move_withTask fun _ hi => move_timeOut hi
  | raises i => exact move_withTask fun _ hi => move_raise hi
  | undecodable i => exact move_withTask fun _ hi => move_receiveUndecodable hi
  | unconnected i => exact move_withTask fun _ hi => move_failToConnect hi
  | serve k =>
      dsimp only [Line.apply, executed]
      rcases hk : s.sockets[k]? with _ | _ | _ | ⟨i, request⟩ | _ | _
      case some.sent => exact .serves hk
      all_goals exact .nothing
  | serveAbandoned k =>
      dsimp only [Line.apply, executed]
      rcases hk : s.abandoned[k]? with _ | ⟨i, request⟩
      · exact .nothing
      · exact .servesAbandoned hk

end moves

end FlowManager.Broker
