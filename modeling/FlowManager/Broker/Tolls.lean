import FlowManager.Broker.DespiteFaults

/-!
# What the faults cost a thread that calls alone

A thread that is the only one to call is always in turn, so its calls get their own replies or end
without one: they return `None`, or raise. Each of these is the toll of a fault, or of a step of
`start` or `stop` on another thread (`toll`). `Line.bill` is what has been lost and what the state
of the socket is going to cost; an event adds its toll to the bill (`Alone.move`), and less only
where another thread has been at the socket.
-/

namespace FlowManager.Broker

open FlowManager.Lib FlowManager.Server

section tolls

variable {σ : Type} {respond : Json → σ → Reply × σ} {s s' : Line σ} {e : LineEvent}
  {i k n : ℕ} {b : Bool} {task : Task} {place : LinePlace} {new : List Execution}
  {f : Task → Task}

/-! ## Calls that end without a reply -/

/-- A thread is within a call. -/
def Task.isUnderWay (task : Task) : Bool := task.errand.isCall && !task.place.isOver

/-- `_send_request_to_ob` has returned `None` or raised. -/
def Task.isLost (task : Task) : Bool :=
  task.errand.isCall &&
    match task.place, task.result with
    | .returned, some none => true
    | .raised, _ => true
    | _, _ => false

/-- How many calls have ended without a reply. -/
def Line.lostCalls (s : Line σ) : ℕ := s.tasks.countP Task.isLost

/-- A call that is not over is not lost. -/
theorem isLost_of_not_isOver (h : task.place.isOver = false) : task.isLost = false := by
  unfold Task.isLost
  split
  · next hplace _ =>
      rw [hplace] at h
      cases h
  · next hplace =>
      rw [hplace] at h
      cases h
  · exact Bool.and_false _

/-! ## What a place is going to cost -/

namespace Line

/-- What it costs the next call that `self.socket` is busy: the socket takes no request. -/
def idle (s : Line σ) : ℕ := if s.owner.isSome then 1 else 0

/-- What it costs a call that is about to send that `self.socket` cannot be sent on. -/
def blocked (s : Line σ) : ℕ := if s.isUsable then 0 else 1

/-- What it costs a call to be at a place, if nothing goes wrong any more: one, if it is not going
to get a reply, or if the next call is not going to. -/
def charge (s : Line σ) : LinePlace → ℕ
  | .returned | .raised | .isNone .checks | .isNone .starts => s.idle
  | .looksAgain .checks | .looksAgain .starts => if s.socket = none then 1 else s.idle
  | .readsClosed .checks k => if s.isClosed k then s.idle else s.blocked
  | .readsClosed .starts k => if s.isClosed k then 0 else s.blocked
  | .creates => 0
  | .looks .setsOptions | .looks .connects | .isNone .rechecks | .looksAgain .rechecks
  | .looks .sends => s.blocked
  | .uses .setsOptions k | .uses .connects k | .readsClosed .rechecks k =>
      if s.isClosed k then 1 else s.blocked
  | .uses .sends k => if s.socket = some k then s.blocked else 1
  | .looks .receives => if s.owner.isSome then 0 else 1
  | .uses .receives k => if (s.ownerOf k).isSome then 0 else 1
  | .holds | .looks .closesFaulty | .uses .closesFaulty _ | .clears _
  | .looks .closesUnconnected | .uses .closesUnconnected _ | .isNone .stops | .looksAgain .stops
  | .readsClosed .stops _ | .looks .closesStopped | .uses .closesStopped _ => 1

/-- The same of a call that goes to a place: one that is over there is lost. -/
def arrival (s : Line σ) (place : LinePlace) : ℕ :=
  (if place.isOver then 1 else 0) + s.charge place

/-- What the place of the call that is not over is going to cost, or the socket. -/
def due (s : Line σ) : ℕ :=
  (((s.tasks.find? Task.isUnderWay).map Task.place).elim s.idle s.charge)

/-- What has been lost, and what is going to be. -/
def bill (s : Line σ) : ℕ := s.lostCalls + s.due

end Line

/-- A busy socket costs the next call one. -/
theorem idle_le_one (s : Line σ) : s.idle ≤ 1 := by
  unfold Line.idle
  split <;> simp

/-- A socket that cannot be sent on costs one. -/
theorem blocked_le_one (s : Line σ) : s.blocked ≤ 1 := by
  unfold Line.blocked
  split <;> simp

/-- No place costs more than one. -/
theorem charge_le_one (s : Line σ) (place : LinePlace) : s.charge place ≤ 1 := by
  have hidle := idle_le_one s
  have hblocked := blocked_le_one s
  unfold Line.charge
  split <;> try split
  all_goals omega

/-- `None` is not busy. -/
theorem idle_of_none (h : s.socket = none) : s.idle = 0 := by
  unfold Line.idle Line.owner
  rw [h]
  rfl

/-- A socket that is busy with no call costs nothing. -/
theorem idle_of_owner (h : s.owner = none) : s.idle = 0 := by
  unfold Line.idle
  rw [h]
  rfl

/-- `None` cannot be sent on. -/
theorem blocked_of_none (h : s.socket = none) : s.blocked = 1 := by
  unfold Line.blocked Line.isUsable Line.current
  rw [h]
  rfl

/-- What `self.socket` is busy with, by its state. -/
theorem owner_of_some (h : s.socket = some k) : s.owner = s.ownerOf k := by
  unfold Line.owner
  rw [h]
  rfl

/-- A socket that is not closed is usable or busy. -/
theorem blocked_eq_idle (h : s.socket = some k) {object : SocketObject}
    (hk : s.sockets[k]? = some object) (hclosed : s.isClosed k = false) : s.blocked = s.idle := by
  unfold Line.blocked Line.isUsable Line.current Line.idle
  unfold Line.isClosed at hclosed
  rw [owner_of_some h]
  unfold Line.ownerOf
  rw [h, Option.bind_some, hk]
  rw [hk] at hclosed
  cases object with
  | closed => cases hclosed
  | unconnected | ready | sent _ _ | answered _ _ => rfl

/-- A closed socket cannot be sent on. -/
theorem blocked_of_isClosed (h : s.socket = some k) (hclosed : s.isClosed k = true) :
    s.blocked = 1 := by
  unfold Line.blocked Line.isUsable Line.current
  rw [h, Option.bind_some, isClosed_eq_true_iff.mp hclosed]
  rfl

/-- A closed socket is not busy. -/
theorem idle_of_isClosed (h : s.socket = some k) (hclosed : s.isClosed k = true) :
    s.idle = 0 := by
  refine idle_of_owner ?_
  rw [owner_of_some h]
  unfold Line.ownerOf
  rw [isClosed_eq_true_iff.mp hclosed]
  rfl

/-- A socket that can be sent on, or is about to be connected, is not busy. -/
theorem SocketObject.Idle.owner_eq {object : SocketObject} (h : object.Idle) :
    object.owner = none := by
  rcases h with rfl | rfl <;> rfl

/-- A socket that can be sent on, or is about to be connected, does not block a call. -/
theorem blocked_of_idle {object : SocketObject} (h : s.socket = some k)
    (hk : s.sockets[k]? = some object) (hidle : object.Idle) : s.blocked = 0 := by
  unfold Line.blocked Line.isUsable Line.current
  rw [h, Option.bind_some, hk]
  rcases hidle with rfl | rfl <;> rfl

/-- A socket that cannot be sent on blocks a call. -/
theorem blocked_of_not_idle (h : s.socket = some k)
    (hnot : ∀ object, s.sockets[k]? = some object → ¬object.Idle) : s.blocked = 1 := by
  unfold Line.blocked Line.isUsable Line.current
  rw [h, Option.bind_some]
  cases hk : s.sockets[k]? with
  | none => rfl
  | some object =>
      cases object with
      | unconnected => exact absurd (Or.inl rfl) (hnot _ hk)
      | ready => exact absurd (Or.inr rfl) (hnot _ hk)
      | sent _ _ | answered _ _ | closed => rfl

/-- The socket that a thread has found. -/
def LinePlace.found : LinePlace → Option ℕ
  | .readsClosed _ k => some k
  | .uses _ k => some k
  | _ => none

/-- The socket that a thread has found is still `self.socket`, or one that is busy with no call has
taken its place. -/
def Kept (s : Line σ) (place : LinePlace) : Prop :=
  ∀ k, place.found = some k → s.socket = some k ∨ s.owner = none

/-- `self.socket` is one of the sockets. -/
def Line.Valid (s : Line σ) : Prop := ∀ k, s.socket = some k → k < s.sockets.length

/-- A look at the socket tells no more than was known of it. -/
theorem blocked_eq_idle_of_valid (hvalid : s.Valid) (h : s.socket = some k)
    (hclosed : s.isClosed k = false) : s.blocked = s.idle :=
  blocked_eq_idle h (List.getElem?_eq_getElem (hvalid k h)) hclosed

/-- A call goes on from `start` with the second test. -/
theorem afterStart_of_isCall {errand : Errand} (h : errand.isCall = true) :
    errand.afterStart = .isNone .rechecks := by
  cases errand with
  | call c => rfl
  | start | stop => cases h

/-- A call returns where the socket has been set to `None`. -/
theorem next_of_isCall {errand : Errand} {what : SocketClear} (h : errand.isCall = true) :
    what.next errand = .returned := by
  cases errand with
  | call c => cases what <;> rfl
  | start | stop => cases h

/-- **A step of a call** costs nothing. -/
theorem Onward.arrival_eq {errand : Errand} {place place' : LinePlace}
    (h : Onward s errand place place') (hcall : errand.isCall = true) (hvalid : s.Valid)
    (hkept : Kept s place) : s.arrival place' = s.charge place := by
  have hafter := afterStart_of_isCall hcall
  cases h with
  | @isNone test hnone =>
      have hidle := idle_of_none hnone
      have hblocked := blocked_of_none hnone
      cases test <;> simp [SocketTest.shut, Line.arrival, Line.charge, LinePlace.isOver, *]
  | @isSome test k hsocket =>
      cases test <;> simp [Line.arrival, Line.charge, LinePlace.isOver, hsocket]
  | @vanished test hnone =>
      have hidle := idle_of_none hnone
      have hblocked := blocked_of_none hnone
      cases test <;> simp [Line.arrival, Line.charge, LinePlace.isOver, *]
  | @looksAgain test k hsocket =>
      cases hclosed : s.isClosed k with
      | true =>
          have hidle := idle_of_isClosed hsocket hclosed
          have hblocked := blocked_of_isClosed hsocket hclosed
          cases test <;> simp [Line.arrival, Line.charge, LinePlace.isOver, *]
      | false =>
          have hblocked := blocked_eq_idle_of_valid hvalid hsocket hclosed
          cases test <;> simp [Line.arrival, Line.charge, LinePlace.isOver, *]
  | @shut test k hclosed =>
      have hidle : s.idle = 0 := by
        rcases hkept k rfl with hsocket | hfree
        · exact idle_of_isClosed hsocket hclosed
        · exact idle_of_owner hfree
      cases test <;> simp [SocketTest.shut, Line.arrival, Line.charge, LinePlace.isOver, *]
  | @opened test k hclosed =>
      cases test <;>
        simp [SocketTest.opened, Line.arrival, Line.charge, LinePlace.isOver, hclosed, hafter]
  | @usesNone use hnone =>
      have hidle := idle_of_none hnone
      have hblocked := blocked_of_none hnone
      have howner : s.owner = none := by
        unfold Line.owner
        rw [hnone]
        rfl
      cases use <;> simp [SocketUse.onNone, Line.arrival, Line.charge, LinePlace.isOver, *]
  | @looks use k hsocket =>
      have howner := owner_of_some hsocket
      have hblocked := blocked_of_isClosed hsocket
      cases use with
      | setsOptions | connects =>
          cases hclosed : s.isClosed k with
          | true => simp [Line.arrival, Line.charge, LinePlace.isOver, hclosed, hblocked]
          | false => simp [Line.arrival, Line.charge, LinePlace.isOver, hclosed]
      | sends | receives | closesUnconnected | closesFaulty | closesStopped =>
          simp [Line.arrival, Line.charge, LinePlace.isOver, hsocket, howner]
  | @cannotSet k hclosed =>
      have hidle : s.idle = 0 := by
        rcases hkept k rfl with hsocket | hfree
        · exact idle_of_isClosed hsocket hclosed
        · exact idle_of_owner hfree
      simp [Line.arrival, Line.charge, LinePlace.isOver, hclosed, hidle]
  | sets hclosed => simp [Line.arrival, Line.charge, LinePlace.isOver, hclosed]
  | cannotConnect hclosed => simp [Line.arrival, Line.charge, LinePlace.isOver, hclosed]
  | isConnected hclosed => simp [Line.arrival, Line.charge, LinePlace.isOver, hclosed, hafter]
  | @sendsOutOfTurn k hnot =>
      by_cases hsocket : s.socket = some k
      · simp [Line.arrival, Line.charge, LinePlace.isOver, hsocket,
          blocked_of_not_idle hsocket hnot]
      · simp [Line.arrival, Line.charge, LinePlace.isOver, hsocket]
  | @receivesOutOfTurn k hnot =>
      have howner : s.ownerOf k = none := by
        unfold Line.ownerOf
        cases hk : s.sockets[k]? with
        | none => rfl
        | some object => exact hnot object hk
      simp [Line.arrival, Line.charge, LinePlace.isOver, howner]
  | holdsNone hnone => simp [Line.arrival, Line.charge, LinePlace.isOver, idle_of_none hnone]
  | holds _ => simp [Line.arrival, Line.charge, LinePlace.isOver]

/-- **A fault of a call** costs its toll. -/
theorem LineFault.arrival_eq {errand : Errand} {place place' : LinePlace}
    (h : LineFault s errand place place' n) (hcall : errand.isCall = true) (hkept : Kept s place) :
    s.arrival place' = s.charge place + n := by
  cases h with
  | @sendingTimesOut k object hk hidle =>
      by_cases hsocket : s.socket = some k
      · have howner : s.owner = none := by
          rw [owner_of_some hsocket]
          unfold Line.ownerOf
          rw [hk]
          exact hidle.owner_eq
        simp [Line.arrival, Line.charge, LinePlace.isOver, hsocket, idle_of_owner howner,
          blocked_of_idle hsocket hk hidle]
      · have howner := (hkept k rfl).resolve_left hsocket
        simp [Line.arrival, Line.charge, LinePlace.isOver, hsocket, idle_of_owner howner]
  | @receivingTimesOut k i request hk =>
      have hself : s.ownerOf k = some i := by
        unfold Line.ownerOf
        rw [hk]
        rfl
      by_cases hsocket : s.socket = some k
      · have howner := (owner_of_some hsocket).trans hself
        simp [Line.arrival, Line.charge, LinePlace.isOver, hsocket, hself, Line.idle, howner]
      · have howner := (hkept k rfl).resolve_left hsocket
        simp [Line.arrival, Line.charge, LinePlace.isOver, hsocket, hself, idle_of_owner howner]
  | @sendingRaises k object hk hidle =>
      by_cases hsocket : s.socket = some k
      · simp [Line.arrival, Line.charge, LinePlace.isOver, hsocket,
          blocked_of_idle hsocket hk hidle]
      · simp [Line.arrival, Line.charge, LinePlace.isOver, hsocket]
  | @receivingRaises k i object hk howner =>
      have hself : s.ownerOf k = some i := by
        unfold Line.ownerOf
        rw [hk]
        exact howner
      simp [Line.arrival, Line.charge, LinePlace.isOver, hself]
  | @unconnected k hclosed =>
      cases husable : s.isUsable <;>
        simp [Line.arrival, Line.charge, LinePlace.isOver, Line.blocked, hclosed, hcall, husable]

/-! ## Changes of the sockets that cost the same -/

/-- The sockets are closed, busy and usable as they were. -/
structure Alike (s s' : Line σ) : Prop where
  socket : s'.socket = s.socket
  isClosed : ∀ k, s'.isClosed k = s.isClosed k
  ownerOf : ∀ k, (s'.ownerOf k).isSome = (s.ownerOf k).isSome
  isUsable : s'.isUsable = s.isUsable

namespace Alike

/-- Nothing happens to the sockets. -/
theorem refl (s : Line σ) : Alike s s := ⟨rfl, fun _ => rfl, fun _ => rfl, rfl⟩

/-- `self.socket` is busy as it was. -/
theorem owner (h : Alike s s') : s'.owner.isSome = s.owner.isSome := by
  unfold Line.owner
  rw [h.socket]
  cases s.socket with
  | none => rfl
  | some k => exact h.ownerOf k

/-- Every place costs what it did. -/
theorem charge_eq (h : Alike s s') (place : LinePlace) : s'.charge place = s.charge place := by
  unfold Line.charge Line.idle Line.blocked
  simp only [h.socket, h.isClosed, h.ownerOf, h.owner, h.isUsable]

/-- What the next call is going to pay is the same. -/
theorem idle_eq (h : Alike s s') : s'.idle = s.idle := h.charge_eq .returned

/-- A thread that holds its socket does so still. -/
theorem kept (h : Alike s s') (hkept : Kept s place) : Kept s' place := by
  intro k hk
  rcases hkept k hk with hsocket | hfree
  · exact Or.inl (h.socket.trans hsocket)
  · refine Or.inr (Option.isSome_eq_false_iff.mp ?_ |> Option.isNone_iff_eq_none.mp)
    rw [h.owner, hfree]
    rfl

end Alike

/-- A socket is put in a state in which it is closed and busy as it was. -/
theorem alike_put {before object : SocketObject} (hk : s.sockets[k]? = some before)
    (hbefore : before ≠ .closed) (hobject : object ≠ .closed)
    (howner : object.owner.isSome = before.owner.isSome) : Alike s (s.put k object) := by
  have hget : ∀ k', (s.put k object).sockets[k']? = s.sockets[k']? ∨
      k = k' ∧ (s.put k object).sockets[k']? = some object := by
    intro k'
    unfold Line.put
    by_cases heq : k = k'
    · subst heq
      exact Or.inr ⟨rfl, List.getElem?_set_self (List.getElem?_eq_some_iff.mp hk).1⟩
    · exact Or.inl (List.getElem?_set_ne heq)
  refine ⟨rfl, fun k' => ?_, fun k' => ?_, ?_⟩
  · unfold Line.isClosed
    rcases hget k' with hsame | ⟨rfl, hnew⟩
    · rw [hsame]
    · rw [hnew, hk]
      cases object <;> cases before <;> simp_all
  · unfold Line.ownerOf
    rcases hget k' with hsame | ⟨rfl, hnew⟩
    · rw [hsame]
    · rw [hnew, hk]
      exact howner
  · unfold Line.isUsable Line.current
    rw [show (s.put k object).socket = s.socket from rfl]
    cases hsocket : s.socket with
    | none => rfl
    | some k' =>
        rw [Option.bind_some, Option.bind_some]
        rcases hget k' with hsame | ⟨rfl, hnew⟩
        · rw [hsame]
        · rw [hnew, hk]
          cases object <;> cases before <;> simp_all [SocketObject.owner]

/-- Where no call gets a socket, the next call is not going to pay more. -/
theorem NoNewOwner.idle_le (h : NoNewOwner s s') : s'.idle ≤ s.idle := by
  rcases h.owner with hsame | hnone
  · unfold Line.idle
    rw [hsame]
  · rw [idle_of_owner hnone]
    exact Nat.zero_le _

/-- Where no call gets a socket, a thread that holds its socket does so still. -/
theorem NoNewOwner.kept (h : NoNewOwner s s') (hkept : Kept s place) : Kept s' place := by
  intro k hk
  rcases h.socket with hsocket | hnone
  · rcases hkept k hk with hsame | hfree
    · exact Or.inl (hsocket.trans hsame)
    · rcases h.owner with howner | hnone
      · exact Or.inr (howner.trans hfree)
      · exact Or.inr hnone
  · exact Or.inr hnone

/-! ## One call after the other -/

/-- A place in `start` or `stop`, where no other method is called. -/
def LinePlace.isApart : LinePlace → Bool
  | .isNone .checks | .isNone .rechecks | .looksAgain .checks | .looksAgain .rechecks
  | .readsClosed .checks _ | .readsClosed .rechecks _ | .looks .sends | .looks .receives
  | .looks .closesFaulty | .uses .sends _ | .uses .receives _ | .uses .closesFaulty _ | .holds
  | .clears .faulty => false
  | _ => true

/-- `start` returns to its own thread. -/
theorem isApart_afterStart {errand : Errand} (h : errand.isCall = false) :
    errand.afterStart.isApart = true := by
  cases errand with
  | call c => cases h
  | start | stop => rfl

/-- A fault leaves a thread in `start` or `stop` there. -/
theorem LineFault.isApart {errand : Errand} {place place' : LinePlace}
    (h : LineFault s errand place place' n) (hplace : place.isApart = true) :
    place'.isApart = true := by
  cases h with
  | unconnected _ => rfl
  | sendingTimesOut _ _ | receivingTimesOut _ | sendingRaises _ _ | receivingRaises _ _ =>
      cases hplace

/-- A thread in `start` or `stop` stays there. -/
theorem Onward.isApart {errand : Errand} {place place' : LinePlace}
    (h : Onward s errand place place') (hcall : errand.isCall = false)
    (hplace : place.isApart = true) : place'.isApart = true := by
  have hafter : errand.afterStart = .returned := by
    cases errand with
    | call c => cases hcall
    | start | stop => rfl
  cases h with
  | @isNone test _ | @isSome test _ _ | @vanished test _ | @looksAgain test _ _ | @shut test _ _
    | @opened test _ _ =>
      cases test <;> simp_all [LinePlace.isApart, SocketTest.shut, SocketTest.opened]
  | @usesNone use _ | @looks use _ _ =>
      cases use <;> simp_all [LinePlace.isApart, SocketUse.onNone]
  | isConnected _ => rw [hafter]; rfl
  | cannotSet _ | sets _ | cannotConnect _ => rfl
  | sendsOutOfTurn _ | receivesOutOfTurn _ | holdsNone _ | holds _ => cases hplace

/-- One thread has made all the calls, so only one of them may not be over. -/
structure Alone (b : Bool) (s : Line σ) : Prop where
  callers : ∀ task ∈ s.tasks, ∀ c, task.errand = .call c → c.isPositionManager = b
  only : ∀ {i j : ℕ} {task task' : Task}, s.tasks[i]? = some task → s.tasks[j]? = some task' →
    task.isUnderWay = true → task'.isUnderWay = true → i = j
  apart : ∀ task ∈ s.tasks, task.errand.isCall = false → task.place.isApart = true
  kept : ∀ task ∈ s.tasks, task.isUnderWay = true → Kept s task.place
  valid : s.Valid

/-- A call that is not over is under way. -/
theorem isUnderWay_of (hcall : task.errand.isCall = true) (hover : task.place.isOver = false) :
    task.isUnderWay = true := by
  unfold Task.isUnderWay
  rw [hcall, hover]
  rfl

/-- A call that is under way is not over. -/
theorem isUnderWay_iff : task.isUnderWay = true ↔
    task.errand.isCall = true ∧ task.place.isOver = false := by
  unfold Task.isUnderWay
  rw [Bool.and_eq_true, Bool.not_eq_true']

/-- No call is under way where nobody is within one. -/
theorem find?_eq_none_of_inCall (h : s.inCall = false) : s.tasks.find? Task.isUnderWay = none := by
  unfold Line.inCall at h
  rw [List.any_eq_false] at h
  exact List.find?_eq_none.mpr h

/-- What is due where no call is under way. -/
theorem due_of_find?_eq_none (h : s.tasks.find? Task.isUnderWay = none) : s.due = s.idle := by
  unfold Line.due
  rw [h]
  rfl

/-- What is due is one at most. -/
theorem due_le_one (s : Line σ) : s.due ≤ 1 := by
  unfold Line.due
  cases (s.tasks.find? Task.isUnderWay).map Task.place with
  | none => exact idle_le_one s
  | some place => exact charge_le_one s place

namespace Alone

/-- What is due is the charge of the call that is under way. -/
theorem due_eq (h : Alone b s) (hi : s.tasks[i]? = some task) (hunder : task.isUnderWay = true) :
    s.due = s.charge task.place := by
  unfold Line.due
  rw [find?_eq_some_of_unique hi hunder fun j task' hj hunder' => h.only hj hi hunder' hunder]
  rfl

/-- One task changes. -/
theorem modify (h : Alone b s) (hi : s.tasks[i]? = some task)
    (htasks : s'.tasks = s.tasks.modify i f) (herrand : (f task).errand = task.errand)
    (hunder : (f task).isUnderWay = true → task.isUnderWay = true)
    (hapart : task.errand.isCall = false → (f task).place.isApart = true)
    (hothers : ∀ j task', j ≠ i → s.tasks[j]? = some task' → task'.isUnderWay = true →
      Kept s' task'.place)
    (hkept : (f task).isUnderWay = true → Kept s' (f task).place) (hvalid : s'.Valid) :
    Alone b s' := by
  have hcases : ∀ {j : ℕ} {task' : Task}, s'.tasks[j]? = some task' →
      (j = i ∧ task' = f task) ∨ (j ≠ i ∧ s.tasks[j]? = some task') := by
    intro j task' hj
    rw [htasks] at hj
    rcases getElem?_modify_cases hj with ⟨rfl, before, hbefore, rfl⟩ | hother
    · obtain rfl := Option.some.inj (hi.symm.trans hbefore)
      exact Or.inl ⟨rfl, rfl⟩
    · exact Or.inr hother
  have hmem := List.mem_of_getElem? hi
  refine ⟨?_, ?_, ?_, ?_, hvalid⟩
  · intro task' htask' c hc
    obtain ⟨j, hj⟩ := List.mem_iff_getElem?.mp htask'
    rcases hcases hj with ⟨rfl, rfl⟩ | ⟨-, hj⟩
    · exact h.callers task hmem c (herrand ▸ hc)
    · exact h.callers task' (List.mem_of_getElem? hj) c hc
  · intro j j' task₁ task₂ hj hj' hunder₁ hunder₂
    rcases hcases hj with ⟨rfl, rfl⟩ | ⟨-, hj⟩
    · rcases hcases hj' with ⟨rfl, rfl⟩ | ⟨-, hj'⟩
      · rfl
      · exact h.only hi hj' (hunder hunder₁) hunder₂
    · rcases hcases hj' with ⟨rfl, rfl⟩ | ⟨-, hj'⟩
      · exact h.only hj hi hunder₁ (hunder hunder₂)
      · exact h.only hj hj' hunder₁ hunder₂
  · intro task' htask' hcall
    obtain ⟨j, hj⟩ := List.mem_iff_getElem?.mp htask'
    rcases hcases hj with ⟨rfl, rfl⟩ | ⟨-, hj⟩
    · exact hapart (herrand ▸ hcall)
    · exact h.apart task' (List.mem_of_getElem? hj) hcall
  · intro task' htask' hunder'
    obtain ⟨j, hj⟩ := List.mem_iff_getElem?.mp htask'
    rcases hcases hj with ⟨rfl, rfl⟩ | ⟨hne, hj⟩
    · exact hkept hunder'
    · exact hothers j task' hne hj hunder'

/-- The call that is under way goes on. -/
theorem update (h : Alone b s) (hi : s.tasks[i]? = some task) (hunder : task.isUnderWay = true)
    (htasks : s'.tasks = s.tasks.modify i f) (herrand : (f task).errand = task.errand)
    (hkept : (f task).isUnderWay = true → Kept s' (f task).place) (hvalid : s'.Valid) :
    Alone b s' ∧ s'.bill = s.lostCalls + (if (f task).isLost then 1 else 0) +
      s'.charge (f task).place := by
  have hcall := (isUnderWay_iff.mp hunder).1
  have halone : Alone b s' := by
    refine h.modify hi htasks herrand (fun _ => hunder) ?_ ?_ hkept hvalid
    · rw [hcall]
      rintro ⟨⟩
    · intro j task' hne hj hunder'
      exact absurd (h.only hj hi hunder' hunder) hne
  have hi' : s'.tasks[i]? = some (f task) := htasks ▸ getElem?_modify_of_some f hi
  have hlost : s'.lostCalls = s.lostCalls + if (f task).isLost then 1 else 0 := by
    have hcount := countP_modify Task.isLost f hi
    rw [isLost_of_not_isOver (isUnderWay_iff.mp hunder).2, ← htasks] at hcount
    exact hcount
  have hdue : s'.due = s'.charge (f task).place := by
    cases hover : (f task).place.isOver with
    | false => exact halone.due_eq hi' (isUnderWay_of (herrand ▸ hcall) hover)
    | true =>
        have hnone : s'.tasks.find? Task.isUnderWay = none := by
          refine List.find?_eq_none.mpr fun task' htask' hunder' => ?_
          obtain ⟨j, hj⟩ := List.mem_iff_getElem?.mp htask'
          rw [htasks] at hj
          rcases getElem?_modify_cases hj with ⟨rfl, before, hbefore, rfl⟩ | ⟨hne, hj⟩
          · obtain rfl := Option.some.inj (hi.symm.trans hbefore)
            rw [(isUnderWay_iff.mp hunder').2] at hover
            cases hover
          · exact hne (h.only hj hi hunder' hunder)
        rw [due_of_find?_eq_none hnone]
        rcases List.mem_pair.mp (of_decide_eq_true hover) with hplace | hplace
        all_goals
          rw [hplace]
          rfl
  exact ⟨halone, by rw [Line.bill, hlost, hdue]⟩

end Alone

/-- Every task is that of a call. -/
def AllCalls (s : Line σ) : Prop := ∀ task ∈ s.tasks, task.errand.isCall = true

/-- What an event does to the bill of a thread that calls alone: it adds the toll, and nothing less
where no other thread is in `start` or `stop`. -/
structure Pays (b : Bool) (s s' : Line σ) (n : ℕ) : Prop where
  alone : Alone b s'
  bill : s'.bill ≤ s.bill + n
  exact : AllCalls s → s'.bill = s.bill + n

namespace Alone

/-- The bill stays as it is. -/
theorem pays_of_eq (halone : Alone b s') (hbill : s'.bill = s.bill) : Pays b s s' 0 :=
  ⟨halone, hbill.le, fun _ => hbill⟩

/-- The call that is under way goes on, after a change of the sockets. -/
theorem pays_goesOn {s₁ : Line σ} (h : Alone b s) (hgoes : GoesOn s₁ i place s')
    (htasks : s₁.tasks = s.tasks) (hi : s.tasks[i]? = some task) (hunder : task.isUnderWay = true)
    (hkept : Kept s₁ place) (hvalid : s₁.Valid)
    (harrival : s₁.arrival place = s.charge task.place + n) : Pays b s s' n := by
  have hbefore : s.bill = s.lostCalls + s.charge task.place :=
    congrArg (s.lostCalls + ·) (h.due_eq hi hunder)
  obtain ⟨f, broker, hf, rfl⟩ := hgoes
  have hcall := (isUnderWay_iff.mp hunder).1
  have htasks' : (({ s₁ with broker := broker } : Line σ).write i f).tasks = s.tasks.modify i f :=
    congrArg (List.modify · i f) htasks
  obtain ⟨halone, hbill⟩ := h.update hi hunder htasks' (hf.errand task)
    (fun _ => (hf.place task).symm ▸ hkept) hvalid
  -- the call is lost where it is over
  have hlost : (f task).isLost = place.isOver := by
    unfold Task.isLost
    rw [hf.errand, hf.place, hf.result, hcall, Bool.true_and]
    cases place <;> rfl
  have hafter : (({ s₁ with broker := broker } : Line σ).write i f).bill =
      s.lostCalls + s₁.arrival place := by
    rw [hbill, hlost, hf.place, Nat.add_assoc]
    rfl
  have heq : (({ s₁ with broker := broker } : Line σ).write i f).bill = s.bill + n := by
    rw [hafter, hbefore, harrival, Nat.add_assoc]
  exact ⟨halone, heq.le, fun _ => heq⟩

/-- A thread in `start` or `stop` goes on, after a change of the sockets. -/
theorem foreign {s₁ : Line σ} (h : Alone b s) (hgoes : GoesOn s₁ i place s')
    (htasks : s₁.tasks = s.tasks) (hi : s.tasks[i]? = some task)
    (hcall : task.errand.isCall = false) (hplace : place.isApart = true)
    (hkept : ∀ {place : LinePlace}, Kept s place → Kept s₁ place) (hvalid : s₁.Valid) :
    Alone b s' ∧ s'.lostCalls = s.lostCalls ∧
      s'.due = ((s.tasks.find? Task.isUnderWay).map Task.place).elim s₁.idle s₁.charge := by
  obtain ⟨f, broker, hf, rfl⟩ := hgoes
  have hunder : (f task).isUnderWay = false := by
    unfold Task.isUnderWay
    rw [hf.errand, hcall]
    rfl
  have hunder₀ : task.isUnderWay = false := by
    unfold Task.isUnderWay
    rw [hcall]
    rfl
  have htasks' : (({ s₁ with broker := broker } : Line σ).write i f).tasks = s.tasks.modify i f :=
    congrArg (List.modify · i f) htasks
  refine ⟨?_, ?_, ?_⟩
  · refine h.modify hi htasks' (hf.errand task) ?_ (fun _ => (hf.place task).symm ▸ hplace) ?_ ?_
      hvalid
    · rw [hunder]
      rintro ⟨⟩
    · intro j task' _ hj hunder'
      exact hkept (h.kept task' (List.mem_of_getElem? hj) hunder')
    · rw [hunder]
      rintro ⟨⟩
  · unfold Line.lostCalls
    rw [htasks']
    have hcount := countP_modify Task.isLost f hi
    unfold Task.isLost at hcount ⊢
    rwa [hf.errand, hcall] at hcount
  · unfold Line.due
    rw [htasks', map_find?_modify Task.isUnderWay Task.place f]
    · rfl
    · intro task' htask'
      obtain rfl := Option.some.inj (hi.symm.trans htask')
      rw [hunder, hunder₀]
      exact ⟨rfl, by rintro ⟨⟩⟩

/-- A thread in `start` or `stop` leaves the bill as it is. -/
theorem pays_foreign {s₁ : Line σ} (h : Alone b s) (hgoes : GoesOn s₁ i place s')
    (htasks : s₁.tasks = s.tasks) (hi : s.tasks[i]? = some task)
    (hcall : task.errand.isCall = false) (hplace : place.isApart = true) (halike : Alike s s₁)
    (hvalid : s₁.Valid) : Pays b s s' n := by
  obtain ⟨halone, hlost, hdue⟩ := h.foreign hgoes htasks hi hcall hplace halike.kept hvalid
  have hsame : s'.bill = s.bill := by
    unfold Line.bill
    rw [hlost, hdue, halike.idle_eq, show s₁.charge = s.charge from funext halike.charge_eq]
    rfl
  refine ⟨halone, hsame.le.trans (Nat.le_add_right _ _), fun hall => ?_⟩
  rw [hall task (List.mem_of_getElem? hi)] at hcall
  cases hcall

/-- A thread in `start` or `stop` takes the socket from the others: one call is lost at most, and
none where there is no call. -/
theorem pays_disturbance {s₁ : Line σ} (h : Alone b s) (hgoes : GoesOn s₁ i place s')
    (htasks : s₁.tasks = s.tasks) (hi : s.tasks[i]? = some task)
    (hcall : task.errand.isCall = false) (hplace : place.isApart = true) (hquiet : NoNewOwner s s₁)
    (hvalid : s₁.Valid) : Pays b s s' (s.disturbance task) := by
  obtain ⟨halone, hlost, hdue⟩ := h.foreign hgoes htasks hi hcall hplace hquiet.kept hvalid
  refine ⟨halone, ?_, fun hall => ?_⟩
  · unfold Line.bill Line.disturbance
    rw [hlost, hcall]
    cases hin : s.inCall with
    | true =>
        have hle := due_le_one s'
        simp only [Bool.not_false, Bool.and_self, if_true]
        omega
    | false =>
        have hnone := find?_eq_none_of_inCall hin
        rw [hnone] at hdue
        rw [hdue, due_of_find?_eq_none hnone]
        exact Nat.add_le_add_left hquiet.idle_le _
  · rw [hall task (List.mem_of_getElem? hi)] at hcall
    cases hcall

/-- The server answers. -/
theorem pays_answer (h : Alone b s) (s₁ : Line σ) (htasks : s₁.tasks = s.tasks)
    (halike : Alike s s₁) (hvalid : s₁.Valid) (i : ℕ) (request : Json) :
    Pays b s (s₁.answer respond i request) 0 := by
  have hcases : ∀ {j : ℕ} {task' : Task}, (s₁.answer respond i request).tasks[j]? = some task' →
      ∃ task, s.tasks[j]? = some task ∧ task'.errand = task.errand ∧ task'.place = task.place := by
    intro j task' hj
    unfold Line.answer Line.write at hj
    dsimp only at hj
    rw [htasks] at hj
    rcases getElem?_modify_cases hj with ⟨rfl, before, hbefore, rfl⟩ | ⟨-, hj⟩
    · exact ⟨before, hbefore, rfl, rfl⟩
    · exact ⟨task', hj, rfl, rfl⟩
  have hunder : ∀ {task task' : Task}, task'.errand = task.errand → task'.place = task.place →
      task'.isUnderWay = true → task.isUnderWay = true := by
    intro task task' herrand hplace hunder'
    unfold Task.isUnderWay at hunder' ⊢
    rwa [herrand, hplace] at hunder'
  refine pays_of_eq ⟨?_, ?_, ?_, ?_, hvalid⟩ ?_
  · intro task' htask' c hc
    obtain ⟨j, hj⟩ := List.mem_iff_getElem?.mp htask'
    obtain ⟨task, htask, herrand, -⟩ := hcases hj
    exact h.callers task (List.mem_of_getElem? htask) c (herrand ▸ hc)
  · intro j j' task₁ task₂ hj hj' hunder₁ hunder₂
    obtain ⟨task, htask, herrand, hplace⟩ := hcases hj
    obtain ⟨task', htask', herrand', hplace'⟩ := hcases hj'
    exact h.only htask htask' (hunder herrand hplace hunder₁) (hunder herrand' hplace' hunder₂)
  · intro task' htask' hcall
    obtain ⟨j, hj⟩ := List.mem_iff_getElem?.mp htask'
    obtain ⟨task, htask, herrand, hplace⟩ := hcases hj
    rw [hplace]
    exact h.apart task (List.mem_of_getElem? htask) (herrand ▸ hcall)
  · intro task' htask' hunder'
    obtain ⟨j, hj⟩ := List.mem_iff_getElem?.mp htask'
    obtain ⟨task, htask, herrand, hplace⟩ := hcases hj
    rw [hplace]
    exact halike.kept (h.kept task (List.mem_of_getElem? htask) (hunder herrand hplace hunder'))
  · have hlost : (s₁.answer respond i request).lostCalls = s.lostCalls := by
      unfold Line.lostCalls Line.answer Line.write
      dsimp only
      rw [htasks]
      cases hi : s.tasks[i]? with
      | none => rw [List.modify_eq_self (List.getElem?_eq_none_iff.mp hi)]
      | some task =>
          have hcount := countP_modify Task.isLost
            (fun task => { task with answered := some (respond request s₁.server).1 }) hi
          have hsame : Task.isLost { task with answered := some (respond request s₁.server).1 } =
              task.isLost := rfl
          rw [hsame] at hcount
          exact Nat.add_right_cancel hcount
    have hfind : ((s₁.answer respond i request).tasks.find? Task.isUnderWay).map Task.place =
        (s.tasks.find? Task.isUnderWay).map Task.place := by
      rw [← htasks]
      exact map_find?_modify Task.isUnderWay Task.place
        (fun task => { task with answered := some (respond request s₁.server).1 })
        fun _ _ => ⟨rfl, fun _ => rfl⟩
    have hdue : (s₁.answer respond i request).due = s.due := by
      unfold Line.due
      rw [hfind]
      exact congrArg₂ (Option.elim _) halike.idle_eq (funext halike.charge_eq)
    unfold Line.bill
    rw [hlost, hdue]

end Alone

/-- A thread makes a step, from a place where it is not over. -/
theorem Onward.isOver_eq {errand : Errand} {place place' : LinePlace}
    (h : Onward s errand place place') : place.isOver = false := by
  cases h <;> rfl

/-- A fault strikes a thread that is not over. -/
theorem LineFault.isOver_eq {errand : Errand} {place place' : LinePlace}
    (h : LineFault s errand place place' n) : place.isOver = false := by
  cases h <;> rfl

/-- A look at `self.socket` finds it, and nothing else is held. -/
theorem Onward.kept {errand : Errand} {place place' : LinePlace}
    (h : Onward s errand place place') : Kept s place' := by
  have hnone : ∀ {place : LinePlace}, place.found = none → Kept s place := by
    intro place hfound k hk
    rw [hfound] at hk
    cases hk
  cases h with
  | looksAgain hsocket | looks hsocket =>
      intro k hk
      obtain rfl := Option.some.inj hk
      exact Or.inl hsocket
  | @isNone test _ | @shut test _ _ => exact hnone (by cases test <;> rfl)
  | @opened test _ _ => exact hnone (by cases test <;> cases errand <;> rfl)
  | @usesNone use _ => exact hnone (by cases use <;> rfl)
  | isConnected _ => exact hnone (by cases errand <;> rfl)
  | isSome _ | vanished _ | cannotSet _ | sets _ | cannotConnect _ | sendsOutOfTurn _
    | receivesOutOfTurn _ | holdsNone _ | holds _ => exact hnone rfl

/-- A fault leaves nothing held. -/
theorem LineFault.found_eq {errand : Errand} {place place' : LinePlace}
    (h : LineFault s errand place place' n) : place'.found = none := by
  cases h <;> rfl

/-- A place where no socket is held. -/
theorem kept_of_found (h : place.found = none) : Kept s place := by
  intro k hk
  rw [h] at hk
  cases hk

/-- Where a thread closes a socket, it pays for it already. -/
theorem Closes.charge_eq {use : SocketUse} {what : SocketClear} (h : Closes use what) :
    s.charge (.uses use k) = 1 := by
  cases h <;> rfl

/-- In `start` or `stop` no socket of `_send_request_to_ob` is closed. -/
theorem Closes.isApart {use : SocketUse} {what : SocketClear} (h : Closes use what)
    (hplace : (LinePlace.uses use k).isApart = true) : (LinePlace.clears what).isApart = true := by
  cases h with
  | faulty => cases hplace
  | unconnected | stopped => rfl

section valid

/-- `self.socket` stays one of the sockets. -/
theorem valid_put (h : s.Valid) (object : SocketObject) : (s.put k object).Valid := by
  intro k' hk'
  exact (h k' hk').trans_eq List.length_set.symm

/-- `self.socket` is the socket that is created. -/
theorem valid_create (s : Line σ) : s.create.Valid := by
  intro k hk
  obtain rfl := Option.some.inj hk
  simp [Line.create]

/-- `None` is no socket. -/
theorem valid_clear (s : Line σ) : s.clear.Valid := by
  rintro k ⟨⟩

end valid

/-- A socket that a thread holds, and that is put in a state in which it is busy with no call. -/
theorem owner_put_of_kept {before object : SocketObject} (hkept : Kept s place)
    (hfound : place.found = some k) (hk : s.sockets[k]? = some before)
    (howner : object.owner = none) : (s.put k object).owner = none := by
  rcases hkept k hfound with hsocket | hfree
  · have hput : (s.put k object).socket = some k := hsocket
    rw [owner_of_some hput, ownerOf_put_self hk, howner]
  · rcases (quiet_put howner : NoNewOwner s (s.put k object)).owner with hsame | hnone
    · exact hsame.trans hfree
    · exact hnone

/-- A socket that is created does not block a call. -/
theorem blocked_create (s : Line σ) : s.create.blocked = 0 := by
  unfold Line.blocked Line.isUsable Line.current Line.create
  simp

namespace Alone

/-- A method is called. -/
theorem append (h : Alone b s) (broker : CppOrderBookBroker Unit) (hnew : task.New)
    (hcaller : ∀ c, task.errand = .call c → c.isPositionManager = b ∧ s.isBusy c = false) :
    Pays b s { s with broker := broker, tasks := s.tasks ++ [task] } 0 := by
  -- a call is made where no other is under way
  have hfree : task.errand.isCall = true → ∀ task' ∈ s.tasks, task'.isUnderWay = false := by
    intro hcall task' htask'
    cases herrand : task.errand with
    | start | stop =>
        rw [herrand] at hcall
        cases hcall
    | call c =>
        obtain ⟨hc, hbusy⟩ := hcaller c herrand
        unfold Line.isBusy at hbusy
        rw [Bool.or_eq_false_iff, List.any_eq_false] at hbusy
        have hnot := hbusy.1 task' htask'
        rw [Bool.eq_false_iff]
        intro hunder
        obtain ⟨hcall', hover⟩ := isUnderWay_iff.mp hunder
        cases herrand' : task'.errand with
        | start | stop =>
            rw [herrand'] at hcall'
            cases hcall'
        | call c' =>
            rw [herrand'] at hnot
            have hc' := h.callers task' htask' c' herrand'
            unfold LinePlace.isOver at hover
            simp only [decide_eq_false_iff_not, List.mem_cons, List.not_mem_nil, or_false,
              not_or] at hover
            simp [hc', hc, hover.1, hover.2] at hnot
  have hplace : task.place = .returned ∨ task.place.found = none ∧
      (task.errand.isCall = true → task.place = .isNone .checks) ∧
      (task.errand.isCall = false → task.place.isApart = true) := by
    rcases hnew.place with hplace | hplace
    · exact Or.inl hplace
    · refine Or.inr ?_
      rw [hplace]
      cases task.errand with
      | call c => exact ⟨rfl, fun _ => rfl, by rintro ⟨⟩⟩
      | start | stop => exact ⟨rfl, by rintro ⟨⟩, fun _ => rfl⟩
  have hcases : ∀ {j : ℕ} {task' : Task}, (s.tasks ++ [task])[j]? = some task' →
      s.tasks[j]? = some task' ∨ j = s.tasks.length ∧ task' = task := by
    intro j task' hj
    rcases lt_or_ge j s.tasks.length with hlt | hge
    · exact Or.inl ((List.getElem?_append_left hlt).symm.trans hj)
    · rw [List.getElem?_append_right hge] at hj
      obtain ⟨hlt, rfl⟩ := List.getElem?_eq_some_iff.mp hj
      refine Or.inr ⟨?_, List.getElem_singleton hlt⟩
      have hone : j - s.tasks.length < 1 := hlt
      omega
  have hempty : task.isLost = false := by
    unfold Task.isLost
    rw [hnew.result]
    rcases hplace with hplace | ⟨hfound, hchecks, hapart⟩
    · rw [hplace]
      exact Bool.and_false _
    · cases hcall : task.errand.isCall with
      | true =>
          rw [hchecks hcall]
          rfl
      | false => rfl
  refine pays_of_eq ⟨?_, ?_, ?_, ?_, h.valid⟩ ?_
  · intro task' htask' c hc
    rcases List.mem_append.mp htask' with htask' | htask'
    · exact h.callers task' htask' c hc
    · rw [List.mem_singleton.mp htask'] at hc
      exact (hcaller c hc).1
  · intro j j' task₁ task₂ hj hj' hunder₁ hunder₂
    rcases hcases hj with hold | ⟨rfl, rfl⟩
    · rcases hcases hj' with hold' | ⟨rfl, rfl⟩
      · exact h.only hold hold' hunder₁ hunder₂
      · rw [hfree (isUnderWay_iff.mp hunder₂).1 task₁ (List.mem_of_getElem? hold)] at hunder₁
        cases hunder₁
    · rcases hcases hj' with hold' | ⟨rfl, -⟩
      · rw [hfree (isUnderWay_iff.mp hunder₁).1 task₂ (List.mem_of_getElem? hold')] at hunder₂
        cases hunder₂
      · rfl
  · intro task' htask' hcall
    rcases List.mem_append.mp htask' with htask' | htask'
    · exact h.apart task' htask' hcall
    · rw [List.mem_singleton.mp htask'] at hcall ⊢
      rcases hplace with hplace | ⟨-, -, hapart⟩
      · rw [hplace]
        rfl
      · exact hapart hcall
  · intro task' htask' hunder
    rcases List.mem_append.mp htask' with htask' | htask'
    · exact h.kept task' htask' hunder
    · rw [List.mem_singleton.mp htask']
      rcases hplace with hplace | ⟨hfound, -, -⟩
      · rw [hplace]
        exact kept_of_found rfl
      · exact kept_of_found hfound
  · have hlost : Line.lostCalls { s with broker := broker, tasks := s.tasks ++ [task] } =
        s.lostCalls := by
      unfold Line.lostCalls
      rw [List.countP_append, List.countP_singleton, hempty]
      rfl
    have hdue : Line.due { s with broker := broker, tasks := s.tasks ++ [task] } = s.due := by
      unfold Line.due
      dsimp only
      rw [List.find?_append, List.find?_singleton]
      cases hunder : task.isUnderWay with
      | false =>
          rw [if_neg Bool.false_ne_true, Option.or_none]
          rfl
      | true =>
          obtain ⟨hcall, hover⟩ := isUnderWay_iff.mp hunder
          have hnone : s.tasks.find? Task.isUnderWay = none := by
            refine List.find?_eq_none.mpr fun task' htask' => ?_
            rw [hfree hcall task' htask']
            exact Bool.false_ne_true
          have hchecks : task.place = .isNone .checks := by
            rcases hplace with hplace | ⟨-, hchecks, -⟩
            · rw [hplace] at hover
              cases hover
            · exact hchecks hcall
          rw [hnone, if_pos rfl, Option.none_or, Option.map_some, hchecks]
          rfl
    unfold Line.bill
    rw [hlost, hdue]

/-- A call gets a reply. -/
theorem pays_get (h : Alone b s) {j : ℕ} {reply : Reply} (hi : s.tasks[i]? = some task)
    (hunder : task.isUnderWay = true) (hplace : task.place = .uses .receives k)
    (hk : s.sockets[k]? = some (.answered j reply)) :
    Pays b s ((s.put k .ready).finish i task (some (j, reply))) 0 := by
  have hkept : Kept s (.uses .receives k) :=
    hplace ▸ h.kept task (List.mem_of_getElem? hi) hunder
  have htasks : ((s.put k .ready).finish i task (some (j, reply))).tasks = s.tasks.modify i
      fun task => { task with place := .returned, result := some (some (j, reply)) } := rfl
  obtain ⟨halone, hbill⟩ := h.update hi hunder htasks rfl
    (fun hunder' => absurd (isUnderWay_iff.mp hunder').2 (by simp [LinePlace.isOver]))
    (valid_put h.valid .ready)
  have hidle : (s.put k .ready).idle = 0 := idle_of_owner (owner_put_of_kept hkept rfl hk rfl)
  have hself : s.ownerOf k = some j := by
    unfold Line.ownerOf
    rw [hk]
    rfl
  have hbefore : s.bill = s.lostCalls := by
    unfold Line.bill
    rw [h.due_eq hi hunder, hplace]
    simp [Line.charge, hself]
  refine pays_of_eq halone ?_
  rw [hbill, hbefore]
  have hlost : Task.isLost { task with place := .returned, result := some (some (j, reply)) } =
      false := Bool.and_false _
  rw [hlost]
  exact congrArg (s.lostCalls + 0 + ·) hidle

/-- A call receives what is not JSON. -/
theorem pays_garble (h : Alone b s) {j : ℕ} {reply : Reply} (hi : s.tasks[i]? = some task)
    (hunder : task.isUnderWay = true) (hplace : task.place = .uses .receives k)
    (hk : s.sockets[k]? = some (.answered j reply)) :
    Pays b s ((s.put k .ready).finish i task none) 1 := by
  have hkept : Kept s (.uses .receives k) :=
    hplace ▸ h.kept task (List.mem_of_getElem? hi) hunder
  have hidle : (s.put k .ready).idle = 0 := idle_of_owner (owner_put_of_kept hkept rfl hk rfl)
  have hself : s.ownerOf k = some j := by
    unfold Line.ownerOf
    rw [hk]
    rfl
  refine h.pays_goesOn (goesOn_finish (s := s.put k .ready)) rfl hi hunder (kept_of_found rfl)
    (valid_put h.valid .ready) ?_
  rw [hplace]
  simp [Line.arrival, Line.charge, LinePlace.isOver, hself, hidle]

/-- A call sends. -/
theorem pays_send (h : Alone b s) {request : Json} (hi : s.tasks[i]? = some task)
    (hunder : task.isUnderWay = true) (hplace : task.place = .uses .sends k)
    (hk : s.sockets[k]? = some .ready) :
    Pays b s ((s.put k (.sent i request)).goTo i (.looks .receives)) 0 := by
  have hkept : Kept s (.uses .sends k) := hplace ▸ h.kept task (List.mem_of_getElem? hi) hunder
  refine h.pays_goesOn (goesOn_goTo (s := s.put k (.sent i request)) (by simp)) rfl hi hunder
    (kept_of_found rfl) (valid_put h.valid _) ?_
  rw [hplace]
  by_cases hsocket : s.socket = some k
  · have howner : (s.put k (.sent i request)).owner = some i := by
      have hput : (s.put k (.sent i request)).socket = some k := hsocket
      rw [owner_of_some hput, ownerOf_put_self hk]
      rfl
    simp [Line.arrival, Line.charge, LinePlace.isOver, howner, hsocket,
      blocked_of_idle hsocket hk (Or.inr rfl)]
  · -- the socket that it sends on is not the one that it is going to receive from
    have hfree := (hkept k rfl).resolve_left hsocket
    have howner : (s.put k (.sent i request)).owner = none := by
      unfold Line.owner at hfree ⊢
      rw [show (s.put k (.sent i request)).socket = s.socket from rfl]
      cases hcurrent : s.socket with
      | none => rfl
      | some k' =>
          rw [hcurrent] at hfree
          rcases ownerOf_put s k (.sent i request) k' with hsame | ⟨rfl, -⟩
          · exact hsame.trans hfree
          · exact absurd hcurrent hsocket
    simp [Line.arrival, Line.charge, LinePlace.isOver, howner, hsocket]

/-- A place within `_send_request_to_ob` is one of a call that is under way. -/
theorem isUnderWay (h : Alone b s) (hi : s.tasks[i]? = some task)
    (hplace : task.place.isApart = false) : task.isUnderWay = true := by
  have hcall : task.errand.isCall = true := by
    by_contra hnot
    rw [h.apart task (List.mem_of_getElem? hi) (Bool.eq_false_iff.mpr hnot)] at hplace
    cases hplace
  refine isUnderWay_of hcall ?_
  cases hover : task.place.isOver with
  | false => rfl
  | true =>
      rcases List.mem_pair.mp (of_decide_eq_true hover) with heq | heq
      all_goals
        rw [heq] at hplace
        cases hplace

/-- **An event adds its toll to the bill**, and less only where another thread is in `start` or
`stop`. -/
theorem move (h : Alone b s) (hcaller : ∀ c, e = .begins (.call c) → c.isPositionManager = b)
    (hmove : Move respond s e n new s') : Pays b s s' n := by
  cases hmove with
  | nothing => exact pays_of_eq h rfl
  | begins he hfree hnew =>
      refine h.append _ hnew fun c hc => ⟨hcaller c ?_, hfree c hc⟩
      rw [he, hc]
  | @goes i task place he hi honward =>
      have hmem := List.mem_of_getElem? hi
      cases hcall : task.errand.isCall with
      | true =>
          have hunder := isUnderWay_of hcall honward.isOver_eq
          exact h.pays_goesOn goesOn_proceed rfl hi hunder honward.kept h.valid
            (honward.arrival_eq hcall h.valid (h.kept task hmem hunder))
      | false =>
          exact h.pays_foreign goesOn_proceed rfl hi hcall
            (honward.isApart hcall (h.apart task hmem hcall)) (.refl s) h.valid
  | @fails i task place n hi hfault =>
      have hmem := List.mem_of_getElem? hi
      cases hcall : task.errand.isCall with
      | true =>
          have hunder := isUnderWay_of hcall hfault.isOver_eq
          exact h.pays_goesOn goesOn_proceed rfl hi hunder (kept_of_found hfault.found_eq) h.valid
            (hfault.arrival_eq hcall (h.kept task hmem hunder))
      | false =>
          exact h.pays_foreign goesOn_proceed rfl hi hcall
            (hfault.isApart (h.apart task hmem hcall)) (.refl s) h.valid
  | @creates i task hi hplace =>
      have hgoes : GoesOn s.create i (.looks .setsOptions)
        (s.create.goTo i (.looks .setsOptions)) := goesOn_goTo (by simp)
      cases hcall : task.errand.isCall with
      | true =>
          have hunder := isUnderWay_of hcall (hplace ▸ rfl)
          refine h.pays_goesOn hgoes rfl hi hunder (kept_of_found rfl) (valid_create s) ?_
          rw [hplace]
          simp [Line.arrival, Line.charge, LinePlace.isOver, Line.disturbance, hcall,
            blocked_create]
      | false => exact h.pays_disturbance hgoes rfl hi hcall rfl (quiet_create s) (valid_create s)
  | @connects i k task hi hplace hk =>
      have halike : Alike s (s.put k .ready) := alike_put hk (by simp) (by simp) rfl
      have hgoes : GoesOn (s.put k .ready) i task.errand.afterStart
        ((s.put k .ready).proceed i task task.errand.afterStart) := goesOn_proceed
      cases hcall : task.errand.isCall with
      | true =>
          have hunder := isUnderWay_of hcall (hplace ▸ rfl)
          have hclosed : s.isClosed k = false := by
            unfold Line.isClosed
            rw [hk]
          rw [afterStart_of_isCall hcall] at hgoes ⊢
          refine h.pays_goesOn hgoes rfl hi hunder (kept_of_found rfl) (valid_put h.valid .ready) ?_
          have hcharge := halike.charge_eq (.isNone .rechecks)
          rw [hplace, Line.arrival, hcharge]
          simp [Line.charge, LinePlace.isOver, hclosed]
      | false =>
          exact h.pays_foreign hgoes rfl hi hcall (isApart_afterStart hcall) halike
            (valid_put h.valid .ready)
  | @closes i k task use what hi hplace hcloses =>
      have hgoes : GoesOn (s.close k) i (.clears what) ((s.close k).goTo i (.clears what)) :=
        goesOn_goTo (by simp)
      have hvalid : (s.close k).Valid := valid_put h.valid .closed
      cases hcall : task.errand.isCall with
      | true =>
          have hunder := isUnderWay_of hcall (hplace ▸ rfl)
          refine h.pays_goesOn hgoes rfl hi hunder (kept_of_found rfl) hvalid ?_
          rw [hplace, hcloses.charge_eq]
          simp [Line.arrival, Line.charge, LinePlace.isOver, Line.disturbance, hcall]
      | false =>
          have hplace' := h.apart task (List.mem_of_getElem? hi) hcall
          rw [hplace] at hplace'
          exact h.pays_disturbance hgoes rfl hi hcall (hcloses.isApart hplace') (quiet_close s k)
            hvalid
  | @clears i task what hi hplace =>
      have hgoes : GoesOn s.clear i (what.next task.errand)
        (s.clear.proceed i task (what.next task.errand)) := goesOn_proceed
      cases hcall : task.errand.isCall with
      | true =>
          have hunder := isUnderWay_of hcall (hplace ▸ rfl)
          have hidle : s.clear.idle = 0 := idle_of_none rfl
          rw [next_of_isCall hcall] at hgoes ⊢
          refine h.pays_goesOn hgoes rfl hi hunder (kept_of_found rfl) (valid_clear s) ?_
          rw [hplace]
          simp [Line.arrival, Line.charge, LinePlace.isOver, Line.disturbance, hcall, hidle]
      | false =>
          have hnext : (what.next task.errand).isApart = true := by
            cases what <;> cases task.errand <;> rfl
          exact h.pays_disturbance hgoes rfl hi hcall hnext (quiet_clear s) (valid_clear s)
  | sends hi hplace hk _ => exact h.pays_send hi (h.isUnderWay hi (hplace ▸ rfl)) hplace hk
  | gets hi hplace hk => exact h.pays_get hi (h.isUnderWay hi (hplace ▸ rfl)) hplace hk
  | garbles hi hplace hk => exact h.pays_garble hi (h.isUnderWay hi (hplace ▸ rfl)) hplace hk
  | @serves i k request hk =>
      exact h.pays_answer (s.put k (.answered i (respond request s.server).1)) rfl
        (alike_put hk (by simp) (by simp) rfl) (valid_put h.valid _) _ _
  | @servesAbandoned i k request hk =>
      exact h.pays_answer { s with abandoned := s.abandoned.eraseIdx k } rfl
        ⟨rfl, fun _ => rfl, fun _ => rfl, rfl⟩ h.valid _ _

end Alone

/-! ## Whole runs -/

/-- All calls of the run are made by one of the two threads. -/
def OneCaller (b : Bool) (es : List LineEvent) : Prop :=
  ∀ c, .begins (.call c) ∈ es → c.isPositionManager = b

/-- No thread is told to start or stop the broker. -/
def OnlyCalls (es : List LineEvent) : Prop :=
  ∀ errand, .begins errand ∈ es → errand.isCall = true

/-- One task is written to, and keeps its errand. -/
theorem AllCalls.write (h : AllCalls s) (htasks : s'.tasks = s.tasks.modify i f)
    (hf : ∀ task, (f task).errand = task.errand) : AllCalls s' := by
  intro task' htask'
  rw [htasks] at htask'
  obtain ⟨j, hj⟩ := List.mem_iff_getElem?.mp htask'
  rcases getElem?_modify_cases hj with ⟨rfl, task, htask, rfl⟩ | ⟨-, hj⟩
  · rw [hf]
    exact h task (List.mem_of_getElem? htask)
  · exact h task' (List.mem_of_getElem? hj)

/-- Where no thread starts or stops the broker, every task is that of a call. -/
theorem AllCalls.move (h : AllCalls s) (honly : OnlyCalls [e])
    (hmove : Move respond s e n new s') : AllCalls s' := by
  have hgoes : ∀ {s₁ : Line σ} {i : ℕ} {place : LinePlace}, GoesOn s₁ i place s' →
      s₁.tasks = s.tasks → AllCalls s' := by
    rintro s₁ i place ⟨f, broker, hf, rfl⟩ htasks
    exact h.write (congrArg (List.modify · i f) htasks) hf.errand
  cases hmove with
  | nothing => exact h
  | @begins broker task he _ _ =>
      intro task' htask'
      rcases List.mem_append.mp htask' with htask' | htask'
      · exact h task' htask'
      · rw [List.mem_singleton.mp htask']
        exact honly task.errand (he ▸ List.mem_singleton_self _)
  | goes _ _ _ | fails _ _ => exact hgoes (goesOn_proceed (s := s)) rfl
  | creates _ _ => exact hgoes (goesOn_goTo (s := s.create) (by simp)) rfl
  | connects _ _ _ => exact hgoes (goesOn_proceed (s := s.put _ .ready)) rfl
  | closes _ _ _ => exact hgoes (goesOn_goTo (s := s.close _) (by simp)) rfl
  | clears _ _ => exact hgoes (goesOn_proceed (s := s.clear)) rfl
  | sends _ _ _ _ => exact hgoes (goesOn_goTo (s := s.put _ (.sent _ _)) (by simp)) rfl
  | gets _ _ _ => exact h.write rfl fun _ => rfl
  | garbles _ _ _ => exact hgoes (goesOn_finish (s := s.put _ .ready)) rfl
  | serves _ => exact h.write rfl fun _ => rfl
  | servesAbandoned _ => exact h.write rfl fun _ => rfl

/-- No place in transit is one in `start` or `stop`. -/
theorem isApart_of_inTransit (h : place.inTransit = true) : place.isApart = false := by
  cases place with
  | looks use =>
      cases use with
      | receives => rfl
      | setsOptions | connects | closesUnconnected | sends | closesFaulty | closesStopped => cases h
  | uses use k =>
      cases use with
      | sends | receives => rfl
      | setsOptions | connects | closesUnconnected | closesFaulty | closesStopped => cases h
  | isNone _ | looksAgain _ | readsClosed _ _ | creates | holds | clears _ | returned | raised =>
      cases h

namespace Alone

/-- A thread that calls alone is in turn. -/
theorem inTurn (h : Alone b s) (e : LineEvent) : s.InTurn e := by
  cases e with
  | step i =>
      intro task hi hsends task' htask'
      by_contra hnot
      have hin : task'.place.inTransit = true := Bool.eq_true_of_not_eq_false hnot
      obtain ⟨j, hj⟩ := List.mem_iff_getElem?.mp htask'
      have hunder := h.isUnderWay hi (hsends ▸ rfl)
      have hunder' := h.isUnderWay hj (isApart_of_inTransit hin)
      obtain rfl := h.only hi hj hunder hunder'
      obtain rfl := Option.some.inj (hi.symm.trans hj)
      rw [hsends] at hin
      cases hin
  | begins _ | serve _ | serveAbandoned _ | timesOut _ | raises _ | undecodable _
    | unconnected _ => trivial

/-- An event of a run in which one thread calls. -/
theorem pays_apply (h : Alone b s) (hone : OneCaller b [e]) :
    Pays b s (s.apply respond e) (toll s e) :=
  h.move (fun c he => hone c (he ▸ List.mem_singleton_self _)) move_apply

variable (respond) in
/-- **Over a run** the bill is paid by the tolls. -/
theorem run : ∀ {es : List LineEvent} {s : Line σ}, Alone b s → OneCaller b es →
    Alone b (s.run respond es) ∧ ExclusiveLine respond s es ∧
      (s.run respond es).bill ≤ s.bill + tolls respond s es
  | [], _, h, _ => ⟨h, trivial, Nat.le_refl _⟩
  | e :: es, s, h, hone => by
      have hhead : OneCaller b [e] := fun c hc =>
        hone c (List.mem_singleton.mp hc ▸ List.mem_cons_self)
      have hrest : OneCaller b es := fun c hc => hone c (List.mem_cons_of_mem _ hc)
      have hpays : Pays b s (s.apply respond e) (toll s e) := h.pays_apply hhead
      obtain ⟨halone, hturn, hbill⟩ := run hpays.alone hrest
      refine ⟨halone, ⟨h.inTurn e, hturn⟩, ?_⟩
      calc ((s.apply respond e).run respond es).bill
          ≤ (s.apply respond e).bill + tolls respond (s.apply respond e) es := hbill
        _ ≤ s.bill + toll s e + tolls respond (s.apply respond e) es :=
            Nat.add_le_add_right hpays.bill _
        _ = s.bill + tolls respond s (e :: es) := Nat.add_assoc _ _ _

variable (respond) in
/-- **Over a run in which no thread starts or stops the broker** the tolls are exactly the bill. -/
theorem run_eq : ∀ {es : List LineEvent} {s : Line σ}, Alone b s → AllCalls s →
    OneCaller b es → OnlyCalls es → (s.run respond es).bill = s.bill + tolls respond s es
  | [], _, _, _, _, _ => rfl
  | e :: es, s, h, hall, hone, honly => by
      have hhead : OneCaller b [e] := fun c hc =>
        hone c (List.mem_singleton.mp hc ▸ List.mem_cons_self)
      have hrest : OneCaller b es := fun c hc => hone c (List.mem_cons_of_mem _ hc)
      have hheadCalls : OnlyCalls [e] := fun errand he =>
        honly errand (List.mem_singleton.mp he ▸ List.mem_cons_self)
      have hpays : Pays b s (s.apply respond e) (toll s e) := h.pays_apply hhead
      have hrun := run_eq hpays.alone (hall.move hheadCalls move_apply) hrest
        fun errand he => honly errand (List.mem_cons_of_mem _ he)
      rw [Line.run_cons, hrun, hpays.exact hall, tolls, Nat.add_assoc]

end Alone

/-- Nobody has called yet. -/
theorem Line.Fresh.alone (h : s.Fresh) (b : Bool) : Alone b s := by
  refine ⟨by simp [h.tasks], by simp [h.tasks], by simp [h.tasks], by simp [h.tasks], ?_⟩
  intro k hk
  rcases h.socket with ⟨hnone, -⟩ | ⟨hsome, hsockets⟩
  · rw [hnone] at hk
    cases hk
  · obtain rfl := Option.some.inj (hsome.symm.trans hk)
    simp [hsockets]

/-- Nothing is owed before the first call. -/
theorem Line.Fresh.bill (h : s.Fresh) : s.bill = 0 := by
  unfold Line.bill Line.lostCalls Line.due Line.idle Line.owner Line.ownerOf
  rw [h.tasks]
  rcases h.socket with ⟨hnone, -⟩ | ⟨hsome, hsockets⟩
  · rw [hnone]
    rfl
  · rw [hsome, hsockets]
    rfl

/-- A call that has been lost is on the bill. -/
theorem lostCalls_le_bill : s.lostCalls ≤ s.bill := Nat.le_add_right _ _

/-- Once every method is over, the bill is what has been lost and what the socket is going to
cost. -/
theorem bill_of_allOver (h : s.AllOver) : s.bill = s.lostCalls + s.idle := by
  refine congrArg (s.lostCalls + ·) (due_of_find?_eq_none (List.find?_eq_none.mpr ?_))
  intro task htask hunder
  have hover := h task htask
  rw [(isUnderWay_iff.mp hunder).2] at hover
  cases hover

/-- **What the faults cost.** Where one thread makes all the calls, it is always in turn, whatever
goes wrong and whatever other threads do in `start` and `stop`. As many calls as end without a reply
are paid for: two by a reply awaited in vain, one by any other fault that strikes a call, and one by
each step in which another thread replaces, closes or clears the socket during a call. Where no
other thread starts or stops the broker, the tolls are exactly so many once all calls are over,
unless the last reply awaited in vain has still one call to come. And as long as nothing costs
anything any more, at most one more call is lost. -/
theorem lost_calls_paid (respond : Json → σ → Reply × σ) (s : Line σ) (h : s.Fresh) (b : Bool)
    (es : List LineEvent) (hone : OneCaller b es) :
    ExclusiveLine respond s es ∧
      (s.run respond es).lostCalls ≤ tolls respond s es ∧
      (OnlyCalls es → (s.run respond es).AllOver →
        (s.run respond es).lostCalls +
          (if (s.run respond es).owner.isSome then 1 else 0) = tolls respond s es) ∧
      ∀ es', OneCaller b es' → tolls respond (s.run respond es) es' = 0 →
        ((s.run respond es).run respond es').lostCalls ≤ (s.run respond es).lostCalls + 1 := by
  obtain ⟨halone, hturn, hbill⟩ := (h.alone b).run respond hone
  rw [h.bill, Nat.zero_add] at hbill
  refine ⟨hturn, lostCalls_le_bill.trans hbill, fun honly hover => ?_, fun es' hone' hfree => ?_⟩
  · have hall : AllCalls s := by
      unfold AllCalls
      simp [h.tasks]
    have heq := (h.alone b).run_eq respond hall hone honly
    rw [h.bill, Nat.zero_add, bill_of_allOver hover] at heq
    exact heq
  · obtain ⟨-, -, hbill'⟩ := halone.run respond hone'
    rw [hfree, Nat.add_zero] at hbill'
    calc ((s.run respond es).run respond es').lostCalls
        ≤ ((s.run respond es).run respond es').bill := lostCalls_le_bill
      _ ≤ (s.run respond es).bill := hbill'
      _ ≤ (s.run respond es).lostCalls + 1 := Nat.add_le_add_left (due_le_one _) _

end tolls

/-- A broker that has just connected to a new server. -/
def connectedLine : Line ServerState :=
  { unstarted with socket := some 0, sockets := [.ready] }

/-- Nothing has been called on it. -/
theorem fresh_connectedLine : connectedLine.Fresh := ⟨rfl, rfl, Or.inr ⟨rfl, rfl⟩⟩

/-- A reply comes too late, and the next call closes the socket. -/
def tooLate : List LineEvent :=
  .begins (.call (.positionManager (.submitOrder "a" "AMD" 5 true "GTC" (some (.finite 100))))) ::
    steps 0 6 ++ .timesOut 0 :: .serve 0 ::
  .begins (.call (.positionManager (.submitOrder "b" "AMD" 3 false "GTC" (some (.finite 100))))) ::
    steps 1 9

/-- The next order gets its reply on a new socket. -/
def afterwards : List LineEvent :=
  .begins (.call (.positionManager (.submitOrder "c" "AMD" 3 false "GTC" (some (.finite 100))))) ::
    steps 2 13 ++ [.serve 1, .step 2]

/-- Two orders are lost, though only one reply was late, and then no other. -/
theorem lost_calls_paid_tooLate :
    connectedLine.Fresh ∧ OneCaller true tooLate ∧
      tolls orderBookServer connectedLine tooLate = 2 ∧
      (connectedLine.run orderBookServer tooLate).AllOver ∧
      (connectedLine.run orderBookServer tooLate).lostCalls +
        (if (connectedLine.run orderBookServer tooLate).owner.isSome then 1 else 0) = 2 ∧
      ((connectedLine.run orderBookServer tooLate).run orderBookServer afterwards).lostCalls ≤
        (connectedLine.run orderBookServer tooLate).lostCalls + 1 := by
  have hone : OneCaller true tooLate := by
    intro c hc
    simp only [tooLate, steps, List.replicate, List.mem_cons, List.mem_append, reduceCtorEq,
      LineEvent.begins.injEq, Errand.call.injEq, List.not_mem_nil, false_or, or_false] at hc
    rcases hc with rfl | rfl <;> rfl
  have honly : OnlyCalls tooLate := by
    intro errand herrand
    simp only [tooLate, steps, List.replicate, List.mem_cons, List.mem_append, reduceCtorEq,
      LineEvent.begins.injEq, List.not_mem_nil, false_or, or_false] at herrand
    rcases herrand with rfl | rfl <;> rfl
  have hone' : OneCaller true afterwards := by
    intro c hc
    simp only [afterwards, steps, List.replicate, List.mem_cons, List.mem_append, reduceCtorEq,
      LineEvent.begins.injEq, Errand.call.injEq, List.not_mem_nil, or_false] at hc
    rw [hc]
    rfl
  have htolls : tolls orderBookServer connectedLine tooLate = 2 := by decide
  have hover : (connectedLine.run orderBookServer tooLate).AllOver := by decide
  have h := lost_calls_paid orderBookServer connectedLine fresh_connectedLine true tooLate hone
  exact ⟨fresh_connectedLine, hone, htolls, hover, htolls ▸ h.2.2.1 honly hover,
    h.2.2.2 afterwards hone' (by decide)⟩

end FlowManager.Broker
