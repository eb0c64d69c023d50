import FlowManager.Server.Handler

/-!
# The server loop

One iteration of `main`, from the bytes of a request to the reply that is sent. What an iteration
raises leaves `main`: the process ends, and the book with it.

Three things are outside every `try` block that would catch them. `json::parse` may throw what is
not a `parse_error`. The reply to a request that does not parse quotes its bytes, and `dump` throws
on what is not UTF-8. And the log line reads `command` and `client_order_id` as strings of an
object. `server_survives_iff` says that nothing else ends the server.

ZeroMQ is assumed to deliver what was sent.
-/

namespace FlowManager.Server

open FlowManager.Lib FlowManager.Book

/-- The server, and the replies it has sent. -/
structure MainState where
  server : ServerState
  sent : List Reply

/-- The server as it starts. -/
def MainState.init : MainState := ⟨ServerState.init, []⟩

/-- A procedure of `main`. -/
abbrev MainProc : Type → Type := Proc Exception MainState

/-- `socket.send`. -/
def send (reply : Reply) : MainProc Unit :=
  Proc.modify fun m => { m with sent := m.sent ++ [reply] }

section main

variable (L : JsonLibrary)

/-- The text that `dump` makes of the bytes of a string. -/
def dump (bytes : ByteArray) : MainProc String :=
  match String.fromUTF8? bytes with
  | some text => pure text
  | none => Proc.raise (.json L.dumpTypeError)

/-- Handle a request, and have its reply. -/
def handle (req : Json) : MainProc Reply :=
  ⟨fun m => match (handleRequest L.toLibraries req).run ⟨m.server, {}⟩ with
    | .returned _ s => .returned s.resJson { m with server := s.server }
    | .raised e s => .raised e { m with server := s.server }
    | .stuck s => .stuck { m with server := s.server }⟩

/-- One iteration of the loop. The strings of a reply come from the request, which has been parsed,
or from the server itself, so they are text.
Source: `order_book_server.cpp`, lines 34-52, 72-83, 203-209 -/
def iteration (payload : ByteArray) : MainProc Unit :=
  if payload.size = 0 then
    send { status := some .ERROR, message := some "Received empty request from client." }
  else
    match L.parse payload with
    | .ok req => do
        let reply ← handle L req
        send reply
    | .error (.parseError what) => do
        let text ← dump L what
        send { status := some .ERROR, message := some ("Invalid JSON request: " ++ text) }
    | .error (.other what) => Proc.raise (.json what)

/-- The states of the server between two requests. -/
inductive Reached : MainState → Prop
  | init : Reached MainState.init
  | next {m m' : MainState} (payload : ByteArray) : Reached m →
      (iteration L payload).run m = .returned () m' → Reached m'

variable {L} {m m' : MainState} {req : Json} {payload : ByteArray}

/-- The handler as `main` sees it. -/
theorem run_handle_of_serve {reply : Reply} {server' : ServerState}
    (h : serve L.toLibraries req m.server = some (reply, server')) :
    (handle L req).run m = .returned reply { m with server := server' } := by
  unfold serve at h
  unfold handle
  dsimp only
  cases hrun : (handleRequest L.toLibraries req).run ⟨m.server, {}⟩ with
  | returned _ s =>
      rw [hrun] at h
      cases h
      rfl
  | raised e s =>
      rw [hrun] at h
      cases h
  | stuck s =>
      rw [hrun] at h
      cases h

/-- The iteration for a request that parses. -/
theorem run_iteration_of_parse (hne : payload.size ≠ 0) (hparse : L.parse payload = .ok req) :
    (iteration L payload).run m = ((handle L req).run m).bind fun reply m' =>
      .returned () { m' with sent := m'.sent ++ [reply] } := by
  unfold iteration
  rw [if_neg hne, hparse]
  rfl

/-- **A request that can be logged is answered**, and what is sent and done is what the handler
makes of it. -/
theorem run_iteration_of_loggable (hi : Invariant m.server.store) (hne : payload.size ≠ 0)
    (hparse : L.parse payload = .ok req) (hlog : req.loggable = true) :
    ∃ command reply server', L.value L.getString req "command" "" = .ok command ∧
      (iteration L payload).run m = .returned () ⟨server', m.sent ++ [reply]⟩ ∧
      Served L req command m.server reply server' := by
  obtain ⟨command, reply, server', hcommand, hserve, hserved⟩ := serve_served L hi hlog
  refine ⟨command, reply, server', hcommand, ?_, hserved⟩
  rw [run_iteration_of_parse hne hparse, run_handle_of_serve hserve]
  rfl

/-- Another request ends the server. -/
theorem run_iteration_of_not_loggable (hne : payload.size ≠ 0) (hparse : L.parse payload = .ok req)
    (hlog : req.loggable = false) :
    ∃ text m', (iteration L payload).run m = .raised (.json text) m' := by
  obtain ⟨text, hraised⟩ := run_handleRequest_of_not_loggable L ⟨m.server, {}⟩ hlog
  refine ⟨text, m, ?_⟩
  rw [run_iteration_of_parse hne hparse]
  unfold handle
  dsimp only
  rw [hraised]
  rfl

/-- What an iteration that goes on has done. -/
theorem of_run_iteration (hi : Invariant m.server.store)
    (h : (iteration L payload).run m = .returned () m') :
    ∃ reply, m'.sent = m.sent ++ [reply] ∧
      ((m'.server = m.server ∧ reply.status = some .ERROR) ∨
        ∃ req command, payload.size ≠ 0 ∧ L.parse payload = .ok req ∧
          L.value L.getString req "command" "" = .ok command ∧
          Served L req command m.server reply m'.server) := by
  by_cases hsize : payload.size = 0
  · unfold iteration at h
    rw [if_pos hsize] at h
    cases h
    exact ⟨_, rfl, Or.inl ⟨rfl, rfl⟩⟩
  cases hparse : L.parse payload with
  | ok req =>
      cases hlog : req.loggable with
      | true =>
          obtain ⟨command, reply, server', hcommand, hrun, hserved⟩ :=
            run_iteration_of_loggable hi hsize hparse hlog
          rw [h] at hrun
          cases hrun
          exact ⟨reply, rfl, Or.inr ⟨req, command, hsize, rfl, hcommand, hserved⟩⟩
      | false =>
          obtain ⟨text, m₁, hraised⟩ := run_iteration_of_not_loggable (m := m) hsize hparse hlog
          rw [hraised] at h
          cases h
  | error failure =>
      unfold iteration at h
      rw [if_neg hsize, hparse] at h
      cases failure with
      | other what => cases h
      | parseError what =>
          rw [Proc.run_bind, dump] at h
          cases htext : String.fromUTF8? what with
          | none =>
              rw [htext] at h
              cases h
          | some text =>
              rw [htext] at h
              cases h
              exact ⟨_, rfl, Or.inl ⟨rfl, rfl⟩⟩

/-- What an iteration has done that goes on after a request with a command. -/
theorem served_of_run_iteration {command : String} (hi : Invariant m.server.store)
    (hne : payload.size ≠ 0) (hparse : L.parse payload = .ok req)
    (hcommand : req.field? "command" = some (.string command))
    (h : (iteration L payload).run m = .returned () m') :
    ∃ reply, m'.sent = m.sent ++ [reply] ∧ Served L req command m.server reply m'.server := by
  by_cases hlog : req.loggable = true
  · obtain ⟨command', reply, server', hcommand', hrun, hserved⟩ :=
      run_iteration_of_loggable hi hne hparse hlog
    rw [value_of_field? L.toLibraries hcommand, L.getString_string] at hcommand'
    obtain rfl := Except.ok.inj hcommand'
    rw [h] at hrun
    cases hrun
    exact ⟨reply, rfl, hserved⟩
  · obtain ⟨text, m₁, hraised⟩ := run_iteration_of_not_loggable (m := m) hne hparse
      (Bool.eq_false_iff.mpr hlog)
    rw [h] at hraised
    cases hraised

/-- The book of the server is in order between two requests. -/
theorem Reached.invariant (h : Reached L m) : Invariant m.server.store := by
  induction h with
  | init => exact invariant_empty
  | next payload _ hrun ih =>
      obtain ⟨reply, -, ⟨hsame, -⟩ | ⟨req, command, -, -, -, hserved⟩⟩ := of_run_iteration ih hrun
      · rwa [hsame]
      · exact hserved.invariant ih

/-! ## Survival -/

/-- The server can answer a request: it parses to one that can be logged, or the error of the
parser is text. -/
def Answerable (L : JsonLibrary) (payload : ByteArray) : Bool :=
  match L.parse payload with
  | .ok req => req.loggable
  | .error (.parseError what) => (String.fromUTF8? what).isSome
  | .error (.other _) => false

/-- **The server survives a request** if and only if it can answer it. -/
theorem server_survives_iff (L : JsonLibrary) (m : MainState) (h : Reached L m)
    (payload : ByteArray) (hne : payload.size ≠ 0) :
    (∃ reply server', (iteration L payload).run m = .returned () ⟨server', m.sent ++ [reply]⟩) ↔
      Answerable L payload = true := by
  have hi := h.invariant
  unfold Answerable
  cases hparse : L.parse payload with
  | ok req =>
      constructor
      · rintro ⟨reply, server', hrun⟩
        dsimp only
        by_contra hlog
        obtain ⟨text, m', hraised⟩ := run_iteration_of_not_loggable (m := m) hne hparse
          (Bool.eq_false_iff.mpr hlog)
        rw [hraised] at hrun
        cases hrun
      · intro hlog
        obtain ⟨-, reply, server', -, hrun, -⟩ := run_iteration_of_loggable hi hne hparse hlog
        exact ⟨reply, server', hrun⟩
  | error failure =>
      unfold iteration
      rw [if_neg hne, hparse]
      cases failure with
      | other what => simp
      | parseError what =>
          rw [Proc.run_bind, dump]
          cases htext : String.fromUTF8? what with
          | none => simp [htext]
          | some text => simp [htext, send]

/-- A number is JSON, and no object. -/
theorem server_survives_iff_number :
    Reached (.nlohmann fun _ => .ok (.integer 5)) MainState.init ∧ "5".toUTF8.size ≠ 0 ∧
    ((∃ reply server', (iteration (.nlohmann fun _ => .ok (.integer 5)) "5".toUTF8).run
        MainState.init = .returned () ⟨server', MainState.init.sent ++ [reply]⟩) ↔
      Answerable (.nlohmann fun _ => .ok (.integer 5)) "5".toUTF8 = true) :=
  ⟨.init, by decide, server_survives_iff _ _ .init _ (by decide)⟩

/-- The server does not survive every request: a number ends it. -/
theorem server_survives_fails :
    ¬ ∀ (L : JsonLibrary) (m : MainState), Reached L m →
      ∀ payload : ByteArray, payload.size ≠ 0 →
        ∃ reply server', (iteration L payload).run m = .returned () ⟨server', m.sent ++ [reply]⟩ := by
  intro h
  obtain ⟨reply, server', hrun⟩ := h (.nlohmann fun _ => .ok (.integer 5)) _ .init "5".toUTF8
    (by decide)
  cases hrun

end main

end FlowManager.Server
