import FlowManager.Book.Levels
import FlowManager.Server.MainLoop

/-!
# An error reply means that nothing has happened

A request may throw at many places, and an exception keeps what was done before it. Still the book
is as it was whenever the reply says `ERROR`: what can throw after the call on the book reads fields
that have been read before (`Served` has no such case). A cancel that is answered `OK` has taken
its order out of the book and nothing else.
-/

namespace FlowManager.Server

open FlowManager.Lib FlowManager.Book

variable {L : JsonLibrary} {req : Json} {command : String} {server server' : ServerState}
  {reply : Reply}

/-- A request that fails leaves the book alone. -/
theorem Served.untouched (h : Served L req command server reply server')
    (hi : Invariant server.store) (herror : reply.status = some .ERROR) :
    Untouched server.store server'.store := by
  cases h with
  | missingField | badField | failed => exact .refl _
  | duplicate o => exact hi.toWellIndexed.untouched_alloc o
  | booked _ _ _ _ _ _ _ _ _ _ hok => rw [hok] at herror; cases herror
  | cancelled _ _ _ _ _ _ hok => rw [hok] at herror; cases herror
  | informed _ _ _ hok => rw [hok] at herror; cases herror

/-- A cancel that succeeds takes out the order that it names. -/
theorem Served.withdrawn (h : Served L req "CANCEL_ORDER" server reply server')
    (hi : Invariant server.store) (hok : reply.status = some .OK) :
    ∃ field id, req.field? "broker_order_id" = some field ∧ L.getUInt64 field = .ok id ∧
      Withdrawn server.store id server'.store := by
  cases h with
  | missingField _ hcommand => exact absurd hcommand (by simp)
  | badField _ _ hcommand => exact absurd hcommand (by simp)
  | duplicate _ _ hcommand => exact absurd hcommand (by simp)
  | booked _ _ _ _ _ _ hcommand => exact absurd hcommand (by simp)
  | failed _ _ herror => rw [herror] at hok; cases hok
  | informed _ _ hcommand => exact absurd rfl hcommand
  | cancelled id store _ _ hfield hcall =>
      obtain ⟨field, hfield, hget⟩ := hfield
      refine ⟨field, id, hfield, hget, ?_⟩
      cases hcall with
      | cancelled n _ hn hremoved => exact hremoved.withdrawn hi hn

/-- **An error reply means that nothing happened**, and a cancel that is answered `OK` took one
order out. -/
theorem error_changes_nothing (L : JsonLibrary) (m m' : MainState) (h : Reached L m)
    (payload : ByteArray) (hrun : (iteration L payload).run m = .returned () m') :
    ∃ reply, m'.sent = m.sent ++ [reply] ∧
      (reply.status = some .ERROR → Untouched m.server.store m'.server.store) ∧
      ∀ req, L.parse payload = .ok req →
        req.field? "command" = some (.string "CANCEL_ORDER") → reply.status = some .OK →
        ∃ field id, req.field? "broker_order_id" = some field ∧ L.getUInt64 field = .ok id ∧
          Withdrawn m.server.store id m'.server.store := by
  have hi := h.invariant
  obtain ⟨reply, hsent, hdone⟩ := of_run_iteration hi hrun
  refine ⟨reply, hsent, ?_, ?_⟩
  · intro herror
    rcases hdone with ⟨hsame, -⟩ | ⟨req, command, -, -, -, hserved⟩
    · rw [hsame]
      exact .refl _
    · exact hserved.untouched hi herror
  · intro req hparse hcommand hok
    rcases hdone with ⟨-, herror⟩ | ⟨req', command, -, hparse', hcommand', hserved⟩
    · rw [herror] at hok
      cases hok
    · rw [hparse] at hparse'
      cases hparse'
      rw [value_of_field? L.toLibraries hcommand, L.getString_string] at hcommand'
      cases hcommand'
      exact hserved.withdrawn hi hok

/-- A cancel of an order that is not there. -/
theorem error_changes_nothing_unknown_id :
    let text := "\x7b\"command\": \"CANCEL_ORDER\", \"broker_order_id\": 7\x7d"
    let req : Json := .object [("command", .string "CANCEL_ORDER"), ("broker_order_id", .integer 7)]
    let L : JsonLibrary := .nlohmann fun _ => .ok req
    ∃ m', Reached L MainState.init ∧
      (iteration L text.toUTF8).run MainState.init = .returned () m' ∧
      ∃ reply, m'.sent = MainState.init.sent ++ [reply] ∧
        (reply.status = some .ERROR → Untouched MainState.init.server.store m'.server.store) ∧
        ∀ req, L.parse text.toUTF8 = .ok req →
          req.field? "command" = some (.string "CANCEL_ORDER") → reply.status = some .OK →
          ∃ field id, req.field? "broker_order_id" = some field ∧ L.getUInt64 field = .ok id ∧
            Withdrawn MainState.init.server.store id m'.server.store := by
  intro text req L
  exact ⟨_, .init, rfl, error_changes_nothing L _ _ .init text.toUTF8 rfl⟩

end FlowManager.Server
