import FlowManager.Book.Levels
import FlowManager.Server.Decoder
import FlowManager.Server.QueueServer

/-!
# Requests that nobody notices

A request that is answered `ERROR`, or that does not ask to add or to cancel an order, leaves the
queues as they are. So a client that sends any number of them, between the requests of others and
interleaved in any way, is not noticed: without these requests the others get the same replies, and
the book is the same afterwards (`requests_unnoticed`).
-/

namespace FlowManager.Server

open FlowManager.Lib FlowManager.Lib.PriceTime FlowManager.Book

section quiet

variable {L : JsonLibrary} {a : Asked} {q : Sides OrderTerms}

/-- A request that has a command other than the two that change the book. -/
def ReadsOnly (L : JsonLibrary) (payload : ByteArray) : Prop :=
  ∃ req command, payload.size ≠ 0 ∧ L.parse payload = .ok req ∧
    req.field? "command" = some (.string command) ∧ command ≠ "ADD_ORDER" ∧
    command ≠ "CANCEL_ORDER"

/-- What is answered `ERROR` has not changed the queues. -/
theorem answer_of_error (h : (a.answer q).1.status = some .ERROR) : (a.answer q).2 = q := by
  cases a with
  | add o clientOrderId brokerOrderId =>
      unfold Asked.answer at h ⊢
      dsimp only at h ⊢
      split_ifs at h ⊢
      · cases h
      · rfl
  | cancel id =>
      unfold Asked.answer at h ⊢
      dsimp only at h ⊢
      split_ifs at h ⊢
      · rfl
      · cases h
  | info => rfl
  | nothing reply => rfl

/-- What other commands ask does not change the queues. -/
theorem askedBy_of_readsOnly {req : Json} {command clientOrderId : String}
    (hadd : command ≠ "ADD_ORDER") (hcancel : command ≠ "CANCEL_ORDER") :
    ((askedBy L req command clientOrderId).answer q).2 = q := by
  unfold askedBy
  rw [if_neg hadd, if_neg hcancel]
  split_ifs <;> rfl

/-- A request that only reads leaves the queues. -/
theorem step_of_readsOnly {payload : ByteArray} (h : ReadsOnly L payload) :
    ((queueServer L).step payload q).2 = q := by
  obtain ⟨req, command, hsize, hparse, hcommand, hadd, hcancel⟩ := h
  have hvalue : L.value L.getString req "command" "" = .ok command :=
    (value_of_field? L.toLibraries hcommand "").trans (L.getString_string command)
  unfold queueServer answerTo asked
  dsimp only
  rw [if_neg hsize, hparse]
  dsimp only
  rw [hvalue]
  cases L.value L.getString req "client_order_id" "N/A" with
  | ok clientOrderId => exact askedBy_of_readsOnly hadd hcancel
  | error _ => rfl

/-- A request whose reply shows that it has not changed the queues. -/
def Quiet (L : JsonLibrary) (payload : ByteArray) (reply : Reply) : Prop :=
  reply.status = some .ERROR ∨ ReadsOnly L payload

/-- A quiet request leaves the queues. -/
theorem step_of_quiet {payload : ByteArray}
    (h : Quiet L payload ((queueServer L).step payload q).1) :
    ((queueServer L).step payload q).2 = q := by
  rcases h with herror | hreads
  · unfold queueServer answerTo at herror ⊢
    dsimp only at herror ⊢
    cases hasked : asked L payload with
    | none => rfl
    | some a =>
        rw [hasked] at herror
        exact answer_of_error herror
  · exact step_of_readsOnly hreads

end quiet

section runs

variable {L : JsonLibrary} {m m' : MainState}

/-- **Servers with the same queues give the same replies**, whatever is asked of them. -/
theorem sent_of_sides (hi : Invariant m.server.store) (hi' : Invariant m'.server.store)
    (hsides : m'.server.store.sides = m.server.store.sides) {payloads : List ByteArray}
    {n : MainState} (hrun : (serving L payloads).run m = .returned () n) :
    ∃ n' later, (serving L payloads).run m' = .returned () n' ∧ n.sent = m.sent ++ later ∧
      n'.sent = m'.sent ++ later := by
  have hasked := asked_of_run_serving hi hrun
  obtain ⟨n₁, hrun₁, hsent, -, -⟩ := run_serving hi hasked
  obtain ⟨n', hrun', hsent', -, -⟩ := run_serving hi' hasked
  rw [hrun] at hrun₁
  cases hrun₁
  rw [hsides] at hsent'
  exact ⟨n', _, hrun', hsent, hsent'⟩

/-- **Requests that nobody notices.** In a run of the server from its start, mark some requests such
that every other request was answered `ERROR` or had a command other than the two that change the
book. The marked requests alone get the replies that they got, the book is the same after them, and
whatever comes next is answered the same. -/
theorem requests_unnoticed (L : JsonLibrary) (zs : List (ByteArray × Bool)) (m : MainState)
    (hrun : (serving L (zs.map Prod.fst)).run MainState.init = .returned () m)
    (hquiet : ∀ x ∈ zs.zip m.sent, x.1.2 = false → Quiet L x.1.1 x.2) :
    ∃ m', (serving L (marked zs)).run MainState.init = .returned () m' ∧
      m'.sent = marked (m.sent.zip (zs.map Prod.snd)) ∧
      SameBook m.server.store m'.server.store ∧
      ∀ payloads n, (serving L payloads).run m = .returned () n →
        ∃ n' later, (serving L payloads).run m' = .returned () n' ∧ n.sent = m.sent ++ later ∧
          n'.sent = m'.sent ++ later := by
  have hinit : Invariant MainState.init.server.store := invariant_empty
  have hasked := asked_of_run_serving hinit hrun
  obtain ⟨m₁, hrun₁, hsent, hsides, hi⟩ := run_serving hinit hasked
  rw [hrun] at hrun₁
  cases hrun₁
  obtain ⟨m', hrun', hsent', hsides', hi'⟩ :=
    run_serving hinit fun payload hp => hasked payload (mem_of_mem_marked hp)
  have hzip : m.sent = ((queueServer L).run (zs.map Prod.fst) MainState.init.server.store.sides).1 :=
    hsent.trans (List.nil_append _)
  rw [hzip] at hquiet
  have hmarked := Transducer.run_marked (fun _ _ h => step_of_quiet h) zs _ hquiet
  rw [hmarked] at hsent' hsides'
  rw [← hzip] at hsent'
  rw [← hsides] at hsides'
  exact ⟨m', hrun', hsent'.trans (List.nil_append _), sameBook_of_sides hi hi' hsides'.symm,
    fun payloads n h => sent_of_sides hi hi' hsides' h⟩

end runs

/-- The request of a client that cancels an order which is not there. -/
def cancelText : ByteArray :=
  "\x7b\"command\": \"CANCEL_ORDER\", \"broker_order_id\": 7\x7d".toUTF8

/-- The library on `cancelText` and on `addOrderText "5"`. -/
def onTwoTexts : JsonLibrary := .nlohmann fun payload =>
  .ok (if payload.size < 100 then
      .object [("command", .string "CANCEL_ORDER"), ("broker_order_id", .integer 7)]
    else addOrderOf 5)

set_option maxRecDepth 8000 in
/-- The cancel of an order that is not there goes unnoticed. -/
theorem requests_unnoticed_cancel :
    ∃ m', (serving onTwoTexts [addOrderText "5"]).run MainState.init = .returned () m' ∧
      m'.sent.map Reply.status = [some .OK] ∧ m'.server.store.sides.bids.map Resting.qty = [5] := by
  obtain ⟨m', hrun, hsent, -, -⟩ := requests_unnoticed onTwoTexts
    [(cancelText, false), (addOrderText "5", true)] _ rfl (by
      intro x hx hdropped
      rcases List.mem_cons.mp hx with rfl | hx
      · exact Or.inl rfl
      · rcases List.mem_singleton.mp hx with rfl
        cases hdropped)
  refine ⟨m', hrun, hsent ▸ rfl, ?_⟩
  cases hrun
  rfl

end FlowManager.Server
