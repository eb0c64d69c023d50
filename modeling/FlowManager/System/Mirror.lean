import FlowManager.System.Stepping
import Mathlib.Algebra.Order.Ring.Rat
import Mathlib.Data.Nat.Cast.Order.Ring

/-!
# The broker mirrors the book

With every reply delivered, the orders that the broker tracks are the orders that rest in the
book, with the details the book has: the simulation between the two programs, read off
`Run.mirrored`. It breaks in one place. The loop over the trades takes an empty client id for an
unknown order and skips its fills, so an order under the empty client id is tracked as it was before
them. `broker_mirrors_book_iff` says that it breaks nowhere else.
-/

namespace FlowManager.System

open FlowManager.Lib FlowManager.Book FlowManager.Broker FlowManager.Server

/-- The price of an order is a whole number. -/
def Submission.Integral (σ : Submission) : Prop := ∃ n : ℕ, σ.price = some (.finite n)

/-- A natural number is its own price. -/
theorem pyInt_natCast (n : ℕ) : pyInt (.finite n) = .ok (n : ℤ) := by
  have hnonneg : (0 : ℚ) ≤ n := Nat.cast_nonneg n
  unfold pyInt
  dsimp only
  rw [if_pos hnonneg, ← Int.cast_natCast n, Rat.floor_intCast]

/-- What the broker stores about an order is what the book has. -/
structure SameOrder (details : OrderDetails) (o : Order) : Prop where
  side : o.side = if details.sideIsBuy then .Buy else .Sell
  price : details.price = some (.finite o.price.toNat)
  quantity : details.quantity = o.initialQuantity.toNat
  filled : details.filledQuantity = o.initialQuantity.toNat - o.remainingQuantity.toNat

/-- The broker mirrors the book: the two id maps are inverse to each other, and the details have the
same broker ids; these are the ids that rest in the book; and the details of each agree with the
order there. -/
structure MirrorsBook (s : BrokerAndServer) (server : ServerState) : Prop where
  inverse : ∀ clientOrderId b, s.clientToBrokerIdMap.lookup clientOrderId = some b ↔
    s.brokerToClientIdMap.lookup b = some clientOrderId
  detailed : ∀ b, (s.brokerIdToOrderDetails.lookup b).isSome ↔
    (s.brokerToClientIdMap.lookup b).isSome
  resting : ∀ b, (s.brokerToClientIdMap.lookup b).isSome ↔
    ∃ id : OrderId, (id.toNat : ℤ) = b ∧ (server.store.resting? id).isSome
  agree : ∀ id o, server.store.resting? id = some o →
    ∃ details : OrderDetails, s.brokerIdToOrderDetails.lookup (id.toNat : ℤ) = some details ∧
      SameOrder details o

/-- The broker is connected to a server and mirrors its book. -/
def Mirrors (s : BrokerAndServer) : Prop :=
  ∃ server, s.orderBook = some server ∧ MirrorsBook s server

section mirror

variable {L : Libraries} {es : List Event} {subs : List Submission} {s s' : BrokerAndServer}
  {server : ServerState} {σ : Submission}

/-- In step and mirrored, the broker mirrors the book. -/
theorem Synced.mirrorsBook (h : Synced subs s server) (hmirrored : Mirrored s server)
    (hintegral : ∀ σ ∈ subs, σ.Integral) : MirrorsBook s server := by
  have hindexed := h.accounts.indexed
  refine ⟨hindexed.inverse, hindexed.detailed, ?_, ?_⟩
  · intro b
    constructor
    · intro hb
      obtain ⟨clientOrderId, hclient⟩ := Option.isSome_iff_exists.mp hb
      obtain ⟨id, hid, hrests⟩ := hmirrored b clientOrderId hclient
      exact ⟨id, hid, Option.isSome_iff_ne_none.mpr hrests⟩
    · rintro ⟨id, rfl, hrests⟩
      obtain ⟨o, ho⟩ := Option.isSome_iff_exists.mp hrests
      obtain ⟨clientOrderId, _, htracks, -⟩ := h.tracked id o ho
      rw [htracks.client]
      rfl
  · intro id o ho
    obtain ⟨clientOrderId, details, htracks, hagrees⟩ := h.tracked id o ho
    obtain ⟨σ, hσ, -, hdescribes, -⟩ := h.accounts.works htracks
    obtain ⟨n, hn⟩ := hintegral σ hσ
    obtain ⟨p, hp, hpint⟩ := hagrees.price
    have hfilled := hagrees.filled
    refine ⟨details, htracks.details, hagrees.side, ?_, hagrees.quantity, by omega⟩
    rw [hdescribes.price, hn] at hp
    obtain rfl := Option.some.inj hp
    rw [pyInt_natCast] at hpint
    rw [hdescribes.price, hn]
    have hprice : n = o.price.toNat := by exact_mod_cast Except.ok.inj hpint
    rw [hprice]

/-- **Every run that keeps the mirror**, at whole prices, ends with mirrors. -/
theorem Run.mirrors (h : Run L KeepsMirror es s) (hintegral : ∀ σ ∈ submissions es, σ.Integral) :
    Mirrors s := by
  obtain ⟨server, hsynced, hmirrored⟩ := h.mirrored
  exact ⟨server, hsynced.connected, hsynced.mirrorsBook hmirrored hintegral⟩

/-- **A fill that the loop skips breaks the mirror**: the order has moved in the book only. -/
theorem Answered.not_mirrorsBook {price : PyFloat} {n : ℤ} {o : Order} {ts : Trades}
    {p : OrderPointer} {store' : Store} {server' : ServerState}
    (h : Answered subs s server σ price n o ts p store' server') {id : OrderId}
    {order : OrderDetails} (hskipped : Skipped (acknowledgedFor s σ price server') ts id order) :
    ¬MirrorsBook (replayed s σ price server' ts) server' := by
  intro hmirrors
  obtain ⟨status, htracks⟩ := tracks_skipped hskipped
  obtain ⟨id', hid', hrests⟩ := (hmirrors.resting id.toNat).mp (by rw [htracks.client]; rfl)
  obtain rfl : id' = id := UInt64.toNat_inj.mp (by exact_mod_cast hid')
  obtain ⟨o', ho'⟩ := Option.isSome_iff_exists.mp hrests
  obtain ⟨details, hdetails, hsame⟩ := hmirrors.agree id' o' ho'
  obtain rfl := Option.some.inj (htracks.details.symm.trans hdetails)
  rw [h.store] at ho'
  obtain ⟨x, hagrees, hterms, hrem⟩ := (h.knownAs hskipped.tracks).of_resting h.taken ho'
  have hbefore : order.filledQuantity + x.remainingQuantity.toNat = x.initialQuantity.toNat :=
    hagrees.filled
  have hafter : order.filledQuantity = o'.initialQuantity.toNat - o'.remainingQuantity.toNat :=
    hsame.filled
  have hinitial : o'.initialQuantity = x.initialQuantity := congrArg OrderTerms.initialQuantity hterms
  have hmoved := hskipped.moved
  rw [hinitial] at hafter
  omega

/-- Where the broker mirrors the book after a call, the call has kept it so. -/
theorem Synced.keepsMirror {e : Event} (h : Synced (submissions es) s server)
    (hadm : ∀ σ ∈ submission? e.call,
      σ.Admissible (submissions es) (s.brokerOrderIdCounter + 1)) {result : CallResult}
    (hrun : (e.call.run (transport L e.delivery)).run s = .returned result s')
    (hdelivered : Delivered s e) (hmirrors : Mirrors s') : KeepsMirror s e := by
  refine ⟨hdelivered, h.fillsNoUnnamed_of_not_skipped hadm hrun hdelivered ?_⟩
  rintro σ price n o ts p store' server' hanswered - rfl id order hskipped
  obtain ⟨server'', hconnected, hbook⟩ := hmirrors
  obtain rfl := Option.some.inj (hconnected.symm.trans (replayed_orderBook _ _ _ _ _))
  exact hanswered.not_mirrorsBook hskipped hbook

/-- **When the broker mirrors the book.** The runs of calls with whole prices on which every reply
arrives and in all of whose states the broker mirrors the book are the runs on which no order is
filled that the broker tracks under the empty client id. -/
theorem broker_mirrors_book_iff (L : Libraries) (es : List Event) (s : BrokerAndServer)
    (hintegral : ∀ σ ∈ submissions es, σ.Integral) :
    (Run L (fun s e => Delivered s e ∧ Mirrors s) es s ∧ Mirrors s) ↔ Run L KeepsMirror es s := by
  have hbefore : ∀ {es : List Event} {e : Event}, (∀ σ ∈ submissions (es ++ [e]), σ.Integral) →
      ∀ σ ∈ submissions es, σ.Integral := by
    intro es e h σ hσ
    apply h
    rw [submissions_append]
    exact List.mem_append_left _ hσ
  constructor
  · rintro ⟨hrun, hmirrors⟩
    induction hrun with
    | init => exact .init
    | call _ hadm hguard hcall ih =>
        have hrun := ih (hbefore hintegral) hguard.2
        obtain ⟨server, hsynced, -⟩ := hrun.mirrored
        exact .call hrun hadm (hsynced.keepsMirror hadm hcall hguard.1 hmirrors) hcall
  · intro hrun
    refine ⟨?_, hrun.mirrors hintegral⟩
    induction hrun with
    | init => exact .init
    | call hrun hadm hkeeps hcall ih =>
        exact .call (ih (hbefore hintegral)) hadm
          ⟨hkeeps.delivered, hrun.mirrors (hbefore hintegral)⟩ hcall

end mirror

/-! ## A run -/

/-- Two buys, a sale that fills the first of them in part, and a cancel of the second. -/
def fourCalls : List Event :=
  [⟨.submitOrder "a" "AMD" 5 true "GTC" (some (.finite 101)), .delivered⟩,
    ⟨.submitOrder "b" "AMD" 4 true "GTC" (some (.finite 100)), .delivered⟩,
    ⟨.submitOrder "c" "AMD" 3 false "FAK" (some (.finite 100)), .delivered⟩,
    ⟨.cancelOrder "b", .delivered⟩]

/-- A run of four calls. -/
theorem run_fourCalls : Run .nlohmann Delivered fourCalls (afterAll .nlohmann fourCalls) := by
  have h₁ := (run_nil .nlohmann Delivered).extend fourCalls[0] (by decide) rfl rfl
  have h₂ := h₁.extend fourCalls[1] (by decide) rfl rfl
  have h₃ := h₂.extend fourCalls[2] (by decide) rfl rfl
  exact h₃.extend fourCalls[3] (by decide) rfl rfl

/-- None of their orders has the empty client id. -/
theorem keepsMirror_fourCalls :
    Run .nlohmann KeepsMirror fourCalls (afterAll .nlohmann fourCalls) :=
  run_fourCalls.keepsMirror (by decide)

/-- Four calls, and the broker mirrors the book. -/
theorem broker_mirrors_book_four_calls : Mirrors (afterAll .nlohmann fourCalls) := by
  refine ((broker_mirrors_book_iff .nlohmann fourCalls _ ?_).mpr keepsMirror_fourCalls).2
  intro σ hσ
  simp only [submissions, fourCalls, submission?, List.filterMap_cons, List.filterMap_nil,
    List.mem_cons, List.not_mem_nil, or_false] at hσ
  rcases hσ with rfl | rfl | rfl
  · exact ⟨101, rfl⟩
  · exact ⟨100, rfl⟩
  · exact ⟨100, rfl⟩

/-- A buy with the empty client id, and a sale that fills it. -/
def unnamedBuy : List Event :=
  [⟨.submitOrder "" "AMD" 5 true "GTC" (some (.finite 100)), .delivered⟩,
    ⟨.submitOrder "b" "AMD" 5 false "GTC" (some (.finite 100)), .delivered⟩]

/-- A run with an order under the empty client id. -/
theorem run_unnamedBuy : Run .nlohmann Delivered unnamedBuy (afterAll .nlohmann unnamedBuy) := by
  have h₁ := (run_nil .nlohmann Delivered).extend unnamedBuy[0] (by decide) rfl rfl
  exact h₁.extend unnamedBuy[1] (by decide) rfl rfl

/-- The book is empty, and the broker still tracks the buy. -/
theorem broker_mirrors_book_fails : ¬∀ L es s, Run L Delivered es s →
    (∀ σ ∈ submissions es, σ.Integral ∧ 0 < σ.quantity) → Mirrors s := by
  intro h
  obtain ⟨server, hserver, hmirrors⟩ := h _ _ _ run_unnamedBuy (by
    intro σ hσ
    simp only [submissions, unnamedBuy, submission?, List.filterMap_cons, List.filterMap_nil,
      List.mem_cons, List.not_mem_nil, or_false] at hσ
    rcases hσ with rfl | rfl
    · exact ⟨⟨100, rfl⟩, by decide⟩
    · exact ⟨⟨100, rfl⟩, by decide⟩)
  obtain rfl := Option.some.inj hserver
  obtain ⟨id, hid, hrests⟩ := (hmirrors.resting 1).mp rfl
  obtain rfl : id = 1 := UInt64.toNat_inj.mp (by exact_mod_cast hid)
  revert hrests
  decide

end FlowManager.System
