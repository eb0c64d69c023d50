import FlowManager.Book.Traceless
import FlowManager.System.Accounts

/-!
# The broker and the book in step

`Synced` is the invariant of the broker and the server together: what rests in the book is tracked
by the broker with details that agree, ids are given out once, and the accounts balance. It does
not say that what the broker tracks rests: that is `Mirrored`, which a lost reply to a cancel
breaks.

`Synced.submitted` is the step in which `submit_order` replays the trades of its reply,
`Synced.rejected` the one in which it gives up an order of which the book keeps no trace.
-/

namespace FlowManager.System

open FlowManager.Lib FlowManager.Book FlowManager.Broker FlowManager.Server

/-! ## Details and orders -/

/-- The details that the broker stores agree with an order of the book. -/
structure Agrees (order : OrderDetails) (o : Order) : Prop where
  side : o.side = if order.sideIsBuy then .Buy else .Sell
  price : ∃ p, order.price = some p ∧ pyInt p = .ok (o.price.toNat : ℤ)
  quantity : order.quantity = o.initialQuantity.toNat
  filled : order.filledQuantity + o.remainingQuantity.toNat = o.initialQuantity.toNat

section agrees

variable {order : OrderDetails} {o o' : Order}

/-- Filling both by the same quantity keeps the agreement. -/
theorem Agrees.fill (h : Agrees order o) (hterms : o'.toOrderTerms = o.toOrderTerms) {q : ℕ}
    (hrem : o'.remainingQuantity.toNat + q = o.remainingQuantity.toNat) (status : Status) :
    Agrees { order with filledQuantity := order.filledQuantity + q, status := status } o' := by
  have hfilled := h.filled
  refine ⟨?_, ?_, ?_, ?_⟩
  · rw [hterms]
    exact h.side
  · rw [hterms]
    exact h.price
  · rw [hterms]
    exact h.quantity
  · rw [hterms]
    show order.filledQuantity + q + _ = _
    omega

/-- The status does not count for the agreement. -/
theorem Agrees.setStatus (h : Agrees order o) (status : Status) :
    Agrees { order with status := status } o :=
  ⟨h.side, h.price, h.quantity, h.filled⟩

/-- The loop fills the details by what the trades move. -/
theorem Agrees.filledBy (h : Agrees order o) (hterms : o'.toOrderTerms = o.toOrderTerms)
    {ts : Trades} {id : OrderId}
    (hrem : o'.remainingQuantity.toNat + traded ts id = o.remainingQuantity.toNat) :
    Agrees (filledBy order (ownFills id.toNat (fillInfos ts))) o' := by
  unfold Broker.filledBy
  split_ifs with hown
  · rw [ownFills_eq_nil_iff, totalFilled_ownFills_fillInfos] at hown
    have hsame := h.fill hterms hrem order.status
    rwa [hown, add_zero] at hsame
  · rw [totalFilled_ownFills_fillInfos]
    exact h.fill hterms hrem .WORKING

/-- What a fill leaves of the order is what it leaves of the details. -/
theorem Agrees.add_lt_iff (h : Agrees order o) {q r : ℕ}
    (hrem : r + q = o.remainingQuantity.toNat) :
    order.filledQuantity + q < order.quantity ↔ r ≠ 0 := by
  have hfilled := h.filled
  have hquantity := h.quantity
  omega

/-- What is filled further is within the quantity. -/
theorem Agrees.add_le (h : Agrees order o) {q r : ℕ}
    (hrem : r + q = o.remainingQuantity.toNat) :
    order.filledQuantity + q ≤ order.quantity := by
  have hfilled := h.filled
  have hquantity := h.quantity
  omega

end agrees

/-! ## The invariant -/

/-- Ids are given out once, and trades name ids that were given out. -/
structure Issued (server : ServerState) (counter : ℤ) : Prop where
  le : ∀ k ∈ server.bookings, (k.terms.orderId.toNat : ℤ) ≤ counter
  distinct : (server.bookings.map (·.terms.orderId)).Nodup
  named : ∀ t ∈ tapeOf server, ∀ id, t.Names id → ∃ k ∈ server.bookings, k.terms.orderId = id

/-- The broker is connected to a server in order, which has had the ids up to the counter. -/
structure Connected (s : BrokerAndServer) (server : ServerState) : Prop where
  connected : s.orderBook = some server
  counter : 0 ≤ s.brokerOrderIdCounter
  consistent : Invariant server.store
  issued : Issued server s.brokerOrderIdCounter
  booked : ∀ id, server.store.resting? id ≠ none → ∃ k ∈ server.bookings, k.terms.orderId = id

/-- And no call holds the lock of the broker. -/
structure InService (s : BrokerAndServer) (server : ServerState) : Prop
    extends Connected s server where
  free : s.lockHeld = false

/-- The broker and the book are in step. -/
structure Synced (subs : List Submission) (s : BrokerAndServer) (server : ServerState) : Prop where
  connected : s.orderBook = some server
  free : s.lockHeld = false
  counter : 0 ≤ s.brokerOrderIdCounter
  consistent : Invariant server.store
  allOpen : AllOpen server.store
  issued : Issued server s.brokerOrderIdCounter
  tracked : ∀ id o, server.store.resting? id = some o →
    ∃ clientOrderId order, s.Tracks id.toNat clientOrderId order ∧ Agrees order o
  accounts : Accounts subs (bookedIds server) (tapeOf server) s

/-- What the broker tracks rests in the book. -/
def Mirrored (s : BrokerAndServer) (server : ServerState) : Prop :=
  ∀ b clientOrderId, s.brokerToClientIdMap.lookup b = some clientOrderId →
    ∃ id : OrderId, (id.toNat : ℤ) = b ∧ server.store.resting? id ≠ none

/-- A new broker and a new server are in step. -/
theorem synced_init : Synced [] (.init (some .init)) .init where
  connected := rfl
  free := rfl
  counter := le_refl 0
  consistent := invariant_empty
  allOpen := by
    intro n hn
    cases hn
  issued := ⟨by simp [ServerState.init], by simp [ServerState.init], by simp [ServerState.init, tapeOf]⟩
  tracked := by
    intro id o ho
    simp [ServerState.init, Store.resting?, Store.empty] at ho
  accounts := {
    indexed := indexed_init _
    unknown := fun _ _ => ⟨rfl, rfl⟩
    tracked := by simp [CppOrderBookBroker.init]
    balanced := fun _ => rfl
    stages := by simp }

/-- A new broker mirrors a new server. -/
theorem mirrored_init : Mirrored (.init (some .init)) .init := by
  intro b clientOrderId hb
  simp [CppOrderBookBroker.init] at hb

section ids

variable {server : ServerState} {clientOrderId : String} {id : OrderId}

/-- The ids booked for a client. -/
theorem mem_bookedIds : id ∈ bookedIds server clientOrderId ↔
    ∃ k ∈ server.bookings, k.clientOrderId = clientOrderId ∧ k.terms.orderId = id := by
  unfold bookedIds
  rw [List.mem_map]
  constructor
  · rintro ⟨k, hk, rfl⟩
    rw [List.mem_filter] at hk
    exact ⟨k, hk.1, by simpa using hk.2, rfl⟩
  · rintro ⟨k, hk, hclient, rfl⟩
    exact ⟨k, List.mem_filter.mpr ⟨hk, by simpa using hclient⟩, rfl⟩

/-- An id is booked for one client id. -/
theorem Issued.client_eq {counter : ℤ} (h : Issued server counter) {clientOrderId' : String}
    (hid : id ∈ bookedIds server clientOrderId) (hid' : id ∈ bookedIds server clientOrderId') :
    clientOrderId = clientOrderId' := by
  obtain ⟨k, hk, rfl, rfl⟩ := mem_bookedIds.mp hid
  obtain ⟨k', hk', rfl, hsame⟩ := mem_bookedIds.mp hid'
  rw [List.inj_on_of_nodup_map h.distinct hk hk' hsame.symm]

/-- What is booked has an id that has been given out. -/
theorem Issued.le_of_booked {counter : ℤ} (h : Issued server counter)
    (hid : id ∈ bookedIds server clientOrderId) : (id.toNat : ℤ) ≤ counter := by
  obtain ⟨k, hk, -, rfl⟩ := mem_bookedIds.mp hid
  exact h.le k hk

/-- One more order, with the next id. -/
theorem Issued.append {counter : ℤ} (h : Issued server counter) {o : Order} {ts : Trades}
    {store' : Store} (hid : (o.orderId.toNat : ℤ) = counter + 1)
    (hnamed : ∀ t ∈ ts, ∀ id, t.Names id → id = o.orderId ∨
      ∃ k ∈ server.bookings, k.terms.orderId = id) :
    Issued ⟨store', server.bookings ++ [⟨clientOrderId, o.toOrderTerms, ts⟩]⟩ (counter + 1) := by
  refine ⟨?_, ?_, ?_⟩
  · intro k hk
    rcases List.mem_append.mp hk with hk | hk
    · have := h.le k hk
      omega
    · rw [List.mem_singleton.mp hk]
      exact hid.le
  · show (List.map _ (server.bookings ++ [_])).Nodup
    rw [List.map_append, List.nodup_append]
    refine ⟨h.distinct, List.nodup_singleton _, ?_⟩
    intro id' hid' id'' hid''
    obtain ⟨k, hk, rfl⟩ := List.mem_map.mp hid'
    rw [List.map_singleton, List.mem_singleton] at hid''
    subst hid''
    have hle := h.le k hk
    intro heq
    rw [heq] at hle
    have : (o.orderId.toNat : ℤ) ≤ counter := hle
    omega
  · intro t ht id hname
    rw [tapeOf_append server.store] at ht
    rcases List.mem_append.mp ht with ht | ht
    · obtain ⟨k, hk, hkid⟩ := h.named t ht id hname
      exact ⟨k, List.mem_append_left _ hk, hkid⟩
    · rcases hnamed t ht id hname with rfl | ⟨k, hk, hkid⟩
      · exact ⟨_, List.mem_append_right _ (List.mem_singleton_self _), rfl⟩
      · exact ⟨k, List.mem_append_left _ hk, hkid⟩

end ids

namespace Synced

variable {subs : List Submission} {s : BrokerAndServer} {server : ServerState} {b : ℤ}
  {clientOrderId : String} {id : OrderId}

/-- A tracked order has been booked, under its broker id. -/
theorem booked (h : Synced subs s server)
    (hb : s.brokerToClientIdMap.lookup b = some clientOrderId) :
    ∃ id : OrderId, (id.toNat : ℤ) = b ∧ id ∈ bookedIds server clientOrderId := by
  obtain ⟨id, hid, hids⟩ := h.accounts.tracked b clientOrderId hb
  exact ⟨id, hid, by rw [hids]; exact List.mem_singleton_self id⟩

/-- A booked order that rests is tracked for the client it was booked for. -/
theorem tracked_of_booked (h : Synced subs s server) (hid : id ∈ bookedIds server clientOrderId)
    {o : Order} (ho : server.store.resting? id = some o) :
    ∃ order, s.Tracks id.toNat clientOrderId order ∧ Agrees order o := by
  obtain ⟨clientOrderId', order, htracks, hagrees⟩ := h.tracked id o ho
  obtain ⟨id', hid', hbooked⟩ := h.booked htracks.client
  obtain rfl : id' = id := UInt64.toNat_inj.mp (by exact_mod_cast hid')
  obtain rfl := h.issued.client_eq hid hbooked
  exact ⟨order, htracks, hagrees⟩

/-- An order that rests has been booked. -/
theorem booked_of_resting (h : Synced subs s server) (hid : server.store.resting? id ≠ none) :
    ∃ k ∈ server.bookings, k.terms.orderId = id := by
  obtain ⟨o, ho⟩ := Option.ne_none_iff_exists'.mp hid
  obtain ⟨clientOrderId, order, htracks, -⟩ := h.tracked id o ho
  obtain ⟨id', hid', hbooked⟩ := h.booked htracks.client
  obtain rfl : id' = id := UInt64.toNat_inj.mp (by exact_mod_cast hid')
  obtain ⟨k, hk, -, hkid⟩ := mem_bookedIds.mp hbooked
  exact ⟨k, hk, hkid⟩

/-- A client's order that the broker does not track does not rest. -/
theorem not_rests_of_untracked (h : Synced subs s server)
    (hnone : ∀ b, s.brokerToClientIdMap.lookup b ≠ some clientOrderId) :
    ¬RestsInBook server clientOrderId := by
  rintro ⟨id, hid, hrests⟩
  obtain ⟨o, ho⟩ := Option.ne_none_iff_exists'.mp hrests
  obtain ⟨order, htracks, -⟩ := h.tracked_of_booked hid ho
  exact hnone _ htracks.client

/-- In step, broker and server are in service. -/
theorem inService (h : Synced subs s server) : InService s server :=
  ⟨⟨h.connected, h.counter, h.consistent, h.issued, fun _ hid => h.booked_of_resting hid⟩, h.free⟩

end Synced

/-! ### The next id -/

section next

variable {subs : List Submission} {s : BrokerAndServer} {server : ServerState} {id : OrderId}

/-- The next id has been booked for nobody. -/
theorem Connected.next_not_booked (h : Connected s server)
    (hid : (id.toNat : ℤ) = s.brokerOrderIdCounter + 1) (clientOrderId : String) :
    id ∉ bookedIds server clientOrderId := by
  intro hbooked
  have := h.issued.le_of_booked hbooked
  omega

/-- The next id does not rest. -/
theorem Connected.next_not_resting (h : Connected s server)
    (hid : (id.toNat : ℤ) = s.brokerOrderIdCounter + 1) : server.store.resting? id = none := by
  by_contra hrests
  obtain ⟨k, hk, rfl⟩ := h.booked id hrests
  have := h.issued.le k hk
  omega

/-- The next id has not traded. -/
theorem Connected.next_not_named (h : Connected s server)
    (hid : (id.toNat : ℤ) = s.brokerOrderIdCounter + 1) {t : Trade} (ht : t ∈ tapeOf server) :
    ¬t.Names id := by
  intro hname
  obtain ⟨k, hk, rfl⟩ := h.issued.named t ht id hname
  have := h.issued.le k hk
  omega

/-- Nothing has been traded of the next id. -/
theorem Connected.next_not_traded (h : Connected s server)
    (hid : (id.toNat : ℤ) = s.brokerOrderIdCounter + 1) : traded (tapeOf server) id = 0 :=
  traded_eq_zero_of_not_named fun _ ht hname => h.next_not_named hid ht hname

/-- Nothing is tracked under the next id. -/
theorem Synced.next_untracked (h : Synced subs s server)
    (hid : (id.toNat : ℤ) = s.brokerOrderIdCounter + 1) :
    s.brokerToClientIdMap.lookup (s.brokerOrderIdCounter + 1) = none := by
  rw [Option.eq_none_iff_forall_ne_some]
  intro clientOrderId hb
  obtain ⟨id', hid', hbooked⟩ := h.booked hb
  obtain rfl : id' = id := UInt64.toNat_inj.mp (by exact_mod_cast hid'.trans hid.symm)
  exact h.inService.next_not_booked hid clientOrderId hbooked

end next

end FlowManager.System
