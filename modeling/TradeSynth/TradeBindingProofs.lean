import TradeSynth.TradeCapacityProofs
import TradeSynth.TradeDispatchProofs
import TradeSynth.TradeRoutingProofs

/-!
# Handlers and slots — pointers into an array that closes up

Each accepted client is served by a thread of `handle_client` that keeps the address of
the client's slot. A departure closes the array up, and the addresses stay.

* `bound_of_clear` — while every departure moves no slot that another handler points to,
  each handler that has not left finds its own client in its slot.
* `bound_iff_clear` — a departure that does move one hands that handler the client
  behind its own.
-/

namespace TradeBinding

open CheckedMemory FixedCodec TradeTypes TradeRegistry TradeRun TradeHandlers TradeBroadcast
  TradeCapacity TradeDispatch TradeRouting Transition

variable {config : ServerConfig}

-- ── One message of one handler ───────────────────────────────────────────────

/-- The switch of `handle_client`; what the functions return is not looked at. -/
def clientSwitch (context : ServerContext config) (msg : Message) (outside : Outside) :
    Checked (ServerContext config × List Syscall) :=
  match msg.type with
  | .known .orderNew | .known .orderModify | .known .orderCancel => do
      let result ← processOrder context msg.order outside.now₁ outside.now₂ (outside.send 0)
      pure result.2
  | .known .marketData => do
      let result ← broadcastMarketData context msg.marketData outside.now₁ outside.send
      pure result.2
  | .known .tradeExec => do
      let result ← processTradeExecution context msg.trade outside.now₁ (outside.send 0)
        (outside.send 1)
      pure result.2
  | _ => pure (context, [])

/-- The record of a client after one more message. -/
def counted (c : ClientConnection) (now : Int64) : ClientConnection :=
  { c with messagesReceived := c.messagesReceived + 1, lastHeartbeat := now }

/-- The part of `handle_client` behind a successful decode: count the message in the slot
    that the pointer designates, and dispatch it. -/
def handleReceived (context : ServerContext config) (j : Nat) (msg : Message) (now : Int64)
    (outside : Outside) : Checked (ServerContext config × List Syscall) := do
  let client ← context.clients.read j
  let clients ← context.clients.write j (counted client now)
  clientSwitch { context with clients := clients } msg outside

/-- Two contexts with one registry. -/
def SameRegistry (context context' : ServerContext config) : Prop :=
  context'.clients = context.clients ∧ context'.clientCount = context.clientCount

theorem processOrder_registry {context context' : ServerContext config} {order : Order}
    {now₁ now₂ : Int64} {send : List UInt8 → Int} {code : Int} {calls : List Syscall}
    (h : processOrder context order now₁ now₂ send = .ok (code, context', calls)) :
    SameRegistry context context' := by
  rw [processOrder] at h
  split at h
  · cases h
    exact ⟨rfl, rfl⟩
  split at h
  · cases h
    exact ⟨rfl, rfl⟩
  obtain ⟨clientSocket, -, h⟩ := bind_eq_ok.mp h
  obtain ⟨sent, -, h⟩ := bind_eq_ok.mp h
  cases h
  exact ⟨rfl, rfl⟩

theorem broadcastMarketData_registry {context context' : ServerContext config}
    {marketData : MarketData} {now : Int64} {send : Nat → List UInt8 → Int} {code : Int}
    {calls : List Syscall}
    (h : broadcastMarketData context marketData now send = .ok (code, context', calls)) :
    SameRegistry context context' := by
  rw [broadcastMarketData] at h
  obtain ⟨sent, -, h⟩ := bind_eq_ok.mp h
  cases h
  exact ⟨rfl, rfl⟩

theorem processTradeExecution_registry {context context' : ServerContext config}
    {trade : TradeExecution} {now : Int64} {sendBuyer sendSeller : List UInt8 → Int}
    {code : Int} {calls : List Syscall}
    (h : processTradeExecution context trade now sendBuyer sendSeller =
      .ok (code, context', calls)) : SameRegistry context context' := by
  rw [processTradeExecution] at h
  obtain ⟨buyer, -, h⟩ := bind_eq_ok.mp h
  obtain ⟨seller, -, h⟩ := bind_eq_ok.mp h
  obtain ⟨buyerCalls, -, h⟩ := bind_eq_ok.mp h
  obtain ⟨sellerCalls, -, h⟩ := bind_eq_ok.mp h
  cases h
  exact ⟨rfl, rfl⟩

/-- Whatever message is dispatched, the registry stays as it is. -/
theorem clientSwitch_registry {context context' : ServerContext config} {msg : Message}
    {outside : Outside} {calls : List Syscall}
    (h : clientSwitch context msg outside = .ok (context', calls)) :
    SameRegistry context context' := by
  rw [clientSwitch] at h
  split at h
  case h_4 =>
    obtain ⟨⟨code, result⟩, hresult, h⟩ := bind_eq_ok.mp h
    cases h
    exact broadcastMarketData_registry hresult
  case h_5 =>
    obtain ⟨⟨code, result⟩, hresult, h⟩ := bind_eq_ok.mp h
    cases h
    exact processTradeExecution_registry hresult
  case h_6 =>
    cases h
    exact ⟨rfl, rfl⟩
  all_goals
    obtain ⟨⟨code, result⟩, hresult, h⟩ := bind_eq_ok.mp h
    cases h
    exact processOrder_registry hresult

/-- A message moves the counters of one slot, and nothing else in the registry. -/
theorem handleReceived_slot {context context' : ServerContext config} {j : Nat}
    {msg : Message} {now : Int64} {outside : Outside} {calls : List Syscall}
    (h : handleReceived context j msg now outside = .ok (context', calls)) :
    ∃ c, context.clients.cells[j]? = some c ∧
      context'.clients.cells = context.clients.cells.set j (counted c now) ∧
      context'.clientCount = context.clientCount := by
  rw [handleReceived] at h
  obtain ⟨c, hread, h⟩ := bind_eq_ok.mp h
  obtain ⟨clients, hwrite, h⟩ := bind_eq_ok.mp h
  obtain ⟨hclients, hcount⟩ := clientSwitch_registry h
  refine ⟨c, Block.read_eq_ok.mp hread, ?_, hcount⟩
  rw [hclients]
  rw [Block.write] at hwrite
  split at hwrite
  · cases hwrite
    rfl
  · cases hwrite

-- ── The threads ──────────────────────────────────────────────────────────────

/-- The registry, the slots whose handlers have not disconnected, and what each handler
    has put into the record of its own client. -/
structure Threads (config : ServerConfig) where
  context : ServerContext config
  live    : Finset Nat
  own     : Nat → ClientConnection

/-- What a handler does next: it takes a message that decodes, or it disconnects. -/
inductive Event where
  | receive (k : Nat) (msg : Message) (now : Int64) (outside : Outside)
  | leave (k : Nat)

inductive Step (s : Threads config) : Event → Threads config → Prop where
  | receive {context' : ServerContext config} {k : Nat} {msg : Message} {now : Int64}
      {outside : Outside} {calls : List Syscall} (hlive : k ∈ s.live)
      (hexec : handleReceived s.context k msg now outside = .ok (context', calls)) :
      Step s (.receive k msg now outside)
        ⟨context', s.live, Function.update s.own k (counted (s.own k) now)⟩
  | leave {context' : ServerContext config} {k : Nat} {calls : List Syscall}
      (hlive : k ∈ s.live)
      (hexec : disconnectClient s.context (.slot k) = .ok (context', calls)) :
      Step s (.leave k) ⟨context', s.live.erase k, s.own⟩

/-- Every client has been accepted, is served by the handler of its slot, and has an id
    of its own; nobody has left. -/
structure Accepted (s : Threads config) : Prop where
  bounded : s.context.Bounded
  ids     : (s.context.connected.map ClientConnection.idString).Nodup
  live    : ∀ k ∈ s.live, k < s.context.clientCount
  own     : ∀ k ∈ s.live, s.context.clients.cells[k]? = some (s.own k)

/-- The slot of every handler that has not disconnected holds the socket, the id and the
    counters of its own client. -/
def Bound (s : Threads config) : Prop :=
  ∀ k ∈ s.live, ∃ c, s.context.clients.cells[k]? = some c ∧
    c.socket = (s.own k).socket ∧ c.idString = (s.own k).idString ∧
    c.messagesSent = (s.own k).messagesSent ∧ c.messagesReceived = (s.own k).messagesReceived

/-- A departure closes up a part of the array that no other handler points into. -/
def Clear (s : Threads config) : Event → Prop
  | .receive .. => True
  | .leave k => ∀ target i, s.context.clients.cells[k]? = some target →
      FirstMatch s.context target i →
      ∀ j ∈ s.live, j ≠ k → j < i ∨ s.context.clientCount ≤ j + 1

-- ── What a departure moves ───────────────────────────────────────────────────

/-- A departure removes the first client with the id found behind the pointer, or
    changes nothing. -/
theorem disconnectClient_ref {context context' : ServerContext config}
    (hb : context.Bounded) {client : ClientRef} {calls : List Syscall}
    (h : disconnectClient context client = .ok (context', calls)) :
    ∃ target, context.deref client = .ok target ∧
      ((∃ i, FirstMatch context target i ∧ Removed context context' i) ∨
        (context' = context ∧ ∀ c ∈ context.connected, c.idString ≠ target.idString)) := by
  rw [disconnectClient_eq] at h
  obtain ⟨target, htarget, h⟩ := bind_eq_ok.mp h
  obtain ⟨removed, hremove, h⟩ := bind_eq_ok.mp h
  obtain ⟨c, -, h⟩ := bind_eq_ok.mp h
  cases h
  refine ⟨target, htarget, ?_⟩
  rcases removeClient_cases hb target with
    ⟨i, context₁, hremove₁, hmatch, hremoved⟩ | ⟨hremove₁, hnone⟩
  · rw [hremove] at hremove₁
    cases hremove₁
    exact Or.inl ⟨i, hmatch, hremoved⟩
  · rw [hremove] at hremove₁
    cases hremove₁
    exact Or.inr ⟨rfl, hnone⟩

/-- A departure through a slot, whose record stands in the array. -/
theorem disconnectClient_cases {context context' : ServerContext config}
    (hb : context.Bounded) {k : Nat} {calls : List Syscall}
    (h : disconnectClient context (.slot k) = .ok (context', calls)) :
    ∃ target, context.clients.cells[k]? = some target ∧
      ((∃ i, FirstMatch context target i ∧ Removed context context' i) ∨
        (context' = context ∧ ∀ c ∈ context.connected, c.idString ≠ target.idString)) := by
  obtain ⟨target, htarget, hcases⟩ := disconnectClient_ref hb h
  exact ⟨target, Block.read_eq_ok.mp htarget, hcases⟩

/-- What every run keeps: the count is within the array, and the ids are distinct. -/
structure Tidy (s : Threads config) : Prop where
  bounded : s.context.Bounded
  ids     : (s.context.connected.map ClientConnection.idString).Nodup

/-- The handlers that have not left find their own records. -/
def Matched (s : Threads config) : Prop :=
  ∀ k ∈ s.live, s.context.clients.cells[k]? = some (s.own k)

theorem Matched.bound {s : Threads config} (h : Matched s) : Bound s :=
  fun k hk => ⟨s.own k, h k hk, rfl, rfl, rfl, rfl⟩

/-- A message keeps the ids. -/
theorem idStrings_receive {context context' : ServerContext config} {j : Nat}
    {msg : Message} {now : Int64} {outside : Outside} {calls : List Syscall}
    (h : handleReceived context j msg now outside = .ok (context', calls)) :
    context'.connected.map ClientConnection.idString =
      context.connected.map ClientConnection.idString := by
  obtain ⟨c, hc, hcells, hcount⟩ := handleReceived_slot h
  have hmap : context'.clients.cells.map ClientConnection.idString =
      context.clients.cells.map ClientConnection.idString := by
    rw [hcells]
    exact map_set_same hc rfl
  rw [ServerContext.connected, ServerContext.connected, List.map_take, List.map_take, hmap,
    hcount]

theorem Tidy.step {s s' : Threads config} {e : Event} (h : Tidy s) (hstep : Step s e s') :
    Tidy s' := by
  cases hstep with
  | receive hlive hexec =>
      obtain ⟨c, -, -, hcount⟩ := handleReceived_slot hexec
      refine ⟨?_, ?_⟩
      · show _ ≤ _
        rw [hcount]
        exact h.bounded
      · rw [idStrings_receive hexec]
        exact h.ids
  | leave hlive hexec =>
      obtain ⟨target, -, ⟨i, -, hremoved⟩ | ⟨rfl, -⟩⟩ := disconnectClient_cases h.bounded hexec
      · refine ⟨hremoved.bounded h.bounded, ?_⟩
        rw [hremoved.connected, ← List.eraseIdx_map]
        exact h.ids.sublist (List.eraseIdx_sublist _ _)
      · exact ⟨h.bounded, h.ids⟩

/-- A clear step leaves the others with their own records. -/
theorem Matched.step {s s' : Threads config} {e : Event} (ht : Tidy s) (h : Matched s)
    (hclear : Clear s e) (hstep : Step s e s') : Matched s' := by
  cases hstep with
  | @receive context' k msg now outside calls hlive hexec =>
      obtain ⟨c, hc, hcells, -⟩ := handleReceived_slot hexec
      have hown : s.own k = c := by
        rw [h k hlive] at hc
        exact Option.some.inj hc
      intro j hj
      show context'.clients.cells[j]? = some (Function.update s.own k _ j)
      rw [hcells]
      by_cases hjk : j = k
      · rw [hjk, Function.update_self, hown]
        exact List.getElem?_set_self (List.getElem?_eq_some_iff.mp hc).1
      · rw [Function.update_of_ne hjk, List.getElem?_set_ne (Ne.symm hjk)]
        exact h j hj
  | @leave context' k calls hlive hexec =>
      obtain ⟨target, htarget, ⟨i, hmatch, hremoved⟩ | ⟨rfl, -⟩⟩ :=
        disconnectClient_cases ht.bounded hexec
      · intro j hj
        obtain ⟨hjk, hj⟩ := Finset.mem_erase.mp hj
        have hout := hclear target i htarget hmatch j hj hjk
        show context'.clients.cells[j]? = some (s.own j)
        rw [hremoved.cell j, if_neg (by omega)]
        exact h j hj
      · exact fun j hj => h j (Finset.mem_of_mem_erase hj)

/-- A departure that is not clear hands some handler the client behind its own. -/
theorem unbound_of_unclear {s s' : Threads config} {e : Event} (ht : Tidy s)
    (h : Matched s) (hstep : Step s e s') (hunclear : ¬ Clear s e) : ¬ Bound s' := by
  cases hstep with
  | receive hlive hexec => exact absurd trivial hunclear
  | @leave context' k calls hlive hexec =>
      rw [Clear] at hunclear
      push Not at hunclear
      obtain ⟨target, i, htarget, hmatch, j, hj, hjk, hle, hlt⟩ := hunclear
      intro hbound
      obtain ⟨c, hc, -, hid, -⟩ := hbound j (Finset.mem_erase.mpr ⟨hjk, hj⟩)
      have hremoved : Removed s.context context' i := by
        obtain ⟨target', htarget', hcases⟩ := disconnectClient_cases ht.bounded hexec
        rw [htarget] at htarget'
        cases htarget'
        rcases hcases with ⟨i', hmatch', hremoved⟩ | ⟨-, hnone⟩
        · rw [hmatch.unique hmatch']
          exact hremoved
        · obtain ⟨d, hd, hsame⟩ := hmatch.sameId
          exact absurd hsame (hnone d (List.mem_of_getElem? hd))
      -- slot `j` now holds the client of slot `j + 1`
      have hnext : s.context.connected[j + 1]? = some c := by
        rw [getElem?_connected (by omega)]
        rw [hremoved.cell j, if_pos ⟨hle, hlt⟩] at hc
        exact hc
      have hmine : s.context.connected[j]? = some (s.own j) := by
        rw [getElem?_connected (by omega)]
        exact h j hj
      have heq := slot_unique ht.ids hnext hmine hid
      omega

-- ── Runs ─────────────────────────────────────────────────────────────────────

theorem matched_of_clear {start s : Threads config} (h : Accepted start)
    (hrun : Runs Step Clear start s) : Tidy s ∧ Matched s := by
  refine hrun.invariant (I := fun s => Tidy s ∧ Matched s) ?_ ⟨⟨h.bounded, h.ids⟩, h.own⟩
  rintro s e s' ⟨ht, hs⟩ hclear hstep
  exact ⟨ht.step hstep, hs.step ht hclear hstep⟩

/-- **Whose slot it is.** However the handlers of accepted clients take turns: after a
    run of clear steps every handler that has not left is bound to its own client, and
    the next step keeps it so exactly when it is clear too. -/
theorem bound_iff_clear {start s : Threads config} (h : Accepted start)
    (hrun : Runs Step Clear start s) :
    Bound s ∧ ∀ e s', Step s e s' → (Bound s' ↔ Clear s e) := by
  obtain ⟨ht, hs⟩ := matched_of_clear h hrun
  refine ⟨hs.bound, ?_⟩
  intro e s' hstep
  constructor
  · intro hbound
    by_contra hunclear
    exact unbound_of_unclear ht hs hstep hunclear hbound
  · exact fun hclear => (hs.step ht hclear hstep).bound

/-- A registry that holds the given slots in front. -/
def hall (cells : List ClientConnection) (count : Nat) : ServerContext hundredSlots :=
  { ServerContext.fresh hundredSlots with
    clients := ⟨(cells ++ List.replicate 100 ClientConnection.empty).take 100, by
      rw [List.length_take, List.length_append, List.length_replicate]
      exact Nat.min_eq_left (Nat.le_add_left 100 _)⟩
    clientCount := count }

/-- A client with an id. -/
def guest (fd : Int) (port : UInt16) (id : Block UInt8 maxClientIdLength) :
    ClientConnection :=
  { ClientConnection.empty.connect fd (peer port) 0 0 with id := id }

def idB : Block UInt8 maxClientIdLength := ⟨66 :: List.replicate 31 0, rfl⟩

def idC : Block UInt8 maxClientIdLength := ⟨67 :: List.replicate 31 0, rfl⟩

def guestA : ClientConnection := guest 5 40001 idA

def guestB : ClientConnection := guest 6 40002 idB

def guestC : ClientConnection := guest 7 40003 idC

/-- What the handlers of three clients have put into their records. -/
def guests (k : Nat) : ClientConnection := [guestA, guestB, guestC].getD k guestA

theorem accepted_guests : Accepted ⟨hall [guestA, guestB, guestC] 3, {0, 1, 2}, guests⟩ where
  bounded := show 3 ≤ 100 by decide
  ids := by decide +kernel
  live := by decide
  own := by decide +kernel

/-- The last of three clients leaves, and the handlers of the others are left with theirs;
    the next departure may change that. -/
theorem bound_iff_clear_three :
    Bound ⟨hall [guestA, guestB, guestC] 2, {0, 1}, guests⟩ ∧
      ∀ e s', Step ⟨hall [guestA, guestB, guestC] 2, {0, 1}, guests⟩ e s' →
        (Bound s' ↔ Clear ⟨hall [guestA, guestB, guestC] 2, {0, 1}, guests⟩ e) := by
  have hleave : Step ⟨hall [guestA, guestB, guestC] 3, {0, 1, 2}, guests⟩ (.leave 2)
      ⟨hall [guestA, guestB, guestC] 2, {0, 1}, guests⟩ := .leave (by decide) rfl
  have hclear : Clear ⟨hall [guestA, guestB, guestC] 3, {0, 1, 2}, guests⟩ (.leave 2) := by
    intro target i htarget hmatch j hj hne
    obtain ⟨c, hc, hid⟩ := hmatch.sameId
    have hlast : i = 2 := slot_unique accepted_guests.ids hc htarget hid
    have hfront : ∀ j ∈ ({0, 1, 2} : Finset Nat), j ≠ 2 → j < 2 := by decide
    rw [hlast]
    exact Or.inl (hfront j hj hne)
  exact bound_iff_clear accepted_guests (Runs.one hclear hleave)

/-- A client has been accepted and named. -/
theorem reachable_one : Reachable joinsOnly ⟨hall [guestA] 1, insert 5 ∅⟩ := by
  have hfirst : Reachable joinsOnly ⟨hall [guest 5 40001 noId] 1, insert 5 ∅⟩ :=
    (reachable_fresh _).step (.exec (.accept (.accepted 5 (peer 40001) 0 0)) [.opened 5] trivial
      ⟨⟨by decide, by decide⟩, by decide⟩ rfl rfl)
  exact hfirst.step
    (.exec (.assignId 0 idA) [] (show 0 < 1 by decide) ⟨trivial, trivial⟩ rfl rfl)

/-- A second one has. -/
theorem reachable_two :
    Reachable joinsOnly ⟨hall [guestA, guestB] 2, insert 6 (insert 5 ∅)⟩ := by
  have hsecond : Reachable joinsOnly
      ⟨hall [guestA, guest 6 40002 noId] 2, insert 6 (insert 5 ∅)⟩ :=
    reachable_one.step (.exec (.accept (.accepted 6 (peer 40002) 0 0)) [.opened 6] trivial
      ⟨⟨by decide, by decide⟩, by decide⟩ rfl rfl)
  exact hsecond.step
    (.exec (.assignId 1 idB) [] (show 1 < 2 by decide) ⟨trivial, trivial⟩ rfl rfl)

/-- And a third. -/
theorem reachable_three :
    Reachable joinsOnly ⟨hall [guestA, guestB, guestC] 3, insert 7 (insert 6 (insert 5 ∅))⟩ := by
  have hthird : Reachable joinsOnly
      ⟨hall [guestA, guestB, guest 7 40003 noId] 3, insert 7 (insert 6 (insert 5 ∅))⟩ :=
    reachable_two.step (.exec (.accept (.accepted 7 (peer 40003) 0 0)) [.opened 7] trivial
      ⟨⟨by decide, by decide⟩, by decide⟩ rfl rfl)
  exact hthird.step (.exec (.assignId 2 idC) [] (show 2 < 3 by decide) ⟨trivial, trivial⟩ rfl rfl)

/-- The first of three clients leaves, and the handler of the second finds the third in
    its slot. -/
theorem second_handler_rebound :
    ¬ ∀ (config : ServerConfig) (start s : Threads config) (owned : Finset Int),
        Reachable joinsOnly ⟨start.context, owned⟩ → Accepted start →
        Runs Step anyStep start s → Bound s := by
  intro hevery
  have hbound := hevery hundredSlots _ ⟨hall [guestB, guestC, guestC] 2, {1, 2}, guests⟩ _
    reachable_three accepted_guests (Runs.one (a := .leave 0) trivial (.leave (by decide) rfl))
  obtain ⟨c, hc, hsocket, -⟩ := hbound 1 (by decide)
  cases hc
  exact absurd hsocket (by decide)

end TradeBinding
