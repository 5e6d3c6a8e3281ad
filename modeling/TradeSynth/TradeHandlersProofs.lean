import TradeSynth.TradeRunProofs
import TradeSynth.TradeWireProofs

/-!
# The handlers — responses, lookups, orders and broadcasts

The functions of `server_handlers.c` that send. What `send` returns is given from
outside, as a function of the bytes it is asked for; in the broadcast loop it may
differ from slot to slot.

A response goes through the encoder. For a message that carries a frame the call is one
`send` of the bytes of that frame; a message of any other type is refused before
anything is sent (`sendResponseMessage_refused`). The response of `process_order` is of
type `MSG_ORDER_STATUS`, which the encoder's switch does not have, and so no order is
ever acknowledged (`order_never_acknowledged`).
-/

namespace TradeHandlers

open CheckedMemory FixedCodec TradeTypes TradeCodec TradeWire TradeRegistry TradeRun

variable {config : ServerConfig} {n : Nat}

-- ── The source functions ─────────────────────────────────────────────────────

def sendResponseMessage (clientSocket : Int) (response : Message)
    (send : List UInt8 → Int) : Checked (Int × List Syscall) := do
  let serialized ← serializeMessage response (Block.fill bufferSize 0) bufferSize
  if serialized.1 < 0 then pure (ErrorCode.serialization.code, [])
  else do
    let bytes ← serialized.2.readRange 0 serialized.1.toNat
    if send bytes ≠ serialized.1 then
      pure (ErrorCode.socketConnect.code, [.sent clientSocket bytes (send bytes)])
    else pure (ErrorCode.success.code, [.sent clientSocket bytes (send bytes)])

/-- The lookup tests the descriptor before it compares the ids. -/
def answersTo (clientId : List UInt8) (c : ClientConnection) : Bool :=
  decide (0 < c.socket) && c.idString == cString clientId

/-- The argument is the memory that `client_id` points to. -/
def findClientSocket (context : ServerContext config) (clientId : List UInt8) :
    Checked Int := do
  let found ← context.clients.findFrom (answersTo clientId) 0 maxClients
  match found with
  | some i => do
      let client ← context.clients.read i
      pure client.socket
  | none => pure (-1)

def getClientPosition (_ : ServerContext config) (_ _ : List UInt8) : UInt32 := 0

/-- The static object behind `get_market_data`, which is cleared and never written. -/
def dummyData : MarketData :=
  MarketData.codec.decode (List.replicate MarketData.codec.width 0)

def getMarketData (_ : ServerContext config) (_ : List UInt8) : Option MarketData :=
  some dummyData

/-- The memory that `order->client_id` points to. -/
def clientIdOf (order : Order) : List UInt8 := (Order.codec.encode order).drop 24

/-- The memory that `order->symbol` points to. -/
def symbolOf (order : Order) : List UInt8 := (Order.codec.encode order).drop 8

/-- The price of an order after the improvement for limit orders. -/
def improvedPrice (context : ServerContext config) (order : Order) : Price :=
  if order.type = .known .limit then
    match getMarketData context (symbolOf order) with
    | some marketData =>
        if order.side = .known .buy ∧
            priceToDouble order.price < priceToDouble marketData.ask then
          doubleToPrice (priceToDouble order.price + 1 / 100)
        else order.price
    | none => order.price
  else order.price

/-- The limit of a single order, and of a buyer's position. -/
def positionLimit : UInt32 := 1000000

def processOrder (context : ServerContext config) (order : Order) (now₁ now₂ : Int64)
    (send : List UInt8 → Int) : Checked (Int × ServerContext config × List Syscall) :=
  if order.quantity = 0 ∨ positionLimit < order.quantity then
    .ok (ErrorCode.invalidOrder.code, context, [])
  else if order.side = .known .buy ∧
      positionLimit <
        getClientPosition context (clientIdOf order) (symbolOf order) + order.quantity then
    .ok (ErrorCode.invalidOrder.code, context, [])
  else do
    let processedOrder : Order :=
      { order with
        price := improvedPrice context order
        status := .known .new
        modificationTime := now₁ }
    let response : Message :=
      { type := .known .orderStatus
        sequenceNum := context.sequenceNum
        timestamp := now₂
        data := unionOf Order.codec processedOrder (by decide) }
    let context := { context with sequenceNum := context.sequenceNum + 1 }
    let clientSocket ← findClientSocket context (clientIdOf processedOrder)
    let sent ← sendResponseMessage clientSocket response send
    pure (sent.1, context, sent.2)

/-- The send that is made when the descriptor is positive. -/
def notify (clientSocket : Int) (msg : Message) (send : List UInt8 → Int) :
    Checked (List Syscall) :=
  if 0 < clientSocket then do
    let sent ← sendResponseMessage clientSocket msg send
    pure sent.2
  else .ok []

/-- The loop of `broadcast_market_data`. -/
def broadcastLoop (clients : Block ClientConnection n) (msg : Message)
    (send : Nat → List UInt8 → Int) (i : Nat) : Nat → Checked (List Syscall)
  | 0 => .ok []
  | len + 1 => do
      let client ← clients.read i
      let calls ← notify client.socket msg (send i)
      let rest ← broadcastLoop clients msg send (i + 1) len
      pure (calls ++ rest)

/-- The message that a broadcast sends. -/
def marketDataMessage (context : ServerContext config) (marketData : MarketData)
    (now : Int64) : Message where
  type := .known .marketData
  sequenceNum := context.sequenceNum
  timestamp := now
  data := unionOf MarketData.codec marketData (by decide)

def broadcastMarketData (context : ServerContext config) (marketData : MarketData)
    (now : Int64) (send : Nat → List UInt8 → Int) :
    Checked (Int × ServerContext config × List Syscall) := do
  let msg := marketDataMessage context marketData now
  let context := { context with sequenceNum := context.sequenceNum + 1 }
  let calls ← broadcastLoop context.clients msg send 0 maxClients
  pure (ErrorCode.success.code, context, calls)

/-- The memory that `trade->buyer_id` points to. -/
def buyerIdOf (trade : TradeExecution) : List UInt8 :=
  (TradeExecution.codec.encode trade).drop 64

/-- The memory that `trade->seller_id` points to. -/
def sellerIdOf (trade : TradeExecution) : List UInt8 :=
  (TradeExecution.codec.encode trade).drop 96

def processTradeExecution (context : ServerContext config) (trade : TradeExecution)
    (now : Int64) (sendBuyer sendSeller : List UInt8 → Int) :
    Checked (Int × ServerContext config × List Syscall) := do
  let msg : Message :=
    { type := .known .tradeExec
      sequenceNum := context.sequenceNum
      timestamp := now
      data := unionOf TradeExecution.codec trade (by decide) }
  let context := { context with sequenceNum := context.sequenceNum + 1 }
  let buyerSocket ← findClientSocket context (buyerIdOf trade)
  let sellerSocket ← findClientSocket context (sellerIdOf trade)
  let buyerCalls ← notify buyerSocket msg sendBuyer
  let sellerCalls ← notify sellerSocket msg sendSeller
  pure (ErrorCode.success.code, context, buyerCalls ++ sellerCalls)

-- ── Responses ────────────────────────────────────────────────────────────────

/-- A sender that encodes a message into a cleared buffer reads back the bytes of its
    frame. -/
theorem serialize_readback {m : Message} {f : Frame} (hm : Carries m f) :
    ∃ out : Block UInt8 bufferSize,
      serializeMessage m (Block.fill bufferSize 0) bufferSize = .ok ((f.size : Int), out) ∧
      out.readRange 0 f.size = .ok f.bytes := by
  have hroom : f.size ≤ bufferSize := f.size_le
  obtain ⟨out, hser, hout⟩ :=
    serialize_carries hm (Block.fill bufferSize 0) hroom (Nat.le_refl bufferSize)
  refine ⟨out, hser, ?_⟩
  rw [out.readRange_eq (by omega), List.drop_zero, hout, List.take_left' f.length_bytes]

/-- A response that carries a frame is one `send` of its bytes. -/
theorem sendResponseMessage_frame {m : Message} {f : Frame} (hm : Carries m f) (fd : Int)
    (send : List UInt8 → Int) :
    sendResponseMessage fd m send =
      .ok (if send f.bytes ≠ (f.size : Int) then ErrorCode.socketConnect.code
          else ErrorCode.success.code, [.sent fd f.bytes (send f.bytes)]) := by
  obtain ⟨out, hser, hread⟩ := serialize_readback hm
  have hpos : ¬ (f.size : Int) < 0 := by omega
  rw [sendResponseMessage, hser, ok_bind]
  dsimp only
  rw [if_neg hpos, Int.toNat_natCast, hread, ok_bind]
  split <;> rfl

/-- A response of a type without a case in the encoder is refused, and nothing is
    sent. -/
theorem sendResponseMessage_refused {m : Message} (hm : payloadSize m.type = none) (fd : Int)
    (send : List UInt8 → Int) :
    sendResponseMessage fd m send = .ok (ErrorCode.serialization.code, []) := by
  rw [sendResponseMessage, serializeMessage_switch, hm]
  rfl

/-- A response never leaves the memory it works on. -/
theorem sendResponseMessage_inside (fd : Int) (m : Message) (send : List UInt8 → Int) :
    ∃ result, sendResponseMessage fd m send = .ok result := by
  cases hsize : payloadSize m.type with
  | none => exact ⟨_, sendResponseMessage_refused hsize fd send⟩
  | some size =>
      obtain ⟨f, hf, -⟩ := exists_carries hsize
      exact ⟨_, sendResponseMessage_frame hf fd send⟩

-- ── Orders ───────────────────────────────────────────────────────────────────

/-- What `process_order` can end with. -/
theorem processOrder_outcome {context context' : ServerContext config} {order : Order}
    {now₁ now₂ : Int64} {send : List UInt8 → Int} {code : Int} {calls : List Syscall}
    (h : processOrder context order now₁ now₂ send = .ok (code, context', calls)) :
    (code = ErrorCode.invalidOrder.code ∨ code = ErrorCode.serialization.code) ∧
      calls = [] := by
  rw [processOrder] at h
  split at h
  · cases h
    exact ⟨Or.inl rfl, rfl⟩
  split at h
  · cases h
    exact ⟨Or.inl rfl, rfl⟩
  dsimp only at h
  rw [bind_eq_ok] at h
  obtain ⟨clientSocket, -, h⟩ := h
  rw [sendResponseMessage_refused rfl, ok_bind] at h
  cases h
  exact ⟨Or.inr rfl, rfl⟩

/-- An order within the limits whose lookup stays inside ends in `ERROR_SERIALIZATION`,
    and has used up a sequence number. -/
theorem processOrder_admitted {context : ServerContext config} {order : Order}
    (hquantity : ¬ (order.quantity = 0 ∨ positionLimit < order.quantity))
    (hposition : ¬ (order.side = .known .buy ∧ positionLimit <
      getClientPosition context (clientIdOf order) (symbolOf order) + order.quantity))
    (hlookup : ∀ clientId, ∃ fd, findClientSocket
      { context with sequenceNum := context.sequenceNum + 1 } clientId = .ok fd)
    (now₁ now₂ : Int64) (send : List UInt8 → Int) :
    processOrder context order now₁ now₂ send =
      .ok (ErrorCode.serialization.code,
        { context with sequenceNum := context.sequenceNum + 1 }, []) := by
  rw [processOrder, if_neg hquantity, if_neg hposition]
  dsimp only
  obtain ⟨fd, hfd⟩ := hlookup (clientIdOf { order with
    price := improvedPrice context order, status := .known .new, modificationTime := now₁ })
  rw [hfd, ok_bind, sendResponseMessage_refused rfl, ok_bind, pure_eq_ok]

/-- The two orders agree in the members that an acknowledgement repeats. -/
def SameOrder (order order' : Order) : Prop :=
  order'.orderId = order.orderId ∧ order'.symbol = order.symbol ∧
    order'.clientId = order.clientId ∧ order'.side = order.side ∧
    order'.type = order.type ∧ order'.quantity = order.quantity

/-- Some connected client with a descriptor is registered under the id at `clientId`. -/
def Registered (context : ServerContext config) (clientId : List UInt8) (fd : Int) : Prop :=
  ∃ c ∈ context.connected, answersTo clientId c = true ∧ c.socket = fd

/-- An order is acknowledged: the result is `SUCCESS`, and the one call is a `send` to a
    client registered under the order's id, of bytes that decode to a status message for
    the order. -/
def Acknowledged (context : ServerContext config) (order : Order) (now₁ now₂ : Int64) :
    Prop :=
  ∃ context' fd bytes,
    processOrder context order now₁ now₂ (fun bytes => bytes.length) =
      .ok (ErrorCode.success.code, context', [.sent fd bytes bytes.length]) ∧
    Registered context (clientIdOf order) fd ∧
    ∀ prior, ∃ m, deserializeMessage (Block.ofList bytes) bytes.length prior =
        .ok (.success, m) ∧
      m.type = .known .orderStatus ∧ SameOrder order m.order

/-- **No order is acknowledged**, whatever the registry holds and whatever the order
    asks for. -/
theorem order_never_acknowledged (context : ServerContext config) (order : Order)
    (now₁ now₂ : Int64) : ¬ Acknowledged context order now₁ now₂ := by
  rintro ⟨context', fd, bytes, hresult, -, -⟩
  obtain ⟨-, hcalls⟩ := processOrder_outcome hresult
  exact nomatch hcalls

/-- A limit order of client `a` to buy 100 at a price of 1. -/
def sampleOrder : Order where
  orderId := 12345
  symbol := ⟨65 :: List.replicate 15 0, rfl⟩
  clientId := ⟨97 :: List.replicate 31 0, rfl⟩
  type := .known .limit
  side := .known .buy
  status := .known .new
  timeInForce := .known .day
  price := ⟨1, 0, Block.fill 4 0⟩
  quantity := 100
  filledQuantity := 0
  remainingQuantity := 100
  pad := Block.fill 4 0
  creationTime := 0
  modificationTime := 0
  expirationTime := 0

/-- Client `a` has joined on descriptor 5. -/
def registeredContext : ServerContext twoSlots :=
  { ServerContext.fresh twoSlots with
    clients := ⟨[{ ClientConnection.empty.connect 5 (peer 40001) 0 0 with
      id := ⟨97 :: List.replicate 31 0, rfl⟩ }, ClientConnection.empty], rfl⟩
    clientCount := 1 }

/-- The order of a registered client passes every check and ends in
    `ERROR_SERIALIZATION`. -/
theorem sample_order_unacknowledged :
    ¬ ∀ (config : ServerConfig) (context : ServerContext config) (order : Order)
        (now₁ now₂ : Int64), (∃ fd, Registered context (clientIdOf order) fd) →
        (∃ t, order.type = .known t) → (∃ side, order.side = .known side) →
        1 ≤ order.quantity → order.quantity ≤ 1000000 →
        getClientPosition context (clientIdOf order) (symbolOf order) + order.quantity
          ≤ positionLimit →
        Acknowledged context order now₁ now₂ := by
  intro hall
  have hregistered : ∃ fd, Registered registeredContext (clientIdOf sampleOrder) fd :=
    ⟨5, _, List.mem_cons_self, by decide +kernel, rfl⟩
  obtain ⟨context', fd, bytes, hresult, -, -⟩ :=
    hall twoSlots registeredContext sampleOrder 0 0 hregistered ⟨_, rfl⟩ ⟨_, rfl⟩
      (by decide) (by decide) (by decide)
  obtain ⟨-, hcalls⟩ := processOrder_outcome hresult
  exact nomatch hcalls

end TradeHandlers
