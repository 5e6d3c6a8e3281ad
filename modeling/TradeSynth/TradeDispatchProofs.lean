import TradeSynth.TradeHandlersProofs

/-!
# Dispatch — four switches over the message type

Encoder, decoder, `handle_message` and the client's receiver thread each switch over the
type of a message. The first two know five types, the server's switch eight and the
client's three. What the codec does carry is handled as if it had never left the sender
(`handleMessage_of_carries`). A heartbeat, an order status and an error message have
cases that no message on the wire can reach (`covered_iff`), and the answer to a
heartbeat is refused by the encoder (`heartbeat_unanswered`).
-/

namespace TradeDispatch

open CheckedMemory FixedCodec TradeTypes TradeCodec TradeWire TradeRegistry TradeRun
  TradeHandlers

variable {config : ServerConfig}

-- ── The server's switch ──────────────────────────────────────────────────────

/-- The cases of `handle_message`. -/
inductive ServerCase where
  | heartbeat
  | order
  | marketData
  | tradeExec
  | error
deriving DecidableEq, Repr

/-- The labels of the switch in `handle_message`. -/
def serverCase : CEnum MessageType → Option ServerCase
  | .known .heartbeat => some .heartbeat
  | .known .orderNew => some .order
  | .known .orderCancel => some .order
  | .known .orderModify => some .order
  | .known .orderStatus => some .order
  | .known .marketData => some .marketData
  | .known .tradeExec => some .tradeExec
  | .known .error => some .error
  | _ => none

/-- What a handler meets outside: two readings of the clock, and the result of each
    `send`. -/
structure Outside where
  now₁ : Int64
  now₂ : Int64
  send : Nat → List UInt8 → Int

/-- A clock that stands still, and a `send` that sends nothing. -/
def still : Outside := ⟨0, 0, fun _ _ => 0⟩

def handleHeartbeat (context : ServerContext config) (clientSocket : Int) (msg : Message)
    (outside : Outside) : Checked (Int × ServerContext config × List Syscall) := do
  let response : Message :=
    { type := .known .heartbeat
      sequenceNum := msg.sequenceNum + 1
      timestamp := outside.now₁
      data := Block.fill unionSize 0 }
  let sent ← sendResponseMessage clientSocket response (outside.send 0)
  pure (sent.1, context, sent.2)

def handleOrderMessage (context : ServerContext config) (msg : Message) (outside : Outside) :
    Checked (Int × ServerContext config × List Syscall) :=
  processOrder context msg.order outside.now₁ outside.now₂ (outside.send 0)

def handleMarketData (context : ServerContext config) (msg : Message) (outside : Outside) :
    Checked (Int × ServerContext config × List Syscall) :=
  broadcastMarketData context msg.marketData outside.now₁ outside.send

def handleTradeExec (context : ServerContext config) (msg : Message) (outside : Outside) :
    Checked (Int × ServerContext config × List Syscall) :=
  processTradeExecution context msg.trade outside.now₁ (outside.send 0) (outside.send 1)

/-- The handler of error messages logs them, and does nothing else. -/
def handleError (context : ServerContext config) :
    Checked (Int × ServerContext config × List Syscall) :=
  .ok (ErrorCode.success.code, context, [])

def handleMessage (context : ServerContext config) (clientSocket : Int) (msg : Message)
    (outside : Outside) : Checked (Int × ServerContext config × List Syscall) :=
  match serverCase msg.type with
  | some .heartbeat => handleHeartbeat context clientSocket msg outside
  | some .order => handleOrderMessage context msg outside
  | some .marketData => handleMarketData context msg outside
  | some .tradeExec => handleTradeExec context msg outside
  | some .error => handleError context
  | none => .ok (ErrorCode.invalidMessage.code, context, [])

-- ── The client's switch ──────────────────────────────────────────────────────

/-- The cases of the switch in `message_receiver_thread`. -/
inductive ClientCase where
  | orderStatus
  | marketData
  | tradeExec
deriving DecidableEq, Repr

/-- The labels of that switch. -/
def clientCase : CEnum MessageType → Option ClientCase
  | .known .orderStatus => some .orderStatus
  | .known .marketData => some .marketData
  | .known .tradeExec => some .tradeExec
  | _ => none

/-- Which of the callbacks for messages are set. -/
structure ClientCallbacks where
  onOrderStatus : Bool
  onMarketData  : Bool
  onTrade       : Bool

/-- A call of a callback. -/
inductive Callback where
  | orderStatus (order : Order)
  | marketData (marketData : MarketData)
  | trade (trade : TradeExecution)
deriving DecidableEq

/-- The counters of the client that the receiver thread moves. -/
structure ReceivedStats where
  messagesReceived : UInt64
  tradesReceived   : UInt64
deriving DecidableEq

/-- The part of the client's loop behind a successful decode. -/
def receiveMessage (callbacks : ClientCallbacks) (stats : ReceivedStats) (msg : Message) :
    ReceivedStats × List Callback :=
  let stats := { stats with messagesReceived := stats.messagesReceived + 1 }
  match clientCase msg.type with
  | some .orderStatus => (stats, if callbacks.onOrderStatus then [.orderStatus msg.order] else [])
  | some .marketData => (stats, if callbacks.onMarketData then [.marketData msg.marketData] else [])
  | some .tradeExec =>
      ({ stats with tradesReceived := stats.tradesReceived + 1 },
        if callbacks.onTrade then [.trade msg.trade] else [])
  | none => (stats, [])

-- ── What arrives is handled as what was sent ─────────────────────────────────

/-- Messages that carry the same frame show the same struct in the union. -/
theorem view_of_carries {α : Type} (c : Codec α) {m m' : Message} {f : Frame}
    (hm : Carries m f) (hm' : Carries m' f) (hsize : payloadSize f.type = some c.width) :
    c.decode (m'.data.cells.take c.width) = c.decode (m.data.cells.take c.width) := by
  have htake : ∀ {m₀ : Message}, Carries m₀ f → m₀.data.cells.take c.width = f.payload := by
    intro m₀ h
    rw [← h.2, (payload_eq (by rw [h.1]; exact hsize)).1]
  rw [htake hm, htake hm']

/-- Messages that carry the same frame have the type of one of the three structs, and
    agree in that struct. -/
theorem views_of_carries {m m' : Message} {f : Frame} (hm : Carries m f)
    (hm' : Carries m' f) :
    ((f.type = .known .orderNew ∨ f.type = .known .orderModify ∨
        f.type = .known .orderCancel) ∧ m'.order = m.order) ∨
      (f.type = .known .marketData ∧ m'.marketData = m.marketData) ∨
      (f.type = .known .tradeExec ∧ m'.trade = m.trade) := by
  have horder : payloadSize f.type = some Order.codec.width → m'.order = m.order :=
    view_of_carries Order.codec hm hm'
  have hquote : payloadSize f.type = some MarketData.codec.width →
      m'.marketData = m.marketData := view_of_carries MarketData.codec hm hm'
  have htrade : payloadSize f.type = some TradeExecution.codec.width → m'.trade = m.trade :=
    view_of_carries TradeExecution.codec hm hm'
  have hsize := f.fits
  generalize f.type = t at horder hquote htrade hsize ⊢
  cases t with
  | unknown c hc => cases hsize
  | known t =>
      cases t with
      | orderNew => exact Or.inl ⟨Or.inl rfl, horder rfl⟩
      | orderModify => exact Or.inl ⟨Or.inr (Or.inl rfl), horder rfl⟩
      | orderCancel => exact Or.inl ⟨Or.inr (Or.inr rfl), horder rfl⟩
      | marketData => exact Or.inr (Or.inl ⟨rfl, hquote rfl⟩)
      | tradeExec => exact Or.inr (Or.inr ⟨rfl, htrade rfl⟩)
      | _ => cases hsize

/-- The server treats two messages that carry the same frame alike. -/
theorem handleMessage_of_carries {m m' : Message} {f : Frame} (hm : Carries m f)
    (hm' : Carries m' f) (context : ServerContext config) (clientSocket : Int)
    (outside : Outside) :
    handleMessage context clientSocket m' outside = handleMessage context clientSocket m outside
      := by
  rw [handleMessage, handleMessage, hm.1, hm'.1]
  rcases views_of_carries hm hm' with ⟨htype | htype | htype, hview⟩ | ⟨htype, hview⟩ |
    ⟨htype, hview⟩
  case inr.inl => simp only [htype, serverCase, handleMarketData, hview]
  case inr.inr => simp only [htype, serverCase, handleTradeExec, hview]
  all_goals simp only [htype, serverCase, handleOrderMessage, hview]

/-- So does the client. -/
theorem receiveMessage_of_carries {m m' : Message} {f : Frame} (hm : Carries m f)
    (hm' : Carries m' f) (callbacks : ClientCallbacks) (stats : ReceivedStats) :
    receiveMessage callbacks stats m' = receiveMessage callbacks stats m := by
  rw [receiveMessage, receiveMessage, hm.1, hm'.1]
  rcases views_of_carries hm hm' with ⟨htype | htype | htype, -⟩ | ⟨htype, hview⟩ |
    ⟨htype, hview⟩
  case inr.inl => simp only [htype, clientCase, hview]
  case inr.inr => simp only [htype, clientCase, hview]
  all_goals simp only [htype, clientCase]

-- ── Coverage ─────────────────────────────────────────────────────────────────

/-- A type that one of the two receivers has a case for. -/
def Dispatched (t : CEnum MessageType) : Prop :=
  serverCase t ≠ none ∨ clientCase t ≠ none

instance (t : CEnum MessageType) : Decidable (Dispatched t) :=
  inferInstanceAs (Decidable (_ ∨ _))

/-- Encoding the message into a buffer of `BUFFER_SIZE` bytes succeeds, decoding the
    result yields the same type and data, and both receivers treat the decoded message
    as the original. -/
def Covered (m : Message) : Prop :=
  ∀ buffer : Block UInt8 bufferSize, ∃ (len : Nat) (out : Block UInt8 bufferSize),
    serializeMessage m buffer bufferSize = .ok ((len : Int), out) ∧ 0 < len ∧
    ∀ prior, ∃ m', deserializeMessage (Block.ofList (out.cells.take len)) len prior =
        .ok (.success, m') ∧
      m'.type = m.type ∧ payload m' = payload m ∧
      (∀ (config : ServerConfig) (context : ServerContext config) clientSocket outside,
        handleMessage context clientSocket m' outside =
          handleMessage context clientSocket m outside) ∧
      ∀ callbacks stats, receiveMessage callbacks stats m' = receiveMessage callbacks stats m

/-- The dispatched types without a payload size. -/
theorem payloadSize_of_dispatched {t : CEnum MessageType} (h : Dispatched t) :
    (∃ size, payloadSize t = some size) ↔
      t ≠ .known .heartbeat ∧ t ≠ .known .orderStatus ∧ t ≠ .known .error := by
  cases t with
  | unknown c hc =>
      rcases h with h | h
      · exact absurd rfl h
      · exact absurd rfl h
  | known t =>
      cases t with
      | none => exact absurd h (by decide)
      | heartbeat => simp [payloadSize]
      | orderStatus => simp [payloadSize]
      | error => simp [payloadSize]
      | _ => simp [payloadSize]

/-- **Protocol coverage.** Of the messages with a dispatch case, the codec carries those
    that are no heartbeat, no order status and no error message. -/
theorem covered_iff {m : Message} (h : Dispatched m.type) :
    Covered m ↔ m.type ≠ .known .heartbeat ∧ m.type ≠ .known .orderStatus ∧
      m.type ≠ .known .error := by
  rw [← payloadSize_of_dispatched h]
  constructor
  · intro hcovered
    obtain ⟨len, out, hser, -⟩ := hcovered (Block.fill bufferSize 0)
    cases hsize : payloadSize m.type with
    | some size => exact ⟨size, rfl⟩
    | none =>
        rw [serializeMessage_switch, if_neg (by decide), hsize] at hser
        exact (error_not_encoded (e := .invalidType) (by decide) hser).elim
  · rintro ⟨size, hsize⟩ buffer
    obtain ⟨f, hf, -⟩ := exists_carries hsize
    obtain ⟨out, hser, hout⟩ := serialize_carries hf buffer f.size_le (Nat.le_refl _)
    have hwritten : out.cells.take f.size = f.bytes := by
      rw [hout]
      exact List.take_left' f.length_bytes
    refine ⟨f.size, out, hser, f.size_pos, ?_⟩
    intro prior
    have hdecode : deserializeMessage (Block.ofList f.bytes) f.size prior =
        .ok (.success, prior.load f.type f.payload) :=
      deserialize_frame (by simp) (Nat.le_refl _) (List.take_of_length_le (by simp)) prior
    have hload := carries_load prior f
    refine ⟨prior.load f.type f.payload, by rw [hwritten]; exact hdecode, ?_, ?_, ?_, ?_⟩
    · rw [hload.1, hf.1]
    · rw [hload.2, hf.2]
    · intro config context clientSocket outside
      exact handleMessage_of_carries hf hload context clientSocket outside
    · intro callbacks stats
      exact receiveMessage_of_carries hf hload callbacks stats

theorem covered_iff_heartbeat :
    Covered (blank (.known .heartbeat)) ↔
      (blank (.known .heartbeat)).type ≠ .known .heartbeat ∧
        (blank (.known .heartbeat)).type ≠ .known .orderStatus ∧
        (blank (.known .heartbeat)).type ≠ .known .error :=
  covered_iff (by decide)

/-- The server has a case for heartbeats, and the encoder refuses them. -/
theorem heartbeat_uncovered : ¬ ∀ m : Message, Dispatched m.type → Covered m := by
  intro hall
  obtain ⟨len, out, hser, -⟩ :=
    hall (blank (.known .heartbeat)) (by decide) (Block.fill bufferSize 0)
  rw [serializeMessage_switch, if_neg (by decide)] at hser
  exact (error_not_encoded (e := .invalidType) (by decide) hser).elim

/-- No heartbeat is answered: the response is refused by the encoder. -/
theorem heartbeat_unanswered (context : ServerContext config) (clientSocket : Int)
    {msg : Message} (h : msg.type = .known .heartbeat) (outside : Outside) :
    handleMessage context clientSocket msg outside =
      .ok (ErrorCode.serialization.code, context, []) := by
  rw [handleMessage, h]
  show handleHeartbeat context clientSocket msg outside = _
  rw [handleHeartbeat, sendResponseMessage_refused rfl, ok_bind, pure_eq_ok]

end TradeDispatch
