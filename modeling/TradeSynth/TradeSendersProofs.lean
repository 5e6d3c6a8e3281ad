import TradeSynth.PrefixCodeProofs
import TradeSynth.TradeHandlersProofs

/-!
# The senders — short writes on a stream socket

`send_order` and `request_market_data` of the client and `send_response_message` of the
server each hand one encoding to one call of `send`, and each looks at its result in a
way of its own. `send` may fail, or take any number of bytes up to the size it was
asked for; nobody sends the rest.

The encodings form a prefix code (`isPrefixCode_encodings`), so that a message that was
cut short leaves a stream which is no sequence of messages, whatever its payload. A run
of the senders keeps the stream whole, and reports and counts nothing that is not on
it, exactly when every call of `send` took all or nothing, and none made for a quote
took nothing without failing (`intact_iff`).
-/

namespace TradeSenders

open CheckedMemory FixedCodec TradeTypes TradeCodec TradeWire TradeRegistry TradeHandlers
  PrefixCode

-- ── The client's side ────────────────────────────────────────────────────────

inductive ClientState where
  | disconnected
  | connecting
  | connected
  | authenticating
  | ready
  | error
deriving DecidableEq, Repr

/-- The part of the client context that sending reads and writes. -/
structure ClientContext where
  socket       : Int
  state        : ClientState
  messagesSent : UInt64
  ordersSent   : UInt64
deriving DecidableEq

/-- An `int` as a `size_t`. -/
def sizeT (result : Int) : Nat := (result % 2 ^ 64).toNat

/-- The message that `send_order` builds. -/
def orderMessage (order : Order) (now : Int64) : Message where
  type := .known .orderNew
  sequenceNum := 1
  timestamp := now
  data := unionOf Order.codec order order_fits

def sendOrder (context : ClientContext) (order : Order) (now : Int64)
    (send : List UInt8 → Int) : Checked (Int × ClientContext × List Syscall) :=
  if context.state ≠ .connected then .ok (ErrorCode.invalidState.code, context, [])
  else do
    let serialized ← serializeMessage (orderMessage order now) (Block.fill bufferSize 0)
      bufferSize
    let serializedSize := sizeT serialized.1
    if serializedSize = 0 then pure (ErrorCode.serialization.code, context, [])
    else do
      let bytes ← serialized.2.readRange 0 serializedSize
      let call : Syscall := .sent context.socket bytes (send bytes)
      if send bytes ≠ serializedSize then pure (ErrorCode.socketConnect.code, context, [call])
      else
        pure (ErrorCode.success.code,
          { context with
            ordersSent := context.ordersSent + 1
            messagesSent := context.messagesSent + 1 }, [call])

/-- What `strncpy` with a bound one below the field's size leaves in a cleared symbol
    field. -/
def symbolField (symbol : List UInt8) : Block UInt8 maxSymbolLength :=
  ⟨((cString symbol).take (maxSymbolLength - 1)).rightpad maxSymbolLength 0, by
    rw [List.length_rightpad, List.length_take]
    simp only [maxSymbolLength]
    omega⟩

/-- The message that `request_market_data` builds. -/
def quoteMessage (symbol : List UInt8) (now : Int64) : Message where
  type := .known .marketData
  sequenceNum := 0
  timestamp := now
  data := unionOf MarketData.codec { dummyData with symbol := symbolField symbol }
    marketData_fits

/-- The result of `send` is only tested for an error. -/
def requestMarketData (context : ClientContext) (symbol : List UInt8) (now : Int64)
    (send : List UInt8 → Int) : Checked (Int × ClientContext × List Syscall) :=
  if context.state ≠ .connected then .ok (ErrorCode.invalidState.code, context, [])
  else do
    let serialized ← serializeMessage (quoteMessage symbol now) (Block.fill bufferSize 0)
      bufferSize
    let msgSize := sizeT serialized.1
    if msgSize = 0 then pure (ErrorCode.serialization.code, context, [])
    else do
      let bytes ← serialized.2.readRange 0 msgSize
      let call : Syscall := .sent context.socket bytes (send bytes)
      if send bytes < 0 then pure (ErrorCode.socketConnect.code, context, [call])
      else
        pure (ErrorCode.success.code,
          { context with messagesSent := context.messagesSent + 1 }, [call])

-- ── Runs of senders on one socket ────────────────────────────────────────────

/-- What `send` does with the bytes it is asked for: a negative result, or the number of
    bytes it took. -/
structure Transport where
  send    : List UInt8 → Int
  bounded : ∀ bytes, send bytes ≤ bytes.length

/-- A call of one of the three senders. -/
inductive SendCall where
  | order (order : Order) (now : Int64)
  | quote (symbol : List UInt8) (now : Int64)
  | response (m : Message)

namespace SendCall

/-- The message that a call is to send. -/
def message : SendCall → Message
  | order o now => orderMessage o now
  | quote symbol now => quoteMessage symbol now
  | response m => m

/-- The client's senders refuse to work on a client that is not connected. -/
def Sends (state : ClientState) : SendCall → Prop
  | response _ => True
  | _ => state = .connected

/-- The results of `send` that a call takes for success. -/
def Accepts (size : Nat) (result : Int) : SendCall → Prop
  | quote _ _ => 0 ≤ result
  | _ => result = size

end SendCall

def perform (context : ClientContext) (send : List UInt8 → Int) :
    SendCall → Checked (Int × ClientContext × List Syscall)
  | .order o now => sendOrder context o now send
  | .quote symbol now => requestMarketData context symbol now send
  | .response m => do
      let sent ← sendResponseMessage context.socket m send
      pure (sent.1, context, sent.2)

/-- The bytes that calls of `send` put on the stream. -/
def onWire (calls : List Syscall) : List UInt8 :=
  calls.flatMap (fun call => match call with
    | .sent _ bytes result => bytes.take result.toNat
    | _ => [])

/-- The encodings of messages. -/
def encodings : Language UInt8 := {e | ∃ m, Encodes m e}

/-- At every boundary between two calls the stream is a sequence of encodings, and a call
    that reports success or counts a message has put its encoding there. -/
def Intact : ClientContext → List UInt8 → List (SendCall × Transport) → Prop
  | _, wire, [] => wire ∈ KStar.kstar encodings
  | context, wire, (call, transport) :: rest =>
      wire ∈ KStar.kstar encodings ∧ ∃ code context' calls,
        perform context transport.send call = .ok (code, context', calls) ∧
        (code = ErrorCode.success.code ∨ context'.messagesSent ≠ context.messagesSent →
          Encodes call.message (onWire calls)) ∧
        Intact context' (wire ++ onWire calls) rest

/-- `send` takes all of the encoding or none of it; and where only an error is noticed,
    taking none is an error. -/
def Whole (state : ClientState) (call : SendCall) (transport : Transport) : Prop :=
  call.Sends state → ∀ e, Encodes call.message e →
    (transport.send e ≤ 0 ∨ transport.send e = e.length) ∧
    ((∃ symbol now, call = .quote symbol now) → transport.send e ≠ 0)

-- ── Encodings are self-delimiting ────────────────────────────────────────────

theorem mem_encodings {e : List UInt8} : e ∈ encodings ↔ ∃ f : Frame, e = f.bytes := by
  constructor
  · rintro ⟨m, hm⟩
    obtain ⟨f, -, rfl⟩ := exists_frame_of_encodes hm
    exact ⟨f, rfl⟩
  · rintro ⟨f, rfl⟩
    have hcarries := carries_load (blank (.known .none)) f
    exact ⟨_, (encodes_iff hcarries f.bytes).mpr rfl⟩

/-- The header at the front of an encoding tells where it ends. -/
theorem isPrefixCode_encodings : IsPrefixCode encodings where
  nonempty := by
    intro h
    obtain ⟨f, hf⟩ := mem_encodings.mp h
    have hlen := congrArg List.length hf
    have hpos := f.size_pos
    rw [List.length_nil, f.length_bytes] at hlen
    omega
  free := by
    intro u hu v hv hpre
    obtain ⟨f, rfl⟩ := mem_encodings.mp hu
    obtain ⟨g, rfl⟩ := mem_encodings.mp hv
    have hsize := f.size_cases
    have htake : g.bytes.take f.size = f.bytes.take f.size := by
      rw [← f.length_bytes, List.take_length]
      exact (List.prefix_iff_eq_take.mp hpre).symm
    have hheader : g.header = f.header := by
      have hpeek := peekHeader_of_take (f := f) (k := f.size) (by rw [headerSize_eq]; omega) htake
      rw [← hpeek]
      exact (peekHeader_of_take (f := g) (k := g.bytes.length) (by
        have hgsize := g.size_cases
        rw [g.length_bytes, headerSize_eq]
        omega) rfl).symm
    have hlen : f.bytes.length = g.bytes.length := by
      rw [f.length_bytes, g.length_bytes, ← f.size_toNat, ← g.size_toNat, hheader]
    exact hpre.eq_of_length hlen

-- ── What one call does ───────────────────────────────────────────────────────

theorem sizeT_frame (f : Frame) : sizeT (f.size : Int) = f.size := by
  have hsize := f.size_cases
  rw [sizeT]
  omega

/-- What a call did that reached `send` with the bytes of a frame. -/
structure Sent (context context' : ClientContext) (call : SendCall) (f : Frame)
    (result code : Int) : Prop where
  state   : context'.state = context.state
  counted : code = ErrorCode.success.code ∨ context'.messagesSent ≠ context.messagesSent ↔
    call.Accepts f.size result

theorem sendOrder_sends {context : ClientContext} (hs : context.state = .connected)
    (order : Order) (now : Int64) (send : List UInt8 → Int) {f : Frame}
    (hf : Carries (orderMessage order now) f) :
    ∃ code context', sendOrder context order now send =
        .ok (code, context', [.sent context.socket f.bytes (send f.bytes)]) ∧
      Sent context context' (.order order now) f (send f.bytes) code := by
  obtain ⟨out, hser, hread⟩ := serialize_readback hf
  have hpos := f.size_pos
  rw [sendOrder, if_neg (not_not_intro hs), hser, ok_bind]
  dsimp only
  rw [sizeT_frame, if_neg (by omega), hread, ok_bind]
  by_cases hall : send f.bytes = (f.size : Int)
  · rw [if_neg (not_not_intro hall)]
    exact ⟨_, _, rfl, rfl, ⟨fun _ => hall, fun _ => Or.inl rfl⟩⟩
  · rw [if_pos hall]
    refine ⟨_, context, rfl, rfl, ⟨?_, fun haccept => absurd haccept hall⟩⟩
    rintro (hcode | hcount)
    · exact absurd hcode (by decide)
    · exact absurd rfl hcount

theorem requestMarketData_sends {context : ClientContext} (hs : context.state = .connected)
    (symbol : List UInt8) (now : Int64) (send : List UInt8 → Int) {f : Frame}
    (hf : Carries (quoteMessage symbol now) f) :
    ∃ code context', requestMarketData context symbol now send =
        .ok (code, context', [.sent context.socket f.bytes (send f.bytes)]) ∧
      Sent context context' (.quote symbol now) f (send f.bytes) code := by
  obtain ⟨out, hser, hread⟩ := serialize_readback hf
  have hpos := f.size_pos
  rw [requestMarketData, if_neg (not_not_intro hs), hser, ok_bind]
  dsimp only
  rw [sizeT_frame, if_neg (by omega), hread, ok_bind]
  by_cases herror : send f.bytes < 0
  · rw [if_pos herror]
    refine ⟨_, context, rfl, rfl, ⟨?_, ?_⟩⟩
    · rintro (hcode | hcount)
      · exact absurd hcode (by decide)
      · exact absurd rfl hcount
    · intro haccept
      exact absurd herror (Int.not_lt.mpr haccept)
  · rw [if_neg herror]
    exact ⟨_, _, rfl, rfl, ⟨fun _ => Int.not_lt.mp herror, fun _ => Or.inl rfl⟩⟩

theorem response_sends (context : ClientContext) (m : Message) (send : List UInt8 → Int)
    {f : Frame} (hf : Carries m f) :
    ∃ code context', perform context send (.response m) =
        .ok (code, context', [.sent context.socket f.bytes (send f.bytes)]) ∧
      Sent context context' (.response m) f (send f.bytes) code := by
  rw [perform, sendResponseMessage_frame hf, ok_bind]
  refine ⟨_, context, rfl, rfl, ?_⟩
  by_cases hall : send f.bytes = (f.size : Int)
  · simp only [hall, ne_eq, not_true_eq_false, if_false, true_or, true_iff]
    rfl
  · simp only [hall, ne_eq, not_false_eq_true, if_true, not_true_eq_false, or_false]
    constructor
    · intro hcode
      exact absurd hcode (by decide)
    · intro haccept
      exact absurd haccept hall

/-- **One call.** It hands the bytes of its message's frame to `send` once, or it ends in
    an error and leaves everything as it was. -/
theorem perform_cases (context : ClientContext) (send : List UInt8 → Int) (call : SendCall) :
    (call.Sends context.state ∧ ∃ f, Carries call.message f ∧ ∃ code context',
      perform context send call =
        .ok (code, context', [.sent context.socket f.bytes (send f.bytes)]) ∧
      Sent context context' call f (send f.bytes) code) ∨
    ((call.Sends context.state → ∀ e, ¬ Encodes call.message e) ∧ ∃ code,
      code ≠ ErrorCode.success.code ∧ perform context send call = .ok (code, context, [])) := by
  cases call with
  | order order now =>
      by_cases hs : context.state = .connected
      · obtain ⟨f, hf, -⟩ := exists_carries (m := orderMessage order now) rfl
        exact Or.inl ⟨hs, f, hf, sendOrder_sends hs order now send hf⟩
      · refine Or.inr ⟨fun h => absurd h hs, ErrorCode.invalidState.code, by decide, ?_⟩
        rw [perform, sendOrder, if_pos hs]
  | quote symbol now =>
      by_cases hs : context.state = .connected
      · obtain ⟨f, hf, -⟩ := exists_carries (m := quoteMessage symbol now) rfl
        exact Or.inl ⟨hs, f, hf, requestMarketData_sends hs symbol now send hf⟩
      · refine Or.inr ⟨fun h => absurd h hs, ErrorCode.invalidState.code, by decide, ?_⟩
        rw [perform, requestMarketData, if_pos hs]
  | response m =>
      cases hsize : payloadSize m.type with
      | some size =>
          obtain ⟨f, hf, -⟩ := exists_carries hsize
          exact Or.inl ⟨trivial, f, hf, response_sends context m send hf⟩
      | none =>
          refine Or.inr ⟨fun _ e he => ?_, ErrorCode.serialization.code, by decide, ?_⟩
          · obtain ⟨size, hsome⟩ := serializable_of_encodes he
            rw [show (SendCall.response m).message.type = m.type from rfl, hsize] at hsome
            cases hsome
          · rw [perform, sendResponseMessage_refused hsize]
            rfl

-- ── Whole runs ───────────────────────────────────────────────────────────────

theorem Intact.wire_mem {context : ClientContext} {wire : List UInt8}
    {run : List (SendCall × Transport)} (h : Intact context wire run) :
    wire ∈ KStar.kstar encodings := by
  cases run with
  | nil => exact h
  | cons c rest => exact h.1

/-- A call that sent leaves the stream whole, and reports what is on it, exactly when
    `send` took all or nothing and nothing was not taken for success. -/
theorem sent_whole_iff {context context' : ClientContext} {call : SendCall} {f : Frame}
    {code : Int} {transport : Transport} {wire : List UInt8}
    (hwire : wire ∈ KStar.kstar encodings) (hs : call.Sends context.state)
    (hf : Carries call.message f)
    (hsent : Sent context context' call f (transport.send f.bytes) code) :
    (wire ++ f.bytes.take (transport.send f.bytes).toNat ∈ KStar.kstar encodings ∧
      (code = ErrorCode.success.code ∨ context'.messagesSent ≠ context.messagesSent →
        Encodes call.message (f.bytes.take (transport.send f.bytes).toNat))) ↔
    Whole context.state call transport := by
  have hbound := transport.bounded f.bytes
  have hpos := f.size_pos
  have hword : f.bytes ∈ encodings := mem_encodings.mpr ⟨f, rfl⟩
  have hall : transport.send f.bytes = f.bytes.length →
      f.bytes.take (transport.send f.bytes).toNat = f.bytes := by
    intro h
    rw [h, Int.toNat_natCast, List.take_length]
  have hnothing : transport.send f.bytes ≤ 0 →
      f.bytes.take (transport.send f.bytes).toNat = [] := by
    intro h
    rw [Int.toNat_of_nonpos h, List.take_zero]
  rw [encodes_iff hf, hsent.counted]
  constructor
  · rintro ⟨hmem, hreport⟩ - e he
    rw [encodes_iff hf] at he
    subst he
    refine ⟨?_, ?_⟩
    · have hlen : (f.bytes.take (transport.send f.bytes).toNat).length =
          (transport.send f.bytes).toNat := by
        rw [List.length_take]
        omega
      rcases isPrefixCode_encodings.torn_mem hwire hword (List.take_prefix _ _) hmem with
        hpart | hpart
      · rw [hpart, List.length_nil] at hlen
        omega
      · rw [hpart] at hlen
        omega
    · rintro ⟨symbol, now, rfl⟩ hzero
      have hempty := hreport (show 0 ≤ transport.send f.bytes by omega)
      rw [hnothing (by omega)] at hempty
      have hlen := congrArg List.length hempty
      rw [List.length_nil, f.length_bytes] at hlen
      omega
  · intro hwhole
    obtain ⟨htook, hquote⟩ := hwhole hs f.bytes ((encodes_iff hf _).mpr rfl)
    rcases htook with htook | htook
    · rw [hnothing htook, List.append_nil]
      refine ⟨hwire, ?_⟩
      intro haccept
      cases call with
      | order order now =>
          have hsize : transport.send f.bytes = f.size := haccept
          omega
      | response m =>
          have hsize : transport.send f.bytes = f.size := haccept
          omega
      | quote symbol now =>
          have hle : 0 ≤ transport.send f.bytes := haccept
          exact absurd (by omega) (hquote ⟨symbol, now, rfl⟩)
    · rw [hall htook]
      exact ⟨append_mem_kstar hwire hword, fun _ => rfl⟩

theorem intact_cons_iff {context : ClientContext} {wire : List UInt8} {call : SendCall}
    {transport : Transport} {rest : List (SendCall × Transport)}
    (hwire : wire ∈ KStar.kstar encodings)
    (ih : ∀ context' wire', context'.state = context.state → wire' ∈ KStar.kstar encodings →
      (Intact context' wire' rest ↔ ∀ c ∈ rest, Whole context.state c.1 c.2)) :
    Intact context wire ((call, transport) :: rest) ↔
      Whole context.state call transport ∧ ∀ c ∈ rest, Whole context.state c.1 c.2 := by
  rw [Intact]
  rcases perform_cases context transport.send call with
    ⟨hs, f, hf, code, context', hperform, hsent⟩ | ⟨hsilent, code, hcode, hperform⟩
  · have hcalls : onWire [.sent context.socket f.bytes (transport.send f.bytes)] =
        f.bytes.take (transport.send f.bytes).toNat := List.append_nil _
    have hstep := sent_whole_iff hwire hs hf hsent
    constructor
    · rintro ⟨-, code₁, context₁, calls, hperform₁, hreport, hrest⟩
      rw [hperform] at hperform₁
      cases hperform₁
      rw [hcalls] at hreport hrest
      have hmem := hrest.wire_mem
      exact ⟨hstep.mp ⟨hmem, hreport⟩, (ih _ _ hsent.state hmem).mp hrest⟩
    · rintro ⟨hwhole, hrest⟩
      obtain ⟨hmem, hreport⟩ := hstep.mpr hwhole
      refine ⟨hwire, code, context', _, hperform, ?_, ?_⟩
      · rw [hcalls]
        exact hreport
      · rw [hcalls]
        exact (ih _ _ hsent.state hmem).mpr hrest
  · have hquiet : Whole context.state call transport :=
      fun hs e he => absurd he (hsilent hs e)
    constructor
    · rintro ⟨-, code₁, context₁, calls, hperform₁, -, hrest⟩
      rw [hperform] at hperform₁
      cases hperform₁
      exact ⟨hquiet, (ih _ _ rfl hrest.wire_mem).mp hrest⟩
    · rintro ⟨-, hrest⟩
      refine ⟨hwire, code, context, [], hperform, ?_, ?_⟩
      · rintro (hsuccess | hcount)
        · exact absurd hsuccess hcode
        · exact absurd rfl hcount
      · rw [show wire ++ onWire [] = wire from List.append_nil wire]
        exact (ih _ _ rfl hwire).mpr hrest

theorem intact_from_iff (run : List (SendCall × Transport)) :
    ∀ (context : ClientContext) (wire : List UInt8), wire ∈ KStar.kstar encodings →
      (Intact context wire run ↔ ∀ c ∈ run, Whole context.state c.1 c.2) := by
  induction run with
  | nil =>
      intro context wire hwire
      simp [Intact, hwire]
  | cons c rest ih =>
      intro context wire hwire
      obtain ⟨call, transport⟩ := c
      rw [List.forall_mem_cons]
      refine intact_cons_iff hwire ?_
      intro context' wire' hstate hwire'
      rw [ih context' wire' hwire', hstate]

/-- **Wire integrity.** A run of the three senders on a fresh stream, under whatever
    results of `send`, keeps the stream a sequence of encodings at every boundary, and
    reports and counts only what is on it, exactly when `send` took all or nothing of
    each encoding, and failed where it took nothing of a quote. -/
theorem intact_iff (context : ClientContext) (run : List (SendCall × Transport)) :
    Intact context [] run ↔ ∀ c ∈ run, Whole context.state c.1 c.2 :=
  intact_from_iff run context [] (Language.nil_mem_kstar _)

/-- A connected client on descriptor 4. -/
def connectedClient : ClientContext := ⟨4, .connected, 0, 0⟩

/-- A socket with room for one byte. -/
def oneByte : Transport where
  send bytes := min 1 bytes.length
  bounded bytes := by omega

/-- A quote request of which one byte was taken reports success. -/
theorem torn_quote :
    ¬ ∀ (context : ClientContext) (run : List (SendCall × Transport)),
        Intact context [] run := by
  intro hall
  obtain ⟨f, hf, -⟩ := exists_carries (m := quoteMessage [65] 0) rfl
  obtain ⟨-, code, context', calls, hperform, hreport, -⟩ :=
    hall connectedClient [(.quote [65] 0, oneByte)]
  obtain ⟨code₁, context₁, hperform₁, hsent⟩ :=
    requestMarketData_sends (show connectedClient.state = .connected from rfl) [65] 0
      oneByte.send hf
  rw [perform, hperform₁] at hperform
  cases hperform
  have htook : oneByte.send f.bytes = 1 := by
    have hpos := f.size_pos
    show min (1 : Int) f.bytes.length = 1
    rw [f.length_bytes]
    omega
  have hencodes := hreport (hsent.counted.mpr (by rw [htook]; exact Int.one_nonneg))
  rw [show (SendCall.quote [65] 0).message = quoteMessage [65] 0 from rfl, encodes_iff hf]
    at hencodes
  have hlen := congrArg List.length hencodes
  have hsize := f.size_cases
  rw [show onWire [.sent connectedClient.socket f.bytes (oneByte.send f.bytes)] =
    f.bytes.take (oneByte.send f.bytes).toNat from List.append_nil _, htook, List.length_take,
    f.length_bytes] at hlen
  omega

end TradeSenders
