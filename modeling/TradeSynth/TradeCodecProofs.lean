import Mathlib.Data.UInt
import TradeSynth.PolyHashProofs
import TradeSynth.TradeTypesProofs

/-!
# The wire codec — encoder, decoder, and what each of them computes

The functions of `serialization.c` over checked memory. The buffer is a block, and the
`buffer_size` argument is separate from the size of the block, as in the receive
loops, where the block has `BUFFER_SIZE` cells and the argument is the number of bytes
that `recv` returned.

Above the two functions stands the abstract layer: a `Frame` is a type together with a
payload of exactly the size that type demands, so an ill-sized frame cannot be built,
and `Frame.bytes` is what the protocol puts on the wire for it. The section closes
with one specification lemma for each function:

* `serialize_carries` — the encoder writes `Frame.bytes` of the message's frame and
  touches nothing behind it;
* `deserialize_eq` — the decoder as a cascade of conditions on the header bytes, with
  the one branch in which it leaves the block.
-/

namespace TradeCodec

open CheckedMemory FixedCodec TradeTypes

variable {n : Nat}

-- ── Constants and the header ─────────────────────────────────────────────────

def serializationVersion : UInt32 := 1

/-- The largest `message_size` the decoder admits, `MAX_MESSAGE_SIZE`. -/
def maxMessageSize : Nat := 8192

inductive SerializationError where
  | success
  | bufferOverflow
  | invalidVersion
  | invalidType
  | checksum
  | incomplete
  | invalidMessage
deriving DecidableEq, Repr

/-- The `int` a codec result is returned as. -/
def SerializationError.code : SerializationError → Int
  | success => 0
  | bufferOverflow => -1
  | invalidVersion => -2
  | invalidType => -3
  | checksum => -4
  | incomplete => -5
  | invalidMessage => -6

structure MessageHeader where
  version     : UInt32
  messageSize : UInt32
  type        : CEnum MessageType
  payloadSize : UInt32
  checksum    : UInt32
deriving DecidableEq

def MessageHeader.codec : Codec MessageHeader :=
  (Codec.u32.prod (Codec.u32.prod ((CEnum.codec MessageType).prod
    (Codec.u32.prod Codec.u32)))).map
    ⟨fun ⟨a, b, c, d, e⟩ => ⟨a, b, c, d, e⟩, fun ⟨a, b, c, d, e⟩ => (a, b, c, d, e),
      fun _ => rfl, fun _ => rfl⟩

/-- The value of `sizeof(MessageHeader)`. -/
def headerSize : Nat := 20

theorem headerSize_eq : headerSize = 20 := rfl

theorem codec_width : MessageHeader.codec.width = headerSize := rfl

-- ── The source functions ─────────────────────────────────────────────────────

/-- One round of the checksum loop. -/
def checksumStep (checksum : UInt32) (b : UInt8) : UInt32 :=
  ((checksum <<< 5) + checksum) + b.toUInt32

/-- The checksum of `size` bytes from offset `data` of a buffer. -/
def calculateChecksum (buffer : Block UInt8 n) (data size : Nat) : Checked UInt32 :=
  buffer.foldRange (fun _ => checksumStep) data size 0

def validateMessageHeader (header : MessageHeader) : SerializationError :=
  if header.version ≠ serializationVersion then .invalidVersion
  else if header.messageSize.toNat < headerSize then .invalidMessage
  else if maxMessageSize < header.messageSize.toNat then .bufferOverflow
  else .success

/-- A case of the encoder's switch, for a payload struct of `size` bytes, with the
    code behind the switch that completes the header. -/
def serializeAs (msg : Message) (buffer : Block UInt8 n) (bufferSize size : Nat) :
    Checked (Int × Block UInt8 n) :=
  if bufferSize < headerSize + size then
    .ok (SerializationError.bufferOverflow.code, buffer)
  else do
    let payload ← msg.data.readRange 0 size
    let buffer ← buffer.writeRange headerSize payload
    let checksum ← calculateChecksum buffer headerSize size
    let header : MessageHeader :=
      { version := serializationVersion
        messageSize := UInt32.ofNat (headerSize + size)
        type := msg.type
        payloadSize := UInt32.ofNat size
        checksum := checksum }
    let buffer ← buffer.writeRange 0 (MessageHeader.codec.encode header)
    pure ((header.messageSize.toNat : Int), buffer)

def serializeMessage (msg : Message) (buffer : Block UInt8 n) (bufferSize : Nat) :
    Checked (Int × Block UInt8 n) :=
  if bufferSize < headerSize then .ok (SerializationError.bufferOverflow.code, buffer)
  else match msg.type with
    | .known .orderNew => serializeAs msg buffer bufferSize Order.codec.width
    | .known .orderModify => serializeAs msg buffer bufferSize Order.codec.width
    | .known .orderCancel => serializeAs msg buffer bufferSize Order.codec.width
    | .known .marketData => serializeAs msg buffer bufferSize MarketData.codec.width
    | .known .tradeExec => serializeAs msg buffer bufferSize TradeExecution.codec.width
    | _ => .ok (SerializationError.invalidType.code, buffer)

/-- A case of the decoder's switch, for a payload struct of `size` bytes. -/
def deserializeAs (buffer : Block UInt8 n) (header : MessageHeader) (msg : Message)
    (size : Nat) : Checked (SerializationError × Message) :=
  if header.payloadSize.toNat ≠ size then .ok (.invalidMessage, msg)
  else do
    let payload ← buffer.readRange headerSize size
    let data ← msg.data.writeRange 0 payload
    pure (.success, { msg with data := data })

/-- The decoder's switch over the type it has just stored. -/
def deserializePayload (buffer : Block UInt8 n) (header : MessageHeader) (msg : Message) :
    Checked (SerializationError × Message) :=
  match msg.type with
  | .known .orderNew => deserializeAs buffer header msg Order.codec.width
  | .known .orderModify => deserializeAs buffer header msg Order.codec.width
  | .known .orderCancel => deserializeAs buffer header msg Order.codec.width
  | .known .marketData => deserializeAs buffer header msg MarketData.codec.width
  | .known .tradeExec => deserializeAs buffer header msg TradeExecution.codec.width
  | _ => .ok (.invalidType, msg)

def deserializeMessage (buffer : Block UInt8 n) (bufferSize : Nat) (msg : Message) :
    Checked (SerializationError × Message) :=
  if bufferSize < headerSize then .ok (.incomplete, msg)
  else do
    let image ← buffer.readRange 0 headerSize
    let header := MessageHeader.codec.decode image
    if validateMessageHeader header ≠ .success then pure (.invalidMessage, msg)
    else if bufferSize < header.messageSize.toNat then pure (.incomplete, msg)
    else do
      let calcChecksum ← calculateChecksum buffer headerSize header.payloadSize.toNat
      if calcChecksum ≠ header.checksum then pure (.checksum, msg)
      else deserializePayload buffer header { msg with type := header.type }

-- ── The payload table behind both switches ───────────────────────────────────

/-- The payload size of each serializable type. -/
def payloadSize : CEnum MessageType → Option Nat
  | .known .orderNew => some Order.codec.width
  | .known .orderModify => some Order.codec.width
  | .known .orderCancel => some Order.codec.width
  | .known .marketData => some MarketData.codec.width
  | .known .tradeExec => some TradeExecution.codec.width
  | _ => none

/-- The types that both switches know. -/
def serializableTypes : List (CEnum MessageType) :=
  [.known .orderNew, .known .orderModify, .known .orderCancel, .known .marketData,
    .known .tradeExec]

theorem mem_serializableTypes {t : CEnum MessageType} :
    t ∈ serializableTypes ↔ ∃ size, payloadSize t = some size := by
  constructor
  · intro h
    simp only [serializableTypes, List.mem_cons, List.not_mem_nil, or_false] at h
    rcases h with rfl | rfl | rfl | rfl | rfl <;> exact ⟨_, rfl⟩
  · rintro ⟨size, h⟩
    unfold payloadSize at h
    split at h
    case h_6 => exact nomatch h
    all_goals decide

/-- Every payload is one of two sizes. -/
theorem payloadSize_cases {t : CEnum MessageType} {size : Nat}
    (h : payloadSize t = some size) : size = 128 ∨ size = 104 := by
  unfold payloadSize at h
  split at h
  case h_6 => exact nomatch h
  case h_4 => exact Or.inr (Option.some.inj h).symm
  all_goals exact Or.inl (Option.some.inj h).symm

/-- Every payload struct fits into the union. -/
theorem payloadSize_le {t : CEnum MessageType} {size : Nat}
    (h : payloadSize t = some size) : size ≤ unionSize := by
  rw [unionSize]
  rcases payloadSize_cases h with h | h <;> omega

theorem serializeMessage_switch (msg : Message) (buffer : Block UInt8 n) (bufferSize : Nat) :
    serializeMessage msg buffer bufferSize =
      if bufferSize < headerSize then .ok (SerializationError.bufferOverflow.code, buffer)
      else match payloadSize msg.type with
        | some size => serializeAs msg buffer bufferSize size
        | none => .ok (SerializationError.invalidType.code, buffer) := by
  unfold serializeMessage
  congr 1
  unfold payloadSize
  split <;> rfl

theorem deserializePayload_switch (buffer : Block UInt8 n) (header : MessageHeader)
    (msg : Message) :
    deserializePayload buffer header msg =
      match payloadSize msg.type with
      | some size => deserializeAs buffer header msg size
      | none => .ok (.invalidType, msg) := by
  unfold deserializePayload payloadSize
  split <;> rfl

-- ── Checksums ────────────────────────────────────────────────────────────────

/-- The checksum of a byte string. -/
def checksum (l : List UInt8) : UInt32 := l.foldl checksumStep 0

theorem calculateChecksum_eq (buffer : Block UInt8 n) {data size : Nat}
    (h : data + size ≤ n) :
    calculateChecksum buffer data size =
      .ok (checksum ((buffer.cells.drop data).take size)) :=
  buffer.foldRange_eq_foldl checksumStep 0 h

theorem calculateChecksum_fault (buffer : Block UInt8 n) {data size : Nat}
    (hdata : data ≤ n) (h : n < data + size) :
    calculateChecksum buffer data size = .error ⟨n⟩ :=
  buffer.foldRange_fault _ 0 hdata h

section
open scoped UInt32.CommRing

/-- A round of the loop multiplies by 33. -/
theorem checksumStep_eq (c : UInt32) (b : UInt8) :
    checksumStep c b = 33 * c + b.toUInt32 := by
  have hshift : c <<< 5 = 32 * c := by
    apply UInt32.toBitVec_inj.mp
    rw [UInt32.toBitVec_shiftLeft, UInt32.toBitVec_mul]
    show c.toBitVec <<< 5 = 32#32 * c.toBitVec
    rw [BitVec.shiftLeft_eq_mul_twoPow, BitVec.mul_comm]
    rfl
  rw [checksumStep, hshift]
  ring

/-- The checksum is a polynomial hash with multiplier 33. -/
theorem checksum_eq_polyHash (l : List UInt8) :
    checksum l = PolyHash.polyHash 33 UInt8.toUInt32 0 l := by
  rw [checksum, PolyHash.polyHash]
  congr 1
  funext c b
  exact checksumStep_eq c b

/-- The multiplier is odd, hence a unit modulo `2 ^ 32`. -/
theorem isUnit_multiplier : IsUnit (33 : UInt32) :=
  ⟨⟨33, 1041204193, by decide, by decide⟩, rfl⟩

/-- Replacing any one byte by a different one changes the checksum. -/
theorem checksum_set_ne {l : List UInt8} {i : Nat} {old v : UInt8} (h : l[i]? = some old)
    (hne : v ≠ old) : checksum (l.set i v) ≠ checksum l := by
  rw [checksum_eq_polyHash, checksum_eq_polyHash]
  exact PolyHash.polyHash_set_ne isUnit_multiplier (fun _ _ => UInt8.toUInt32_inj.mp) 0 h hne

end

-- ── Frames: the abstract unit of the wire ────────────────────────────────────

/-- A serializable type with a payload of exactly the size that type demands. -/
structure Frame where
  type    : CEnum MessageType
  payload : List UInt8
  fits    : payloadSize type = some payload.length
deriving DecidableEq

namespace Frame

/-- The number of bytes a frame occupies. -/
def size (f : Frame) : Nat := headerSize + f.payload.length

/-- The header that describes a frame. -/
def header (f : Frame) : MessageHeader where
  version := serializationVersion
  messageSize := UInt32.ofNat f.size
  type := f.type
  payloadSize := UInt32.ofNat f.payload.length
  checksum := checksum f.payload

/-- The bytes of a frame. -/
def bytes (f : Frame) : List UInt8 := MessageHeader.codec.encode f.header ++ f.payload

theorem payload_length_cases (f : Frame) : f.payload.length = 128 ∨ f.payload.length = 104 :=
  payloadSize_cases f.fits

@[simp] theorem length_bytes (f : Frame) : f.bytes.length = f.size := by
  rw [bytes, List.length_append, MessageHeader.codec.length_encode, codec_width, size]

theorem size_cases (f : Frame) : f.size = 148 ∨ f.size = 124 := by
  rcases f.payload_length_cases with h | h
  · exact Or.inl (by rw [size, h]; rfl)
  · exact Or.inr (by rw [size, h]; rfl)

theorem payload_le (f : Frame) : f.payload.length ≤ unionSize := payloadSize_le f.fits

/-- Every frame fits into a send or receive buffer. -/
theorem size_le (f : Frame) : f.size ≤ bufferSize := by
  rw [bufferSize]
  rcases f.size_cases with h | h <;> omega

theorem size_pos (f : Frame) : 0 < f.size := by
  have hsize := f.size_cases
  omega

theorem size_toNat (f : Frame) : f.header.messageSize.toNat = f.size := by
  have hsize := f.size_cases
  show (UInt32.ofNat f.size).toNat = f.size
  rw [UInt32.toNat_ofNat', Nat.mod_eq_of_lt (by omega)]

theorem payload_toNat (f : Frame) : f.header.payloadSize.toNat = f.payload.length := by
  have hlen := f.payload_length_cases
  show (UInt32.ofNat f.payload.length).toNat = f.payload.length
  rw [UInt32.toNat_ofNat', Nat.mod_eq_of_lt (by omega)]

theorem take_bytes (f : Frame) :
    f.bytes.take headerSize = MessageHeader.codec.encode f.header :=
  List.take_left' (MessageHeader.codec.length_encode f.header)

theorem drop_bytes (f : Frame) : f.bytes.drop headerSize = f.payload :=
  List.drop_left' (MessageHeader.codec.length_encode f.header)

theorem validate_header (f : Frame) : validateMessageHeader f.header = .success := by
  have hsize := f.size_cases
  have hversion : f.header.version = serializationVersion := rfl
  rw [validateMessageHeader]
  rw [if_neg (not_not_intro hversion), f.size_toNat, if_neg (by rw [headerSize_eq]; omega),
    if_neg (by rw [maxMessageSize]; omega)]

end Frame

/-- The payload of a message: as many bytes of the union as the type demands. -/
def payload (m : Message) : List UInt8 :=
  m.data.cells.take ((payloadSize m.type).getD 0)

/-- A message of a serializable type and the frame it travels as. -/
def Carries (m : Message) (f : Frame) : Prop := m.type = f.type ∧ payload m = f.payload

theorem payload_eq {m : Message} {size : Nat} (h : payloadSize m.type = some size) :
    payload m = m.data.cells.take size ∧ (payload m).length = size := by
  have heq : payload m = m.data.cells.take size := by rw [payload, h]; rfl
  refine ⟨heq, ?_⟩
  rw [heq, List.length_take, m.data.size]
  exact Nat.min_eq_left (payloadSize_le h)

/-- Every message of a serializable type travels as one frame. -/
theorem exists_carries {m : Message} {size : Nat} (h : payloadSize m.type = some size) :
    ∃ f : Frame, Carries m f ∧ f.payload.length = size := by
  obtain ⟨-, hlen⟩ := payload_eq h
  exact ⟨⟨m.type, payload m, by rw [h, hlen]⟩, ⟨rfl, rfl⟩, hlen⟩

/-- Loading a frame makes a message that carries it. -/
theorem carries_load (m : Message) (f : Frame) : Carries (m.load f.type f.payload) f := by
  refine ⟨m.load_type f.type f.payload, ?_⟩
  rw [payload, m.load_type, f.fits]
  exact m.take_load f.type f.payload_le

-- ── The encoder's specification ──────────────────────────────────────────────

/-- Encoding a message that carries `f` succeeds when the buffer has room for `f`; it
    returns the size of `f`, writes the bytes of `f`, and leaves the bytes behind them
    as they were. -/
theorem serialize_carries {m : Message} {f : Frame} (hm : Carries m f)
    (buffer : Block UInt8 n) {bufferSize : Nat} (hroom : f.size ≤ bufferSize)
    (hbuffer : bufferSize ≤ n) :
    ∃ out, serializeMessage m buffer bufferSize = .ok ((f.size : Int), out) ∧
      out.cells = f.bytes ++ buffer.cells.drop f.size := by
  obtain ⟨htype, hpayload⟩ := hm
  have hfits : payloadSize m.type = some f.payload.length := by rw [htype]; exact f.fits
  have hread : m.data.readRange 0 f.payload.length = .ok f.payload := by
    have hle := f.payload_le
    rw [m.data.readRange_eq (by omega), List.drop_zero, ← (payload_eq hfits).1, hpayload]
  have hsize : f.size = headerSize + f.payload.length := rfl
  have hcodec := MessageHeader.codec.length_encode f.header
  rw [codec_width] at hcodec
  -- the payload goes in first, behind the space for the header
  have hfit₁ : headerSize + f.payload.length ≤ n := by omega
  have hbody : ((buffer.splice headerSize f.payload hfit₁).cells.drop headerSize).take
      f.payload.length = f.payload := by
    have hhead : (buffer.cells.take headerSize).length = headerSize := by
      rw [List.length_take, buffer.size]
      omega
    show ((buffer.cells.take headerSize ++ f.payload ++ buffer.cells.drop _).drop
      headerSize).take f.payload.length = f.payload
    rw [List.append_assoc, List.drop_left' hhead, List.take_left]
  -- the completed header is the header of the frame
  have hfit₂ : 0 + (MessageHeader.codec.encode f.header).length ≤ n := by
    rw [hcodec]
    omega
  refine ⟨(buffer.splice headerSize f.payload hfit₁).splice 0 _ hfit₂, ?_, ?_⟩
  · rw [serializeMessage_switch, if_neg (by omega), hfits]
    show serializeAs m buffer bufferSize f.payload.length = _
    rw [serializeAs, if_neg (by omega), hread, ok_bind, buffer.writeRange_eq hfit₁, ok_bind,
      calculateChecksum_eq _ hfit₁, hbody, ok_bind, htype]
    show ((buffer.splice headerSize f.payload hfit₁).writeRange 0
      (MessageHeader.codec.encode f.header) >>= _) = _
    rw [Block.writeRange_eq _ hfit₂, ok_bind, pure_eq_ok, ← f.size_toNat]
    rfl
  · have hhead : (buffer.cells.take headerSize).length = headerSize := by
      rw [List.length_take, buffer.size]
      omega
    show (buffer.splice headerSize f.payload hfit₁).cells.take 0
      ++ MessageHeader.codec.encode f.header
      ++ (buffer.cells.take headerSize ++ f.payload ++ buffer.cells.drop _).drop _ = _
    rw [hcodec, List.take_zero, List.nil_append, Nat.zero_add, List.append_assoc,
      List.drop_left' hhead, Frame.bytes, List.append_assoc, hsize]

-- ── The decoder's specification ──────────────────────────────────────────────

/-- The header that the first bytes of a string spell. -/
def peekHeader (l : List UInt8) : MessageHeader :=
  MessageHeader.codec.decode (l.take headerSize)

/-- The header, field by field. -/
theorem peekHeader_eq (l : List UInt8) :
    peekHeader l = ⟨fieldAt l 0, fieldAt l 4, CEnum.ofCode (fieldAt l 8), fieldAt l 12,
      fieldAt l 16⟩ := by
  show MessageHeader.mk (Codec.u32.decode ((l.take 20).take 4))
    (Codec.u32.decode (((l.take 20).drop 4).take 4))
    (CEnum.ofCode (Codec.u32.decode ((((l.take 20).drop 4).drop 4).take 4)))
    (Codec.u32.decode (((((l.take 20).drop 4).drop 4).drop 4).take 4))
    (Codec.u32.decode ((((l.take 20).drop 4).drop 4).drop 4 |>.drop 4)) = _
  simp only [fieldAt, List.drop_take, List.take_take, List.drop_drop, List.drop_zero]
  rfl

/-- The part of the decoder behind the length tests, once the payload is in bounds. -/
def accept (l : List UInt8) (header : MessageHeader) (msg : Message) :
    SerializationError × Message :=
  if checksum ((l.drop headerSize).take header.payloadSize.toNat) ≠ header.checksum then
    (.checksum, msg)
  else match payloadSize header.type with
    | some size =>
        if header.payloadSize.toNat ≠ size then
          (.invalidMessage, { msg with type := header.type })
        else (.success, msg.load header.type ((l.drop headerSize).take size))
    | none => (.invalidType, { msg with type := header.type })

theorem deserializeAs_eq (buffer : Block UInt8 n) (header : MessageHeader) (msg : Message)
    {size : Nat} (hfit : headerSize + header.payloadSize.toNat ≤ n)
    (hunion : size ≤ unionSize) :
    deserializeAs buffer header msg size =
      .ok (if header.payloadSize.toNat ≠ size then (.invalidMessage, msg)
        else (.success, msg.load msg.type ((buffer.cells.drop headerSize).take size))) := by
  rw [deserializeAs]
  by_cases hsize : header.payloadSize.toNat = size
  · have hlen : ((buffer.cells.drop headerSize).take size).length = size := by
      rw [List.length_take, List.length_drop, buffer.size]
      omega
    have hstore : 0 + ((buffer.cells.drop headerSize).take size).length ≤ unionSize := by
      omega
    rw [if_neg (not_not_intro hsize), if_neg (not_not_intro hsize),
      buffer.readRange_eq (by omega), ok_bind, msg.data.writeRange_eq hstore, ok_bind,
      Message.load, dif_pos hstore]
    rfl
  · rw [if_pos hsize, if_pos hsize]

/-- **The decoder**, as a cascade over the header bytes. The bound on the buffer is
    tested against `message_size`, and the checksum loop then runs over `payload_size`
    bytes: the fourth branch is where it leaves the block. -/
theorem deserialize_eq (buffer : Block UInt8 n) {bufferSize : Nat} (hbuffer : bufferSize ≤ n)
    (msg : Message) :
    deserializeMessage buffer bufferSize msg =
      if bufferSize < headerSize then .ok (.incomplete, msg)
      else if validateMessageHeader (peekHeader buffer.cells) ≠ .success then
        .ok (.invalidMessage, msg)
      else if bufferSize < (peekHeader buffer.cells).messageSize.toNat then
        .ok (.incomplete, msg)
      else if n < headerSize + (peekHeader buffer.cells).payloadSize.toNat then .error ⟨n⟩
      else .ok (accept buffer.cells (peekHeader buffer.cells) msg) := by
  rw [deserializeMessage]
  by_cases hshort : bufferSize < headerSize
  · rw [if_pos hshort, if_pos hshort]
  rw [if_neg hshort, if_neg hshort, buffer.readRange_eq (by omega), ok_bind, List.drop_zero]
  show (if validateMessageHeader (peekHeader buffer.cells) ≠ .success then _ else _) = _
  by_cases hvalid : validateMessageHeader (peekHeader buffer.cells) = .success
  swap
  · rw [if_pos hvalid, if_pos hvalid]
    rfl
  rw [if_neg (not_not_intro hvalid), if_neg (not_not_intro hvalid)]
  show (if bufferSize < (peekHeader buffer.cells).messageSize.toNat then _ else _) = _
  by_cases hmessage : bufferSize < (peekHeader buffer.cells).messageSize.toNat
  · rw [if_pos hmessage, if_pos hmessage]
    rfl
  rw [if_neg hmessage, if_neg hmessage]
  show (calculateChecksum buffer headerSize (peekHeader buffer.cells).payloadSize.toNat
    >>= _) = _
  by_cases hover : n < headerSize + (peekHeader buffer.cells).payloadSize.toNat
  · rw [if_pos hover, calculateChecksum_fault buffer (by omega) hover, error_bind]
  have hfit : headerSize + (peekHeader buffer.cells).payloadSize.toNat ≤ n := by omega
  rw [if_neg hover, calculateChecksum_eq buffer hfit, ok_bind]
  rw [accept]
  show (if _ ≠ (peekHeader buffer.cells).checksum then _ else _) = _
  by_cases hsum : checksum ((buffer.cells.drop headerSize).take
      (peekHeader buffer.cells).payloadSize.toNat) = (peekHeader buffer.cells).checksum
  swap
  · rw [if_pos hsum, if_pos hsum]
    rfl
  rw [if_neg (not_not_intro hsum), if_neg (not_not_intro hsum)]
  show deserializePayload buffer (peekHeader buffer.cells)
    { msg with type := (peekHeader buffer.cells).type } = _
  rw [deserializePayload_switch]
  dsimp only
  cases hsize : payloadSize (peekHeader buffer.cells).type with
  | none => rfl
  | some size => exact deserializeAs_eq buffer _ _ hfit (payloadSize_le hsize)

/-- The frame passes the tests in front of the checksum loop: the header is there and
    valid, and the declared message is there. -/
structure Declared (buffer : Block UInt8 n) (bufferSize : Nat) : Prop where
  long     : headerSize ≤ bufferSize
  valid    : validateMessageHeader (peekHeader buffer.cells) = .success
  declared : (peekHeader buffer.cells).messageSize.toNat ≤ bufferSize

/-- A frame that fails one of these tests is refused, and the destination is left alone. -/
theorem deserialize_undeclared {buffer : Block UInt8 n} {bufferSize : Nat}
    (hbuffer : bufferSize ≤ n) (h : ¬ Declared buffer bufferSize) (msg : Message) :
    ∃ e : SerializationError, e ≠ .success ∧
      deserializeMessage buffer bufferSize msg = .ok (e, msg) := by
  rw [deserialize_eq buffer hbuffer]
  by_cases hshort : bufferSize < headerSize
  · exact ⟨.incomplete, by decide, by rw [if_pos hshort]⟩
  by_cases hvalid : validateMessageHeader (peekHeader buffer.cells) = .success
  swap
  · exact ⟨.invalidMessage, by decide, by rw [if_neg hshort, if_pos hvalid]⟩
  refine ⟨.incomplete, by decide, ?_⟩
  have hmessage : bufferSize < (peekHeader buffer.cells).messageSize.toNat := by
    by_contra hle
    exact h ⟨by omega, hvalid, by omega⟩
  rw [if_neg hshort, if_neg (not_not_intro hvalid), if_pos hmessage]

/-- A frame that passes them goes through the checksum loop. -/
theorem deserialize_declared {buffer : Block UInt8 n} {bufferSize : Nat}
    (hbuffer : bufferSize ≤ n) (h : Declared buffer bufferSize) (msg : Message) :
    deserializeMessage buffer bufferSize msg =
      if n < headerSize + (peekHeader buffer.cells).payloadSize.toNat then .error ⟨n⟩
      else .ok (accept buffer.cells (peekHeader buffer.cells) msg) := by
  rw [deserialize_eq buffer hbuffer, if_neg (Nat.not_lt.mpr h.long),
    if_neg (not_not_intro h.valid), if_neg (Nat.not_lt.mpr h.declared)]

end TradeCodec
