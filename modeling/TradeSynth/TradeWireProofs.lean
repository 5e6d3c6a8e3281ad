import TradeSynth.TradeCodecProofs

/-!
# Encoder against decoder — round trips, truncation, canonical form

What the two halves of the codec mean for each other. Everything here rests on the two
specification lemmas of `TradeCodecProofs`:

* a buffer that begins with the bytes of a frame decodes to that frame whatever
  follows, and a buffer cut inside a frame is reported incomplete (`round_trip`);
* the checksum loop leaves the buffer exactly when the header passes its tests and
  declares a payload longer than the buffer (`deserialize_stays_inside_iff`);
* the accepted strings are the encoder's image exactly when the two lengths of the
  header agree (`accepted_is_image_iff`).
-/

namespace TradeWire

open CheckedMemory FixedCodec TradeTypes TradeCodec

variable {n : Nat}

-- ── Decoding a frame ─────────────────────────────────────────────────────────

/-- The first `k` bytes fix the header as soon as there are enough of them. -/
theorem peekHeader_of_take {l : List UInt8} {f : Frame} {k : Nat} (hk : headerSize ≤ k)
    (h : l.take k = f.bytes.take k) : peekHeader l = f.header := by
  have hhead : l.take headerSize = f.bytes.take headerSize := by
    have htake := congrArg (List.take headerSize) h
    rw [List.take_take, List.take_take, Nat.min_eq_left hk] at htake
    exact htake
  rw [peekHeader, hhead, f.take_bytes, MessageHeader.codec.decode_encode]

theorem payload_of_take {l : List UInt8} {f : Frame} (h : l.take f.size = f.bytes) :
    (l.drop headerSize).take f.payload.length = f.payload := by
  have hdrop := congrArg (List.drop headerSize) h
  rw [List.drop_take, f.drop_bytes, Frame.size, Nat.add_sub_cancel_left] at hdrop
  exact hdrop

/-- Behind the length tests a frame is accepted. -/
theorem accept_frame {l : List UInt8} {f : Frame}
    (h : (l.drop headerSize).take f.payload.length = f.payload) (msg : Message) :
    accept l f.header msg = (.success, msg.load f.type f.payload) := by
  have hsum : checksum ((l.drop headerSize).take f.header.payloadSize.toNat)
      = f.header.checksum := by
    rw [f.payload_toNat, h]
    rfl
  have htype : payloadSize f.header.type = some f.payload.length := f.fits
  rw [accept, if_neg (not_not_intro hsum), htype]
  dsimp only
  rw [if_neg (not_not_intro f.payload_toNat), h]
  rfl

/-- A buffer that begins with a frame decodes to that frame, whatever follows it. -/
theorem deserialize_frame {f : Frame} {buffer : Block UInt8 n} {k : Nat} (hk : k ≤ n)
    (hf : f.size ≤ k) (h : buffer.cells.take f.size = f.bytes) (msg : Message) :
    deserializeMessage buffer k msg = .ok (.success, msg.load f.type f.payload) := by
  have hsize : f.size = headerSize + f.payload.length := rfl
  have hheader : peekHeader buffer.cells = f.header :=
    peekHeader_of_take (k := f.size) (by omega) (by rw [h, List.take_of_length_le (by simp)])
  rw [deserialize_eq buffer hk, hheader, if_neg (by omega),
    if_neg (not_not_intro f.validate_header), f.size_toNat, if_neg (by omega),
    f.payload_toNat, if_neg (by omega), accept_frame (payload_of_take h)]

/-- A decoder that receives the bytes of a frame, and no others, accepts it. -/
theorem deserialize_bytes (f : Frame) (prior : Message) :
    deserializeMessage (Block.ofList f.bytes) f.bytes.length prior =
      .ok (.success, prior.load f.type f.payload) :=
  deserialize_frame (Nat.le_refl _) (by simp) (List.take_of_length_le (by simp)) prior

/-- A buffer cut inside a frame is reported incomplete. -/
theorem deserialize_cut {f : Frame} {buffer : Block UInt8 n} {k : Nat} (hk : k ≤ n)
    (hf : k < f.size) (h : buffer.cells.take k = f.bytes.take k) (msg : Message) :
    deserializeMessage buffer k msg = .ok (.incomplete, msg) := by
  rw [deserialize_eq buffer hk]
  by_cases hshort : k < headerSize
  · rw [if_pos hshort]
  · have hheader : peekHeader buffer.cells = f.header := peekHeader_of_take (by omega) h
    rw [if_neg hshort, hheader, if_neg (not_not_intro f.validate_header), f.size_toNat,
      if_pos hf]

/-- What an accepted buffer looks like: a header for `f` up to its `message_size`,
    the payload of `f` behind it, and a destination that now carries `f`. -/
structure Accepted (l : List UInt8) (k : Nat) (prior m : Message) (f : Frame) : Prop where
  valid       : validateMessageHeader (peekHeader l) = .success
  version     : (peekHeader l).version = serializationVersion
  long        : headerSize ≤ k
  declared    : (peekHeader l).messageSize.toNat ≤ k
  type        : (peekHeader l).type = f.type
  payloadSize : (peekHeader l).payloadSize.toNat = f.payload.length
  checksum    : (peekHeader l).checksum = checksum f.payload
  payload     : (l.drop headerSize).take f.payload.length = f.payload
  loaded      : m = prior.load f.type f.payload

/-- The version test is part of the header test. -/
theorem version_of_validate {h : MessageHeader} (hv : validateMessageHeader h = .success) :
    h.version = serializationVersion := by
  by_contra hne
  rw [validateMessageHeader, if_pos hne] at hv
  cases hv

/-- What passes the tests behind the length tests is one frame. -/
theorem accept_success {l : List UInt8} {header : MessageHeader} {prior m : Message}
    (hfit : headerSize + header.payloadSize.toNat ≤ l.length)
    (h : accept l header prior = (.success, m)) :
    ∃ f : Frame, header.type = f.type ∧ header.payloadSize.toNat = f.payload.length ∧
      header.checksum = checksum f.payload ∧
      (l.drop headerSize).take f.payload.length = f.payload ∧
      m = prior.load f.type f.payload := by
  rw [accept] at h
  by_cases hsum : checksum ((l.drop headerSize).take header.payloadSize.toNat) = header.checksum
  swap
  · rw [if_pos hsum] at h
    cases h
  rw [if_neg (not_not_intro hsum)] at h
  cases hsize : payloadSize header.type with
  | none =>
      rw [hsize] at h
      cases h
  | some size =>
      rw [hsize] at h
      dsimp only at h
      by_cases heq : header.payloadSize.toNat = size
      swap
      · rw [if_pos heq] at h
        cases h
      rw [if_neg (not_not_intro heq)] at h
      have hlen : ((l.drop headerSize).take size).length = size := by
        rw [List.length_take, List.length_drop]
        omega
      refine ⟨⟨header.type, (l.drop headerSize).take size, by rw [hsize, hlen]⟩, rfl, ?_, ?_,
        ?_, ?_⟩
      · rw [heq, hlen]
      · rw [← hsum, heq]
      · exact congrArg (fun j => (l.drop headerSize).take j) hlen
      · exact (congrArg Prod.snd h).symm

/-- Every successful decode is the acceptance of one frame. -/
theorem deserialize_success {buffer : Block UInt8 n} {k : Nat} (hk : k ≤ n)
    {prior m : Message} (h : deserializeMessage buffer k prior = .ok (.success, m)) :
    ∃ f, Accepted buffer.cells k prior m f := by
  by_cases hdeclared : Declared buffer k
  swap
  · obtain ⟨e, he, hrefused⟩ := deserialize_undeclared hk hdeclared prior
    rw [hrefused] at h
    cases h
    exact absurd rfl he
  rw [deserialize_declared hk hdeclared] at h
  by_cases hover : n < headerSize + (peekHeader buffer.cells).payloadSize.toNat
  · rw [if_pos hover] at h
    cases h
  rw [if_neg hover] at h
  have hfit : headerSize + (peekHeader buffer.cells).payloadSize.toNat
      ≤ buffer.cells.length := by
    rw [buffer.size]
    omega
  obtain ⟨f, htype, hsize, hsum, hpayload, hloaded⟩ := accept_success hfit (Except.ok.inj h)
  exact ⟨f, {
    valid := hdeclared.valid
    version := version_of_validate hdeclared.valid
    long := hdeclared.long
    declared := hdeclared.declared
    type := htype
    payloadSize := hsize
    checksum := hsum
    payload := hpayload
    loaded := hloaded }⟩

-- ── In-bounds reads ──────────────────────────────────────────────────────────

/-- A payload that fits keeps the decoder inside. -/
theorem deserialize_inside (buffer : Block UInt8 n) {k : Nat} (hk : k ≤ n) (msg : Message)
    (hfit : headerSize + (peekHeader buffer.cells).payloadSize.toNat ≤ n) :
    ∃ result, deserializeMessage buffer k msg = .ok result := by
  by_cases hdeclared : Declared buffer k
  · rw [deserialize_declared hk hdeclared, if_neg (by omega)]
    exact ⟨_, rfl⟩
  · obtain ⟨e, -, hrefused⟩ := deserialize_undeclared hk hdeclared msg
    exact ⟨_, hrefused⟩

/-- **Where the decoder stays inside its buffer.** Called on a buffer of exactly `n`
    bytes it reads past the end for the headers that pass every test and declare a
    payload that does not fit, and for no others. -/
theorem deserialize_stays_inside_iff (buffer : Block UInt8 n) (msg : Message) :
    (∃ result, deserializeMessage buffer n msg = .ok result) ↔
      ¬ (headerSize ≤ n ∧ validateMessageHeader (peekHeader buffer.cells) = .success ∧
        (peekHeader buffer.cells).messageSize.toNat ≤ n ∧
        n < headerSize + (peekHeader buffer.cells).payloadSize.toNat) := by
  constructor
  · rintro ⟨result, hresult⟩ ⟨hlong, hvalid, hmessage, hover⟩
    rw [deserialize_declared (Nat.le_refl n) ⟨hlong, hvalid, hmessage⟩, if_pos hover] at hresult
    cases hresult
  · intro hcond
    by_cases hfit : headerSize + (peekHeader buffer.cells).payloadSize.toNat ≤ n
    · exact deserialize_inside buffer (Nat.le_refl n) msg hfit
    have hundeclared : ¬ Declared buffer n := fun hdeclared =>
      hcond ⟨hdeclared.long, hdeclared.valid, hdeclared.declared, by omega⟩
    obtain ⟨e, -, hrefused⟩ := deserialize_undeclared (Nat.le_refl n) hundeclared msg
    exact ⟨_, hrefused⟩

/-- A message with an empty envelope and a cleared union. -/
def blank (t : CEnum MessageType) : Message := ⟨t, 0, 0, Block.fill unionSize 0⟩

/-- Twenty bytes that are a whole message by their `message_size` and announce one
    byte of payload: the checksum loop reads byte 20. -/
def overrunBuffer : Block UInt8 20 :=
  ⟨[1, 0, 0, 0, 20, 0, 0, 0, 2, 0, 0, 0, 1, 0, 0, 0, 0, 0, 0, 0], rfl⟩

theorem deserialize_overruns :
    ¬ ∀ (n : Nat) (buffer : Block UInt8 n) (msg : Message),
        ∃ result, deserializeMessage buffer n msg = .ok result := by
  intro hall
  obtain ⟨result, hresult⟩ := hall 20 overrunBuffer (blank (.known .orderNew))
  have hfault : deserializeMessage overrunBuffer 20 (blank (.known .orderNew))
      = .error ⟨20⟩ := rfl
  rw [hfault] at hresult
  exact nomatch hresult

-- ── The round trip at every receive length ───────────────────────────────────

/-- Encoding into the buffer succeeds with some length, and on every byte string that
    begins with the bytes written the decoder returns the message when it is given
    them all, and reports an incomplete message when it is given fewer. -/
def RoundTrips (m : Message) (buffer : Block UInt8 n) (bufferSize : Nat) : Prop :=
  ∃ (len : Nat) (out : Block UInt8 n),
    serializeMessage m buffer bufferSize = .ok ((len : Int), out) ∧ 0 < len ∧
    ∀ s : List UInt8, len ≤ s.length → s.take len = out.cells.take len →
      ∀ (k : Nat) (prior : Message), k ≤ s.length →
        (len ≤ k → ∃ m', deserializeMessage (Block.ofList (s.take k)) k prior
            = .ok (.success, m') ∧ m'.type = m.type ∧ payload m' = payload m) ∧
        (k < len → ∃ m', deserializeMessage (Block.ofList (s.take k)) k prior
            = .ok (.incomplete, m'))

/-- **The round trip**, for every message of a serializable type, every buffer with
    room for it, every continuation of the bytes and every cut. -/
theorem round_trip {m : Message} (hm : m.type ∈ serializableTypes)
    (buffer : Block UInt8 n) {bufferSize : Nat}
    (hroom : headerSize + (payload m).length ≤ bufferSize) (hbuffer : bufferSize ≤ n) :
    RoundTrips m buffer bufferSize := by
  obtain ⟨size, hsize⟩ := mem_serializableTypes.mp hm
  obtain ⟨f, hcarries, -⟩ := exists_carries hsize
  obtain ⟨htype, hpayload⟩ := id hcarries
  have hfsize : f.size = headerSize + f.payload.length := rfl
  rw [hpayload] at hroom
  obtain ⟨out, hser, hout⟩ := serialize_carries hcarries buffer (by omega) hbuffer
  refine ⟨f.size, out, hser, f.size_pos, ?_⟩
  intro s hlong hs k prior hk
  have hwritten : out.cells.take f.size = f.bytes := by
    rw [hout]
    exact List.take_left' f.length_bytes
  have hcut : (s.take k).length = k := by
    rw [List.length_take]
    omega
  rw [hwritten] at hs
  constructor
  · intro hle
    have hbegin : (s.take k).take f.size = f.bytes := by
      rw [List.take_take, Nat.min_eq_left hle, hs]
    refine ⟨prior.load f.type f.payload,
      deserialize_frame (by omega) hle hbegin prior, ?_, ?_⟩
    · rw [prior.load_type, htype]
    · rw [(carries_load prior f).2, hpayload]
  · intro hlt
    have hbegin : (s.take k).take k = f.bytes.take k := by
      rw [List.take_take, Nat.min_self, ← hs, List.take_take, Nat.min_eq_left (by omega)]
    exact ⟨prior, deserialize_cut (by omega) hlt hbegin prior⟩

theorem round_trip_blank_order :
    RoundTrips (blank (.known .orderNew)) (Block.fill bufferSize 0) bufferSize := by
  have hlen : (payload (blank (.known .orderNew))).length = 128 := (payload_eq rfl).2
  exact round_trip (by decide) _ (by rw [hlen]; decide) (Nat.le_refl _)

-- ── The encoder's image ──────────────────────────────────────────────────────

/-- The bytes `e` are what the encoder writes for `m`. -/
def Encodes (m : Message) (e : List UInt8) : Prop :=
  ∃ (n : Nat) (buffer out : Block UInt8 n),
    serializeMessage m buffer n = .ok ((e.length : Int), out) ∧ out.cells.take e.length = e

/-- Error codes are negative, hence not lengths. -/
theorem code_ne_length {e : SerializationError} (he : e ≠ .success) (k : Nat) :
    e.code ≠ (k : Int) := by
  have hneg : e.code < 0 := by
    cases e with
    | success => exact absurd rfl he
    | _ => decide
  omega

/-- A call of the encoder that returns an error code has not encoded anything. -/
theorem error_not_encoded {e : SerializationError} (he : e ≠ .success)
    {buffer out : Block UInt8 n} {k : Nat}
    (h : (.ok (e.code, buffer) : Checked (Int × Block UInt8 n)) = .ok ((k : Int), out)) :
    False :=
  code_ne_length he k (congrArg Prod.fst (Except.ok.inj h))

/-- Only messages of the serializable types are encoded. -/
theorem serializable_of_encodes {m : Message} {e : List UInt8} (h : Encodes m e) :
    ∃ size, payloadSize m.type = some size := by
  obtain ⟨n, buffer, out, hser, -⟩ := h
  rw [serializeMessage_switch] at hser
  by_cases hshort : n < headerSize
  · rw [if_pos hshort] at hser
    exact (error_not_encoded (e := .bufferOverflow) (by decide) hser).elim
  rw [if_neg hshort] at hser
  cases hsize : payloadSize m.type with
  | some size => exact ⟨size, rfl⟩
  | none =>
      rw [hsize] at hser
      exact (error_not_encoded (e := .invalidType) (by decide) hser).elim

/-- A message is encoded as the bytes of the frame it carries, and as nothing else. -/
theorem encodes_iff {m : Message} {f : Frame} (hm : Carries m f) (e : List UInt8) :
    Encodes m e ↔ e = f.bytes := by
  constructor
  · rintro ⟨n, buffer, out, hser, htake⟩
    by_cases hroom : f.size ≤ n
    · obtain ⟨out', hser', hout'⟩ := serialize_carries hm buffer hroom (Nat.le_refl n)
      rw [hser'] at hser
      have hpair := Except.ok.inj hser
      have hlen : f.size = e.length := Int.ofNat.inj (congrArg Prod.fst hpair)
      have hcells : out' = out := congrArg Prod.snd hpair
      rw [← hcells, ← hlen, hout', List.take_left' f.length_bytes] at htake
      exact htake.symm
    · have hfits : payloadSize m.type = some f.payload.length := by rw [hm.1]; exact f.fits
      have hroom' : n < headerSize + f.payload.length := by
        have hsize : f.size = headerSize + f.payload.length := rfl
        omega
      rw [serializeMessage_switch, hfits] at hser
      dsimp only at hser
      rw [serializeAs, if_pos hroom', ite_self] at hser
      exact (error_not_encoded (e := .bufferOverflow) (by decide) hser).elim
  · intro he
    obtain ⟨out, hser, hout⟩ :=
      serialize_carries hm (Block.fill f.size 0) (Nat.le_refl _) (Nat.le_refl _)
    refine ⟨f.size, Block.fill f.size 0, out, ?_, ?_⟩
    · rw [he, f.length_bytes]
      exact hser
    · rw [he, hout, List.take_left]

/-- An encoded message carries a frame, and the bytes are the bytes of that frame. -/
theorem exists_frame_of_encodes {m : Message} {e : List UInt8} (h : Encodes m e) :
    ∃ f, Carries m f ∧ e = f.bytes := by
  obtain ⟨size, hsize⟩ := serializable_of_encodes h
  obtain ⟨f, hf, -⟩ := exists_carries hsize
  exact ⟨f, hf, (encodes_iff hf e).mp h⟩

-- ── Canonical form ───────────────────────────────────────────────────────────

/-- The header of an accepted buffer is the header of its frame as soon as the two
    lengths agree; every other field is pinned down by the tests. -/
theorem accepted_header {l : List UInt8} {k : Nat} {prior m : Message} {f : Frame}
    (h : Accepted l k prior m f)
    (hlen : (peekHeader l).messageSize.toNat = headerSize + f.payload.length) :
    peekHeader l = f.header := by
  have hversion := h.version
  have htype := h.type
  have hsum := h.checksum
  have hmessage : (peekHeader l).messageSize = UInt32.ofNat f.size := by
    apply UInt32.toNat_inj.mp
    rw [hlen]
    exact f.size_toNat.symm
  have hpayload : (peekHeader l).payloadSize = UInt32.ofNat f.payload.length := by
    apply UInt32.toNat_inj.mp
    rw [h.payloadSize]
    exact f.payload_toNat.symm
  generalize peekHeader l = header at *
  obtain ⟨version, messageSize, type, size, sum⟩ := header
  simp only at hversion htype hsum hmessage hpayload
  rw [hversion, htype, hsum, hmessage, hpayload]
  rfl

/-- **The accepted strings and the encoder's image.** When a buffer is accepted as a
    message, its first `message_size` bytes are the encoding of that message exactly
    when `message_size` is the header size plus `payload_size`. -/
theorem accepted_is_image_iff {buffer : Block UInt8 n} {prior m : Message}
    (h : deserializeMessage buffer n prior = .ok (.success, m)) :
    Encodes m (buffer.cells.take (peekHeader buffer.cells).messageSize.toNat) ↔
      (peekHeader buffer.cells).messageSize.toNat =
        headerSize + (peekHeader buffer.cells).payloadSize.toNat := by
  obtain ⟨f, hf⟩ := deserialize_success (Nat.le_refl n) h
  have hcarries : Carries m f := by
    rw [hf.loaded]
    exact carries_load prior f
  have hlong := hf.long
  have hdeclared := hf.declared
  rw [encodes_iff hcarries, hf.payloadSize]
  constructor
  · intro heq
    have hlen := congrArg List.length heq
    rw [List.length_take, buffer.size, Nat.min_eq_left hdeclared, f.length_bytes] at hlen
    exact hlen
  · intro hlen
    have hheader := accepted_header hf hlen
    have himage : (buffer.cells.take headerSize).length = MessageHeader.codec.width := by
      rw [List.length_take, buffer.size, codec_width]
      omega
    have hencode := MessageHeader.codec.encode_decode _ himage
    rw [hlen, List.take_add, hf.payload, ← hencode, Frame.bytes, ← hheader]
    rfl

/-- A market data message of cleared payload, behind a header whose `message_size`
    covers the header alone. -/
def shortFrameBuffer : Block UInt8 124 :=
  ⟨[1, 0, 0, 0, 20, 0, 0, 0, 6, 0, 0, 0, 104, 0, 0, 0, 0, 0, 0, 0] ++ List.replicate 104 0,
    rfl⟩

theorem deserialize_shortFrame :
    deserializeMessage shortFrameBuffer 124 (blank (.known .none)) =
      .ok (.success, blank (.known .marketData)) := by
  decide +kernel

theorem accepted_is_image_iff_short_frame :
    Encodes (blank (.known .marketData))
        (shortFrameBuffer.cells.take (peekHeader shortFrameBuffer.cells).messageSize.toNat) ↔
      (peekHeader shortFrameBuffer.cells).messageSize.toNat =
        headerSize + (peekHeader shortFrameBuffer.cells).payloadSize.toNat :=
  accepted_is_image_iff deserialize_shortFrame

/-- The short frame is accepted, and its declared bytes encode no message. -/
theorem accepted_outside_image :
    ¬ ∀ (n : Nat) (buffer : Block UInt8 n) (prior m : Message),
        deserializeMessage buffer n prior = .ok (.success, m) →
        Encodes m (buffer.cells.take (peekHeader buffer.cells).messageSize.toNat) := by
  intro hall
  have himage := hall 124 shortFrameBuffer _ _ deserialize_shortFrame
  obtain ⟨f, -, hbytes⟩ := exists_frame_of_encodes himage
  have hlen := congrArg List.length hbytes
  have htwenty : (shortFrameBuffer.cells.take
      (peekHeader shortFrameBuffer.cells).messageSize.toNat).length = 20 := rfl
  rw [htwenty, f.length_bytes] at hlen
  rcases f.size_cases with h | h <;> omega

end TradeWire
