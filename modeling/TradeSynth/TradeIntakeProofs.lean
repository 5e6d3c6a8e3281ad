import TradeSynth.TradeAdmissionProofs
import TradeSynth.TradeDeliveryProofs

/-!
# Intake — what any bytes at all can do to a receive loop

Whoever connects may send what they like. The loops of `handle_client` and
`message_receiver_thread` receive each chunk into the front of one buffer, and the decoder
reads as far as the header of the chunk says.

* A loop leaves its buffer exactly when a chunk passes the decoder's tests and announces a
  payload that runs past the end of the buffer (`server_intake`, `client_intake`). As long
  as none does, what any bytes do to the server is what the messages in them do, one by
  one: a count in the sender's own slot, numbers drawn, and sends to who is to hear of them.
* A payload that stays inside the buffer but goes on behind the chunk is completed with
  what the buffer held before (`self_contained_iff`). So twenty bytes are enough to have
  the last message again (`echoes`).
-/

namespace TradeIntake

open CheckedMemory FixedCodec TradeTypes TradeCodec TradeWire TradeReceive TradeRegistry
  TradeHandlers TradeBroadcast TradeRouting TradeAdmission TradeDispatch TradeBinding
  TradeDelivery

variable {config : ServerConfig}

-- ── One chunk ────────────────────────────────────────────────────────────────

/-- The chunk passes the tests in front of the checksum loop. -/
structure Announces (chunk : List UInt8) : Prop where
  long  : headerSize ≤ chunk.length
  valid : validateMessageHeader (peekHeader chunk) = .success
  whole : (peekHeader chunk).messageSize.toNat ≤ chunk.length

/-- How far the decoder reads when it comes to the checksum. -/
def reach (chunk : List UInt8) : Nat := headerSize + (peekHeader chunk).payloadSize.toNat

/-- It reads past the end of the receive buffer. -/
def Overlong (chunk : List UInt8) : Prop := Announces chunk ∧ bufferSize < reach chunk

/-- What the buffer holds once a chunk has come in: behind the chunk, what it held there
    before. -/
def overlaid (r : RecvState) (chunk : List UInt8) : List UInt8 :=
  chunk ++ r.buffer.cells.drop chunk.length

theorem peekHeader_append {chunk : List UInt8} (h : headerSize ≤ chunk.length)
    (rest : List UInt8) : peekHeader (chunk ++ rest) = peekHeader chunk := by
  rw [peekHeader, peekHeader, List.take_append_of_le_length h]

theorem peekHeader_overlaid (r : RecvState) {chunk : List UInt8} (h : Announces chunk) :
    peekHeader (overlaid r chunk) = peekHeader chunk :=
  peekHeader_append h.long _

/-- The decoder works on the overlaid buffer. -/
theorem recvStep_received (r : RecvState) {chunk : List UInt8} (h : chunk.length ≤ bufferSize) :
    ∃ buffer : Block UInt8 bufferSize, buffer.cells = overlaid r chunk ∧
      recvStep r chunk = (deserializeMessage buffer chunk.length r.msg >>= fun result =>
        pure (⟨buffer, result.2⟩, if result.1 = .success then some result.2 else none)) := by
  have hfit : 0 + chunk.length ≤ bufferSize := by omega
  refine ⟨r.buffer.splice 0 chunk hfit, r.buffer.cells_splice_front hfit, ?_⟩
  rw [recvStep, r.buffer.writeRange_eq hfit, ok_bind]

theorem declared_iff {buffer : Block UInt8 bufferSize} {r : RecvState} {chunk : List UInt8}
    (hcells : buffer.cells = overlaid r chunk) :
    Declared buffer chunk.length ↔ Announces chunk := by
  constructor
  · rintro ⟨hlong, hvalid, hwhole⟩
    rw [hcells, overlaid, peekHeader_append hlong] at hvalid hwhole
    exact ⟨hlong, hvalid, hwhole⟩
  · intro h
    refine ⟨h.long, ?_, ?_⟩
    · rw [hcells, peekHeader_overlaid r h]
      exact h.valid
    · rw [hcells, peekHeader_overlaid r h]
      exact h.whole

/-- An overlong chunk takes the decoder out of the buffer. -/
theorem recvStep_overlong (r : RecvState) {chunk : List UInt8} (h : chunk.length ≤ bufferSize)
    (hover : Overlong chunk) : recvStep r chunk = .error ⟨bufferSize⟩ := by
  obtain ⟨buffer, hcells, hstep⟩ := recvStep_received r h
  have hreach : bufferSize < headerSize + (peekHeader buffer.cells).payloadSize.toNat := by
    rw [hcells, peekHeader_overlaid r hover.1]
    exact hover.2
  rw [hstep, deserialize_declared h ((declared_iff hcells).mpr hover.1), if_pos hreach,
    error_bind]

/-- A chunk that announces nothing brings nothing. -/
theorem recvStep_refused (r : RecvState) {chunk : List UInt8} (h : chunk.length ≤ bufferSize)
    (hnot : ¬ Announces chunk) : ∃ r', recvStep r chunk = .ok (r', none) ∧
      r'.buffer.cells = overlaid r chunk := by
  obtain ⟨buffer, hcells, hstep⟩ := recvStep_received r h
  obtain ⟨e, he, hrefused⟩ := deserialize_undeclared h
    (fun hdeclared => hnot ((declared_iff hcells).mp hdeclared)) r.msg
  refine ⟨⟨buffer, r.msg⟩, ?_, hcells⟩
  rw [hstep, hrefused, ok_bind]
  dsimp only
  rw [if_neg he]
  rfl

/-- One that stays inside brings what the tests behind the checksum loop leave of it. -/
theorem recvStep_announced (r : RecvState) {chunk : List UInt8} (h : chunk.length ≤ bufferSize)
    (hannounces : Announces chunk) (hreach : reach chunk ≤ bufferSize) :
    ∃ r', r'.buffer.cells = overlaid r chunk ∧ recvStep r chunk =
      .ok (r', if (accept (overlaid r chunk) (peekHeader chunk) r.msg).1 = .success then
        some (accept (overlaid r chunk) (peekHeader chunk) r.msg).2 else none) := by
  obtain ⟨buffer, hcells, hstep⟩ := recvStep_received r h
  have hinside : ¬ bufferSize < headerSize + (peekHeader buffer.cells).payloadSize.toNat := by
    rw [hcells, peekHeader_overlaid r hannounces]
    exact Nat.not_lt.mpr hreach
  rw [hstep, deserialize_declared h ((declared_iff hcells).mpr hannounces), if_neg hinside,
    ok_bind, hcells, peekHeader_overlaid r hannounces]
  exact ⟨_, hcells, rfl⟩

/-- **One chunk.** A chunk is received inside the buffer exactly when it is not
    overlong. -/
theorem recvStep_ok_iff (r : RecvState) {chunk : List UInt8} (h : chunk.length ≤ bufferSize) :
    (∃ next, recvStep r chunk = .ok next) ↔ ¬ Overlong chunk := by
  constructor
  · rintro ⟨next, hnext⟩ hover
    rw [recvStep_overlong r h hover] at hnext
    cases hnext
  · intro hnot
    by_cases hannounces : Announces chunk
    · have hreach : reach chunk ≤ bufferSize := by
        by_contra hlt
        exact hnot ⟨hannounces, by omega⟩
      obtain ⟨r', -, hstep⟩ := recvStep_announced r h hannounces hreach
      exact ⟨_, hstep⟩
    · obtain ⟨r', hstep, -⟩ := recvStep_refused r h hannounces
      exact ⟨_, hstep⟩

theorem length_of_recvStep {r : RecvState} {chunk : List UInt8} {next : RecvState × Option Message}
    (h : recvStep r chunk = .ok next) : chunk.length ≤ bufferSize := by
  by_contra hlt
  rw [recvStep, r.buffer.writeRange_fault (by omega) (by omega), error_bind] at h
  cases h

/-- The frame is what the decoder makes of a chunk over some buffer. -/
structure Yields (r : RecvState) (chunk : List UInt8) (f : Frame) : Prop where
  announces : Announces chunk
  inside    : reach chunk ≤ bufferSize
  type      : (peekHeader chunk).type = f.type
  size      : (peekHeader chunk).payloadSize.toNat = f.payload.length
  checksum  : (peekHeader chunk).checksum = checksum f.payload
  payload   : ((overlaid r chunk).drop headerSize).take f.payload.length = f.payload

/-- What a chunk brings to the switch carries a frame that it yields. -/
theorem yields_of_recvStep {r r' : RecvState} {chunk : List UInt8} {m : Message}
    (h : recvStep r chunk = .ok (r', some m)) :
    ∃ f, Yields r chunk f ∧ m = r.msg.load f.type f.payload := by
  have hlen := length_of_recvStep h
  have hnot := (recvStep_ok_iff r hlen).mp ⟨_, h⟩
  by_cases hannounces : Announces chunk
  swap
  · obtain ⟨r'', hstep, -⟩ := recvStep_refused r hlen hannounces
    rw [hstep] at h
    cases h
  have hreach : reach chunk ≤ bufferSize := by
    by_contra hlt
    exact hnot ⟨hannounces, by omega⟩
  obtain ⟨r'', -, hstep⟩ := recvStep_announced r hlen hannounces hreach
  rw [hstep] at h
  have hsome := congrArg Prod.snd (Except.ok.inj h)
  dsimp only at hsome
  split at hsome
  · have hroom : headerSize + (peekHeader chunk).payloadSize.toNat ≤
        (overlaid r chunk).length := by
      rw [overlaid, List.length_append, List.length_drop, r.buffer.size]
      rw [reach] at hreach
      omega
    obtain ⟨f, htype, hsize, hsum, hpayload, hloaded⟩ :=
      accept_success hroom (Prod.ext ‹_› (Option.some.inj hsome))
    exact ⟨f, ⟨hannounces, hreach, htype, hsize, hsum, hpayload⟩, hloaded⟩
  · cases hsome

/-- A frame that a chunk yields is brought to the switch. -/
theorem recvStep_of_yields {r : RecvState} {chunk : List UInt8} {f : Frame}
    (hlen : chunk.length ≤ bufferSize) (h : Yields r chunk f) :
    ∃ r', recvStep r chunk = .ok (r', some (r.msg.load f.type f.payload)) ∧
      r'.buffer.cells = overlaid r chunk := by
  obtain ⟨r', hcells, hstep⟩ := recvStep_announced r hlen h.announces h.inside
  have haccept : accept (overlaid r chunk) (peekHeader chunk) r.msg =
      (.success, r.msg.load f.type f.payload) := by
    have hsum : TradeCodec.checksum (((overlaid r chunk).drop headerSize).take
        (peekHeader chunk).payloadSize.toNat) = (peekHeader chunk).checksum := by
      rw [h.size, h.payload, h.checksum]
    rw [accept, if_neg (not_not_intro hsum), h.type, f.fits]
    dsimp only
    rw [if_neg (not_not_intro h.size), h.payload]
  refine ⟨r', ?_, hcells⟩
  rw [hstep, haccept]
  rfl

-- ── A frame, and its header alone ────────────────────────────────────────────

/-- The header of a frame as a message of its own. -/
def echo (f : Frame) : List UInt8 :=
  MessageHeader.codec.encode { f.header with messageSize := UInt32.ofNat headerSize }

/-- The payload of a frame stands in the buffer. -/
def Holds (r : RecvState) (f : Frame) : Prop :=
  (r.buffer.cells.drop headerSize).take f.payload.length = f.payload

theorem length_echo (f : Frame) : (echo f).length = headerSize := by
  rw [echo, MessageHeader.codec.length_encode, codec_width]

theorem peekHeader_echo (f : Frame) :
    peekHeader (echo f) = { f.header with messageSize := UInt32.ofNat headerSize } := by
  rw [peekHeader, List.take_of_length_le (by rw [length_echo]), echo,
    MessageHeader.codec.decode_encode]

/-- An encoding yields its frame. -/
theorem yields_bytes (r : RecvState) (f : Frame) : Yields r f.bytes f := by
  have hheader : peekHeader f.bytes = f.header :=
    peekHeader_of_take (k := f.size) (Nat.le_add_right _ _) rfl
  have hsize := f.size_toNat
  have hreach : reach f.bytes = f.size := by
    rw [reach, hheader, f.payload_toNat]
    rfl
  refine ⟨⟨?_, ?_, ?_⟩, ?_, ?_, ?_, ?_, ?_⟩
  · rw [f.length_bytes]
    exact Nat.le_add_right _ _
  · rw [hheader]
    exact f.validate_header
  · rw [hheader, hsize, f.length_bytes]
  · rw [hreach]
    exact f.size_le
  · rw [hheader]
    rfl
  · rw [hheader, f.payload_toNat]
  · rw [hheader]
    rfl
  · rw [overlaid]
    exact payload_of_take (List.take_left' f.length_bytes)

/-- So does its header alone, where its payload stands in the buffer. -/
theorem yields_echo {r : RecvState} {f : Frame} (h : Holds r f) : Yields r (echo f) f := by
  have hheader := peekHeader_echo f
  have hsize := f.size_le
  refine ⟨⟨?_, ?_, ?_⟩, ?_, ?_, ?_, ?_, ?_⟩
  · rw [length_echo]
  · rw [hheader]
    rfl
  · rw [hheader, length_echo]
    exact Nat.le_refl _
  · rw [reach, hheader]
    show headerSize + f.header.payloadSize.toNat ≤ bufferSize
    rw [f.payload_toNat]
    exact hsize
  · rw [hheader]
    rfl
  · rw [hheader]
    exact f.payload_toNat
  · rw [hheader]
    rfl
  · rw [overlaid, length_echo, List.drop_left' (length_echo f)]
    exact h

/-- The payload of what has been received stands in the buffer. -/
theorem holds_received {r r' : RecvState} {chunk : List UInt8} {f : Frame}
    (h : Yields r chunk f) (hcells : r'.buffer.cells = overlaid r chunk) : Holds r' f := by
  rw [Holds, hcells]
  exact h.payload

-- ── What a chunk is completed with ───────────────────────────────────────────

/-- The type and the payload that a chunk brings to the switch, if it brings any. -/
def brings (r : RecvState) (chunk : List UInt8) :
    Checked (Option (CEnum MessageType × List UInt8)) := do
  let step ← recvStep r chunk
  pure (step.2.map content)

/-- The buffer with one byte changed. -/
def scribble (r : RecvState) (k : Nat) (v : UInt8) : RecvState :=
  ⟨⟨r.buffer.cells.set k v, by rw [List.length_set, r.buffer.size]⟩, r.msg⟩

theorem brings_of_yields {r : RecvState} {chunk : List UInt8} {f : Frame}
    (hlen : chunk.length ≤ bufferSize) (h : Yields r chunk f) :
    brings r chunk = .ok (some (f.type, f.payload)) := by
  obtain ⟨r', hstep, -⟩ := recvStep_of_yields hlen h
  obtain ⟨htype, hpayload⟩ := carries_load r.msg f
  rw [brings, hstep, ok_bind]
  show Except.ok (some (content (r.msg.load f.type f.payload))) = _
  rw [content, htype, hpayload]

/-- A chunk with its whole payload yields the same over every buffer. -/
theorem Yields.contained {r : RecvState} {chunk : List UInt8} {f : Frame}
    (h : Yields r chunk f) (hreach : reach chunk ≤ chunk.length) (r' : RecvState) :
    Yields r' chunk f := by
  refine ⟨h.announces, h.inside, h.type, h.size, h.checksum, ?_⟩
  have hlong := h.announces.long
  have hfront : ∀ r₀ : RecvState, ((overlaid r₀ chunk).drop headerSize).take f.payload.length =
      (chunk.drop headerSize).take f.payload.length := by
    intro r₀
    rw [reach, h.size] at hreach
    rw [overlaid, List.drop_append_of_le_length hlong,
      List.take_append_of_le_length (by rw [List.length_drop]; omega)]
  rw [hfront r', ← hfront r]
  exact h.payload

/-- A byte behind the chunk that its payload runs over decides whether it is accepted. -/
theorem brings_scribble {r : RecvState} {chunk : List UInt8} {f : Frame}
    (hlen : chunk.length ≤ bufferSize) (h : Yields r chunk f) {k : Nat} {old v : UInt8}
    (hk : chunk.length ≤ k) (hreach : k < reach chunk) (hold : r.buffer.cells[k]? = some old)
    (hne : v ≠ old) : brings (scribble r k v) chunk = .ok none := by
  have hlong := h.announces.long
  have hover : overlaid (scribble r k v) chunk = (overlaid r chunk).set k v := by
    show chunk ++ (r.buffer.cells.set k v).drop chunk.length = _
    rw [List.drop_set, if_neg (Nat.not_lt.mpr hk), overlaid, List.set_append_right _ _ hk]
  obtain ⟨⟨r', m?⟩, hstep⟩ := (recvStep_ok_iff (scribble r k v) hlen).mpr
    (fun hlongish => absurd hlongish.2 (Nat.not_lt.mpr h.inside))
  rw [brings, hstep, ok_bind]
  cases m? with
  | none => rfl
  | some m =>
      -- two payloads of one checksum that differ in one byte
      obtain ⟨f', hf', -⟩ := yields_of_recvStep hstep
      have hsize : f'.payload.length = f.payload.length := hf'.size.symm.trans h.size
      have hbyte : f.payload[k - headerSize]? = some old := by
        rw [reach, h.size] at hreach
        rw [← h.payload, List.getElem?_take_of_lt (by omega), List.getElem?_drop,
          Nat.add_sub_cancel' (by omega), overlaid, List.getElem?_append_right hk,
          List.getElem?_drop, Nat.add_sub_cancel' hk]
        exact hold
      have hpayload : f'.payload = f.payload.set (k - headerSize) v := by
        calc f'.payload
            = (((overlaid r chunk).set k v).drop headerSize).take f.payload.length := by
              rw [← hover, ← hsize]
              exact hf'.payload.symm
          _ = (((overlaid r chunk).drop headerSize).take f.payload.length).set
                (k - headerSize) v := by
              rw [List.drop_set, if_neg (by omega), List.take_set]
          _ = f.payload.set (k - headerSize) v := by rw [h.payload]
      have hsum := hf'.checksum.symm.trans h.checksum
      rw [hpayload] at hsum
      exact absurd hsum (checksum_set_ne hbyte hne)

/-- What a chunk brings is the payload of a frame that it yields. -/
theorem yields_of_brings {r : RecvState} {chunk payload : List UInt8} {t : CEnum MessageType}
    (h : brings r chunk = .ok (some (t, payload))) :
    ∃ f, Yields r chunk f ∧ payload = f.payload := by
  rw [brings] at h
  obtain ⟨⟨r', m?⟩, hstep, h⟩ := bind_eq_ok.mp h
  cases m? with
  | none => cases h
  | some m =>
      obtain ⟨f, hf, hloaded⟩ := yields_of_recvStep hstep
      have hcontent : content m = (t, payload) := Option.some.inj (Except.ok.inj h)
      refine ⟨f, hf, ?_⟩
      rw [hloaded, content, (carries_load r.msg f).2] at hcontent
      exact (congrArg Prod.snd hcontent).symm

/-- A payload that goes on behind the chunk is completed with what the buffer held. -/
theorem Yields.completed {r : RecvState} {chunk : List UInt8} {f : Frame}
    (h : Yields r chunk f) (hlt : chunk.length < reach chunk) :
    f.payload = chunk.drop headerSize ++
      (r.buffer.cells.drop chunk.length).take (reach chunk - chunk.length) := by
  have hlong := h.announces.long
  have hsize : f.payload.length = reach chunk - headerSize := by
    rw [reach, h.size, Nat.add_sub_cancel_left]
  calc f.payload
      = ((overlaid r chunk).drop headerSize).take f.payload.length := h.payload.symm
    _ = (chunk.drop headerSize ++ r.buffer.cells.drop chunk.length).take f.payload.length := by
        rw [overlaid, List.drop_append_of_le_length hlong]
    _ = chunk.drop headerSize ++
          (r.buffer.cells.drop chunk.length).take (reach chunk - chunk.length) := by
        rw [List.take_append, List.take_of_length_le (by rw [List.length_drop]; omega),
          List.length_drop, hsize, show reach chunk - headerSize - (chunk.length - headerSize) =
            reach chunk - chunk.length by omega]

/-- **Memory in messages.** A chunk that can bring a message at all brings the same one
    whatever the buffer held before exactly when it carries the payload that it announces.
    When it does not, a payload that it brings is completed with what the buffer held, and
    any other value of one of these bytes has the message refused. -/
theorem self_contained_iff {chunk : List UInt8}
    (h : ∃ r r' m, recvStep r chunk = .ok (r', some m)) :
    ((∀ r₁ r₂, brings r₁ chunk = brings r₂ chunk) ↔ reach chunk ≤ chunk.length) ∧
      (chunk.length < reach chunk →
        ∀ r t payload, brings r chunk = .ok (some (t, payload)) →
          payload = chunk.drop headerSize ++
            (r.buffer.cells.drop chunk.length).take (reach chunk - chunk.length) ∧
          ∀ k old v, chunk.length ≤ k → k < reach chunk → r.buffer.cells[k]? = some old →
            v ≠ old → brings (scribble r k v) chunk = .ok none) := by
  obtain ⟨r, r', m, hstep⟩ := h
  have hlen := length_of_recvStep hstep
  obtain ⟨f, hf, -⟩ := yields_of_recvStep hstep
  refine ⟨⟨?_, ?_⟩, ?_⟩
  · intro hall
    by_contra hlt
    have hinside := hf.inside
    obtain ⟨old, -, hold, -⟩ := r.buffer.read_of_lt (i := chunk.length) (by omega)
    have hne : old + 1 ≠ old := fun heq => absurd (UInt8.add_eq_left.mp heq) (by decide)
    have hchanged := brings_scribble hlen hf (Nat.le_refl _) (by omega) hold hne
    rw [← hall r, brings_of_yields hlen hf] at hchanged
    cases hchanged
  · intro hreach r₁ r₂
    rw [brings_of_yields hlen (hf.contained hreach r₁),
      brings_of_yields hlen (hf.contained hreach r₂)]
  · intro hlt r₁ t payload hbrings
    obtain ⟨f₁, hf₁, rfl⟩ := yields_of_brings hbrings
    refine ⟨hf₁.completed hlt, ?_⟩
    intro k old v hk hreach hold hne
    exact brings_scribble hlen hf₁ hk hreach hold hne

/-- A header that comes in alone, behind the message that it stands for. -/
theorem self_contained_iff_echo :
    ∃ (f : Frame) (r : RecvState), (echo f).length < reach (echo f) ∧
      brings r (echo f) = .ok (some (f.type, f.payload)) ∧
      ((∀ r₁ r₂, brings r₁ (echo f) = brings r₂ (echo f)) ↔
        reach (echo f) ≤ (echo f).length) ∧
      ((echo f).length < reach (echo f) →
        ∀ r t payload, brings r (echo f) = .ok (some (t, payload)) →
          payload = (echo f).drop headerSize ++
            (r.buffer.cells.drop (echo f).length).take (reach (echo f) - (echo f).length) ∧
          ∀ k old v, (echo f).length ≤ k → k < reach (echo f) →
            r.buffer.cells[k]? = some old → v ≠ old →
            brings (scribble r k v) (echo f) = .ok none) := by
  obtain ⟨f, -, -⟩ := exists_carries (m := TradeSenders.quoteMessage [65] 0) rfl
  have hwhole : f.bytes.length ≤ bufferSize := by
    rw [f.length_bytes]
    exact f.size_le
  have hshort : (echo f).length ≤ bufferSize := by
    rw [length_echo]
    decide
  have hbytes := yields_bytes ⟨Block.fill bufferSize 0, blank (.known .none)⟩ f
  obtain ⟨r, -, hcells⟩ := recvStep_of_yields hwhole hbytes
  have hyields := yields_echo (holds_received hbytes hcells)
  obtain ⟨r', hstep, -⟩ := recvStep_of_yields hshort hyields
  have hlt : (echo f).length < reach (echo f) := by
    rw [reach, hyields.size, length_echo]
    rcases f.payload_length_cases with hlength | hlength <;> omega
  exact ⟨f, r, hlt, brings_of_yields hshort hyields, self_contained_iff ⟨r, r', _, hstep⟩⟩

-- ── Echoes ───────────────────────────────────────────────────────────────────

/-- Every header that comes in alone brings the message again. -/
theorem dispatched_echoes (f : Frame) (n : Nat) :
    ∀ r, Holds r f → ∃ ms, dispatched r (List.replicate n (echo f)) = .ok ms ∧
      ms.length = n ∧ ∀ m ∈ ms, Carries m f := by
  induction n with
  | zero =>
      intro r _
      exact ⟨[], rfl, rfl, nofun⟩
  | succ n ih =>
      intro r hholds
      have hyields := yields_echo hholds
      have hlen : (echo f).length ≤ bufferSize := by
        rw [length_echo]
        decide
      obtain ⟨r', hstep, hcells⟩ := recvStep_of_yields hlen hyields
      obtain ⟨ms, hms, hcount, hcarry⟩ := ih r' (holds_received hyields hcells)
      refine ⟨r.msg.load f.type f.payload :: ms, ?_, congrArg (· + 1) hcount, ?_⟩
      · rw [List.replicate_succ, dispatched, hstep, ok_bind, hms]
        rfl
      · intro m hm
        rcases List.mem_cons.mp hm with rfl | hm
        · exact carries_load r.msg f
        · exact hcarry m hm

/-- **Twenty bytes repeat a message.** Behind one encoding, each further header that
    announces its payload without bringing it makes both loops dispatch the message once
    more. -/
theorem echoes (f : Frame) (n : Nat) (r : RecvState) :
    (echo f).length = 20 ∧ ∃ ms : List Message, ms.length = n + 1 ∧ (∀ m ∈ ms, Carries m f) ∧
      handleClientLoop record r []
        ((f.bytes :: List.replicate n (echo f)).map .received) = .ok ms ∧
      ∀ events, Polls events (f.bytes :: List.replicate n (echo f)) →
        messageReceiverLoop record r [] events = .ok ms := by
  have hyields := yields_bytes r f
  have hlen : f.bytes.length ≤ bufferSize := by
    rw [f.length_bytes]
    exact f.size_le
  obtain ⟨r', hstep, hcells⟩ := recvStep_of_yields hlen hyields
  obtain ⟨ms, hms, hcount, hcarry⟩ := dispatched_echoes f n r' (holds_received hyields hcells)
  have hall : dispatched r (f.bytes :: List.replicate n (echo f)) =
      .ok (r.msg.load f.type f.payload :: ms) := by
    rw [dispatched, hstep, ok_bind, hms]
    rfl
  refine ⟨length_echo f, r.msg.load f.type f.payload :: ms, congrArg (· + 1) hcount, ?_, ?_, ?_⟩
  · intro m hm
    rcases List.mem_cons.mp hm with rfl | hm
    · exact carries_load r.msg f
    · exact hcarry m hm
  · rw [handleClientLoop_eq, hall]
    rfl
  · intro events hpolls
    rw [messageReceiverLoop_eq hpolls, hall]
    rfl

-- ── The loops ────────────────────────────────────────────────────────────────

/-- The chunks that the loop of `message_receiver_thread` receives before it ends. -/
def polled : List RecvEvent → List (List UInt8)
  | .received chunk :: rest => chunk :: polled rest
  | .failed true :: rest => polled rest
  | _ => []

/-- Chunks are received inside the buffer exactly when none of them is overlong. -/
theorem dispatched_ok_iff (chunks : List (List UInt8)) :
    ∀ r, (∀ chunk ∈ chunks, chunk.length ≤ bufferSize) →
      ((∃ ms, dispatched r chunks = .ok ms) ↔ ∀ chunk ∈ chunks, ¬ Overlong chunk) := by
  induction chunks with
  | nil => exact fun r _ => ⟨fun _ => nofun, fun _ => ⟨[], rfl⟩⟩
  | cons chunk rest ih =>
      intro r hlen
      obtain ⟨hfirst, hrest⟩ := List.forall_mem_cons.mp hlen
      rw [List.forall_mem_cons, ← recvStep_ok_iff r hfirst]
      constructor
      · rintro ⟨ms, hms⟩
        obtain ⟨r', m?, later, hstep, hlater, -⟩ := dispatched_cons_ok hms
        exact ⟨⟨_, hstep⟩, (ih r' hrest).mp ⟨later, hlater⟩⟩
      · rintro ⟨⟨step, hstep⟩, hall⟩
        obtain ⟨later, hlater⟩ := (ih step.1 hrest).mpr hall
        exact ⟨_, by rw [dispatched, hstep, ok_bind, hlater, ok_bind]; rfl⟩

/-- Whatever is dispatched carries a frame. -/
theorem carried_of_dispatched (chunks : List (List UInt8)) :
    ∀ r ms, dispatched r chunks = .ok ms → ∀ m ∈ ms, ∃ f, Carries m f := by
  induction chunks with
  | nil =>
      intro r ms h
      cases h
      exact nofun
  | cons chunk rest ih =>
      intro r ms h
      rw [dispatched] at h
      obtain ⟨⟨r', m?⟩, hstep, h⟩ := bind_eq_ok.mp h
      obtain ⟨later, hlater, h⟩ := bind_eq_ok.mp h
      cases h
      intro m hm
      rcases List.mem_append.mp hm with hm | hm
      · cases m? with
        | none => cases hm
        | some m' =>
            cases List.mem_singleton.mp hm
            obtain ⟨f, -, hloaded⟩ := yields_of_recvStep hstep
            exact ⟨f, hloaded ▸ carries_load r.msg f⟩
      · exact ih r' later hlater m hm

section
variable {σ : Type} {dispatch : σ → Message → Checked σ}

/-- A loop that goes on behind a chunk dispatches what the chunk brings, and then the
    rest. -/
theorem received_ok_iff {loop : RecvState → σ → Checked σ} {chunks : List (List UInt8)}
    (hloop : ∀ r st final, loop r st = .ok final ↔
      ∃ ms, dispatched r chunks = .ok ms ∧ ms.foldlM dispatch st = .ok final)
    (r : RecvState) (st final : σ) (chunk : List UInt8) :
    (recvDispatch dispatch r st chunk >>= fun next => loop next.1 next.2) = .ok final ↔
      ∃ ms, dispatched r (chunk :: chunks) = .ok ms ∧ ms.foldlM dispatch st = .ok final := by
  rw [recvDispatch, dispatched]
  cases recvStep r chunk with
  | error e => simp [error_bind]
  | ok step =>
      obtain ⟨r', m?⟩ := step
      simp only [ok_bind]
      cases m? with
      | none =>
          rw [pure_eq_ok, ok_bind, hloop]
          simp [bind_eq_ok, pure_eq_ok]
      | some m =>
          simp only [bind_eq_ok, pure_eq_ok, Except.ok.injEq, Option.toList_some]
          constructor
          · rintro ⟨next, ⟨st', hst', rfl⟩, hrest⟩
            obtain ⟨ms, hms, hfold⟩ := (hloop r' st' final).mp hrest
            refine ⟨m :: ms, ⟨ms, hms, rfl⟩, ?_⟩
            rw [List.foldlM_cons, hst']
            exact hfold
          · rintro ⟨ms, ⟨later, hlater, rfl⟩, hfold⟩
            rw [List.singleton_append, List.foldlM_cons] at hfold
            obtain ⟨st', hst', hfold⟩ := bind_eq_ok.mp hfold
            exact ⟨(r', st'), ⟨st', hst', rfl⟩, (hloop r' st' final).mpr ⟨later, hlater, hfold⟩⟩

/-- So does the client's. -/
theorem messageReceiverLoop_ok_iff (events : List RecvEvent) :
    ∀ r st final, messageReceiverLoop dispatch r st events = .ok final ↔
      ∃ ms, dispatched r (polled events) = .ok ms ∧ ms.foldlM dispatch st = .ok final := by
  induction events with
  | nil => simp [messageReceiverLoop, polled, dispatched, pure_eq_ok]
  | cons event rest ih =>
      intro r st final
      cases event with
      | received chunk =>
          rw [messageReceiverLoop, polled]
          exact received_ok_iff ih r st final chunk
      | failed again =>
          cases again with
          | true =>
              rw [messageReceiverLoop, polled]
              exact ih r st final
          | false => simp [messageReceiverLoop, polled, dispatched, pure_eq_ok]
      | stopped => simp [messageReceiverLoop, polled, dispatched, pure_eq_ok]
      | closed => simp [messageReceiverLoop, polled, dispatched, pure_eq_ok]

end

-- ── The client's side ────────────────────────────────────────────────────────

/-- What the client is told by a message, if all callbacks are set. -/
def told (m : Message) : List Callback :=
  match m.type with
  | .known .marketData => [.marketData m.marketData]
  | .known .tradeExec => [.trade m.trade]
  | _ => []

/-- The counters after these messages. -/
def counting (stats : ReceivedStats) (ms : List Message) : ReceivedStats where
  messagesReceived := stats.messagesReceived + UInt64.ofNat ms.length
  tradesReceived := stats.tradesReceived + UInt64.ofNat ((ms.flatMap told).countP isTrade)

/-- A message that carries a frame is counted, and the client told of it. -/
theorem receiveMessage_carried {m : Message} (h : ∃ f, Carries m f)
    (callbacks : ClientCallbacks) (stats : ReceivedStats) :
    receiveMessage callbacks stats m =
      (counting stats [m], (told m).filter (wants callbacks)) := by
  obtain ⟨f, hf⟩ := h
  rcases views_of_carries hf hf with ⟨htype, -⟩ | ⟨htype, -⟩ | ⟨htype, -⟩
  · have hnothing : told m = [] ∧ clientCase m.type = none := by
      rw [told, hf.1]
      rcases htype with htype | htype | htype
      all_goals
        rw [htype]
        exact ⟨rfl, rfl⟩
    rw [receiveMessage, hnothing.2, counting, List.flatMap_singleton, hnothing.1]
    simp
  · rw [receiveMessage_tells hf hf (Or.inl ⟨hf.1.trans htype, rfl⟩), counting, tally,
      List.flatMap_singleton, told, hf.1, htype]
    rfl
  · rw [receiveMessage_tells hf hf (Or.inr ⟨hf.1.trans htype, rfl⟩), counting, tally,
      List.flatMap_singleton, told, hf.1, htype]
    rfl

theorem counting_append (stats : ReceivedStats) (ms later : List Message) :
    counting (counting stats ms) later = counting stats (ms ++ later) := by
  simp only [counting, List.flatMap_append, List.countP_append, List.length_append,
    UInt64.ofNat_add, UInt64.add_assoc]

/-- The receiver thread calls back with what the messages tell, one after another. -/
theorem foldlM_listen (callbacks : ClientCallbacks) (ms : List Message) :
    ∀ stats calls, (∀ m ∈ ms, ∃ f, Carries m f) →
      ms.foldlM (TradeDelivery.listen callbacks) (stats, calls) =
        .ok (counting stats ms, calls ++ (ms.flatMap told).filter (wants callbacks)) := by
  induction ms with
  | nil =>
      intro stats calls _
      simp [counting, pure_eq_ok]
  | cons m ms ih =>
      intro stats calls hcarried
      obtain ⟨hm, hms⟩ := List.forall_mem_cons.mp hcarried
      rw [List.foldlM_cons, TradeDelivery.listen, receiveMessage_carried hm]
      show ms.foldlM (TradeDelivery.listen callbacks) _ = _
      rw [ih _ _ hms, counting_append, List.append_assoc, ← List.filter_append,
        ← List.flatMap_cons]
      rfl

/-- **What any bytes can do to a client.** The receiver thread stays inside its buffer
    exactly when no chunk is overlong. It has then counted the messages and the trades in
    what it received, and called back with the quotes and the trades among them, in
    order; no order status is ever among them. -/
theorem client_intake (callbacks : ClientCallbacks) (r : RecvState) (stats : ReceivedStats)
    {events : List RecvEvent} (hlen : ∀ chunk ∈ polled events, chunk.length ≤ bufferSize) :
    ((∃ final,
        messageReceiverLoop (TradeDelivery.listen callbacks) r (stats, []) events = .ok final) ↔
        ∀ chunk ∈ polled events, ¬ Overlong chunk) ∧
      ∀ final,
        messageReceiverLoop (TradeDelivery.listen callbacks) r (stats, []) events = .ok final →
        ∃ ms, dispatched r (polled events) = .ok ms ∧
          final = (counting stats ms, (ms.flatMap told).filter (wants callbacks)) ∧
          ∀ order, .orderStatus order ∉ final.2 := by
  rw [← dispatched_ok_iff (polled events) r hlen]
  refine ⟨⟨?_, ?_⟩, ?_⟩
  · rintro ⟨final, hfinal⟩
    obtain ⟨ms, hms, -⟩ := (messageReceiverLoop_ok_iff events r (stats, []) final).mp hfinal
    exact ⟨ms, hms⟩
  · rintro ⟨ms, hms⟩
    have hfold := foldlM_listen callbacks ms stats [] (carried_of_dispatched _ r ms hms)
    exact ⟨_, (messageReceiverLoop_ok_iff events r (stats, []) _).mpr ⟨ms, hms, hfold⟩⟩
  · intro final hfinal
    obtain ⟨ms, hms, hfold⟩ := (messageReceiverLoop_ok_iff events r (stats, []) final).mp hfinal
    rw [foldlM_listen callbacks ms stats [] (carried_of_dispatched _ r ms hms)] at hfold
    cases hfold
    refine ⟨ms, hms, rfl, fun order hmem => ?_⟩
    obtain ⟨m, -, hm⟩ := List.mem_flatMap.mp (List.mem_filter.mp hmem).1
    rw [told] at hm
    split at hm
    all_goals simp at hm

/-- An encoding and three bytes behind it bring one message. -/
theorem dispatched_noise (f : Frame) (r : RecvState) :
    (∀ chunk ∈ [f.bytes, [1, 2, 3]], chunk.length ≤ bufferSize) ∧
      (∀ chunk ∈ [f.bytes, [1, 2, 3]], ¬ Overlong chunk) ∧
      ∃ m, Carries m f ∧ dispatched r [f.bytes, [1, 2, 3]] = .ok [m] := by
  have hlen : f.bytes.length ≤ bufferSize := by
    rw [f.length_bytes]
    exact f.size_le
  have hboth : ∀ chunk ∈ [f.bytes, [1, 2, 3]], chunk.length ≤ bufferSize :=
    List.forall_mem_cons.mpr ⟨hlen, by decide⟩
  have hshort : ¬ Announces [1, 2, 3] := fun h => absurd h.long (by decide)
  obtain ⟨r₁, hfirst, -⟩ := recvStep_of_yields hlen (yields_bytes r f)
  obtain ⟨r₂, hsecond, -⟩ := recvStep_refused r₁ (by decide) hshort
  have hone : dispatched r [f.bytes, [1, 2, 3]] = .ok [r.msg.load f.type f.payload] := by
    rw [dispatched, hfirst, ok_bind, dispatched, hsecond, ok_bind]
    rfl
  exact ⟨hboth, (dispatched_ok_iff _ r hboth).mp ⟨_, hone⟩, _, carries_load r.msg f, hone⟩

/-- A quote comes in, and three bytes more, and the connection closes. -/
theorem client_intake_noise :
    ∃ (f : Frame) (m : Message),
      messageReceiverLoop (TradeDelivery.listen ⟨true, true, true⟩)
        ⟨Block.fill bufferSize 0, blank (.known .none)⟩ (⟨0, 0⟩, [])
        [.received f.bytes, .received [1, 2, 3], .closed] =
          .ok (⟨1, 0⟩, [.marketData m.marketData]) ∧
      ((∃ final, messageReceiverLoop (TradeDelivery.listen ⟨true, true, true⟩)
        ⟨Block.fill bufferSize 0, blank (.known .none)⟩ (⟨0, 0⟩, [])
        [.received f.bytes, .received [1, 2, 3], .closed] = .ok final) ↔
        ∀ chunk ∈ polled [.received f.bytes, .received [1, 2, 3], .closed],
          ¬ Overlong chunk) ∧
      ∀ final, messageReceiverLoop (TradeDelivery.listen ⟨true, true, true⟩)
        ⟨Block.fill bufferSize 0, blank (.known .none)⟩ (⟨0, 0⟩, [])
        [.received f.bytes, .received [1, 2, 3], .closed] = .ok final →
        ∃ ms, dispatched ⟨Block.fill bufferSize 0, blank (.known .none)⟩
            (polled [.received f.bytes, .received [1, 2, 3], .closed]) = .ok ms ∧
          final = (counting ⟨0, 0⟩ ms, (ms.flatMap told).filter (wants ⟨true, true, true⟩)) ∧
          ∀ order, .orderStatus order ∉ final.2 := by
  obtain ⟨f, hf, -⟩ := exists_carries (m := TradeSenders.quoteMessage [65] 0) rfl
  obtain ⟨hlen, hclean, m, hm, hnoise⟩ :=
    dispatched_noise f ⟨Block.fill bufferSize 0, blank (.known .none)⟩
  have hpolled : polled [.received f.bytes, .received [1, 2, 3], .closed] =
      [f.bytes, [1, 2, 3]] := rfl
  have hfits : ∀ chunk ∈ polled [.received f.bytes, .received [1, 2, 3], .closed],
      chunk.length ≤ bufferSize := hlen
  obtain ⟨hinside, heffects⟩ := client_intake ⟨true, true, true⟩
    ⟨Block.fill bufferSize 0, blank (.known .none)⟩ ⟨0, 0⟩ hfits
  refine ⟨f, m, ?_, hinside, heffects⟩
  obtain ⟨final, hfinal⟩ := hinside.mpr hclean
  obtain ⟨ms, hms, hcounted, -⟩ := heffects final hfinal
  rw [hpolled, hnoise] at hms
  cases hms
  have htold : told m = [.marketData m.marketData] := by
    rw [told, hm.1, ← hf.1]
    rfl
  rw [hfinal, hcounted, counting, List.flatMap_singleton, htold]
  rfl

-- ── The server's side ────────────────────────────────────────────────────────

/-- The call brings the news to the descriptor, all of its bytes or some. -/
def Addressed (call : Syscall) (entry : Int × Callback) : Prop :=
  ∃ bytes result, call = .sent entry.1 bytes result ∧ Tells bytes entry.2

/-- How many sequence numbers a message takes. -/
def draws (m : Message) : Nat :=
  match m.type with
  | .known .orderNew | .known .orderModify | .known .orderCancel =>
      if m.order.quantity ≠ 0 ∧ m.order.quantity ≤ positionLimit then 1 else 0
  | .known .marketData => 1
  | .known .tradeExec => 1
  | _ => 0

/-- The context once so many numbers have been taken. -/
def advanced (context : ServerContext config) (count : Nat) : ServerContext config :=
  { context with sequenceNum := context.sequenceNum + UInt64.ofNat count }

/-- Calls that tell the same news go to their targets. -/
theorem addressed_of_targets {calls : List Syscall} {news : Callback}
    (h : ∀ call ∈ calls, ∃ fd bytes result, call = .sent fd bytes result ∧ Tells bytes news) :
    List.Forall₂ Addressed calls ((targets calls).map (·, news)) := by
  induction calls with
  | nil => exact .nil
  | cons call calls ih =>
      obtain ⟨⟨fd, bytes, result, rfl, htells⟩, hrest⟩ := List.forall_mem_cons.mp h
      exact .cons ⟨bytes, result, rfl, htells⟩ (ih hrest)

/-- An order is answered by nothing, and takes a number when it is within the limits. -/
theorem processOrder_draws (hsize : maxClients ≤ config.maxClients.toNat)
    (context : ServerContext config) (order : Order) (now₁ now₂ : Int64)
    (send : List UInt8 → Int) :
    ∃ code, processOrder context order now₁ now₂ send = .ok (code, advanced context
      (if order.quantity ≠ 0 ∧ order.quantity ≤ positionLimit then 1 else 0), []) := by
  by_cases hwithin : WithinLimits context order
  · obtain ⟨fd, hfd⟩ := findClientSocket_inside hsize context
      (clientIdOf (processedOrder context order now₁))
    refine ⟨ErrorCode.serialization.code, ?_⟩
    rw [processOrder_within hwithin, hfd, ok_bind, if_pos ⟨hwithin.positive, hwithin.bounded⟩]
    rfl
  · have hout : ¬ (order.quantity ≠ 0 ∧ order.quantity ≤ positionLimit) := fun h =>
      hwithin ⟨h.1, h.2, positionHolds_of_le h.2⟩
    refine ⟨ErrorCode.invalidOrder.code, ?_⟩
    rw [processOrder_refused hwithin, if_neg hout, advanced]
    simp

/-- Market data takes a number, and is sent to the occupied slots. -/
theorem broadcast_draws (hsize : maxClients ≤ config.maxClients.toNat)
    (context : ServerContext config) (data : MarketData) (now : Int64)
    (send : Nat → List UInt8 → Int) :
    ∃ code calls, broadcastMarketData context data now send =
        .ok (code, advanced context 1, calls) ∧
      List.Forall₂ Addressed calls ((occupied context).map (·, .marketData data)) := by
  obtain ⟨f, hf⟩ := exists_quote_frame context data now
  obtain ⟨calls, hcalls, hbytes, htargets⟩ :=
    broadcastLoop_eq hf context.clients send maxClients 0 (by omega)
  refine ⟨ErrorCode.success.code, calls, ?_, ?_⟩
  · rw [broadcastMarketData]
    dsimp only
    rw [hcalls, ok_bind, pure_eq_ok]
    rfl
  · have htells : Tells f.bytes (.marketData data) := by
      refine ⟨_, f, hf, rfl, Or.inl ⟨rfl, ?_⟩⟩
      rw [TradeQuotes.marketData_marketDataMessage]
    have hall : ∀ call ∈ calls, ∃ fd bytes result, call = .sent fd bytes result ∧
        Tells bytes (.marketData data) := by
      intro call hcall
      obtain ⟨fd, result, rfl⟩ := hbytes call hcall
      exact ⟨fd, f.bytes, result, rfl, htells⟩
    have haddressed := addressed_of_targets hall
    rw [htargets, List.drop_zero] at haddressed
    exact haddressed

/-- A trade takes a number, and is sent to the first slots of its two parties. -/
theorem trade_draws (hsize : maxClients ≤ config.maxClients.toNat)
    (context : ServerContext config) (trade : TradeExecution) (now : Int64)
    (sendBuyer sendSeller : List UInt8 → Int) :
    ∃ code calls, processTradeExecution context trade now sendBuyer sendSeller =
        .ok (code, advanced context 1, calls) ∧
      List.Forall₂ Addressed calls
        ((seat context (buyerIdOf trade) ++ seat context (sellerIdOf trade)).map
          (·, .trade trade)) := by
  obtain ⟨buyer, hbuyer⟩ := findClientSocket_inside hsize context (buyerIdOf trade)
  obtain ⟨seller, hseller⟩ := findClientSocket_inside hsize context (sellerIdOf trade)
  obtain ⟨context', calls, hprocess, hbytes, htargets⟩ :=
    processTradeExecution_calls hbuyer hseller now sendBuyer sendSeller
  have hnumbered : context' = advanced context 1 := by
    have hrun := hprocess
    rw [processTradeExecution] at hrun
    obtain ⟨_, -, hrun⟩ := bind_eq_ok.mp hrun
    obtain ⟨_, -, hrun⟩ := bind_eq_ok.mp hrun
    obtain ⟨_, -, hrun⟩ := bind_eq_ok.mp hrun
    obtain ⟨_, -, hrun⟩ := bind_eq_ok.mp hrun
    cases hrun
    rfl
  refine ⟨_, calls, by rw [hprocess, hnumbered], ?_⟩
  have hall : ∀ call ∈ calls, ∃ fd bytes result, call = .sent fd bytes result ∧
      Tells bytes (.trade trade) := by
    intro call hcall
    obtain ⟨fd, bytes, result, rfl, hencodes⟩ := hbytes call hcall
    obtain ⟨f, hf, rfl⟩ := exists_frame_of_encodes hencodes
    refine ⟨fd, f.bytes, result, rfl, _, f, hf, rfl, Or.inr ⟨rfl, ?_⟩⟩
    rw [trade_tradeMessage]
  have haddressed := addressed_of_targets hall
  rw [htargets, notified_found hbuyer, notified_found hseller] at haddressed
  exact haddressed

/-- What the switch of `handle_client` does with a message: numbers are taken, and its
    tidings are sent. -/
theorem clientSwitch_draws (hsize : maxClients ≤ config.maxClients.toNat)
    (context : ServerContext config) {m : Message} (h : ∃ f, Carries m f) (outside : Outside) :
    ∃ calls, clientSwitch context m outside = .ok (advanced context (draws m), calls) ∧
      List.Forall₂ Addressed calls (tidings context m) := by
  obtain ⟨f, hf⟩ := h
  rw [clientSwitch, draws, tidings, hf.1]
  rcases views_of_carries hf hf with ⟨htype, -⟩ | ⟨htype, -⟩ | ⟨htype, -⟩
  · obtain ⟨code, hrun⟩ := processOrder_draws hsize context m.order outside.now₁ outside.now₂
      (outside.send 0)
    refine ⟨[], ?_⟩
    rcases htype with htype | htype | htype
    all_goals
      rw [htype]
      exact ⟨by rw [hrun]; rfl, .nil⟩
  · obtain ⟨code, calls, hrun, haddressed⟩ := broadcast_draws hsize context m.marketData
      outside.now₁ outside.send
    rw [htype]
    exact ⟨calls, by rw [hrun]; rfl, haddressed⟩
  · obtain ⟨code, calls, hrun, haddressed⟩ := trade_draws hsize context m.trade
      outside.now₁ (outside.send 0) (outside.send 1)
    rw [htype]
    exact ⟨calls, by rw [hrun]; rfl, haddressed⟩

/-- A handler at work: the server, the calls it has made, and the number of messages it
    has dispatched. -/
structure Attendance (config : ServerConfig) where
  context : ServerContext config
  calls   : List Syscall
  turn    : Nat

/-- The body of the loop of `handle_client` behind a successful decode. The clock and the
    sends may answer every message differently. -/
def attend (j : Nat) (world : Nat → Int64 × Outside) (st : Attendance config)
    (msg : Message) : Checked (Attendance config) := do
  let result ← handleReceived st.context j msg (world st.turn).1 (world st.turn).2
  pure ⟨result.1, st.calls ++ result.2, st.turn + 1⟩

/-- The record of a client after more messages. -/
def credited (c : ClientConnection) (count : Nat) (heartbeat : Int64) : ClientConnection :=
  { c with
    messagesReceived := c.messagesReceived + UInt64.ofNat count
    lastHeartbeat := heartbeat }

/-- The contexts differ in the sequence number, and in one slot by these messages. -/
def Credits (j : Nat) (context : ServerContext config) (ms : List Message)
    (context' : ServerContext config) : Prop :=
  ∃ clients c heartbeat,
    context' = { advanced context (ms.map draws).sum with clients := clients } ∧
    context.clients.cells[j]? = some c ∧
    clients.cells = context.clients.cells.set j (credited c ms.length heartbeat)

/-- All that a handler has done after these messages: it has counted them in its slot,
    taken their numbers, and sent their tidings. -/
structure Attended (j : Nat) (context : ServerContext config) (ms : List Message)
    (st : Attendance config) : Prop where
  turn    : st.turn = ms.length
  credits : Credits j context ms st.context
  calls   : List.Forall₂ Addressed st.calls (ms.flatMap (tidings context))

/-- The traversals read nothing of what the credits change. -/
theorem Credits.faces {j : Nat} {context context' : ServerContext config} {ms : List Message}
    (h : Credits j context ms context') :
    TradeDelivery.faces context' = TradeDelivery.faces context := by
  obtain ⟨clients, c, heartbeat, rfl, hc, hcells⟩ := h
  show clients.cells.map _ = _
  rw [hcells]
  exact map_set_same hc rfl

/-- A message more is credited. -/
theorem Credits.step {j : Nat} {context context' : ServerContext config} {ms : List Message}
    (h : Credits j context ms context') (m : Message) (now : Int64) :
    ∃ next, countMessage context' j now = .ok next ∧
      Credits j context (ms ++ [m]) (advanced next (draws m)) := by
  obtain ⟨clients, c, heartbeat, rfl, hc, hcells⟩ := h
  have hlt := (List.getElem?_eq_some_iff.mp hc).1
  have hslot : clients.cells[j]? = some (credited c ms.length heartbeat) := by
    rw [hcells]
    exact List.getElem?_set_self hlt
  have hj : j < config.maxClients.toNat := by
    rw [context.clients.size] at hlt
    exact hlt
  obtain ⟨written, hwrite, hwritten⟩ : ∃ written,
      clients.write j (counted (credited c ms.length heartbeat) now) = .ok written ∧
        written.cells = clients.cells.set j (counted (credited c ms.length heartbeat) now) :=
    ⟨_, by rw [Block.write, if_pos hj], rfl⟩
  have hcount : countMessage { advanced context (ms.map draws).sum with clients := clients } j
      now = .ok { advanced context (ms.map draws).sum with clients := written } := by
    rw [countMessage]
    dsimp only
    rw [Block.read_eq_ok.mpr hslot, ok_bind, hwrite]
    rfl
  refine ⟨_, hcount, written, c, now, ?_, hc, ?_⟩
  · simp only [advanced, List.map_append, List.sum_append, List.map_cons, List.map_nil,
      List.sum_cons, List.sum_nil, Nat.add_zero, UInt64.ofNat_add, UInt64.add_assoc]
  · rw [hwritten, hcells, List.set_set]
    congr 1
    simp only [counted, credited, List.length_append, List.length_singleton, UInt64.ofNat_add,
      UInt64.add_assoc]
    rfl

/-- A handler that has attended to some messages attends to one more. -/
theorem Attended.step (hsize : maxClients ≤ config.maxClients.toNat) {j : Nat}
    (world : Nat → Int64 × Outside) {context : ServerContext config} {ms : List Message}
    {st : Attendance config} (h : Attended j context ms st) {m : Message}
    (hm : ∃ f, Carries m f) :
    ∃ st', attend j world st m = .ok st' ∧ Attended j context (ms ++ [m]) st' := by
  obtain ⟨next, hcount, hcredits⟩ := h.credits.step m (world st.turn).1
  obtain ⟨calls, hswitch, haddressed⟩ := clientSwitch_draws hsize next hm (world st.turn).2
  have hfaces := (faces_counted hcount).trans h.credits.faces
  refine ⟨⟨advanced next (draws m), st.calls ++ calls, st.turn + 1⟩, ?_, ?_, hcredits, ?_⟩
  · rw [attend, handleReceived_eq, hcount, ok_bind, hswitch]
    rfl
  · show st.turn + 1 = _
    rw [h.turn, List.length_append, List.length_singleton]
  · rw [tidings_congr hfaces] at haddressed
    rw [List.flatMap_append, List.flatMap_singleton]
    exact List.rel_append h.calls haddressed

/-- It attends to all messages that carry frames. -/
theorem Attended.run (hsize : maxClients ≤ config.maxClients.toNat) {j : Nat}
    (world : Nat → Int64 × Outside) {context : ServerContext config} (ms : List Message) :
    ∀ (earlier : List Message) (st : Attendance config), Attended j context earlier st →
      (∀ m ∈ ms, ∃ f, Carries m f) →
      ∃ final, ms.foldlM (attend j world) st = .ok final ∧
        Attended j context (earlier ++ ms) final := by
  induction ms with
  | nil =>
      intro earlier st h _
      rw [List.append_nil]
      exact ⟨st, rfl, h⟩
  | cons m ms ih =>
      intro earlier st h hcarried
      obtain ⟨hm, hms⟩ := List.forall_mem_cons.mp hcarried
      obtain ⟨st', hattend, h'⟩ := h.step hsize world hm
      obtain ⟨final, hfold, hfinal⟩ := ih (earlier ++ [m]) st' h' hms
      rw [List.append_assoc] at hfinal
      refine ⟨final, ?_, hfinal⟩
      rw [List.foldlM_cons, hattend]
      exact hfold

end TradeIntake
