import TradeSynth.TradeWireProofs

/-!
# What the codec leaves alone — failed decoding, encoding into a larger buffer

The decoder reads the header into a local and runs its tests on that. Up to the
checksum it has written nothing; then it stores the type, and only then looks whether
it knows the type and whether the payload has the size of that type. A frame that fails
there leaves a destination with a new type in front of its old payload
(`decode_atomic_iff`).

The encoder writes within the message it reports, and nothing at all when it reports an
error (`serialize_outcome`).
-/

namespace TradeAtomic

open CheckedMemory FixedCodec TradeTypes TradeCodec TradeWire

variable {n : Nat}

-- ── The decoder ──────────────────────────────────────────────────────────────

/-- The decoder gets as far as storing the type: the header is there and passes its
    test, the declared message is there, and the checksum is right. -/
structure Stores (buffer : Block UInt8 n) (k : Nat) : Prop where
  long     : headerSize ≤ k
  valid    : validateMessageHeader (peekHeader buffer.cells) = .success
  declared : (peekHeader buffer.cells).messageSize.toNat ≤ k
  checksum : checksum ((buffer.cells.drop headerSize).take
    (peekHeader buffer.cells).payloadSize.toNat) = (peekHeader buffer.cells).checksum

/-- The type is one the switch knows, and the payload has the size of its struct. -/
def Sized (header : MessageHeader) : Prop :=
  payloadSize header.type = some header.payloadSize.toNat

/-- Behind the checksum the type is stored, whatever becomes of the payload. -/
theorem accept_cases (l : List UInt8) (header : MessageHeader) (prior : Message) :
    (checksum ((l.drop headerSize).take header.payloadSize.toNat) ≠ header.checksum ∧
      accept l header prior = (.checksum, prior)) ∨
    (checksum ((l.drop headerSize).take header.payloadSize.toNat) = header.checksum ∧
      ((Sized header ∧ (accept l header prior).1 = .success) ∨
        (¬ Sized header ∧ (accept l header prior).1 ≠ .success ∧
          (accept l header prior).2 = { prior with type := header.type }))) := by
  rw [accept]
  by_cases hsum : checksum ((l.drop headerSize).take header.payloadSize.toNat) = header.checksum
  swap
  · exact Or.inl ⟨hsum, by rw [if_pos hsum]⟩
  refine Or.inr ⟨hsum, ?_⟩
  rw [if_neg (not_not_intro hsum), Sized]
  cases payloadSize header.type with
  | none => exact Or.inr ⟨fun h => (by cases h), fun h => (by cases h), rfl⟩
  | some size =>
      by_cases hsize : header.payloadSize.toNat = size
      · left
        simp [hsize]
      · right
        refine ⟨fun h => hsize (Option.some.inj h).symm, ?_⟩
        simp [hsize]

/-- What the decoder can end with, and what it leaves in the destination. -/
theorem decode_cases {buffer : Block UInt8 n} {k : Nat} (hk : k ≤ n) {prior m : Message}
    {e : SerializationError} (h : deserializeMessage buffer k prior = .ok (e, m)) :
    (¬ Stores buffer k ∧ e ≠ .success ∧ m = prior) ∨
      (Stores buffer k ∧ Sized (peekHeader buffer.cells) ∧ e = .success) ∨
      (Stores buffer k ∧ ¬ Sized (peekHeader buffer.cells) ∧ e ≠ .success ∧
        m = { prior with type := (peekHeader buffer.cells).type }) := by
  by_cases hdeclared : Declared buffer k
  swap
  · obtain ⟨e', he, hrefused⟩ := deserialize_undeclared hk hdeclared prior
    rw [hrefused] at h
    cases h
    exact Or.inl ⟨fun hs => hdeclared ⟨hs.long, hs.valid, hs.declared⟩, he, rfl⟩
  rw [deserialize_declared hk hdeclared] at h
  split at h
  · cases h
  have hresult : accept buffer.cells (peekHeader buffer.cells) prior = (e, m) := Except.ok.inj h
  rcases accept_cases buffer.cells (peekHeader buffer.cells) prior with
    ⟨hsum, haccept⟩ | ⟨hsum, hcases⟩
  · rw [hresult] at haccept
    cases haccept
    exact Or.inl ⟨fun hs => hsum hs.checksum, nofun, rfl⟩
  · have hstores : Stores buffer k :=
      ⟨hdeclared.long, hdeclared.valid, hdeclared.declared, hsum⟩
    rw [hresult] at hcases
    rcases hcases with ⟨hsized, hsuccess⟩ | ⟨hsized, herror, hm⟩
    · exact Or.inr (Or.inl ⟨hstores, hsized, hsuccess⟩)
    · exact Or.inr (Or.inr ⟨hstores, hsized, herror, hm⟩)

/-- **Failed decoding.** It leaves the destination as it was, unless the frame passes
    all tests up to the checksum, has no case in the switch or a payload of another
    size than its case demands, and has a type that the destination had not. -/
theorem decode_atomic_iff {buffer : Block UInt8 n} {k : Nat} (hk : k ≤ n)
    {prior m : Message} {e : SerializationError}
    (h : deserializeMessage buffer k prior = .ok (e, m)) :
    (e ≠ .success → m = prior) ↔
      ¬ (Stores buffer k ∧ ¬ Sized (peekHeader buffer.cells) ∧
        (peekHeader buffer.cells).type ≠ prior.type) := by
  rcases decode_cases hk h with ⟨hstores, -, hm⟩ | ⟨-, hsized, he⟩ | ⟨hstores, hsized, he, hm⟩
  · exact iff_of_true (fun _ => hm) (fun hbad => hstores hbad.1)
  · exact iff_of_true (fun hne => absurd he hne) (fun hbad => hbad.2.1 hsized)
  · subst hm
    constructor
    · intro hkept hbad
      exact hbad.2.2 (congrArg Message.type (hkept he))
    · intro hgood _
      have htype : (peekHeader buffer.cells).type = prior.type := by
        by_contra hne
        exact hgood ⟨hstores, hsized, hne⟩
      rw [htype]

/-- A heartbeat without a payload: a header and nothing else. -/
def heartbeatBuffer : Block UInt8 20 :=
  ⟨[1, 0, 0, 0, 20, 0, 0, 0, 1, 0, 0, 0, 0, 0, 0, 0, 0, 0, 0, 0], rfl⟩

theorem deserialize_heartbeat :
    deserializeMessage heartbeatBuffer 20 (blank (.known .none)) =
      .ok (.invalidType, blank (.known .heartbeat)) := by
  decide +kernel

theorem decode_atomic_iff_heartbeat :
    (SerializationError.invalidType ≠ .success →
        blank (.known .heartbeat) = blank (.known .none)) ↔
      ¬ (Stores heartbeatBuffer 20 ∧ ¬ Sized (peekHeader heartbeatBuffer.cells) ∧
        (peekHeader heartbeatBuffer.cells).type ≠ (blank (.known .none)).type) :=
  decode_atomic_iff (Nat.le_refl 20) deserialize_heartbeat

/-- The decoder refuses the heartbeat, and the destination has become one. -/
theorem refused_type_stored :
    ¬ ∀ (n : Nat) (buffer : Block UInt8 n) (prior m : Message) (e : SerializationError),
        deserializeMessage buffer n prior = .ok (e, m) → e ≠ .success → m = prior := by
  intro hall
  have hsame := hall 20 heartbeatBuffer _ _ _ deserialize_heartbeat (by decide)
  exact absurd (congrArg Message.type hsame) (by decide)

-- ── The encoder ──────────────────────────────────────────────────────────────

/-- The type is serializable, and the buffer has room for the header and its payload. -/
def Fits (m : Message) (bufferSize : Nat) : Prop :=
  ∃ size, payloadSize m.type = some size ∧ headerSize + size ≤ bufferSize

/-- Without room or without a case the encoder returns an error and writes nothing. -/
theorem serialize_refused {m : Message} {bufferSize : Nat} (h : ¬ Fits m bufferSize)
    (buffer : Block UInt8 n) :
    ∃ e : SerializationError, e ≠ .success ∧
      serializeMessage m buffer bufferSize = .ok (e.code, buffer) := by
  rw [serializeMessage_switch]
  by_cases hshort : bufferSize < headerSize
  · exact ⟨.bufferOverflow, by decide, by rw [if_pos hshort]⟩
  rw [if_neg hshort]
  cases hsize : payloadSize m.type with
  | none => exact ⟨.invalidType, by decide, rfl⟩
  | some size =>
      refine ⟨.bufferOverflow, by decide, ?_⟩
      have hroom : bufferSize < headerSize + size := by
        by_contra hle
        exact h ⟨size, hsize, by omega⟩
      show serializeAs m buffer bufferSize size = _
      rw [serializeAs, if_pos hroom]

/-- **Encoding.** In memory of at least `buffer_size` bytes, of exactly that many too,
    the encoder stays inside. It succeeds exactly for the serializable types with room
    for the header and the payload, and returns the sum of their sizes; the header it
    has written is valid and states both sizes, and the bytes behind the message are
    untouched. When it returns an error, all bytes are. -/
theorem serialize_outcome (m : Message) (buffer : Block UInt8 n) {bufferSize : Nat}
    (hbuffer : bufferSize ≤ n) :
    ∃ r out, serializeMessage m buffer bufferSize = .ok (r, out) ∧
      (0 ≤ r ↔ m.type ∈ serializableTypes ∧
        headerSize + (payloadSize m.type).getD 0 ≤ bufferSize) ∧
      (0 ≤ r → r = ((headerSize + (payloadSize m.type).getD 0 : Nat) : Int) ∧
        validateMessageHeader (peekHeader out.cells) = .success ∧
        ((peekHeader out.cells).messageSize.toNat : Int) = r ∧
        ((peekHeader out.cells).payloadSize.toNat : Int) = r - headerSize ∧
        out.cells.drop r.toNat = buffer.cells.drop r.toNat) ∧
      (r < 0 → out = buffer) := by
  have hfits : Fits m bufferSize ↔ m.type ∈ serializableTypes ∧
      headerSize + (payloadSize m.type).getD 0 ≤ bufferSize := by
    rw [mem_serializableTypes, Fits]
    constructor
    · rintro ⟨size, hsize, hroom⟩
      exact ⟨⟨size, hsize⟩, by rw [hsize]; exact hroom⟩
    · rintro ⟨⟨size, hsize⟩, hroom⟩
      rw [hsize] at hroom
      exact ⟨size, hsize, hroom⟩
  rw [← hfits]
  by_cases hroom : Fits m bufferSize
  · obtain ⟨size, hsize, hle⟩ := hroom
    obtain ⟨f, hf, hlen⟩ := exists_carries hsize
    have hsum : f.size = headerSize + size := by rw [Frame.size, hlen]
    obtain ⟨out, hser, hout⟩ := serialize_carries hf buffer (by omega) hbuffer
    have hheader : peekHeader out.cells = f.header := by
      refine peekHeader_of_take (k := f.size) (by omega) ?_
      rw [hout, List.take_left' f.length_bytes, ← f.length_bytes, List.take_length]
    refine ⟨f.size, out, hser, iff_of_true (by omega) ⟨size, hsize, hle⟩, ?_, by omega⟩
    intro _
    rw [hheader, f.size_toNat, f.payload_toNat, hsize]
    refine ⟨by rw [hsum]; rfl, f.validate_header, rfl, by rw [hlen]; omega, ?_⟩
    rw [Int.toNat_natCast, hout, List.drop_left' f.length_bytes]
  · obtain ⟨e, he, hser⟩ := serialize_refused hroom buffer
    have hneg : e.code < 0 := by
      cases e with
      | success => exact absurd rfl he
      | _ => decide
    exact ⟨e.code, buffer, hser, iff_of_false (by omega) hroom, fun h => absurd h (by omega),
      fun _ => rfl⟩

theorem serialize_outcome_blank_order :
    ∃ r out, serializeMessage (blank (.known .orderNew)) (Block.fill 148 0) 148 =
        .ok (r, out) ∧
      (0 ≤ r ↔ (blank (.known .orderNew)).type ∈ serializableTypes ∧
        headerSize + (payloadSize (blank (.known .orderNew)).type).getD 0 ≤ 148) ∧
      (0 ≤ r → r =
          ((headerSize + (payloadSize (blank (.known .orderNew)).type).getD 0 : Nat) : Int) ∧
        validateMessageHeader (peekHeader out.cells) = .success ∧
        ((peekHeader out.cells).messageSize.toNat : Int) = r ∧
        ((peekHeader out.cells).payloadSize.toNat : Int) = r - headerSize ∧
        out.cells.drop r.toNat = (Block.fill 148 (0 : UInt8)).cells.drop r.toNat) ∧
      (r < 0 → out = Block.fill 148 0) :=
  serialize_outcome _ _ (Nat.le_refl 148)

end TradeAtomic
