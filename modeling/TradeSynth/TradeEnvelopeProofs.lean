import TradeSynth.TradeReceiveProofs

/-!
# The envelope — sequence number and timestamp do not travel

A `Message` has an envelope around its union: the sequence number and the timestamp.
The header has no field for either, the encoder writes neither, and the decoder stores
the type and the payload only. The envelope of a decoded message is therefore that of
the destination, whatever the outcome (`deserialize_envelope`), and it is the sender's
exactly when the destination held the sender's before (`envelope_survives_iff`).

Both receive loops decode into one local message, so that every message a loop passes
on carries the envelope that the local happened to have at the start
(`dispatched_envelope`).
-/

namespace TradeEnvelope

open CheckedMemory FixedCodec TradeTypes TradeCodec TradeWire TradeReceive

variable {n : Nat}

-- ── The decoder keeps the destination's envelope ─────────────────────────────

/-- The two messages agree in the members outside the union. -/
def SameEnvelope (m m' : Message) : Prop :=
  m'.sequenceNum = m.sequenceNum ∧ m'.timestamp = m.timestamp

theorem SameEnvelope.refl (m : Message) : SameEnvelope m m := ⟨rfl, rfl⟩

theorem SameEnvelope.trans {m m' m'' : Message} (h : SameEnvelope m m')
    (h' : SameEnvelope m' m'') : SameEnvelope m m'' :=
  ⟨h'.1.trans h.1, h'.2.trans h.2⟩

theorem sameEnvelope_load (m : Message) (t : CEnum MessageType) (payload : List UInt8) :
    SameEnvelope m (m.load t payload) := by
  simp [SameEnvelope]

theorem accept_envelope (l : List UInt8) (header : MessageHeader) (msg : Message) :
    SameEnvelope msg (accept l header msg).2 := by
  rw [accept]
  by_cases hsum : checksum ((l.drop headerSize).take header.payloadSize.toNat) = header.checksum
  swap
  · rw [if_pos hsum]
    exact SameEnvelope.refl msg
  rw [if_neg (not_not_intro hsum)]
  cases payloadSize header.type with
  | none => exact ⟨rfl, rfl⟩
  | some size =>
      by_cases hsize : header.payloadSize.toNat = size
      · simp only [hsize, ne_eq, not_true_eq_false, if_false]
        exact sameEnvelope_load msg _ _
      · simp only [hsize, ne_eq, not_false_eq_true, if_true]
        exact ⟨rfl, rfl⟩

/-- Whatever the decoder returns, the destination keeps its envelope. -/
theorem deserialize_envelope {buffer : Block UInt8 n} {k : Nat} (hk : k ≤ n)
    {prior m : Message} {e : SerializationError}
    (h : deserializeMessage buffer k prior = .ok (e, m)) : SameEnvelope prior m := by
  by_cases hdeclared : Declared buffer k
  swap
  · obtain ⟨e', -, hrefused⟩ := deserialize_undeclared hk hdeclared prior
    rw [hrefused] at h
    cases h
    exact SameEnvelope.refl prior
  rw [deserialize_declared hk hdeclared] at h
  split at h
  · cases h
  · have hm : m = (accept buffer.cells (peekHeader buffer.cells) prior).2 :=
      (congrArg Prod.snd (Except.ok.inj h)).symm
    rw [hm]
    exact accept_envelope _ _ _

-- ── Over the wire ────────────────────────────────────────────────────────────

/-- Decoding the bytes that were written for `m` into `prior` succeeds and leaves the
    envelope of `m` there. -/
def EnvelopeSurvives (m prior : Message) : Prop :=
  ∀ e, Encodes m e → ∃ m', deserializeMessage (Block.ofList e) e.length prior =
    .ok (.success, m') ∧ SameEnvelope m m'

/-- **When the envelope survives.** For every message of a serializable type and every
    destination, exactly when the destination held that envelope before. -/
theorem envelope_survives_iff {m : Message} (hm : m.type ∈ serializableTypes)
    (prior : Message) : EnvelopeSurvives m prior ↔ SameEnvelope m prior := by
  obtain ⟨size, hsize⟩ := mem_serializableTypes.mp hm
  obtain ⟨f, hcarries, -⟩ := exists_carries hsize
  have hdecode := deserialize_bytes f prior
  have hkept := sameEnvelope_load prior f.type f.payload
  constructor
  · intro h
    obtain ⟨m', hm', hsame⟩ := h f.bytes ((encodes_iff hcarries _).mpr rfl)
    rw [hdecode] at hm'
    cases hm'
    exact ⟨hkept.1.symm.trans hsame.1, hkept.2.symm.trans hsame.2⟩
  · intro hsame e he
    rw [encodes_iff hcarries] at he
    subst he
    exact ⟨_, hdecode, hsame.trans hkept⟩

/-- A cleared message of the given type with sequence number 1. -/
def numbered (t : CEnum MessageType) : Message := { blank t with sequenceNum := 1 }

theorem envelope_survives_iff_numbered :
    EnvelopeSurvives (numbered (.known .orderNew)) (blank (.known .none)) ↔
      SameEnvelope (numbered (.known .orderNew)) (blank (.known .none)) :=
  envelope_survives_iff (by decide) _

/-- An order with sequence number 1, decoded into a cleared message, comes out with
    sequence number 0. -/
theorem envelope_lost :
    ¬ ∀ m prior : Message, m.type ∈ serializableTypes → EnvelopeSurvives m prior := by
  intro hall
  have hsurvives := hall (numbered (.known .orderNew)) (blank (.known .none)) (by decide)
  obtain ⟨size, hsize⟩ := mem_serializableTypes.mp
    (show (numbered (.known .orderNew)).type ∈ serializableTypes by decide)
  obtain ⟨f, hcarries, -⟩ := exists_carries hsize
  obtain ⟨m', hm', hsame⟩ := hsurvives f.bytes ((encodes_iff hcarries _).mpr rfl)
  have hkept := deserialize_envelope (Nat.le_refl _) hm'
  have hnumber : (blank (.known .none)).sequenceNum = (numbered (.known .orderNew)).sequenceNum :=
    hkept.1.symm.trans hsame.1
  exact absurd hnumber (by decide)

-- ── Over a whole receive loop ────────────────────────────────────────────────

theorem recvStep_envelope {r r' : RecvState} {chunk : List UInt8} {m? : Option Message}
    (h : recvStep r chunk = .ok (r', m?)) :
    SameEnvelope r.msg r'.msg ∧ ∀ m ∈ m?, SameEnvelope r.msg m := by
  rw [recvStep, bind_eq_ok] at h
  obtain ⟨buffer, hwrite, h⟩ := h
  rw [bind_eq_ok] at h
  obtain ⟨⟨e, m'⟩, hdecode, h⟩ := h
  have hfit : chunk.length ≤ bufferSize := by
    by_contra hlong
    rw [r.buffer.writeRange_fault (Nat.zero_le _) (by omega)] at hwrite
    cases hwrite
  have hkept := deserialize_envelope hfit hdecode
  cases h
  refine ⟨hkept, ?_⟩
  intro m hm
  rw [Option.mem_def] at hm
  split at hm
  · cases hm
    exact hkept
  · cases hm

/-- Every message that a receive loop passes on carries the envelope its local message
    had at the start. -/
theorem dispatched_envelope (chunks : List (List UInt8)) :
    ∀ (r : RecvState) (ms : List Message), dispatched r chunks = .ok ms →
      ∀ m ∈ ms, SameEnvelope r.msg m := by
  induction chunks with
  | nil =>
      intro r ms h m hm
      rw [dispatched] at h
      cases h
      exact absurd hm List.not_mem_nil
  | cons chunk rest ih =>
      intro r ms h m hm
      rw [dispatched, bind_eq_ok] at h
      obtain ⟨⟨r', m?⟩, hstep, h⟩ := h
      rw [bind_eq_ok] at h
      obtain ⟨later, hlater, h⟩ := h
      cases h
      obtain ⟨hlocal, hpassed⟩ := recvStep_envelope hstep
      rcases List.mem_append.mp hm with hm | hm
      · exact hpassed m (Option.mem_toList.mp hm)
      · exact hlocal.trans (ih r' later hlater m hm)

end TradeEnvelope
