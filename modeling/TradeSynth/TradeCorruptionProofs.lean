import TradeSynth.TradeWireProofs

/-!
# Corruption on the wire — which single-byte changes the decoder notices

One byte of an encoding is replaced by another. Field by field:

* the version, and anything in the payload or the checksum field, is noticed;
* a changed `message_size` is noticed or has no effect;
* a smaller `payload_size` is noticed (a larger one sends the checksum loop out of the
  buffer);
* the type is not covered by the checksum, so it is noticed only when the new value
  demands another payload size. Four of the five types share one size.
-/

namespace TradeCorruption

open CheckedMemory FixedCodec TradeTypes TradeCodec TradeWire

/-- Decoding the bytes `l` ends in an error, or yields the type and payload of `m`. -/
def NeverMisread (m : Message) (l : List UInt8) (prior : Message) : Prop :=
  ∃ err m', deserializeMessage (Block.ofList l) l.length prior = .ok (err, m') ∧
    (err = .success → m'.type = m.type ∧ payload m' = payload m)

/-- It is enough that the checksum loop stays inside and that whatever is accepted has
    the content of the frame that was sent. -/
theorem neverMisread_of_accepted {m prior : Message} {f : Frame} {l : List UInt8}
    (hm : Carries m f)
    (hfit : headerSize + (fieldAt l 12).toNat ≤ l.length)
    (hsame : ∀ m' g, Accepted l l.length prior m' g →
      g.type = f.type ∧ g.payload = f.payload) : NeverMisread m l prior := by
  obtain ⟨⟨err, m'⟩, hresult⟩ := deserialize_inside (Block.ofList l) (Nat.le_refl _) prior
    (by rw [Block.cells_ofList, peekHeader_eq]; exact hfit)
  refine ⟨err, m', hresult, ?_⟩
  intro herr
  rw [herr] at hresult
  obtain ⟨g, hg⟩ := deserialize_success (Nat.le_refl _) hresult
  obtain ⟨htype, hpayload⟩ := hsame m' g hg
  have hcarries : Carries m' g := by
    rw [hg.loaded]
    exact carries_load prior g
  refine ⟨?_, ?_⟩
  · rw [hcarries.1, htype, hm.1]
  · rw [hcarries.2, hpayload, hm.2]

-- ── The fields of an intact encoding ─────────────────────────────────────────

/-- The header fields of the bytes of a frame. -/
structure Intact (f : Frame) (e : List UInt8) : Prop where
  length   : e.length = headerSize + f.payload.length
  version  : fieldAt e 0 = serializationVersion
  type     : fieldAt e 8 = f.type.toCode
  size     : (fieldAt e 12).toNat = f.payload.length
  checksum : fieldAt e 16 = checksum f.payload
  payload  : e.drop headerSize = f.payload

theorem intact_bytes (f : Frame) : Intact f f.bytes := by
  have hheader : peekHeader f.bytes = f.header :=
    peekHeader_of_take (Nat.le_refl headerSize) rfl
  rw [peekHeader_eq] at hheader
  have htype : CEnum.ofCode (fieldAt f.bytes 8) = f.type :=
    congrArg MessageHeader.type hheader
  have hsize : fieldAt f.bytes 12 = f.header.payloadSize :=
    congrArg MessageHeader.payloadSize hheader
  exact {
    length := f.length_bytes
    version := congrArg MessageHeader.version hheader
    type := by rw [← htype, CEnum.toCode_ofCode]
    size := by rw [hsize, f.payload_toNat]
    checksum := congrArg MessageHeader.checksum hheader
    payload := f.drop_bytes }

/-- The codes of the serializable types are small. -/
theorem code_lt_of_payloadSize {c : UInt32} {size : Nat}
    (h : payloadSize (CEnum.ofCode c) = some size) : c.toNat < 8 := by
  have hmem := mem_serializableTypes.mpr ⟨size, h⟩
  have hcode : (CEnum.ofCode c : CEnum MessageType).toCode = c := CEnum.toCode_ofCode c
  simp only [serializableTypes, List.mem_cons, List.not_mem_nil, or_false] at hmem
  rw [← hcode]
  rcases hmem with h | h | h | h | h <;> rw [h] <;> decide

theorem typeCode_lt (f : Frame) : f.type.toCode.toNat < 8 := by
  have hfits := f.fits
  rw [← CEnum.ofCode_toCode f.type] at hfits
  exact code_lt_of_payloadSize hfits

-- ── One changed byte, field by field ─────────────────────────────────────────

section

variable {f : Frame} {e : List UInt8} {i : Nat} {old v : UInt8} {prior m' : Message}
  {g : Frame}

/-- Behind the header the type field decides the length of the payload. -/
theorem accepted_type (hg : Accepted (e.set i v) (e.set i v).length prior m' g) :
    g.type = CEnum.ofCode (fieldAt (e.set i v) 8) := by
  have htype := hg.type
  rw [peekHeader_eq] at htype
  exact htype.symm

/-- A change outside the type and the payload leaves the accepted content alone. -/
theorem accepted_same (he : Intact f e) (htype : i < 8 ∨ 12 ≤ i) (hi : i < headerSize)
    (hg : Accepted (e.set i v) (e.set i v).length prior m' g) :
    g.type = f.type ∧ g.payload = f.payload := by
  have hgtype : g.type = f.type := by
    rw [accepted_type hg, fieldAt_set_outside e v (by omega), he.type, CEnum.ofCode_toCode]
  have hglen : g.payload.length = f.payload.length := by
    have hfits := g.fits
    rw [hgtype, f.fits] at hfits
    exact (Option.some.inj hfits).symm
  have hgpayload := hg.payload
  rw [hglen, List.drop_set_of_lt hi, he.payload, List.take_length] at hgpayload
  exact ⟨hgtype, hgpayload.symm⟩

/-- A changed version is never accepted. -/
theorem not_accepted_version (he : Intact f e) (hold : e[i]? = some old) (hne : v ≠ old)
    (hi : i < 4) : ¬ Accepted (e.set i v) (e.set i v).length prior m' g := by
  intro hg
  have hlen := he.length
  have hversion := hg.version
  rw [peekHeader_eq] at hversion
  have hchanged : fieldAt (e.set i v) 0 ≠ fieldAt e 0 :=
    fieldAt_set_ne (Nat.zero_le i) (by omega) (by rw [headerSize_eq] at hlen; omega) hold hne
  rw [he.version] at hchanged
  exact hchanged hversion

/-- In the type field only a new low byte can name a serializable type. -/
theorem not_accepted_high_type (he : Intact f e) (hold : e[i]? = some old) (hne : v ≠ old)
    (hlow : 8 < i) (hhigh : i < 12) :
    ¬ Accepted (e.set i v) (e.set i v).length prior m' g := by
  intro hg
  have hlen := he.length
  have hroom : 8 + 4 ≤ e.length := by rw [headerSize_eq] at hlen; omega
  have hsmall : (fieldAt (e.set i v) 8).toNat < 8 := by
    have hfits := g.fits
    rw [accepted_type hg] at hfits
    exact code_lt_of_payloadSize hfits
  have hcode : (fieldAt e 8).toNat < 8 := by
    rw [he.type]
    exact typeCode_lt f
  -- the low byte is untouched, so a small new code is the old code
  obtain ⟨b, hb⟩ : ∃ b, e[8]? = some b := ⟨_, List.getElem?_eq_getElem (by omega)⟩
  have hb' : (e.set i v)[8]? = some b := by
    rw [List.getElem?_set_ne (by omega), hb]
  have hmod := fieldAt_mod hroom hb
  have hmod' := fieldAt_mod (l := e.set i v) (by rw [List.length_set]; exact hroom) hb'
  have hchanged : fieldAt (e.set i v) 8 ≠ fieldAt e 8 :=
    fieldAt_set_ne (by omega) (by omega) hroom hold hne
  exact hchanged (UInt32.toNat_inj.mp (by omega))

/-- A new low byte of the type field is the new type code. -/
theorem fieldAt_type_set (he : Intact f e) (hold : e[8]? = some old) :
    fieldAt (e.set 8 v) 8 = v.toUInt32 := by
  have hlen := he.length
  have hroom : 8 + 4 ≤ e.length := by rw [headerSize_eq] at hlen; omega
  have hcode : (fieldAt e 8).toNat < 8 := by
    rw [he.type]
    exact typeCode_lt f
  have hmod := fieldAt_mod hroom hold
  have hset := fieldAt_set_toNat v (Nat.le_refl 8) (by omega) hroom hold
  apply UInt32.toNat_inj.mp
  rw [UInt8.toNat_toUInt32]
  rw [Nat.sub_self, pow_zero] at hset
  omega

/-- An accepted type change keeps the payload size. -/
theorem accepted_low_type (he : Intact f e) (hold : e[8]? = some old)
    (hg : Accepted (e.set 8 v) (e.set 8 v).length prior m' g) :
    payloadSize (CEnum.ofCode v.toUInt32) = payloadSize f.type := by
  have hsize := hg.payloadSize
  rw [peekHeader_eq] at hsize
  have hkept : (fieldAt (e.set 8 v) 12).toNat = f.payload.length := by
    rw [fieldAt_set_outside e v (by omega), he.size]
  have hfits := g.fits
  rw [accepted_type hg, fieldAt_type_set he hold] at hfits
  rw [hfits, f.fits, ← hkept, ← hsize]

/-- A smaller payload size is never accepted. -/
theorem not_accepted_size (he : Intact f e) (hold : e[i]? = some old) (hlt : v < old)
    (hlow : 12 ≤ i) (hhigh : i < 16) :
    ¬ Accepted (e.set i v) (e.set i v).length prior m' g := by
  intro hg
  have hlen := he.length
  obtain ⟨-, hpayload⟩ := accepted_same he (by omega) (by rw [headerSize_eq]; omega) hg
  have hsize := hg.payloadSize
  rw [peekHeader_eq, hpayload] at hsize
  have hshrink : (fieldAt (e.set i v) 12).toNat < (fieldAt e 12).toNat :=
    fieldAt_set_lt hlow (by omega) (by rw [headerSize_eq] at hlen; omega) hold
      (UInt8.lt_iff_toNat_lt.mp hlt)
  rw [he.size] at hshrink
  dsimp only at hsize
  omega

/-- A changed checksum is never accepted. -/
theorem not_accepted_checksum (he : Intact f e) (hold : e[i]? = some old) (hne : v ≠ old)
    (hlow : 16 ≤ i) (hhigh : i < headerSize) :
    ¬ Accepted (e.set i v) (e.set i v).length prior m' g := by
  intro hg
  have hlen := he.length
  obtain ⟨-, hpayload⟩ := accepted_same he (by omega) hhigh hg
  have hsum := hg.checksum
  rw [peekHeader_eq, hpayload] at hsum
  have hchanged : fieldAt (e.set i v) 16 ≠ fieldAt e 16 :=
    fieldAt_set_ne hlow hhigh (by rw [headerSize_eq] at hlen; omega) hold hne
  rw [he.checksum] at hchanged
  exact hchanged hsum

/-- A changed payload byte is never accepted. -/
theorem not_accepted_payload (he : Intact f e) (hold : e[i]? = some old) (hne : v ≠ old)
    (hlow : headerSize ≤ i) : ¬ Accepted (e.set i v) (e.set i v).length prior m' g := by
  intro hg
  have htype : g.type = f.type := by
    rw [accepted_type hg, fieldAt_set_outside e v (by rw [headerSize_eq] at hlow; omega),
      he.type, CEnum.ofCode_toCode]
  have hglen : g.payload.length = f.payload.length := by
    have hfits := g.fits
    rw [htype, f.fits] at hfits
    exact (Option.some.inj hfits).symm
  have hpayload : g.payload = f.payload.set (i - headerSize) v := by
    rw [← hg.payload, hglen, List.drop_set, if_neg (by omega), he.payload]
    exact List.take_of_length_le (by rw [List.length_set])
  have hsum := hg.checksum
  rw [peekHeader_eq, hpayload] at hsum
  have hget : f.payload[i - headerSize]? = some old := by
    rw [← he.payload, List.getElem?_drop, show headerSize + (i - headerSize) = i from by omega,
      hold]
  have hkept : fieldAt (e.set i v) 16 = checksum f.payload := by
    rw [fieldAt_set_outside e v (by rw [headerSize_eq] at hlow; omega), he.checksum]
  dsimp only at hsum
  rw [hkept] at hsum
  exact checksum_set_ne hget hne hsum.symm

/-- Writing the code of another type of the same payload size makes the encoding of
    another frame. -/
theorem bytes_set_type (hold : f.bytes[8]? = some old)
    (htype : g.type = CEnum.ofCode v.toUInt32) (hpayload : g.payload = f.payload) :
    f.bytes.set 8 v = g.bytes := by
  have he := intact_bytes f
  have hheader : peekHeader f.bytes = f.header :=
    peekHeader_of_take (Nat.le_refl headerSize) rfl
  have hnew : peekHeader (f.bytes.set 8 v) = g.header := by
    rw [peekHeader_eq] at hheader ⊢
    have hversion := congrArg MessageHeader.version hheader
    have hmessage := congrArg MessageHeader.messageSize hheader
    have hsize := congrArg MessageHeader.payloadSize hheader
    have hsum := congrArg MessageHeader.checksum hheader
    dsimp only at hversion hmessage hsize hsum
    rw [fieldAt_type_set he hold, fieldAt_set_outside _ v (by omega),
      fieldAt_set_outside _ v (by omega), fieldAt_set_outside _ v (by omega),
      fieldAt_set_outside _ v (by omega), hversion, hmessage, hsize, hsum]
    simp only [Frame.header, Frame.size, htype, hpayload]
  have himage : ((f.bytes.set 8 v).take headerSize).length = MessageHeader.codec.width := by
    rw [List.length_take, List.length_set, he.length, codec_width]
    omega
  have hencode : MessageHeader.codec.encode (peekHeader (f.bytes.set 8 v)) =
      (f.bytes.set 8 v).take headerSize := MessageHeader.codec.encode_decode _ himage
  have hbody : (f.bytes.set 8 v).drop headerSize = g.payload := by
    rw [List.drop_set_of_lt (by decide), he.payload, hpayload]
  calc f.bytes.set 8 v
      = (f.bytes.set 8 v).take headerSize ++ (f.bytes.set 8 v).drop headerSize :=
        (List.take_append_drop headerSize _).symm
    _ = MessageHeader.codec.encode g.header ++ g.payload := by rw [← hencode, hnew, hbody]
    _ = g.bytes := rfl

/-- Such a change is misread: it decodes without error to a message of that type. -/
theorem misread_type_swap {m : Message} (hm : Carries m f) (hold : f.bytes[8]? = some old)
    (hne : v ≠ old) (hsize : payloadSize (CEnum.ofCode v.toUInt32) = payloadSize f.type)
    (prior : Message) : ¬ NeverMisread m (f.bytes.set 8 v) prior := by
  have he := intact_bytes f
  have hlen := he.length
  have hfits : payloadSize (CEnum.ofCode v.toUInt32) = some f.payload.length := by
    rw [hsize, f.fits]
  have hroom : 8 + 4 ≤ f.bytes.length := by rw [headerSize_eq] at hlen; omega
  have hchanged : fieldAt (f.bytes.set 8 v) 8 ≠ fieldAt f.bytes 8 :=
    fieldAt_set_ne (Nat.le_refl 8) (by omega) hroom hold hne
  have hcode := fieldAt_type_set (v := v) he hold
  obtain ⟨g, hgtype, hgpayload⟩ : ∃ g : Frame,
      g.type = CEnum.ofCode v.toUInt32 ∧ g.payload = f.payload :=
    ⟨⟨CEnum.ofCode v.toUInt32, f.payload, hfits⟩, rfl, rfl⟩
  rw [bytes_set_type hold hgtype hgpayload] at hcode hchanged ⊢
  rintro ⟨err, m', hresult, hsame⟩
  have hfront : (Block.ofList g.bytes).cells.take g.size = g.bytes := by
    rw [Block.cells_ofList, ← g.length_bytes, List.take_length]
  have hdecode := deserialize_frame (Nat.le_refl _) (by rw [g.length_bytes]) hfront prior
  rw [hdecode] at hresult
  have hpair := Except.ok.inj hresult
  have hload : prior.load g.type g.payload = m' := congrArg Prod.snd hpair
  have htype := (hsame (congrArg Prod.fst hpair).symm).1
  rw [← hload, prior.load_type, hm.1, hgtype] at htype
  apply hchanged
  rw [hcode, he.type, ← htype, CEnum.toCode_ofCode]

end

-- ── The whole encoding ───────────────────────────────────────────────────────

/-- **Corruption detection.** A byte of an encoding is replaced by a different one, not
    by a larger one inside `payload_size`. The decoder reports an error or returns the
    message as it was, unless the byte is the low byte of the type and its new value
    names a type of the same payload size. -/
theorem corruption_noticed_iff {m : Message} {e : List UInt8} {i : Nat} {old v : UInt8}
    (he : Encodes m e) (hold : e[i]? = some old) (hne : v ≠ old)
    (hgrow : ¬ (12 ≤ i ∧ i < 16 ∧ old < v)) (prior : Message) :
    NeverMisread m (e.set i v) prior ↔
      ¬ (i = 8 ∧ payloadSize (CEnum.ofCode v.toUInt32) = payloadSize m.type) := by
  obtain ⟨f, hm, rfl⟩ := exists_frame_of_encodes he
  have hf := intact_bytes f
  have hlen := hf.length
  rw [hm.1]
  constructor
  · rintro hnoticed ⟨rfl, hsize⟩
    exact misread_type_swap hm hold hne hsize prior hnoticed
  intro hkind
  refine neverMisread_of_accepted hm ?_ ?_
  · -- the checksum loop stays inside: `payload_size` is the old one or a smaller one
    rw [List.length_set, hlen]
    by_cases hfield : 12 ≤ i ∧ i < 16
    · have hlt : v < old := by
        rw [UInt8.lt_iff_toNat_lt]
        have hle : ¬ old.toNat < v.toNat := fun hlt =>
          hgrow ⟨hfield.1, hfield.2, UInt8.lt_iff_toNat_lt.mpr hlt⟩
        have hneNat : v.toNat ≠ old.toNat := fun h => hne (UInt8.toNat_inj.mp h)
        omega
      have hshrink := fieldAt_set_lt hfield.1 (by omega)
        (by rw [headerSize_eq] at hlen; omega) hold (UInt8.lt_iff_toNat_lt.mp hlt)
      rw [hf.size] at hshrink
      omega
    · rw [fieldAt_set_outside _ v (by omega), hf.size]
  · -- whatever is accepted has the content of `f`: one case for each header field
    intro m' g hg
    by_cases h4 : i < 4
    · exact absurd hg (not_accepted_version hf hold hne h4)
    by_cases h8 : i < 8
    · exact accepted_same hf (Or.inl h8) (by rw [headerSize_eq]; omega) hg
    by_cases h12 : i < 12
    · by_cases hi : i = 8
      · subst hi
        exact absurd ⟨rfl, accepted_low_type hf hold hg⟩ hkind
      · exact absurd hg (not_accepted_high_type hf hold hne (by omega) h12)
    by_cases h16 : i < 16
    · have hlt : v < old := by
        rw [UInt8.lt_iff_toNat_lt]
        have hle : ¬ old.toNat < v.toNat := fun hlt =>
          hgrow ⟨by omega, h16, UInt8.lt_iff_toNat_lt.mpr hlt⟩
        have hneNat : v.toNat ≠ old.toNat := fun h => hne (UInt8.toNat_inj.mp h)
        omega
      exact absurd hg (not_accepted_size hf hold hlt (by omega) h16)
    by_cases h20 : i < headerSize
    · exact absurd hg (not_accepted_checksum hf hold hne (by omega) h20)
    · exact absurd hg (not_accepted_payload hf hold hne (by omega))

/-- The frame of a blank order. -/
def blankOrderFrame : Frame :=
  ⟨.known .orderNew, List.replicate 128 0, by rw [List.length_replicate]; rfl⟩

theorem encodes_blank_order : Encodes (blank (.known .orderNew)) blankOrderFrame.bytes :=
  (encodes_iff ⟨rfl, by decide +kernel⟩ _).mpr rfl

/-- The first byte behind the header. -/
theorem blankOrderFrame_payload : blankOrderFrame.bytes[20]? = some 0 := by decide +kernel

theorem corruption_noticed_iff_blank_order :
    NeverMisread (blank (.known .orderNew)) (blankOrderFrame.bytes.set 20 7)
        (blank (.known .none)) ↔
      ¬ ((20 : Nat) = 8 ∧ payloadSize (CEnum.ofCode (7 : UInt8).toUInt32) =
        payloadSize (.known .orderNew)) :=
  corruption_noticed_iff encodes_blank_order blankOrderFrame_payload (by decide) (by decide) _

/-- A new order whose type byte is turned from 2 into 3 is accepted as a cancel. -/
theorem corruption_unnoticed :
    ¬ ∀ (m prior : Message) (e : List UInt8) (i : Nat) (old v : UInt8),
        m.type ∈ serializableTypes → Encodes m e → e[i]? = some old → v ≠ old →
        NeverMisread m (e.set i v) prior := by
  intro hall
  have hold : blankOrderFrame.bytes[8]? = some 2 := by decide +kernel
  have hcarries : Carries (blank (.known .orderNew)) blankOrderFrame :=
    ⟨rfl, by decide +kernel⟩
  refine misread_type_swap (v := 3) hcarries hold (by decide) rfl (blank (.known .none)) ?_
  exact hall _ _ _ 8 2 3 (by decide) encodes_blank_order hold (by decide)

end TradeCorruption
