import TradeSynth.TradeWireProofs

/-!
# Padding on the wire — two messages with the same fields

The encoder copies the payload struct as it lies in memory. The struct has gaps: four
bytes behind the exponent of each price, and more where a member has to be aligned. They
hold whatever the sender's memory held, and they are copied, summed up in the checksum
and sent.

For two messages of one type that agree in every field, the encodings are therefore the
same exactly when the gaps are (`same_bytes_iff_same_gaps`).
-/

namespace TradePadding

open CheckedMemory FixedCodec TradeTypes TradeCodec TradeWire

-- ── Fields and gaps of the structs ───────────────────────────────────────────

/-- The price with its gap cleared. -/
def clearPrice (p : Price) : Price := { p with pad := Block.fill 4 0 }

/-- A live member of the payload union. -/
inductive Member where
  | order (order : Order)
  | marketData (data : MarketData)
  | trade (trade : TradeExecution)

namespace Member

/-- The fields of a member: the struct with its gaps cleared. -/
def fields : Member → Member
  | order o => order { o with price := clearPrice o.price, pad := Block.fill 4 0 }
  | marketData d =>
      marketData { d with
        lastPrice := clearPrice d.lastPrice
        bid := clearPrice d.bid
        ask := clearPrice d.ask
        pad := Block.fill 4 0
        pad' := Block.fill 4 0 }
  | trade t => trade { t with price := clearPrice t.price, pad := Block.fill 4 0 }

/-- The gaps of a member, in the order of the layout. -/
def gaps : Member → List (Block UInt8 4)
  | order o => [o.price.pad, o.pad]
  | marketData d => [d.lastPrice.pad, d.bid.pad, d.ask.pad, d.pad, d.pad']
  | trade t => [t.price.pad, t.pad]

/-- The bytes of a member in memory. -/
def image : Member → List UInt8
  | order o => Order.codec.encode o
  | marketData d => MarketData.codec.encode d
  | trade t => TradeExecution.codec.encode t

/-- A member with its gaps filled from a list. -/
def fill : Member → List (Block UInt8 4) → Member
  | order o, [p, q] => order { o with price := { o.price with pad := p }, pad := q }
  | marketData d, [p, q, r, s, t] =>
      marketData { d with
        lastPrice := { d.lastPrice with pad := p }
        bid := { d.bid with pad := q }
        ask := { d.ask with pad := r }
        pad := s
        pad' := t }
  | trade t, [p, q] => trade { t with price := { t.price with pad := p }, pad := q }
  | a, _ => a

/-- The member of the same type with the given bytes. -/
def ofImage : Member → List UInt8 → Member
  | order _, bytes => order (Order.codec.decode bytes)
  | marketData _, bytes => marketData (MarketData.codec.decode bytes)
  | trade _, bytes => trade (TradeExecution.codec.decode bytes)

/-- A member is its fields together with its gaps. -/
theorem fill_fields (a : Member) : a.fields.fill a.gaps = a := by
  cases a <;> rfl

theorem ofImage_fields (a : Member) (bytes : List UInt8) :
    a.fields.ofImage bytes = a.ofImage bytes := by
  cases a <;> rfl

theorem ofImage_image (a : Member) : a.ofImage a.image = a := by
  cases a with
  | order o => rw [image, ofImage, Order.codec.decode_encode]
  | marketData d => rw [image, ofImage, MarketData.codec.decode_encode]
  | trade t => rw [image, ofImage, TradeExecution.codec.decode_encode]

/-- Members with the same fields have the same image exactly when their gaps agree. -/
theorem image_eq_iff {a b : Member} (h : a.fields = b.fields) :
    a.image = b.image ↔ a.gaps = b.gaps := by
  have hback : a.image = b.image → a = b := by
    intro himage
    rw [← a.ofImage_image, ← a.ofImage_fields, h, himage, b.ofImage_fields, b.ofImage_image]
  have hfill : a.gaps = b.gaps → a = b := by
    intro hgaps
    rw [← a.fill_fields, h, hgaps, b.fill_fields]
  constructor
  · intro himage
    rw [hback himage]
  · intro hgaps
    rw [hfill hgaps]

end Member

-- ── The payload of a message ─────────────────────────────────────────────────

/-- The member of the union that the type of a message selects. -/
def member (m : Message) : Option Member :=
  match m.type with
  | .known .orderNew => some (.order m.order)
  | .known .orderModify => some (.order m.order)
  | .known .orderCancel => some (.order m.order)
  | .known .marketData => some (.marketData m.marketData)
  | .known .tradeExec => some (.trade m.trade)
  | _ => none

/-- A struct that was decoded from the front of the union has these bytes as its image. -/
theorem encode_front {α : Type} (c : Codec α) (m : Message) (h : c.width ≤ unionSize) :
    c.encode (c.decode (m.data.cells.take c.width)) = m.data.cells.take c.width := by
  apply c.encode_decode
  rw [List.length_take, m.data.size]
  omega

/-- What the encoder copies is the image of the member. -/
theorem image_eq_payload {m : Message} (hm : m.type ∈ serializableTypes) :
    ∃ a, member m = some a ∧ a.image = payload m := by
  have horder : member m = some (.order m.order) → payloadSize m.type = some Order.codec.width →
      ∃ a, member m = some a ∧ a.image = payload m := by
    intro hmember hsize
    refine ⟨_, hmember, ?_⟩
    rw [(payload_eq hsize).1]
    exact encode_front Order.codec m order_fits
  simp only [serializableTypes, List.mem_cons, List.not_mem_nil, or_false] at hm
  rcases hm with h | h | h | h | h
  · exact horder (by rw [member, h]) (by rw [h]; rfl)
  · exact horder (by rw [member, h]) (by rw [h]; rfl)
  · exact horder (by rw [member, h]) (by rw [h]; rfl)
  · refine ⟨.marketData m.marketData, by rw [member, h], ?_⟩
    rw [payload, h]
    exact encode_front MarketData.codec m marketData_fits
  · refine ⟨.trade m.trade, by rw [member, h], ?_⟩
    rw [payload, h]
    exact encode_front TradeExecution.codec m trade_fits

/-- Two messages of one type have the same frame exactly when they have the same payload. -/
theorem frame_eq_iff {m m' : Message} {f f' : Frame} (hf : Carries m f) (hf' : Carries m' f')
    (htype : m.type = m'.type) : f.bytes = f'.bytes ↔ payload m = payload m' := by
  obtain ⟨hkind, hpayload⟩ := hf
  obtain ⟨hkind', hpayload'⟩ := hf'
  rw [hpayload, hpayload']
  constructor
  · intro hbytes
    rw [← f.drop_bytes, hbytes, f'.drop_bytes]
  · intro heq
    have hframe : f = f' := by
      rw [Frame.mk.injEq, ← hkind, ← hkind', htype]
      exact ⟨rfl, heq⟩
    rw [hframe]

/-- Two messages of one serializable type whose payloads have the same fields. -/
structure SameFields (m m' : Message) : Prop where
  serializable : m.type ∈ serializableTypes
  type         : m.type = m'.type
  fields       : (member m).map Member.fields = (member m').map Member.fields

/-- **The wire carries the gaps.** Each of the two messages has exactly one encoding.
    Behind the header stands the image of the struct, gaps included, and the encodings
    are the same, checksum included, exactly when the gaps are. -/
theorem same_bytes_iff_same_gaps {m m' : Message} (h : SameFields m m') :
    ∃ a a' e e', member m = some a ∧ member m' = some a' ∧
      (∀ x, Encodes m x ↔ x = e) ∧ (∀ x, Encodes m' x ↔ x = e') ∧
      e.drop headerSize = a.image ∧ e'.drop headerSize = a'.image ∧
      (e = e' ↔ a.gaps = a'.gaps) := by
  have hserializable' : m'.type ∈ serializableTypes := by
    rw [← h.type]
    exact h.serializable
  obtain ⟨a, ha, himage⟩ := image_eq_payload h.serializable
  obtain ⟨a', ha', himage'⟩ := image_eq_payload hserializable'
  obtain ⟨size, hsize⟩ := mem_serializableTypes.mp h.serializable
  obtain ⟨size', hsize'⟩ := mem_serializableTypes.mp hserializable'
  obtain ⟨f, hf, -⟩ := exists_carries hsize
  obtain ⟨f', hf', -⟩ := exists_carries hsize'
  have hfields := h.fields
  rw [ha, ha', Option.map_some, Option.map_some, Option.some.injEq] at hfields
  refine ⟨a, a', f.bytes, f'.bytes, ha, ha', encodes_iff hf, encodes_iff hf', ?_, ?_, ?_⟩
  · rw [f.drop_bytes, himage, hf.2]
  · rw [f'.drop_bytes, himage', hf'.2]
  · rw [frame_eq_iff hf hf' h.type, ← himage, ← himage']
    exact Member.image_eq_iff hfields

/-- An order of cleared memory, but for the bytes behind the exponent of its price. -/
def gapOrder (gap : Block UInt8 4) : Order :=
  { (blank (.known .orderNew)).order with price := ⟨0, 0, gap⟩ }

def orderWithGap (gap : Block UInt8 4) : Message :=
  { blank (.known .orderNew) with data := unionOf Order.codec (gapOrder gap) order_fits }

theorem member_orderWithGap (gap : Block UInt8 4) :
    member (orderWithGap gap) = some (.order (gapOrder gap)) := by
  show some (Member.order (Order.codec.decode
    ((unionOf Order.codec (gapOrder gap) order_fits).cells.take Order.codec.width))) = _
  rw [take_unionOf, Order.codec.decode_encode]

theorem orderWithGap_same (gap gap' : Block UInt8 4) :
    SameFields (orderWithGap gap) (orderWithGap gap') where
  serializable := List.mem_cons_self
  type := rfl
  fields := by rw [member_orderWithGap, member_orderWithGap]; rfl

theorem same_bytes_iff_same_gaps_order :
    ∃ a a' e e', member (orderWithGap (Block.fill 4 0)) = some a ∧
      member (orderWithGap (Block.fill 4 1)) = some a' ∧
      (∀ x, Encodes (orderWithGap (Block.fill 4 0)) x ↔ x = e) ∧
      (∀ x, Encodes (orderWithGap (Block.fill 4 1)) x ↔ x = e') ∧
      e.drop headerSize = a.image ∧ e'.drop headerSize = a'.image ∧
      (e = e' ↔ a.gaps = a'.gaps) :=
  same_bytes_iff_same_gaps (orderWithGap_same _ _)

/-- The same order from clear and from unclear memory is sent as different bytes. -/
theorem gaps_are_sent :
    ¬ ∀ m m' : Message, SameFields m m' → ∀ e e', Encodes m e → Encodes m' e' → e = e' := by
  intro hall
  have hserializable : (CEnum.known MessageType.orderNew) ∈ serializableTypes :=
    List.mem_cons_self
  obtain ⟨size, hsize⟩ := mem_serializableTypes.mp hserializable
  obtain ⟨f, hf, -⟩ := exists_carries (m := orderWithGap (Block.fill 4 0)) hsize
  obtain ⟨f', hf', -⟩ := exists_carries (m := orderWithGap (Block.fill 4 1)) hsize
  have hsame := orderWithGap_same (Block.fill 4 0) (Block.fill 4 1)
  have hbytes := hall _ _ hsame _ _ ((encodes_iff hf _).mpr rfl) ((encodes_iff hf' _).mpr rfl)
  have hpayload := (frame_eq_iff hf hf' rfl).mp hbytes
  have hgap : (payload (orderWithGap (Block.fill 4 0)))[84]? =
      (payload (orderWithGap (Block.fill 4 1)))[84]? := by rw [hpayload]
  exact absurd hgap (by decide +kernel)

end TradePadding
