import TradeSynth.TradeWireProofs

/-!
# Strings off the wire — fields that the decoder copies and C strings they become

The payload structs hold six string fields, and their consumers read them as C strings:
`strlen` in the validators of `utils.c`, `strcmp` in the lookup, `%s` in the log lines.
Inside a field of `n` bytes that is safe exactly when the field contains a NUL
(`strlen_inside_iff`).

The decoder copies the payload as it came, so a field of an accepted message is the
corresponding range of the received bytes (`stringFields_of_carries`), and it is terminated
exactly when the sender put a NUL into that range (`strings_terminated_iff`). The length
tests of the validators come behind the reads that they should guard: a `strlen` that
stays inside its field never returns the length they reject (`strlen_lt`).
-/

namespace TradeStrings

open CheckedMemory FixedCodec TradeTypes TradeCodec TradeWire

variable {n : Nat}

-- ── C strings inside a field ─────────────────────────────────────────────────

/-- The loop of `strlen`: it runs to the first NUL, and faults when the field has
    none. -/
def strlen (field : Block UInt8 n) : Checked Nat := do
  let found ← field.findFrom (· == 0) 0 (n + 1)
  match found with
  | some k => pure k
  | none => .error ⟨n⟩

/-- The field is a C string. -/
def Terminated (field : List UInt8) : Prop := 0 ∈ field

instance (field : List UInt8) : Decidable (Terminated field) :=
  inferInstanceAs (Decidable (0 ∈ field))

theorem strlen_terminated {field : Block UInt8 n} (h : Terminated field.cells) :
    ∃ k, k < n ∧ strlen field = .ok k := by
  obtain ⟨j, hj⟩ := List.getElem?_of_mem h
  have hlt := (List.getElem?_eq_some_iff.mp hj).1
  rw [field.size] at hlt
  obtain ⟨k, c, hle, hfind, -⟩ :=
    Block.findFrom_first (p := (· == 0)) (show j < n + 1 by omega) hj rfl
  refine ⟨k, by omega, ?_⟩
  rw [strlen, hfind]
  rfl

/-- Without a NUL the loop runs to the end of the field and faults there. -/
theorem strlen_unterminated {field : Block UInt8 n} (h : ¬ Terminated field.cells) :
    strlen field = .error ⟨n⟩ := by
  have hmiss : ∀ c ∈ field.cells, (c == 0) = false := by
    intro c hc
    simp only [beq_eq_false_iff_ne, ne_eq]
    rintro rfl
    exact h hc
  rw [strlen, Block.findFrom_fault hmiss (Nat.zero_le n) (by omega)]
  rfl

/-- `strlen` stays inside a field exactly when the field is a C string. -/
theorem strlen_inside_iff (field : Block UInt8 n) :
    (∃ k, strlen field = .ok k) ↔ Terminated field.cells := by
  constructor
  · rintro ⟨k, hk⟩
    by_contra h
    rw [strlen_unterminated h] at hk
    cases hk
  · intro h
    obtain ⟨k, -, hk⟩ := strlen_terminated h
    exact ⟨k, hk⟩

/-- A length that `strlen` returns from inside a field is below the field's size. -/
theorem strlen_lt {field : Block UInt8 n} {k : Nat} (h : strlen field = .ok k) : k < n := by
  obtain ⟨j, hlt, hj⟩ := strlen_terminated ((strlen_inside_iff field).mp ⟨k, h⟩)
  rw [h] at hj
  cases hj
  exact hlt

/-- What `strlen` returns is the length of the C string in the field. -/
theorem strlen_eq_length {field : Block UInt8 n} {k : Nat} (h : strlen field = .ok k) :
    k = (cString field.cells).length := by
  have hzero : (0 : UInt8) ∈ field.cells := (strlen_inside_iff field).mp ⟨k, h⟩
  obtain ⟨j, hj⟩ := List.getElem?_of_mem hzero
  have hlt := (List.getElem?_eq_some_iff.mp hj).1
  rw [field.size] at hlt
  obtain ⟨i, c, -, hfind, hcell, hc, hfirst⟩ :=
    Block.findFrom_first (p := (· == 0)) (show j < n + 1 by omega) hj rfl
  rw [strlen, hfind, ok_bind] at h
  cases h
  obtain ⟨hi, hcell⟩ := List.getElem?_eq_some_iff.mp hcell
  have hidx : field.cells.findIdx (· == 0) = k := by
    refine (List.findIdx_eq hi).mpr ⟨by rw [hcell]; exact hc, fun m hm => ?_⟩
    exact hfirst m _ hm (List.getElem?_eq_getElem (by omega))
  have hnot : (fun a : UInt8 => !decide (a ≠ 0)) = (· == 0) := by
    funext a
    by_cases ha : a = 0 <;> simp [ha]
  rw [cString, List.takeWhile_eq_take_findIdx_not, List.length_take, hnot, hidx]
  omega

theorem strlen_zero_iff {field : Block UInt8 n} {k : Nat} (h : strlen field = .ok k) :
    k = 0 ↔ cString field.cells = [] := by
  rw [strlen_eq_length h, List.length_eq_zero_iff]

-- ── The validators ───────────────────────────────────────────────────────────

def isValidOrderType (type : CEnum OrderType) : Bool :=
  decide (1 ≤ type.toCode) && decide (type.toCode ≤ 4)

def isValidOrderSide (side : CEnum OrderSide) : Bool :=
  decide (side = .known .buy) || decide (side = .known .sell)

def validateOrderFields (order : Order) : Checked Int := do
  let length ← strlen order.symbol
  if length = 0 ∨ maxSymbolLength ≤ length then pure ErrorCode.invalidOrder.code
  else if order.quantity = 0 then pure ErrorCode.invalidOrder.code
  else if !isValidOrderType order.type then pure ErrorCode.invalidOrder.code
  else if !isValidOrderSide order.side then pure ErrorCode.invalidOrder.code
  else pure ErrorCode.success.code

def validateMarketData (data : MarketData) : Checked Int := do
  let length ← strlen data.symbol
  if length = 0 ∨ maxSymbolLength ≤ length then pure ErrorCode.marketData.code
  else if priceToDouble data.ask ≤ priceToDouble data.bid then pure ErrorCode.marketData.code
  else pure ErrorCode.success.code

/-- The order validator reads inside the symbol exactly when it is a C string. -/
theorem validateOrderFields_inside_iff (order : Order) :
    (∃ code, validateOrderFields order = .ok code) ↔ Terminated order.symbol.cells := by
  rw [← strlen_inside_iff, validateOrderFields]
  constructor
  · rintro ⟨code, hcode⟩
    rw [bind_eq_ok] at hcode
    obtain ⟨k, hk, -⟩ := hcode
    exact ⟨k, hk⟩
  · rintro ⟨k, hk⟩
    rw [hk, ok_bind]
    split_ifs <;> exact ⟨_, rfl⟩

/-- The quote validator likewise. -/
theorem validateMarketData_inside_iff (data : MarketData) :
    (∃ code, validateMarketData data = .ok code) ↔ Terminated data.symbol.cells := by
  rw [← strlen_inside_iff, validateMarketData]
  constructor
  · rintro ⟨code, hcode⟩
    rw [bind_eq_ok] at hcode
    obtain ⟨k, hk, -⟩ := hcode
    exact ⟨k, hk⟩
  · rintro ⟨k, hk⟩
    rw [hk, ok_bind]
    split_ifs <;> exact ⟨_, rfl⟩

-- ── The string fields of a message ───────────────────────────────────────────

/-- The string fields of the payload, in declaration order. -/
def stringFields (m : Message) : List (List UInt8) :=
  match m.type with
  | .known .orderNew => [m.order.symbol.cells, m.order.clientId.cells]
  | .known .orderModify => [m.order.symbol.cells, m.order.clientId.cells]
  | .known .orderCancel => [m.order.symbol.cells, m.order.clientId.cells]
  | .known .marketData => [m.marketData.symbol.cells]
  | .known .tradeExec => [m.trade.symbol.cells, m.trade.buyerId.cells, m.trade.sellerId.cells]
  | _ => []

/-- Offset and length of the string fields in the payload struct of a type. -/
def stringRanges : CEnum MessageType → List (Nat × Nat)
  | .known .orderNew => [(8, maxSymbolLength), (24, maxClientIdLength)]
  | .known .orderModify => [(8, maxSymbolLength), (24, maxClientIdLength)]
  | .known .orderCancel => [(8, maxSymbolLength), (24, maxClientIdLength)]
  | .known .marketData => [(0, maxSymbolLength)]
  | .known .tradeExec => [(16, maxSymbolLength), (64, maxClientIdLength), (96, maxClientIdLength)]
  | _ => []

/-- Every string field of the payload is a C string. -/
def StringSafe (m : Message) : Prop := ∀ field ∈ stringFields m, Terminated field

/-- The bytes of a range. -/
def slice (l : List UInt8) (r : Nat × Nat) : List UInt8 := (l.drop r.1).take r.2

/-- The second of three adjacent pieces. -/
theorem slice_middle {a b c : List UInt8} {off len : Nat} (ha : a.length = off)
    (hb : b.length = len) : slice (a ++ (b ++ c)) (off, len) = b := by
  rw [slice, List.drop_left' ha, List.take_left' hb]

theorem order_strings (o : Order) :
    slice (Order.codec.encode o) (8, maxSymbolLength) = o.symbol.cells ∧
      slice (Order.codec.encode o) (24, maxClientIdLength) = o.clientId.cells := by
  have hid := Codec.u64.length_encode o.orderId
  refine ⟨slice_middle hid o.symbol.size, ?_⟩
  show slice (Codec.u64.encode o.orderId ++ (o.symbol.cells ++ (o.clientId.cells ++ _))) _ = _
  rw [← List.append_assoc]
  refine slice_middle ?_ o.clientId.size
  rw [List.length_append, hid, o.symbol.size]
  rfl

theorem marketData_strings (d : MarketData) :
    slice (MarketData.codec.encode d) (0, maxSymbolLength) = d.symbol.cells :=
  slice_middle (a := []) rfl d.symbol.size

theorem trade_strings (t : TradeExecution) :
    slice (TradeExecution.codec.encode t) (16, maxSymbolLength) = t.symbol.cells ∧
      slice (TradeExecution.codec.encode t) (64, maxClientIdLength) = t.buyerId.cells ∧
      slice (TradeExecution.codec.encode t) (96, maxClientIdLength) = t.sellerId.cells := by
  have htrade := Codec.u64.length_encode t.tradeId
  have horder := Codec.u64.length_encode t.orderId
  have hprice := Price.codec.length_encode t.price
  have hquantity := Codec.u32.length_encode t.quantity
  have htime := Codec.i64.length_encode t.timestamp
  have hencode : TradeExecution.codec.encode t =
      Codec.u64.encode t.tradeId ++ (Codec.u64.encode t.orderId ++ (t.symbol.cells ++
        (Price.codec.encode t.price ++ (Codec.u32.encode t.quantity ++ (t.pad.cells ++
          (Codec.i64.encode t.timestamp ++ (t.buyerId.cells ++ t.sellerId.cells))))))) := rfl
  have hsymbol : (Codec.u64.encode t.tradeId ++ Codec.u64.encode t.orderId).length = 16 := by
    rw [List.length_append, htrade, horder]
    rfl
  have hfront : (Codec.u64.encode t.tradeId ++ (Codec.u64.encode t.orderId ++ (t.symbol.cells ++
      (Price.codec.encode t.price ++ (Codec.u32.encode t.quantity ++ (t.pad.cells ++
        Codec.i64.encode t.timestamp)))))).length = 64 := by
    simp only [List.length_append, htrade, horder, hprice, hquantity, htime, t.symbol.size,
      t.pad.size]
    rfl
  rw [hencode]
  refine ⟨?_, ?_, ?_⟩
  · rw [← List.append_assoc]
    exact slice_middle hsymbol t.symbol.size
  · have hshape := slice_middle (c := t.sellerId.cells) hfront t.buyerId.size
    simpa only [List.append_assoc] using hshape
  · have hlast : (t.buyerId.cells).length = 32 := t.buyerId.size
    have hshape := slice_middle (c := []) (a := _ ++ t.buyerId.cells)
      (by rw [List.length_append, hfront, hlast]) t.sellerId.size
    simpa only [List.append_assoc, List.append_nil] using hshape

/-- A view of the payload spells the payload. -/
theorem encode_view {α : Type} (c : Codec α) {m : Message} {f : Frame}
    (hpayload : payload m = f.payload) (hsize : payloadSize m.type = some c.width) :
    c.encode (c.decode (m.data.cells.take c.width)) = f.payload := by
  obtain ⟨htake, hlen⟩ := payload_eq hsize
  rw [← htake, c.encode_decode _ hlen, hpayload]

/-- The string fields of a message that carries a frame are ranges of its payload. -/
theorem stringFields_of_carries {m : Message} {f : Frame} (h : Carries m f) :
    stringFields m = (stringRanges f.type).map (slice f.payload) := by
  obtain ⟨htype, hpayload⟩ := h
  have hfits := f.fits
  rw [← htype] at hfits ⊢
  have horder : payloadSize m.type = some Order.codec.width →
      [m.order.symbol.cells, m.order.clientId.cells] =
        [(8, maxSymbolLength), (24, maxClientIdLength)].map (slice f.payload) := by
    intro hsize
    obtain ⟨hsymbol, hclient⟩ := order_strings m.order
    have hview := encode_view Order.codec hpayload hsize
    rw [Message.order] at hsymbol hclient ⊢
    rw [hview] at hsymbol hclient
    rw [List.map_cons, List.map_cons, List.map_nil, hsymbol, hclient]
  unfold stringFields stringRanges
  split
  · next hcase => exact horder (by rw [hcase]; rfl)
  · next hcase => exact horder (by rw [hcase]; rfl)
  · next hcase => exact horder (by rw [hcase]; rfl)
  · next hcase =>
      have hsymbol := marketData_strings m.marketData
      have hview := encode_view MarketData.codec hpayload (by rw [hcase]; rfl)
      rw [Message.marketData] at hsymbol ⊢
      rw [hview] at hsymbol
      rw [List.map_cons, List.map_nil, hsymbol]
  · next hcase =>
      obtain ⟨hsymbol, hbuyer, hseller⟩ := trade_strings m.trade
      have hview := encode_view TradeExecution.codec hpayload (by rw [hcase]; rfl)
      rw [Message.trade] at hsymbol hbuyer hseller ⊢
      rw [hview] at hsymbol hbuyer hseller
      rw [List.map_cons, List.map_cons, List.map_cons, List.map_nil, hsymbol, hbuyer, hseller]
  · rfl

-- ── Over the wire ────────────────────────────────────────────────────────────

/-- The bytes of a range are the entries at its positions. -/
theorem mem_slice {l : List UInt8} {r : Nat × Nat} {b : UInt8} :
    b ∈ slice l r ↔ ∃ i, r.1 ≤ i ∧ i < r.1 + r.2 ∧ l[i]? = some b := by
  simp only [slice, List.mem_iff_getElem?, List.getElem?_take, List.getElem?_drop]
  constructor
  · rintro ⟨i, hi⟩
    split at hi
    · exact ⟨r.1 + i, by omega, by omega, hi⟩
    · cases hi
  · rintro ⟨i, hle, hlt, hi⟩
    refine ⟨i - r.1, ?_⟩
    rw [if_pos (by omega), show r.1 + (i - r.1) = i by omega]
    exact hi

/-- The string fields lie inside the payload. -/
theorem stringRanges_fit {t : CEnum MessageType} {size : Nat} (h : payloadSize t = some size) :
    ∀ r ∈ stringRanges t, r.1 + r.2 ≤ size := by
  unfold payloadSize at h
  unfold stringRanges
  split at h
  case h_6 => cases h
  all_goals
    cases h
    decide

/-- **When decoded strings are safe.** The string fields of an accepted message are C
    strings exactly when the received bytes hold a NUL in the range of each of them. -/
theorem strings_terminated_iff {buffer : Block UInt8 n} {k : Nat} (hk : k ≤ n)
    {prior m : Message} (h : deserializeMessage buffer k prior = .ok (.success, m)) :
    StringSafe m ↔ ∀ r ∈ stringRanges (peekHeader buffer.cells).type,
      ∃ i, r.1 ≤ i ∧ i < r.1 + r.2 ∧ buffer.cells[headerSize + i]? = some 0 := by
  obtain ⟨f, hf⟩ := deserialize_success hk h
  have hcarries : Carries m f := by
    rw [hf.loaded]
    exact carries_load prior f
  have hbyte : ∀ i < f.payload.length, f.payload[i]? = buffer.cells[headerSize + i]? := by
    intro i hi
    rw [← hf.payload, List.getElem?_take, if_pos hi, List.getElem?_drop]
  rw [StringSafe, stringFields_of_carries hcarries, hf.type]
  simp only [List.forall_mem_map]
  refine forall₂_congr (fun r hr => ?_)
  have hfit := stringRanges_fit f.fits r hr
  rw [Terminated, mem_slice]
  constructor
  · rintro ⟨i, hle, hlt, hi⟩
    exact ⟨i, hle, hlt, by rw [← hbyte i (by omega), hi]⟩
  · rintro ⟨i, hle, hlt, hi⟩
    exact ⟨i, hle, hlt, by rw [hbyte i (by omega), hi]⟩

/-- A new order whose symbol field holds sixteen letters. -/
def fullSymbolFrame : Frame where
  type := .known .orderNew
  payload := List.replicate 8 0 ++ (List.replicate 16 65 ++ List.replicate 104 0)
  fits := by
    simp only [List.length_append, List.length_replicate]
    rfl

theorem strings_terminated_iff_fullSymbol :
    StringSafe ((blank (.known .none)).load fullSymbolFrame.type fullSymbolFrame.payload) ↔
      ∀ r ∈ stringRanges (peekHeader (Block.ofList fullSymbolFrame.bytes).cells).type,
        ∃ i, r.1 ≤ i ∧ i < r.1 + r.2 ∧
          (Block.ofList fullSymbolFrame.bytes).cells[headerSize + i]? = some 0 :=
  strings_terminated_iff (Nat.le_refl _) (deserialize_bytes fullSymbolFrame _)

/-- The full symbol is accepted, and its field is no C string. -/
theorem unterminated_symbol :
    ¬ ∀ (n : Nat) (buffer : Block UInt8 n) (prior m : Message),
        deserializeMessage buffer n prior = .ok (.success, m) → StringSafe m := by
  intro hall
  have hsafe := hall _ _ _ _ (deserialize_bytes fullSymbolFrame (blank (.known .none)))
  rw [StringSafe, stringFields_of_carries (carries_load _ fullSymbolFrame)] at hsafe
  exact absurd (hsafe _ List.mem_cons_self) (by decide)

end TradeStrings
