import TradeSynth.TradeDispatchProofs
import TradeSynth.TradeRoutingProofs
import TradeSynth.TradeStringsProofs

/-!
# Admission — what orders the server takes on, and what a failed message leaves behind

`process_order` makes two tests of its own, of the quantity and of the buyer's position.
The rules in `utils.c` are stricter: they also look at the symbol, the type and the side,
and no function of the server calls them. The two agree on the orders whose quantity is
refused anyway and on those with a symbol, a known type and a known side
(`one_admission_rule_iff`).

What the tests let through has no way to succeed: the sequence number is taken, and the
encoder refuses the response. Every other failure that `handle_message` reports leaves the
context as it was; the traversals, which report none, have taken a number too when they
leave an array that is too small for them (`failed_untouched_iff`).
-/

namespace TradeAdmission

open CheckedMemory FixedCodec TradeTypes TradeCodec TradeWire TradeRegistry TradeRun
  TradeHandlers TradeBroadcast TradeRouting TradeDispatch TradeStrings

variable {config : ServerConfig}

-- ── The rules of the utilities ───────────────────────────────────────────────

def isValidQuantity (quantity : Int32) : Bool :=
  decide (0 < quantity) && decide (quantity ≤ 1000000)

/-- The parameter is an `int`; a quantity from `2 ^ 31` on arrives there as a negative
    number. -/
theorem isValidQuantity_iff (quantity : UInt32) :
    isValidQuantity quantity.toInt32 = true ↔ quantity ≠ 0 ∧ quantity ≤ positionLimit := by
  have hlt := quantity.toNat_lt
  have hint : quantity.toInt32.toInt = (quantity.toNat : Int).bmod (2 ^ 32) := by
    rw [Int32.toInt, UInt32.toBitVec_toInt32, BitVec.toInt_eq_toNat_bmod, UInt32.toNat_toBitVec]
  rw [isValidQuantity, Bool.and_eq_true, decide_eq_true_iff, decide_eq_true_iff,
    Int32.lt_iff_toInt_lt, Int32.le_iff_toInt_le, hint, ne_eq, ← UInt32.toNat_inj,
    UInt32.le_iff_toNat_le]
  show 0 < _ ∧ _ ≤ 1000000 ↔ ¬ _ = 0 ∧ _ ≤ 1000000
  rw [Int.bmod_def]
  split <;> omega

/-- The order names a symbol, and has a type and a side that the protocol knows. -/
def Described (order : Order) : Prop :=
  cString order.symbol.cells ≠ [] ∧ isValidOrderType order.type = true ∧
    isValidOrderSide order.side = true

/-- What the validator of the utilities asks of an order with a terminated symbol. -/
theorem validateOrderFields_iff {order : Order} (h : Terminated order.symbol.cells) :
    validateOrderFields order = .ok ErrorCode.success.code ↔
      order.quantity ≠ 0 ∧ Described order := by
  obtain ⟨k, hlt, hk⟩ := strlen_terminated h
  have hne : (Except.ok ErrorCode.invalidOrder.code : Checked Int) ≠
      .ok ErrorCode.success.code := by decide
  rw [validateOrderFields, hk, ok_bind, Described, ne_eq (cString _), ← strlen_zero_iff hk]
  by_cases hempty : k = 0 ∨ maxSymbolLength ≤ k
  · rw [if_pos hempty]
    exact iff_of_false hne (fun hrule => hrule.2.1 (by omega))
  rw [if_neg hempty]
  by_cases hquantity : order.quantity = 0
  · rw [if_pos hquantity]
    exact iff_of_false hne (fun hrule => hrule.1 hquantity)
  rw [if_neg hquantity]
  cases htype : isValidOrderType order.type
  · exact iff_of_false hne (fun hrule => absurd hrule.2.2.1 Bool.false_ne_true)
  cases hside : isValidOrderSide order.side
  · exact iff_of_false hne (fun hrule => absurd hrule.2.2.2 Bool.false_ne_true)
  exact iff_of_true rfl ⟨hquantity, by omega, rfl, rfl⟩

-- ── The tests of process_order ───────────────────────────────────────────────

/-- A buyer stays within the limit of his position. -/
def PositionHolds (context : ServerContext config) (order : Order) : Prop :=
  ¬ (order.side = .known .buy ∧ positionLimit <
    getClientPosition context (clientIdOf order) (symbolOf order) + order.quantity)

/-- What `process_order` tests of an order. -/
structure WithinLimits (context : ServerContext config) (order : Order) : Prop where
  positive : order.quantity ≠ 0
  bounded  : order.quantity ≤ positionLimit
  position : PositionHolds context order

/-- The copy that `process_order` works on, as it goes into the response. -/
def processedOrder (context : ServerContext config) (order : Order) (now₁ : Int64) : Order :=
  { order with
    price := improvedPrice context order
    status := .known .new
    modificationTime := now₁ }

/-- The context once the response has its sequence number. -/
def numbered (context : ServerContext config) : ServerContext config :=
  { context with sequenceNum := context.sequenceNum + 1 }

theorem numbered_ne (context : ServerContext config) : numbered context ≠ context := by
  intro h
  have hnum : context.sequenceNum + 1 = context.sequenceNum :=
    congrArg ServerContext.sequenceNum h
  have hlt := context.sequenceNum.toNat_lt
  rw [← UInt64.toNat_inj, UInt64.toNat_add, UInt64.toNat_one] at hnum
  omega

/-- No position is ever on record, so the quantity alone decides. -/
theorem positionHolds_of_le {context : ServerContext config} {order : Order}
    (h : order.quantity ≤ positionLimit) : PositionHolds context order := by
  rintro ⟨-, hlt⟩
  rw [getClientPosition, UInt32.zero_add] at hlt
  exact absurd h (UInt32.not_le.mpr hlt)

/-- An order outside the limits is refused, and nothing has happened. -/
theorem processOrder_refused {context : ServerContext config} {order : Order}
    (h : ¬ WithinLimits context order) (now₁ now₂ : Int64) (send : List UInt8 → Int) :
    processOrder context order now₁ now₂ send =
      .ok (ErrorCode.invalidOrder.code, context, []) := by
  rw [processOrder]
  by_cases hquantity : order.quantity = 0 ∨ positionLimit < order.quantity
  · rw [if_pos hquantity]
  rw [if_neg hquantity]
  rw [not_or, UInt32.not_lt] at hquantity
  exact absurd ⟨hquantity.1, hquantity.2, positionHolds_of_le hquantity.2⟩ h

/-- An order within the limits takes a number, and the encoder refuses the response. -/
theorem processOrder_within {context : ServerContext config} {order : Order}
    (h : WithinLimits context order) (now₁ now₂ : Int64) (send : List UInt8 → Int) :
    processOrder context order now₁ now₂ send = (do
      let _ ← findClientSocket context (clientIdOf (processedOrder context order now₁))
      pure (ErrorCode.serialization.code, numbered context, [])) := by
  have hquantity : ¬ (order.quantity = 0 ∨ positionLimit < order.quantity) := by
    rw [not_or, UInt32.not_lt]
    exact ⟨h.positive, h.bounded⟩
  rw [processOrder, if_neg hquantity, if_neg h.position]
  refine bind_congr (fun clientSocket => ?_)
  rw [sendResponseMessage_refused rfl, ok_bind]
  rfl

-- ── One admission rule ───────────────────────────────────────────────────────

/-- The order gets past the tests of `process_order`. -/
def Passes (context : ServerContext config) (order : Order) : Prop :=
  ∀ now₁ now₂ send context' calls, processOrder context order now₁ now₂ send ≠
    .ok (ErrorCode.invalidOrder.code, context', calls)

theorem passes_iff (context : ServerContext config) (order : Order) :
    Passes context order ↔ WithinLimits context order := by
  constructor
  · intro hpasses
    by_contra hlimits
    exact hpasses 0 0 (fun _ => 0) _ _ (processOrder_refused hlimits 0 0 _)
  · intro hlimits now₁ now₂ send context' calls hrefused
    rw [processOrder_within hlimits, bind_eq_ok] at hrefused
    obtain ⟨clientSocket, -, hrefused⟩ := hrefused
    cases hrefused

/-- The rule of the utilities for the order, and the limit of the position. -/
def Admissible (context : ServerContext config) (order : Order) : Prop :=
  validateOrderFields order = .ok ErrorCode.success.code ∧
    isValidQuantity order.quantity.toInt32 = true ∧ PositionHolds context order

/-- Some send comes of the order. -/
def Answered (context : ServerContext config) (order : Order) : Prop :=
  ∃ now₁ now₂ send code context' calls,
    processOrder context order now₁ now₂ send = .ok (code, context', calls) ∧ calls ≠ []

/-- **One admission rule.** `process_order` lets through what the rules of the utilities
    accept, and leaves an order without symbol, type or side unanswered, exactly when it
    refuses the quantity anyway or the order has all three. -/
theorem one_admission_rule_iff {order : Order} (h : Terminated order.symbol.cells)
    (context : ServerContext config) :
    ((Passes context order ↔ Admissible context order) ∧
        (¬ Described order → ¬ Answered context order)) ↔
      order.quantity = 0 ∨ positionLimit < order.quantity ∨ Described order := by
  have hunanswered : ¬ Answered context order := by
    rintro ⟨now₁, now₂, send, code, context', calls, hresult, hcalls⟩
    exact hcalls (processOrder_outcome hresult).2
  rw [and_iff_left (fun _ => hunanswered), passes_iff, Admissible, validateOrderFields_iff h,
    isValidQuantity_iff]
  constructor
  · intro hrule
    by_cases hzero : order.quantity = 0
    · exact Or.inl hzero
    by_cases hlarge : positionLimit < order.quantity
    · exact Or.inr (Or.inl hlarge)
    have hle := UInt32.not_lt.mp hlarge
    exact Or.inr (Or.inr (hrule.mp ⟨hzero, hle, positionHolds_of_le hle⟩).1.2)
  · rintro (hzero | hlarge | hdescribed)
    · exact iff_of_false (fun hlimits => hlimits.positive hzero) (fun hrule => hrule.1.1 hzero)
    · exact iff_of_false (fun hlimits => absurd hlarge (UInt32.not_lt.mpr hlimits.bounded))
        (fun hrule => absurd hlarge (UInt32.not_lt.mpr hrule.2.1.2))
    · constructor
      · intro hlimits
        exact ⟨⟨hlimits.positive, hdescribed⟩, ⟨hlimits.positive, hlimits.bounded⟩,
          hlimits.position⟩
      · rintro ⟨-, ⟨hpositive, hbounded⟩, hposition⟩
        exact ⟨hpositive, hbounded, hposition⟩

theorem one_admission_rule_iff_sample :
    ((Passes registeredContext sampleOrder ↔ Admissible registeredContext sampleOrder) ∧
        (¬ Described sampleOrder → ¬ Answered registeredContext sampleOrder)) ↔
      sampleOrder.quantity = 0 ∨ positionLimit < sampleOrder.quantity ∨
        Described sampleOrder :=
  one_admission_rule_iff (by decide) registeredContext

/-- A hundred of nothing, neither bought nor sold: the type and the side are 9. -/
def emptyOrder : Order :=
  { sampleOrder with
    symbol := Block.fill 16 0
    type := .unknown 9 rfl
    side := .unknown 9 rfl }

/-- The order is let through. -/
theorem undescribed_order_passes :
    ¬ ∀ (config : ServerConfig) (context : ServerContext config) (order : Order),
        Terminated order.symbol.cells → Terminated order.clientId.cells →
        (Passes context order ↔ Admissible context order) := by
  intro hall
  have hrule := hall twoSlots registeredContext emptyOrder (by decide) (by decide)
  have hlimits : WithinLimits registeredContext emptyOrder :=
    ⟨by decide, by decide, positionHolds_of_le (by decide)⟩
  have hfields := (hrule.mp ((passes_iff _ _).mpr hlimits)).1
  exact absurd hfields (by decide +kernel)

-- ── A failed message ─────────────────────────────────────────────────────────

/-- The call has sent all of its bytes. -/
def Complete : Syscall → Prop
  | .sent _ bytes result => result = bytes.length
  | _ => False

/-- The message is handled inside the memory, and if it ends in an error, the context is as
    before, and no client has been sent a complete message. -/
def Untouched (context : ServerContext config) (clientSocket : Int) (msg : Message)
    (outside : Outside) : Prop :=
  ∃ code context' calls,
    handleMessage context clientSocket msg outside = .ok (code, context', calls) ∧
    (code ≠ ErrorCode.success.code → context' = context ∧ ∀ call ∈ calls, ¬ Complete call)

/-- A lookup of the id ends in the array, at its end or at a slot that answers. -/
def Searchable (context : ServerContext config) (id : List UInt8) : Prop :=
  maxClients ≤ config.maxClients.toNat ∨
    ∃ c ∈ context.clients.cells, answersTo id c = true

theorem findClientSocket_inside_iff (context : ServerContext config) (id : List UInt8) :
    (∃ fd, findClientSocket context id = .ok fd) ↔ Searchable context id := by
  rcases findClientSocket_cases context id with
    ⟨i, c, -, hc, hanswers, -, hfound⟩ | ⟨hnone, hmiss⟩
  · exact iff_of_true ⟨_, hfound⟩ (Or.inr ⟨c, List.mem_of_getElem? hc, hanswers⟩)
  · constructor
    · rintro ⟨fd, hfd⟩
      exact Or.inl (hmiss fd hfd).2
    · rintro (hsize | ⟨c, hc, hanswers⟩)
      · exact findClientSocket_inside hsize context id
      · obtain ⟨i, hi⟩ := List.getElem?_of_mem hc
        by_cases hsize : maxClients ≤ config.maxClients.toNat
        · exact findClientSocket_inside hsize context id
        · have hlt := (List.getElem?_eq_some_iff.mp hi).1
          rw [context.clients.size] at hlt
          rw [hnone i c (by omega) hi] at hanswers
          cases hanswers

/-- The array is large enough for what a message makes the server look through. -/
def Traversable (context : ServerContext config) (msg : Message) : Prop :=
  (serverCase msg.type = some .marketData → maxClients ≤ config.maxClients.toNat) ∧
  (serverCase msg.type = some .tradeExec →
    Searchable context (buyerIdOf msg.trade) ∧ Searchable context (sellerIdOf msg.trade))

/-- A broadcast reports no error, and stays inside a large array. -/
theorem untouched_marketData {context : ServerContext config} {clientSocket : Int}
    {msg : Message} {outside : Outside} (h : serverCase msg.type = some .marketData) :
    Untouched context clientSocket msg outside ↔ maxClients ≤ config.maxClients.toNat := by
  have hhandled : handleMessage context clientSocket msg outside =
      broadcastMarketData context msg.marketData outside.now₁ outside.send := by
    rw [handleMessage, h]
    rfl
  rw [Untouched, hhandled, broadcastMarketData]
  dsimp only
  constructor
  · rintro ⟨code, context', calls, hresult, -⟩
    by_contra hsmall
    rw [broadcastLoop_fault _ _ _ maxClients 0 (Nat.zero_le _) (by omega), error_bind] at hresult
    cases hresult
  · intro hsize
    obtain ⟨f, hf⟩ := exists_quote_frame context msg.marketData outside.now₁
    obtain ⟨calls, hcalls, -⟩ :=
      broadcastLoop_eq hf context.clients outside.send maxClients 0 (by omega)
    rw [hcalls, ok_bind]
    exact ⟨_, _, _, rfl, fun hcode => absurd rfl hcode⟩

/-- An execution reports no error either, and stays inside when both of its lookups do. -/
theorem untouched_tradeExec {context : ServerContext config} {clientSocket : Int}
    {msg : Message} {outside : Outside} (h : serverCase msg.type = some .tradeExec) :
    Untouched context clientSocket msg outside ↔
      Searchable context (buyerIdOf msg.trade) ∧ Searchable context (sellerIdOf msg.trade) := by
  have hhandled : handleMessage context clientSocket msg outside =
      processTradeExecution context msg.trade outside.now₁ (outside.send 0)
        (outside.send 1) := by
    rw [handleMessage, h]
    rfl
  rw [Untouched, hhandled, processTradeExecution, ← findClientSocket_inside_iff,
    ← findClientSocket_inside_iff]
  generalize Message.mk (.known .tradeExec) context.sequenceNum outside.now₁ _ = trade
  constructor
  · rintro ⟨code, context', calls, hresult, -⟩
    obtain ⟨buyer, hbuyer, hresult⟩ := bind_eq_ok.mp hresult
    obtain ⟨seller, hseller, -⟩ := bind_eq_ok.mp hresult
    exact ⟨⟨buyer, hbuyer⟩, seller, hseller⟩
  · rintro ⟨⟨buyer, hbuyer⟩, seller, hseller⟩
    obtain ⟨buyerCalls, hbuyerCalls⟩ := notify_inside buyer trade (outside.send 0)
    obtain ⟨sellerCalls, hsellerCalls⟩ := notify_inside seller trade (outside.send 1)
    -- the lookups look at the slots only, whatever number has been taken
    have hbuyer' : findClientSocket { context with sequenceNum := context.sequenceNum + 1 }
        (buyerIdOf msg.trade) = .ok buyer := hbuyer
    have hseller' : findClientSocket { context with sequenceNum := context.sequenceNum + 1 }
        (sellerIdOf msg.trade) = .ok seller := hseller
    rw [hbuyer', ok_bind, hseller', ok_bind, hbuyerCalls, ok_bind, hsellerCalls, ok_bind]
    exact ⟨_, _, _, rfl, fun hcode => absurd rfl hcode⟩

/-- An order message goes to `process_order`. -/
theorem handleMessage_order {msg : Message} (h : serverCase msg.type = some .order)
    (context : ServerContext config) (clientSocket : Int) (outside : Outside) :
    handleMessage context clientSocket msg outside =
      processOrder context msg.order outside.now₁ outside.now₂ (outside.send 0) := by
  rw [handleMessage, h]
  rfl

/-- An order within the limits takes a number, and fails behind that. -/
theorem untouched_order {context : ServerContext config} {clientSocket : Int}
    {msg : Message} {outside : Outside} (h : serverCase msg.type = some .order) :
    Untouched context clientSocket msg outside ↔ ¬ WithinLimits context msg.order := by
  rw [Untouched, handleMessage_order h]
  constructor
  · rintro ⟨code, context', calls, hresult, hkept⟩ hlimits
    rw [processOrder_within hlimits, bind_eq_ok] at hresult
    obtain ⟨fd, -, hresult⟩ := hresult
    cases hresult
    exact numbered_ne context (hkept (by decide)).1
  · intro hlimits
    exact ⟨_, _, _, processOrder_refused hlimits _ _ _,
      fun _ => ⟨rfl, fun _ hmem => absurd hmem List.not_mem_nil⟩⟩

/-- The other messages are handled without a trace. -/
theorem untouched_other {context : ServerContext config} {clientSocket : Int}
    {msg : Message} {outside : Outside} (horder : serverCase msg.type ≠ some .order)
    (hquote : serverCase msg.type ≠ some .marketData)
    (htrade : serverCase msg.type ≠ some .tradeExec) :
    Untouched context clientSocket msg outside := by
  rw [Untouched, handleMessage]
  cases hcase : serverCase msg.type with
  | none => exact ⟨_, _, _, rfl, fun _ => ⟨rfl, fun _ hmem => absurd hmem List.not_mem_nil⟩⟩
  | some case =>
      cases case with
      | heartbeat =>
          -- the encoder refuses the answer, and there is nothing else to it
          dsimp only
          rw [handleHeartbeat, sendResponseMessage_refused rfl, ok_bind]
          exact ⟨_, _, _, rfl, fun _ => ⟨rfl, fun _ hmem => absurd hmem List.not_mem_nil⟩⟩
      | order => exact absurd hcase horder
      | marketData => exact absurd hcase hquote
      | tradeExec => exact absurd hcase htrade
      | error => exact ⟨_, _, _, rfl, fun hcode => absurd rfl hcode⟩

/-- **A failed message.** The server handles a message inside its memory, and is as before
    if it reports an error, unless the message is of one of the four order types with an
    order within the limits, or the array is too small for a quote or an execution that
    makes the server look through it. -/
theorem failed_untouched_iff (context : ServerContext config) (clientSocket : Int)
    (msg : Message) (outside : Outside) :
    Untouched context clientSocket msg outside ↔
      ¬ (serverCase msg.type = some .order ∧ WithinLimits context msg.order) ∧
        Traversable context msg := by
  by_cases horder : serverCase msg.type = some .order
  · have htraversable : Traversable context msg := by
      rw [Traversable, horder]
      exact ⟨fun h => (by cases h), fun h => (by cases h)⟩
    rw [untouched_order horder, and_iff_left htraversable]
    exact ⟨fun hlimits hbad => hlimits hbad.2, fun hgood hlimits => hgood ⟨horder, hlimits⟩⟩
  rw [and_iff_right (fun hbad => horder hbad.1), Traversable]
  by_cases hquote : serverCase msg.type = some .marketData
  · rw [untouched_marketData hquote]
    refine ⟨fun hsize => ⟨fun _ => hsize, fun htrade => ?_⟩, fun h => h.1 hquote⟩
    rw [hquote] at htrade
    cases htrade
  by_cases htrade : serverCase msg.type = some .tradeExec
  · rw [untouched_tradeExec htrade]
    exact ⟨fun hfound => ⟨fun hcase => absurd hcase hquote, fun _ => hfound⟩,
      fun h => h.2 htrade⟩
  exact iff_of_true (untouched_other horder hquote htrade)
    ⟨fun hcase => absurd hcase hquote, fun hcase => absurd hcase htrade⟩

/-- A new order with the order of the sample. -/
def sampleMessage : Message where
  type := .known .orderNew
  sequenceNum := 1
  timestamp := 0
  data := unionOf Order.codec sampleOrder order_fits

/-- The order of the sample ends in an error, and the next number is gone. -/
theorem failed_order_numbered :
    ¬ ∀ (config : ServerConfig) (context : ServerContext config) (clientSocket : Int)
        (msg : Message) (outside : Outside), Untouched context clientSocket msg outside := by
  intro hall
  have hquantity : sampleMessage.order.quantity = 100 := by decide +kernel
  have hle : sampleMessage.order.quantity ≤ positionLimit := by
    rw [hquantity]
    decide
  have hlimits : WithinLimits (ServerContext.fresh hundredSlots) sampleMessage.order :=
    ⟨by rw [hquantity]; decide, hle, positionHolds_of_le hle⟩
  have hcase : serverCase sampleMessage.type = some .order := rfl
  exact (untouched_order hcase).mp (hall _ (ServerContext.fresh hundredSlots) 5 sampleMessage
    still) hlimits

end TradeAdmission
