import Mathlib.Algebra.Order.Field.Rat
import TradeSynth.FixedCodecProofs

/-!
# The data model — constants, enumerations and the structs that travel

The types of `common/types.h`. Each struct is a record of its members in declaration
order, with the padding bytes of the x86-64 layout as members of their own, and a
`codec` that lays the members out in memory; `sizeof` is the width of the codec, and
the offsets follow from the order.

A `Message` holds its union as raw bytes. The views `order`, `marketData` and `trade`
read a struct off the front of the union, whatever was last stored there, as the C
members of the union do.

`price_to_double` and `double_to_price` are read as exact rational arithmetic, with
the conversion to `int64_t` truncating toward zero.
-/

namespace TradeTypes

open CheckedMemory FixedCodec

-- ── Constants ────────────────────────────────────────────────────────────────

/-- The length of a symbol field, `MAX_SYMBOL_LENGTH`. -/
def maxSymbolLength : Nat := 16

/-- The length of a client id field, `MAX_CLIENT_ID_LENGTH`. -/
def maxClientIdLength : Nat := 32

/-- The size of every send and receive buffer, `BUFFER_SIZE`. -/
def bufferSize : Nat := 4096

/-- The bound of every loop over all clients, `MAX_CLIENTS`. -/
def maxClients : Nat := 100

/-- The C string at the front of a piece of memory: the bytes before the first NUL. -/
def cString (memory : List UInt8) : List UInt8 := memory.takeWhile (· ≠ 0)

-- ── Enumerations ─────────────────────────────────────────────────────────────

/-- The result codes shared by client and server. -/
inductive ErrorCode where
  | success
  | socketCreate
  | socketBind
  | socketListen
  | socketAccept
  | socketConnect
  | threadCreate
  | memoryAlloc
  | invalidParam
  | invalidState
  | timeout
  | serialization
  | deserialization
  | invalidMessage
  | invalidOrder
  | orderNotFound
  | marketData
deriving DecidableEq, Repr

/-- The `int` a result code is returned as. -/
def ErrorCode.code : ErrorCode → Int
  | success => 0
  | socketCreate => -1
  | socketBind => -2
  | socketListen => -3
  | socketAccept => -4
  | socketConnect => -5
  | threadCreate => -6
  | memoryAlloc => -7
  | invalidParam => -8
  | invalidState => -9
  | timeout => -10
  | serialization => -11
  | deserialization => -12
  | invalidMessage => -13
  | invalidOrder => -14
  | orderNotFound => -15
  | marketData => -16

/-- Every result but success is negative. -/
theorem ErrorCode.code_neg {e : ErrorCode} (h : e ≠ success) : e.code < 0 := by
  cases e with
  | success => exact absurd rfl h
  | _ => decide

inductive MessageType where
  | none
  | heartbeat
  | orderNew
  | orderCancel
  | orderModify
  | orderStatus
  | marketData
  | tradeExec
  | error
deriving DecidableEq, Repr

instance : Enumeration MessageType where
  all := [.none, .heartbeat, .orderNew, .orderCancel, .orderModify, .orderStatus,
    .marketData, .tradeExec, .error]
  code
    | .none => 0
    | .heartbeat => 1
    | .orderNew => 2
    | .orderCancel => 3
    | .orderModify => 4
    | .orderStatus => 5
    | .marketData => 6
    | .tradeExec => 7
    | .error => 8
  complete e := by cases e <;> decide
  code_inj e e' := by cases e <;> cases e' <;> decide

inductive OrderType where
  | market
  | limit
  | stop
  | stopLimit
deriving DecidableEq, Repr

instance : Enumeration OrderType where
  all := [.market, .limit, .stop, .stopLimit]
  code
    | .market => 1
    | .limit => 2
    | .stop => 3
    | .stopLimit => 4
  complete e := by cases e <;> decide
  code_inj e e' := by cases e <;> cases e' <;> decide

inductive OrderSide where
  | buy
  | sell
deriving DecidableEq, Repr

instance : Enumeration OrderSide where
  all := [.buy, .sell]
  code
    | .buy => 1
    | .sell => 2
  complete e := by cases e <;> decide
  code_inj e e' := by cases e <;> cases e' <;> decide

inductive OrderStatus where
  | new
  | partialFill
  | filled
  | cancelled
  | rejected
deriving DecidableEq, Repr

instance : Enumeration OrderStatus where
  all := [.new, .partialFill, .filled, .cancelled, .rejected]
  code
    | .new => 1
    | .partialFill => 2
    | .filled => 3
    | .cancelled => 4
    | .rejected => 5
  complete e := by cases e <;> decide
  code_inj e e' := by cases e <;> cases e' <;> decide

inductive TimeInForce where
  | day
  | ioc
  | fok
  | gtc
deriving DecidableEq, Repr

instance : Enumeration TimeInForce where
  all := [.day, .ioc, .fok, .gtc]
  code
    | .day => 1
    | .ioc => 2
    | .fok => 3
    | .gtc => 4
  complete e := by cases e <;> decide
  code_inj e e' := by cases e <;> cases e' <;> decide

-- ── Prices ───────────────────────────────────────────────────────────────────

/-- A decimal price `mantissa * 10 ^ exponent`, with the four bytes of padding after
    the exponent. -/
structure Price where
  mantissa : Int64
  exponent : Int32
  pad      : Block UInt8 4
deriving DecidableEq

def Price.codec : Codec Price :=
  (Codec.i64.prod (Codec.i32.prod (Codec.bytes 4))).map
    ⟨fun p => ⟨p.1, p.2.1, p.2.2⟩, fun p => (p.mantissa, p.exponent, p.pad),
      fun _ => rfl, fun _ => rfl⟩

/-- The value of a price, `price_to_double`. -/
def priceToDouble (p : Price) : ℚ := (p.mantissa.toInt : ℚ) * 10 ^ p.exponent.toInt

/-- A value cut to six decimals, `double_to_price`. -/
def doubleToPrice (value : ℚ) : Price where
  mantissa := Int64.ofInt ((value * 10 ^ (6 : Nat)).num.tdiv (value * 10 ^ (6 : Nat)).den)
  exponent := -6
  pad := Block.fill 4 0

-- ── Payload structs ──────────────────────────────────────────────────────────

structure Order where
  orderId           : UInt64
  symbol            : Block UInt8 maxSymbolLength
  clientId          : Block UInt8 maxClientIdLength
  type              : CEnum OrderType
  side              : CEnum OrderSide
  status            : CEnum OrderStatus
  timeInForce       : CEnum TimeInForce
  price             : Price
  quantity          : UInt32
  filledQuantity    : UInt32
  remainingQuantity : UInt32
  pad               : Block UInt8 4
  creationTime      : Int64
  modificationTime  : Int64
  expirationTime    : Int64
deriving DecidableEq

def Order.codec : Codec Order :=
  (Codec.u64.prod ((Codec.bytes maxSymbolLength).prod ((Codec.bytes maxClientIdLength).prod
    ((CEnum.codec OrderType).prod ((CEnum.codec OrderSide).prod
    ((CEnum.codec OrderStatus).prod ((CEnum.codec TimeInForce).prod (Price.codec.prod
    (Codec.u32.prod (Codec.u32.prod (Codec.u32.prod ((Codec.bytes 4).prod
    (Codec.i64.prod (Codec.i64.prod Codec.i64)))))))))))))).map
    ⟨fun ⟨a, b, c, d, e, f, g, h, i, j, k, l, m, n, o⟩ =>
        ⟨a, b, c, d, e, f, g, h, i, j, k, l, m, n, o⟩,
      fun ⟨a, b, c, d, e, f, g, h, i, j, k, l, m, n, o⟩ =>
        (a, b, c, d, e, f, g, h, i, j, k, l, m, n, o),
      fun _ => rfl, fun _ => rfl⟩

structure MarketData where
  symbol    : Block UInt8 maxSymbolLength
  lastPrice : Price
  bid       : Price
  ask       : Price
  lastSize  : UInt32
  bidSize   : UInt32
  askSize   : UInt32
  pad       : Block UInt8 4
  volume    : UInt64
  numTrades : UInt32
  pad'      : Block UInt8 4
  timestamp : Int64
deriving DecidableEq

def MarketData.codec : Codec MarketData :=
  ((Codec.bytes maxSymbolLength).prod (Price.codec.prod (Price.codec.prod (Price.codec.prod
    (Codec.u32.prod (Codec.u32.prod (Codec.u32.prod ((Codec.bytes 4).prod
    (Codec.u64.prod (Codec.u32.prod ((Codec.bytes 4).prod Codec.i64))))))))))).map
    ⟨fun ⟨a, b, c, d, e, f, g, h, i, j, k, l⟩ => ⟨a, b, c, d, e, f, g, h, i, j, k, l⟩,
      fun ⟨a, b, c, d, e, f, g, h, i, j, k, l⟩ => (a, b, c, d, e, f, g, h, i, j, k, l),
      fun _ => rfl, fun _ => rfl⟩

structure TradeExecution where
  tradeId   : UInt64
  orderId   : UInt64
  symbol    : Block UInt8 maxSymbolLength
  price     : Price
  quantity  : UInt32
  pad       : Block UInt8 4
  timestamp : Int64
  buyerId   : Block UInt8 maxClientIdLength
  sellerId  : Block UInt8 maxClientIdLength
deriving DecidableEq

def TradeExecution.codec : Codec TradeExecution :=
  (Codec.u64.prod (Codec.u64.prod ((Codec.bytes maxSymbolLength).prod (Price.codec.prod
    (Codec.u32.prod ((Codec.bytes 4).prod (Codec.i64.prod
    ((Codec.bytes maxClientIdLength).prod (Codec.bytes maxClientIdLength))))))))).map
    ⟨fun ⟨a, b, c, d, e, f, g, h, i⟩ => ⟨a, b, c, d, e, f, g, h, i⟩,
      fun ⟨a, b, c, d, e, f, g, h, i⟩ => (a, b, c, d, e, f, g, h, i),
      fun _ => rfl, fun _ => rfl⟩

/-- The three layouts as the compiler sizes them. -/
theorem payload_widths :
    Order.codec.width = 128 ∧ MarketData.codec.width = 104 ∧
      TradeExecution.codec.width = 128 :=
  ⟨rfl, rfl, rfl⟩

-- ── Messages ─────────────────────────────────────────────────────────────────

/-- The size of the payload union; its largest member is the error text with its
    code, rounded up to the alignment of the others. -/
def unionSize : Nat := 264

theorem order_fits : Order.codec.width ≤ unionSize := by decide

theorem marketData_fits : MarketData.codec.width ≤ unionSize := by decide

theorem trade_fits : TradeExecution.codec.width ≤ unionSize := by decide

structure Message where
  type        : CEnum MessageType
  sequenceNum : UInt64
  timestamp   : Int64
  data        : Block UInt8 unionSize
deriving DecidableEq

/-- A union object whose live member has the given image; the bytes behind it are
    clear. -/
def unionOf {α : Type} (c : Codec α) (a : α) (h : c.width ≤ unionSize) :
    Block UInt8 unionSize :=
  (Block.fill unionSize 0).splice 0 (c.encode a) (by rw [c.length_encode]; omega)

theorem take_unionOf {α : Type} (c : Codec α) (a : α) (h : c.width ≤ unionSize) :
    (unionOf c a h).cells.take c.width = c.encode a := by
  have hwidth := c.length_encode a
  rw [unionOf, ← hwidth, Block.take_splice]

namespace Message

/-- The view `data.order`. -/
def order (m : Message) : Order := Order.codec.decode (m.data.cells.take Order.codec.width)

/-- The view `data.market_data`. -/
def marketData (m : Message) : MarketData :=
  MarketData.codec.decode (m.data.cells.take MarketData.codec.width)

/-- The view `data.trade`. -/
def trade (m : Message) : TradeExecution :=
  TradeExecution.codec.decode (m.data.cells.take TradeExecution.codec.width)

/-- Store a payload at the front of the union and set the type; the bytes behind the
    payload, the sequence number and the timestamp stay. -/
def load (m : Message) (t : CEnum MessageType) (payload : List UInt8) : Message :=
  if h : 0 + payload.length ≤ unionSize then
    { m with type := t, data := m.data.splice 0 payload h }
  else { m with type := t }

@[simp] theorem load_type (m : Message) (t : CEnum MessageType) (payload : List UInt8) :
    (m.load t payload).type = t := by
  rw [load]
  split <;> rfl

@[simp] theorem load_sequenceNum (m : Message) (t : CEnum MessageType)
    (payload : List UInt8) : (m.load t payload).sequenceNum = m.sequenceNum := by
  rw [load]
  split <;> rfl

@[simp] theorem load_timestamp (m : Message) (t : CEnum MessageType)
    (payload : List UInt8) : (m.load t payload).timestamp = m.timestamp := by
  rw [load]
  split <;> rfl

theorem take_load (m : Message) (t : CEnum MessageType) {payload : List UInt8}
    (h : payload.length ≤ unionSize) :
    (m.load t payload).data.cells.take payload.length = payload := by
  have h' : 0 + payload.length ≤ unionSize := by omega
  rw [load, dif_pos h']
  exact Block.take_splice m.data payload h'

end Message

end TradeTypes
