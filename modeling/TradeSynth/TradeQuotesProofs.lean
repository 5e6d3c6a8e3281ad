import TradeSynth.TradeBindingProofs
import TradeSynth.TradeReceiveProofs
import TradeSynth.TradeSendersProofs
import TradeSynth.TradeStringsProofs

/-!
# Quotes — what the server publishes

A client asks for market data with a message of type `MSG_MARKET_DATA` that names a
symbol and leaves everything else at zero. The server takes any message of that type
for a quote, and sends it on to every slot with a descriptor. `validate_market_data`
stands in `utils.c`, and nobody calls it.

So only valid quotes are published as long as only valid quotes come in while somebody
listens (`published_valid_iff`), and no request is one (`request_not_valid`).
-/

namespace TradeQuotes

open CheckedMemory FixedCodec TradeTypes TradeCodec TradeWire TradeReceive TradeRegistry
  TradeRun TradeHandlers TradeBroadcast TradeRouting TradeDispatch TradeBinding TradeStrings
  Transition

variable {config : ServerConfig}

-- ── Valid quotes ─────────────────────────────────────────────────────────────

def Valid (data : MarketData) : Prop :=
  validateMarketData data = .ok ErrorCode.success.code

/-- What the validator accepts: a symbol that ends inside its field and is not empty, and
    a bid below the ask. -/
theorem valid_iff (data : MarketData) :
    Valid data ↔ Terminated data.symbol.cells ∧ cString data.symbol.cells ≠ [] ∧
      priceToDouble data.bid < priceToDouble data.ask := by
  have hne : (Except.ok ErrorCode.marketData.code : Checked Int) ≠
      .ok ErrorCode.success.code := by decide
  rw [Valid, validateMarketData]
  by_cases h : Terminated data.symbol.cells
  swap
  · rw [strlen_unterminated h, error_bind]
    exact iff_of_false (by rintro ⟨⟩) (fun hvalid => h hvalid.1)
  obtain ⟨k, hlt, hk⟩ := strlen_terminated h
  rw [hk, ok_bind, ne_eq, ← strlen_zero_iff hk, ← not_le]
  by_cases hempty : k = 0 ∨ maxSymbolLength ≤ k
  · rw [if_pos hempty]
    exact iff_of_false hne (fun hvalid => hvalid.2.1 (by omega))
  rw [if_neg hempty]
  by_cases hspread : priceToDouble data.ask ≤ priceToDouble data.bid
  · rw [if_pos hspread]
    exact iff_of_false hne (fun hvalid => hvalid.2.2 hspread)
  · rw [if_neg hspread]
    exact iff_of_true rfl ⟨h, by omega, hspread⟩

-- ── What a send publishes ────────────────────────────────────────────────────

/-- The call sends an encoding of market data. -/
def Published (call : Syscall) (data : MarketData) : Prop :=
  ∃ fd bytes result m, call = .sent fd bytes result ∧ Encodes m bytes ∧
    m.type = .known .marketData ∧ m.marketData = data

/-- Whatever market data the calls send is valid. -/
def OnlyValid (calls : List Syscall) : Prop :=
  ∀ call ∈ calls, ∀ data, Published call data → Valid data

theorem onlyValid_nil : OnlyValid [] := nofun

theorem onlyValid_append {calls calls' : List Syscall} :
    OnlyValid (calls ++ calls') ↔ OnlyValid calls ∧ OnlyValid calls' := by
  rw [OnlyValid, List.forall_mem_append]
  rfl

/-- The bytes of a frame are an encoding of the messages that carry it. -/
theorem carries_of_encodes {m : Message} {f : Frame} (h : Encodes m f.bytes) : Carries m f := by
  obtain ⟨g, hg, hbytes⟩ := exists_frame_of_encodes h
  have hheader : f.header = g.header := by
    have hlong : headerSize ≤ g.size := Nat.le_add_right _ _
    have hself := peekHeader_of_take (f := f) (k := f.size) (Nat.le_add_right _ _) rfl
    rw [← hself, peekHeader_of_take (f := g) hlong (by rw [hbytes])]
  have htype : f.type = g.type := congrArg MessageHeader.type hheader
  have hpayload : f.payload = g.payload := by
    rw [← f.drop_bytes, ← g.drop_bytes, hbytes]
  exact ⟨hg.1.trans htype.symm, hg.2.trans hpayload.symm⟩

/-- A frame of another type publishes nothing. -/
theorem not_published {f : Frame} (h : f.type ≠ .known .marketData) (fd result : Int)
    (data : MarketData) : ¬ Published (.sent fd f.bytes result) data := by
  rintro ⟨fd', bytes, result', m, heq, hm, htype, -⟩
  cases heq
  exact h ((carries_of_encodes hm).1 ▸ htype)

/-- A frame of market data publishes the market data of the messages that carry it. -/
theorem published_iff {m : Message} {f : Frame} (hm : Carries m f)
    (htype : m.type = .known .marketData) (fd result : Int) (data : MarketData) :
    Published (.sent fd f.bytes result) data ↔ m.marketData = data := by
  have hsize : payloadSize f.type = some MarketData.codec.width := by
    rw [← hm.1, htype]
    rfl
  constructor
  · rintro ⟨fd', bytes, result', m', heq, hm', -, rfl⟩
    cases heq
    exact (view_of_carries MarketData.codec hm (carries_of_encodes hm') hsize).symm
  · intro hdata
    exact ⟨fd, f.bytes, result, m, rfl, (encodes_iff hm f.bytes).mpr rfl, htype, hdata⟩

/-- The struct that a union object was made from. -/
theorem marketData_marketDataMessage (context : ServerContext config) (data : MarketData)
    (now : Int64) : (marketDataMessage context data now).marketData = data := by
  rw [Message.marketData, marketDataMessage, take_unionOf, MarketData.codec.decode_encode]

-- ── What a handler sends ─────────────────────────────────────────────────────

/-- Some slot that a broadcast visits has a descriptor. -/
def Listened (context : ServerContext config) : Prop :=
  ∃ c ∈ context.clients.cells.take maxClients, 0 < c.socket

/-- What a broadcast sends: frames of its market data, to whoever listens. -/
theorem broadcast_sends {context context' : ServerContext config} {data : MarketData}
    {now : Int64} {send : Nat → List UInt8 → Int} {code : Int} {calls : List Syscall}
    (h : broadcastMarketData context data now send = .ok (code, context', calls)) :
    (∀ call ∈ calls, ∀ d, Published call d ↔ d = data) ∧ (calls ≠ [] ↔ Listened context) := by
  obtain ⟨f, hf⟩ := exists_quote_frame context data now
  rw [broadcastMarketData] at h
  obtain ⟨sent, hloop, h⟩ := bind_eq_ok.mp h
  cases h
  have hfits : 0 + maxClients ≤ config.maxClients.toNat := by
    by_contra hsmall
    rw [broadcastLoop_fault _ _ _ maxClients 0 (Nat.zero_le _) (by omega)] at hloop
    cases hloop
  obtain ⟨calls', hloop', hbytes, htargets⟩ :=
    broadcastLoop_eq hf context.clients send maxClients 0 hfits
  rw [hloop'] at hloop
  cases hloop
  constructor
  · intro call hcall d
    obtain ⟨fd, result, rfl⟩ := hbytes call hcall
    rw [published_iff hf rfl, marketData_marketDataMessage]
    exact eq_comm
  constructor
  · intro hne
    obtain ⟨call, hcall⟩ := List.exists_mem_of_ne_nil _ hne
    obtain ⟨fd, result, rfl⟩ := hbytes call hcall
    have hfd : fd ∈ targets calls := List.mem_filterMap.mpr ⟨_, hcall, rfl⟩
    rw [htargets, List.drop_zero, List.mem_filter, List.mem_map, decide_eq_true_iff] at hfd
    obtain ⟨⟨c, hc, rfl⟩, hpos⟩ := hfd
    exact ⟨c, hc, hpos⟩
  · rintro ⟨c, hc, hpos⟩ rfl
    have hfd : c.socket ∈ targets [] := by
      rw [htargets, List.drop_zero, List.mem_filter, decide_eq_true_iff]
      exact ⟨List.mem_map_of_mem hc, hpos⟩
    exact absurd hfd List.not_mem_nil

/-- A broadcast publishes the market data that it is given, if anybody listens. -/
theorem onlyValid_broadcast {context context' : ServerContext config} {data : MarketData}
    {now : Int64} {send : Nat → List UInt8 → Int} {code : Int} {calls : List Syscall}
    (h : broadcastMarketData context data now send = .ok (code, context', calls)) :
    OnlyValid calls ↔ Valid data ∨ ¬ Listened context := by
  obtain ⟨hpublishes, hlistened⟩ := broadcast_sends h
  constructor
  · intro honly
    by_cases hsome : Listened context
    · obtain ⟨call, hcall⟩ := List.exists_mem_of_ne_nil _ (hlistened.mpr hsome)
      exact Or.inl (honly call hcall data ((hpublishes call hcall data).mpr rfl))
    · exact Or.inr hsome
  · rintro (hvalid | hnone) call hcall d hd
    · rw [(hpublishes call hcall d).mp hd]
      exact hvalid
    · exact absurd (hlistened.mp (List.ne_nil_of_mem hcall)) hnone

/-- A trade execution publishes nothing. -/
theorem onlyValid_trade {context context' : ServerContext config} {trade : TradeExecution}
    {now : Int64} {sendBuyer sendSeller : List UInt8 → Int} {code : Int}
    {calls : List Syscall}
    (h : processTradeExecution context trade now sendBuyer sendSeller =
      .ok (code, context', calls)) : OnlyValid calls := by
  rw [processTradeExecution] at h
  obtain ⟨buyer, -, h⟩ := bind_eq_ok.mp h
  obtain ⟨seller, -, h⟩ := bind_eq_ok.mp h
  obtain ⟨buyerCalls, hbuyer, h⟩ := bind_eq_ok.mp h
  obtain ⟨sellerCalls, hseller, h⟩ := bind_eq_ok.mp h
  cases h
  obtain ⟨f, hf, -⟩ := exists_carries (m := tradeMessage context trade now) rfl
  have htype : f.type ≠ .known .marketData := by
    rw [← hf.1]
    rintro ⟨⟩
  have hquiet : ∀ {fd send calls}, notify fd (tradeMessage context trade now) send = .ok calls →
      OnlyValid calls := by
    intro fd send calls hnotify call hcall data hdata
    obtain ⟨calls', hcalls', hbytes, -⟩ := notify_frame hf fd send
    rw [hnotify] at hcalls'
    cases hcalls'
    obtain ⟨fd', result, rfl⟩ := hbytes call hcall
    exact absurd hdata (not_published htype fd' result data)
  exact onlyValid_append.mpr ⟨hquiet hbuyer, hquiet hseller⟩

/-- Who listens depends on the descriptors alone. -/
theorem listened_congr {context context' : ServerContext config}
    (h : context'.clients.cells.map ClientConnection.socket =
      context.clients.cells.map ClientConnection.socket) :
    Listened context' ↔ Listened context := by
  have hmap : ∀ cells : List ClientConnection, (∃ c ∈ cells.take maxClients, 0 < c.socket) ↔
      ∃ fd ∈ (cells.map ClientConnection.socket).take maxClients, 0 < fd := by
    intro cells
    simp only [← List.map_take, List.mem_map, exists_exists_and_eq_and]
  rw [Listened, Listened, hmap, hmap, h]

/-- Counting a message leaves the descriptors as they are. -/
theorem listened_counted {context : ServerContext config} {j : Nat} {c : ClientConnection}
    {now : Int64} {clients : Block ClientConnection config.maxClients.toNat}
    (hread : context.clients.read j = .ok c)
    (hwrite : context.clients.write j (counted c now) = .ok clients) :
    Listened { context with clients := clients } ↔ Listened context := by
  refine listened_congr ?_
  rw [Block.write] at hwrite
  split at hwrite
  · cases hwrite
    exact map_set_same (Block.read_eq_ok.mp hread) rfl
  · cases hwrite

/-- A message of a handler has only valid quotes published, unless it is an invalid one
    itself and somebody listens. -/
theorem onlyValid_received {context context' : ServerContext config} {j : Nat}
    {msg : Message} {now : Int64} {outside : Outside} {calls : List Syscall}
    (h : handleReceived context j msg now outside = .ok (context', calls)) :
    OnlyValid calls ↔
      (msg.type = .known .marketData → Valid msg.marketData ∨ ¬ Listened context) := by
  rw [handleReceived] at h
  obtain ⟨c, hread, h⟩ := bind_eq_ok.mp h
  obtain ⟨clients, hwrite, h⟩ := bind_eq_ok.mp h
  rw [clientSwitch] at h
  split at h
  case h_4 htype =>
    obtain ⟨⟨code, result⟩, hresult, h⟩ := bind_eq_ok.mp h
    cases h
    rw [onlyValid_broadcast hresult, listened_counted hread hwrite]
    exact ⟨fun hvalid _ => hvalid, fun hvalid => hvalid htype⟩
  case h_5 htype =>
    obtain ⟨⟨code, result⟩, hresult, h⟩ := bind_eq_ok.mp h
    cases h
    exact iff_of_true (onlyValid_trade hresult) (fun hquote => by
      rw [htype] at hquote
      cases hquote)
  case h_6 hother _ =>
    cases h
    exact iff_of_true onlyValid_nil (fun hquote => absurd hquote hother)
  all_goals
    rename_i htype
    obtain ⟨⟨code, result⟩, hresult, h⟩ := bind_eq_ok.mp h
    cases h
    rw [(processOrder_outcome hresult).2]
    exact iff_of_true onlyValid_nil (fun hquote => by
      rw [htype] at hquote
      cases hquote)

-- ── Runs ─────────────────────────────────────────────────────────────────────

/-- The server, the locals of the handler of each slot, and the sends so far. -/
structure Market (config : ServerConfig) where
  context : ServerContext config
  locals  : Nat → RecvState
  sent    : List Syscall

/-- The body of a handler's switch, with the sends that it adds. -/
def dispatch (j : Nat) (now : Int64) (outside : Outside)
    (st : ServerContext config × List Syscall) (msg : Message) :
    Checked (ServerContext config × List Syscall) := do
  let result ← handleReceived st.1 j msg now outside
  pure (result.1, st.2 ++ result.2)

/-- A handler receives some bytes, or the registry changes. -/
inductive Event where
  | receive (j : Nat) (chunk : List UInt8) (now : Int64) (outside : Outside)
  | registry (op : Op)

inductive Step (s : Market config) : Event → Market config → Prop where
  | receive {j : Nat} {chunk : List UInt8} {now : Int64} {outside : Outside} {r : RecvState}
      {st : ServerContext config × List Syscall}
      (hexec : recvDispatch (dispatch j now outside) (s.locals j) (s.context, s.sent) chunk =
        .ok (r, st)) :
      Step s (.receive j chunk now outside) ⟨st.1, Function.update s.locals j r, st.2⟩
  | registry {op : Op} {context' : ServerContext config} {calls : List Syscall}
      (hexec : exec s.context op = .ok (context', calls)) :
      Step s (.registry op) ⟨context', s.locals, s.sent⟩

/-- Market data that comes in is valid, or nobody listens. -/
def Clear (s : Market config) : Event → Prop
  | .receive j chunk _ _ => ∀ r msg, recvStep (s.locals j) chunk = .ok (r, some msg) →
      msg.type = .known .marketData → Valid msg.marketData ∨ ¬ Listened s.context
  | .registry _ => True

/-- What one step adds to the sends is valid exactly when the step is clear. -/
theorem step_spec {s s' : Market config} {e : Event} (h : Step s e s') :
    ∃ calls, s'.sent = s.sent ++ calls ∧ (OnlyValid calls ↔ Clear s e) := by
  cases h with
  | registry hexec => exact ⟨[], (List.append_nil _).symm, iff_of_true onlyValid_nil trivial⟩
  | @receive j chunk now outside r st hexec =>
      rw [recvDispatch] at hexec
      obtain ⟨⟨r', msg?⟩, hrecv, hexec⟩ := bind_eq_ok.mp hexec
      cases msg? with
      | none =>
          cases hexec
          refine ⟨[], (List.append_nil _).symm, iff_of_true onlyValid_nil ?_⟩
          intro r₁ msg hmsg
          rw [hrecv] at hmsg
          cases hmsg
      | some msg =>
          obtain ⟨st', hst', hexec⟩ := bind_eq_ok.mp hexec
          cases hexec
          rw [dispatch] at hst'
          obtain ⟨⟨context', calls⟩, hreceived, hst'⟩ := bind_eq_ok.mp hst'
          cases hst'
          refine ⟨calls, rfl, ?_⟩
          rw [onlyValid_received hreceived]
          constructor
          · intro hvalid r₁ msg₁ hmsg
            rw [hrecv] at hmsg
            cases hmsg
            exact hvalid
          · exact fun hclear => hclear _ msg hrecv

theorem onlyValid_of_clear {start s : Market config} (h : start.sent = [])
    (hrun : Runs Step Clear start s) : OnlyValid s.sent := by
  refine hrun.invariant (I := fun s => OnlyValid s.sent) ?_ (by rw [h]; exact onlyValid_nil)
  intro s e s' honly hclear hstep
  obtain ⟨calls, hsent, hcalls⟩ := step_spec hstep
  rw [hsent]
  exact onlyValid_append.mpr ⟨honly, hcalls.mpr hclear⟩

-- ── Requests ─────────────────────────────────────────────────────────────────

/-- What a client sends to ask for market data is no valid quote: bid and ask are 0. -/
theorem request_not_valid {symbol : List UInt8} {now : Int64} {m : Message} {f : Frame}
    (hrequest : Carries (TradeSenders.quoteMessage symbol now) f) (hm : Carries m f) :
    m.type = .known .marketData ∧ ¬ Valid m.marketData := by
  have htype : f.type = .known .marketData := hrequest.1.symm
  have hview : m.marketData = { dummyData with symbol := TradeSenders.symbolField symbol } := by
    have hwidth := MarketData.codec.length_encode
      { dummyData with symbol := TradeSenders.symbolField symbol }
    have hsame := view_of_carries MarketData.codec hrequest hm (by rw [htype]; rfl)
    rw [Message.marketData, hsame, TradeSenders.quoteMessage]
    dsimp only
    rw [unionOf, ← hwidth, Block.take_splice, MarketData.codec.decode_encode]
  refine ⟨hm.1.trans htype, ?_⟩
  rw [hview, valid_iff]
  rintro ⟨-, -, hspread⟩
  exact absurd hspread (lt_irrefl _)

/-- A request that arrives in one piece is published to whoever listens. -/
theorem request_clear_iff {client client' : TradeSenders.ClientContext} {symbol : List UInt8}
    {now : Int64} {send : List UInt8 → Int} {code fd result : Int} {bytes : List UInt8}
    {calls : List Syscall}
    (h : TradeSenders.requestMarketData client symbol now send = .ok (code, client', calls))
    (hsent : .sent fd bytes result ∈ calls) (s : Market config) (j : Nat) (now' : Int64)
    (outside : Outside) :
    Clear s (.receive j bytes now' outside) ↔ ¬ Listened s.context := by
  have hperform : TradeSenders.perform client send (.quote symbol now) =
      .ok (code, client', calls) := h
  rcases TradeSenders.perform_cases client send (.quote symbol now) with
    ⟨-, f, hf, code', client₁, hresult, -⟩ | ⟨-, code', -, hresult⟩
  swap
  · rw [hperform] at hresult
    cases hresult
    exact absurd hsent List.not_mem_nil
  rw [hperform] at hresult
  cases hresult
  cases List.mem_singleton.mp hsent
  obtain ⟨r, m, hrecv, hm⟩ := recvStep_frame (s.locals j) f
  obtain ⟨htype, hinvalid⟩ := request_not_valid hf hm
  constructor
  · intro hclear
    rcases hclear r m hrecv htype with hvalid | hnone
    · exact absurd hvalid hinvalid
    · exact hnone
  · intro hnone r' m' _ _
    exact Or.inr hnone

/-- **Only valid quotes.** After a run in which market data comes in valid or to a server
    to which nobody listens, only valid quotes have been published, and the next step
    keeps it so exactly when it is such a step too. The bytes of a client's request are
    never such a step while somebody listens. -/
theorem published_valid_iff {start s : Market config} (h : start.sent = [])
    (hrun : Runs Step Clear start s) :
    OnlyValid s.sent ∧
      (∀ e s', Step s e s' → (OnlyValid s'.sent ↔ Clear s e)) ∧
      ∀ client client' symbol now send code calls fd bytes result,
        TradeSenders.requestMarketData client symbol now send = .ok (code, client', calls) →
        .sent fd bytes result ∈ calls → ∀ j now' outside,
        (Clear s (.receive j bytes now' outside) ↔ ¬ Listened s.context) := by
  have honly := onlyValid_of_clear h hrun
  refine ⟨honly, ?_, ?_⟩
  · intro e s' hstep
    obtain ⟨calls, hsent, hcalls⟩ := step_spec hstep
    rw [hsent, onlyValid_append, hcalls]
    exact and_iff_right honly
  · intro client client' symbol now send code calls fd bytes result hrequest hsent j now' outside
    exact request_clear_iff hrequest hsent s j now' outside

/-- Three clients have joined, and nothing has been sent. -/
def threeGuests : Market hundredSlots :=
  ⟨hall [guestA, guestB, guestC] 3,
    fun _ => ⟨Block.fill bufferSize 0, blank (.known .none)⟩, []⟩

/-- In an array of full size a handler gets through with market data. -/
theorem handleReceived_quote {context : ServerContext config} {j : Nat} {msg : Message}
    (hsize : config.maxClients = maxClients) (hj : j < maxClients)
    (htype : msg.type = .known .marketData) (now : Int64) (outside : Outside) :
    ∃ context' calls, handleReceived context j msg now outside = .ok (context', calls) := by
  have hfits : 0 + maxClients ≤ config.maxClients.toNat := by omega
  obtain ⟨c, hread, -, -⟩ := context.clients.read_of_lt (i := j) (by omega)
  obtain ⟨clients, hwrite⟩ : ∃ clients, context.clients.write j (counted c now) = .ok clients := by
    rw [Block.write, if_pos (by omega)]
    exact ⟨_, rfl⟩
  obtain ⟨f, hf⟩ :=
    exists_quote_frame { context with clients := clients } msg.marketData outside.now₁
  obtain ⟨calls, hcalls, -⟩ := broadcastLoop_eq hf clients outside.send maxClients 0 hfits
  rw [handleReceived, hread, ok_bind, hwrite, ok_bind, clientSwitch, htype]
  dsimp only
  rw [broadcastMarketData]
  dsimp only
  rw [hcalls]
  exact ⟨_, _, rfl⟩

/-- Market data that a handler receives goes out when somebody listens, and the same ones
    listen behind it. -/
theorem published_received {context context' : ServerContext config} {j : Nat} {msg : Message}
    {now : Int64} {outside : Outside} {calls : List Syscall}
    (h : handleReceived context j msg now outside = .ok (context', calls))
    (htype : msg.type = .known .marketData) (hlistened : Listened context) :
    (∃ call ∈ calls, Published call msg.marketData) ∧ Listened context' := by
  obtain ⟨c, hc, hcells, -⟩ := handleReceived_slot h
  have hsame : Listened context' ↔ Listened context := by
    refine listened_congr ?_
    rw [hcells]
    exact map_set_same hc rfl
  refine ⟨?_, hsame.mpr hlistened⟩
  rw [handleReceived] at h
  obtain ⟨c, hread, h⟩ := bind_eq_ok.mp h
  obtain ⟨clients, hwrite, h⟩ := bind_eq_ok.mp h
  rw [clientSwitch, htype] at h
  obtain ⟨⟨code, result⟩, hresult, h⟩ := bind_eq_ok.mp h
  cases h
  obtain ⟨hpublishes, hsome⟩ := broadcast_sends hresult
  obtain ⟨call, hcall⟩ := List.exists_mem_of_ne_nil _
    (hsome.mpr ((listened_counted hread hwrite).mpr hlistened))
  exact ⟨call, hcall, (hpublishes call hcall _).mpr rfl⟩

/-- The handler of the first client receives the bytes of market data. -/
theorem exists_received {f : Frame} (htype : f.type = .known .marketData) :
    ∃ r m context' calls, Carries m f ∧
      recvStep (threeGuests.locals 0) f.bytes = .ok (r, some m) ∧
      handleReceived threeGuests.context 0 m 0 still = .ok (context', calls) ∧
      Step threeGuests (.receive 0 f.bytes 0 still)
        ⟨context', Function.update threeGuests.locals 0 r, calls⟩ := by
  obtain ⟨r, m, hrecv, hm⟩ := recvStep_frame (threeGuests.locals 0) f
  obtain ⟨context', calls, hreceived⟩ :
      ∃ context' calls, handleReceived threeGuests.context 0 m 0 still = .ok (context', calls) :=
    handleReceived_quote rfl (by decide) (hm.1.trans htype) 0 still
  have hexec : recvDispatch (dispatch 0 0 still) (threeGuests.locals 0)
      (threeGuests.context, threeGuests.sent) f.bytes = .ok (r, (context', calls)) := by
    rw [recvDispatch, hrecv, ok_bind]
    dsimp only
    rw [dispatch, hreceived]
    rfl
  exact ⟨r, m, context', calls, hm, hrecv, hreceived, .receive hexec⟩

/-- A quote for the symbol `A`, at 0 to 1. -/
def oneQuote : MarketData :=
  { dummyData with
    symbol := TradeSenders.symbolField [65]
    ask := { dummyData.ask with mantissa := 1 } }

theorem valid_oneQuote : Valid oneQuote := by
  have hbid : priceToDouble oneQuote.bid = 0 := by
    rw [priceToDouble, show oneQuote.bid.mantissa.toInt = 0 from rfl, Int.cast_zero, zero_mul]
  have hask : priceToDouble oneQuote.ask = 1 := by
    rw [priceToDouble, show oneQuote.ask.mantissa.toInt = 1 from rfl,
      show oneQuote.ask.exponent.toInt = 0 from rfl, zpow_zero, Int.cast_one, mul_one]
  refine (valid_iff oneQuote).mpr ⟨by decide, by decide, ?_⟩
  rw [hbid, hask]
  exact one_pos

/-- The first client sends a valid quote, and it has gone out to all three. -/
theorem published_valid_iff_quoted :
    ∃ s : Market hundredSlots, (∃ call ∈ s.sent, Published call oneQuote) ∧
      Listened s.context ∧ OnlyValid s.sent ∧
      (∀ e s', Step s e s' → (OnlyValid s'.sent ↔ Clear s e)) ∧
      ∀ client client' symbol now send code calls fd bytes result,
        TradeSenders.requestMarketData client symbol now send = .ok (code, client', calls) →
        .sent fd bytes result ∈ calls → ∀ j now' outside,
        (Clear s (.receive j bytes now' outside) ↔ ¬ Listened s.context) := by
  obtain ⟨f, hf⟩ := exists_quote_frame threeGuests.context oneQuote 0
  have htype : f.type = .known .marketData := hf.1.symm
  obtain ⟨r, m, context', calls, hm, hrecv, hreceived, hstep⟩ := exists_received htype
  have hdata : m.marketData = oneQuote := by
    have hview := view_of_carries MarketData.codec hf hm (by rw [htype]; rfl)
    exact hview.trans (marketData_marketDataMessage threeGuests.context oneQuote 0)
  have hclear : Clear threeGuests (.receive 0 f.bytes 0 still) := by
    intro r₁ m₁ hrecv₁ _
    rw [hrecv] at hrecv₁
    cases hrecv₁
    rw [hdata]
    exact Or.inl valid_oneQuote
  have hlistened : Listened threeGuests.context := ⟨guestA, List.mem_cons_self, by decide⟩
  obtain ⟨⟨call, hcall, hpublished⟩, hlater⟩ :=
    published_received hreceived (hm.1.trans htype) hlistened
  rw [hdata] at hpublished
  exact ⟨_, ⟨call, hcall, hpublished⟩, hlater,
    published_valid_iff rfl (Runs.one hclear hstep)⟩

/-- The first client asks for the symbol `A`, and all three get a quote. -/
theorem request_published :
    ¬ ∀ (config : ServerConfig) (start s : Market config) (owned : Finset Int),
        Reachable joinsOnly ⟨start.context, owned⟩ → start.sent = [] →
        Runs Step anyStep start s → OnlyValid s.sent := by
  intro hevery
  obtain ⟨f, hf, -⟩ := exists_carries (m := TradeSenders.quoteMessage [65] 0) rfl
  obtain ⟨r, m, context', calls, hm, hrecv, -, hstep⟩ := exists_received (f := f) hf.1.symm
  obtain ⟨htype, hinvalid⟩ := request_not_valid hf hm
  have honly := hevery hundredSlots threeGuests _ _ reachable_three rfl
    (Runs.one (a := .receive 0 f.bytes 0 still) trivial hstep)
  obtain ⟨calls', hsent, hcalls⟩ := step_spec hstep
  rw [hsent] at honly
  have hclear := hcalls.mp (onlyValid_append.mp honly).2
  rcases hclear r m hrecv htype with hvalid | hnone
  · exact hinvalid hvalid
  · exact hnone ⟨guestA, List.mem_cons_self, by decide⟩

end TradeQuotes
