import Mathlib.Data.List.Forall2
import TradeSynth.InterleavingProofs
import TradeSynth.TradeOrderingProofs
import TradeSynth.TradeQuotesProofs

/-!
# Delivery — from one client's send to another client's callback

A client sends market data or a trade execution. The server's handler of that client
decodes it, makes a message of its own from it, and sends that to the descriptors of an
audience: every occupied slot for market data, the first slots of buyer and seller for a
trade. The receiver thread behind each descriptor decodes what arrives and calls back.

The handlers run side by side, one send of one of them after one of another. What any
client is called back with is then an interleaving of what the handlers took on: of each
handler, the messages of its client that were for this descriptor, in order, each as
often as the client is addressed, with the data that the sender encoded
(`heard_interleaves`).
-/

namespace TradeDelivery

open CheckedMemory FixedCodec TradeTypes TradeCodec TradeWire TradeReceive TradeRegistry
  TradeRun TradeHandlers TradeBroadcast TradeRouting TradeDispatch TradeBinding TradeQuotes
  Interleaving Transition

variable {config : ServerConfig}

-- ── Audiences ────────────────────────────────────────────────────────────────

/-- The occupied slots that the handlers look at. -/
def occupied (context : ServerContext config) : List Int :=
  ((context.clients.cells.take maxClients).map ClientConnection.socket).filter (0 < ·)

/-- The descriptor of the first slot that answers to an id, if there is one. -/
def seat (context : ServerContext config) (id : List UInt8) : List Int :=
  ((context.clients.cells.take maxClients).find? (answersTo id)).toList.map
    ClientConnection.socket

/-- Who is to hear what of a message that a client sends. -/
def tidings (context : ServerContext config) (m : Message) : List (Int × Callback) :=
  match m.type with
  | .known .marketData => (occupied context).map (·, .marketData m.marketData)
  | .known .tradeExec =>
      (seat context (buyerIdOf m.trade) ++ seat context (sellerIdOf m.trade)).map
        (·, .trade m.trade)
  | _ => []

-- ── Handlers at work ─────────────────────────────────────────────────────────

/-- Where a handler stands. -/
inductive Pc where
  | idle
  /-- in the loop of `broadcast_market_data`, before its visit of slot `i` -/
  | broadcasting (msg : Message) (i : Nat)
  /-- in `process_trade_execution`, before the two lookups -/
  | looking (trade : TradeExecution) (msg : Message)
  /-- the same, with the descriptors that are still to be tried -/
  | sending (msg : Message) (fds : List Int)

/-- The server, the locals and the place of each handler, and the sends so far, each with
    the handler that made it. `due` is read by nothing: it collects, for each handler, who
    is to hear what. -/
structure Floor (config : ServerConfig) where
  context : ServerContext config
  locals  : Nat → RecvState
  pc      : Nat → Pc
  sent    : List (Nat × Syscall)
  due     : Nat → List (Int × Callback)

/-- Count a message in the slot that a handler's pointer designates. -/
def countMessage (context : ServerContext config) (j : Nat) (now : Int64) :
    Checked (ServerContext config) := do
  let client ← context.clients.read j
  let clients ← context.clients.write j (counted client now)
  pure { context with clients := clients }

/-- The beginning of the switch: orders are processed at once, the other messages draw a
    number, and the sends are still to be made. -/
def begins (context : ServerContext config) (msg : Message) (outside : Outside) :
    Checked (ServerContext config × Pc × List Syscall) :=
  match msg.type with
  | .known .marketData =>
      .ok ({ context with sequenceNum := context.sequenceNum + 1 },
        .broadcasting (marketDataMessage context msg.marketData outside.now₁) 0, [])
  | .known .tradeExec =>
      .ok ({ context with sequenceNum := context.sequenceNum + 1 },
        .looking msg.trade (tradeMessage context msg.trade outside.now₁), [])
  | _ => do
      let result ← clientSwitch context msg outside
      pure (result.1, .idle, result.2)

/-- What a handler does next. -/
def work (context : ServerContext config) (send : List UInt8 → Int) :
    Pc → Checked (Pc × List Syscall)
  | .idle => .ok (.idle, [])
  | .broadcasting msg i =>
      if i < maxClients then do
        let calls ← TradeWalk.visit context msg i send
        pure (.broadcasting msg (i + 1), calls)
      else .ok (.idle, [])
  | .looking trade msg => do
      let buyer ← findClientSocket context (buyerIdOf trade)
      let seller ← findClientSocket context (sellerIdOf trade)
      pure (.sending msg [buyer, seller], [])
  | .sending msg (fd :: rest) => do
      let calls ← notify fd msg send
      pure (.sending msg rest, calls)
  | .sending _ [] => .ok (.idle, [])

/-- A handler receives the encoding of a message, or bytes that do not decode; it goes on
    with its work; the registry changes. -/
inductive Event where
  | receive (t j : Nat) (m : Message) (chunk : List UInt8) (now : Int64) (outside : Outside)
  | noise (t : Nat) (chunk : List UInt8)
  | advance (t : Nat) (send : List UInt8 → Int)
  | registry (op : Op)

inductive Step (s : Floor config) : Event → Floor config → Prop where
  | receive {t j : Nat} {m msg : Message} {chunk : List UInt8} {now : Int64}
      {outside : Outside} {r : RecvState} {counted context' : ServerContext config} {pc : Pc}
      {calls : List Syscall} (hidle : s.pc t = .idle)
      (hrecv : recvStep (s.locals t) chunk = .ok (r, some msg))
      (hcount : countMessage s.context j now = .ok counted)
      (hbegin : begins counted msg outside = .ok (context', pc, calls)) :
      Step s (.receive t j m chunk now outside)
        ⟨context', Function.update s.locals t r, Function.update s.pc t pc,
          s.sent ++ calls.map (Prod.mk t),
          Function.update s.due t (s.due t ++ tidings s.context m)⟩
  | noise {t : Nat} {chunk : List UInt8} {r : RecvState} (hidle : s.pc t = .idle)
      (hrecv : recvStep (s.locals t) chunk = .ok (r, none)) :
      Step s (.noise t chunk) { s with locals := Function.update s.locals t r }
  | advance {t : Nat} {send : List UInt8 → Int} {pc : Pc} {calls : List Syscall}
      (hexec : work s.context send (s.pc t) = .ok (pc, calls)) :
      Step s (.advance t send)
        { s with pc := Function.update s.pc t pc, sent := s.sent ++ calls.map (Prod.mk t) }
  | registry {op : Op} {context' : ServerContext config} {calls : List Syscall}
      (hexec : exec s.context op = .ok (context', calls)) :
      Step s (.registry op) { s with context := context' }

/-- What a handler receives is the encoding of a message, every send takes all its bytes,
    and clients come and go while no handler is at work. -/
def Calm (s : Floor config) : Event → Prop
  | .receive _ _ m chunk _ _ => Encodes m chunk
  | .noise _ _ => True
  | .advance _ send => ∀ bytes, send bytes = bytes.length
  | .registry _ => ∀ t, s.pc t = .idle

/-- Nothing has been sent, and nobody is at work. -/
structure Opening (s : Floor config) : Prop where
  idle : ∀ t, s.pc t = .idle
  sent : s.sent = []
  due  : ∀ t, s.due t = []

-- ── The other end ────────────────────────────────────────────────────────────

/-- The bytes that a call brings to the peer of a descriptor. -/
def arriving (fd : Int) : Syscall → Option (List UInt8)
  | .sent fd' bytes result =>
      if fd' = fd ∧ 0 < result then some (bytes.take result.toNat) else none
  | _ => none

/-- What comes in at the peer of a descriptor, call by call. -/
def chunksOn (fd : Int) (sent : List (Nat × Syscall)) : List (List UInt8) :=
  sent.filterMap (fun entry => arriving fd entry.2)

/-- The switch of the receiver thread, with the calls of callbacks that it adds. -/
def listen (callbacks : ClientCallbacks) (st : ReceivedStats × List Callback)
    (msg : Message) : Checked (ReceivedStats × List Callback) :=
  .ok ((receiveMessage callbacks st.1 msg).1, st.2 ++ (receiveMessage callbacks st.1 msg).2)

/-- The callback is set. -/
def wants (callbacks : ClientCallbacks) : Callback → Bool
  | .orderStatus _ => callbacks.onOrderStatus
  | .marketData _ => callbacks.onMarketData
  | .trade _ => callbacks.onTrade

def isTrade : Callback → Bool
  | .trade _ => true
  | _ => false

/-- The counters after so much has been heard. -/
def tally (stats : ReceivedStats) (heard : List Callback) : ReceivedStats where
  messagesReceived := stats.messagesReceived + UInt64.ofNat heard.length
  tradesReceived := stats.tradesReceived + UInt64.ofNat (heard.countP isTrade)

/-- What is said to one descriptor. -/
def heardOn (fd : Int) (trail : List (Nat × Int × Callback)) : List Callback :=
  (trail.filter (fun entry => entry.2.1 = fd)).map (fun entry => entry.2.2)

/-- The same, among what one handler has said. -/
def saidTo (fd : Int) (said : List (Int × Callback)) : List Callback :=
  (said.filter (fun entry => entry.1 = fd)).map Prod.snd

theorem saidTo_doneBy_cons (fd : Int) (u t : Nat) (fd' : Int) (news : Callback)
    (rest : List (Nat × Int × Callback)) :
    saidTo fd (doneBy u ((t, fd', news) :: rest)) =
      if t = u ∧ fd' = fd then news :: saidTo fd (doneBy u rest)
      else saidTo fd (doneBy u rest) := by
  by_cases ht : t = u
  · by_cases hfd : fd' = fd
    · simp [saidTo, doneBy, ht, hfd]
    · simp [saidTo, doneBy, ht, hfd]
  · simp [saidTo, doneBy, ht]

/-- What is said to a descriptor, when only one handler says something to it. -/
theorem heardOn_alone {fd : Int} {t : Nat} {trail : List (Nat × Int × Callback)}
    (h : ∀ u, u ≠ t → saidTo fd (doneBy u trail) = []) :
    heardOn fd trail = saidTo fd (doneBy t trail) := by
  induction trail with
  | nil => rfl
  | cons entry rest ih =>
      obtain ⟨u, fd', news⟩ := entry
      have hrest : ∀ v, v ≠ t → saidTo fd (doneBy v rest) = [] := by
        intro v hv
        have hnone := h v hv
        rw [saidTo_doneBy_cons] at hnone
        split at hnone
        · exact absurd hnone (List.cons_ne_nil _ _)
        · exact hnone
      have hheard : heardOn fd ((u, fd', news) :: rest) =
          if fd' = fd then news :: heardOn fd rest else heardOn fd rest := by
        by_cases hfd : fd' = fd <;> simp [heardOn, hfd]
      rw [hheard, saidTo_doneBy_cons, ih hrest]
      by_cases hfd : fd' = fd
      · by_cases hu : u = t
        · rw [if_pos hfd, if_pos ⟨hu, hfd⟩]
        · have hnone := h u hu
          rw [saidTo_doneBy_cons, if_pos ⟨rfl, hfd⟩] at hnone
          exact absurd hnone (List.cons_ne_nil _ _)
      · rw [if_neg hfd, if_neg (fun hboth => hfd hboth.2)]

/-- The bytes are an encoding of a message that tells the news. -/
def Tells (bytes : List UInt8) (news : Callback) : Prop :=
  ∃ m f, Carries m f ∧ f.bytes = bytes ∧
    ((m.type = .known .marketData ∧ news = .marketData m.marketData) ∨
      (m.type = .known .tradeExec ∧ news = .trade m.trade))

/-- A message that tells news makes the client count it, and call back. -/
theorem receiveMessage_tells {m m' : Message} {f : Frame} {news : Callback}
    (hm : Carries m f) (hm' : Carries m' f)
    (hnews : (m.type = .known .marketData ∧ news = .marketData m.marketData) ∨
      (m.type = .known .tradeExec ∧ news = .trade m.trade))
    (callbacks : ClientCallbacks) (stats : ReceivedStats) :
    receiveMessage callbacks stats m' =
      (tally stats [news], [news].filter (wants callbacks)) := by
  rw [receiveMessage_of_carries hm hm', receiveMessage]
  rcases hnews with ⟨htype, rfl⟩ | ⟨htype, rfl⟩
  · have hcount : List.countP isTrade [Callback.marketData m.marketData] = 0 := rfl
    rw [htype, tally, hcount]
    cases hwant : callbacks.onMarketData with
    | true => simp [clientCase, wants, hwant]
    | false => simp [clientCase, wants, hwant]
  · have hcount : List.countP isTrade [Callback.trade m.trade] = 1 := rfl
    rw [htype, tally, hcount]
    cases hwant : callbacks.onTrade with
    | true => simp [clientCase, wants, hwant]
    | false => simp [clientCase, wants, hwant]

theorem tally_append (stats : ReceivedStats) (heard more : List Callback) :
    tally (tally stats heard) more = tally stats (heard ++ more) := by
  simp only [tally, List.length_append, List.countP_append, UInt64.ofNat_add, UInt64.add_assoc]

/-- The receiver thread calls back with what its chunks tell, in order, and counts it. -/
theorem listens {events : List RecvEvent} {chunks : List (List UInt8)}
    (hpolls : Polls events chunks) (callbacks : ClientCallbacks) :
    ∀ (heard : List Callback) (r : RecvState) (stats : ReceivedStats) (calls : List Callback),
      List.Forall₂ Tells chunks heard →
      messageReceiverLoop (listen callbacks) r (stats, calls) events =
        .ok (tally stats heard, calls ++ heard.filter (wants callbacks)) := by
  induction hpolls with
  | nil =>
      intro heard r stats calls htells
      cases htells
      rw [messageReceiverLoop, List.filter_nil, List.append_nil]
      simp [tally]
  | again _ ih =>
      intro heard r stats calls htells
      rw [messageReceiverLoop]
      exact ih heard r stats calls htells
  | data chunk _ ih =>
      intro heard r stats calls htells
      cases htells with
      | @cons _ news _ later hfirst hrest =>
          obtain ⟨m, f, hm, rfl, hnews⟩ := hfirst
          obtain ⟨r', m', hrecv, hm'⟩ := recvStep_frame r f
          have hreceive := receiveMessage_tells hm hm' hnews callbacks stats
          rw [messageReceiverLoop, recvDispatch, hrecv, ok_bind]
          dsimp only
          rw [listen, hreceive, ok_bind, pure_eq_ok, ok_bind]
          dsimp only
          rw [ih later r' _ _ hrest, tally_append, List.append_assoc, ← List.filter_append]
          rfl

-- ── One handler alone ────────────────────────────────────────────────────────

theorem handleReceived_eq (context : ServerContext config) (j : Nat) (msg : Message)
    (now : Int64) (outside : Outside) :
    handleReceived context j msg now outside =
      (countMessage context j now >>= fun counted => clientSwitch counted msg outside) := by
  rw [handleReceived, countMessage]
  cases context.clients.read j with
  | error e => rfl
  | ok c =>
      simp only [ok_bind]
      cases context.clients.write j (counted c now) with
      | error e => rfl
      | ok clients => rfl

/-- A step of a handler, written out. -/
theorem runs_work {P : Floor config → Event → Prop} {context : ServerContext config}
    {send : List UInt8 → Int} {pc pc' : Pc} {calls : List Syscall} {t : Nat}
    (hP : ∀ s, P s (.advance t send)) (h : work context send pc = .ok (pc', calls))
    (locals : Nat → RecvState) (pcs : Nat → Pc) (sent : List (Nat × Syscall))
    (due : Nat → List (Int × Callback)) :
    Runs Step P ⟨context, locals, Function.update pcs t pc, sent, due⟩
      ⟨context, locals, Function.update pcs t pc', sent ++ calls.map (Prod.mk t), due⟩ := by
  have hself : work context send (Function.update pcs t pc t) = .ok (pc', calls) := by
    rw [Function.update_self, h]
  have hstep : Step ⟨context, locals, Function.update pcs t pc, sent, due⟩
      (.advance t send) _ := .advance hself
  dsimp only at hstep
  rw [Function.update_idem] at hstep
  exact Runs.one (hP _) hstep

/-- The visits of a handler that nobody disturbs make the calls of the loop. -/
theorem runs_visits {P : Floor config → Event → Prop} {context : ServerContext config}
    {msg : Message} {send : Nat → List UInt8 → Int} {t : Nat}
    (hP : ∀ s i, P s (.advance t (send i))) (locals : Nat → RecvState) (pcs : Nat → Pc)
    (due : Nat → List (Int × Callback)) (len : Nat) :
    ∀ i sent calls, i + len ≤ maxClients →
      broadcastLoop context.clients msg send i len = .ok calls →
      Runs Step P
        ⟨context, locals, Function.update pcs t (.broadcasting msg i), sent, due⟩
        ⟨context, locals, Function.update pcs t (.broadcasting msg (i + len)),
          sent ++ calls.map (Prod.mk t), due⟩ := by
  induction len with
  | zero =>
      intro i sent calls _ h
      cases h
      rw [List.map_nil, List.append_nil]
      exact Runs.refl _
  | succ len ih =>
      intro i sent calls hlen h
      obtain ⟨first, rest, hvisit, hrest, rfl⟩ := TradeWalk.broadcastLoop_visit h
      have hwork : work context (send i) (.broadcasting msg i) =
          .ok (.broadcasting msg (i + 1), first) := by
        rw [work, if_pos (by omega), hvisit]
        rfl
      have hlater := ih (i + 1) (sent ++ first.map (Prod.mk t)) rest (by omega) hrest
      rw [show i + 1 + len = i + (len + 1) by omega, List.append_assoc, ← List.map_append]
        at hlater
      exact (runs_work (fun s => hP s i) hwork locals pcs sent due).trans hlater

/-- A handler whose message has been dispatched gets through with it when nobody disturbs
    it, and has then made the calls of the whole switch. -/
theorem runs_switch {P : Floor config → Event → Prop} {t : Nat}
    {counted context' : ServerContext config} {msg : Message} {outside : Outside}
    {calls : List Syscall} (hP : ∀ s i, P s (.advance t (outside.send i)))
    (h : clientSwitch counted msg outside = .ok (context', calls)) :
    ∃ begun pc made rest, begins counted msg outside = .ok (begun, pc, made) ∧
      calls = made ++ rest ∧ ∀ locals pcs sent due, Runs Step P
        ⟨begun, locals, Function.update pcs t pc, sent, due⟩
        ⟨context', locals, Function.update pcs t .idle, sent ++ rest.map (Prod.mk t), due⟩ := by
  by_cases hquote : msg.type = .known .marketData
  · rw [clientSwitch, hquote] at h
    obtain ⟨⟨code, result⟩, hresult, h⟩ := bind_eq_ok.mp h
    cases h
    rw [broadcastMarketData] at hresult
    obtain ⟨made, hloop, hresult⟩ := bind_eq_ok.mp hresult
    cases hresult
    refine ⟨_, _, [], _, by rw [begins, hquote], rfl, ?_⟩
    intro locals pcs sent due
    have hvisits := runs_visits hP locals pcs due maxClients 0 sent _ (by omega) hloop
    have hlast : work { counted with sequenceNum := counted.sequenceNum + 1 } (outside.send 0)
        (.broadcasting (marketDataMessage counted msg.marketData outside.now₁)
          (0 + maxClients)) = .ok (.idle, []) := by
      rw [work, if_neg (by omega)]
    have hdone := hvisits.trans (runs_work (fun s => hP s 0) hlast locals pcs _ due)
    rw [List.map_nil, List.append_nil] at hdone
    exact hdone
  by_cases htrade : msg.type = .known .tradeExec
  · rw [clientSwitch, htrade] at h
    obtain ⟨⟨code, result⟩, hresult, h⟩ := bind_eq_ok.mp h
    cases h
    rw [processTradeExecution] at hresult
    obtain ⟨buyer, hbuyer, hresult⟩ := bind_eq_ok.mp hresult
    obtain ⟨seller, hseller, hresult⟩ := bind_eq_ok.mp hresult
    obtain ⟨buyerCalls, hbuyerCalls, hresult⟩ := bind_eq_ok.mp hresult
    obtain ⟨sellerCalls, hsellerCalls, hresult⟩ := bind_eq_ok.mp hresult
    cases hresult
    have hbuyerCalls : notify buyer (tradeMessage counted msg.trade outside.now₁)
        (outside.send 0) = .ok buyerCalls := hbuyerCalls
    have hsellerCalls : notify seller (tradeMessage counted msg.trade outside.now₁)
        (outside.send 1) = .ok sellerCalls := hsellerCalls
    refine ⟨_, _, [], buyerCalls ++ sellerCalls, by rw [begins, htrade], rfl, ?_⟩
    intro locals pcs sent due
    have hlooked : work { counted with sequenceNum := counted.sequenceNum + 1 }
        (outside.send 0) (.looking msg.trade (tradeMessage counted msg.trade outside.now₁)) =
          .ok (.sending (tradeMessage counted msg.trade outside.now₁) [buyer, seller], []) := by
      rw [work, hbuyer, ok_bind, hseller]
      rfl
    have hfirst : work { counted with sequenceNum := counted.sequenceNum + 1 }
        (outside.send 0) (.sending (tradeMessage counted msg.trade outside.now₁)
          [buyer, seller]) =
          .ok (.sending (tradeMessage counted msg.trade outside.now₁) [seller], buyerCalls) := by
      rw [work, hbuyerCalls]
      rfl
    have hsecond : work { counted with sequenceNum := counted.sequenceNum + 1 }
        (outside.send 1) (.sending (tradeMessage counted msg.trade outside.now₁) [seller]) =
          .ok (.sending (tradeMessage counted msg.trade outside.now₁) [], sellerCalls) := by
      rw [work, hsellerCalls]
      rfl
    have hfinished : work { counted with sequenceNum := counted.sequenceNum + 1 }
        (outside.send 0) (.sending (tradeMessage counted msg.trade outside.now₁) []) =
          .ok (.idle, []) := rfl
    have hfront := fun s => hP s 0
    have hsold := (((runs_work hfront hlooked locals pcs sent due).trans
      (runs_work hfront hfirst locals pcs _ due)).trans
      (runs_work (fun s => hP s 1) hsecond locals pcs _ due)).trans
      (runs_work hfront hfinished locals pcs _ due)
    rw [List.map_nil, List.append_nil, List.append_nil, List.append_assoc,
      ← List.map_append] at hsold
    exact hsold
  · have hbegin : begins counted msg outside = .ok (context', .idle, calls) := by
      rw [begins]
      split
      · exact absurd ‹_› hquote
      · exact absurd ‹_› htrade
      · rw [h]
        rfl
    refine ⟨_, _, _, [], hbegin, (List.append_nil _).symm, ?_⟩
    intro locals pcs sent due
    rw [List.map_nil, List.append_nil]
    exact Runs.refl _

/-- **The steps of a handler** that nobody disturbs make up what it does with a chunk. -/
theorem runs_received {s : Floor config} {t j : Nat} (hidle : s.pc t = .idle)
    {chunk : List UInt8} {now : Int64} {outside : Outside} {r : RecvState}
    {context' : ServerContext config} {calls : List Syscall}
    (h : recvDispatch (TradeQuotes.dispatch j now outside) (s.locals t) (s.context, []) chunk =
      .ok (r, context', calls)) :
    ∃ due, Runs Step anyStep s
      ⟨context', Function.update s.locals t r, s.pc, s.sent ++ calls.map (Prod.mk t), due⟩ := by
  have hback : Function.update s.pc t .idle = s.pc := by
    rw [← hidle, Function.update_eq_self]
  rw [recvDispatch] at h
  obtain ⟨⟨r', msg?⟩, hrecv, h⟩ := bind_eq_ok.mp h
  cases msg? with
  | none =>
      cases h
      rw [List.map_nil, List.append_nil]
      have hstep : Step s (.noise t chunk) _ := .noise hidle hrecv
      exact ⟨s.due, Runs.one trivial hstep⟩
  | some msg =>
      obtain ⟨st, hdispatch, h⟩ := bind_eq_ok.mp h
      cases h
      rw [TradeQuotes.dispatch, handleReceived_eq] at hdispatch
      obtain ⟨⟨context₁, calls₁⟩, hreceived, hst⟩ := bind_eq_ok.mp hdispatch
      cases hst
      obtain ⟨counted, hcount, hswitch⟩ := bind_eq_ok.mp hreceived
      obtain ⟨begun, pc, made, rest, hbegin, rfl, hruns⟩ :=
        runs_switch (P := anyStep) (t := t) (fun _ _ => trivial) hswitch
      have hstep : Step s (.receive t j msg chunk now outside) _ :=
        .receive hidle hrecv hcount hbegin
      refine ⟨Function.update s.due t (s.due t ++ tidings s.context msg), ?_⟩
      have hall := (Runs.one (P := anyStep) trivial hstep).trans
        (hruns (Function.update s.locals t r') s.pc _ _)
      rw [hback, List.append_assoc, ← List.map_append] at hall
      rw [List.nil_append]
      exact hall

-- ── What is still to be sent ─────────────────────────────────────────────────

/-- What a handler still has to say, and to whom. -/
def owed (context : ServerContext config) : Pc → List (Int × Callback)
  | .idle => []
  | .broadcasting msg i =>
      ((((context.clients.cells.take maxClients).drop i).map ClientConnection.socket).filter
        (0 < ·)).map (·, .marketData msg.marketData)
  | .looking trade msg =>
      (seat context (buyerIdOf trade) ++ seat context (sellerIdOf trade)).map
        (·, .trade msg.trade)
  | .sending msg fds => (fds.filter (0 < ·)).map (·, .trade msg.trade)

/-- The message of a handler at work is of its kind, and the encoder takes it. -/
def Carried : Pc → Prop
  | .idle => True
  | .broadcasting msg _ => (∃ f, Carries msg f) ∧ msg.type = .known .marketData
  | .looking _ msg => (∃ f, Carries msg f) ∧ msg.type = .known .tradeExec
  | .sending msg _ => (∃ f, Carries msg f) ∧ msg.type = .known .tradeExec

/-- What the traversals read of the slots. -/
def faces (context : ServerContext config) : List (Int × List UInt8) :=
  context.clients.cells.map (fun c => (c.socket, c.idString))

theorem occupied_faces (context : ServerContext config) :
    occupied context = (((faces context).take maxClients).map Prod.fst).filter (0 < ·) := by
  rw [occupied, faces, ← List.map_take, List.map_map]
  rfl

theorem seat_faces (context : ServerContext config) (id : List UInt8) :
    seat context id = (((faces context).take maxClients).find?
      (fun face => decide (0 < face.1) && face.2 == cString id)).toList.map Prod.fst := by
  have hfind : ((faces context).take maxClients).find?
      (fun face => decide (0 < face.1) && face.2 == cString id) =
      ((context.clients.cells.take maxClients).find? (answersTo id)).map
        (fun c => (c.socket, c.idString)) := by
    rw [faces, ← List.map_take, List.find?_map]
    rfl
  rw [seat, hfind]
  cases (context.clients.cells.take maxClients).find? (answersTo id) with
  | none => rfl
  | some c => rfl

/-- What is owed depends on nothing else of the context. -/
theorem owed_congr {context context' : ServerContext config}
    (h : faces context' = faces context) (pc : Pc) : owed context' pc = owed context pc := by
  cases pc with
  | idle => rfl
  | sending msg fds => rfl
  | looking trade msg => rw [owed, owed, seat_faces, seat_faces, seat_faces, seat_faces, h]
  | broadcasting msg i =>
      have hmap : ∀ c : ServerContext config,
          ((c.clients.cells.take maxClients).drop i).map ClientConnection.socket =
            (((faces c).take maxClients).drop i).map Prod.fst := by
        intro c
        rw [faces, ← List.map_take, ← List.map_drop, List.map_map]
        rfl
      rw [owed, owed, hmap, hmap, h]

theorem tidings_congr {context context' : ServerContext config}
    (h : faces context' = faces context) (m : Message) :
    tidings context' m = tidings context m := by
  rw [tidings, tidings]
  simp only [occupied_faces, seat_faces, h]

/-- Counting a message changes no face. -/
theorem faces_counted {context counted : ServerContext config} {j : Nat} {now : Int64}
    (h : countMessage context j now = .ok counted) : faces counted = faces context := by
  rw [countMessage] at h
  obtain ⟨c, hread, h⟩ := bind_eq_ok.mp h
  obtain ⟨clients, hwrite, h⟩ := bind_eq_ok.mp h
  cases h
  rw [Block.write] at hwrite
  split at hwrite
  · cases hwrite
    exact map_set_same (Block.read_eq_ok.mp hread) rfl
  · cases hwrite

/-- The first slot that answers is where the lookup leads. -/
theorem notified_found {context : ServerContext config} {id : List UInt8} {fd : Int}
    (h : findClientSocket context id = .ok fd) : notified fd = seat context id := by
  rcases findClientSocket_cases context id with
    ⟨i, c, hi, hc, hanswers, hfirst, hfound⟩ | ⟨hnone, hmiss⟩
  · rw [hfound] at h
    cases h
    have hcell : (context.clients.cells.take maxClients)[i]? = some c := by
      rw [List.getElem?_take_of_lt hi, hc]
    obtain ⟨hlt, hget⟩ := List.getElem?_eq_some_iff.mp hcell
    have hfind : (context.clients.cells.take maxClients).find? (answersTo id) = some c := by
      refine List.find?_eq_some_iff_getElem.mpr ⟨hanswers, i, hlt, hget, ?_⟩
      intro k hk
      have hbefore := hfirst k (context.clients.cells.take maxClients)[k] hk (by
        rw [← List.getElem?_take_of_lt (Nat.lt_trans hk hi)]
        exact List.getElem?_eq_getElem (Nat.lt_trans hk hlt))
      rw [hbefore]
      rfl
    rw [seat, hfind, notified, if_pos (answersTo_iff.mp hanswers).1]
    rfl
  · obtain ⟨rfl, -⟩ := hmiss fd h
    have hfind : (context.clients.cells.take maxClients).find? (answersTo id) = none := by
      refine List.find?_eq_none.mpr (fun c hc => ?_)
      obtain ⟨i, hi⟩ := List.getElem?_of_mem hc
      obtain ⟨hlt, -⟩ := List.getElem?_eq_some_iff.mp hi
      have hshort : i < maxClients := by
        rw [List.length_take] at hlt
        omega
      rw [List.getElem?_take_of_lt hshort] at hi
      rw [hnone i c hshort hi]
      exact Bool.false_ne_true
    rw [seat, hfind]
    rfl

/-- The struct that an execution travels as. -/
theorem trade_tradeMessage (context : ServerContext config) (trade : TradeExecution)
    (now : Int64) : (tradeMessage context trade now).trade = trade := by
  rw [Message.trade, tradeMessage, take_unionOf, TradeExecution.codec.decode_encode]

/-- A message of another type is dealt with at once, and nothing is sent. -/
theorem clientSwitch_silent {context context' : ServerContext config} {msg : Message}
    {outside : Outside} {calls : List Syscall} (hquote : msg.type ≠ .known .marketData)
    (htrade : msg.type ≠ .known .tradeExec)
    (h : clientSwitch context msg outside = .ok (context', calls)) : calls = [] := by
  rw [clientSwitch] at h
  split at h
  case h_4 htype => exact absurd htype hquote
  case h_5 htype => exact absurd htype htrade
  case h_6 =>
    cases h
    rfl
  all_goals
    obtain ⟨⟨code, result⟩, hresult, h⟩ := bind_eq_ok.mp h
    cases h
    exact (processOrder_outcome hresult).2

theorem tidings_silent (context : ServerContext config) {m : Message}
    (hquote : m.type ≠ .known .marketData) (htrade : m.type ≠ .known .tradeExec) :
    tidings context m = [] := by
  rw [tidings]
  split
  · exact absurd ‹_› hquote
  · exact absurd ‹_› htrade
  · rfl

/-- Messages that carry the same frame have the same tidings. -/
theorem tidings_of_carries {m m' : Message} {f : Frame} (hm : Carries m f)
    (hm' : Carries m' f) (context : ServerContext config) :
    tidings context m' = tidings context m := by
  rcases views_of_carries hm hm' with ⟨htype, -⟩ | ⟨htype, hview⟩ | ⟨htype, hview⟩
  · have hquote : f.type ≠ .known .marketData := by
      rcases htype with htype | htype | htype
      all_goals simp [htype]
    have htrade : f.type ≠ .known .tradeExec := by
      rcases htype with htype | htype | htype
      all_goals simp [htype]
    rw [← hm'.1] at hquote htrade
    rw [tidings_silent context hquote htrade]
    rw [hm'.1, ← hm.1] at hquote htrade
    rw [tidings_silent context hquote htrade]
  · rw [tidings, tidings, hm.1, hm'.1, htype, hview]
  · rw [tidings, tidings, hm.1, hm'.1, htype, hview]

/-- A handler that begins owes the tidings of its message, and has sent nothing. -/
theorem begins_spec {context context' : ServerContext config} {msg : Message}
    {outside : Outside} {pc : Pc} {calls : List Syscall}
    (h : begins context msg outside = .ok (context', pc, calls)) :
    faces context' = faces context ∧ calls = [] ∧ Carried pc ∧
      owed context pc = tidings context msg := by
  rw [begins] at h
  split at h
  case h_1 htype =>
    cases h
    refine ⟨rfl, rfl, ⟨exists_quote_frame context msg.marketData _, rfl⟩, ?_⟩
    rw [tidings, htype, owed, List.drop_zero, marketData_marketDataMessage]
    rfl
  case h_2 htype =>
    cases h
    refine ⟨rfl, rfl, ⟨TradeOrdering.exists_trade_frame context msg.trade _, rfl⟩, ?_⟩
    rw [tidings, htype, owed, trade_tradeMessage]
  case h_3 hquote htrade =>
    obtain ⟨⟨context₁, calls₁⟩, hswitch, h⟩ := bind_eq_ok.mp h
    cases h
    obtain ⟨hclients, -⟩ := clientSwitch_registry hswitch
    refine ⟨?_, clientSwitch_silent hquote htrade hswitch, trivial, ?_⟩
    · rw [faces, faces, hclients]
    · rw [tidings_silent context hquote htrade]
      rfl

-- ── What a step says ─────────────────────────────────────────────────────────

/-- The call brings the news to the descriptor, all bytes of it. -/
def Says (call : Syscall) (entry : Int × Callback) : Prop :=
  ∃ bytes : List UInt8, call = .sent entry.1 bytes bytes.length ∧ Tells bytes entry.2

theorem notify_says {m : Message} {fd : Int} {send : List UInt8 → Int} {calls : List Syscall}
    {news : Callback} (hm : ∃ f, Carries m f)
    (hnews : (m.type = .known .marketData ∧ news = .marketData m.marketData) ∨
      (m.type = .known .tradeExec ∧ news = .trade m.trade))
    (hwhole : ∀ bytes, send bytes = bytes.length) (h : notify fd m send = .ok calls) :
    List.Forall₂ Says calls ((notified fd).map (·, news)) := by
  obtain ⟨f, hf⟩ := hm
  rw [notify] at h
  rw [notified]
  by_cases hpos : 0 < fd
  · rw [if_pos hpos, sendResponseMessage_frame hf, ok_bind] at h
    cases h
    rw [if_pos hpos, hwhole]
    exact .cons ⟨f.bytes, rfl, m, f, hf, rfl, hnews⟩ .nil
  · rw [if_neg hpos] at h
    cases h
    rw [if_neg hpos]
    exact .nil

/-- A step of a handler says the first of what the handler owes. -/
theorem work_spec {context : ServerContext config} {send : List UInt8 → Int} {pc pc' : Pc}
    {calls : List Syscall} (hcarried : Carried pc) (hwhole : ∀ bytes, send bytes = bytes.length)
    (h : work context send pc = .ok (pc', calls)) :
    Carried pc' ∧ ∃ said, owed context pc = said ++ owed context pc' ∧
      List.Forall₂ Says calls said := by
  cases pc with
  | idle =>
      cases h
      exact ⟨trivial, [], rfl, .nil⟩
  | looking trade msg =>
      obtain ⟨buyer, hbuyer, h⟩ := bind_eq_ok.mp h
      obtain ⟨seller, hseller, h⟩ := bind_eq_ok.mp h
      cases h
      refine ⟨hcarried, [], ?_, .nil⟩
      have htargets : [buyer, seller].filter (0 < ·) = notified buyer ++ notified seller := by
        simp only [notified, List.filter_cons, List.filter_nil]
        split <;> split <;> simp_all
      rw [List.nil_append, owed, owed, htargets, notified_found hbuyer, notified_found hseller]
  | sending msg fds =>
      cases fds with
      | nil =>
          cases h
          exact ⟨trivial, [], rfl, .nil⟩
      | cons fd rest =>
          obtain ⟨made, hmade, h⟩ := bind_eq_ok.mp h
          cases h
          refine ⟨hcarried, _, ?_, notify_says hcarried.1 (Or.inr ⟨hcarried.2, rfl⟩) hwhole
            hmade⟩
          have hfirst : (fd :: rest).filter (0 < ·) = notified fd ++ rest.filter (0 < ·) := by
            simp only [notified, List.filter_cons]
            split <;> simp_all
          rw [owed, owed, hfirst, List.map_append]
  | broadcasting msg i =>
      rw [work] at h
      split at h
      · obtain ⟨made, hvisit, h⟩ := bind_eq_ok.mp h
        cases h
        rw [TradeWalk.visit] at hvisit
        obtain ⟨client, hread, hmade⟩ := bind_eq_ok.mp hvisit
        refine ⟨hcarried, _, ?_, notify_says hcarried.1 (Or.inl ⟨hcarried.2, rfl⟩) hwhole
          hmade⟩
        have hcell : (context.clients.cells.take maxClients)[i]? = some client := by
          rw [List.getElem?_take_of_lt ‹_›, Block.read_eq_ok.mp hread]
        obtain ⟨hlt, hget⟩ := List.getElem?_eq_some_iff.mp hcell
        have hfirst : (((context.clients.cells.take maxClients).drop i).map
            ClientConnection.socket).filter (0 < ·) = notified client.socket ++
            (((context.clients.cells.take maxClients).drop (i + 1)).map
              ClientConnection.socket).filter (0 < ·) := by
          rw [List.drop_eq_getElem_cons hlt, hget, List.map_cons, List.filter_cons, notified]
          split <;> simp_all
        rw [owed, owed, hfirst, List.map_append]
      · cases h
        refine ⟨trivial, [], ?_, .nil⟩
        have hend : (context.clients.cells.take maxClients).drop i = [] := by
          rw [List.drop_eq_nil_iff, List.length_take]
          omega
        simp only [owed, hend, List.map_nil, List.filter_nil, List.append_nil]

-- ── Runs ─────────────────────────────────────────────────────────────────────

/-- The trail of what was said, call by call, with the handler beside it. -/
def Said (call : Nat × Syscall) (entry : Nat × Int × Callback) : Prop :=
  call.1 = entry.1 ∧ Says call.2 entry.2

theorem said_tagged (t : Nat) {calls : List Syscall} {said : List (Int × Callback)}
    (h : List.Forall₂ Says calls said) :
    List.Forall₂ Said (calls.map (Prod.mk t)) (said.map (Prod.mk t)) := by
  rw [List.forall₂_map_left_iff, List.forall₂_map_right_iff]
  exact h.imp (fun _ _ hsays => ⟨rfl, hsays⟩)

/-- The books of the handlers are kept. -/
structure Booked (s : Floor config) : Prop where
  carried : ∀ t, Carried (s.pc t)
  trail   : ∃ trail, List.Forall₂ Said s.sent trail ∧
    Kept s.due (fun t => owed s.context (s.pc t)) trail

theorem Opening.booked {s : Floor config} (h : Opening s) : Booked s where
  carried t := by
    rw [h.idle t]
    trivial
  trail := by
    refine ⟨[], by rw [h.sent]; exact .nil, fun t => ?_⟩
    dsimp only
    rw [h.idle t, h.due t]
    rfl

/-- What all handlers owe after one of them has moved. -/
theorem owed_update {context context' : ServerContext config}
    (h : faces context' = faces context) (pc : Nat → Pc) (t : Nat) (pc' : Pc) :
    (fun u => owed context' (Function.update pc t pc' u)) =
      Function.update (fun u => owed context (pc u)) t (owed context pc') := by
  funext u
  by_cases hu : u = t
  · subst hu
    rw [Function.update_self, Function.update_self, owed_congr h]
  · rw [Function.update_of_ne hu, Function.update_of_ne hu, owed_congr h]

theorem carried_update {pc : Nat → Pc} (h : ∀ t, Carried (pc t)) (t : Nat) {pc' : Pc}
    (hpc : Carried pc') : ∀ u, Carried (Function.update pc t pc' u) := by
  intro u
  by_cases hu : u = t
  · rw [hu, Function.update_self]
    exact hpc
  · rw [Function.update_of_ne hu]
    exact h u

/-- Every step keeps the books. -/
theorem Booked.step {s s' : Floor config} {e : Event} (h : Booked s) (hcalm : Calm s e)
    (hstep : Step s e s') : Booked s' := by
  obtain ⟨trail, hsaid, hkept⟩ := h.trail
  cases hstep with
  | noise hidle hrecv => exact ⟨h.carried, trail, hsaid, hkept⟩
  | registry hexec =>
      refine ⟨h.carried, trail, hsaid, fun t => ?_⟩
      -- nobody is at work, and who is idle owes nothing
      have hdue := hkept t
      dsimp only at hdue ⊢
      rw [hcalm t] at hdue ⊢
      exact hdue
  | @advance t send pc calls hexec =>
      obtain ⟨hcarried, said, howed, hsays⟩ := work_spec (h.carried t) hcalm hexec
      refine ⟨carried_update h.carried t hcarried, trail ++ said.map (Prod.mk t),
        List.rel_append hsaid (said_tagged t hsays), ?_⟩
      show Kept s.due (fun u => owed s.context (Function.update s.pc t pc u)) _
      rw [owed_update rfl]
      exact hkept.deliver howed
  | @receive t j m msg chunk now outside r counted context' pc calls hidle hrecv hcount hbegin =>
      obtain ⟨hfaces, rfl, hcarried, howed⟩ := begins_spec hbegin
      have hcounted := faces_counted hcount
      -- what was decoded tells what the sender encoded
      have htidings : tidings s.context msg = tidings s.context m := by
        obtain ⟨f, hm, rfl⟩ := exists_frame_of_encodes hcalm
        obtain ⟨r', m', hrecv', hm'⟩ := recvStep_frame (s.locals t) f
        rw [hrecv'] at hrecv
        cases hrecv
        exact tidings_of_carries hm hm' s.context
      have hnone : owed s.context (s.pc t) = [] := by
        rw [hidle]
        rfl
      have hmore := hkept.promise t (tidings s.context m)
      rw [hnone, List.nil_append, ← htidings, ← tidings_congr hcounted, ← howed,
        owed_congr hcounted] at hmore
      refine ⟨carried_update h.carried t hcarried, trail, ?_, ?_⟩
      · rw [List.map_nil, List.append_nil]
        exact hsaid
      · show Kept _ (fun u => owed context' (Function.update s.pc t pc u)) _
        rw [owed_update (hfaces.trans hcounted), ← htidings, ← tidings_congr hcounted, ← howed,
          owed_congr hcounted]
        exact hmore

-- ── At the other end ─────────────────────────────────────────────────────────

/-- What comes in on a descriptor tells what was said to it. -/
theorem chunks_tell (fd : Int) {sent : List (Nat × Syscall)}
    {trail : List (Nat × Int × Callback)} (h : List.Forall₂ Said sent trail) :
    List.Forall₂ Tells (chunksOn fd sent) (heardOn fd trail) := by
  induction h with
  | nil => exact .nil
  | @cons call entry sent trail hfirst _ ih =>
      obtain ⟨t, call⟩ := call
      obtain ⟨u, fd', news⟩ := entry
      obtain ⟨-, bytes, hcall, htells⟩ := hfirst
      dsimp only at hcall htells
      subst hcall
      have hpos : 0 < (bytes.length : Int) := by
        obtain ⟨m, f, -, rfl, -⟩ := htells
        rw [f.length_bytes]
        exact_mod_cast f.size_pos
      rw [chunksOn, heardOn]
      by_cases hfd : fd' = fd
      · have harrives : arriving fd (.sent fd' bytes bytes.length) = some bytes := by
          rw [arriving, if_pos ⟨hfd, hpos⟩, Int.toNat_natCast, List.take_length]
        rw [List.filterMap_cons, harrives, List.filter_cons_of_pos (by simpa using hfd)]
        exact .cons htells ih
      · have hlost : arriving fd (.sent fd' bytes bytes.length) = none := by
          rw [arriving, if_neg (fun hboth => hfd hboth.1)]
        rw [List.filterMap_cons, hlost, List.filter_cons_of_neg (by simpa using hfd)]
        exact ih

/-- What kept books say about the clients. -/
theorem Booked.heard {s : Floor config} (h : Booked s) :
    ∃ trail : List (Nat × Int × Callback),
      (∀ t, doneBy t trail <+: s.due t ∧ (s.pc t = .idle → doneBy t trail = s.due t)) ∧
      ∀ fd events callbacks r stats, Polls events (chunksOn fd s.sent) →
        messageReceiverLoop (listen callbacks) r (stats, []) events =
          .ok (tally stats (heardOn fd trail),
            (heardOn fd trail).filter (wants callbacks)) := by
  obtain ⟨trail, hsaid, hkept⟩ := h.trail
  refine ⟨trail, ?_, ?_⟩
  · intro t
    refine ⟨hkept.begun t, fun hidle => hkept.complete ?_⟩
    rw [hidle]
    rfl
  · intro fd events callbacks r stats hpolls
    exact listens hpolls callbacks (heardOn fd trail) r stats [] (chunks_tell fd hsaid)

/-- **Delivery.** However the handlers take turns, there is one trail that, for each
    handler, holds the beginning of what its client's messages owe, all of it once the
    handler is idle, and every client is called back with what the trail says to its
    descriptor, in order, as far as its callbacks are set, and counts it. -/
theorem heard_interleaves {start s : Floor config} (hstart : Opening start)
    (hrun : Runs Step Calm start s) :
    ∃ trail : List (Nat × Int × Callback),
      (∀ t, doneBy t trail <+: s.due t ∧ (s.pc t = .idle → doneBy t trail = s.due t)) ∧
      ∀ fd events callbacks r stats, Polls events (chunksOn fd s.sent) →
        messageReceiverLoop (listen callbacks) r (stats, []) events =
          .ok (tally stats (heardOn fd trail),
            (heardOn fd trail).filter (wants callbacks)) := by
  have hbooked : Booked s :=
    hrun.invariant (I := Booked) (fun _ _ _ hI hcalm hstep => hI.step hcalm hstep)
      hstart.booked
  exact hbooked.heard

/-- Three clients have joined, and all handlers wait. -/
def quietFloor : Floor hundredSlots where
  context := threeGuests.context
  locals := threeGuests.locals
  pc := fun _ => .idle
  sent := []
  due := fun _ => []

/-- Clocks that stand still, and a `send` that takes all bytes. -/
def prompt : Outside := ⟨0, 0, fun _ bytes => bytes.length⟩

/-- A handler goes on with its work, and its sends take all bytes. -/
def Working (s : Floor config) (e : Event) : Prop :=
  Calm s e ∧ ∃ t send, e = .advance t send

/-- The first handler reads market data and answers it. -/
theorem exists_answered {m : Message} {f : Frame} (hf : Carries m f)
    (htype : m.type = .known .marketData) :
    ∃ begun s : Floor hundredSlots,
      Step quietFloor (.receive 0 0 m f.bytes 0 prompt) begun ∧ Runs Step Working begun s ∧
      s.pc 0 = .idle ∧ s.due 0 = [5, 6, 7].map (·, .marketData m.marketData) ∧
      ∀ t, t ≠ 0 → s.due t = [] := by
  obtain ⟨r, m', hrecv, hm'⟩ := recvStep_frame (quietFloor.locals 0) f
  have htype' : m'.type = .known .marketData := hm'.1.trans (hf.1.symm.trans htype)
  obtain ⟨context', calls, hreceived⟩ : ∃ context' calls,
      handleReceived quietFloor.context 0 m' 0 prompt = .ok (context', calls) :=
    handleReceived_quote rfl (by decide) htype' 0 prompt
  rw [handleReceived_eq] at hreceived
  obtain ⟨counted, hcount, hswitch⟩ := bind_eq_ok.mp hreceived
  have hworking : ∀ (s : Floor hundredSlots) i, Working s (.advance 0 (prompt.send i)) :=
    fun _ _ => ⟨fun _ => rfl, 0, _, rfl⟩
  obtain ⟨begun, pc, made, rest, hbegin, -, hruns⟩ := runs_switch hworking hswitch
  have hoccupied : occupied quietFloor.context = [5, 6, 7] := by decide +kernel
  have htidings : tidings quietFloor.context m = [5, 6, 7].map (·, .marketData m.marketData) := by
    rw [tidings, htype, ← hoccupied]
  refine ⟨_, _, .receive rfl hrecv hcount hbegin, hruns _ _ _ _, ?_, ?_, ?_⟩
  · exact Function.update_self 0 Pc.idle quietFloor.pc
  · dsimp only
    rw [Function.update_self, ← htidings]
    rfl
  · exact fun t ht => Function.update_of_ne ht _ _

/-- The first client asks for the symbol `A`, and the second one is called back. -/
theorem heard_interleaves_quote :
    ∃ s : Floor hundredSlots, s.pc 0 = .idle ∧
      (∀ events callbacks r stats, callbacks.onMarketData = true →
        Polls events (chunksOn 6 s.sent) →
        messageReceiverLoop (listen callbacks) r (stats, []) events =
          .ok (tally stats [.marketData (TradeSenders.quoteMessage [65] 0).marketData],
            [.marketData (TradeSenders.quoteMessage [65] 0).marketData])) ∧
      ∃ trail : List (Nat × Int × Callback),
        (∀ t, doneBy t trail <+: s.due t ∧ (s.pc t = .idle → doneBy t trail = s.due t)) ∧
        ∀ fd events callbacks r stats, Polls events (chunksOn fd s.sent) →
          messageReceiverLoop (listen callbacks) r (stats, []) events =
            .ok (tally stats (heardOn fd trail),
              (heardOn fd trail).filter (wants callbacks)) := by
  obtain ⟨f, hf, -⟩ := exists_carries (m := TradeSenders.quoteMessage [65] 0) rfl
  obtain ⟨begun, s, hread, hanswered, hidle, hdue, hothers⟩ := exists_answered hf rfl
  have hcalm : Calm quietFloor
      (.receive 0 0 (TradeSenders.quoteMessage [65] 0) f.bytes 0 prompt) :=
    (encodes_iff hf f.bytes).mpr rfl
  have hrun := (Runs.one hcalm hread).trans (hanswered.mono (fun _ _ h => h.1))
  obtain ⟨trail, hdone, hheard⟩ := heard_interleaves ⟨fun _ => rfl, rfl, fun _ => rfl⟩ hrun
  refine ⟨s, hidle, ?_, trail, hdone, hheard⟩
  intro events callbacks r stats hwant hpolls
  have hsilent : ∀ t, t ≠ 0 → saidTo 6 (doneBy t trail) = [] := by
    intro t ht
    have hnothing := (hdone t).1
    rw [hothers t ht, List.prefix_nil] at hnothing
    rw [hnothing]
    rfl
  have hsecond : heardOn 6 trail =
      [.marketData (TradeSenders.quoteMessage [65] 0).marketData] := by
    rw [heardOn_alone hsilent, (hdone 0).2 hidle, hdue]
    rfl
  have hwants : wants callbacks
      (.marketData (TradeSenders.quoteMessage [65] 0).marketData) = true := hwant
  rw [hheard 6 events callbacks r stats hpolls, hsecond, List.filter_cons_of_pos hwants,
    List.filter_nil]

end TradeDelivery
