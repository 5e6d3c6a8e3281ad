import TradeSynth.TicketProofs
import TradeSynth.TradeWalkProofs

/-!
# Numbers and sends — many handlers, one counter, no order between their sends

`broadcast_market_data` and `process_trade_execution` draw a sequence number first and
send afterwards, one descriptor after the other. Nothing orders the sends of different
handlers. The handlers are an instance of the ticket desk: to draw a number is to issue
a ticket, to send is to deliver (`draw_refines`, `advance_refines`).

The steps of a handler that nobody disturbs make up the whole functions
(`runs_broadcastMarketData`, `runs_processTradeExecution`).

On every descriptor the numbers increase strictly when each send is in turn, and a send
out of turn breaks the order as soon as everything has been sent
(`sends_ordered_in_turn`).
-/

namespace TradeOrdering

open CheckedMemory FixedCodec TradeTypes TradeCodec TradeWire TradeRegistry TradeRun
  TradeHandlers TradeBroadcast TradeRouting TradeBinding Transition

variable {config : ServerConfig}

-- ── Handlers at work ─────────────────────────────────────────────────────────

/-- Where a handler stands. -/
inductive Pc where
  | idle
  /-- in the loop of `broadcast_market_data`, before its visit of slot `i` -/
  | broadcasting (msg : Message) (i : Nat)
  /-- in `process_trade_execution`, before the send to the buyer -/
  | toBuyer (trade : TradeExecution) (msg : Message)
  /-- the same, before the send to the seller -/
  | toSeller (trade : TradeExecution) (msg : Message)

/-- The registry, which nobody changes, the handlers, the descriptors and numbers of the
    messages sent so far, and how many numbers have been drawn. -/
structure Senders (config : ServerConfig) where
  context : ServerContext config
  pc      : Nat → Pc
  log     : List (Int × UInt64)
  drawn   : Nat

inductive Event where
  | broadcast (t : Nat) (marketData : MarketData) (now : Int64)
  | execute (t : Nat) (trade : TradeExecution) (now : Int64)
  | advance (t : Nat) (send : List UInt8 → Int)

/-- The log entries that calls with a message make. -/
def entries (msg : Message) (calls : List Syscall) : List (Int × UInt64) :=
  (targets calls).map (·, msg.sequenceNum)

inductive Step (s : Senders config) : Event → Senders config → Prop where
  | broadcast {t : Nat} {marketData : MarketData} {now : Int64} (hidle : s.pc t = .idle) :
      Step s (.broadcast t marketData now)
        ⟨{ s.context with sequenceNum := s.context.sequenceNum + 1 },
          Function.update s.pc t
            (.broadcasting (marketDataMessage s.context marketData now) 0), s.log, s.drawn + 1⟩
  | execute {t : Nat} {trade : TradeExecution} {now : Int64} (hidle : s.pc t = .idle) :
      Step s (.execute t trade now)
        ⟨{ s.context with sequenceNum := s.context.sequenceNum + 1 },
          Function.update s.pc t (.toBuyer trade (tradeMessage s.context trade now)),
          s.log, s.drawn + 1⟩
  | visit {t i : Nat} {msg : Message} {send : List UInt8 → Int} {calls : List Syscall}
      (hpc : s.pc t = .broadcasting msg i) (hi : i < maxClients)
      (hexec : TradeWalk.visit s.context msg i send = .ok calls) :
      Step s (.advance t send)
        ⟨s.context, Function.update s.pc t (.broadcasting msg (i + 1)),
          s.log ++ entries msg calls, s.drawn⟩
  | done {t i : Nat} {msg : Message} {send : List UInt8 → Int}
      (hpc : s.pc t = .broadcasting msg i) (hi : ¬ i < maxClients) :
      Step s (.advance t send) ⟨s.context, Function.update s.pc t .idle, s.log, s.drawn⟩
  | buyer {t : Nat} {trade : TradeExecution} {msg : Message} {send : List UInt8 → Int}
      {fd : Int} {calls : List Syscall} (hpc : s.pc t = .toBuyer trade msg)
      (hfound : findClientSocket s.context (buyerIdOf trade) = .ok fd)
      (hexec : notify fd msg send = .ok calls) :
      Step s (.advance t send)
        ⟨s.context, Function.update s.pc t (.toSeller trade msg),
          s.log ++ entries msg calls, s.drawn⟩
  | seller {t : Nat} {trade : TradeExecution} {msg : Message} {send : List UInt8 → Int}
      {fd : Int} {calls : List Syscall} (hpc : s.pc t = .toSeller trade msg)
      (hfound : findClientSocket s.context (sellerIdOf trade) = .ok fd)
      (hexec : notify fd msg send = .ok calls) :
      Step s (.advance t send)
        ⟨s.context, Function.update s.pc t .idle, s.log ++ entries msg calls, s.drawn⟩

/-- Fewer than 2⁶⁴ numbers are drawn. -/
def Few (s : Senders config) : Event → Prop
  | .advance .. => True
  | _ => s.drawn + 1 < 2 ^ 64

/-- The server has just been initialised, apart from its registry. -/
structure Fresh (s : Senders config) : Prop where
  first : s.context.sequenceNum = 1
  idle  : ∀ t, s.pc t = .idle
  empty : s.log = []
  drawn : s.drawn = 0

/-- The messages sent to any one descriptor appear in strictly increasing order of their
    numbers. -/
def Ordered (s : Senders config) : Prop :=
  s.log.Pairwise (fun a b => a.1 = b.1 → a.2 < b.2)

-- ── One handler alone ────────────────────────────────────────────────────────

theorem entries_append (msg : Message) (calls calls' : List Syscall) :
    entries msg (calls ++ calls') = entries msg calls ++ entries msg calls' := by
  rw [entries, targets, List.filterMap_append, List.map_append]
  rfl

/-- The visits of a handler that nobody disturbs make the calls of the loop. -/
theorem runs_visits {context : ServerContext config} {pc : Nat → Pc} {t : Nat}
    {msg : Message} {send : Nat → List UInt8 → Int} {drawn : Nat} (len : Nat) :
    ∀ i log calls, i + len ≤ maxClients →
      broadcastLoop context.clients msg send i len = .ok calls →
      Runs Step anyStep ⟨context, Function.update pc t (.broadcasting msg i), log, drawn⟩
        ⟨context, Function.update pc t (.broadcasting msg (i + len)),
          log ++ entries msg calls, drawn⟩ := by
  induction len with
  | zero =>
      intro i log calls _ h
      cases h
      rw [show entries msg [] = [] from rfl, List.append_nil]
      exact Runs.refl _
  | succ len ih =>
      intro i log calls hlen h
      obtain ⟨first, rest, hexec, hrest, rfl⟩ := TradeWalk.broadcastLoop_visit h
      have hvisit := Runs.one (P := anyStep)
        (s := ⟨context, Function.update pc t (.broadcasting msg i), log, drawn⟩) trivial
        (Step.visit (Function.update_self _ _ _) (by omega) hexec)
      rw [Function.update_idem] at hvisit
      have hlater := ih (i + 1) (log ++ entries msg first) rest (by omega) hrest
      rw [show i + 1 + len = i + (len + 1) by omega, List.append_assoc, ← entries_append]
        at hlater
      exact hvisit.trans hlater

/-- The steps of a handler that nobody disturbs make up `broadcast_market_data`. -/
theorem runs_broadcastMarketData {s : Senders config} {t : Nat} (hidle : s.pc t = .idle)
    {marketData : MarketData} {now : Int64} {send : Nat → List UInt8 → Int} {code : Int}
    {context' : ServerContext config} {calls : List Syscall}
    (h : broadcastMarketData s.context marketData now send = .ok (code, context', calls)) :
    Runs Step anyStep s ⟨context', s.pc,
      s.log ++ entries (marketDataMessage s.context marketData now) calls, s.drawn + 1⟩ := by
  rw [broadcastMarketData] at h
  obtain ⟨made, hloop, h⟩ := bind_eq_ok.mp h
  cases h
  have hdraw : Step s (.broadcast t marketData now) _ := .broadcast hidle
  have hvisits := (Runs.one (P := anyStep) trivial hdraw).trans
    (runs_visits maxClients 0 s.log calls (by omega) hloop)
  have hdone := hvisits.tail (a := .advance t (send 0)) trivial
    (.done (Function.update_self _ _ _) (by omega))
  rw [Function.update_idem, ← hidle, Function.update_eq_self] at hdone
  exact hdone

/-- The same for `process_trade_execution`. -/
theorem runs_processTradeExecution {s : Senders config} {t : Nat} (hidle : s.pc t = .idle)
    {trade : TradeExecution} {now : Int64} {sendBuyer sendSeller : List UInt8 → Int}
    {code : Int} {context' : ServerContext config} {calls : List Syscall}
    (h : processTradeExecution s.context trade now sendBuyer sendSeller =
      .ok (code, context', calls)) :
    Runs Step anyStep s ⟨context', s.pc,
      s.log ++ entries (tradeMessage s.context trade now) calls, s.drawn + 1⟩ := by
  rw [processTradeExecution] at h
  obtain ⟨buyer, hbuyer, h⟩ := bind_eq_ok.mp h
  obtain ⟨seller, hseller, h⟩ := bind_eq_ok.mp h
  obtain ⟨buyerCalls, hbuyerCalls, h⟩ := bind_eq_ok.mp h
  obtain ⟨sellerCalls, hsellerCalls, h⟩ := bind_eq_ok.mp h
  cases h
  have hdraw : Step s (.execute t trade now) _ := .execute hidle
  have hsold := ((Runs.one (P := anyStep) trivial hdraw).tail trivial
    (.buyer (Function.update_self _ _ _) hbuyer hbuyerCalls)).tail trivial
    (.seller (Function.update_self _ _ _) hseller hsellerCalls)
  rw [Function.update_idem, Function.update_idem, ← hidle, Function.update_eq_self,
    List.append_assoc] at hsold
  rw [entries_append]
  exact hsold

-- ── What a handler still has to send ─────────────────────────────────────────

/-- The descriptor that a visit of slot `i` sends to, if any. -/
def slotTarget (context : ServerContext config) (i : Nat) : List Int :=
  match context.clients.cells[i]? with
  | some c => notified c.socket
  | none => []

/-- The descriptor that the lookup of an id leads to, if any. -/
def lookupTarget (context : ServerContext config) (id : List UInt8) : List Int :=
  match findClientSocket context id with
  | .ok fd => notified fd
  | .error _ => []

/-- The descriptor that the handler's next step sends to, if any. -/
def next (context : ServerContext config) : Pc → List Int
  | .idle => []
  | .broadcasting _ i => if i < maxClients then slotTarget context i else []
  | .toBuyer trade _ => lookupTarget context (buyerIdOf trade)
  | .toSeller trade _ => lookupTarget context (sellerIdOf trade)

/-- The descriptors that its steps behind the next one send to. -/
def later (context : ServerContext config) : Pc → List Int
  | .idle => []
  | .broadcasting _ i =>
      (List.range' (i + 1) (maxClients - (i + 1))).flatMap (slotTarget context)
  | .toBuyer trade _ => lookupTarget context (sellerIdOf trade)
  | .toSeller _ _ => []

/-- The number that the handler has drawn. -/
def number : Pc → UInt64
  | .idle => 0
  | .broadcasting msg _ => msg.sequenceNum
  | .toBuyer _ msg => msg.sequenceNum
  | .toSeller _ msg => msg.sequenceNum

/-- What the handler still has to send, with its number. -/
def owed (context : ServerContext config) (pc : Pc) : List (Int × UInt64) :=
  (next context pc ++ later context pc).map (·, number pc)

/-- A send is in turn when the same handler has no other send to that descriptor to make,
    and the others have only such with greater numbers. -/
def InTurn (s : Senders config) : Event → Prop
  | .advance t _ => ∀ fd ∈ next s.context (s.pc t), fd ∉ later s.context (s.pc t) ∧
      ∀ u ≠ t, ∀ other ∈ owed s.context (s.pc u), other.1 = fd →
        number (s.pc t) < other.2
  | _ => True

theorem notified_cases (fd : Int) : notified fd = [] ∨ notified fd = [fd] := by
  rw [notified]
  split
  · exact Or.inr rfl
  · exact Or.inl rfl

/-- A step sends to one descriptor at most. -/
theorem next_cases (context : ServerContext config) (pc : Pc) :
    next context pc = [] ∨ ∃ fd, next context pc = [fd] := by
  have hnotified : ∀ fd, notified fd = [] ∨ ∃ fd', notified fd = [fd'] :=
    fun fd => (notified_cases fd).imp_right fun h => ⟨fd, h⟩
  have hlookup : ∀ id, lookupTarget context id = [] ∨
      ∃ fd, lookupTarget context id = [fd] := by
    intro id
    rw [lookupTarget]
    split
    · exact hnotified _
    · exact Or.inl rfl
  cases pc with
  | idle => exact Or.inl rfl
  | broadcasting msg i =>
      rw [next]
      split
      · rw [slotTarget]
        split
        · exact hnotified _
        · exact Or.inl rfl
      · exact Or.inl rfl
  | toBuyer trade msg => exact hlookup _
  | toSeller trade msg => exact hlookup _

/-- The visits from slot `i` on are the one of slot `i` and the later ones. -/
theorem owed_broadcasting (context : ServerContext config) (msg : Message) (i : Nat) :
    owed context (.broadcasting msg i) =
      ((List.range' i (maxClients - i)).flatMap (slotTarget context)).map
        (·, msg.sequenceNum) := by
  rw [owed, next, later, number]
  by_cases hi : i < maxClients
  · rw [if_pos hi, show maxClients - i = (maxClients - (i + 1)) + 1 by omega, List.range'_succ,
      List.flatMap_cons]
  · rw [if_neg hi, show maxClients - i = 0 by omega, show maxClients - (i + 1) = 0 by omega]
    rfl

-- ── The handlers as a ticket desk ────────────────────────────────────────────

/-- The message of a handler can be sent. -/
def Carried : Pc → Prop
  | .idle => True
  | .broadcasting msg _ => ∃ f, Carries msg f
  | .toBuyer _ msg => ∃ f, Carries msg f
  | .toSeller _ msg => ∃ f, Carries msg f

/-- The counter stands behind the numbers that have been drawn, and the messages of all
    handlers can be sent. -/
structure Kept (s : Senders config) : Prop where
  counter : s.context.sequenceNum = UInt64.ofNat (s.drawn + 1)
  carried : ∀ t, Carried (s.pc t)

theorem carried_update {pc : Nat → Pc} (h : ∀ t, Carried (pc t)) {t : Nat} {pc' : Pc}
    (h' : Carried pc') : ∀ u, Carried (Function.update pc t pc' u) := by
  intro u
  by_cases hut : u = t
  · rw [hut, Function.update_self]
    exact h'
  · rw [Function.update_of_ne hut]
    exact h u

theorem exists_trade_frame (context : ServerContext config) (trade : TradeExecution)
    (now : Int64) : ∃ f, Carries (tradeMessage context trade now) f := by
  obtain ⟨f, hf, -⟩ := exists_carries (m := tradeMessage context trade now) rfl
  exact ⟨f, hf⟩

theorem carried_of_pc {s : Senders config} (h : Kept s) {t : Nat} {pc : Pc}
    (hpc : s.pc t = pc) : Carried pc := hpc ▸ h.carried t

theorem Kept.step {s s' : Senders config} {e : Event} (h : Kept s) (hstep : Step s e s') :
    Kept s' := by
  have hcounter : s.context.sequenceNum + 1 = UInt64.ofNat (s.drawn + 1 + 1) := by
    rw [h.counter, ← UInt64.ofNat_one, ← UInt64.ofNat_add]
  cases hstep with
  | broadcast hidle =>
      exact ⟨hcounter, carried_update h.carried (exists_quote_frame _ _ _)⟩
  | execute hidle =>
      exact ⟨hcounter, carried_update h.carried (exists_trade_frame _ _ _)⟩
  | visit hpc hi hexec =>
      have hmsg : ∃ f, Carries _ f := carried_of_pc h hpc
      exact ⟨h.counter, carried_update h.carried hmsg⟩
  | done hpc hi => exact ⟨h.counter, carried_update h.carried trivial⟩
  | buyer hpc hfound hexec =>
      have hmsg : ∃ f, Carries _ f := carried_of_pc h hpc
      exact ⟨h.counter, carried_update h.carried hmsg⟩
  | seller hpc hfound hexec => exact ⟨h.counter, carried_update h.carried trivial⟩

theorem entries_notify {msg : Message} (hm : ∃ f, Carries msg f) {fd : Int}
    {send : List UInt8 → Int} {calls : List Syscall} (h : notify fd msg send = .ok calls) :
    entries msg calls = (notified fd).map (·, msg.sequenceNum) := by
  obtain ⟨f, hf⟩ := hm
  obtain ⟨calls', hcalls', -, htargets⟩ := notify_frame hf fd send
  rw [h] at hcalls'
  cases hcalls'
  rw [entries, htargets]

/-- What a step of a handler that has drawn its number does: it makes the next of the
    sends that it owes, if there is one, and owes the later ones. -/
theorem advance_spec {s s' : Senders config} {t : Nat} {send : List UInt8 → Int}
    (h : Kept s) (hstep : Step s (.advance t send) s') :
    ∃ pc', s' = ⟨s.context, Function.update s.pc t pc',
        s.log ++ (next s.context (s.pc t)).map (·, number (s.pc t)), s.drawn⟩ ∧
      owed s.context pc' = (later s.context (s.pc t)).map (·, number (s.pc t)) := by
  cases hstep with
  | @visit _ i msg _ calls hpc hi hexec =>
      rw [TradeWalk.visit] at hexec
      obtain ⟨c, hread, hexec⟩ := bind_eq_ok.mp hexec
      have hslot : slotTarget s.context i = notified c.socket := by
        rw [slotTarget, Block.read_eq_ok.mp hread]
      refine ⟨.broadcasting msg (i + 1), ?_, ?_⟩
      · rw [entries_notify (carried_of_pc h hpc) hexec, hpc, next, if_pos hi, hslot]
        rfl
      · rw [owed_broadcasting, hpc]
        rfl
  | done hpc hi =>
      refine ⟨.idle, ?_, ?_⟩
      · rw [hpc, next, if_neg hi, List.map_nil, List.append_nil]
      · rw [hpc, later, show maxClients - (_ + 1) = 0 by omega]
        rfl
  | @buyer _ trade msg _ fd calls hpc hfound hexec =>
      refine ⟨.toSeller trade msg, ?_, ?_⟩
      · rw [entries_notify (carried_of_pc h hpc) hexec, hpc, next, lookupTarget, hfound]
        rfl
      · rw [hpc, owed, next, later, later, List.append_nil]
        rfl
  | @seller _ trade msg _ fd calls hpc hfound hexec =>
      refine ⟨.idle, ?_, ?_⟩
      · rw [entries_notify (carried_of_pc h hpc) hexec, hpc, next, lookupTarget, hfound]
        rfl
      · rw [hpc]
        rfl

/-- A log entry with its number as a natural number. -/
def ticket (entry : Int × UInt64) : Int × Nat := (entry.1, entry.2.toNat)

/-- The ticket desk that the handlers are. -/
def desk (s : Senders config) : Ticket.Desk Nat Int where
  next := s.drawn + 1
  due := fun t => (owed s.context (s.pc t)).map ticket
  log := s.log.map ticket

/-- What one handler owes has changed. -/
theorem due_update (context : ServerContext config) (pc : Nat → Pc) (t : Nat) (pc' : Pc) :
    (fun u => (owed context (Function.update pc t pc' u)).map ticket) =
      Function.update (fun u => (owed context (pc u)).map ticket) t
        ((owed context pc').map ticket) := by
  funext u
  by_cases hut : u = t
  · rw [hut, Function.update_self, Function.update_self]
  · rw [Function.update_of_ne hut, Function.update_of_ne hut]

/-- To draw a number is to issue a ticket. -/
theorem draw_refines {s s' : Senders config} {e : Event} (h : Kept s) (hfew : Few s e)
    (hstep : Step s e s') (hdraw : ∀ t send, e ≠ .advance t send) :
    ∃ t recipients, Ticket.Step (desk s) (.issue t recipients) (desk s') := by
  have hnumber : s.drawn + 1 < 2 ^ 64 → s.context.sequenceNum.toNat = s.drawn + 1 := by
    intro hlt
    rw [h.counter, UInt64.toNat_ofNat_of_lt' hlt]
  have hissue : ∀ t pc', s.pc t = .idle → number pc' = s.context.sequenceNum →
      s.drawn + 1 < 2 ^ 64 →
      Ticket.Step (desk s) (.issue t (next s.context pc' ++ later s.context pc'))
        (desk ⟨{ s.context with sequenceNum := s.context.sequenceNum + 1 },
          Function.update s.pc t pc', s.log, s.drawn + 1⟩) := by
    intro t pc' hidle hnumbered hlt
    have hafter : desk ⟨{ s.context with sequenceNum := s.context.sequenceNum + 1 },
        Function.update s.pc t pc', s.log, s.drawn + 1⟩ =
          ⟨(desk s).next + 1, Function.update (desk s).due t
            ((next s.context pc' ++ later s.context pc').map (·, (desk s).next)),
            (desk s).log⟩ := by
      have howed : (owed s.context pc').map ticket =
          (next s.context pc' ++ later s.context pc').map (·, (desk s).next) := by
        rw [owed, List.map_map, hnumbered]
        refine List.map_congr_left fun fd _ => ?_
        show (fd, s.context.sequenceNum.toNat) = (fd, s.drawn + 1)
        rw [hnumber hlt]
      rw [← howed]
      exact congrArg (fun due => Ticket.Desk.mk (s.drawn + 1 + 1) due (s.log.map ticket))
        (due_update s.context s.pc t pc')
    rw [hafter]
    refine .issue ?_
    show (owed s.context (s.pc t)).map ticket = []
    rw [hidle]
    rfl
  cases hstep with
  | @broadcast t marketData now hidle => exact ⟨t, _, hissue t _ hidle rfl hfew⟩
  | @execute t trade now hidle => exact ⟨t, _, hissue t _ hidle rfl hfew⟩
  | visit => exact absurd rfl (hdraw _ _)
  | done => exact absurd rfl (hdraw _ _)
  | buyer => exact absurd rfl (hdraw _ _)
  | seller => exact absurd rfl (hdraw _ _)

/-- To send is to deliver; a step that does not send leaves the desk as it is. -/
theorem advance_refines {s s' : Senders config} {t : Nat} {send : List UInt8 → Int}
    (h : Kept s) (hstep : Step s (.advance t send) s') :
    (next s.context (s.pc t) = [] ∧ desk s' = desk s) ∨
      ((∃ fd, next s.context (s.pc t) = [fd]) ∧
        Ticket.Step (desk s) (.deliver t) (desk s')) := by
  obtain ⟨pc', rfl, howed⟩ := advance_spec h hstep
  rcases next_cases s.context (s.pc t) with hnone | ⟨fd, hone⟩
  · refine Or.inl ⟨hnone, ?_⟩
    have hsame : (owed s.context pc').map ticket = (owed s.context (s.pc t)).map ticket := by
      rw [howed, owed, hnone, List.nil_append]
    have hdue := due_update s.context s.pc t pc'
    rw [hsame, Function.update_eq_self] at hdue
    rw [desk, desk, hnone, List.map_nil, List.append_nil]
    exact congrArg (fun due => Ticket.Desk.mk (s.drawn + 1) due (s.log.map ticket)) hdue
  · refine Or.inr ⟨⟨fd, hone⟩, ?_⟩
    have hdue : (desk s).due t =
        ticket (fd, number (s.pc t)) :: (owed s.context pc').map ticket := by
      show (owed s.context (s.pc t)).map ticket = _
      rw [howed, owed, hone]
      rfl
    have hafter : desk ⟨s.context, Function.update s.pc t pc',
        s.log ++ (next s.context (s.pc t)).map (·, number (s.pc t)), s.drawn⟩ =
          ⟨(desk s).next, Function.update (desk s).due t ((owed s.context pc').map ticket),
            (desk s).log ++ [ticket (fd, number (s.pc t))]⟩ := by
      rw [desk, hone, List.map_append]
      exact congrArg (fun due => Ticket.Desk.mk (s.drawn + 1) due
        (s.log.map ticket ++ [ticket (fd, number (s.pc t))])) (due_update s.context s.pc t pc')
    rw [hafter]
    exact .deliver hdue

/-- A send is in turn when the delivery is. -/
theorem inTurn_iff {s : Senders config} {t : Nat} {fd : Int} (send : List UInt8 → Int)
    (hone : next s.context (s.pc t) = [fd]) :
    InTurn s (.advance t send) ↔ Ticket.InTurn (desk s) (.deliver t) := by
  have hdue : (desk s).due t = ticket (fd, number (s.pc t)) ::
      ((later s.context (s.pc t)).map (·, number (s.pc t))).map ticket := by
    show (owed s.context (s.pc t)).map ticket = _
    rw [owed, hone]
    rfl
  constructor
  · intro hturn entry rest heq
    rw [hdue] at heq
    cases heq
    obtain ⟨hlater, hothers⟩ := hturn fd (hone ▸ List.mem_cons_self)
    constructor
    · intro other hother hsame
      obtain ⟨made, hmade, rfl⟩ := List.mem_map.mp hother
      obtain ⟨fd', hfd', rfl⟩ := List.mem_map.mp hmade
      have hsame : fd' = fd := hsame
      exact absurd (hsame ▸ hfd') hlater
    · intro u hut other hother hsame
      obtain ⟨made, hmade, rfl⟩ := List.mem_map.mp hother
      exact UInt64.lt_iff_toNat_lt.mp (hothers u hut made hmade hsame)
  · intro hturn fd' hfd'
    rw [hone] at hfd'
    cases List.mem_singleton.mp hfd'
    obtain ⟨hrest, hothers⟩ := hturn _ _ hdue
    constructor
    · intro hlater
      have hagain : ticket (fd, number (s.pc t)) ∈
          ((later s.context (s.pc t)).map (·, number (s.pc t))).map ticket :=
        List.mem_map_of_mem (List.mem_map.mpr ⟨fd, hlater, rfl⟩)
      exact absurd (hrest _ hagain rfl) (Nat.lt_irrefl _)
    · intro u hut other hother hsame
      exact UInt64.lt_iff_toNat_lt.mpr
        (hothers u hut (ticket other) (List.mem_map_of_mem hother) hsame)

theorem ordered_iff (s : Senders config) : Ordered s ↔ Ticket.Ordered (desk s).log := by
  show _ ↔ (s.log.map ticket).Pairwise _
  rw [Ordered, List.pairwise_map]
  constructor
  · exact fun h => h.imp fun hab hsame => UInt64.lt_iff_toNat_lt.mp (hab hsame)
  · exact fun h => h.imp fun hab hsame => UInt64.lt_iff_toNat_lt.mpr (hab hsame)

/-- A run of the handlers is one of the desk, in turn when their sends are. -/
theorem desk_runs {P : Senders config → Event → Prop}
    {Q : Ticket.Desk Nat Int → Ticket.Event Nat Int → Prop} (hfew : ∀ s e, P s e → Few s e)
    (hissue : ∀ d t recipients, Q d (.issue t recipients))
    (hdeliver : ∀ s t send fd, P s (.advance t send) → next s.context (s.pc t) = [fd] →
      Q (desk s) (.deliver t))
    {s s' : Senders config} (h : Runs Step P s s') (hs : Kept s) :
    Kept s' ∧ Runs Ticket.Step Q (desk s) (desk s') := by
  have hmatch : ∀ s e s' d, Kept s ∧ d = desk s → P s e → Step s e s' →
      ∃ d', (Kept s' ∧ d' = desk s') ∧ Runs Ticket.Step Q d d' := by
    rintro s e s' d ⟨hkept, rfl⟩ hP hstep
    refine ⟨desk s', ⟨hkept.step hstep, rfl⟩, ?_⟩
    by_cases hadvance : ∃ t send, e = .advance t send
    · obtain ⟨t, send, rfl⟩ := hadvance
      rcases advance_refines hkept hstep with ⟨-, hsame⟩ | ⟨⟨fd, hone⟩, hnext⟩
      · rw [hsame]
        exact Runs.refl _
      · exact Runs.one (hdeliver s t send fd hP hone) hnext
    · obtain ⟨t, recipients, hnext⟩ := draw_refines hkept (hfew s e hP) hstep
        fun t send heq => hadvance ⟨t, send, heq⟩
      exact Runs.one (hissue _ t recipients) hnext
  obtain ⟨d, ⟨hs', rfl⟩, hrun⟩ := h.simulate hmatch ⟨hs, rfl⟩
  exact ⟨hs', hrun⟩

-- ── Order on every descriptor ────────────────────────────────────────────────

theorem Fresh.kept {s : Senders config} (h : Fresh s) : Kept s where
  counter := by
    rw [h.first, h.drawn]
    rfl
  carried := by
    intro t
    rw [h.idle t]
    trivial

theorem Fresh.punctual {s : Senders config} (h : Fresh s) : Ticket.Punctual (desk s) := by
  have hlog : (desk s).log = [] := by
    show s.log.map ticket = []
    rw [h.empty]
    rfl
  have hdue : ∀ t, (desk s).due t = [] := by
    intro t
    show (owed s.context (s.pc t)).map ticket = []
    rw [h.idle t]
    rfl
  exact {
    drawn := fun entry hentry => absurd (hlog ▸ hentry) List.not_mem_nil
    owed := fun t entry hentry => absurd (hdue t ▸ hentry) List.not_mem_nil
    behind := fun entry hentry => absurd (hlog ▸ hentry) List.not_mem_nil
    ordered := by
      rw [hlog]
      exact List.Pairwise.nil }

/-- **Order on every descriptor.** Whatever handlers run, and however their steps are
    interleaved: while each send is in turn, the numbers on every descriptor increase
    strictly; and once a send is made out of turn, they no longer do when all handlers
    have finished. -/
theorem sends_ordered_in_turn {start s : Senders config} (hstart : Fresh start)
    (hrun : Runs Step (fun s e => Few s e ∧ InTurn s e) start s) :
    Ordered s ∧ ∀ e s' s'', Few s e → ¬ InTurn s e → Step s e s' →
      Runs Step Few s' s'' → (∀ t, s''.pc t = .idle) → ¬ Ordered s'' := by
  obtain ⟨hkept, hdesk⟩ := desk_runs (Q := Ticket.InTurn) (fun _ _ h => h.1)
    (fun _ _ _ => trivial) (fun s t send fd h hone => (inTurn_iff send hone).mp h.2) hrun
    hstart.kept
  refine ⟨(ordered_iff s).mpr (Ticket.ordered_of_inTurn hstart.punctual hdesk), ?_⟩
  intro e s' s'' hfew hturn hstep hlater hidle
  have hkept' := hkept.step hstep
  cases e with
  | broadcast t marketData now => exact absurd trivial hturn
  | execute t trade now => exact absurd trivial hturn
  | advance t send =>
      rcases advance_refines hkept hstep with ⟨hnone, -⟩ | ⟨⟨fd, hone⟩, hdeliver⟩
      · refine absurd ?_ hturn
        intro fd hfd
        rw [hnone] at hfd
        cases hfd
      · rw [inTurn_iff send hone] at hturn
        obtain ⟨-, hrest⟩ := desk_runs (Q := anyStep) (fun _ _ h => h)
          (fun _ _ _ => trivial) (fun _ _ _ _ _ _ => trivial) hlater hkept'
        rw [ordered_iff]
        refine Ticket.disordered_of_outOfTurn hturn hdeliver hrest fun u => ?_
        show (owed s''.context (s''.pc u)).map ticket = []
        rw [hidle u]
        rfl

/-- Two clients, and handlers that have not begun. -/
def readySenders : Senders hundredSlots := ⟨hall [guestA, guestB] 2, fun _ => .idle, [], 0⟩

theorem fresh_readySenders : Fresh readySenders := ⟨rfl, fun _ => rfl, rfl, rfl⟩

/-- The message of the first broadcast. -/
def firstQuote : Message := marketDataMessage (hall [guestA, guestB] 2) dummyData 0

/-- One handler has drawn its number. -/
def oneBroadcast : Senders hundredSlots :=
  ⟨{ hall [guestA, guestB] 2 with sequenceNum := 2 },
    Function.update (fun _ => .idle) 0 (.broadcasting firstQuote 0), [], 1⟩

/-- The message of the second broadcast. -/
def secondQuote : Message := marketDataMessage oneBroadcast.context dummyData 0

/-- Two handlers have drawn the numbers of two broadcasts. -/
def twoBroadcasts : Senders hundredSlots :=
  ⟨{ hall [guestA, guestB] 2 with sequenceNum := 3 },
    Function.update oneBroadcast.pc 1 (.broadcasting secondQuote 0), [], 2⟩

theorem runs_to_twoBroadcasts {P : Senders hundredSlots → Event → Prop}
    (hP : ∀ s t, s.drawn < 2 → P s (.broadcast t dummyData 0)) :
    Runs Step P readySenders twoBroadcasts := by
  have hidle : oneBroadcast.pc 1 = .idle := by
    show Function.update (fun _ => Pc.idle) 0 (.broadcasting firstQuote 0) 1 = Pc.idle
    rw [Function.update_of_ne Nat.one_ne_zero]
  have hfirst : Step readySenders (.broadcast 0 dummyData 0) oneBroadcast := .broadcast rfl
  have hsecond : Step oneBroadcast (.broadcast 1 dummyData 0) twoBroadcasts := .broadcast hidle
  exact (Runs.one (hP _ 0 Nat.zero_lt_two) hfirst).tail (hP _ 1 Nat.one_lt_two) hsecond

/-- A visit of the first slot, where the client stands on descriptor 5. -/
theorem step_first_slot {s : Senders hundredSlots} {t : Nat} {msg : Message}
    (hm : ∃ f, Carries msg f) (hpc : s.pc t = .broadcasting msg 0)
    (hcell : s.context.clients.cells[0]? = some guestA) :
    Step s (.advance t fun bytes => bytes.length)
      ⟨s.context, Function.update s.pc t (.broadcasting msg 1),
        s.log ++ [(5, msg.sequenceNum)], s.drawn⟩ := by
  obtain ⟨f, hf⟩ := hm
  obtain ⟨calls, hcalls, -⟩ := notify_frame hf guestA.socket (fun bytes => bytes.length)
  have hvisit : TradeWalk.visit s.context msg 0 (fun bytes => bytes.length) = .ok calls :=
    (TradeWalk.visit_of_cell hcell _ _).trans hcalls
  have hentries : entries msg calls = [(5, msg.sequenceNum)] := entries_notify ⟨f, hf⟩ hcalls
  rw [← hentries]
  exact .visit hpc (by decide) hvisit

/-- The first number has gone to the first client. -/
def firstVisited : Senders hundredSlots :=
  ⟨twoBroadcasts.context, Function.update twoBroadcasts.pc 0 (.broadcasting firstQuote 1),
    [(5, 1)], 2⟩

/-- Then the second. -/
def bothVisited : Senders hundredSlots :=
  ⟨twoBroadcasts.context, Function.update firstVisited.pc 1 (.broadcasting secondQuote 1),
    [(5, 1), (5, 2)], 2⟩

theorem inTurn_twoBroadcasts (send : List UInt8 → Int) :
    InTurn twoBroadcasts (.advance 0 send) := by
  have hlater : ∀ fd ∈ next twoBroadcasts.context (.broadcasting firstQuote 0),
      fd ∉ later twoBroadcasts.context (.broadcasting firstQuote 0) := by decide +kernel
  have hother : ∀ other ∈ owed twoBroadcasts.context (.broadcasting secondQuote 0),
      number (.broadcasting firstQuote 0) < other.2 := by decide +kernel
  intro fd hfd
  refine ⟨hlater fd hfd, ?_⟩
  intro u hu other howed _
  by_cases hsecond : u = 1
  · subst hsecond
    exact hother other howed
  · have hidle : twoBroadcasts.pc u = .idle := by
      show Function.update (Function.update (fun _ => Pc.idle) 0 (.broadcasting firstQuote 0)) 1
        (.broadcasting secondQuote 0) u = Pc.idle
      rw [Function.update_of_ne hsecond, Function.update_of_ne hu]
    rw [hidle] at howed
    cases howed

theorem inTurn_firstVisited (send : List UInt8 → Int) :
    InTurn firstVisited (.advance 1 send) := by
  have hlater : ∀ fd ∈ next twoBroadcasts.context (.broadcasting secondQuote 0),
      fd ∉ later twoBroadcasts.context (.broadcasting secondQuote 0) := by decide +kernel
  have hother : ∀ fd ∈ next twoBroadcasts.context (.broadcasting secondQuote 0),
      ∀ other ∈ owed twoBroadcasts.context (.broadcasting firstQuote 1), other.1 ≠ fd := by
    decide +kernel
  intro fd hfd
  refine ⟨hlater fd hfd, ?_⟩
  intro u hu other howed hsame
  by_cases hfirst : u = 0
  · subst hfirst
    exact absurd hsame (hother fd hfd other howed)
  · have hidle : firstVisited.pc u = .idle := by
      show Function.update (Function.update (Function.update (fun _ => Pc.idle) 0
        (.broadcasting firstQuote 0)) 1 (.broadcasting secondQuote 0)) 0
        (.broadcasting firstQuote 1) u = Pc.idle
      rw [Function.update_of_ne hfirst, Function.update_of_ne hu, Function.update_of_ne hfirst]
    rw [hidle] at howed
    cases howed

/-- At the first of two clients the handlers go in turn; at the second the one with the
    second number would be out of turn. -/
theorem sends_ordered_in_turn_two :
    bothVisited.log = [(5, 1), (5, 2)] ∧ Ordered bothVisited ∧
      (∀ send, ¬ InTurn bothVisited (.advance 1 send)) ∧
      ∀ e s' s'', Few bothVisited e → ¬ InTurn bothVisited e → Step bothVisited e s' →
        Runs Step Few s' s'' → (∀ t, s''.pc t = .idle) → ¬ Ordered s'' := by
  have hfirst : Step twoBroadcasts (.advance 0 fun bytes => bytes.length) firstVisited :=
    step_first_slot (exists_quote_frame (hall [guestA, guestB] 2) dummyData 0) rfl rfl
  have hsecond : Step firstVisited (.advance 1 fun bytes => bytes.length) bothVisited :=
    step_first_slot (exists_quote_frame oneBroadcast.context dummyData 0) rfl rfl
  have hdrawn : Runs Step (fun s e => Few s e ∧ InTurn s e) readySenders twoBroadcasts :=
    runs_to_twoBroadcasts fun s t hlt =>
      ⟨show s.drawn + 1 < 2 ^ 64 from Nat.lt_of_lt_of_le (Nat.succ_lt_succ hlt) (by decide),
        trivial⟩
  have hsent : ∀ (s : Senders hundredSlots) t, Few s (.advance t fun bytes => bytes.length) :=
    fun _ _ => trivial
  have hrun := (hdrawn.tail ⟨hsent _ 0, inTurn_twoBroadcasts _⟩ hfirst).tail
    ⟨hsent _ 1, inTurn_firstVisited _⟩ hsecond
  obtain ⟨hordered, hbreaks⟩ := sends_ordered_in_turn fresh_readySenders hrun
  refine ⟨rfl, hordered, ?_, hbreaks⟩
  intro send hturn
  have hnext : (6 : Int) ∈ next bothVisited.context (bothVisited.pc 1) := by decide +kernel
  have howed : ((6 : Int), (1 : UInt64)) ∈ owed bothVisited.context (bothVisited.pc 0) := by
    decide +kernel
  exact absurd ((hturn 6 hnext).2 0 Nat.zero_ne_one _ howed rfl) (by decide +kernel)

/-- The one that drew the second number sends first. -/
theorem second_number_first :
    ¬ ∀ (config : ServerConfig) (start s : Senders config) (owned : Finset Int),
        Reachable joinsOnly ⟨start.context, owned⟩ → Fresh start →
        Runs Step Few start s → Ordered s := by
  intro hevery
  have hsecond := step_first_slot (s := twoBroadcasts) (t := 1)
    (exists_quote_frame oneBroadcast.context dummyData 0) rfl rfl
  have hfirst := step_first_slot (s := ⟨twoBroadcasts.context, Function.update twoBroadcasts.pc 1
      (.broadcasting secondQuote 1), [(5, 2)], 2⟩)
    (t := 0) (exists_quote_frame (hall [guestA, guestB] 2) dummyData 0) rfl rfl
  have hdrawn : Runs Step Few readySenders twoBroadcasts :=
    runs_to_twoBroadcasts fun s t hlt =>
      show s.drawn + 1 < 2 ^ 64 from Nat.lt_of_lt_of_le (Nat.succ_lt_succ hlt) (by decide)
  have hsent : ∀ (s : Senders hundredSlots) t, Few s (.advance t fun bytes => bytes.length) :=
    fun _ _ => trivial
  have hrun := (hdrawn.tail (hsent _ 1) hsecond).tail (hsent _ 0) hfirst
  have hordered := hevery hundredSlots _ _ _ reachable_two fresh_readySenders hrun
  exact absurd (show [((5 : Int), (2 : UInt64)), (5, 1)].Pairwise
    (fun a b => a.1 = b.1 → a.2 < b.2) from hordered) (by decide)

end TradeOrdering
