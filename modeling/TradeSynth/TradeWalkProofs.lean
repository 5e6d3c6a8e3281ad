import TradeSynth.TradeBindingProofs

/-!
# The broadcast as a walk — joins and departures between its visits

`broadcast_market_data` walks the slots by index and does not hold the lock. Between two
of its visits a client may join, behind the last one, or leave, and a departure moves
everybody behind it one slot to the front.

A client that is still to be visited stands, itself or as a copy that a shift has left
behind the last client, at a slot that the walk has not reached. A departure in front of
the cursor can move it to a slot that was visited before, and a join can take the slot of
its copy. While no step takes the last such place, nobody who stays is skipped
(`nobody_skipped`).
-/

namespace TradeWalk

open CheckedMemory FixedCodec TradeTypes TradeCodec TradeWire TradeRegistry TradeRun
  TradeHandlers TradeBroadcast TradeCapacity TradeRouting TradeBinding Transition

variable {config : ServerConfig} {msg : Message}

-- ── Steps between visits ─────────────────────────────────────────────────────

/-- A broadcast under way: the registry, the index of the next visit, and the calls made
    so far. -/
structure Walk (config : ServerConfig) where
  context : ServerContext config
  cursor  : Nat
  sent    : List Syscall

/-- The walk as the loop of `broadcast_market_data` begins. -/
def Walk.start (context : ServerContext config) : Walk config where
  context := { context with sequenceNum := context.sequenceNum + 1 }
  cursor := 0
  sent := []

inductive Event where
  | visit (send : List UInt8 → Int)
  | join (outcome : AcceptOutcome) (id : Block UInt8 maxClientIdLength)
  | leave (j : Nat)

/-- One iteration of the loop of `broadcast_market_data`. -/
def visit (context : ServerContext config) (msg : Message) (i : Nat)
    (send : List UInt8 → Int) : Checked (List Syscall) := do
  let client ← context.clients.read i
  notify client.socket msg send

/-- A client is accepted, and takes an id. -/
def join (context : ServerContext config) (outcome : AcceptOutcome)
    (id : Block UInt8 maxClientIdLength) : Checked (ServerContext config × List Syscall) := do
  let accepted ← acceptClient context outcome
  if accepted.1 = ErrorCode.success.code then
    assignId accepted.2.1 context.clientCount id
  else pure accepted.2

inductive Step (msg : Message) (s : Walk config) : Event → Walk config → Prop where
  | visit {send : List UInt8 → Int} {calls : List Syscall} (hnext : s.cursor < maxClients)
      (hexec : TradeWalk.visit s.context msg s.cursor send = .ok calls) :
      Step msg s (.visit send) ⟨s.context, s.cursor + 1, s.sent ++ calls⟩
  | join {outcome : AcceptOutcome} {id : Block UInt8 maxClientIdLength}
      {context' : ServerContext config} {calls : List Syscall}
      (hexec : TradeWalk.join s.context outcome id = .ok (context', calls)) :
      Step msg s (.join outcome id) ⟨context', s.cursor, s.sent⟩
  | leave {j : Nat} {context' : ServerContext config} {calls : List Syscall}
      (hexec : disconnectClient s.context (.slot j) = .ok (context', calls)) :
      Step msg s (.leave j) ⟨context', s.cursor, s.sent⟩

/-- A join changes nothing, or files a client with the accepted descriptor behind the
    others. -/
theorem join_cases {context context' : ServerContext config} {outcome : AcceptOutcome}
    {id : Block UInt8 maxClientIdLength} {calls : List Syscall}
    (h : join context outcome id = .ok (context', calls)) :
    context' = context ∨ ∃ fd address now₁ now₂ c,
      outcome = .accepted fd address now₁ now₂ ∧
      context.clientCount < config.maxClients.toNat ∧ c.socket = fd ∧
      context'.clients.cells = context.clients.cells.set context.clientCount c ∧
      context'.clientCount = context.clientCount + 1 := by
  rw [join] at h
  cases outcome with
  | failed again =>
      left
      cases again with
      | true =>
          rw [acceptClient, ok_bind,
            if_neg (show ErrorCode.timeout.code ≠ ErrorCode.success.code by decide)] at h
          cases h
          rfl
      | false =>
          rw [acceptClient, ok_bind,
            if_neg (show ErrorCode.socketAccept.code ≠ ErrorCode.success.code by decide)] at h
          cases h
          rfl
  | accepted fd address now₁ now₂ =>
      by_cases hfull : config.maxClients ≤ context.clientCount
      · left
        rw [acceptClient_full hfull, ok_bind,
          if_neg (show ErrorCode.invalidState.code ≠ ErrorCode.success.code by decide)] at h
        cases h
        rfl
      · right
        have hslot : context.clientCount < config.maxClients.toNat := by omega
        obtain ⟨context₁, haccept, hjoined⟩ :=
          acceptClient_room (show context.clientCount < config.maxClients by omega) fd address
            now₁ now₂
        obtain ⟨context₂, hassign, hnamed⟩ : ∃ context₂, assignId context₁ context.clientCount id
            = .ok (context₂, []) ∧ Named context₁ context₂ context.clientCount id :=
          assignId_slot hslot id
        rw [haccept, ok_bind, if_pos rfl, hassign] at h
        cases h
        obtain ⟨old, hold, hcells, -⟩ := hjoined.filed
        obtain ⟨filed, hfiled, hwritten⟩ := hnamed.written
        have hlen : context.clientCount < context.clients.cells.length := by
          rw [context.clients.size]
          exact hslot
        rw [hcells, List.getElem?_set_self hlen] at hfiled
        cases hfiled
        refine ⟨fd, address, now₁, now₂, { old.connect fd address now₁ now₂ with id := id },
          rfl, hslot, rfl, ?_, ?_⟩
        · rw [hwritten, hcells, List.set_set]
        · rw [hnamed.count, hjoined.count]

theorem visit_of_cell {context : ServerContext config} {i : Nat} {c : ClientConnection}
    (hc : context.clients.cells[i]? = some c) (msg : Message) (send : List UInt8 → Int) :
    visit context msg i send = notify c.socket msg send := by
  rw [visit, Block.read_eq_ok.mpr hc, ok_bind]

/-- The loop makes one visit, and then those behind it. -/
theorem broadcastLoop_visit {context : ServerContext config} {send : Nat → List UInt8 → Int}
    {i len : Nat} {calls : List Syscall}
    (h : broadcastLoop context.clients msg send i (len + 1) = .ok calls) :
    ∃ first rest, visit context msg i (send i) = .ok first ∧
      broadcastLoop context.clients msg send (i + 1) len = .ok rest ∧ calls = first ++ rest := by
  rw [broadcastLoop] at h
  obtain ⟨client, hread, h⟩ := bind_eq_ok.mp h
  obtain ⟨first, hfirst, h⟩ := bind_eq_ok.mp h
  obtain ⟨rest, hrest, h⟩ := bind_eq_ok.mp h
  cases h
  refine ⟨first, rest, ?_, hrest, rfl⟩
  rw [visit, hread, ok_bind]
  exact hfirst

/-- A walk that nobody disturbs makes the calls of the loop. -/
theorem runs_broadcastLoop {P : Walk config → Event → Prop} {context : ServerContext config}
    {send : Nat → List UInt8 → Int} (len : Nat) :
    ∀ i sent calls, i + len ≤ maxClients →
      (∀ k sent' send', P ⟨context, k, sent'⟩ (.visit send')) →
      broadcastLoop context.clients msg send i len = .ok calls →
      Runs (Step msg) P ⟨context, i, sent⟩ ⟨context, i + len, sent ++ calls⟩ := by
  induction len with
  | zero =>
      intro i sent calls _ _ h
      cases h
      rw [List.append_nil]
      exact Runs.refl _
  | succ len ih =>
      intro i sent calls hlen hP h
      obtain ⟨first, rest, hfirst, hrest, rfl⟩ := broadcastLoop_visit h
      have hvisit : Step msg ⟨context, i, sent⟩ (.visit (send i))
          ⟨context, i + 1, sent ++ first⟩ := .visit (show i < maxClients by omega) hfirst
      have hlater := ih (i + 1) (sent ++ first) rest (by omega) hP hrest
      rw [show i + 1 + len = i + (len + 1) by omega, List.append_assoc] at hlater
      exact (Runs.one (hP i sent _) hvisit).trans hlater

-- ── Who is still ahead ───────────────────────────────────────────────────────

/-- A client: its descriptor and its id. -/
structure Client where
  fd : Int
  id : List UInt8

/-- The client is connected. -/
def Stays (s : Walk config) (x : Client) : Prop :=
  ∃ c ∈ s.context.connected, c.socket = x.fd ∧ c.idString = x.id

/-- The ids of the connected clients are pairwise distinct. -/
def Distinct (s : Walk config) : Prop :=
  (s.context.connected.map ClientConnection.idString).Nodup

/-- The message has been sent to a descriptor. -/
def SentTo (msg : Message) (s : Walk config) (fd : Int) : Prop :=
  ∃ bytes result, .sent fd bytes result ∈ s.sent ∧ Encodes msg bytes

/-- The client stands at a slot that the walk will come to: itself, or, behind the
    connected clients, as a copy. -/
def AheadAt (s : Walk config) (x : Client) (p : Nat) : Prop :=
  s.cursor ≤ p ∧ p < maxClients ∧ ∃ c, s.context.clients.cells[p]? = some c ∧ c.socket = x.fd ∧
    (p < s.context.clientCount → c.idString = x.id)

def Ahead (s : Walk config) (x : Client) : Prop := ∃ p, AheadAt s x p

/-- A slot is not the only one ahead for a connected client that the message has yet to be
    sent to. -/
def Spares (msg : Message) (s : Walk config) (p : Nat) : Prop :=
  ∀ x, Stays s x → AheadAt s x p → SentTo msg s x.fd ∨ ∃ q, q ≠ p ∧ AheadAt s x q

/-- No step takes the only place ahead from a client that the message has yet to be sent
    to: not the one at the cursor, when a departure in front of it moves that slot into the
    part that has been visited; not the copy in the slot where a join is filed. -/
def Clear (msg : Message) (s : Walk config) : Event → Prop
  | .visit _ => True
  | .leave j => ∀ target i, s.context.clients.cells[j]? = some target →
      FirstMatch s.context target i → i < s.cursor → s.cursor + 1 < s.context.clientCount →
      Spares msg s s.cursor
  | .join (.failed _) _ => True
  | .join (.accepted ..) _ => Spares msg s s.context.clientCount

/-- A visit sends to the client that stands there, and changes nobody else's place. -/
theorem ahead_visit {s : Walk config} {x : Client} {f : Frame} (hm : Carries msg f)
    (hpos : 0 < x.fd) (h : SentTo msg s x.fd ∨ Ahead s x) {send : List UInt8 → Int}
    {calls : List Syscall} (hexec : visit s.context msg s.cursor send = .ok calls) :
    SentTo msg ⟨s.context, s.cursor + 1, s.sent ++ calls⟩ x.fd ∨
      Ahead ⟨s.context, s.cursor + 1, s.sent ++ calls⟩ x := by
  rcases h with ⟨bytes, result, hmem, hencodes⟩ | ⟨p, hp, hend, c, hc, hsocket, hid⟩
  · exact Or.inl ⟨bytes, result, List.mem_append_left _ hmem, hencodes⟩
  · by_cases hat : p = s.cursor
    · left
      rw [← hat, visit_of_cell hc, notify, if_pos (by rw [hsocket]; exact hpos),
        sendResponseMessage_frame hm] at hexec
      cases hexec
      refine ⟨f.bytes, send f.bytes, ?_, (encodes_iff hm _).mpr rfl⟩
      rw [← hsocket]
      exact List.mem_append_right _ List.mem_cons_self
    · exact Or.inr ⟨p, Nat.lt_of_le_of_ne hp (Ne.symm hat), hend, c, hc, hsocket, hid⟩

/-- A join takes no place ahead but the one in the slot where it is filed. -/
theorem AheadAt.join {s : Walk config} {x : Client} {p : Nat} (h : AheadAt s x p)
    (hne : p ≠ s.context.clientCount) {new : ClientConnection} {context' : ServerContext config}
    (hcells : context'.clients.cells =
      s.context.clients.cells.set s.context.clientCount new)
    (hcount : context'.clientCount = s.context.clientCount + 1) :
    AheadAt ⟨context', s.cursor, s.sent⟩ x p := by
  obtain ⟨hp, hend, c, hc, hsocket, hid⟩ := h
  refine ⟨hp, hend, c, ?_, hsocket, ?_⟩
  · show context'.clients.cells[p]? = some c
    rw [hcells, List.getElem?_set_ne (Ne.symm hne)]
    exact hc
  · intro hlt
    have hlt : p < context'.clientCount := hlt
    exact hid (by omega)

/-- A clear join leaves a connected client ahead. -/
theorem ahead_join {s : Walk config} {x : Client} (hstays : Stays s x)
    (h : SentTo msg s x.fd ∨ Ahead s x) {outcome : AcceptOutcome}
    {id : Block UInt8 maxClientIdLength} (hclear : Clear msg s (.join outcome id))
    {context' : ServerContext config} {calls : List Syscall}
    (hexec : join s.context outcome id = .ok (context', calls)) :
    SentTo msg ⟨context', s.cursor, s.sent⟩ x.fd ∨ Ahead ⟨context', s.cursor, s.sent⟩ x := by
  rcases h with hsent | ⟨p, hahead⟩
  · exact Or.inl hsent
  · rcases join_cases hexec with
      rfl | ⟨fd, address, now₁, now₂, new, rfl, -, -, hcells, hcount⟩
    · exact Or.inr ⟨p, hahead⟩
    · by_cases hat : p = s.context.clientCount
      · -- the copy is overwritten, and there is another one, or no need of one
        rcases hclear x hstays (hat ▸ hahead) with hsent | ⟨q, hne, hother⟩
        · exact Or.inl hsent
        · exact Or.inr ⟨q, hother.join hne hcells hcount⟩
      · exact Or.inr ⟨p, hahead.join hat hcells hcount⟩

/-- A departure takes no place ahead but the one at the cursor, and that only in front of
    it. -/
theorem AheadAt.leave {s : Walk config} (hids : Distinct s) {x : Client} {p i : Nat}
    (h : AheadAt s x p) {context' : ServerContext config}
    (hremoved : Removed s.context context' i) (hstays : Stays ⟨context', s.cursor, s.sent⟩ x)
    (hkept : s.cursor ≤ i ∨ s.context.clientCount ≤ s.cursor + 1 ∨ p ≠ s.cursor) :
    Ahead ⟨context', s.cursor, s.sent⟩ x := by
  obtain ⟨hp, hend, c, hc, hsocket, hid⟩ := h
  have hcount := hremoved.count
  -- the client that leaves is not the one that stays
  have hother : p < s.context.clientCount → p ≠ i := by
    intro hlt heq
    have hslot : s.context.connected[i]? = some c := by
      rw [← heq, getElem?_connected hlt, hc]
    obtain ⟨d, hd, -, hdid⟩ := hstays
    have hd : d ∈ context'.connected := hd
    rw [hremoved.connected] at hd
    obtain ⟨k, hk⟩ := List.getElem?_of_mem hd
    rw [List.getElem?_eraseIdx] at hk
    have hsame : d.idString = c.idString := hdid.trans (hid hlt).symm
    split at hk
    · have := slot_unique hids hk hslot hsame
      omega
    · have := slot_unique hids hk hslot hsame
      omega
  by_cases hmoves : i ≤ p ∧ p + 1 < s.context.clientCount
  · -- it moves one slot to the front, and not past the cursor
    have hne := hother (by omega)
    refine ⟨p - 1, show s.cursor ≤ p - 1 by omega, by omega, c, ?_, hsocket,
      fun _ => hid (by omega)⟩
    show context'.clients.cells[p - 1]? = some c
    rw [hremoved.cell, if_pos (by omega), show p - 1 + 1 = p by omega]
    exact hc
  · refine ⟨p, hp, hend, c, ?_, hsocket, ?_⟩
    · show context'.clients.cells[p]? = some c
      rw [hremoved.cell, if_neg hmoves]
      exact hc
    · intro hlt
      have hlt : p < context'.clientCount := hlt
      exact hid (by omega)

/-- A clear departure leaves a client that stays ahead. -/
theorem ahead_leave {s : Walk config} (hb : s.context.Bounded) (hids : Distinct s)
    {x : Client} (hbefore : Stays s x) (h : SentTo msg s x.fd ∨ Ahead s x) {j : Nat}
    (hclear : Clear msg s (.leave j)) {context' : ServerContext config}
    {calls : List Syscall}
    (hexec : disconnectClient s.context (.slot j) = .ok (context', calls))
    (hstays : Stays ⟨context', s.cursor, s.sent⟩ x) :
    SentTo msg ⟨context', s.cursor, s.sent⟩ x.fd ∨ Ahead ⟨context', s.cursor, s.sent⟩ x := by
  rcases h with hsent | ⟨p, hahead⟩
  · exact Or.inl hsent
  obtain ⟨target, htarget, ⟨i, hmatch, hremoved⟩ | ⟨rfl, -⟩⟩ := disconnectClient_cases hb hexec
  · by_cases hkept : s.cursor ≤ i ∨ s.context.clientCount ≤ s.cursor + 1 ∨ p ≠ s.cursor
    · exact Or.inr (hahead.leave hids hremoved hstays hkept)
    · have hat : p = s.cursor := by omega
      rcases hclear target i htarget hmatch (by omega) (by omega) x hbefore (hat ▸ hahead) with
        hsent | ⟨q, hne, hother⟩
      · exact Or.inl hsent
      · exact Or.inr (hother.leave hids hremoved hstays (Or.inr (Or.inr hne)))
  · exact Or.inr ⟨p, hahead⟩

/-- A departure that is not clear moves a client, whose only place ahead is the one at the
    cursor, to the slot in front of it, which the walk has left. -/
theorem passed_of_unclear {s : Walk config} (hb : s.context.Bounded) {j : Nat}
    (hunclear : ¬ Clear msg s (.leave j)) {context' : ServerContext config}
    {calls : List Syscall}
    (hexec : disconnectClient s.context (.slot j) = .ok (context', calls)) :
    ∃ x, Stays s x ∧ ¬ SentTo msg s x.fd ∧ (∀ q, AheadAt s x q → q = s.cursor) ∧
      0 < s.cursor ∧ ∃ c, context'.connected[s.cursor - 1]? = some c ∧ c.socket = x.fd ∧
        c.idString = x.id := by
  rw [Clear] at hunclear
  push Not at hunclear
  obtain ⟨target, i, htarget, hmatch, hfront, hbehind, hspares⟩ := hunclear
  rw [Spares] at hspares
  push Not at hspares
  obtain ⟨x, hstays, ⟨-, -, c, hc, hsocket, hid⟩, hunsent, honly⟩ := hspares
  obtain ⟨target', htarget', ⟨i', hmatch', hremoved⟩ | ⟨-, hnone⟩⟩ :=
    disconnectClient_cases hb hexec
  · rw [htarget] at htarget'
    cases htarget'
    have hsame := hmatch.unique hmatch'
    refine ⟨x, hstays, hunsent, fun q hq => ?_, by omega, c, ?_, hsocket, hid (by omega)⟩
    · by_contra hne
      exact honly q hne hq
    · rw [hremoved.connected, List.getElem?_eraseIdx, if_neg (by omega),
        show s.cursor - 1 + 1 = s.cursor by omega, getElem?_connected (by omega), hc]
  · rw [htarget] at htarget'
    cases htarget'
    obtain ⟨c, hc, hsame⟩ := hmatch.sameId
    exact absurd hsame (hnone c (List.mem_of_getElem? hc))

-- ── Whole broadcasts ─────────────────────────────────────────────────────────

/-- The client is connected, in a slot that the loop comes to. -/
def Seated (context : ServerContext config) (x : Client) : Prop :=
  ∃ p, p < maxClients ∧ ∃ c, context.connected[p]? = some c ∧ c.socket = x.fd ∧
    c.idString = x.id

/-- In an array of at most `MAX_CLIENTS` slots whoever is connected is seated. -/
theorem seated_of_stays (hconfig : config.maxClients ≤ maxClients) {s : Walk config}
    (hb : s.context.Bounded) {x : Client} (h : Stays s x) : Seated s.context x := by
  obtain ⟨c, hc, hsocket, hid⟩ := h
  obtain ⟨p, hp⟩ := List.getElem?_of_mem hc
  have hlt := (List.getElem?_eq_some_iff.mp hp).1
  rw [length_connected hb] at hlt
  have hcount : s.context.clientCount ≤ config.maxClients.toNat := hb
  exact ⟨p, by omega, c, hp, hsocket, hid⟩

/-- The runs of the broadcast in which a client stays connected. -/
def Steady (x : Client) (s : Walk config) (_ : Event) : Prop := Distinct s ∧ Stays s x

theorem bounded_step {s s' : Walk config} {e : Event} (hb : s.context.Bounded)
    (hstep : Step msg s e s') : s'.context.Bounded := by
  cases hstep with
  | visit => exact hb
  | join hexec =>
      rcases join_cases hexec with rfl | ⟨-, -, -, -, -, -, hroom, -, -, hcount⟩
      · exact hb
      · show _ ≤ _
        rw [hcount]
        exact hroom
  | leave hexec =>
      obtain ⟨-, -, ⟨i, -, hremoved⟩ | ⟨rfl, -⟩⟩ := disconnectClient_cases hb hexec
      · exact hremoved.bounded hb
      · exact hb

/-- While all steps are clear, a client that stays has been sent the message or is
    ahead. -/
theorem sent_or_ahead {f : Frame} (hm : Carries msg f) {x : Client} (hpos : 0 < x.fd)
    {start s : Walk config} (hb : start.context.Bounded) (hbegin : start.cursor = 0)
    (hseat : Seated start.context x)
    (hrun : Runs (Step msg) (fun s e => Steady x s e ∧ Clear msg s e) start s)
    (hstays : Stays s x) : SentTo msg s x.fd ∨ Ahead s x := by
  suffices hinv : s.context.Bounded ∧ (Stays s x → SentTo msg s x.fd ∨ Ahead s x) from
    hinv.2 hstays
  refine hrun.invariant
    (I := fun s => s.context.Bounded ∧ (Stays s x → SentTo msg s x.fd ∨ Ahead s x))
    ?_ ⟨hb, ?_⟩
  · rintro s e s' ⟨hb, hI⟩ ⟨⟨hids, hstays⟩, hclear⟩ hstep
    refine ⟨bounded_step hb hstep, ?_⟩
    intro hstays'
    have hplace := hI hstays
    cases hstep with
    | visit hnext hexec => exact ahead_visit hm hpos hplace hexec
    | join hexec => exact ahead_join hstays hplace hclear hexec
    | leave hexec => exact ahead_leave hb hids hstays hplace hclear hexec hstays'
  · intro _
    obtain ⟨p, hend, c, hp, hsocket, hid⟩ := hseat
    have hlt : p < start.context.clientCount := by
      rw [← length_connected hb]
      exact (List.getElem?_eq_some_iff.mp hp).1
    refine Or.inr ⟨p, by omega, hend, c, ?_, hsocket, fun _ => hid⟩
    rw [← getElem?_connected hlt, hp]

/-- **Nobody is skipped** who has a positive descriptor, begins in one of the first
    `MAX_CLIENTS` slots and stays connected throughout a broadcast, if all joins and
    departures in the meantime are clear. -/
theorem nobody_skipped {context : ServerContext config} (hb : context.Bounded)
    (marketData : MarketData) (now : Int64) {x : Client} (hpos : 0 < x.fd)
    (hseat : Seated context x) {s : Walk config}
    (hrun : Runs (Step (marketDataMessage context marketData now))
      (fun s e => Steady x s e ∧ Clear (marketDataMessage context marketData now) s e)
      (Walk.start context) s)
    (hstays : Stays s x) (hend : s.cursor = maxClients) :
    SentTo (marketDataMessage context marketData now) s x.fd := by
  obtain ⟨f, hf⟩ := exists_quote_frame context marketData now
  have hstart : (Walk.start context).context.Bounded := hb
  rcases sent_or_ahead hf hpos hstart rfl hseat hrun hstays with hsent | ⟨p, hp, hlt, -⟩
  · exact hsent
  · -- the walk has come to its end
    omega

-- ── Lost on the way ──────────────────────────────────────────────────────────

/-- The message has not been sent to a descriptor, and no slot ahead holds it. -/
def Lost (msg : Message) (s : Walk config) (fd : Int) : Prop :=
  ¬ SentTo msg s fd ∧ ∀ p c, s.cursor ≤ p → s.context.clients.cells[p]? = some c →
    c.socket ≠ fd

/-- The steps of a run in which nobody new gets a descriptor. -/
def Ungranted (fd : Int) : Event → Prop
  | .join (.accepted fd' _ _ _) _ => fd' ≠ fd
  | _ => True

theorem visit_calls {f : Frame} (hm : Carries msg f) {context : ServerContext config}
    {i : Nat} {send : List UInt8 → Int} {calls : List Syscall}
    (h : visit context msg i send = .ok calls) :
    ∃ c, context.clients.cells[i]? = some c ∧
      ∀ fd bytes result, .sent fd bytes result ∈ calls → fd = c.socket := by
  rw [visit] at h
  obtain ⟨c, hread, h⟩ := bind_eq_ok.mp h
  refine ⟨c, Block.read_eq_ok.mp hread, ?_⟩
  intro fd bytes result hmem
  obtain ⟨calls', hcalls', -, htargets⟩ := notify_frame hm c.socket send
  rw [h] at hcalls'
  cases hcalls'
  have hin : fd ∈ targets calls := List.mem_filterMap.mpr ⟨_, hmem, rfl⟩
  rw [htargets] at hin
  exact (mem_notified.mp hin).2

/-- Who is lost stays lost. -/
theorem Lost.step {f : Frame} (hm : Carries msg f) {s s' : Walk config} {e : Event} {fd : Int}
    (hb : s.context.Bounded) (h : Lost msg s fd) (he : Ungranted fd e)
    (hstep : Step msg s e s') : Lost msg s' fd := by
  obtain ⟨hunsent, hbehind⟩ := h
  cases hstep with
  | visit hnext hexec =>
      obtain ⟨c, hc, hcalls⟩ := visit_calls hm hexec
      refine ⟨?_, fun p d hp hd => hbehind p d (Nat.le_of_succ_le hp) hd⟩
      rintro ⟨bytes, result, hmem, hencodes⟩
      rcases List.mem_append.mp hmem with hmem | hmem
      · exact hunsent ⟨bytes, result, hmem, hencodes⟩
      · exact hbehind _ c (Nat.le_refl _) hc (hcalls fd bytes result hmem).symm
  | join hexec =>
      refine ⟨hunsent, ?_⟩
      rcases join_cases hexec with
        rfl | ⟨fd', address, now₁, now₂, new, rfl, -, hsocket, hcells, -⟩
      · exact hbehind
      · intro p d hp hd
        rw [hcells] at hd
        by_cases hat : s.context.clientCount = p
        · have hlt := (List.getElem?_eq_some_iff.mp hd).1
          rw [List.length_set] at hlt
          rw [hat, List.getElem?_set_self hlt] at hd
          cases hd
          rw [hsocket]
          exact he
        · rw [List.getElem?_set_ne hat] at hd
          exact hbehind p d hp hd
  | leave hexec =>
      refine ⟨hunsent, ?_⟩
      obtain ⟨-, -, ⟨i, -, hremoved⟩ | ⟨rfl, -⟩⟩ := disconnectClient_cases hb hexec
      · intro p d hp hd
        rw [hremoved.cell p] at hd
        split at hd
        · exact hbehind (p + 1) d (Nat.le_succ_of_le hp) hd
        · exact hbehind p d hp hd
      · exact hbehind

theorem lost_of_run {f : Frame} (hm : Carries msg f) {start s : Walk config} {fd : Int}
    (h : Lost msg start fd) (hb : start.context.Bounded)
    (hrun : Runs (Step msg) (fun _ e => Ungranted fd e) start s) : Lost msg s fd := by
  refine (hrun.invariant (I := fun s => s.context.Bounded ∧ Lost msg s fd) ?_ ⟨hb, h⟩).2
  rintro s e s' ⟨hb, hs⟩ he hstep
  exact ⟨bounded_step hb hstep, hs.step hm hb he hstep⟩

/-- From anywhere the walk can go on to its end undisturbed. -/
theorem runs_to_end (hsize : config.maxClients = maxClients) {f : Frame}
    (hm : Carries msg f) {P : Walk config → Event → Prop} {context : ServerContext config}
    {i : Nat} (hi : i ≤ maxClients) (sent : List Syscall)
    (hP : ∀ k sent' send', P ⟨context, k, sent'⟩ (.visit send')) :
    ∃ calls, Runs (Step msg) P ⟨context, i, sent⟩ ⟨context, maxClients, sent ++ calls⟩ := by
  have hslots : config.maxClients.toNat = maxClients := by omega
  obtain ⟨calls, hcalls, -⟩ := broadcastLoop_eq hm context.clients
    (fun _ bytes => bytes.length) (maxClients - i) i (by omega)
  refine ⟨calls, ?_⟩
  have hrun := runs_broadcastLoop (P := P) (maxClients - i) i sent calls (by omega) hP hcalls
  rw [show i + (maxClients - i) = maxClients by omega] at hrun
  exact hrun

def clientA : Client := ⟨5, guestA.idString⟩

def clientB : Client := ⟨6, guestB.idString⟩

/-- The second of two clients leaves before the first visit. -/
theorem nobody_skipped_pair :
    ∃ s : Walk hundredSlots, s.cursor = maxClients ∧
      SentTo (marketDataMessage (hall [guestA, guestB] 2) dummyData 0) s 5 := by
  obtain ⟨f, hf⟩ := exists_quote_frame (hall [guestA, guestB] 2) dummyData 0
  let rest : ServerContext hundredSlots := { hall [guestA, guestB] 1 with sequenceNum := 2 }
  have hstays : ∀ k sent, Stays ⟨rest, k, sent⟩ clientA :=
    fun _ _ => ⟨guestA, List.mem_cons_self, rfl, rfl⟩
  have hleave : Runs (Step (marketDataMessage (hall [guestA, guestB] 2) dummyData 0))
      (fun s e => Steady clientA s e ∧
        Clear (marketDataMessage (hall [guestA, guestB] 2) dummyData 0) s e)
      (Walk.start (hall [guestA, guestB] 2)) ⟨rest, 0, []⟩ :=
    Runs.one (a := .leave 1)
      ⟨⟨show (List.map _ _).Nodup by decide +kernel, guestA, List.mem_cons_self, rfl, rfl⟩,
        fun _ _ _ _ hfront => absurd hfront (Nat.not_lt_zero _)⟩
      (.leave rfl)
  obtain ⟨calls, hrest⟩ := runs_to_end rfl hf (Nat.zero_le maxClients) []
    (P := fun s e => Steady clientA s e ∧
      Clear (marketDataMessage (hall [guestA, guestB] 2) dummyData 0) s e)
    (fun k sent _ => ⟨⟨show Distinct ⟨rest, k, sent⟩ from List.nodup_singleton _,
      hstays k sent⟩, trivial⟩)
  have hb : (hall [guestA, guestB] 2).Bounded := show 2 ≤ 100 by decide
  have hseat : Seated (hall [guestA, guestB] 2) clientA :=
    seated_of_stays (s := ⟨hall [guestA, guestB] 2, 0, []⟩) (by decide) hb
      ⟨guestA, List.mem_cons_self, rfl, rfl⟩
  exact ⟨_, rfl, nobody_skipped hb dummyData 0 (by decide) hseat (hleave.trans hrest)
    (hstays _ _) rfl⟩

/-- Three clients, with the number of the broadcast taken. -/
def threeGuests : ServerContext hundredSlots :=
  { hall [guestA, guestB, guestC] 3 with sequenceNum := 2 }

/-- The first of them has left; the last slot they filled keeps its content. -/
def twoGuests : ServerContext hundredSlots :=
  { hall [guestB, guestC, guestC] 2 with sequenceNum := 2 }

theorem steady_threeGuests (k : Nat) (sent : List Syscall) (e : Event) :
    Steady clientB ⟨threeGuests, k, sent⟩ e :=
  ⟨show ([guestA, guestB, guestC].map ClientConnection.idString).Nodup by decide +kernel,
    guestB, List.mem_cons_of_mem _ List.mem_cons_self, rfl, rfl⟩

theorem steady_twoGuests (k : Nat) (sent : List Syscall) (e : Event) :
    Steady clientB ⟨twoGuests, k, sent⟩ e :=
  ⟨show ([guestB, guestC].map ClientConnection.idString).Nodup by decide +kernel,
    guestB, List.mem_cons_self, rfl, rfl⟩

/-- When only the first has been visited, the second is lost. -/
theorem lost_second {first : List Syscall} (h : targets first = notified guestA.socket) :
    Lost msg ⟨twoGuests, 1, first⟩ 6 := by
  constructor
  · rintro ⟨bytes, result, hmem, -⟩
    have hin : 6 ∈ targets first := List.mem_filterMap.mpr ⟨_, hmem, rfl⟩
    rw [h] at hin
    exact absurd (mem_notified.mp hin).2 (by decide)
  · intro p c hp hc
    have hclear : ∀ d ∈ twoGuests.clients.cells.drop 1, d.socket ≠ 6 := by decide +kernel
    refine hclear c (List.mem_of_getElem? (i := p - 1) ?_)
    rw [List.getElem?_drop, show 1 + (p - 1) = p from Nat.add_sub_cancel' hp]
    exact hc

/-- The first of three clients has been visited, and leaves; the second is now where the
    walk has been. -/
theorem second_client_skipped :
    ¬ ∀ (config : ServerConfig) (context : ServerContext config) (owned : Finset Int)
        (marketData : MarketData) (now : Int64) (x : Client) (s : Walk config),
        config.maxClients = maxClients → Reachable joinsOnly ⟨context, owned⟩ →
        0 < x.fd →
        Runs (Step (marketDataMessage context marketData now)) (Steady x)
          (Walk.start context) s →
        Stays s x → s.cursor = maxClients →
        SentTo (marketDataMessage context marketData now) s x.fd := by
  intro hevery
  obtain ⟨f, hf⟩ := exists_quote_frame (hall [guestA, guestB, guestC] 3) dummyData 0
  obtain ⟨first, hfirst, -, htargets⟩ := notify_frame hf guestA.socket
    (fun bytes => bytes.length)
  -- the first visit, and the departure of the client it was for
  have hvisit : Step (marketDataMessage (hall [guestA, guestB, guestC] 3) dummyData 0)
      ⟨threeGuests, 0, []⟩ (.visit fun bytes => bytes.length) ⟨threeGuests, 1, first⟩ := by
    refine .visit (show 0 < maxClients by decide) ?_
    rw [visit_of_cell (show threeGuests.clients.cells[0]? = some guestA from rfl)]
    exact hfirst
  have hleave : Step (marketDataMessage (hall [guestA, guestB, guestC] 3) dummyData 0)
      ⟨threeGuests, 1, first⟩ (.leave 0) ⟨twoGuests, 1, first⟩ := .leave rfl
  -- the other visits
  obtain ⟨calls, hrest⟩ := runs_to_end rfl hf (show 1 ≤ maxClients by decide) first
    (P := fun s e => Steady clientB s e ∧ Ungranted 6 e)
    (fun k sent send => ⟨steady_twoGuests k sent (.visit send), trivial⟩)
  have hrun := ((Runs.one (steady_threeGuests 0 [] _) hvisit).tail
    (steady_threeGuests 1 first _) hleave).trans (hrest.mono fun _ _ h => h.1)
  have hskipped := lost_of_run hf (lost_second htargets) (show 2 ≤ 100 by decide)
    (hrest.mono fun _ _ h => h.2)
  exact hskipped.1 (hevery hundredSlots _ _ dummyData 0 clientB _ rfl reachable_three
    (by decide) hrun (steady_twoGuests _ _ (.leave 0)).2 rfl)

end TradeWalk
