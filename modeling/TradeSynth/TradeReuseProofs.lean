import TradeSynth.TradeBindingProofs

/-!
# Reuse of slots — what a new connection finds in its record

`accept_client` takes the slot behind the last connected one and stores the socket, the
peer, the two times and the back pointer. The other members stay as the slot has them,
also the counter that `handle_client` moves with every message. A departure closes the
array up from the right, and leaves in the vacated slot a copy of the last record.

* `starts_fresh_iff_clear` — a new connection starts with the record of a fresh slot as
  long as the last connected client has received nothing when another one leaves, and no
  handler counts a message in a slot behind the connected ones. After the first step
  that is not so, some later connection inherits a counter.
-/

namespace TradeReuse

open CheckedMemory TradeTypes TradeRegistry TradeRun TradeBroadcast TradeCapacity
  TradeDispatch TradeBinding TradeWire Transition

variable {config : ServerConfig}

-- ── Runs of the three functions ──────────────────────────────────────────────

/-- A connection is accepted, the handler with the pointer to slot `j` takes a message that
    decodes, or a connection is dropped. -/
inductive Event where
  | accept (outcome : AcceptOutcome)
  | receive (j : Nat) (msg : Message) (now : Int64) (outside : Outside)
  | leave (client : ClientRef)

def perform (context : ServerContext config) :
    Event → Checked (ServerContext config × List Syscall)
  | .accept outcome => do
      let accepted ← acceptClient context outcome
      pure accepted.2
  | .receive j msg now outside => handleReceived context j msg now outside
  | .leave client => disconnectClient context client

/-- One call that runs to its end. -/
def Step (context : ServerContext config) (e : Event) (context' : ServerContext config) :
    Prop :=
  ∃ calls, perform context e = .ok (context', calls)

/-- The members of a slot that belong to one connection. -/
def perConnection (c : ClientConnection) :=
  (c.id, c.active, c.thread, c.messagesSent, c.messagesReceived, c.positions, c.numPositions)

/-- The next connection that is accepted finds these members as `calloc` leaves them. -/
def StartsFresh (context : ServerContext config) : Prop :=
  ∀ outcome context' calls,
    acceptClient context outcome = .ok (ErrorCode.success.code, context', calls) →
    ∃ c, context'.clients.cells[context.clientCount]? = some c ∧
      perConnection c = perConnection ClientConnection.empty

/-- A message is counted in the record of a connected client; a client leaves while the
    last connected one has received nothing. -/
def Clear (context : ServerContext config) : Event → Prop
  | .accept _ => True
  | .receive j _ _ _ => j < context.clientCount
  | .leave client => ∀ target i c, context.deref client = .ok target →
      FirstMatch context target i →
      context.clients.cells[context.clientCount - 1]? = some c → c.messagesReceived = 0

-- ── What the functions leave in the slots ────────────────────────────────────

/-- The record but for its counter of messages. -/
def uncounted (c : ClientConnection) : ClientConnection := { c with messagesReceived := 0 }

/-- The record is the one of a fresh slot, but for the counter. -/
def Untouched (c : ClientConnection) : Prop :=
  perConnection (uncounted c) = perConnection ClientConnection.empty

theorem perConnection_iff {c : ClientConnection} (h : Untouched c) :
    perConnection c = perConnection ClientConnection.empty ↔ c.messagesReceived = 0 := by
  simp only [Untouched, perConnection, uncounted, Prod.mk.injEq] at h ⊢
  obtain ⟨hid, hactive, hthread, hsent, -, hpositions, hnum⟩ := h
  constructor
  · rintro ⟨-, -, -, -, hcount, -, -⟩
    exact hcount
  · intro hcount
    exact ⟨hid, hactive, hthread, hsent, hcount, hpositions, hnum⟩

/-- What every call keeps: the count is within the array, and nothing but the counters of
    messages has been written into the records. -/
structure Sparse (context : ServerContext config) : Prop where
  bounded   : context.Bounded
  untouched : ∀ c ∈ context.clients.cells, Untouched c

/-- The counters of the slots behind the connected ones. -/
def BlankBehind (context : ServerContext config) : Prop :=
  ∀ k c, context.clientCount ≤ k → context.clients.cells[k]? = some c → c.messagesReceived = 0

/-- An accepted connection is filed behind the others; every other outcome changes
    nothing. -/
theorem acceptClient_cases {context context' : ServerContext config}
    {outcome : AcceptOutcome} {code : Int} {calls : List Syscall}
    (h : acceptClient context outcome = .ok (code, context', calls)) :
    (context' = context ∧ code ≠ ErrorCode.success.code) ∨
      ∃ fd address now₁ now₂, Joined context context' fd address now₁ now₂ := by
  cases outcome with
  | failed again =>
      cases again with
      | true =>
          cases h
          exact Or.inl ⟨rfl, by decide⟩
      | false =>
          cases h
          exact Or.inl ⟨rfl, by decide⟩
  | accepted fd address now₁ now₂ =>
      by_cases hfull : config.maxClients ≤ context.clientCount
      · rw [acceptClient_full hfull] at h
        cases h
        exact Or.inl ⟨rfl, by decide⟩
      · obtain ⟨joined, hexec, hjoined⟩ :=
          acceptClient_room (Int.not_le.mp hfull) fd address now₁ now₂
        rw [hexec] at h
        cases h
        exact Or.inr ⟨fd, address, now₁, now₂, hjoined⟩

/-- What a step can do to the registry. -/
inductive Change (s : ServerContext config) : Event → ServerContext config → Prop where
  | refused {outcome : AcceptOutcome} : Change s (.accept outcome) s
  | joined {s' : ServerContext config} {outcome : AcceptOutcome} {fd : Int}
      {address : SockaddrIn} {now₁ now₂ : Int64}
      (hjoined : Joined s s' fd address now₁ now₂) : Change s (.accept outcome) s'
  | counted {s' : ServerContext config} {j : Nat} {msg : Message} {now : Int64}
      {outside : Outside} {old : ClientConnection} (hold : s.clients.cells[j]? = some old)
      (hcells : s'.clients.cells = s.clients.cells.set j (TradeBinding.counted old now))
      (hcount : s'.clientCount = s.clientCount) : Change s (.receive j msg now outside) s'
  | removed {s' : ServerContext config} {client : ClientRef} {target : ClientConnection}
      {i : Nat} (htarget : s.deref client = .ok target) (hmatch : FirstMatch s target i)
      (hremoved : Removed s s' i) : Change s (.leave client) s'
  | unknown {client : ClientRef} {target : ClientConnection}
      (htarget : s.deref client = .ok target)
      (hnone : ∀ c ∈ s.connected, c.idString ≠ target.idString) : Change s (.leave client) s

theorem change_of_step {s s' : ServerContext config} {e : Event} (hb : s.Bounded)
    (h : Step s e s') : Change s e s' := by
  obtain ⟨calls, hexec⟩ := h
  cases e with
  | accept outcome =>
      obtain ⟨⟨code, result⟩, hresult, hexec⟩ := bind_eq_ok.mp hexec
      cases hexec
      rcases acceptClient_cases hresult with ⟨rfl, -⟩ | ⟨fd, address, now₁, now₂, hjoined⟩
      · exact .refused
      · exact .joined hjoined
  | receive j msg now outside =>
      obtain ⟨old, hold, hcells, hcount⟩ := handleReceived_slot hexec
      exact .counted hold hcells hcount
  | leave client =>
      obtain ⟨target, htarget, ⟨i, hmatch, hremoved⟩ | ⟨rfl, hnone⟩⟩ :=
        disconnectClient_ref hb hexec
      · exact .removed htarget hmatch hremoved
      · exact .unknown htarget hnone

/-- Every step keeps the records as they are but for the counters. -/
theorem Sparse.step {s s' : ServerContext config} {e : Event} (h : Sparse s)
    (hstep : Step s e s') : Sparse s' := by
  cases change_of_step h.bounded hstep with
  | refused => exact h
  | joined hjoined =>
      obtain ⟨old, hold, hcells, -⟩ := hjoined.filed
      refine ⟨hjoined.bounded, ?_⟩
      rw [hcells]
      exact forall_mem_set h.untouched (h.untouched old (List.mem_of_getElem? hold))
  | @counted _ _ _ _ _ old hold hcells hcount =>
      refine ⟨?_, ?_⟩
      · show s'.clientCount ≤ _
        rw [hcount]
        exact h.bounded
      · rw [hcells]
        exact forall_mem_set h.untouched (h.untouched old (List.mem_of_getElem? hold))
  | removed _ _ hremoved =>
      exact ⟨hremoved.bounded h.bounded,
        fun c hc => h.untouched c (hremoved.cells_subset c hc)⟩
  | unknown => exact h

/-- A clear step keeps the counters behind the connected clients at zero. -/
theorem BlankBehind.step {s s' : ServerContext config} {e : Event} (hs : Sparse s)
    (h : BlankBehind s) (hclear : Clear s e) (hstep : Step s e s') : BlankBehind s' := by
  cases change_of_step hs.bounded hstep with
  | refused => exact h
  | joined hjoined =>
      obtain ⟨old, -, hcells, -⟩ := hjoined.filed
      intro k c hk hc
      rw [hjoined.count] at hk
      rw [hcells, List.getElem?_set_ne (by omega)] at hc
      exact h k c (by omega) hc
  | @counted _ j _ _ _ old _ hcells hcount =>
      have hj : j < s.clientCount := hclear
      intro k c hk hc
      rw [hcount] at hk
      rw [hcells, List.getElem?_set_ne (by omega)] at hc
      exact h k c hk hc
  | @removed _ _ target i htarget hmatch hremoved =>
      have hcount := hremoved.count
      intro k c hk hc
      rw [hremoved.cell k, if_neg (by omega)] at hc
      -- the slot that the departure vacates is the one of the last connected client
      by_cases hlast : k = s.clientCount - 1
      · rw [hlast] at hc
        exact hclear target i c htarget hmatch hc
      · exact h k c (by omega) hc
  | unknown => exact h

-- ── What a new connection finds ──────────────────────────────────────────────

theorem startsFresh_of_blank {s : ServerContext config} (hs : Sparse s) (h : BlankBehind s) :
    StartsFresh s := by
  intro outcome s' calls hexec
  rcases acceptClient_cases hexec with ⟨-, hcode⟩ | ⟨fd, address, now₁, now₂, hjoined⟩
  · exact absurd rfl hcode
  · obtain ⟨old, hold, hcells, -⟩ := hjoined.filed
    have hblank := h _ old (Nat.le_refl _) hold
    have hfresh := (perConnection_iff (hs.untouched old (List.mem_of_getElem? hold))).mpr hblank
    refine ⟨old.connect fd address now₁ now₂, ?_, hfresh⟩
    rw [hcells]
    exact List.getElem?_set_self (List.getElem?_eq_some_iff.mp hold).1

/-- The regime of a server that only accepts connections. -/
def onlyAccepts (_ : ServerContext config) (e : Event) : Prop := ∃ outcome, e = .accept outcome

/-- A counter behind the connected clients is inherited by the connection that comes to
    stand in its slot. -/
theorem inherited_counter {k : Nat} {c : ClientConnection} (hc : c.messagesReceived ≠ 0) :
    ∀ (d : Nat) (s : ServerContext config), k = s.clientCount + d → Sparse s →
      s.clients.cells[k]? = some c →
      ∃ s', Runs Step onlyAccepts s s' ∧ ¬ StartsFresh s' := by
  intro d
  induction d with
  | zero =>
      intro s hk hs hcell
      refine ⟨s, Runs.refl s, ?_⟩
      intro hfresh
      have hlt := (List.getElem?_eq_some_iff.mp hcell).1
      rw [s.clients.size] at hlt
      obtain ⟨s', hexec, hjoined⟩ :=
        acceptClient_room (show (s.clientCount : Int) < config.maxClients by omega) 0
          ClientConnection.empty.address 0 0
      obtain ⟨c', hc', hblank⟩ := hfresh _ _ _ hexec
      obtain ⟨old, hold, hcells, -⟩ := hjoined.filed
      rw [hcells, List.getElem?_set_self (List.getElem?_eq_some_iff.mp hold).1] at hc'
      rw [← Nat.add_zero s.clientCount, ← hk, hcell] at hold
      cases hold
      cases hc'
      have huntouched := hs.untouched c (List.mem_of_getElem? hcell)
      exact hc ((perConnection_iff huntouched).mp hblank)
  | succ d ih =>
      intro s hk hs hcell
      have hlt := (List.getElem?_eq_some_iff.mp hcell).1
      rw [s.clients.size] at hlt
      obtain ⟨s', hexec, hjoined⟩ :=
        acceptClient_room (show (s.clientCount : Int) < config.maxClients by omega) 0
          ClientConnection.empty.address 0 0
      obtain ⟨old, -, hcells, -⟩ := hjoined.filed
      have hcount := hjoined.count
      have hstep : Step s (.accept (.accepted 0 ClientConnection.empty.address 0 0)) s' :=
        ⟨[.opened 0], by rw [perform, hexec]; rfl⟩
      have hcell' : s'.clients.cells[k]? = some c := by
        rw [hcells, List.getElem?_set_ne (by omega)]
        exact hcell
      obtain ⟨s'', hrun, hnot⟩ := ih s' (by omega) (hs.step hstep) hcell'
      exact ⟨s'', (Runs.one ⟨_, rfl⟩ hstep).trans hrun, hnot⟩

/-- A step that is not clear leaves a counter behind the connected clients. -/
theorem counter_of_unclear {s s' : ServerContext config} {e : Event} (hs : Sparse s)
    (h : BlankBehind s) (hunclear : ¬ Clear s e) (hstep : Step s e s') :
    ∃ k c, s'.clientCount ≤ k ∧ s'.clients.cells[k]? = some c ∧ c.messagesReceived ≠ 0 := by
  cases change_of_step hs.bounded hstep with
  | refused => exact absurd trivial hunclear
  | joined => exact absurd trivial hunclear
  | @counted _ j _ now _ old hold hcells hcount =>
      have hj : s.clientCount ≤ j := Nat.le_of_not_lt hunclear
      refine ⟨j, TradeBinding.counted old now, by omega, ?_, ?_⟩
      · rw [hcells]
        exact List.getElem?_set_self (List.getElem?_eq_some_iff.mp hold).1
      · show old.messagesReceived + 1 ≠ 0
        rw [h j old hj hold]
        decide
  | removed _ _ hremoved =>
      rw [Clear] at hunclear
      push Not at hunclear
      obtain ⟨-, -, c, -, -, hc, hne⟩ := hunclear
      have hcount := hremoved.count
      refine ⟨s.clientCount - 1, c, by omega, ?_, hne⟩
      rw [hremoved.cell, if_neg (by omega)]
      exact hc
  | @unknown _ target htarget hnone =>
      refine absurd ?_ hunclear
      intro target' i c htarget' hmatch _
      rw [htarget] at htarget'
      cases htarget'
      obtain ⟨d, hd, hsame⟩ := hmatch.sameId
      exact absurd hsame (hnone d (List.mem_of_getElem? hd))

/-- The context of a server that listens, or has failed to: nobody has joined yet. -/
theorem startListening_blank {initial : ServerContext config} {outcome : InitOutcome}
    (hinit : initializeServerContext config outcome = some initial) (setup : SetupOutcome) :
    Sparse (startListening initial setup).2.1 ∧
      BlankBehind (startListening initial setup).2.1 := by
  have hregistry : SameRegistry (ServerContext.fresh config)
      (startListening initial setup).2.1 := by
    rw [initialize_fresh hinit, startListening]
    split
    · exact ⟨rfl, rfl⟩
    · exact ⟨rfl, rfl⟩
  obtain ⟨hclients, hcount⟩ := hregistry
  have hempty : ∀ c ∈ (startListening initial setup).2.1.clients.cells,
      c = ClientConnection.empty := by
    intro c hc
    rw [hclients] at hc
    exact List.eq_of_mem_replicate hc
  refine ⟨⟨?_, ?_⟩, ?_⟩
  · show (startListening initial setup).2.1.clientCount ≤ _
    rw [hcount]
    exact Nat.zero_le _
  · intro c hc
    rw [hempty c hc]
    rfl
  · intro k c _ hc
    rw [hempty c (List.mem_of_getElem? hc)]
    rfl

/-- **Fresh records.** However a server runs by clear steps: the next connection starts
    with the record of a fresh slot. After one more step that is clear it still does; and
    after one that is not, connections can join until one of them does not. -/
theorem starts_fresh_iff_clear {outcome : InitOutcome} {initial s : ServerContext config}
    (hinit : initializeServerContext config outcome = some initial) (setup : SetupOutcome)
    (hrun : Runs Step Clear (startListening initial setup).2.1 s) :
    StartsFresh s ∧ ∀ e s', Step s e s' →
      (Clear s e → StartsFresh s') ∧
      (¬ Clear s e → ∃ s'', Runs Step onlyAccepts s' s'' ∧ ¬ StartsFresh s'') := by
  obtain ⟨hs, hblank⟩ : Sparse s ∧ BlankBehind s := by
    refine hrun.invariant (I := fun s => Sparse s ∧ BlankBehind s) ?_
      (startListening_blank hinit setup)
    rintro t e t' ⟨ht, hblank⟩ hclear hstep
    exact ⟨ht.step hstep, hblank.step ht hclear hstep⟩
  refine ⟨startsFresh_of_blank hs hblank, ?_⟩
  intro e s' hstep
  constructor
  · intro hclear
    exact startsFresh_of_blank (hs.step hstep) (hblank.step hs hclear hstep)
  · intro hunclear
    obtain ⟨k, c, hk, hcell, hne⟩ := counter_of_unclear hs hblank hunclear hstep
    exact inherited_counter hne (k - s'.clientCount) s' (by omega) (hs.step hstep) hcell

/-- A registry of two slots, of which the first holds the record of a visitor. -/
def visited (received : UInt64) (clientCount : Nat) : ServerContext twoSlots where
  serverSocket := 3
  state := .running
  sequenceNum := 1
  clients := ⟨[{ ClientConnection.empty.connect 5 (peer 40001) 0 0 with
    messagesReceived := received }, ClientConnection.empty], rfl⟩
  clientCount := clientCount

/-- The visitor joins. -/
theorem visitor_joins :
    Step (startListening (ServerContext.fresh twoSlots) (.ready 3)).2.1
      (.accept (.accepted 5 (peer 40001) 0 0)) (visited 0 1) :=
  ⟨[.opened 5], rfl⟩

theorem starts_fresh_iff_clear_visitor :
    StartsFresh (visited 0 1) ∧ ∀ e s', Step (visited 0 1) e s' →
      (Clear (visited 0 1) e → StartsFresh s') ∧
      (¬ Clear (visited 0 1) e → ∃ s'', Runs Step onlyAccepts s' s'' ∧ ¬ StartsFresh s'') :=
  starts_fresh_iff_clear
    (show initializeServerContext twoSlots ⟨true, true, true⟩ = some _ from rfl) (.ready 3)
    (Runs.one (a := .accept (.accepted 5 (peer 40001) 0 0)) trivial visitor_joins)

/-- The visitor sends an order and leaves; the next client has already received one. -/
theorem counter_inherited :
    ¬ ∀ (config : ServerConfig) (outcome : InitOutcome) (initial s : ServerContext config)
        (setup : SetupOutcome), initializeServerContext config outcome = some initial →
        Runs Step anyStep (startListening initial setup).2.1 s → StartsFresh s := by
  intro hall
  have hreceive : Step (visited 0 1) (.receive 0 (blank (.known .orderNew)) 0 still)
      (visited 1 1) := ⟨[], rfl⟩
  have hleave : Step (visited 1 1) (.leave (.slot 0)) (visited 1 0) := ⟨[.closed 5], rfl⟩
  have hfresh := hall twoSlots ⟨true, true, true⟩ _ (visited 1 0) (.ready 3) rfl
    (((Runs.one trivial visitor_joins).tail trivial hreceive).tail trivial hleave)
  obtain ⟨c, hc, hsame⟩ := hfresh (.accepted 6 (peer 40002) 0 0) _ [.opened 6] rfl
  have hcounter := congrArg (fun r => r.2.2.2.2.1) hsame
  cases hc
  exact absurd hcounter (by decide)

end TradeReuse
