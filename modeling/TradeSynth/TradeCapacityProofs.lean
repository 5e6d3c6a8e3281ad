import TradeSynth.TradeBroadcastProofs
import TradeSynth.TransitionProofs

/-!
# The capacity of the registry — every call, on whatever connection

`disconnect_client` may be handed any pointer to a connection: to a connected slot, to a
slot that was vacated long ago, to an object that was never registered. Its critical
section is `removeClient`; it either finds no entry of that id and changes nothing, or
closes up the first one it finds (`removeClient_cases`).

Every call of `accept_client`, `disconnect_client` and `stop_server` stays inside the
array of `config.max_clients` slots, whatever ids the slots hold, and the count never
passes that size (`capacity_invariant`).
-/

namespace TradeCapacity

open CheckedMemory FixedCodec TradeTypes TradeRegistry TradeRun TradeBroadcast Transition

variable {config : ServerConfig}

-- ── The critical section of disconnect_client ────────────────────────────────

/-- What `disconnect_client` does under the lock. -/
def removeClient (context : ServerContext config) (target : ClientConnection) :
    Checked (ServerContext config) := do
  let found ← context.clients.findFrom (fun c => c.idString == target.idString) 0
    context.clientCount
  match found with
  | some i => do
      let clients ← closeUp context i
      pure { context with clients := clients, clientCount := context.clientCount - 1 }
  | none => pure context

/-- Behind the lock the descriptor is read through the pointer again, and closed. -/
theorem disconnectClient_eq (context : ServerContext config) (client : ClientRef) :
    disconnectClient context client =
      (context.deref client >>= fun target => removeClient context target >>= fun context' =>
        context'.deref client >>= fun c => .ok (context', [.closed c.socket])) := by
  rw [disconnectClient]
  cases context.deref client with
  | error e => rfl
  | ok target =>
      simp only [ok_bind, removeClient]
      cases context.clients.findFrom (fun c => c.idString == target.idString) 0
        context.clientCount with
      | error e => rfl
      | ok found =>
          cases found with
          | none => rfl
          | some i =>
              simp only [ok_bind]
              cases closeUp context i <;> rfl

/-- Slot `i` is the first connected one with the id of the target. -/
structure FirstMatch (context : ServerContext config) (target : ClientConnection) (i : Nat) :
    Prop where
  inside : i < context.clientCount
  sameId : ∃ c, context.connected[i]? = some c ∧ c.idString = target.idString
  first  : ∀ k c, k < i → context.connected[k]? = some c → c.idString ≠ target.idString

theorem FirstMatch.unique {context : ServerContext config} {target : ClientConnection}
    {i j : Nat} (hi : FirstMatch context target i) (hj : FirstMatch context target j) :
    i = j := by
  obtain ⟨c, hc, hcid⟩ := hi.sameId
  obtain ⟨d, hd, hdid⟩ := hj.sameId
  by_contra hne
  rcases Nat.lt_or_gt_of_ne hne with hlt | hgt
  · exact hj.first i c hlt hc hcid
  · exact hi.first j d hgt hd hdid

/-- The context after connected slot `i` has been closed up. -/
structure Removed (context context' : ServerContext config) (i : Nat) : Prop where
  count        : context'.clientCount + 1 = context.clientCount
  connected    : context'.connected = context.connected.eraseIdx i
  vacated      : context'.clients.cells.drop context'.clientCount =
    context.clients.cells.drop context'.clientCount
  serverSocket : context'.serverSocket = context.serverSocket
  state        : context'.state = context.state
  sequenceNum  : context'.sequenceNum = context.sequenceNum

theorem Removed.bounded {context context' : ServerContext config} {i : Nat}
    (h : Removed context context' i) (hb : context.Bounded) : context'.Bounded := by
  have hmax : context.clientCount ≤ config.maxClients.toNat := hb
  have hcount := h.count
  show context'.clientCount ≤ config.maxClients.toNat
  omega

/-- What stands in a slot afterwards: the entry behind it, where the array was closed
    up, and elsewhere what stood there before. -/
theorem Removed.cell {context context' : ServerContext config} {i : Nat}
    (h : Removed context context' i) (k : Nat) :
    context'.clients.cells[k]? =
      if i ≤ k ∧ k + 1 < context.clientCount then context.clients.cells[k + 1]?
      else context.clients.cells[k]? := by
  have hcount := h.count
  by_cases hk : k < context'.clientCount
  · rw [← getElem?_connected hk, h.connected, List.getElem?_eraseIdx]
    by_cases hi : k < i
    · rw [if_pos hi, if_neg (by omega), getElem?_connected (by omega)]
    · rw [if_neg hi, if_pos (by omega), getElem?_connected (by omega)]
  · have hdrop := congrArg (fun l => l[k - context'.clientCount]?) h.vacated
    simp only [List.getElem?_drop] at hdrop
    rw [show context'.clientCount + (k - context'.clientCount) = k by omega] at hdrop
    rw [hdrop, if_neg (by omega)]

/-- Every slot still holds what some slot held before. -/
theorem Removed.cells_subset {context context' : ServerContext config} {i : Nat}
    (h : Removed context context' i) :
    ∀ c ∈ context'.clients.cells, c ∈ context.clients.cells := by
  intro c hc
  obtain ⟨k, hk⟩ := List.getElem?_of_mem hc
  rw [h.cell k] at hk
  split at hk
  · exact List.mem_of_getElem? hk
  · exact List.mem_of_getElem? hk

/-- The critical section removes the first match, or finds none and changes nothing. -/
theorem removeClient_cases {context : ServerContext config} (hb : context.Bounded)
    (target : ClientConnection) :
    (∃ i context', removeClient context target = .ok context' ∧
      FirstMatch context target i ∧ Removed context context' i) ∨
    (removeClient context target = .ok context ∧
      ∀ c ∈ context.connected, c.idString ≠ target.idString) := by
  have hmax : context.clientCount ≤ config.maxClients.toNat := hb
  have hlen := length_connected hb
  by_cases hany : ∃ c ∈ context.connected, c.idString = target.idString
  · obtain ⟨c, hc, hid⟩ := hany
    obtain ⟨j, hj⟩ := List.getElem?_of_mem hc
    have hlt : j < context.clientCount := by
      rw [← hlen]
      exact (List.getElem?_eq_some_iff.mp hj).1
    rw [getElem?_connected hlt] at hj
    obtain ⟨i, d, hle, hfind, hd, hsame, hfirst⟩ :=
      Block.findFrom_first (p := fun c => c.idString == target.idString) hlt hj
        (beq_iff_eq.mpr hid)
    obtain ⟨clients, hmove, hfront, hback⟩ := closeUp_eq (i := i) (by omega) hb
    refine Or.inl ⟨i,
      { context with clients := clients, clientCount := context.clientCount - 1 }, ?_, ?_, ?_⟩
    · simp only [removeClient, hfind, ok_bind, hmove]
      rfl
    · refine ⟨by omega, ⟨d, ?_, beq_iff_eq.mp hsame⟩, ?_⟩
      · rw [getElem?_connected (by omega), hd]
      · intro k e hk he heq
        rw [getElem?_connected (by omega)] at he
        have hno := hfirst k e hk he
        rw [heq, beq_self_eq_true] at hno
        cases hno
    · refine ⟨?_, hfront, hback, rfl, rfl, rfl⟩
      show context.clientCount - 1 + 1 = context.clientCount
      omega
  · have hnone : ∀ c ∈ context.connected, c.idString ≠ target.idString :=
      fun c hc heq => hany ⟨c, hc, heq⟩
    refine Or.inr ⟨?_, hnone⟩
    have hmiss : context.clients.findFrom (fun c => c.idString == target.idString) 0
        context.clientCount = .ok none := by
      refine Block.findFrom_miss (by omega) ?_
      intro j c _ hj hc
      rw [← getElem?_connected (by omega)] at hc
      exact beq_eq_false_iff_ne.mpr (hnone c (List.mem_of_getElem? hc))
    rw [removeClient, hmiss]
    rfl

-- ── Calls on the registry ────────────────────────────────────────────────────

/-- The calls that a run of the registry is made of. The ids may be anything at any
    time: `write` stands for code that stores one, in whatever slot. -/
inductive Call where
  | accept (outcome : AcceptOutcome)
  | disconnect (client : ClientRef)
  | write (j : Nat) (id : Block UInt8 maxClientIdLength)
  | stop

/-- A pointer that designates a connection: a slot of the array, or an object outside
    it. -/
def ClientRef.Valid (config : ServerConfig) : ClientRef → Prop
  | .slot j => j < config.maxClients.toNat
  | .detached _ => True

/-- The pointers of a call designate connections. -/
def Call.Valid (config : ServerConfig) : Call → Prop
  | disconnect client => ClientRef.Valid config client
  | write j _ => j < config.maxClients.toNat
  | _ => True

def invoke (context : ServerContext config) :
    Call → Checked (ServerContext config × List Syscall)
  | .accept outcome => do
      let accepted ← acceptClient context outcome
      pure accepted.2
  | .disconnect client => disconnectClient context client
  | .write j id => assignId context j id
  | .stop => stopServer context

/-- One call that runs to its end. -/
def Invokes (context : ServerContext config) (call : Call) (context' : ServerContext config) :
    Prop :=
  ∃ calls, invoke context call = .ok (context', calls)

theorem deref_valid (context : ServerContext config) {client : ClientRef}
    (h : ClientRef.Valid config client) : ∃ c, context.deref client = .ok c := by
  cases client with
  | slot j =>
      obtain ⟨c, hread, -⟩ := context.clients.read_of_lt h
      exact ⟨c, hread⟩
  | detached c => exact ⟨c, rfl⟩

/-- A disconnect through any pointer to a connection runs to its end; the count stays, or
    falls by one from a positive value. -/
theorem disconnectClient_valid {context : ServerContext config} (hb : context.Bounded)
    {client : ClientRef} (h : ClientRef.Valid config client) :
    ∃ context' calls, disconnectClient context client = .ok (context', calls) ∧
      context'.Bounded ∧ (context'.clientCount = context.clientCount ∨
        context'.clientCount + 1 = context.clientCount) := by
  obtain ⟨target, htarget⟩ := deref_valid context h
  rw [disconnectClient_eq, htarget, ok_bind]
  rcases removeClient_cases hb target with ⟨i, context', hremove, -, hremoved⟩ | ⟨hremove, -⟩
  · obtain ⟨c, hc⟩ := deref_valid context' h
    rw [hremove, ok_bind, hc, ok_bind]
    exact ⟨context', _, rfl, hremoved.bounded hb, Or.inr hremoved.count⟩
  · rw [hremove, ok_bind, htarget, ok_bind]
    exact ⟨context, _, rfl, hb, Or.inl rfl⟩

/-- Every call runs to its end inside the array, and keeps the count within it. -/
theorem invoke_valid {context : ServerContext config} (hb : context.Bounded) {call : Call}
    (h : call.Valid config) :
    ∃ context' calls, invoke context call = .ok (context', calls) ∧ context'.Bounded := by
  cases call with
  | accept outcome =>
      obtain ⟨context', calls, hexec, heffect⟩ :=
        exec_effect hb (show Op.Connected context (.accept outcome) from trivial)
      exact ⟨context', calls, hexec, heffect.bounded hb⟩
  | disconnect client =>
      obtain ⟨context', calls, hexec, hbounded, -⟩ := disconnectClient_valid hb h
      exact ⟨context', calls, hexec, hbounded⟩
  | write j id =>
      obtain ⟨context', hexec, hnamed⟩ := assignId_slot h id
      refine ⟨context', [], hexec, ?_⟩
      show context'.clientCount ≤ _
      rw [hnamed.count]
      exact hb
  | stop =>
      obtain ⟨context', hexec, hstopped⟩ := stopServer_eq hb
      refine ⟨context', _, hexec, ?_⟩
      show context'.clientCount ≤ _
      rw [hstopped.count]
      exact Nat.zero_le _

/-- Every run of calls keeps the count within the array. -/
theorem bounded_of_runs {context context' : ServerContext config}
    (h : Runs Invokes (fun _ call => call.Valid config) context context')
    (hb : context.Bounded) : context'.Bounded := by
  refine h.invariant (I := ServerContext.Bounded) ?_ hb
  rintro s call s' hs hvalid ⟨calls, hexec⟩
  obtain ⟨s'', calls', hexec', hbounded⟩ := invoke_valid hs hvalid
  rw [hexec] at hexec'
  cases hexec'
  exact hbounded

/-- **Capacity.** Under an accepted configuration, in every state that a run of calls
    reaches from the initialised server: the count is at most `max_clients`; every call
    on whatever connection stays inside the array; a disconnect never counts below
    zero; and a full registry refuses a connection, closes its descriptor and stays as
    it was. -/
theorem capacity_invariant (hconfig : validateServerConfig config = 1) {outcome : InitOutcome}
    {start context : ServerContext config}
    (hinit : initializeServerContext config outcome = some start)
    (hrun : Runs Invokes (fun _ call => call.Valid config) start context) :
    (context.clientCount : Int) ≤ config.maxClients ∧
    (∀ call : Call, call.Valid config → ∃ result, invoke context call = .ok result) ∧
    (∀ client context' calls, disconnectClient context client = .ok (context', calls) →
      context'.clientCount = context.clientCount ∨
        context'.clientCount + 1 = context.clientCount) ∧
    (config.maxClients ≤ context.clientCount → ∀ fd address now₁ now₂,
      acceptClient context (.accepted fd address now₁ now₂) =
        .ok (ErrorCode.invalidState.code, context, [.opened fd, .closed fd])) := by
  obtain ⟨hpos, -⟩ := validateServerConfig_bounds hconfig
  have hfresh := initialize_fresh hinit
  have hb : context.Bounded := by
    refine bounded_of_runs hrun ?_
    rw [hfresh]
    exact Nat.zero_le _
  refine ⟨?_, ?_, ?_, fun hfull => acceptClient_full hfull⟩
  · have hmax : context.clientCount ≤ config.maxClients.toNat := hb
    omega
  · intro call hvalid
    obtain ⟨context', calls, hexec, -⟩ := invoke_valid hb hvalid
    exact ⟨_, hexec⟩
  · intro client context' calls hexec
    have hvalid : ClientRef.Valid config client := by
      cases client with
      | detached c => trivial
      | slot j =>
          show j < config.maxClients.toNat
          by_contra hout
          rw [disconnectClient_eq, ServerContext.deref,
            context.clients.read_of_le (by omega), error_bind] at hexec
          cases hexec
    obtain ⟨context'', calls', hexec', -, hcount⟩ := disconnectClient_valid hb hvalid
    rw [hexec] at hexec'
    cases hexec'
    exact hcount

/-- One client joins a registry of two slots. -/
theorem capacity_invariant_oneClient :
    ((oneClient.context.clientCount : Int) ≤ twoSlots.maxClients ∧
    (∀ call : Call, call.Valid twoSlots → ∃ result, invoke oneClient.context call = .ok result) ∧
    (∀ client context' calls, disconnectClient oneClient.context client = .ok (context', calls) →
      context'.clientCount = oneClient.context.clientCount ∨
        context'.clientCount + 1 = oneClient.context.clientCount) ∧
    (twoSlots.maxClients ≤ oneClient.context.clientCount → ∀ fd address now₁ now₂,
      acceptClient oneClient.context (.accepted fd address now₁ now₂) =
        .ok (ErrorCode.invalidState.code, oneClient.context, [.opened fd, .closed fd]))) :=
  capacity_invariant (by decide)
    (show initializeServerContext twoSlots ⟨true, true, true⟩ = some _ from rfl)
    (Runs.one (a := .accept (.accepted 5 (peer 40001) 0 0)) trivial ⟨[.opened 5], rfl⟩)

end TradeCapacity
