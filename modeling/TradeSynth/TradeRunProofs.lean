import Mathlib.Logic.Relation
import TradeSynth.TradeRegistryProofs

/-!
# Runs of the server — operations, their effects, and what a run preserves

A run is a sequence of operations from `initialize_server_context`: start, accept,
disconnect, stop, in any order. `Effect` says what each operation can do, once for all
later arguments, and `Reachable.invariant` packages the induction over runs. The kernel
promises one thing about a descriptor it hands out: it is not open.

Removal searches by id, and `accept_client` writes no id. In every state reached by
joins and leaves alone all ids are therefore equal, slot 0 is found, and the first
connection goes whoever has left (`disconnect_removes_iff`).
-/

namespace TradeRun

open CheckedMemory FixedCodec TradeTypes DescriptorLedger TradeRegistry

variable {config : ServerConfig}

-- ── Operations and their effects ─────────────────────────────────────────────

/-- The operations that a run of the server is made of. No function of the server
    writes an id; `assignId` stands for code that would. -/
inductive Op where
  | start (outcome : SetupOutcome)
  | accept (outcome : AcceptOutcome)
  | disconnect (j : Nat)
  | assignId (j : Nat) (id : Block UInt8 maxClientIdLength)
  | stop

/-- Write the id of a slot. -/
def assignId (context : ServerContext config) (j : Nat)
    (id : Block UInt8 maxClientIdLength) : Checked (ServerContext config × List Syscall) := do
  let client ← context.clients.read j
  let clients ← context.clients.write j { client with id := id }
  pure ({ context with clients := clients }, [])

def exec (context : ServerContext config) :
    Op → Checked (ServerContext config × List Syscall)
  | .start outcome => .ok (startListening context outcome).2
  | .accept outcome => do
      let accepted ← acceptClient context outcome
      pure accepted.2
  | .disconnect j => disconnectClient context (.slot j)
  | .assignId j id => assignId context j id
  | .stop => stopServer context

/-- The calls made on slots are made on those of connected clients. -/
def Op.Connected (context : ServerContext config) : Op → Prop
  | disconnect j => j < context.clientCount
  | assignId j _ => j < context.clientCount
  | _ => True

/-- The context after an id has been written. -/
structure Named (context context' : ServerContext config) (j : Nat)
    (id : Block UInt8 maxClientIdLength) : Prop where
  count        : context'.clientCount = context.clientCount
  written      : ∃ old, context.clients.cells[j]? = some old ∧
    context'.clients.cells = context.clients.cells.set j { old with id := id }
  serverSocket : context'.serverSocket = context.serverSocket
  state        : context'.state = context.state

theorem Named.sockets {context context' : ServerContext config} {j : Nat}
    {id : Block UInt8 maxClientIdLength} (h : Named context context' j id) :
    context'.sockets = context.sockets := by
  obtain ⟨old, hold, hcells⟩ := h.written
  have hmap : context'.clients.cells.map ClientConnection.socket =
      context.clients.cells.map ClientConnection.socket := by
    rw [hcells]
    exact map_set_same hold rfl
  rw [ServerContext.sockets, ServerContext.sockets, ServerContext.connected,
    ServerContext.connected, List.map_take, List.map_take, hmap, h.count]

/-- What an operation does to the context, with the calls it makes. -/
inductive Effect (context : ServerContext config) :
    Op → ServerContext config → List Syscall → Prop where
  | started (outcome : SetupOutcome) :
      Effect context (.start outcome) (startListening context outcome).2.1
        (setupSocket outcome).2
  | nobody (again : Bool) : Effect context (.accept (.failed again)) context []
  | refused (fd : Int) (address : SockaddrIn) (now₁ now₂ : Int64) :
      Effect context (.accept (.accepted fd address now₁ now₂)) context
        [.opened fd, .closed fd]
  | joined {context' : ServerContext config} {fd : Int} {address : SockaddrIn}
      {now₁ now₂ : Int64} (h : Joined context context' fd address now₁ now₂) :
      Effect context (.accept (.accepted fd address now₁ now₂)) context' [.opened fd]
  | left {context' : ServerContext config} {j i : Nat} {fd : Int}
      (hj : j < context.clientCount) (h : Left context context' j i fd) :
      Effect context (.disconnect j) context' [.closed fd]
  | named {context' : ServerContext config} {j : Nat} {id : Block UInt8 maxClientIdLength}
      (hj : j < context.clientCount) (h : Named context context' j id) :
      Effect context (.assignId j id) context' []
  | stopped {context' : ServerContext config} (h : Stopped context context') :
      Effect context .stop context'
        ((if 0 ≤ context.serverSocket then [.closed context.serverSocket] else [])
          ++ context.sockets.map .closed)

theorem assignId_slot {context : ServerContext config} {j : Nat}
    (hslot : j < config.maxClients.toNat) (id : Block UInt8 maxClientIdLength) :
    ∃ context', assignId context j id = .ok (context', []) ∧
      Named context context' j id := by
  obtain ⟨old, hread, hold, -⟩ := context.clients.read_of_lt hslot
  refine ⟨{ context with
      clients := ⟨context.clients.cells.set j { old with id := id },
        by rw [List.length_set, context.clients.size]⟩ }, ?_, ?_⟩
  · rw [assignId, hread, ok_bind, Block.write, if_pos hslot]
    rfl
  · exact ⟨rfl, ⟨old, hold, rfl⟩, rfl, rfl⟩

theorem startListening_calls (context : ServerContext config) (outcome : SetupOutcome) :
    (startListening context outcome).2.2 = (setupSocket outcome).2 := by
  simp only [startListening]
  split <;> rfl

theorem startListening_connected (context : ServerContext config) (outcome : SetupOutcome) :
    (startListening context outcome).2.1.clients = context.clients ∧
      (startListening context outcome).2.1.clientCount = context.clientCount := by
  simp only [startListening]
  split <;> exact ⟨rfl, rfl⟩

/-- No operation on connected clients leaves the array, and each has its effect. -/
theorem exec_effect {context : ServerContext config} (hb : context.Bounded) {op : Op}
    (hop : op.Connected context) :
    ∃ context' calls, exec context op = .ok (context', calls) ∧
      Effect context op context' calls := by
  cases op with
  | start outcome =>
      refine ⟨_, _, ?_, .started outcome⟩
      rw [exec, ← startListening_calls context outcome]
  | accept outcome =>
      cases outcome with
      | failed again =>
          refine ⟨context, [], ?_, .nobody again⟩
          cases again <;> rfl
      | accepted fd address now₁ now₂ =>
          by_cases hfull : config.maxClients ≤ context.clientCount
          · refine ⟨context, _, ?_, .refused fd address now₁ now₂⟩
            rw [exec, acceptClient_full hfull]
            rfl
          · have hroom : context.clientCount < config.maxClients := by omega
            obtain ⟨context', haccept, hjoined⟩ :=
              acceptClient_room hroom fd address now₁ now₂
            refine ⟨context', _, ?_, .joined hjoined⟩
            rw [exec, haccept]
            rfl
  | disconnect j =>
      obtain ⟨context', i, fd, hexec, hleft⟩ := disconnectClient_slot hop hb
      exact ⟨context', _, hexec, .left hop hleft⟩
  | assignId j id =>
      have hslot : j < config.maxClients.toNat := Nat.lt_of_lt_of_le hop hb
      obtain ⟨context', hexec, hnamed⟩ := assignId_slot hslot id
      exact ⟨context', _, hexec, .named hop hnamed⟩
  | stop =>
      obtain ⟨context', hexec, hstopped⟩ := stopServer_eq hb
      exact ⟨context', _, hexec, .stopped hstopped⟩

/-- The effect of an operation that was executed. -/
theorem effect_of_exec {context context' : ServerContext config} (hb : context.Bounded)
    {op : Op} (hop : op.Connected context) {calls : List Syscall}
    (h : exec context op = .ok (context', calls)) : Effect context op context' calls := by
  obtain ⟨context₁, calls₁, hexec, heffect⟩ := exec_effect hb hop
  rw [hexec] at h
  cases h
  exact heffect

theorem Effect.bounded {context context' : ServerContext config} {op : Op}
    {calls : List Syscall} (h : Effect context op context' calls) (hb : context.Bounded) :
    context'.Bounded := by
  have hmax : context.clientCount ≤ config.maxClients.toNat := hb
  show context'.clientCount ≤ config.maxClients.toNat
  cases h with
  | started outcome =>
      rw [(startListening_connected context outcome).2]
      exact hmax
  | nobody => exact hmax
  | refused => exact hmax
  | joined h => exact h.bounded
  | left hj h =>
      have hcount := h.count
      omega
  | named hj h =>
      rw [h.count]
      exact hmax
  | stopped h =>
      rw [h.count]
      exact Nat.zero_le _

-- ── Runs ─────────────────────────────────────────────────────────────────────

/-- The server together with the ledger of its descriptors. -/
structure Sys (config : ServerConfig) where
  context : ServerContext config
  owned   : Finset Int

/-- What the kernel promises of a descriptor it hands out: it is not negative and not
    open. -/
def Granted (owned : Finset Int) (fd : Int) : Prop := 0 ≤ fd ∧ fd ∉ owned

def descriptor? : SetupOutcome → Option Int
  | .noSocket => none
  | .optionFailed fd => some fd
  | .bindFailed fd => some fd
  | .listenFailed fd => some fd
  | .ready fd => some fd

/-- The kernel keeps its promise in an operation. -/
def Op.Kernel (owned : Finset Int) : Op → Prop
  | start outcome => ∀ fd, descriptor? outcome = some fd → Granted owned fd
  | accept (.accepted fd _ _ _) => Granted owned fd
  | _ => True

/-- One operation of the server, of those that `P` admits. -/
inductive Step (P : Sys config → Op → Prop) (s s' : Sys config) : Prop where
  | exec (op : Op) (calls : List Syscall) (hop : op.Connected s.context)
      (hadmitted : P s op) (hexec : TradeRun.exec s.context op = .ok (s'.context, calls))
      (hbooks : s'.owned = settle s.owned (ledger calls))

/-- A state that a run of admitted operations reaches from `initialize_server_context`. -/
def Reachable (P : Sys config → Op → Prop) (s : Sys config) : Prop :=
  ∃ outcome context, initializeServerContext config outcome = some context ∧
    Relation.ReflTransGen (Step P) ⟨context, ∅⟩ s

/-- The context as it leaves `initialize_server_context`. -/
def ServerContext.fresh (config : ServerConfig) : ServerContext config where
  serverSocket := 0
  state := .init
  sequenceNum := 1
  clients := Block.fill config.maxClients.toNat ClientConnection.empty
  clientCount := 0

theorem initialize_fresh {outcome : InitOutcome} {context : ServerContext config}
    (h : initializeServerContext config outcome = some context) :
    context = ServerContext.fresh config := by
  rw [initializeServerContext] at h
  split at h
  · exact nomatch h
  split at h
  · exact nomatch h
  split at h
  · exact nomatch h
  exact (Option.some.inj h).symm

/-- A property of the fresh server that every admitted operation keeps holds in every
    reachable state. -/
theorem Reachable.invariant {P : Sys config → Op → Prop} {I : Sys config → Prop}
    (hfresh : I ⟨ServerContext.fresh config, ∅⟩)
    (hstep : ∀ s op context' calls, I s → s.context.Bounded → P s op →
      Effect s.context op context' calls → I ⟨context', settle s.owned (ledger calls)⟩)
    {s : Sys config} (h : Reachable P s) : s.context.Bounded ∧ I s := by
  obtain ⟨outcome, context, hinit, hrun⟩ := h
  rw [initialize_fresh hinit] at hrun
  induction hrun with
  | refl => exact ⟨Nat.zero_le _, hfresh⟩
  | tail _ hlast ih =>
      obtain ⟨hb, hI⟩ := ih
      cases hlast with
      | exec op calls hop hadmitted hexec hbooks =>
          have heffect := effect_of_exec hb hop hexec
          have hnext := hstep _ op _ calls hI hb hadmitted heffect
          rw [← hbooks] at hnext
          exact ⟨heffect.bounded hb, hnext⟩

theorem Reachable.bounded {P : Sys config → Op → Prop} {s : Sys config}
    (h : Reachable P s) : s.context.Bounded :=
  (h.invariant (I := fun _ => True) trivial (fun _ _ _ _ _ _ _ _ => trivial)).1

/-- Fewer operations reach fewer states. -/
theorem Reachable.mono {P Q : Sys config → Op → Prop} (hPQ : ∀ s op, P s op → Q s op)
    {s : Sys config} (h : Reachable P s) : Reachable Q s := by
  obtain ⟨outcome, context, hinit, hrun⟩ := h
  have hsteps : ∀ s s', Step P s s' → Step Q s s' := by
    intro s s' hstep
    cases hstep with
    | exec op calls hop hadmitted hexec hbooks =>
        exact .exec op calls hop (hPQ s op hadmitted) hexec hbooks
  exact ⟨outcome, context, hinit, Relation.ReflTransGen.mono hsteps _ _ hrun⟩

/-- A reachable state, and one more step. -/
theorem Reachable.step {P : Sys config → Op → Prop} {s s' : Sys config} (h : Reachable P s)
    (hstep : Step P s s') : Reachable P s' := by
  obtain ⟨outcome, context, hinit, hrun⟩ := h
  exact ⟨outcome, context, hinit, hrun.tail hstep⟩

theorem reachable_fresh (P : Sys config → Op → Prop) :
    Reachable P ⟨ServerContext.fresh config, ∅⟩ :=
  ⟨⟨true, true, true⟩, ServerContext.fresh config, rfl, .refl⟩

-- ── The whole of start_server ────────────────────────────────────────────────

/-- The operations that only let clients in and out. -/
def joinsAndLeaves (_ : Sys config) : Op → Prop
  | .accept _ => True
  | .disconnect _ => True
  | _ => False

/-- The id of a slot that `calloc` cleared. -/
def noId : Block UInt8 maxClientIdLength := Block.fill maxClientIdLength 0

theorem idString_noId {c : ClientConnection} (h : c.id = noId) : c.idString = [] := by
  rw [ClientConnection.idString, h]
  rfl

/-- Joins and leaves write no id. -/
theorem ids_unwritten {s : Sys config} (h : Reachable joinsAndLeaves s) :
    ∀ c ∈ s.context.clients.cells, c.id = noId := by
  refine (h.invariant (I := fun s => ∀ c ∈ s.context.clients.cells, c.id = noId) ?_ ?_).2
  · intro c hc
    rw [List.eq_of_mem_replicate hc]
    rfl
  · intro s op context' calls hI _ hop heffect
    cases heffect with
    | nobody => exact hI
    | refused => exact hI
    | joined h =>
        obtain ⟨old, hold, hcells, -⟩ := h.filed
        show ∀ c ∈ context'.clients.cells, _
        rw [hcells]
        exact forall_mem_set hI (hI old (List.mem_of_getElem? hold))
    | left _ h => exact fun c hc => hI c (h.cells_subset c hc)
    | started => exact hop.elim
    | named => exact hop.elim
    | stopped => exact hop.elim

/-- Erasing the front of a list leaves what erasing position `j` leaves exactly when the
    entries up to `j` are all the same. -/
theorem eraseIdx_zero_eq_iff {α : Type} {l : List α} {j : Nat} :
    l.eraseIdx 0 = l.eraseIdx j ↔ ∀ i ≤ j, l[i]? = l[j]? := by
  constructor
  · intro heq
    have hnext : ∀ i < j, l[i]? = l[i + 1]? := by
      intro i hi
      have hget := congrArg (fun m => m[i]?) heq
      simp only [List.getElem?_eraseIdx] at hget
      rw [if_neg (Nat.not_lt_zero i), if_pos hi] at hget
      exact hget.symm
    -- the entries agree from `j` downwards
    have hdown : ∀ d ≤ j, l[j - d]? = l[j]? := by
      intro d
      induction d with
      | zero =>
          intro _
          rfl
      | succ d ih =>
          intro hd
          rw [hnext (j - (d + 1)) (by omega), show j - (d + 1) + 1 = j - d from by omega]
          exact ih (by omega)
    intro i hi
    have hback := hdown (j - i) (by omega)
    rw [show j - (j - i) = i from by omega] at hback
    exact hback
  · intro hsame
    apply List.ext_getElem?
    intro i
    rw [List.getElem?_eraseIdx, List.getElem?_eraseIdx, if_neg (Nat.not_lt_zero i)]
    by_cases hi : i < j
    · rw [if_pos hi, hsame i (by omega), hsame (i + 1) (by omega)]
    · rw [if_neg hi]

/-- After `disconnect_client` on slot `j` the connected clients are the others, in
    their order. -/
def RemovesExactly (context : ServerContext config) (j : Nat) : Prop :=
  ∃ context' calls, disconnectClient context (.slot j) = .ok (context', calls) ∧
    context'.clientCount + 1 = context.clientCount ∧
    context'.connected.map ClientConnection.endpoint =
      (context.connected.eraseIdx j).map ClientConnection.endpoint

/-- **Who is removed.** In every state reached by joins and leaves the registry drops
    its first connection, so that the leaving client is the one removed exactly when all
    connections up to its slot are the same; for slot 0 they are. -/
theorem disconnect_removes_iff {s : Sys config} (h : Reachable joinsAndLeaves s) {j : Nat}
    (hj : j < s.context.clientCount) :
    RemovesExactly s.context j ↔
      ∀ i ≤ j, (s.context.connected.map ClientConnection.endpoint)[i]? =
        (s.context.connected.map ClientConnection.endpoint)[j]? := by
  have hb := h.bounded
  have hlen := length_connected hb
  have hids : ∀ c ∈ s.context.connected, c.idString = [] :=
    fun c hc => idString_noId (ids_unwritten h c (List.mem_of_mem_take hc))
  obtain ⟨context', i, fd, hexec, hleft⟩ := disconnectClient_slot hj hb
  -- every id is empty, so slot 0 is found
  have hzero : i = 0 := by
    by_contra hne
    obtain ⟨front, hfront⟩ : ∃ c, s.context.connected[0]? = some c :=
      ⟨_, List.getElem?_eq_getElem (by omega)⟩
    obtain ⟨target, htarget⟩ : ∃ c, s.context.connected[j]? = some c :=
      ⟨_, List.getElem?_eq_getElem (by omega)⟩
    apply hleft.first 0 front target (by omega) hfront htarget
    rw [hids front (List.mem_of_getElem? hfront), hids target (List.mem_of_getElem? htarget)]
  have hconnected := hleft.connected
  rw [hzero] at hconnected
  rw [← eraseIdx_zero_eq_iff, List.eraseIdx_map, List.eraseIdx_map, ← hconnected]
  constructor
  · rintro ⟨context₁, calls, hexec₁, -, hsame⟩
    rw [hexec] at hexec₁
    cases hexec₁
    exact hsame
  · intro hsame
    exact ⟨context', _, hexec, hleft.count, hsame⟩

/-- A registry of two slots. -/
def twoSlots : ServerConfig := ⟨8080, 2, 30⟩

/-- A peer on the local host. -/
def peer (port : UInt16) : SockaddrIn := ⟨2, port, 16777343, Block.fill 8 0⟩

/-- One client has joined, on descriptor 5. -/
def oneClient : Sys twoSlots where
  context := { ServerContext.fresh twoSlots with
    clients := ⟨[ClientConnection.empty.connect 5 (peer 40001) 0 0, ClientConnection.empty], rfl⟩
    clientCount := 1 }
  owned := insert 5 ∅

/-- A second client has joined, on descriptor 6. -/
def twoClients : Sys twoSlots where
  context := { ServerContext.fresh twoSlots with
    clients := ⟨[ClientConnection.empty.connect 5 (peer 40001) 0 0,
      ClientConnection.empty.connect 6 (peer 40002) 0 0], rfl⟩
    clientCount := 2 }
  owned := insert 6 (insert 5 ∅)

theorem reachable_twoClients : Reachable joinsAndLeaves twoClients := by
  have hone : Reachable joinsAndLeaves oneClient :=
    (reachable_fresh _).step
      (.exec (.accept (.accepted 5 (peer 40001) 0 0)) [.opened 5] trivial trivial rfl rfl)
  exact hone.step
    (.exec (.accept (.accepted 6 (peer 40002) 0 0)) [.opened 6] trivial trivial rfl rfl)

theorem disconnect_removes_iff_first :
    RemovesExactly twoClients.context 0 ↔
      ∀ i ≤ 0, (twoClients.context.connected.map ClientConnection.endpoint)[i]? =
        (twoClients.context.connected.map ClientConnection.endpoint)[0]? :=
  disconnect_removes_iff reachable_twoClients (by decide)

/-- The second of two clients leaves, and the first is removed. -/
theorem disconnect_removes_other :
    ¬ ∀ (config : ServerConfig) (s : Sys config) (j : Nat), Reachable joinsAndLeaves s →
        j < s.context.clientCount → RemovesExactly s.context j := by
  intro hall
  obtain ⟨context', calls, hexec, -, hothers⟩ :=
    hall twoSlots twoClients 1 reachable_twoClients (by decide)
  have hresult : disconnectClient twoClients.context (.slot 1) =
      .ok ({ twoClients.context with
          clients := ⟨[ClientConnection.empty.connect 6 (peer 40002) 0 0,
            ClientConnection.empty.connect 6 (peer 40002) 0 0], rfl⟩
          clientCount := 1 }, [.closed 6]) := rfl
  rw [hresult] at hexec
  cases hexec
  exact absurd hothers (by decide)

end TradeRun
