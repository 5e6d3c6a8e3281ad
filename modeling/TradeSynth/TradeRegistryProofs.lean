import Mathlib.Data.List.InsertIdx
import TradeSynth.DescriptorLedgerProofs
import TradeSynth.TradeTypesProofs

/-!
# The client registry — an array, a count, and the operations that move them

The server context and the operations of `server_core.c` and `server_network.c` on it.
The array of clients has exactly `config.max_clients` slots, and the first
`client_count` of them are the connected clients: `ServerContext.connected` is that
list, the abstract content of the registry. Each operation returns the system calls it
makes, so that what it does to descriptors can be read off.

One specification lemma for each operation says what happens to `connected`, and what
stays behind in the slots outside it.
-/

namespace TradeRegistry

open CheckedMemory FixedCodec TradeTypes DescriptorLedger

-- ── System calls ─────────────────────────────────────────────────────────────

/-- A call to the kernel that concerns a descriptor, with its outcome. -/
inductive Syscall where
  /-- `socket` or `accept` returned this descriptor -/
  | opened (fd : Int)
  /-- `close` was called on this descriptor -/
  | closed (fd : Int)
  /-- `send` was asked for these bytes, and returned this number -/
  | sent (fd : Int) (bytes : List UInt8) (result : Int)
deriving DecidableEq

def Syscall.entry : Syscall → Option (Entry Int)
  | opened fd => some (.acquire fd)
  | closed fd => some (.release fd)
  | sent _ _ _ => none

/-- The lines of the ledger that a list of calls makes. -/
def ledger (calls : List Syscall) : List (Entry Int) := calls.filterMap Syscall.entry

-- ── The server context ───────────────────────────────────────────────────────

structure SockaddrIn where
  family : UInt16
  port   : UInt16
  addr   : UInt32
  zero   : Block UInt8 8
deriving DecidableEq

/-- A slot of the registry. Pointers are addresses; of the back pointer only whether it
    is set is kept. -/
structure ClientConnection where
  socket           : Int
  address          : SockaddrIn
  id               : Block UInt8 maxClientIdLength
  active           : Int32
  thread           : UInt64
  context          : Bool
  connectTime      : Int64
  lastHeartbeat    : Int64
  messagesSent     : UInt64
  messagesReceived : UInt64
  positions        : UInt64
  numPositions     : UInt32
deriving DecidableEq

namespace ClientConnection

/-- A slot as `calloc` leaves it. -/
def empty : ClientConnection :=
  ⟨0, ⟨0, 0, 0, Block.fill 8 0⟩, Block.fill maxClientIdLength 0, 0, 0, false, 0, 0, 0, 0, 0, 0⟩

/-- The string that `strcmp` sees at `id`; an id without a NUL runs into the members
    behind it. -/
def idString (c : ClientConnection) : List UInt8 :=
  cString (c.id.cells ++ Codec.i32.encode c.active ++ Codec.u64.encode c.thread)

/-- What identifies a connection: its descriptor and its peer. -/
def endpoint (c : ClientConnection) : Int × SockaddrIn := (c.socket, c.address)

/-- The assignments of `accept_client` to a slot; the other members stay. -/
def connect (c : ClientConnection) (fd : Int) (address : SockaddrIn) (now₁ now₂ : Int64) :
    ClientConnection :=
  { c with socket := fd, address := address, connectTime := now₁, lastHeartbeat := now₂,
           context := true }

end ClientConnection

inductive ServerState where
  | init
  | starting
  | running
  | stopping
  | stopped
  | error
deriving DecidableEq, Repr

structure ServerConfig where
  port          : Int
  maxClients    : Int
  socketTimeout : Int
deriving DecidableEq

def validateServerConfig (config : ServerConfig) : Int :=
  if config.port ≤ 0 ∨ 65535 < config.port then 0
  else if config.maxClients ≤ 0 ∨ maxClients < config.maxClients then 0
  else if config.socketTimeout < 0 then 0
  else 1

/-- The server context under a configuration. The clients array has as many slots as
    were allocated for it. -/
structure ServerContext (config : ServerConfig) where
  serverSocket : Int
  state        : ServerState
  sequenceNum  : UInt64
  clients      : Block ClientConnection config.maxClients.toNat
  clientCount  : Nat

/-- What the allocations and the lock initialisations report. -/
structure InitOutcome where
  contextAllocated : Bool
  clientsAllocated : Bool
  locksInitialized : Bool

variable {config : ServerConfig}

def initializeServerContext (config : ServerConfig) (outcome : InitOutcome) :
    Option (ServerContext config) :=
  if !outcome.contextAllocated then none
  else if !outcome.clientsAllocated then none
  else if !outcome.locksInitialized then none
  else some
    { serverSocket := 0
      state := .init
      sequenceNum := 1
      clients := Block.fill config.maxClients.toNat ClientConnection.empty
      clientCount := 0 }

/-- The connected clients, in slot order. -/
def ServerContext.connected (context : ServerContext config) : List ClientConnection :=
  context.clients.cells.take context.clientCount

-- ── The source functions ─────────────────────────────────────────────────────

/-- How far `setup_socket` gets, with the descriptor that `socket` returned. -/
inductive SetupOutcome where
  | noSocket
  | optionFailed (fd : Int)
  | bindFailed (fd : Int)
  | listenFailed (fd : Int)
  | ready (fd : Int)
deriving DecidableEq

def setupSocket : SetupOutcome → Int × List Syscall
  | .noSocket => (ErrorCode.socketCreate.code, [])
  | .optionFailed fd => (ErrorCode.socketCreate.code, [.opened fd, .closed fd])
  | .bindFailed fd => (ErrorCode.socketBind.code, [.opened fd, .closed fd])
  | .listenFailed fd => (ErrorCode.socketListen.code, [.opened fd, .closed fd])
  | .ready fd => (fd, [.opened fd])

/-- The part of `start_server` before its loop. -/
def startListening (context : ServerContext config) (outcome : SetupOutcome) :
    Int × ServerContext config × List Syscall :=
  let result := setupSocket outcome
  if result.1 < 0 then (result.1, { context with serverSocket := result.1 }, result.2)
  else
    (ErrorCode.success.code,
      { context with serverSocket := result.1, state := .running }, result.2)

/-- What `accept` reports, with the two readings of the clock behind it. -/
inductive AcceptOutcome where
  /-- -1; `again` when `errno` is `EAGAIN` or `EWOULDBLOCK` -/
  | failed (again : Bool)
  | accepted (fd : Int) (address : SockaddrIn) (now₁ now₂ : Int64)
deriving DecidableEq

def acceptClient (context : ServerContext config) (outcome : AcceptOutcome) :
    Checked (Int × ServerContext config × List Syscall) :=
  match outcome with
  | .failed true => .ok (ErrorCode.timeout.code, context, [])
  | .failed false => .ok (ErrorCode.socketAccept.code, context, [])
  | .accepted fd address now₁ now₂ =>
      if config.maxClients ≤ context.clientCount then
        .ok (ErrorCode.invalidState.code, context, [.opened fd, .closed fd])
      else do
        let client ← context.clients.read context.clientCount
        let clients ← context.clients.write context.clientCount
          (client.connect fd address now₁ now₂)
        pure (ErrorCode.success.code,
          { context with clients := clients, clientCount := context.clientCount + 1 },
          [.opened fd])

/-- A pointer to a connection: to a slot of the registry, or to an object elsewhere. -/
inductive ClientRef where
  | slot (j : Nat)
  | detached (client : ClientConnection)

def ServerContext.deref (context : ServerContext config) :
    ClientRef → Checked ClientConnection
  | .slot j => context.clients.read j
  | .detached client => .ok client

/-- The array with slot `i` closed up; the last slot needs no `memmove`. -/
def closeUp (context : ServerContext config) (i : Nat) :
    Checked (Block ClientConnection config.maxClients.toNat) :=
  if i < context.clientCount - 1 then
    context.clients.moveRange i (i + 1) (context.clientCount - i - 1)
  else .ok context.clients

/-- The `close` comes after the shift, and reads the descriptor through the pointer. -/
def disconnectClient (context : ServerContext config) (client : ClientRef) :
    Checked (ServerContext config × List Syscall) := do
  let target ← context.deref client
  let found ← context.clients.findFrom (fun c => c.idString == target.idString) 0
    context.clientCount
  let context ← match found with
    | some i => do
        let clients ← closeUp context i
        pure { context with clients := clients, clientCount := context.clientCount - 1 }
    | none => pure context
  let client ← context.deref client
  pure (context, [.closed client.socket])

/-- Join the thread of an active client; the join returns once the thread has ended. -/
def joinClient {n : Nat} (clients : Block ClientConnection n) (i : Nat)
    (client : ClientConnection) : Checked (Block ClientConnection n) :=
  if client.active ≠ 0 then clients.write i { client with active := 0 } else .ok clients

/-- The loop of `stop_server`. -/
def stopClients {n : Nat} (clients : Block ClientConnection n) (i : Nat) :
    Nat → Checked (Block ClientConnection n × List Syscall)
  | 0 => .ok (clients, [])
  | len + 1 => do
      let client ← clients.read i
      let clients ← joinClient clients i client
      let rest ← stopClients clients (i + 1) len
      pure (rest.1, .closed client.socket :: rest.2)

def stopServer (context : ServerContext config) :
    Checked (ServerContext config × List Syscall) := do
  let listening := 0 ≤ context.serverSocket
  let loop ← stopClients context.clients 0 context.clientCount
  pure
    ({ context with
        serverSocket := if listening then -1 else context.serverSocket
        clients := loop.1
        clientCount := 0
        state := .stopped },
      (if listening then [.closed context.serverSocket] else []) ++ loop.2)

/-- The context is freed behind `stop_server`; the calls remain. -/
def cleanupServer (context : ServerContext config) : Checked (List Syscall) := do
  let stopped ← stopServer context
  pure stopped.2

-- ── What each operation does to the connected clients ────────────────────────

/-- The descriptors of the connected clients, in slot order. -/
def ServerContext.sockets (context : ServerContext config) : List Int :=
  context.connected.map ClientConnection.socket

/-- The count never passes the end of the array. -/
def ServerContext.Bounded (context : ServerContext config) : Prop :=
  context.clientCount ≤ config.maxClients.toNat

theorem length_connected {context : ServerContext config} (h : context.Bounded) :
    context.connected.length = context.clientCount := by
  rw [ServerContext.connected, List.length_take, context.clients.size]
  exact Nat.min_eq_left h

theorem getElem?_connected {context : ServerContext config} {i : Nat}
    (hi : i < context.clientCount) : context.connected[i]? = context.clients.cells[i]? :=
  List.getElem?_take_of_lt hi

/-- A full registry refuses the connection and closes its descriptor. -/
theorem acceptClient_full {context : ServerContext config}
    (h : config.maxClients ≤ context.clientCount) (fd : Int) (address : SockaddrIn)
    (now₁ now₂ : Int64) :
    acceptClient context (.accepted fd address now₁ now₂) =
      .ok (ErrorCode.invalidState.code, context, [.opened fd, .closed fd]) := by
  rw [acceptClient, if_pos h]

/-- The context after a connection has been filed in the slot behind the last one. -/
structure Joined (context context' : ServerContext config) (fd : Int) (address : SockaddrIn)
    (now₁ now₂ : Int64) : Prop where
  count        : context'.clientCount = context.clientCount + 1
  filed        : ∃ old, context.clients.cells[context.clientCount]? = some old ∧
    context'.clients.cells =
      context.clients.cells.set context.clientCount (old.connect fd address now₁ now₂) ∧
    context'.connected = context.connected ++ [old.connect fd address now₁ now₂]
  serverSocket : context'.serverSocket = context.serverSocket
  state        : context'.state = context.state
  bounded      : context'.Bounded

/-- A registry with room files the connection behind the others. -/
theorem acceptClient_room {context : ServerContext config}
    (h : context.clientCount < config.maxClients) (fd : Int) (address : SockaddrIn)
    (now₁ now₂ : Int64) :
    ∃ context', acceptClient context (.accepted fd address now₁ now₂) =
        .ok (ErrorCode.success.code, context', [.opened fd]) ∧
      Joined context context' fd address now₁ now₂ := by
  have hslot : context.clientCount < config.maxClients.toNat := by omega
  obtain ⟨old, hread, hold, -⟩ := context.clients.read_of_lt hslot
  refine ⟨{ context with
      clients := ⟨context.clients.cells.set context.clientCount
        (old.connect fd address now₁ now₂), by rw [List.length_set, context.clients.size]⟩
      clientCount := context.clientCount + 1 }, ?_, ?_⟩
  · rw [acceptClient, if_neg (by omega), hread, ok_bind, Block.write, if_pos hslot, ok_bind]
    rfl
  · exact {
      count := rfl
      filed := by
        refine ⟨old, hold, rfl, ?_⟩
        have hlen : context.clientCount < context.clients.cells.length := by
          rw [context.clients.size]
          exact hslot
        show (context.clients.cells.set context.clientCount _).take (context.clientCount + 1)
          = context.clients.cells.take context.clientCount ++ [_]
        rw [List.take_add_one, List.getElem?_set_self hlen, List.take_set_of_le (Nat.le_refl _)]
        rfl
      serverSocket := rfl
      state := rfl
      bounded := hslot }

/-- The context after `disconnect_client` on slot `j`, when the first slot with the same
    id is `i`: slot `i` is gone from the connected clients, and what is closed is the
    descriptor that now stands in slot `j`. -/
structure Left (context context' : ServerContext config) (j i : Nat) (fd : Int) : Prop where
  le           : i ≤ j
  sameId       : (context.connected[i]?).map ClientConnection.idString =
    (context.connected[j]?).map ClientConnection.idString
  first        : ∀ k c target, k < i → context.connected[k]? = some c →
    context.connected[j]? = some target → c.idString ≠ target.idString
  count        : context'.clientCount + 1 = context.clientCount
  connected    : context'.connected = context.connected.eraseIdx i
  vacated      : context'.clients.cells.drop context'.clientCount =
    context.clients.cells.drop context'.clientCount
  closed       : ∃ c, context'.clients.cells[j]? = some c ∧ c.socket = fd
  serverSocket : context'.serverSocket = context.serverSocket
  state        : context'.state = context.state

theorem Joined.sockets {context context' : ServerContext config} {fd : Int}
    {address : SockaddrIn} {now₁ now₂ : Int64}
    (h : Joined context context' fd address now₁ now₂) :
    context'.sockets = context.sockets ++ [fd] := by
  obtain ⟨old, -, -, hconnected⟩ := h.filed
  rw [ServerContext.sockets, hconnected, List.map_append]
  rfl

theorem Left.sockets {context context' : ServerContext config} {j i : Nat} {fd : Int}
    (h : Left context context' j i fd) : context'.sockets = context.sockets.eraseIdx i := by
  rw [ServerContext.sockets, h.connected, ← List.eraseIdx_map]
  rfl

/-- What stands in slot `j` after the shift is the next client, or the leaving one when
    no client follows. -/
theorem Left.closed_eq {context context' : ServerContext config} {j i : Nat} {fd : Int}
    (h : Left context context' j i fd) (hj : j < context.clientCount) :
    ∃ c, context.connected[if j + 1 < context.clientCount then j + 1 else j]? = some c ∧
      c.socket = fd := by
  obtain ⟨c, hc, hfd⟩ := h.closed
  have hcount := h.count
  have hle := h.le
  refine ⟨c, ?_, hfd⟩
  by_cases hlast : j + 1 < context.clientCount
  · rw [if_pos hlast]
    have hfront : context'.connected[j]? = some c := by
      rw [getElem?_connected (by omega), hc]
    rw [h.connected, List.getElem?_eraseIdx, if_neg (by omega)] at hfront
    exact hfront
  · rw [if_neg hlast, getElem?_connected hj]
    have hdrop := congrArg (fun l => l[0]?) h.vacated
    simp only [List.getElem?_drop] at hdrop
    rw [show context'.clientCount + 0 = j from by omega] at hdrop
    rw [← hdrop, hc]

/-- Every slot still holds what some slot held before. -/
theorem Left.cells_subset {context context' : ServerContext config} {j i : Nat} {fd : Int}
    (h : Left context context' j i fd) :
    ∀ c ∈ context'.clients.cells, c ∈ context.clients.cells := by
  intro c hc
  rw [← List.take_append_drop context'.clientCount context'.clients.cells,
    List.mem_append] at hc
  rcases hc with hfront | hback
  · have hmem : c ∈ context.connected.eraseIdx i := by
      rw [← h.connected]
      exact hfront
    exact List.mem_of_mem_take (List.mem_of_mem_eraseIdx hmem)
  · rw [h.vacated] at hback
    exact List.mem_of_mem_drop hback

/-- Closing up erases one connected client; the last of their slots keeps its content. -/
theorem closeUp_eq {context : ServerContext config} {i : Nat} (hi : i < context.clientCount)
    (hb : context.Bounded) :
    ∃ clients, closeUp context i = .ok clients ∧
      clients.cells.take (context.clientCount - 1) = context.connected.eraseIdx i ∧
      clients.cells.drop (context.clientCount - 1) =
        context.clients.cells.drop (context.clientCount - 1) := by
  rw [closeUp]
  by_cases hshift : i < context.clientCount - 1
  · rw [if_pos hshift]
    exact context.clients.moveRange_closeGap hi hb
  · have hlast : i = context.clientCount - 1 := by omega
    have hlen := length_connected hb
    refine ⟨context.clients, by rw [if_neg hshift], ?_, rfl⟩
    rw [hlast, List.eraseIdx_eq_take_drop_succ, List.drop_of_length_le (by omega),
      List.append_nil, ServerContext.connected, List.take_take, Nat.min_eq_left (by omega)]

/-- A connected client leaves. -/
theorem disconnectClient_slot {context : ServerContext config} {j : Nat}
    (hj : j < context.clientCount) (hb : context.Bounded) :
    ∃ context' i fd, disconnectClient context (.slot j) = .ok (context', [.closed fd]) ∧
      Left context context' j i fd := by
  have hmax : context.clientCount ≤ config.maxClients.toNat := hb
  obtain ⟨target, hread, htarget, -⟩ := context.clients.read_of_lt (i := j) (by omega)
  obtain ⟨i, found, hle, hfind, hfound, hsame, hfirst⟩ :=
    Block.findFrom_first (p := fun c => c.idString == target.idString) hj htarget
      (beq_self_eq_true _)
  obtain ⟨clients, hmove, hfront, hback⟩ := closeUp_eq (i := i) (by omega) hb
  obtain ⟨last, hlast, hcell, -⟩ := clients.read_of_lt (i := j) (by omega)
  have hconnected : ∀ {k c}, k ≤ j → context.clients.cells[k]? = some c →
      context.connected[k]? = some c := by
    intro k c hk hc
    rw [getElem?_connected (by omega), hc]
  refine ⟨{ context with clients := clients, clientCount := context.clientCount - 1 }, i,
    last.socket, ?_, ?_⟩
  · simp only [disconnectClient, ServerContext.deref, hread, hfind, ok_bind]
    rw [hmove, ok_bind, pure_eq_ok, ok_bind, hlast, ok_bind]
    rfl
  · exact {
      le := hle
      sameId := by
        rw [hconnected hle hfound, hconnected (Nat.le_refl j) htarget]
        exact congrArg some (beq_iff_eq.mp hsame)
      first := by
        intro k c target' hk hc ht heq
        rw [hconnected (Nat.le_refl j) htarget] at ht
        rw [getElem?_connected (by omega)] at hc
        have hno := hfirst k c hk hc
        rw [Option.some.inj ht, heq, beq_self_eq_true] at hno
        exact nomatch hno
      count := by
        show context.clientCount - 1 + 1 = context.clientCount
        omega
      connected := hfront
      vacated := hback
      closed := ⟨last, hcell, rfl⟩
      serverSocket := rfl
      state := rfl }

-- ── Stopping ─────────────────────────────────────────────────────────────────

/-- Descriptors and ids, slot by slot. -/
def tags {n : Nat} (clients : Block ClientConnection n) :
    List (Int × Block UInt8 maxClientIdLength) :=
  clients.cells.map (fun c => (c.socket, c.id))

/-- A join changes no descriptor and no id. -/
theorem joinClient_eq {n : Nat} {clients : Block ClientConnection n} {i : Nat}
    {client : ClientConnection} (hcell : clients.cells[i]? = some client) :
    ∃ joined, joinClient clients i client = .ok joined ∧ tags joined = tags clients ∧
      joined.cells.drop (i + 1) = clients.cells.drop (i + 1) := by
  have hlt := (List.getElem?_eq_some_iff.mp hcell).1
  rw [joinClient]
  by_cases hactive : client.active ≠ 0
  · refine ⟨⟨clients.cells.set i { client with active := 0 },
      by rw [List.length_set, clients.size]⟩, ?_, ?_, ?_⟩
    · rw [if_pos hactive, Block.write, if_pos (by rw [clients.size] at hlt; exact hlt)]
    · exact map_set_same hcell rfl
    · exact List.drop_set_of_lt (by omega)
  · exact ⟨clients, by rw [if_neg hactive], rfl, rfl⟩

/-- The loop closes the descriptors of the slots it visits, in order. -/
theorem stopClients_eq {n : Nat} (len : Nat) :
    ∀ (clients : Block ClientConnection n) (i : Nat), i + len ≤ n →
      ∃ clients', stopClients clients i len =
          .ok (clients', (((clients.cells.drop i).take len).map ClientConnection.socket).map
            Syscall.closed) ∧
        tags clients' = tags clients := by
  induction len with
  | zero =>
      intro clients i _
      refine ⟨clients, ?_, rfl⟩
      rw [stopClients, List.take_zero, List.map_nil, List.map_nil]
  | succ len ih =>
      intro clients i hi
      obtain ⟨client, hread, hcell, hdrop⟩ := clients.read_of_lt (i := i) (by omega)
      obtain ⟨joined, hjoin, hsame, htail⟩ := joinClient_eq hcell
      obtain ⟨clients', hrest, hkept⟩ := ih joined (i + 1) (by omega)
      refine ⟨clients', ?_, hkept.trans hsame⟩
      rw [stopClients, hread, ok_bind, hjoin, ok_bind, hrest, ok_bind, htail, hdrop,
        List.take_succ_cons]
      rfl

/-- The context after `stop_server`. -/
structure Stopped (context context' : ServerContext config) : Prop where
  count        : context'.clientCount = 0
  kept         : tags context'.clients = tags context.clients
  serverSocket : context'.serverSocket < 0
  state        : context'.state = .stopped

/-- Stopping closes the listening socket, if its field is not negative, and the
    descriptors of the connected clients. -/
theorem stopServer_eq {context : ServerContext config} (hb : context.Bounded) :
    ∃ context', stopServer context =
        .ok (context', (if 0 ≤ context.serverSocket then [.closed context.serverSocket] else [])
          ++ context.sockets.map .closed) ∧
      Stopped context context' := by
  have hmax : context.clientCount ≤ config.maxClients.toNat := hb
  obtain ⟨clients', hloop, hkept⟩ :=
    stopClients_eq context.clientCount context.clients 0 (by omega)
  refine ⟨{ context with
      serverSocket := if 0 ≤ context.serverSocket then -1 else context.serverSocket
      clients := clients'
      clientCount := 0
      state := .stopped }, ?_, ?_⟩
  · rw [stopServer, hloop, ok_bind, List.drop_zero]
    rfl
  · exact {
      count := rfl
      kept := hkept
      serverSocket := by
        show (if 0 ≤ context.serverSocket then (-1 : Int) else context.serverSocket) < 0
        split
        · omega
        · omega
      state := rfl }

end TradeRegistry
