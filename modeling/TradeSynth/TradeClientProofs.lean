import TradeSynth.TradeDispatchProofs
import TradeSynth.TradeSendersProofs

/-!
# The client's connection — connecting, and what a failed attempt leaves behind

`connect_to_server` has an exit behind each of its system calls, and at each of them it
has written a little more of the context. Only the exit behind the address leaves the
context as it was for sure; behind `socket` the result is in the field already, and
behind `connect` and `pthread_create` the field names a descriptor that has just been
closed (`failed_connect_iff`).
-/

namespace TradeClient

open TradeTypes

-- ── The client context ───────────────────────────────────────────────────────

/-- The client context. Of the configuration only the memory that `server_host` points
    to is kept, and of the two callbacks of the connection whether they are set. -/
structure ClientContext extends TradeSenders.ClientContext, TradeDispatch.ReceivedStats where
  connectTime    : Int64
  serverHost     : List UInt8
  onConnect      : Bool
  onDisconnect   : Bool
  receiverThread : UInt64
  running        : Int32
deriving DecidableEq

/-- The members of `stats`. -/
def ClientContext.stats (context : ClientContext) : List UInt64 × Int64 :=
  ([context.messagesSent, context.messagesReceived, context.ordersSent,
    context.tradesReceived], context.connectTime)

/-- A call to the kernel, or a callback. -/
inductive ClientCall where
  /-- `socket` returned this descriptor -/
  | opened (fd : Int)
  | shutDown (fd : Int)
  | closed (fd : Int)
  /-- `pthread_create` stored this handle -/
  | created (thread : UInt64)
  | joined (thread : UInt64)
  | onConnect
  | onDisconnect
deriving DecidableEq

/-- What the allocation and the lock initialisations report. -/
structure ClientInit where
  contextAllocated : Bool
  locksInitialized : Bool

def initializeClient (serverHost : List UInt8) (onConnect onDisconnect : Bool)
    (outcome : ClientInit) : Option ClientContext :=
  if !outcome.contextAllocated then none
  else if !outcome.locksInitialized then none
  else some
    { socket := -1
      state := .disconnected
      messagesSent := 0
      ordersSent := 0
      messagesReceived := 0
      tradesReceived := 0
      connectTime := 0
      serverHost := serverHost
      onConnect := onConnect
      onDisconnect := onDisconnect
      receiverThread := 0
      running := 1 }

-- ── Connecting ───────────────────────────────────────────────────────────────

/-- What `connect` reports on a socket that does not block. -/
inductive ConnectResult where
  | established
  /-- -1 with `errno` set to `EINPROGRESS` -/
  | inProgress
  /-- -1 with any other `errno` -/
  | refused
deriving DecidableEq

/-- The outcomes of the calls that `connect_to_server` makes. -/
structure ConnectOutcome where
  /-- the result of `inet_pton` for an address -/
  inetPton      : List UInt8 → Int
  socket        : Int
  connect       : ConnectResult
  now           : Int64
  threadCreated : Bool
  /-- what `pthread_create` leaves in the handle; on a failure that may be anything -/
  thread        : UInt64

/-- `"localhost"` -/
def localhost : List UInt8 := [108, 111, 99, 97, 108, 104, 111, 115, 116]

/-- `"127.0.0.1"` -/
def loopback : List UInt8 := [49, 50, 55, 46, 48, 46, 48, 46, 49]

/-- The address that `inet_pton` is asked for. -/
def address (serverHost : List UInt8) : List UInt8 :=
  if cString serverHost = localhost then loopback else cString serverHost

def connectToServer (context : ClientContext) (outcome : ConnectOutcome) :
    Int × ClientContext × List ClientCall :=
  if context.state = .connected then (ErrorCode.invalidState.code, context, [])
  else if outcome.inetPton (address context.serverHost) ≤ 0 then
    (ErrorCode.socketConnect.code, context, [])
  else
    let context := { context with socket := outcome.socket }
    if context.socket < 0 then (ErrorCode.socketCreate.code, context, [])
    else if outcome.connect = .refused then
      (ErrorCode.socketConnect.code, context,
        [.opened context.socket, .closed context.socket])
    else
      let context := { context with state := .connected, connectTime := outcome.now }
      let context := { context with receiverThread := outcome.thread }
      if !outcome.threadCreated then
        (ErrorCode.threadCreate.code, context,
          [.opened context.socket, .closed context.socket])
      else
        (ErrorCode.success.code, context,
          [.opened context.socket, .created outcome.thread] ++
            if context.onConnect then [.onConnect] else [])

-- ── Disconnecting ────────────────────────────────────────────────────────────

/-- What a receiver thread does behind its loop. -/
def receiverExit (context : ClientContext) : ClientContext × List ClientCall :=
  ({ context with state := .disconnected },
    if context.onDisconnect then [.onDisconnect] else [])

/-- The part of `disconnect_from_server` up to the end of its first critical section. -/
def dropSocket (context : ClientContext) : ClientContext × List ClientCall :=
  let context := { context with running := 0 }
  if 0 ≤ context.socket then
    ({ context with socket := -1 }, [.shutDown context.socket, .closed context.socket])
  else (context, [])

def joinReceiver (context : ClientContext) : ClientContext × List ClientCall :=
  if context.receiverThread ≠ 0 then
    ({ context with receiverThread := 0 }, [.joined context.receiverThread])
  else (context, [])

/-- `receiving` tells whether a receiver thread is in its loop. It leaves the loop when it
    sees the flag or the shut socket, and `pthread_join` waits for that. -/
def disconnectFromServer (context : ClientContext) (receiving : Bool) :
    ClientContext × List ClientCall :=
  let dropped := dropSocket context
  let left := if receiving then receiverExit dropped.1 else (dropped.1, [])
  let joined := joinReceiver left.1
  ({ joined.1 with state := .disconnected }, dropped.2 ++ left.2 ++ joined.2)

/-- What is left of the context afterwards is cleared and freed. -/
def cleanupClient (context : ClientContext) (receiving : Bool) : List ClientCall :=
  (disconnectFromServer context receiving).2

theorem joinReceiver_frame (context : ClientContext) :
    (joinReceiver context).1.running = context.running ∧
      (joinReceiver context).1.socket = context.socket := by
  rw [joinReceiver]
  split
  · exact ⟨rfl, rfl⟩
  · exact ⟨rfl, rfl⟩

/-- A disconnect clears the flag, and leaves no descriptor in the field. -/
theorem disconnectFromServer_frame (context : ClientContext) (receiving : Bool) :
    (disconnectFromServer context receiving).1.running = 0 ∧
      (disconnectFromServer context receiving).1.socket < 0 := by
  have hdrop : (dropSocket context).1.running = 0 ∧ (dropSocket context).1.socket < 0 := by
    rw [dropSocket]
    split
    · exact ⟨rfl, show (-1 : Int) < 0 by decide⟩
    · next hsocket => exact ⟨rfl, Int.not_le.mp hsocket⟩
  rw [disconnectFromServer]
  cases receiving with
  | false =>
      dsimp only
      rw [(joinReceiver_frame _).1, (joinReceiver_frame _).2]
      exact hdrop
  | true =>
      dsimp only
      rw [(joinReceiver_frame _).1, (joinReceiver_frame _).2]
      exact hdrop

-- ── The exits of connect_to_server ───────────────────────────────────────────

/-- The call comes as far as `socket`. -/
structure Reaches (context : ClientContext) (outcome : ConnectOutcome) : Prop where
  state   : context.state ≠ .connected
  address : 0 < outcome.inetPton (address context.serverHost)

/-- The context once the result of `socket` is stored. -/
def withSocket (context : ClientContext) (outcome : ConnectOutcome) : ClientContext :=
  { context with socket := outcome.socket }

/-- The context behind `pthread_create`. -/
def withThread (context : ClientContext) (outcome : ConnectOutcome) : ClientContext :=
  { withSocket context outcome with
    state := .connected
    connectTime := outcome.now
    receiverThread := outcome.thread }

/-- The exits of `connect_to_server`: result, context and calls. -/
inductive Exit (context : ClientContext) (outcome : ConnectOutcome) :
    Int × ClientContext × List ClientCall → Prop where
  | connected (hstate : context.state = .connected) :
      Exit context outcome (ErrorCode.invalidState.code, context, [])
  | address (hstate : context.state ≠ .connected)
      (haddress : outcome.inetPton (address context.serverHost) ≤ 0) :
      Exit context outcome (ErrorCode.socketConnect.code, context, [])
  | noSocket (hreach : Reaches context outcome) (hsocket : outcome.socket < 0) :
      Exit context outcome (ErrorCode.socketCreate.code, withSocket context outcome, [])
  | refused (hreach : Reaches context outcome) (hsocket : 0 ≤ outcome.socket)
      (hconnect : outcome.connect = .refused) :
      Exit context outcome (ErrorCode.socketConnect.code, withSocket context outcome,
        [.opened outcome.socket, .closed outcome.socket])
  | noThread (hreach : Reaches context outcome) (hsocket : 0 ≤ outcome.socket)
      (hconnect : outcome.connect ≠ .refused) (hthread : outcome.threadCreated = false) :
      Exit context outcome (ErrorCode.threadCreate.code, withThread context outcome,
        [.opened outcome.socket, .closed outcome.socket])
  | success (hreach : Reaches context outcome) (hsocket : 0 ≤ outcome.socket)
      (hconnect : outcome.connect ≠ .refused) (hthread : outcome.threadCreated = true) :
      Exit context outcome (ErrorCode.success.code, withThread context outcome,
        [.opened outcome.socket, .created outcome.thread] ++
          if context.onConnect then [.onConnect] else [])

theorem connectToServer_exit (context : ClientContext) (outcome : ConnectOutcome) :
    Exit context outcome (connectToServer context outcome) := by
  rw [connectToServer]
  by_cases hstate : context.state = .connected
  · rw [if_pos hstate]
    exact .connected hstate
  rw [if_neg hstate]
  by_cases haddress : outcome.inetPton (address context.serverHost) ≤ 0
  · rw [if_pos haddress]
    exact .address hstate haddress
  rw [if_neg haddress]
  have hreach : Reaches context outcome := ⟨hstate, Int.not_le.mp haddress⟩
  dsimp only
  by_cases hsocket : outcome.socket < 0
  · rw [if_pos hsocket]
    exact .noSocket hreach hsocket
  rw [if_neg hsocket]
  rw [Int.not_lt] at hsocket
  by_cases hconnect : outcome.connect = .refused
  · rw [if_pos hconnect]
    exact .refused hreach hsocket hconnect
  rw [if_neg hconnect]
  cases hthread : outcome.threadCreated with
  | false => exact .noThread hreach hsocket hconnect hthread
  | true => exact .success hreach hsocket hconnect hthread

-- ── A failed attempt ─────────────────────────────────────────────────────────

/-- Everything that the later functions rely on is as it was, and in particular the
    client is not connected and the field names no descriptor that has been closed. -/
structure AsBefore (context context' : ClientContext) (calls : List ClientCall) : Prop where
  state          : context'.state = context.state
  socket         : context'.socket = context.socket
  stats          : context'.stats = context.stats
  receiverThread : context'.receiverThread = context.receiverThread
  notConnected   : context'.state ≠ .connected
  notClosed      : ∀ fd, .closed fd ∈ calls → context'.socket ≠ fd

/-- **Failed attempts.** An attempt that fails leaves a client that is not connected as it
    was exactly when it fails at the address, or `socket` fails and the field holds its
    result already. -/
theorem failed_connect_iff {context context' : ClientContext} {outcome : ConnectOutcome}
    {code : Int} {calls : List ClientCall} (hstate : context.state ≠ .connected)
    (h : connectToServer context outcome = (code, context', calls))
    (hcode : code ≠ ErrorCode.success.code) :
    AsBefore context context' calls ↔
      outcome.inetPton (address context.serverHost) ≤ 0 ∨
        outcome.socket < 0 ∧ context.socket = outcome.socket := by
  have hexit := connectToServer_exit context outcome
  rw [h] at hexit
  cases hexit with
  | connected hconnected => exact absurd hconnected hstate
  | address _ haddress =>
      exact iff_of_true ⟨rfl, rfl, rfl, rfl, hstate, nofun⟩ (Or.inl haddress)
  | noSocket hreach hsocket =>
      constructor
      · intro hbefore
        exact Or.inr ⟨hsocket, hbefore.socket.symm⟩
      · rintro (haddress | ⟨-, hfield⟩)
        · exact absurd hreach.address (Int.not_lt.mpr haddress)
        · exact ⟨rfl, hfield.symm, rfl, rfl, hstate, nofun⟩
  | refused hreach hsocket hconnect =>
      refine iff_of_false ?_ ?_
      · intro hbefore
        exact hbefore.notClosed _ (List.mem_cons_of_mem _ List.mem_cons_self) rfl
      · rintro (haddress | ⟨hnegative, -⟩)
        · exact absurd hreach.address (Int.not_lt.mpr haddress)
        · omega
  | noThread hreach hsocket hconnect hthread =>
      refine iff_of_false ?_ ?_
      · intro hbefore
        exact hbefore.notConnected rfl
      · rintro (haddress | ⟨hnegative, -⟩)
        · exact absurd hreach.address (Int.not_lt.mpr haddress)
        · omega
  | success => exact absurd rfl hcode

/-- A new client that is to connect to `localhost`, with both callbacks set. -/
def newClient : ClientContext where
  socket := -1
  state := .disconnected
  messagesSent := 0
  ordersSent := 0
  messagesReceived := 0
  tradesReceived := 0
  connectTime := 0
  serverHost := localhost ++ [0]
  onConnect := true
  onDisconnect := true
  receiverThread := 0
  running := 1

theorem initialize_newClient :
    initializeClient (localhost ++ [0]) true true ⟨true, true⟩ = some newClient := rfl

/-- Everything goes well, on descriptor `fd`. -/
def connects (fd : Int) : ConnectOutcome := ⟨fun _ => 1, fd, .established, 0, true, 1⟩

/-- The server refuses. -/
def refuses (fd : Int) : ConnectOutcome := ⟨fun _ => 1, fd, .refused, 0, true, 1⟩

theorem failed_connect_iff_noSocket :
    AsBefore newClient (withSocket newClient (refuses (-1))) [] ↔
      (refuses (-1)).inetPton (address newClient.serverHost) ≤ 0 ∨
        (refuses (-1)).socket < 0 ∧ newClient.socket = (refuses (-1)).socket :=
  failed_connect_iff (by decide) (by decide +kernel)
    (show ErrorCode.socketCreate.code ≠ _ by decide)

/-- The server refuses, and the field names the closed descriptor. -/
theorem refused_socket_kept :
    ¬ ∀ (context context' : ClientContext) (outcome : ConnectOutcome) (code : Int)
        (calls : List ClientCall), context.state ≠ .connected →
        connectToServer context outcome = (code, context', calls) →
        code ≠ ErrorCode.success.code → AsBefore context context' calls := by
  intro hall
  have hbefore := hall newClient (withSocket newClient (refuses 5)) (refuses 5)
    ErrorCode.socketConnect.code [.opened 5, .closed 5] (by decide) rfl (by decide)
  exact hbefore.notClosed 5 (by decide) rfl

end TradeClient
