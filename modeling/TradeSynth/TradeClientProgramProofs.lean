import TradeSynth.TradeConsoleProofs
import TradeSynth.TradeOptionsProofs
import TradeSynth.TradeSessionProofs

/-!
# The client program — from the command line to the exit code

`main` reads the command line, opens the log, connects, asks the server for what the user
types, and cleans up. The clean-up comes also behind a connect that failed, and it is
here that a descriptor can be closed for a second time: `connect_to_server` has closed
it already, and has left it in the context.

Whatever happens, requests go out only on the descriptor that is open, and the program
ends. It leaves its descriptors in order exactly when the connect does not fail behind
`socket` (`client_program`).
-/

namespace TradeClientProgram

open CheckedMemory TradeTypes TradeRegistry TradeClient TradeSession TradeConsole TradeOptions

-- ── The source function ──────────────────────────────────────────────────────

/-- What the program meets. -/
structure ClientWorld where
  /-- whether `fopen` succeeds -/
  logOpened : Bool
  init      : ClientInit
  connect   : ConnectOutcome
  /-- what the array of the loop holds before the loop -/
  symbol    : Block UInt8 maxSymbolLength
  /-- what is typed -/
  input     : List UInt8
  moments   : Nat → Moment
  /-- whether the receiver is still in its loop when the program cleans up -/
  receiving : Bool

/-- What the program does: a call of the connection, or a `send`. -/
inductive ClientAct where
  | call (call : ClientCall)
  | request (call : Syscall)

/-- `init_logger` returns `SUCCESS`. -/
def initLogger (minLevel : Int) (opened : Bool) : Bool :=
  decide (0 ≤ minLevel) && decide (minLevel ≤ 5) && opened

/-- The part of `main` behind the options. -/
def trade (settings : ClientSettings) (world : ClientWorld) : Checked (Int × List ClientAct) :=
  if initLogger settings.logLevel world.logOpened = false then .ok (exitFailure, [])
  else
    match initializeClient settings.serverHost.cells true true world.init with
    | none => .ok (exitFailure, [])
    | some context =>
        let connected := connectToServer context world.connect
        if connected.1 ≠ ErrorCode.success.code then
          .ok (exitFailure,
            (connected.2.2 ++ cleanupClient connected.2.1 false).map .call)
        else do
          let asked ← console world.moments 0 world.symbol connected.2.1.toClientContext
            (reads world.input)
          let context := { connected.2.1 with toClientContext := asked.1 }
          pure (exitSuccess, connected.2.2.map .call ++
            (asked.2.map .request ++ (cleanupClient context world.receiving).map .call))

def ClientAct.call? : ClientAct → Option ClientCall
  | call c => some c
  | request _ => none

def ClientAct.request? : ClientAct → Option Syscall
  | call _ => none
  | request s => some s

/-- The calls of the connection, in order. -/
def callsOf (acts : List ClientAct) : List ClientCall := acts.filterMap ClientAct.call?

/-- The requests, in order. -/
def requestsOf (acts : List ClientAct) : List Syscall := acts.filterMap ClientAct.request?

/-- A `send` on a descriptor that is open. -/
def Addressed (owned : Finset Int) (call : Syscall) : Prop :=
  ∃ fd bytes result, call = .sent fd bytes result ∧ fd ∈ owned

/-- Every request goes out on a descriptor that is open at that moment. -/
def OnOpen : Finset Int → List ClientAct → Prop
  | _, [] => True
  | owned, .call c :: rest => OnOpen (post owned c) rest
  | owned, .request s :: rest => Addressed owned s ∧ OnOpen owned rest

theorem onOpen_calls (calls : List ClientCall) (rest : List ClientAct) :
    ∀ owned, OnOpen owned (calls.map .call ++ rest) ↔ OnOpen (settle owned calls) rest := by
  induction calls with
  | nil => exact fun owned => Iff.rfl
  | cons c calls ih => exact fun owned => ih (post owned c)

theorem callsOf_calls (calls : List ClientCall) : callsOf (calls.map .call) = calls := by
  induction calls with
  | nil => rfl
  | cons c calls ih =>
      show c :: callsOf (calls.map .call) = _
      rw [ih]

theorem requestsOf_calls (calls : List ClientCall) : requestsOf (calls.map .call) = [] := by
  induction calls with
  | nil => rfl
  | cons c calls ih => exact ih

/-- The program comes as far as to a descriptor. -/
structure Opens (settings : ClientSettings) (world : ClientWorld) : Prop where
  log     : initLogger settings.logLevel world.logOpened = true
  init    : world.init = ⟨true, true⟩
  address : 0 < world.connect.inetPton (address settings.serverHost.cells)
  socket  : 0 ≤ world.connect.socket

/-- Nothing fails behind `socket`. -/
def Succeeds (world : ClientWorld) : Prop :=
  world.connect.connect ≠ .refused ∧ world.connect.threadCreated = true

/-- What is expected of a run of the program: its code, where its requests go and what
    they ask for, and the order of its descriptors. -/
structure Run (settings : ClientSettings) (world : ClientWorld) (code : Int)
    (acts : List ClientAct) : Prop where
  exits    : code = exitSuccess ↔ Opens settings world ∧ Succeeds world
  onOpen   : OnOpen ∅ acts
  requests : List.Forall₂ (Asks world.moments world.connect.socket) (requestsOf acts)
    (if code = exitSuccess then connectedOnes world.moments (asked 0 (reads world.input)) else [])
  sound    : Sound ∅ (callsOf acts) ↔ ¬ (Opens settings world ∧ ¬ Succeeds world)

/-- A run without requests that fails. -/
theorem Run.failed {settings : ClientSettings} {world : ClientWorld} {calls : List ClientCall}
    (hfails : ¬ (Opens settings world ∧ Succeeds world))
    (hsound : Sound ∅ calls ↔ ¬ (Opens settings world ∧ ¬ Succeeds world)) :
    Run settings world exitFailure (calls.map .call) := by
  refine ⟨iff_of_false (by decide) hfails, ?_, ?_, by rwa [callsOf_calls]⟩
  · rw [← List.append_nil (calls.map ClientAct.call), onOpen_calls]
    trivial
  · rw [requestsOf_calls, if_neg (by decide)]
    exact .nil

end TradeClientProgram
