import Mathlib.Data.Finset.Basic
import TradeSynth.FixedCodecProofs
import TradeSynth.LockedOutputProofs
import TradeSynth.TransitionProofs

/-!
# The logger — lines from many threads on one console and one file

`log_message` writes a record to the standard output in three calls of `printf`, and then
once more, in three calls of `fprintf`, to the log file if there is one. `log_mutex` is
held from the first to the last. The pointer `log_file` is not under the mutex:
`init_logger` and `close_logger` assign it whenever they are called, and each `fprintf`
reads it again.

On the console lines are never mixed, whatever the threads do: each accepted record is
there once, whole, in the order in which its thread asked for it (`console_whole`).
-/

namespace TradeLog

open FixedCodec LockedOutput Transition

-- ── Records and lines ────────────────────────────────────────────────────────

inductive LogLevel where
  | trace
  | debug
  | info
  | warn
  | error
  | fatal
deriving DecidableEq, Repr

instance : Enumeration LogLevel where
  all := [.trace, .debug, .info, .warn, .error, .fatal]
  code
    | .trace => 0
    | .debug => 1
    | .info => 2
    | .warn => 3
    | .error => 4
    | .fatal => 5
  complete e := by cases e <;> decide
  code_inj e e' := by cases e <;> cases e' <;> decide

def levelStrings : LogLevel → List Char
  | .trace => "TRACE".toList
  | .debug => "DEBUG".toList
  | .info => "INFO".toList
  | .warn => "WARN".toList
  | .error => "ERROR".toList
  | .fatal => "FATAL".toList

def levelColors : LogLevel → List Char
  | .trace => "\x1b[34m".toList
  | .debug => "\x1b[36m".toList
  | .info => "\x1b[32m".toList
  | .warn => "\x1b[33m".toList
  | .error => "\x1b[31m".toList
  | .fatal => "\x1b[35m".toList

def ansiColorReset : List Char := "\x1b[0m".toList

/-- The arguments of one call of `log_message`, with the format filled in and the
    timestamp that is read before the mutex is taken. -/
structure Record where
  level     : LogLevel
  timestamp : List Char
  file      : List Char
  line      : Nat
  func      : List Char
  text      : List Char
deriving DecidableEq

namespace Record

/-- The format `"%s [%-5s] (%s:%d - %s) "`. -/
def head (r : Record) : List Char :=
  r.timestamp ++ " [".toList ++ (levelStrings r.level).rightpad 5 ' ' ++ "] (".toList ++
    r.file ++ ":".toList ++ (toString r.line).toList ++ " - ".toList ++ r.func ++ ") ".toList

/-- What the three calls of `printf` write. -/
def consolePieces (r : Record) : List (List Char) :=
  [levelColors r.level ++ r.head, r.text, ansiColorReset ++ ['\n']]

/-- What the three calls of `fprintf` write. -/
def filePieces (r : Record) : List (List Char) := [r.head, r.text, ['\n']]

theorem length_consolePieces (r : Record) : r.consolePieces.length = 3 := rfl

theorem length_filePieces (r : Record) : r.filePieces.length = 3 := rfl

end Record

/-- The record that `init_logger` logs. -/
def initRecord (timestamp : List Char) (minLevel : LogLevel) : Record where
  level := .info
  timestamp := timestamp
  file := "src/common/logger.c".toList
  line := 56
  func := "init_logger".toList
  text := "Logger initialized with minimum level: ".toList ++ levelStrings minLevel

/-- The record that `close_logger` logs. -/
def closeRecord (timestamp : List Char) : Record where
  level := .info
  timestamp := timestamp
  file := "src/common/logger.c".toList
  line := 128
  func := "close_logger".toList
  text := "Closing logger".toList

example : (closeRecord "noon".toList).filePieces.flatten =
    "noon [INFO ] (src/common/logger.c:128 - close_logger) Closing logger\n".toList := by decide

-- ── The logger ───────────────────────────────────────────────────────────────

/-- The pointer `log_file`. -/
inductive LogFile where
  | null
  | stderr
  /-- the stream of the given number; a new one for each `fopen` -/
  | file (f : Nat)
deriving DecidableEq

/-- What follows a call of `log_message`. -/
inductive After where
  | returns
  /-- `close_logger` goes on to `fclose` -/
  | closes
deriving DecidableEq

/-- Where a thread stands in the functions of `logger.c`. -/
inductive Pc where
  | idle
  /-- behind the test of the level -/
  | entering (r : Record) (after : After)
  /-- with the mutex, and the given number of calls of `printf` made -/
  | printing (r : Record) (k : Nat) (after : After)
  /-- behind the test of `log_file`, and the given number of calls of `fprintf` made -/
  | filing (r : Record) (k : Nat) (after : After)
  /-- in front of the unlocking -/
  | leaving (r : Record) (after : After)
  /-- in front of `exit` -/
  | exiting
  /-- in `init_logger`, behind the assignment of `minimum_level`; `named` when a path is
      given -/
  | opening (named : Bool) (minLevel : LogLevel)
  /-- in `close_logger`, in front of `fclose` -/
  | closing
  /-- in `close_logger`, behind `fclose` -/
  | clearing
deriving DecidableEq

def After.pc : After → Pc
  | returns => .idle
  | closes => .closing

/-- Where a thread stands behind the unlocking. -/
def Pc.unlocked (r : Record) (after : After) : Pc :=
  if r.level = .fatal then .exiting else after.pc

/-- Where the test of `log_file` leads. -/
def LogFile.tested (r : Record) (after : After) : LogFile → Pc
  | .file _ => .filing r 0 after
  | _ => .leaving r after

theorem LogFile.tested_other {logFile : LogFile} (h : ∀ f, logFile ≠ .file f) (r : Record)
    (after : After) : logFile.tested r after = .leaving r after := by
  cases logFile with
  | file f => exact absurd rfl (h f)
  | _ => rfl

variable {ι : Type}

/-- The globals of `logger.c`, what has been written where, and where each thread stands.
    `asked` lists the records for which a thread got past the test of the level. -/
structure Logger (ι : Type) where
  logFile      : LogFile
  minimumLevel : LogLevel
  logMutex     : Option ι
  console      : List Char
  stream       : Nat → List Char
  opened       : Finset Nat
  closed       : Finset Nat
  /-- a stream that is not open has been written to or closed -/
  astray       : Bool
  exited       : Bool
  pc           : ι → Pc
  asked        : ι → List Record

namespace Logger

variable [DecidableEq ι]

def move (s : Logger ι) (t : ι) (pc : Pc) : Logger ι := { s with pc := Function.update s.pc t pc }

/-- The front of `log_message`. -/
def ask (s : Logger ι) (t : ι) (r : Record) (after : After) : Logger ι :=
  if Enumeration.code r.level < Enumeration.code s.minimumLevel then s.move t after.pc
  else
    { s with asked := Function.update s.asked t (s.asked t ++ [r]) }.move t (.entering r after)

/-- A stream that can be written to. -/
def Open (s : Logger ι) (f : Nat) : Prop := f ∈ s.opened ∧ f ∉ s.closed

instance (s : Logger ι) (f : Nat) : Decidable (s.Open f) := inferInstanceAs (Decidable (_ ∧ _))

/-- One call of `fprintf`, or `fflush` with no bytes, on what `log_file` is now. -/
def write (s : Logger ι) (piece : List Char) : Logger ι :=
  match s.logFile with
  | .file f =>
      if s.Open f then { s with stream := Function.update s.stream f (s.stream f ++ piece) }
      else { s with astray := true }
  | _ => { s with astray := true }

/-- The call of `fclose`. -/
def closeFile (s : Logger ι) : Logger ι :=
  match s.logFile with
  | .file f =>
      if s.Open f then { s with closed := insert f s.closed } else { s with astray := true }
  | _ => { s with astray := true }

end Logger

/-- A step of thread `t`, with what it is called with or answered. -/
inductive Event (ι : Type) where
  | call (t : ι) (r : Record)
  | init (t : ι) (named : Bool) (minLevel : CEnum LogLevel)
  /-- `fopen` returns a new stream or fails -/
  | fopen (t : ι) (result : Option Nat) (timestamp : List Char)
  | useStderr (t : ι) (timestamp : List Char)
  | lock (t : ι)
  | printf (t : ι)
  | check (t : ι)
  | fprintf (t : ι)
  | fflush (t : ι)
  | unlock (t : ι)
  | exit (t : ι)
  | close (t : ι) (timestamp : List Char)
  | fclose (t : ι)
  | clear (t : ι)

variable [DecidableEq ι]

inductive Step (s : Logger ι) : Event ι → Logger ι → Prop where
  | call {t : ι} {r : Record} (hrun : s.exited = false) (hpc : s.pc t = .idle) :
      Step s (.call t r) (s.ask t r .returns)
  | init {t : ι} {named : Bool} {minLevel : LogLevel} (hrun : s.exited = false)
      (hpc : s.pc t = .idle) :
      Step s (.init t named (.known minLevel))
        ({ s with minimumLevel := minLevel }.move t (.opening named minLevel))
  /-- a level outside the enumeration is refused before anything is assigned -/
  | refuse {t : ι} {named : Bool} {c : UInt32}
      {hc : (Enumeration.ofCode? c : Option LogLevel) = none}
      (hrun : s.exited = false) (hpc : s.pc t = .idle) :
      Step s (.init t named (.unknown c hc)) s
  | fopen {t : ι} {minLevel : LogLevel} {f : Nat} {timestamp : List Char}
      (hrun : s.exited = false) (hpc : s.pc t = .opening true minLevel) (hf : f ∉ s.opened) :
      Step s (.fopen t (some f) timestamp)
        ({ s with logFile := .file f, opened := insert f s.opened }.ask t
          (initRecord timestamp minLevel) .returns)
  | noFile {t : ι} {minLevel : LogLevel} {timestamp : List Char} (hrun : s.exited = false)
      (hpc : s.pc t = .opening true minLevel) :
      Step s (.fopen t none timestamp) ({ s with logFile := .null }.move t .idle)
  | useStderr {t : ι} {minLevel : LogLevel} {timestamp : List Char} (hrun : s.exited = false)
      (hpc : s.pc t = .opening false minLevel) :
      Step s (.useStderr t timestamp)
        ({ s with logFile := .stderr }.ask t (initRecord timestamp minLevel) .returns)
  | lock {t : ι} {r : Record} {after : After} (hrun : s.exited = false)
      (hpc : s.pc t = .entering r after) (hfree : s.logMutex = none) :
      Step s (.lock t) ({ s with logMutex := some t }.move t (.printing r 0 after))
  | printf {t : ι} {r : Record} {k : Nat} {after : After} {piece : List Char}
      (hrun : s.exited = false) (hpc : s.pc t = .printing r k after)
      (hpiece : r.consolePieces[k]? = some piece) :
      Step s (.printf t)
        ({ s with console := s.console ++ piece }.move t (.printing r (k + 1) after))
  | check {t : ι} {r : Record} {after : After} (hrun : s.exited = false)
      (hpc : s.pc t = .printing r 3 after) :
      Step s (.check t) (s.move t (s.logFile.tested r after))
  | fprintf {t : ι} {r : Record} {k : Nat} {after : After} {piece : List Char}
      (hrun : s.exited = false) (hpc : s.pc t = .filing r k after)
      (hpiece : r.filePieces[k]? = some piece) :
      Step s (.fprintf t) ((s.write piece).move t (.filing r (k + 1) after))
  | fflush {t : ι} {r : Record} {after : After} (hrun : s.exited = false)
      (hpc : s.pc t = .filing r 3 after) :
      Step s (.fflush t) ((s.write []).move t (.leaving r after))
  | unlock {t : ι} {r : Record} {after : After} (hrun : s.exited = false)
      (hpc : s.pc t = .leaving r after) :
      Step s (.unlock t)
        ({ s with logMutex := none }.move t (.unlocked r after))
  | exit {t : ι} (hrun : s.exited = false) (hpc : s.pc t = .exiting) :
      Step s (.exit t) { s with exited := true }
  | close {t : ι} {f : Nat} {timestamp : List Char} (hrun : s.exited = false)
      (hpc : s.pc t = .idle) (hfile : s.logFile = .file f) :
      Step s (.close t timestamp) (s.ask t (closeRecord timestamp) .closes)
  /-- nothing to close -/
  | keep {t : ι} {timestamp : List Char} (hrun : s.exited = false) (hpc : s.pc t = .idle)
      (hfile : ∀ f, s.logFile ≠ .file f) :
      Step s (.close t timestamp) s
  | fclose {t : ι} (hrun : s.exited = false) (hpc : s.pc t = .closing) :
      Step s (.fclose t) (s.closeFile.move t .clearing)
  | clear {t : ι} (hrun : s.exited = false) (hpc : s.pc t = .clearing) :
      Step s (.clear t) ({ s with logFile := .null }.move t .idle)

-- ── The console ──────────────────────────────────────────────────────────────

/-- Between the locking and the unlocking. -/
def Critical : Pc → Prop
  | .printing .. => True
  | .filing .. => True
  | .leaving .. => True
  | _ => False

/-- The record that a thread has on the console, with the pieces that are out. -/
def handOf : Pc → Option (Record × Nat)
  | .printing r k _ => some (r, k)
  | .filing r _ _ => some (r, 3)
  | _ => none

/-- The record that a thread has been asked for and has not finished. -/
def pending : Pc → List Record
  | .entering r _ => [r]
  | .printing r _ _ => [r]
  | .filing r _ _ => [r]
  | _ => []

/-- The record in the hands of the thread that holds the mutex. -/
def inHand (s : Logger ι) : Option (Record × Nat) := s.logMutex.bind (fun t => handOf (s.pc t))

/-- What a step of one thread is to the console, and the record that it finishes. -/
inductive Move (s s' : Logger ι) : Option (ι × Record) → Prop where
  /-- outside the mutex; the records newly asked for are pending -/
  | outside (t : ι) (pc : Pc) (more : List Record) (hpc : s'.pc = Function.update s.pc t pc)
      (hbefore : ¬ Critical (s.pc t)) (hafter : ¬ Critical pc)
      (hmore : pending pc = pending (s.pc t) ++ more)
      (hasked : s'.asked = Function.update s.asked t (s.asked t ++ more))
      (hmutex : s'.logMutex = s.logMutex) (hconsole : s'.console = s.console) : Move s s' none
  | take (t : ι) (r : Record) (after : After) (hfree : s.logMutex = none)
      (hbefore : s.pc t = .entering r after)
      (hpc : s'.pc = Function.update s.pc t (.printing r 0 after))
      (hmutex : s'.logMutex = some t) (hconsole : s'.console = s.console)
      (hasked : s'.asked = s.asked) : Move s s' none
  | piece (t : ι) (r : Record) (k : Nat) (after : After) (piece : List Char)
      (hbefore : s.pc t = .printing r k after) (hpiece : r.consolePieces[k]? = some piece)
      (hpc : s'.pc = Function.update s.pc t (.printing r (k + 1) after))
      (hmutex : s'.logMutex = s.logMutex) (hconsole : s'.console = s.console ++ piece)
      (hasked : s'.asked = s.asked) : Move s s' none
  /-- with the line out, and work left to do for the same record -/
  | stay (t : ι) (pc : Pc) (r : Record) (hbefore : handOf (s.pc t) = some (r, 3))
      (hcritical : Critical (s.pc t)) (hafter : handOf pc = some (r, 3)) (hstill : Critical pc)
      (hpending : pending pc = pending (s.pc t))
      (hpc : s'.pc = Function.update s.pc t pc)
      (hmutex : s'.logMutex = s.logMutex) (hconsole : s'.console = s.console)
      (hasked : s'.asked = s.asked) : Move s s' none
  | finish (t : ι) (r : Record) (after : After) (hbefore : handOf (s.pc t) = some (r, 3))
      (hcritical : Critical (s.pc t)) (hpending : pending (s.pc t) = [r])
      (hpc : s'.pc = Function.update s.pc t (.leaving r after))
      (hmutex : s'.logMutex = s.logMutex) (hconsole : s'.console = s.console)
      (hasked : s'.asked = s.asked) : Move s s' (some (t, r))
  | give (t : ι) (r : Record) (pc : Pc) (after : After) (hbefore : s.pc t = .leaving r after)
      (hpc : s'.pc = Function.update s.pc t pc) (hafter : ¬ Critical pc)
      (hpending : pending pc = [])
      (hmutex : s'.logMutex = none) (hconsole : s'.console = s.console)
      (hasked : s'.asked = s.asked) : Move s s' none

theorem not_critical_after (after : After) : ¬ Critical after.pc := by
  cases after <;> exact id

theorem pending_after (after : After) : pending after.pc = [] := by
  cases after <;> rfl

theorem unlocked_cases (r : Record) (after : After) :
    Pc.unlocked r after = .exiting ∨ Pc.unlocked r after = .idle ∨
      (Pc.unlocked r after = .closing ∧ after = .closes) := by
  rw [Pc.unlocked]
  split
  · exact Or.inl rfl
  · cases after with
    | returns => exact Or.inr (Or.inl rfl)
    | closes => exact Or.inr (Or.inr ⟨rfl, rfl⟩)

/-- The front of `log_message` is outside the mutex. -/
theorem move_ask {s : Logger ι} {s' : Logger ι} (t : ι) (r : Record) (after : After)
    (hpc : s'.pc = s.pc) (hasked : s'.asked = s.asked) (hmutex : s'.logMutex = s.logMutex)
    (hconsole : s'.console = s.console) (hbefore : ¬ Critical (s.pc t))
    (hpending : pending (s.pc t) = []) : Move s (s'.ask t r after) none := by
  rw [Logger.ask]
  split
  · refine .outside t after.pc [] ?_ hbefore (not_critical_after after) ?_ ?_ hmutex hconsole
    · rw [← hpc]
      rfl
    · rw [pending_after, hpending]
      rfl
    · rw [List.append_nil, Function.update_eq_self]
      exact hasked
  · refine .outside t (.entering r after) [r] ?_ hbefore id ?_ ?_ hmutex hconsole
    · rw [← hpc]
      rfl
    · rw [hpending]
      rfl
    · rw [← hasked]
      rfl

omit [DecidableEq ι] in
/-- A write changes one stream, or goes astray. -/
theorem exists_write (s : Logger ι) (piece : List Char) :
    ∃ stream astray, s.write piece = { s with stream := stream, astray := astray } := by
  rw [Logger.write]
  split
  · split
    · exact ⟨_, s.astray, rfl⟩
    · exact ⟨s.stream, _, rfl⟩
  · exact ⟨s.stream, _, rfl⟩

omit [DecidableEq ι] in
/-- So does a close, with the set of closed streams. -/
theorem exists_closeFile (s : Logger ι) :
    ∃ closed astray, s.closeFile = { s with closed := closed, astray := astray } := by
  rw [Logger.closeFile]
  split
  · split
    · exact ⟨_, s.astray, rfl⟩
    · exact ⟨s.closed, _, rfl⟩
  · exact ⟨s.closed, _, rfl⟩

/-- A step between two places outside the mutex. -/
theorem move_outside {s s' : Logger ι} (t : ι) (pc : Pc)
    (hpc : s'.pc = Function.update s.pc t pc) (hasked : s'.asked = s.asked)
    (hmutex : s'.logMutex = s.logMutex) (hconsole : s'.console = s.console)
    (hbefore : ¬ Critical (s.pc t)) (hafter : ¬ Critical pc)
    (hpending : pending pc = pending (s.pc t)) : Move s s' none := by
  refine .outside t pc [] hpc hbefore hafter ?_ ?_ hmutex hconsole
  · rw [hpending, List.append_nil]
  · rw [List.append_nil, Function.update_eq_self]
    exact hasked

/-- The record that a step finishes, with the log file at that moment: the step goes past
    the test of `log_file` when there is no file, or flushes it. -/
def finished (s : Logger ι) : Event ι → Option (ι × Record × LogFile)
  | .check t =>
      match s.pc t, s.logFile with
      | .printing _ _ _, .file _ => none
      | .printing r _ _, logFile => some (t, r, logFile)
      | _, _ => none
  | .fflush t =>
      match s.pc t with
      | .filing r _ _ => some (t, r, s.logFile)
      | _ => none
  | _ => none

omit [DecidableEq ι] in
theorem finished_check {s : Logger ι} {t : ι} {r : Record} {k : Nat} {after : After}
    (hpc : s.pc t = .printing r k after) (hfile : ∀ f, s.logFile ≠ .file f) :
    finished s (.check t) = some (t, r, s.logFile) := by
  rw [finished, hpc]
  cases hlog : s.logFile with
  | file f => exact absurd hlog (hfile f)
  | _ => rfl

/-- An entry without the log file. -/
def entry (e : ι × Record × LogFile) : ι × Record := (e.1, e.2.1)

/-- Every step is one of these moves. -/
theorem move_of_step {s s' : Logger ι} {e : Event ι} (h : Step s e s') :
    Move s s' ((finished s e).map entry) := by
  cases h with
  | @call t r hrun hpc =>
      exact move_ask t r .returns rfl rfl rfl rfl (by rw [hpc]; exact id) (by rw [hpc]; rfl)
  | @init t named minLevel hrun hpc =>
      exact move_outside t _ rfl rfl rfl rfl (by rw [hpc]; exact id) id (by rw [hpc]; rfl)
  | @refuse t named c hc hrun hpc =>
      exact move_outside t (s.pc t) (Function.update_eq_self t s.pc).symm rfl rfl rfl
        (by rw [hpc]; exact id) (by rw [hpc]; exact id) rfl
  | @fopen t minLevel f timestamp hrun hpc hf =>
      exact move_ask t _ .returns rfl rfl rfl rfl (by rw [hpc]; exact id) (by rw [hpc]; rfl)
  | @noFile t minLevel timestamp hrun hpc =>
      exact move_outside t _ rfl rfl rfl rfl (by rw [hpc]; exact id) id (by rw [hpc]; rfl)
  | @useStderr t minLevel timestamp hrun hpc =>
      exact move_ask t _ .returns rfl rfl rfl rfl (by rw [hpc]; exact id) (by rw [hpc]; rfl)
  | @lock t r after hrun hpc hfree => exact .take t r after hfree hpc rfl rfl rfl rfl
  | @printf t r k after piece hrun hpc hpiece =>
      exact .piece t r k after piece hpc hpiece rfl rfl rfl rfl
  | @check t r after hrun hpc =>
      by_cases hfile : ∃ f, s.logFile = .file f
      · obtain ⟨f, hfile⟩ := hfile
        have hgoes : (finished s (.check t)).map entry = none := by
          rw [finished, hpc, hfile]
          rfl
        rw [hgoes, hfile]
        exact .stay t (.filing r 0 after) r (by rw [hpc]; rfl) (by rw [hpc]; trivial) rfl trivial
          (by rw [hpc]; rfl) rfl rfl rfl rfl
      · have hdone : (finished s (.check t)).map entry = some (t, r) := by
          rw [finished_check hpc (fun f hf => hfile ⟨f, hf⟩)]
          rfl
        rw [hdone, LogFile.tested_other (fun f hf => hfile ⟨f, hf⟩)]
        exact .finish t r after (by rw [hpc]; rfl) (by rw [hpc]; trivial) (by rw [hpc]; rfl)
          rfl rfl rfl rfl
  | @fprintf t r k after piece hrun hpc hpiece =>
      obtain ⟨stream, astray, hwrite⟩ := exists_write s piece
      rw [hwrite]
      exact .stay t (.filing r (k + 1) after) r (by rw [hpc]; rfl) (by rw [hpc]; trivial) rfl
        trivial (by rw [hpc]; rfl) rfl rfl rfl rfl
  | @fflush t r after hrun hpc =>
      obtain ⟨stream, astray, hwrite⟩ := exists_write s []
      have hdone : (finished s (.fflush t)).map entry = some (t, r) := by
        rw [finished, hpc]
        rfl
      rw [hwrite, hdone]
      exact .finish t r after (by rw [hpc]; rfl) (by rw [hpc]; trivial) (by rw [hpc]; rfl)
        rfl rfl rfl rfl
  | @unlock t r after hrun hpc =>
      refine .give t r _ after hpc rfl ?_ ?_ rfl rfl rfl
      · rcases unlocked_cases r after with heq | heq | ⟨heq, -⟩ <;> rw [heq] <;> exact id
      · rcases unlocked_cases r after with heq | heq | ⟨heq, -⟩ <;> rw [heq] <;> rfl
  | @exit t hrun hpc =>
      exact move_outside t (s.pc t) (Function.update_eq_self t s.pc).symm rfl rfl rfl
        (by rw [hpc]; exact id) (by rw [hpc]; exact id) rfl
  | @close t f timestamp hrun hpc hfile =>
      exact move_ask t _ .closes rfl rfl rfl rfl (by rw [hpc]; exact id) (by rw [hpc]; rfl)
  | @keep t timestamp hrun hpc hfile =>
      exact move_outside t (s.pc t) (Function.update_eq_self t s.pc).symm rfl rfl rfl
        (by rw [hpc]; exact id) (by rw [hpc]; exact id) rfl
  | @fclose t hrun hpc =>
      obtain ⟨closed, astray, hclose⟩ := exists_closeFile s
      rw [hclose]
      exact move_outside t _ rfl rfl rfl rfl (by rw [hpc]; exact id) id (by rw [hpc]; rfl)
  | @clear t hrun hpc =>
      exact move_outside t _ rfl rfl rfl rfl (by rw [hpc]; exact id) id (by rw [hpc]; rfl)

/-- The records of one thread in a list. -/
def saidBy (t : ι) (printed : List (ι × Record)) : List Record :=
  (printed.filter (fun entry => entry.1 = t)).map Prod.snd

/-- The mutex is held by whoever stands behind its locking; the console shows whole lines,
    and those that the holder has out of its own; and each thread has its records there in
    order, up to one that is pending. -/
structure Printed (s : Logger ι) (printed : List (ι × Record)) : Prop where
  holder  : ∀ t, Critical (s.pc t) → s.logMutex = some t
  console : s.console = shown Record.consolePieces (printed.map Prod.snd) (inHand s)
  asked   : ∀ t, s.asked t = saidBy t printed ++ pending (s.pc t)

theorem saidBy_append_self (t : ι) (printed : List (ι × Record)) (r : Record) :
    saidBy t (printed ++ [(t, r)]) = saidBy t printed ++ [r] := by
  simp [saidBy]

theorem saidBy_append_ne {t u : ι} (h : t ≠ u) (printed : List (ι × Record)) (r : Record) :
    saidBy u (printed ++ [(t, r)]) = saidBy u printed := by
  simp [saidBy, h]

/-- A step of a thread outside the mutex leaves the record in hand. -/
theorem handOf_not_critical {pc : Pc} (h : ¬ Critical pc) : handOf pc = none := by
  cases pc with
  | printing => exact absurd trivial h
  | filing => exact absurd trivial h
  | _ => rfl

theorem inHand_same {s s' : Logger ι} {t : ι} {pc : Pc} (hmutex : s'.logMutex = s.logMutex)
    (hpc : s'.pc = Function.update s.pc t pc) (hhand : handOf pc = handOf (s.pc t)) :
    inHand s' = inHand s := by
  rw [inHand, inHand, hmutex, hpc]
  congr 1
  funext u
  by_cases hu : u = t
  · rw [hu, Function.update_self, hhand]
  · rw [Function.update_of_ne hu]

omit [DecidableEq ι] in
theorem inHand_holder {s : Logger ι} {t : ι} (h : s.logMutex = some t) :
    inHand s = handOf (s.pc t) := by
  rw [inHand, h, Option.bind_some]

/-- A place that stays critical, or stays outside, asks nobody else to let go. -/
theorem holder_update {s s' : Logger ι} {t : ι} {pc : Pc}
    (h : ∀ u, Critical (s.pc u) → s.logMutex = some u) (hmutex : s'.logMutex = s.logMutex)
    (hpc : s'.pc = Function.update s.pc t pc) (hcritical : Critical pc → Critical (s.pc t)) :
    ∀ u, Critical (s'.pc u) → s'.logMutex = some u := by
  intro u hu
  rw [hmutex]
  rw [hpc] at hu
  by_cases hut : u = t
  · rw [hut, Function.update_self] at hu
    rw [hut]
    exact h t (hcritical hu)
  · rw [Function.update_of_ne hut] at hu
    exact h u hu

/-- The records of the other threads are as pending as they were. -/
theorem asked_update {s s' : Logger ι} {printed : List (ι × Record)} {t : ι} {pc : Pc}
    {more : List Record} (h : ∀ u, s.asked u = saidBy u printed ++ pending (s.pc u))
    (hpc : s'.pc = Function.update s.pc t pc)
    (hasked : s'.asked = Function.update s.asked t (s.asked t ++ more))
    (hpending : pending pc = pending (s.pc t) ++ more) :
    ∀ u, s'.asked u = saidBy u printed ++ pending (s'.pc u) := by
  intro u
  rw [hpc, hasked]
  by_cases hu : u = t
  · rw [hu, Function.update_self, Function.update_self, hpending, h t, List.append_assoc]
  · rw [Function.update_of_ne hu, Function.update_of_ne hu, h u]

theorem asked_kept {s s' : Logger ι} {printed : List (ι × Record)} {t : ι} {pc : Pc}
    (h : ∀ u, s.asked u = saidBy u printed ++ pending (s.pc u))
    (hpc : s'.pc = Function.update s.pc t pc) (hasked : s'.asked = s.asked)
    (hpending : pending pc = pending (s.pc t)) :
    ∀ u, s'.asked u = saidBy u printed ++ pending (s'.pc u) := by
  have hmore : s'.asked = Function.update s.asked t (s.asked t ++ []) := by
    rw [List.append_nil, Function.update_eq_self, hasked]
  refine asked_update h hpc hmore ?_
  rw [List.append_nil, hpending]

/-- A move keeps the books, with the record that it finishes added. -/
theorem Printed.move {s s' : Logger ι} {printed : List (ι × Record)}
    {done : Option (ι × Record)} (h : Printed s printed) (hmove : Move s s' done) :
    Printed s' (printed ++ done.toList) := by
  cases hmove with
  | outside t pc more hpc hbefore hafter hmore hasked hmutex hconsole =>
      rw [Option.toList_none, List.append_nil]
      refine ⟨?_, ?_, asked_update h.asked hpc hasked hmore⟩
      · exact holder_update h.holder hmutex hpc (fun hcritical => absurd hcritical hafter)
      · rw [hconsole, h.console, inHand_same hmutex hpc
          (by rw [handOf_not_critical hbefore, handOf_not_critical hafter])]
  | take t r after hfree hbefore hpc hmutex hconsole hasked =>
      rw [Option.toList_none, List.append_nil]
      refine ⟨?_, ?_, asked_kept h.asked hpc hasked (by rw [hbefore]; rfl)⟩
      · intro u hu
        rw [hpc] at hu
        by_cases hut : u = t
        · rw [hut, hmutex]
        · rw [Function.update_of_ne hut] at hu
          rw [h.holder u hu] at hfree
          cases hfree
      · rw [hconsole, h.console, inHand_holder hmutex, hpc, Function.update_self, handOf,
          shown_begin, inHand, hfree]
        rfl
  | piece t r k after piece hbefore hpiece hpc hmutex hconsole hasked =>
      rw [Option.toList_none, List.append_nil]
      have hholder := h.holder t (by rw [hbefore]; trivial)
      refine ⟨?_, ?_, asked_kept h.asked hpc hasked (by rw [hbefore]; rfl)⟩
      · exact holder_update h.holder hmutex hpc (fun _ => by rw [hbefore]; trivial)
      · rw [hconsole, h.console, inHand_holder hholder, inHand_holder (hmutex.trans hholder), hpc,
          Function.update_self, hbefore, handOf, handOf, shown_emit _ hpiece]
  | stay t pc r hbefore hcritical hafter hstill hpending hpc hmutex hconsole hasked =>
      rw [Option.toList_none, List.append_nil]
      refine ⟨?_, ?_, asked_kept h.asked hpc hasked hpending⟩
      · exact holder_update h.holder hmutex hpc (fun _ => hcritical)
      · rw [hconsole, h.console, inHand_same hmutex hpc (hafter.trans hbefore.symm)]
  | finish t r after hbefore hcritical hpending hpc hmutex hconsole hasked =>
      have hholder := h.holder t hcritical
      have hgone : handOf (.leaving r after) = none := rfl
      refine ⟨?_, ?_, ?_⟩
      · exact holder_update h.holder hmutex hpc (fun _ => hcritical)
      · rw [hconsole, h.console, inHand_holder hholder, inHand_holder (hmutex.trans hholder), hpc,
          Function.update_self, hbefore, hgone, Option.toList_some, List.map_append,
          List.map_singleton, shown_finish _ (Nat.le_of_eq r.length_consolePieces)]
      · intro u
        rw [hasked, hpc, h.asked u]
        by_cases hu : u = t
        · rw [hu, Function.update_self, Option.toList_some, saidBy_append_self, hpending]
          exact (List.append_nil _).symm
        · rw [Function.update_of_ne hu, Option.toList_some, saidBy_append_ne (Ne.symm hu)]
  | give t r pc after hbefore hpc hafter hpending hmutex hconsole hasked =>
      rw [Option.toList_none, List.append_nil]
      have hholder := h.holder t (by rw [hbefore]; trivial)
      refine ⟨?_, ?_, asked_kept h.asked hpc hasked (by rw [hpending, hbefore]; rfl)⟩
      · intro u hu
        rw [hpc] at hu
        by_cases hut : u = t
        · rw [hut, Function.update_self] at hu
          exact absurd hu hafter
        · rw [Function.update_of_ne hut] at hu
          have hsame := h.holder u hu
          rw [hholder] at hsame
          exact absurd (Option.some.inj hsame).symm hut
      · rw [hconsole, h.console, inHand_holder hholder, hbefore, inHand, hmutex]
        rfl

/-- Nothing has been logged yet. -/
structure Fresh (s : Logger ι) : Prop where
  mutex   : s.logMutex = none
  console : s.console = []
  stream  : ∀ f, s.stream f = []
  opened  : s.opened = ∅
  closed  : s.closed = ∅
  logFile : s.logFile = .null
  astray  : s.astray = false
  pc      : ∀ t, s.pc t = .idle
  asked   : ∀ t, s.asked t = []

theorem Fresh.printed {s : Logger ι} (h : Fresh s) : Printed s [] where
  holder t ht := by
    rw [h.pc] at ht
    exact absurd ht id
  console := by
    rw [h.console, inHand, h.mutex]
    rfl
  asked t := by
    rw [h.asked, h.pc]
    rfl

/-- **The console.** Whatever the threads do, one of them at most is between locking and
    unlocking. The console shows whole lines, and behind them what the holder of the mutex
    has out of its own; and every record that got past the test of the level is on it once,
    in the order of its thread, unless it is still pending. -/
theorem console_whole {start s : Logger ι} (h : Fresh start) (hrun : Runs Step anyStep start s) :
    (∀ t u, Critical (s.pc t) → Critical (s.pc u) → t = u) ∧
      ∃ printed : List (ι × Record),
        s.console = shown Record.consolePieces (printed.map Prod.snd) (inHand s) ∧
        ∀ t, s.asked t = saidBy t printed ++ pending (s.pc t) := by
  obtain ⟨printed, hprinted⟩ := hrun.invariant (I := fun s => ∃ printed, Printed s printed)
    (fun s e s' ⟨printed, hprinted⟩ _ hstep => ⟨_, hprinted.move (move_of_step hstep)⟩)
    ⟨[], h.printed⟩
  refine ⟨?_, printed, hprinted.console, hprinted.asked⟩
  intro t u ht hu
  have hsame := hprinted.holder t ht
  rw [hprinted.holder u hu] at hsame
  exact (Option.some.inj hsame).symm

-- ── A thread that nobody disturbs ────────────────────────────────────────────

/-- The thread stands elsewhere, and the mutex and the outputs are as given. -/
def Logger.output (s : Logger ι) (t : ι) (mutex : Option ι) (console : List Char)
    (stream : Nat → List Char) (pc : Pc) : Logger ι :=
  { s with
    logMutex := mutex
    console := console
    stream := stream
    pc := Function.update s.pc t pc }

/-- The steps by which a thread writes its line. -/
inductive Writes (t : ι) : Event ι → Prop where
  | lock : Writes t (.lock t)
  | printf : Writes t (.printf t)
  | check : Writes t (.check t)
  | fprintf : Writes t (.fprintf t)
  | fflush : Writes t (.fflush t)
  | unlock : Writes t (.unlock t)

/-- The regime admits the writing of a line while the others stand where they are. -/
def Admits (P : Logger ι → Event ι → Prop) (s : Logger ι) (t : ι) : Prop :=
  ∀ s' e, (∀ u, u ≠ t → s'.pc u = s.pc u) → Writes t e → P s' e

section Alone

variable {P : Logger ι → Event ι → Prop} {s s' : Logger ι} {t : ι} {r : Record} {after : After}
variable {mutex mutex' : Option ι} {console console' : List Char}
variable {stream stream' : Nat → List Char} {pc pc' : Pc}

/-- The thread that has just moved moves once more. -/
theorem Admits.tail (hP : Admits P s t) (h : Runs Step P s' (s.output t mutex console stream pc))
    {e : Event ι} (he : Writes t e)
    (hstep : Step (s.output t mutex console stream pc) e
      ((s.output t mutex console stream pc).output t mutex' console' stream' pc')) :
    Runs Step P s' (s.output t mutex' console' stream' pc') := by
  have hothers : ∀ u, u ≠ t → (s.output t mutex console stream pc).pc u = s.pc u :=
    fun u hu => Function.update_of_ne hu _ _
  have hsame : (s.output t mutex console stream pc).output t mutex' console' stream' pc' =
      s.output t mutex' console' stream' pc' := by
    rw [Logger.output, Logger.output, Logger.output, Function.update_idem]
  rw [hsame] at hstep
  exact h.tail (hP _ e hothers he) hstep

/-- From in front of the mutex until some pieces are on the console. -/
theorem runs_printf (hP : Admits P s t) (hrun : s.exited = false)
    (hpc : s.pc t = .entering r after) (hfree : s.logMutex = none) (k : Nat) (hk : k ≤ 3) :
    Runs Step P s (s.output t (some t) (s.console ++ (r.consolePieces.take k).flatten) s.stream
      (.printing r k after)) := by
  induction k with
  | zero =>
      rw [List.take_zero, List.flatten_nil, List.append_nil]
      exact Runs.one (hP s _ (fun _ _ => rfl) .lock) (.lock hrun hpc hfree)
  | succ k ih =>
      have hlt : k < r.consolePieces.length := hk
      have hpiece := List.getElem?_eq_getElem hlt
      rw [flatten_take_succ hpiece, ← List.append_assoc]
      exact hP.tail (ih (by omega)) .printf (.printf hrun (Function.update_self ..) hpiece)

/-- The test of `log_file`, behind the last call of `printf`. -/
theorem step_check (hrun : s.exited = false) :
    Step (s.output t mutex console stream (.printing r 3 after)) (.check t)
      ((s.output t mutex console stream (.printing r 3 after)).output t mutex console stream
        (s.logFile.tested r after)) :=
  .check hrun (Function.update_self ..)

/-- A thread writes its line, when there is no log file. -/
theorem runs_printed (hP : Admits P s t) (hrun : s.exited = false)
    (hpc : s.pc t = .entering r after) (hfree : s.logMutex = none)
    (hfile : ∀ f, s.logFile ≠ .file f) :
    Runs Step P s (s.output t none (s.console ++ whole Record.consolePieces r) s.stream
      (.unlocked r after)) := by
  have hprinted := runs_printf hP hrun hpc hfree 3 (Nat.le_refl 3)
  have htested : s.logFile.tested r after = .leaving r after := LogFile.tested_other hfile r after
  have hleaving := hP.tail hprinted .check (step_check hrun)
  rw [htested] at hleaving
  exact hP.tail hleaving .unlock (.unlock hrun (Function.update_self ..))

end Alone

/-- The globals as the program starts. -/
def newLogger : Logger Nat where
  logFile := .null
  minimumLevel := .info
  logMutex := none
  console := []
  stream _ := []
  opened := ∅
  closed := ∅
  astray := false
  exited := false
  pc _ := .idle
  asked _ := []

theorem fresh_newLogger : Fresh newLogger :=
  ⟨rfl, rfl, fun _ => rfl, rfl, rfl, rfl, rfl, fun _ => rfl, fun _ => rfl⟩

/-- One record is on the console, and a second thread has begun with another. -/
theorem console_whole_two :
    ∃ s : Logger Nat, Critical (s.pc 1) ∧
      s.console = whole Record.consolePieces (initRecord "noon".toList .info) ++
        ((closeRecord "one".toList).consolePieces.take 1).flatten ∧
      (∀ t u, Critical (s.pc t) → Critical (s.pc u) → t = u) ∧
      ∃ printed : List (Nat × Record),
        s.console = shown Record.consolePieces (printed.map Prod.snd) (inHand s) ∧
        ∀ t, s.asked t = saidBy t printed ++ pending (s.pc t) := by
  have hadmits : ∀ (s : Logger Nat) (t : Nat), Admits anyStep s t := fun _ _ _ _ _ _ => trivial
  let asked := newLogger.ask 0 (initRecord "noon".toList .info) .returns
  have hcall : Step newLogger (.call 0 (initRecord "noon".toList .info)) asked := .call rfl rfl
  have hfirst : asked.pc 0 = .entering (initRecord "noon".toList .info) .returns := rfl
  have hprinted := (Runs.one (P := anyStep) trivial hcall).trans
    (runs_printed (hadmits asked 0) rfl hfirst rfl fun _ => LogFile.noConfusion)
  let printed := asked.output 0 none
    ([] ++ whole Record.consolePieces (initRecord "noon".toList .info)) (fun _ => []) .idle
  have hagain : Step printed (.call 1 (closeRecord "one".toList))
    (printed.ask 1 (closeRecord "one".toList) .returns) := .call rfl rfl
  have hsecond : (printed.ask 1 (closeRecord "one".toList) .returns).pc 1 =
    .entering (closeRecord "one".toList) .returns := rfl
  have hbegun := (hprinted.tail trivial hagain).trans
    (runs_printf (hadmits _ 1) rfl hsecond rfl 1 (by decide))
  refine ⟨_, ?_, ?_, console_whole fresh_newLogger hbegun⟩
  · exact trivial
  · rfl

end TradeLog
