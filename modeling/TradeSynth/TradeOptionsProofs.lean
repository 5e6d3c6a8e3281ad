import TradeSynth.TradeNumeralsProofs
import TradeSynth.TradeRegistryProofs
import TradeSynth.TradeTextProofs

/-!
# Command lines — what the two programs make of their options

Both programs walk over what `getopt_long` finds and assign to a record of settings. A
number is the `atoi` of its argument, a name is copied with `strncpy` over the name that
stood there before. The server leaves with success at `--help` and with failure at
anything it does not know; the client, which has given `-h` to the host, leaves with
failure at both.

Of several options of one kind the last one decides, also for the names, since `strncpy`
clears what the old name leaves behind; and the last byte of a name is never written, so
that every name is a C string (`options_last`).
-/

namespace TradeOptions

open CheckedMemory TradeTypes TradeStrings TradeNumerals TradeText TradeRegistry

-- ── Arguments ────────────────────────────────────────────────────────────────

/-- An argument of the command line. -/
structure Argument where
  chars : List UInt8
  noNul : 0 ∉ chars

/-- What `optarg` points to. -/
def Argument.memory (optarg : Argument) : List UInt8 := optarg.chars ++ [0]

theorem Argument.cString_memory (optarg : Argument) : cString optarg.memory = optarg.chars :=
  TradeTrim.cString_append optarg.noNul

/-- `atoi`, which is `strtol` cut to an `int`. -/
def atoi (optarg : Argument) : Int := (strtoll (cString optarg.memory)).value.toInt32.toInt

/-- The size of `log_file` and of `server_host`. -/
def nameSize : Nat := 256

/-- `"./server.log"` -/
def serverLog : Argument :=
  ⟨[46, 47, 115, 101, 114, 118, 101, 114, 46, 108, 111, 103], by decide⟩

/-- `"./client.log"` -/
def clientLog : Argument :=
  ⟨[46, 47, 99, 108, 105, 101, 110, 116, 46, 108, 111, 103], by decide⟩

/-- `"localhost"` -/
def defaultHost : Argument := ⟨[108, 111, 99, 97, 108, 104, 111, 115, 116], by decide⟩

/-- A name as the initializer of the settings leaves it: zeros, and a default over them. -/
def initialName (name : Argument) : Checked (Block UInt8 nameSize) :=
  strncpy (Block.fill nameSize 0) name.memory nameSize

/-- The assignment of an option to a name. -/
def assignName (field : Block UInt8 nameSize) (optarg : Argument) :
    Checked (Block UInt8 nameSize) :=
  strncpy field optarg.memory (nameSize - 1)

-- ── The loop ─────────────────────────────────────────────────────────────────

/-- What a command line comes to: settings, or an exit with this code. -/
inductive CommandLine (σ : Type) where
  | settings (settings : σ)
  | exit (code : Int)

def exitSuccess : Int := 0

def exitFailure : Int := 1

/-- The loop over what `getopt_long` finds, with its `switch`. -/
def parse {σ ο : Type} (switch : σ → ο → Checked (CommandLine σ)) (settings : σ) :
    List ο → Checked (CommandLine σ)
  | [] => .ok (.settings settings)
  | option :: rest => do
      let line ← switch settings option
      match line with
      | .settings settings => parse switch settings rest
      | .exit code => pure (.exit code)

-- ── The server's options ─────────────────────────────────────────────────────

inductive ServerOption where
  | port (optarg : Argument)
  | clients (optarg : Argument)
  | timeout (optarg : Argument)
  | logLevel (optarg : Argument)
  | logFile (optarg : Argument)
  | help
  /-- `getopt_long` has complained -/
  | other

structure ServerSettings where
  config   : ServerConfig
  logLevel : Int
  logFile  : Block UInt8 nameSize

def serverSwitch (settings : ServerSettings) :
    ServerOption → Checked (CommandLine ServerSettings)
  | .port optarg =>
      .ok (.settings { settings with config := { settings.config with port := atoi optarg } })
  | .clients optarg =>
      .ok (.settings
        { settings with config := { settings.config with maxClients := atoi optarg } })
  | .timeout optarg =>
      .ok (.settings
        { settings with config := { settings.config with socketTimeout := atoi optarg } })
  | .logLevel optarg => .ok (.settings { settings with logLevel := atoi optarg })
  | .logFile optarg => do
      let logFile ← assignName settings.logFile optarg
      pure (.settings { settings with logFile := logFile })
  | .help => .ok (.exit exitSuccess)
  | .other => .ok (.exit exitFailure)

def serverCommandLine (options : List ServerOption) : Checked (CommandLine ServerSettings) := do
  let logFile ← initialName serverLog
  parse serverSwitch ⟨⟨8080, 100, 30⟩, 2, logFile⟩ options

-- ── The client's options ─────────────────────────────────────────────────────

inductive ClientOption where
  | host (optarg : Argument)
  | port (optarg : Argument)
  | timeout (optarg : Argument)
  | logLevel (optarg : Argument)
  | logFile (optarg : Argument)
  /-- `--help`, or `getopt_long` has complained -/
  | other

structure ClientSettings where
  serverHost    : Block UInt8 nameSize
  serverPort    : Int
  socketTimeout : Int
  logLevel      : Int
  logFile       : Block UInt8 nameSize

def clientSwitch (settings : ClientSettings) :
    ClientOption → Checked (CommandLine ClientSettings)
  | .host optarg => do
      let serverHost ← assignName settings.serverHost optarg
      pure (.settings { settings with serverHost := serverHost })
  | .port optarg => .ok (.settings { settings with serverPort := atoi optarg })
  | .timeout optarg => .ok (.settings { settings with socketTimeout := atoi optarg })
  | .logLevel optarg => .ok (.settings { settings with logLevel := atoi optarg })
  | .logFile optarg => do
      let logFile ← assignName settings.logFile optarg
      pure (.settings { settings with logFile := logFile })
  | .other => .ok (.exit exitFailure)

def clientCommandLine (options : List ClientOption) : Checked (CommandLine ClientSettings) := do
  let serverHost ← initialName defaultHost
  let logFile ← initialName clientLog
  parse clientSwitch ⟨serverHost, 8080, 30, 2, logFile⟩ options

-- ── Names ────────────────────────────────────────────────────────────────────

/-- The array holds the name, cut to one byte less than the array, and zeros behind it. -/
def Holds (field : Block UInt8 nameSize) (name : Argument) : Prop :=
  field.cells = (name.chars.take (nameSize - 1)).rightpad nameSize 0

theorem length_cut (l : List UInt8) : (l.take (nameSize - 1)).length ≤ nameSize - 1 := by
  rw [List.length_take]
  exact Nat.min_le_left _ _

/-- One more cell of padding. -/
theorem rightpad_cut (l : List UInt8) :
    (l.take (nameSize - 1)).rightpad (nameSize - 1) 0 ++ [0] =
      (l.take (nameSize - 1)).rightpad nameSize 0 := by
  have hlen := length_cut l
  have hsize : nameSize - (l.take (nameSize - 1)).length =
      nameSize - 1 - (l.take (nameSize - 1)).length + 1 := by
    have hpos : nameSize = nameSize - 1 + 1 := rfl
    omega
  rw [List.rightpad, List.rightpad, hsize, List.replicate_succ', List.append_assoc]

/-- A new name is written over whatever name stood there. -/
theorem holds_assignName {field : Block UInt8 nameSize} {old : Argument} (h : Holds field old)
    (optarg : Argument) :
    ∃ out, assignName field optarg = .ok out ∧ Holds out optarg := by
  have hlen := length_cut optarg.chars
  have hpad : ((optarg.chars.take (nameSize - 1)).rightpad (nameSize - 1) 0).length =
      nameSize - 1 := by
    rw [List.rightpad, List.length_append, List.length_replicate]
    omega
  have hfit : 0 + ((optarg.chars.take (nameSize - 1)).rightpad (nameSize - 1) 0).length ≤
      nameSize := by
    rw [hpad]
    decide
  have hold : field.cells.drop (nameSize - 1) = [0] := by
    have hlen' := length_cut old.chars
    rw [h, ← rightpad_cut, List.rightpad, List.drop_append_of_le_length, List.drop_of_length_le]
    · rfl
    · rw [List.length_append, List.length_replicate]
      omega
    · rw [List.length_append, List.length_replicate]
      omega
  refine ⟨field.splice 0 _ hfit, ?_, ?_⟩
  · rw [assignName, strncpy, if_neg (fun hno => hno.2 (by simp [Argument.memory])),
      optarg.cString_memory]
    exact field.writeRange_eq hfit
  · rw [Holds, ← rightpad_cut, Block.cells_splice_front, hpad, hold]

theorem holds_initialName {name : Argument} (h : name.chars.length ≤ nameSize - 1) :
    ∃ out, initialName name = .ok out ∧ Holds out name := by
  have hall : name.chars.take nameSize = name.chars.take (nameSize - 1) := by
    rw [List.take_of_length_le h, List.take_of_length_le (by omega)]
  have hlen := length_cut name.chars
  have hpad : ((name.chars.take (nameSize - 1)).rightpad nameSize 0).length = nameSize := by
    rw [List.rightpad, List.length_append, List.length_replicate]
    omega
  have hfit : 0 + ((name.chars.take (nameSize - 1)).rightpad nameSize 0).length ≤ nameSize := by
    omega
  refine ⟨(Block.fill nameSize 0).splice 0 _ hfit, ?_, ?_⟩
  · rw [initialName, strncpy, if_neg (fun hno => hno.2 (by simp [Argument.memory])),
      name.cString_memory, hall]
    exact (Block.fill nameSize 0).writeRange_eq hfit
  · rw [Holds, Block.cells_splice_front, hpad,
      List.drop_of_length_le (Nat.le_of_eq (Block.size _)), List.append_nil]

/-- The string that a name is used as. -/
theorem Holds.cString {field : Block UInt8 nameSize} {name : Argument} (h : Holds field name) :
    Terminated field.cells ∧ cString field.cells = name.chars.take (nameSize - 1) := by
  have hzero : 0 ∉ name.chars.take (nameSize - 1) := fun hmem =>
    name.noNul (List.mem_of_mem_take hmem)
  have hlen := length_cut name.chars
  obtain ⟨k, hk⟩ : ∃ k, nameSize - (name.chars.take (nameSize - 1)).length = k + 1 := by
    have hpos : nameSize = nameSize - 1 + 1 := rfl
    exact ⟨nameSize - 1 - (name.chars.take (nameSize - 1)).length, by omega⟩
  have hcells : field.cells = name.chars.take (nameSize - 1) ++ 0 :: List.replicate k 0 := by
    rw [h, List.rightpad, hk, List.replicate_succ]
  rw [hcells]
  exact ⟨List.mem_append_right _ List.mem_cons_self, TradeTrim.cString_append hzero⟩

-- ── The last option decides ──────────────────────────────────────────────────

/-- The value of the last option that has one. -/
def lastOf {ο β : Type} (value? : ο → Option β) (default : β) (options : List ο) : β :=
  options.foldl (fun b option => (value? option).getD b) default

theorem lastOf_concat {ο β : Type} (value? : ο → Option β) (default : β) (seen : List ο)
    (option : ο) :
    lastOf value? default (seen ++ [option]) =
      (value? option).getD (lastOf value? default seen) := by
  rw [lastOf, List.foldl_append]
  rfl

/-- A relation between the options that were seen and the settings, kept by each turn of
    the loop, holds at its end; and the first option with an exit code ends the program. -/
theorem parse_spec {σ ο : Type} {switch : σ → ο → Checked (CommandLine σ)}
    {exit? : ο → Option Int} {I : List ο → σ → Prop}
    (hexit : ∀ s option code, exit? option = some code →
      switch s option = .ok (.exit code))
    (hstep : ∀ seen s option, I seen s → exit? option = none →
      ∃ s', switch s option = .ok (.settings s') ∧ I (seen ++ [option]) s')
    (options : List ο) :
    ∀ (seen : List ο) (s : σ), I seen s →
      (∃ code, options.findSome? exit? = some code ∧ parse switch s options = .ok (.exit code)) ∨
        options.findSome? exit? = none ∧
          ∃ s', parse switch s options = .ok (.settings s') ∧ I (seen ++ options) s' := by
  induction options with
  | nil =>
      intro seen s hs
      rw [List.append_nil]
      exact Or.inr ⟨rfl, s, rfl, hs⟩
  | cons option rest ih =>
      intro seen s hs
      rw [parse, List.findSome?_cons]
      cases hcode : exit? option with
      | some code =>
          rw [hexit s option code hcode]
          exact Or.inl ⟨code, rfl, rfl⟩
      | none =>
          obtain ⟨s', hswitch, hs'⟩ := hstep seen s option hs hcode
          rw [hswitch, ok_bind]
          have hrest := ih (seen ++ [option]) s' hs'
          rw [List.append_assoc, List.singleton_append] at hrest
          exact hrest

-- ── Both command lines ───────────────────────────────────────────────────────

namespace ServerOption

def exit? : ServerOption → Option Int
  | help => some exitSuccess
  | other => some exitFailure
  | _ => none

def port? : ServerOption → Option Int
  | port optarg => some (atoi optarg)
  | _ => none

def clients? : ServerOption → Option Int
  | clients optarg => some (atoi optarg)
  | _ => none

def timeout? : ServerOption → Option Int
  | timeout optarg => some (atoi optarg)
  | _ => none

def logLevel? : ServerOption → Option Int
  | logLevel optarg => some (atoi optarg)
  | _ => none

def logFile? : ServerOption → Option Argument
  | logFile optarg => some optarg
  | _ => none

end ServerOption

namespace ClientOption

def exit? : ClientOption → Option Int
  | other => some exitFailure
  | _ => none

def host? : ClientOption → Option Argument
  | host optarg => some optarg
  | _ => none

def port? : ClientOption → Option Int
  | port optarg => some (atoi optarg)
  | _ => none

def timeout? : ClientOption → Option Int
  | timeout optarg => some (atoi optarg)
  | _ => none

def logLevel? : ClientOption → Option Int
  | logLevel optarg => some (atoi optarg)
  | _ => none

def logFile? : ClientOption → Option Argument
  | logFile optarg => some optarg
  | _ => none

end ClientOption

/-- The server's settings are those of the last options. -/
structure ServerLast (options : List ServerOption) (settings : ServerSettings) : Prop where
  port     : settings.config.port = lastOf ServerOption.port? 8080 options
  clients  : settings.config.maxClients = lastOf ServerOption.clients? 100 options
  timeout  : settings.config.socketTimeout = lastOf ServerOption.timeout? 30 options
  logLevel : settings.logLevel = lastOf ServerOption.logLevel? 2 options
  logFile  : Holds settings.logFile (lastOf ServerOption.logFile? serverLog options)

/-- The client's settings are those of the last options. -/
structure ClientLast (options : List ClientOption) (settings : ClientSettings) : Prop where
  host     : Holds settings.serverHost (lastOf ClientOption.host? defaultHost options)
  port     : settings.serverPort = lastOf ClientOption.port? 8080 options
  timeout  : settings.socketTimeout = lastOf ClientOption.timeout? 30 options
  logLevel : settings.logLevel = lastOf ClientOption.logLevel? 2 options
  logFile  : Holds settings.logFile (lastOf ClientOption.logFile? clientLog options)

theorem ServerLast.step {seen : List ServerOption} {settings : ServerSettings}
    {option : ServerOption} (h : ServerLast seen settings) (hexit : option.exit? = none) :
    ∃ settings', serverSwitch settings option = .ok (.settings settings') ∧
      ServerLast (seen ++ [option]) settings' := by
  obtain ⟨hport, hclients, htimeout, hlevel, hfile⟩ := h
  cases option with
  | help => cases hexit
  | other => cases hexit
  | logFile optarg =>
      obtain ⟨logFile, hassign, hholds⟩ := holds_assignName hfile optarg
      refine ⟨{ settings with logFile := logFile }, ?_, ?_⟩
      · rw [serverSwitch, hassign]
        rfl
      · constructor <;> simp only [lastOf_concat]
        · exact hport
        · exact hclients
        · exact htimeout
        · exact hlevel
        · exact hholds
  | port optarg =>
      refine ⟨_, rfl, ?_⟩
      constructor <;> simp only [lastOf_concat]
      · rfl
      · exact hclients
      · exact htimeout
      · exact hlevel
      · exact hfile
  | clients optarg =>
      refine ⟨_, rfl, ?_⟩
      constructor <;> simp only [lastOf_concat]
      · exact hport
      · rfl
      · exact htimeout
      · exact hlevel
      · exact hfile
  | timeout optarg =>
      refine ⟨_, rfl, ?_⟩
      constructor <;> simp only [lastOf_concat]
      · exact hport
      · exact hclients
      · rfl
      · exact hlevel
      · exact hfile
  | logLevel optarg =>
      refine ⟨_, rfl, ?_⟩
      constructor <;> simp only [lastOf_concat]
      · exact hport
      · exact hclients
      · exact htimeout
      · rfl
      · exact hfile

theorem ClientLast.step {seen : List ClientOption} {settings : ClientSettings}
    {option : ClientOption} (h : ClientLast seen settings) (hexit : option.exit? = none) :
    ∃ settings', clientSwitch settings option = .ok (.settings settings') ∧
      ClientLast (seen ++ [option]) settings' := by
  obtain ⟨hhost, hport, htimeout, hlevel, hfile⟩ := h
  cases option with
  | other => cases hexit
  | host optarg =>
      obtain ⟨serverHost, hassign, hholds⟩ := holds_assignName hhost optarg
      refine ⟨{ settings with serverHost := serverHost }, ?_, ?_⟩
      · rw [clientSwitch, hassign]
        rfl
      · constructor <;> simp only [lastOf_concat]
        · exact hholds
        · exact hport
        · exact htimeout
        · exact hlevel
        · exact hfile
  | logFile optarg =>
      obtain ⟨logFile, hassign, hholds⟩ := holds_assignName hfile optarg
      refine ⟨{ settings with logFile := logFile }, ?_, ?_⟩
      · rw [clientSwitch, hassign]
        rfl
      · constructor <;> simp only [lastOf_concat]
        · exact hhost
        · exact hport
        · exact htimeout
        · exact hlevel
        · exact hholds
  | port optarg =>
      refine ⟨_, rfl, ?_⟩
      constructor <;> simp only [lastOf_concat]
      · exact hhost
      · rfl
      · exact htimeout
      · exact hlevel
      · exact hfile
  | timeout optarg =>
      refine ⟨_, rfl, ?_⟩
      constructor <;> simp only [lastOf_concat]
      · exact hhost
      · exact hport
      · rfl
      · exact hlevel
      · exact hfile
  | logLevel optarg =>
      refine ⟨_, rfl, ?_⟩
      constructor <;> simp only [lastOf_concat]
      · exact hhost
      · exact hport
      · exact htimeout
      · rfl
      · exact hfile

/-- Where a command line comes to. -/
structure Leads {σ ο : Type} (exit? : ο → Option Int) (Last : List ο → σ → Prop)
    (options : List ο) (line : CommandLine σ) : Prop where
  exits : ∀ code, line = .exit code ↔ options.findSome? exit? = some code
  last  : ∀ settings, line = .settings settings →
    options.findSome? exit? = none ∧ Last options settings

theorem leads_of_spec {σ ο : Type} {exit? : ο → Option Int} {Last : List ο → σ → Prop}
    {options : List ο} {result : Checked (CommandLine σ)}
    (h : (∃ code, options.findSome? exit? = some code ∧ result = .ok (.exit code)) ∨
      options.findSome? exit? = none ∧
        ∃ s', result = .ok (.settings s') ∧ Last options s') :
    ∃ line, result = .ok line ∧ Leads exit? Last options line := by
  rcases h with ⟨code, hcode, hresult⟩ | ⟨hnone, s', hresult, hlast⟩
  · refine ⟨_, hresult, ?_, fun settings heq => by cases heq⟩
    intro code'
    rw [hcode, CommandLine.exit.injEq, Option.some.injEq]
  · refine ⟨_, hresult, ?_, ?_⟩
    · intro code'
      rw [hnone]
      exact ⟨fun heq => (by cases heq), fun heq => (by cases heq)⟩
    · rintro settings ⟨⟩
      exact ⟨hnone, hlast⟩

theorem serverCommandLine_leads (options : List ServerOption) :
    ∃ line, serverCommandLine options = .ok line ∧
      Leads ServerOption.exit? ServerLast options line := by
  obtain ⟨logFile, hinit, hholds⟩ := @holds_initialName serverLog (by decide)
  rw [serverCommandLine, hinit, ok_bind]
  refine leads_of_spec (parse_spec (I := ServerLast) ?_ ?_ options [] _ ?_)
  · intro s option code hcode
    cases option <;> cases hcode <;> rfl
  · exact fun seen s option h hexit => h.step hexit
  · exact ⟨rfl, rfl, rfl, rfl, hholds⟩

theorem clientCommandLine_leads (options : List ClientOption) :
    ∃ line, clientCommandLine options = .ok line ∧
      Leads ClientOption.exit? ClientLast options line := by
  obtain ⟨serverHost, hhost, hholds⟩ := @holds_initialName defaultHost (by decide)
  obtain ⟨logFile, hfile, hholds'⟩ := @holds_initialName clientLog (by decide)
  rw [clientCommandLine, hhost, ok_bind, hfile, ok_bind]
  refine leads_of_spec (parse_spec (I := ClientLast) ?_ ?_ options [] _ ?_)
  · intro s option code hcode
    cases option <;> cases hcode
    rfl
  · exact fun seen s option h hexit => h.step hexit
  · exact ⟨hholds, rfl, rfl, rfl, hholds'⟩

/-- **The last option decides.** Every command line of either program is read without a
    fault. It ends the program with the code of its first option that does, and otherwise
    leaves the settings that the last option of each kind asks for; and a name that is
    held is a C string, the argument cut to 255 bytes. -/
theorem options_last (server : List ServerOption) (client : List ClientOption) :
    (∃ line, serverCommandLine server = .ok line ∧
      Leads ServerOption.exit? ServerLast server line) ∧
    (∃ line, clientCommandLine client = .ok line ∧
      Leads ClientOption.exit? ClientLast client line) ∧
    ∀ field name, Holds field name →
      Terminated field.cells ∧ cString field.cells = name.chars.take (nameSize - 1) :=
  ⟨serverCommandLine_leads server, clientCommandLine_leads client, fun _ _ h => h.cString⟩

end TradeOptions
