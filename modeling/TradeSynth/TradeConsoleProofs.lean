import Mathlib.Data.List.Forall2
import Mathlib.Data.List.TakeWhile
import TradeSynth.TradeQuotesProofs
import TradeSynth.TradeSendersProofs
import TradeSynth.TradeTrimProofs

/-!
# The console — what the user types, and what the server is asked for

The loop of the client's `main` reads from the terminal with `fgets` into an array of
`MAX_SYMBOL_LENGTH` bytes, cuts what it read at the newline, and asks the server for it,
until the user types `quit` or there is nothing more to read. The receiver thread may
take the connection away at any time.

* Whatever is typed, the loop stays inside its array, and each request that it sends
  decodes to the symbol of its read (`console_requests`).
* A line that fits is asked for as it was typed. A longer one is taken apart into pieces
  of fifteen bytes (`asked_lines`).
-/

namespace TradeConsole

open CheckedMemory FixedCodec TradeTypes TradeCodec TradeWire TradeRegistry TradeHandlers
  TradeDispatch TradeSenders TradeStrings

-- ── Reading ──────────────────────────────────────────────────────────────────

/-- The bytes that a call of `fgets` stores in front of the NUL, and the input behind
    them: at most `room` bytes, and none behind a newline. -/
def fgets : Nat → List UInt8 → List UInt8 × List UInt8
  | 0, input => ([], input)
  | _ + 1, [] => ([], [])
  | room + 1, b :: rest =>
      if b = 10 then ([b], rest) else (b :: (fgets room rest).1, (fgets room rest).2)

theorem fgets_append (room : Nat) :
    ∀ input, (fgets room input).1 ++ (fgets room input).2 = input := by
  induction room with
  | zero => exact fun input => rfl
  | succ room ih =>
      intro input
      cases input with
      | nil => rfl
      | cons b rest =>
          rw [fgets]
          split
          · rfl
          · exact congrArg (b :: ·) (ih rest)

theorem length_fgets_le (room : Nat) : ∀ input, (fgets room input).1.length ≤ room := by
  induction room with
  | zero => exact fun input => Nat.le_refl 0
  | succ room ih =>
      intro input
      cases input with
      | nil => exact Nat.zero_le _
      | cons b rest =>
          rw [fgets]
          split
          · exact Nat.succ_le_succ (Nat.zero_le room)
          · exact Nat.succ_le_succ (ih rest)

/-- A call that finds input takes some of it. -/
theorem length_fgets_lt {room : Nat} {input : List UInt8} (h : input ≠ []) :
    (fgets (room + 1) input).2.length < input.length := by
  cases input with
  | nil => exact absurd rfl h
  | cons b rest =>
      rw [fgets]
      split
      · exact Nat.lt_succ_self _
      · have hall := congrArg List.length (fgets_append room rest)
        rw [List.length_append] at hall
        rw [List.length_cons]
        dsimp only
        omega

/-- What the calls of `fgets` return, one after the other, until the input is used up. -/
def reads (input : List UInt8) : List (List UInt8) :=
  if input = [] then []
  else (fgets (maxSymbolLength - 1) input).1 :: reads (fgets (maxSymbolLength - 1) input).2
termination_by input.length
decreasing_by exact length_fgets_lt ‹_›

-- ── The loop ─────────────────────────────────────────────────────────────────

/-- `"quit"` -/
def quit : List UInt8 := [113, 117, 105, 116]

/-- The scan of `strcspn(symbol, "\n")`, which ends at a newline or at the NUL. -/
def strcspn (symbol : Block UInt8 maxSymbolLength) : Checked Nat := do
  let found ← symbol.findFrom (fun b => b == 10 || b == 0) 0 (maxSymbolLength + 1)
  match found with
  | some k => pure k
  | none => .error ⟨maxSymbolLength⟩

/-- Store a line, and cut it at the newline. -/
def enter (symbol : Block UInt8 maxSymbolLength) (line : List UInt8) :
    Checked (Block UInt8 maxSymbolLength) := do
  let symbol ← symbol.writeRange 0 (line ++ [0])
  let stop ← strcspn symbol
  symbol.write stop 0

/-- What a request meets: the state the receiver thread has left, the clock, and the
    result of `send`. -/
structure Moment where
  state : ClientState
  now   : Int64
  send  : List UInt8 → Int

/-- The loop, over what the calls of `fgets` return; `k` counts its iterations. -/
def console (moments : Nat → Moment) : Nat → Block UInt8 maxSymbolLength → ClientContext →
    List (List UInt8) → Checked (ClientContext × List Syscall)
  | _, _, context, [] => .ok (context, [])
  | k, symbol, context, line :: rest => do
      let symbol ← enter symbol line
      if cString symbol.cells = quit then pure (context, [])
      else do
        let length ← strlen symbol
        if length = 0 then console moments (k + 1) symbol context rest
        else do
          let sent ← requestMarketData { context with state := (moments k).state }
            symbol.cells (moments k).now (moments k).send
          let later ← console moments (k + 1) symbol sent.2.1 rest
          pure (later.1, sent.2.2 ++ later.2)

-- ── What it is to do ─────────────────────────────────────────────────────────

/-- A line up to its newline, or up to a NUL that was typed. -/
def upToNewline (line : List UInt8) : List UInt8 :=
  line.takeWhile (fun b => !(b == 10 || b == 0))

/-- The symbols that are asked for, with the numbers of their iterations: the lines in
    front of `quit` that are not empty. -/
def asked (k : Nat) (lines : List (List UInt8)) : List (List UInt8 × Nat) :=
  (((lines.map upToNewline).takeWhile (· ≠ quit)).zipIdx k).filter (·.1 ≠ [])

/-- The bytes are a market data message with exactly this symbol. -/
def Requests (bytes symbol : List UInt8) : Prop :=
  ∀ prior, ∃ m, deserializeMessage (Block.ofList bytes) bytes.length prior = .ok (.success, m) ∧
    m.type = .known .marketData ∧ cString m.marketData.symbol.cells = symbol

/-- The call sends a request for the symbol. -/
def Asks (moments : Nat → Moment) (fd : Int) (call : Syscall) (entry : List UInt8 × Nat) :
    Prop :=
  ∃ bytes, call = .sent fd bytes ((moments entry.2).send bytes) ∧ Requests bytes entry.1

/-- The call was one of `send` that did not fail. -/
def accepted : Syscall → Bool
  | .sent _ _ result => decide (0 ≤ result)
  | _ => false

-- ── One line ─────────────────────────────────────────────────────────────────

/-- A line with a NUL behind it begins with what stands in front of its newline. -/
theorem split_line (line rest : List UInt8) :
    ∃ a rest', line ++ 0 :: rest = upToNewline line ++ a :: rest' ∧
      (a == 10 || a == 0) = true := by
  induction line with
  | nil => exact ⟨0, rest, rfl, rfl⟩
  | cons b line ih =>
      by_cases hb : (b == 10 || b == 0) = true
      · refine ⟨b, line ++ 0 :: rest, ?_, hb⟩
        rw [upToNewline, List.takeWhile_cons_of_neg (by rw [hb]; exact Bool.false_ne_true)]
        rfl
      · obtain ⟨a, rest', heq, ha⟩ := ih
        refine ⟨a, rest', ?_, ha⟩
        rw [upToNewline, List.takeWhile_cons_of_pos (by simpa using hb), List.cons_append, heq]
        rfl

theorem upToNewline_ne {line : List UInt8} {b : UInt8} (h : b ∈ upToNewline line) :
    (b == 10 || b == 0) = false := by
  have hb := List.mem_takeWhile_imp h
  simpa using hb

/-- A line that fits becomes the C string in front of its newline. -/
theorem enter_spec (symbol : Block UInt8 maxSymbolLength) {line : List UInt8}
    (h : line.length < maxSymbolLength) :
    ∃ symbol', enter symbol line = .ok symbol' ∧ Terminated symbol'.cells ∧
      cString symbol'.cells = upToNewline line := by
  have hfit : 0 + (line ++ [0]).length ≤ maxSymbolLength := by
    rw [List.length_append, List.length_singleton]
    omega
  have hcells : (symbol.splice 0 (line ++ [0]) hfit).cells =
      line ++ 0 :: symbol.cells.drop (0 + (line ++ [0]).length) := by
    rw [Block.splice]
    simp only [List.take_zero, List.nil_append, List.append_assoc, List.singleton_append]
  obtain ⟨a, rest, hsplit, ha⟩ := split_line line (symbol.cells.drop (0 + (line ++ [0]).length))
  rw [hsplit] at hcells
  have hlen := congrArg List.length hcells
  rw [Block.size, List.length_append, List.length_cons] at hlen
  have hfind : (symbol.splice 0 (line ++ [0]) hfit).findFrom (fun b => b == 10 || b == 0) 0
      (maxSymbolLength + 1) = .ok (some (0 + (upToNewline line).length)) :=
    @Block.findFrom_skip _ _ _ _ [] _ _ _ hcells (fun b hb => upToNewline_ne hb) ha _ (by omega)
  obtain ⟨out, hwrite, hout⟩ := @Block.write_skip _ _ _ [] _ _ _ hcells 0
  have hzero : (0 : UInt8) ∉ upToNewline line := by
    intro hmem
    have hne := upToNewline_ne hmem
    exact absurd hne (by decide)
  refine ⟨out, ?_, ?_, ?_⟩
  · rw [enter, symbol.writeRange_eq hfit, ok_bind, strcspn, hfind]
    exact hwrite
  · rw [Terminated, hout]
    exact List.mem_append_right _ (List.mem_append_right _ List.mem_cons_self)
  · rw [hout, List.nil_append, TradeTrim.cString_append hzero]

/-- The field of a request holds the whole of a string that fits. -/
theorem cString_symbolField {cells : List UInt8} (h : (cString cells).length < maxSymbolLength) :
    cString (symbolField cells).cells = cString cells := by
  have hzero : (0 : UInt8) ∉ cString cells := by
    intro hmem
    have hne := List.mem_takeWhile_imp hmem
    exact absurd hne (by decide)
  obtain ⟨k, hk⟩ : ∃ k, maxSymbolLength - (cString cells).length = k + 1 :=
    ⟨maxSymbolLength - (cString cells).length - 1, by omega⟩
  rw [symbolField]
  dsimp only
  rw [List.take_of_length_le (by omega), List.rightpad, hk, List.replicate_succ,
    TradeTrim.cString_append hzero]

/-- What a request puts on the wire decodes to its symbol. -/
theorem requests_of_carries {cells : List UInt8} {now : Int64} {f : Frame}
    (h : (cString cells).length < maxSymbolLength) (hf : Carries (quoteMessage cells now) f) :
    Requests f.bytes (cString cells) := by
  intro prior
  have hsize := f.length_bytes
  have hdecode : deserializeMessage (Block.ofList f.bytes) f.bytes.length prior =
      .ok (.success, prior.load f.type f.payload) :=
    deserialize_frame (Nat.le_refl _) (by omega) (List.take_of_length_le (by simp)) prior
  have hload := carries_load prior f
  have htype : f.type = .known .marketData := hf.1.symm
  have hview : (prior.load f.type f.payload).marketData =
      { dummyData with symbol := symbolField cells } := by
    have hsame := view_of_carries MarketData.codec hf hload (by rw [htype]; rfl)
    rw [Message.marketData, hsame, quoteMessage, take_unionOf, MarketData.codec.decode_encode]
  refine ⟨_, hdecode, by rw [hload.1, htype], ?_⟩
  rw [hview]
  exact cString_symbolField h

/-- A request on a connected client is one `send`, which is counted unless it fails. -/
theorem requestMarketData_connected {context : ClientContext}
    (hs : context.state = .connected) (symbol : List UInt8) (now : Int64)
    (send : List UInt8 → Int) {f : Frame} (hf : Carries (quoteMessage symbol now) f) :
    ∃ code context', requestMarketData context symbol now send =
        .ok (code, context', [.sent context.socket f.bytes (send f.bytes)]) ∧
      context'.socket = context.socket ∧ context'.messagesSent = context.messagesSent +
        UInt64.ofNat ([Syscall.sent context.socket f.bytes (send f.bytes)].countP accepted) := by
  obtain ⟨out, hser, hread⟩ := serialize_readback hf
  have hpos := f.size_pos
  rw [requestMarketData, if_neg (not_not_intro hs), hser, ok_bind]
  dsimp only
  rw [sizeT_frame, if_neg (by omega), hread, ok_bind]
  by_cases herror : send f.bytes < 0
  · have hrefused : accepted (.sent context.socket f.bytes (send f.bytes)) = false :=
      decide_eq_false (by omega)
    rw [if_pos herror, List.countP_singleton, hrefused]
    exact ⟨_, context, rfl, rfl, by simp⟩
  · have htaken : accepted (.sent context.socket f.bytes (send f.bytes)) = true :=
      decide_eq_true (by omega)
    rw [if_neg herror, List.countP_singleton, htaken]
    exact ⟨_, _, rfl, rfl, rfl⟩

-- ── The whole input ──────────────────────────────────────────────────────────

theorem asked_quit {line : List UInt8} (h : upToNewline line = quit) (k : Nat)
    (rest : List (List UInt8)) : asked k (line :: rest) = [] := by
  rw [asked, List.map_cons, List.takeWhile_cons_of_neg (by simpa using h)]
  rfl

theorem asked_cons {line : List UInt8} (h : upToNewline line ≠ quit) (k : Nat)
    (rest : List (List UInt8)) :
    asked k (line :: rest) =
      (if upToNewline line = [] then [] else [(upToNewline line, k)]) ++ asked (k + 1) rest := by
  rw [asked, List.map_cons, List.takeWhile_cons_of_pos (by simpa using h), List.zipIdx_cons,
    List.filter_cons]
  by_cases hempty : upToNewline line = []
  · simp [hempty, asked]
  · simp [hempty, asked]

/-- The entries whose iteration finds the client connected. -/
def connectedOnes (moments : Nat → Moment) (entries : List (List UInt8 × Nat)) :
    List (List UInt8 × Nat) :=
  entries.filter (fun entry => (moments entry.2).state = .connected)

/-- Over any reads that fit the array, the loop asks for what it is to ask for. -/
theorem console_spec (moments : Nat → Moment) (lines : List (List UInt8)) :
    ∀ (k : Nat) (symbol : Block UInt8 maxSymbolLength) (context : ClientContext),
      (∀ line ∈ lines, line.length < maxSymbolLength) →
      ∃ context' calls, console moments k symbol context lines = .ok (context', calls) ∧
        List.Forall₂ (Asks moments context.socket) calls
          (connectedOnes moments (asked k lines)) ∧
        context'.messagesSent =
          context.messagesSent + UInt64.ofNat (calls.countP accepted) ∧
        context'.socket = context.socket := by
  induction lines with
  | nil =>
      intro k symbol context _
      exact ⟨context, [], rfl, .nil, by simp, rfl⟩
  | cons line rest ih =>
      intro k symbol context hfits
      obtain ⟨symbol', henter, hterminated, hsymbol⟩ :=
        enter_spec symbol (hfits line List.mem_cons_self)
      have hrest := fun l hl => hfits l (List.mem_cons_of_mem line hl)
      rw [console, henter, ok_bind, hsymbol]
      by_cases hquit : upToNewline line = quit
      · rw [if_pos hquit, asked_quit hquit]
        exact ⟨context, [], rfl, .nil, by simp, rfl⟩
      rw [if_neg hquit, asked_cons hquit]
      obtain ⟨length, -, hlength⟩ := strlen_terminated hterminated
      have hzero := strlen_zero_iff hlength
      rw [hsymbol] at hzero
      rw [hlength, ok_bind]
      by_cases hempty : upToNewline line = []
      · rw [if_pos (hzero.mpr hempty), if_pos hempty, List.nil_append]
        exact ih (k + 1) symbol' context hrest
      rw [if_neg (fun h => hempty (hzero.mp h)), if_neg hempty, List.singleton_append]
      by_cases hs : (moments k).state = .connected
      · have hshort : (cString symbol'.cells).length < maxSymbolLength := by
          rw [← strlen_eq_length hlength]
          exact strlen_lt hlength
        obtain ⟨f, hf, -⟩ := exists_carries
          (m := quoteMessage symbol'.cells (moments k).now) rfl
        have hready : { context with state := (moments k).state }.state = .connected := hs
        obtain ⟨code, context', hrequest, hsocket, hcount⟩ := requestMarketData_connected hready
          symbol'.cells (moments k).now (moments k).send hf
        obtain ⟨last, calls, hlater, hcalls, hsent, hkeeps⟩ := ih (k + 1) symbol' context' hrest
        rw [hsocket] at hcalls
        have hasks : Requests f.bytes (upToNewline line) := by
          rw [← hsymbol]
          exact requests_of_carries hshort hf
        have hkept : connectedOnes moments ((upToNewline line, k) :: asked (k + 1) rest) =
            (upToNewline line, k) :: connectedOnes moments (asked (k + 1) rest) :=
          List.filter_cons_of_pos (by simpa using hs)
        rw [hrequest, ok_bind, hlater, hkept]
        refine ⟨last, _, rfl, .cons ⟨f.bytes, rfl, hasks⟩ hcalls, ?_, hkeeps.trans hsocket⟩
        dsimp only
        rw [hsent, hcount, List.countP_append, UInt64.ofNat_add, UInt64.add_assoc]
      · obtain ⟨last, calls, hlater, hcalls, hsent, hkeeps⟩ :=
          ih (k + 1) symbol' { context with state := (moments k).state } hrest
        have hdropped : connectedOnes moments ((upToNewline line, k) :: asked (k + 1) rest) =
            connectedOnes moments (asked (k + 1) rest) :=
          List.filter_cons_of_neg (by simpa using hs)
        rw [requestMarketData, if_pos hs, ok_bind, hlater, hdropped]
        exact ⟨last, calls, rfl, hcalls, hsent, hkeeps⟩

-- ── Reads ────────────────────────────────────────────────────────────────────

theorem reads_nil : reads [] = [] := by rw [reads, if_pos rfl]

theorem reads_ne_nil {input : List UInt8} (h : input ≠ []) :
    reads input = (fgets (maxSymbolLength - 1) input).1 ::
      reads (fgets (maxSymbolLength - 1) input).2 := by rw [reads, if_neg h]

/-- Every read leaves room for the NUL. -/
theorem length_reads {input line : List UInt8} (h : line ∈ reads input) :
    line.length < maxSymbolLength := by
  induction input using reads.induct with
  | case1 =>
      rw [reads_nil] at h
      cases h
  | case2 input hne ih =>
      rw [reads_ne_nil hne] at h
      rcases List.mem_cons.mp h with rfl | h
      · have hle := length_fgets_le (maxSymbolLength - 1) input
        simp only [maxSymbolLength] at hle ⊢
        omega
      · exact ih h

/-- Nothing that is typed is lost between two reads. -/
theorem reads_flatten (input : List UInt8) : (reads input).flatten = input := by
  induction input using reads.induct with
  | case1 =>
      rw [reads_nil]
      rfl
  | case2 input hne ih =>
      rw [reads_ne_nil hne, List.flatten_cons, ih, fgets_append]

/-- **The console.** Whatever is typed, and whatever the array held before: the loop
    stays inside its memory. In each iteration with a symbol to ask for that finds the
    client connected it makes one call of `send`, of bytes that decode to that symbol;
    it makes no others, and counts those that did not fail. -/
theorem console_requests (input : List UInt8) (symbol : Block UInt8 maxSymbolLength)
    (context : ClientContext) (moments : Nat → Moment) :
    ∃ context' calls, console moments 0 symbol context (reads input) = .ok (context', calls) ∧
      List.Forall₂ (Asks moments context.socket) calls
        (connectedOnes moments (asked 0 (reads input))) ∧
      context'.messagesSent = context.messagesSent + UInt64.ofNat (calls.countP accepted) ∧
      (reads input).flatten = input := by
  obtain ⟨context', calls, hconsole, hcalls, hsent, -⟩ :=
    console_spec moments (reads input) 0 symbol context (fun line hline => length_reads hline)
  exact ⟨context', calls, hconsole, hcalls, hsent, reads_flatten input⟩

-- ── Lines ────────────────────────────────────────────────────────────────────

/-- A line, taken apart into pieces of one less than `MAX_SYMBOL_LENGTH` bytes, and what
    is left of it. -/
def pieces (line : List UInt8) : List (List UInt8) :=
  if line.length < maxSymbolLength - 1 then [line]
  else line.take (maxSymbolLength - 1) :: pieces (line.drop (maxSymbolLength - 1))
termination_by line.length
decreasing_by
  simp only [maxSymbolLength, List.length_drop] at *
  omega

/-- A line without a newline and without a NUL. -/
def Plain (line : List UInt8) : Prop := ∀ b ∈ line, (b == 10 || b == 0) = false

/-- A read takes a line with its newline, if there is room for both. -/
theorem fgets_line {room : Nat} {line : List UInt8} (hplain : Plain line)
    (h : line.length < room) (rest : List UInt8) :
    fgets room (line ++ 10 :: rest) = (line ++ [10], rest) := by
  induction line generalizing room with
  | nil =>
      obtain ⟨room, rfl⟩ : ∃ r, room = r + 1 := ⟨room - 1, by omega⟩
      rw [List.nil_append, fgets, if_pos rfl]
      rfl
  | cons b line ih =>
      obtain ⟨room, rfl⟩ : ∃ r, room = r + 1 :=
        ⟨room - 1, by rw [List.length_cons] at h; omega⟩
      have hb : b ≠ 10 := by
        rintro rfl
        exact absurd (hplain 10 List.mem_cons_self) (by decide)
      rw [List.cons_append, fgets, if_neg hb,
        ih (fun c hc => hplain c (List.mem_cons_of_mem b hc)) (Nat.lt_of_succ_lt_succ h)]
      rfl

/-- A read takes as much of a longer line as there is room for. -/
theorem fgets_part {room : Nat} {line : List UInt8} (hplain : Plain line)
    (h : room ≤ line.length) (rest : List UInt8) :
    fgets room (line ++ rest) = (line.take room, line.drop room ++ rest) := by
  induction line generalizing room with
  | nil =>
      obtain rfl : room = 0 := Nat.le_zero.mp h
      rfl
  | cons b line ih =>
      cases room with
      | zero => rfl
      | succ room =>
          have hb : b ≠ 10 := by
            rintro rfl
            exact absurd (hplain 10 List.mem_cons_self) (by decide)
          rw [List.cons_append, fgets, if_neg hb,
            ih (fun c hc => hplain c (List.mem_cons_of_mem b hc)) (Nat.le_of_succ_le_succ h)]
          rfl

theorem upToNewline_plain {line : List UInt8} (h : Plain line) (tail : List UInt8) :
    upToNewline (line ++ 10 :: tail) = line := by
  rw [upToNewline, List.takeWhile_append_of_pos (fun b hb => by rw [h b hb]; rfl)]
  exact List.append_nil line

/-- The reads of a line are its pieces. -/
theorem reads_line {line : List UInt8} (hplain : Plain line) (rest : List UInt8) :
    (reads (line ++ 10 :: rest)).map upToNewline =
      pieces line ++ (reads rest).map upToNewline := by
  induction line using pieces.induct with
  | case1 line hshort =>
      rw [reads_ne_nil (by simp), fgets_line hplain hshort, pieces, if_pos hshort]
      simp only [List.map_cons, upToNewline_plain hplain, List.singleton_append]
  | case2 line hlong ih =>
      have hdrop : Plain (line.drop (maxSymbolLength - 1)) :=
        fun b hb => hplain b (List.mem_of_mem_drop hb)
      have htake : upToNewline (line.take (maxSymbolLength - 1)) =
          line.take (maxSymbolLength - 1) := by
        refine List.takeWhile_eq_self_iff.mpr (fun b hb => ?_)
        rw [hplain b (List.mem_of_mem_take hb)]
        rfl
      rw [reads_ne_nil (by simp), fgets_part hplain (Nat.le_of_not_lt hlong), pieces,
        if_neg hlong, List.map_cons, htake, ih hdrop, List.cons_append]

/-- **Lines.** Of lines that end in newlines, the pieces in front of the first `quit` are
    asked for, in order, unless they are empty. -/
theorem asked_lines {lines : List (List UInt8)} (hplain : ∀ line ∈ lines, Plain line)
    (k : Nat) :
    asked k (reads (lines.flatMap (· ++ [10]))) =
      (((lines.flatMap pieces).takeWhile (· ≠ quit)).zipIdx k).filter (·.1 ≠ []) := by
  have hreads : (reads (lines.flatMap (· ++ [10]))).map upToNewline = lines.flatMap pieces := by
    induction lines with
    | nil =>
        rw [List.flatMap_nil, reads_nil]
        rfl
    | cons line rest ih =>
        rw [List.flatMap_cons, List.append_assoc, List.singleton_append,
          reads_line (hplain line List.mem_cons_self),
          ih (fun l hl => hplain l (List.mem_cons_of_mem line hl)), List.flatMap_cons]
  rw [asked, hreads]

/-- The symbol `AAPL`, an empty line, and `quit`. -/
theorem asked_lines_quit :
    asked 0 (reads ([[65, 65, 80, 76], [], quit].flatMap (· ++ [10]))) =
      ((([[65, 65, 80, 76], [], quit].flatMap pieces).takeWhile (· ≠ quit)).zipIdx 0).filter
        (·.1 ≠ []) :=
  asked_lines (by simp [Plain, quit]) 0

end TradeConsole
