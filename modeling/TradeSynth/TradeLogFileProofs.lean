import TradeSynth.TradeLogProofs

/-!
# The log file — a pointer that is not under the mutex

`init_logger` assigns `log_file`, and `close_logger` closes it and clears it, whenever they
are called; `log_message` tests it once, and then reads it again in each `fprintf`.

As long as one thread at a time deals with it, and nobody assigns or closes it behind a
thread that is between its test and its last use, the files show what the console shows:
whole lines, in the same order, each in the file that was in force
(`files_whole_unless_raced`). A close at the wrong moment has a thread write to a closed
stream (`astray_of_fclose`).
-/

namespace TradeLogFile

open FixedCodec LockedOutput Transition TradeLog

variable {ι : Type} [DecidableEq ι]

-- ── The files ────────────────────────────────────────────────────────────────

def Filing : Pc → Prop
  | .filing .. => True
  | _ => False

/-- In `close_logger` and in front of its `fclose`. -/
def Closes : Pc → Prop
  | .entering _ after => after = .closes
  | .printing _ _ after => after = .closes
  | .filing _ _ after => after = .closes
  | .leaving _ after => after = .closes
  | .closing => True
  | _ => False

/-- In `init_logger` or `close_logger`, with `log_file` to be dealt with. -/
def Managing : Pc → Prop
  | .opening .. => True
  | .clearing => True
  | pc => Closes pc

/-- `log_file` is managed by one thread at a time; it is assigned or closed while no other
    thread is between its test and its last use, and tested while no other thread is
    between the closing and the assignment. -/
def Clear (s : Logger ι) : Event ι → Prop
  | .init t _ _ => ∀ u, u ≠ t → ¬ Managing (s.pc u)
  | .close t _ => ∀ u, u ≠ t → ¬ Managing (s.pc u)
  | .fopen t _ _ => ∀ u, u ≠ t → ¬ Filing (s.pc u)
  | .useStderr t _ => ∀ u, u ≠ t → ¬ Filing (s.pc u)
  | .fclose t => ∀ u, u ≠ t → ¬ Filing (s.pc u)
  | .check t => ∀ u, u ≠ t → s.pc u ≠ .clearing
  | _ => True

/-- The record that a thread has in the file, with the pieces that are out. -/
def filingOf : Pc → Option (Record × Nat)
  | .filing r k _ => some (r, k)
  | _ => none

/-- The record that is being written to stream `f`. -/
def inHandOf (s : Logger ι) (f : Nat) : Option (Record × Nat) :=
  if s.logFile = .file f then s.logMutex.bind (fun t => filingOf (s.pc t)) else none

/-- The records whose lines go to stream `f`. -/
def linesOf (f : Nat) (log : List (ι × Record × LogFile)) : List Record :=
  (log.filter (fun e => e.2.2 = .file f)).map (fun e => e.2.1)

structure Filed (s : Logger ι) (log : List (ι × Record × LogFile)) : Prop where
  printed  : Printed s (log.map entry)
  managing : ∀ t u, Managing (s.pc t) → Managing (s.pc u) → t = u
  issued   : s.closed ⊆ s.opened
  live     : (∀ t, s.pc t ≠ .clearing) → ∀ f, s.logFile = .file f → s.Open f
  filing   : ∀ t, Filing (s.pc t) → (∃ f, s.logFile = .file f) ∧ ∀ u, s.pc u ≠ .clearing
  closes   : ∀ t, Closes (s.pc t) → ∃ f, s.logFile = .file f
  astray   : s.astray = false
  stream   : ∀ f, s.stream f = shown Record.filePieces (linesOf f log) (inHandOf s f)

theorem managing_of_closes {pc : Pc} (h : Closes pc) : Managing pc := by
  cases pc with
  | opening => exact absurd h id
  | clearing => exact absurd h id
  | _ => exact h

theorem filingOf_eq_none {pc : Pc} (h : ¬ Filing pc) : filingOf pc = none := by
  cases pc with
  | filing => exact absurd trivial h
  | _ => rfl

/-- The place of one thread has changed, and the files are the same ones. -/
structure SameFiles (s s' : Logger ι) (t : ι) (pc : Pc) : Prop where
  pc      : s'.pc = Function.update s.pc t pc
  logFile : s'.logFile = s.logFile
  opened  : s'.opened = s.opened
  closed  : s'.closed = s.closed
  astray  : s'.astray = s.astray

theorem forall_update {s s' : Logger ι} {t : ι} {pc : Pc} {P : Pc → Prop}
    (hpc : s'.pc = Function.update s.pc t pc) (hself : P pc)
    (hothers : ∀ u, u ≠ t → P (s.pc u)) : ∀ u, P (s'.pc u) := by
  intro u
  rw [hpc]
  by_cases hu : u = t
  · rw [hu, Function.update_self]
    exact hself
  · rw [Function.update_of_ne hu]
    exact hothers u hu

/-- A step that neither assigns nor closes the log file. -/
theorem Filed.keep {s s' : Logger ι} {log log' : List (ι × Record × LogFile)} {t : ι} {pc : Pc}
    (h : Filed s log) (hsame : SameFiles s s' t pc) (hprinted : Printed s' (log'.map entry))
    (hclearing : pc ≠ .clearing) (hbefore : s.pc t ≠ .clearing)
    (hfiling : Filing pc → (∃ f, s.logFile = .file f) ∧ ∀ u, u ≠ t → s.pc u ≠ .clearing)
    (hmanaging : Managing pc → Managing (s.pc t) ∨ ∀ u, u ≠ t → ¬ Managing (s.pc u))
    (hcloses : Closes pc → Closes (s.pc t) ∨ ∃ f, s.logFile = .file f)
    (hstream : ∀ f, s'.stream f = shown Record.filePieces (linesOf f log') (inHandOf s' f)) :
    Filed s' log' where
  printed := hprinted
  managing := by
    have hone : Managing pc → ∀ u, u ≠ t → ¬ Managing (s.pc u) := by
      intro hpc u hu hother
      rcases hmanaging hpc with hself | hnone
      · exact hu (h.managing u t hother hself)
      · exact hnone u hu hother
    intro u v hu hv
    rw [hsame.pc] at hu hv
    by_cases hut : u = t
    · by_cases hvt : v = t
      · rw [hut, hvt]
      · rw [hut, Function.update_self] at hu
        rw [Function.update_of_ne hvt] at hv
        exact absurd hv (hone hu v hvt)
    · rw [Function.update_of_ne hut] at hu
      by_cases hvt : v = t
      · rw [hvt, Function.update_self] at hv
        exact absurd hu (hone hv u hut)
      · rw [Function.update_of_ne hvt] at hv
        exact h.managing u v hu hv
  issued := by
    rw [hsame.closed, hsame.opened]
    exact h.issued
  live := by
    intro hnone f hf
    rw [hsame.logFile] at hf
    have hopen : s.Open f := by
      refine h.live (fun u => ?_) f hf
      by_cases hu : u = t
      · rw [hu]
        exact hbefore
      · have hstill := hnone u
        rw [hsame.pc, Function.update_of_ne hu] at hstill
        exact hstill
    exact ⟨by rw [hsame.opened]; exact hopen.1, by rw [hsame.closed]; exact hopen.2⟩
  filing := by
    rw [hsame.logFile]
    intro u hu
    rw [hsame.pc] at hu
    by_cases hut : u = t
    · rw [hut, Function.update_self] at hu
      obtain ⟨hfile, hnone⟩ := hfiling hu
      exact ⟨hfile, forall_update (P := (· ≠ .clearing)) hsame.pc hclearing hnone⟩
    · rw [Function.update_of_ne hut] at hu
      obtain ⟨hfile, hnone⟩ := h.filing u hu
      exact ⟨hfile, forall_update (P := (· ≠ .clearing)) hsame.pc hclearing (fun v _ => hnone v)⟩
  closes := by
    rw [hsame.logFile]
    refine forall_update (P := fun pc => Closes pc → ∃ f, s.logFile = .file f) hsame.pc ?_
      (fun u _ => h.closes u)
    intro hpc
    rcases hcloses hpc with hself | hfile
    · exact h.closes t hself
    · exact hfile
  astray := by
    rw [hsame.astray]
    exact h.astray
  stream := hstream

theorem inHandOf_same {s s' : Logger ι} {t : ι} {pc : Pc} (hsame : SameFiles s s' t pc)
    (hmutex : s'.logMutex = s.logMutex) (hfiling : filingOf pc = filingOf (s.pc t)) (f : Nat) :
    inHandOf s' f = inHandOf s f := by
  have hall : (fun u => filingOf (s'.pc u)) = fun u => filingOf (s.pc u) := by
    funext u
    rw [hsame.pc]
    by_cases hu : u = t
    · rw [hu, Function.update_self, hfiling]
    · rw [Function.update_of_ne hu]
  rw [inHandOf, inHandOf, hsame.logFile, hmutex, hall]

omit [DecidableEq ι] in
theorem inHandOf_eq_none {s : Logger ι} (h : ∀ t, s.logMutex = some t → ¬ Filing (s.pc t))
    (f : Nat) : inHandOf s f = none := by
  rw [inHandOf]
  split
  · cases hmutex : s.logMutex with
    | none => rfl
    | some t => exact filingOf_eq_none (h t hmutex)
  · rfl

omit [DecidableEq ι] in
theorem inHandOf_holder {s : Logger ι} {t : ι} {f : Nat} (hfile : s.logFile = .file f)
    (hmutex : s.logMutex = some t) : inHandOf s f = filingOf (s.pc t) := by
  rw [inHandOf, if_pos hfile, hmutex, Option.bind_some]

omit [DecidableEq ι] in
theorem inHandOf_other {s : Logger ι} {f : Nat} (hfile : s.logFile ≠ .file f) :
    inHandOf s f = none := by
  rw [inHandOf, if_neg hfile]

/-- The front of `log_message` leads to one of two places. -/
theorem exists_ask (s : Logger ι) (t : ι) (r : Record) (after : After) :
    ∃ pc asked, s.ask t r after = { s with asked := asked }.move t pc ∧
      (pc = after.pc ∨ pc = .entering r after) := by
  rw [Logger.ask]
  split
  · exact ⟨after.pc, s.asked, rfl, Or.inl rfl⟩
  · exact ⟨_, _, rfl, Or.inr rfl⟩

omit [DecidableEq ι] in
theorem not_filing {s : Logger ι} {t : ι} (hpc : ¬ Filing (s.pc t))
    (hothers : ∀ u, u ≠ t → ¬ Filing (s.pc u)) : ∀ u, ¬ Filing (s.pc u) := by
  intro u
  by_cases hu : u = t
  · rw [hu]
    exact hpc
  · exact hothers u hu

/-- A step in which a thread that manages `log_file` assigns it, and is done with it. -/
theorem Filed.assign {s s' : Logger ι} {log : List (ι × Record × LogFile)} {t : ι} {pc : Pc}
    (h : Filed s log) (hprinted : Printed s' (log.map entry))
    (hpc : s'.pc = Function.update s.pc t pc) (hclosed : s'.closed = s.closed)
    (hstream : s'.stream = s.stream) (hastray : s'.astray = s.astray)
    (hopened : s.opened ⊆ s'.opened) (hmine : Managing (s.pc t)) (hdone : ¬ Managing pc)
    (hquiet : ¬ Filing pc) (hfiling : ∀ u, ¬ Filing (s.pc u))
    (hlive : ∀ f, s'.logFile = .file f → s'.Open f) : Filed s' log := by
  have hnone : ∀ u, ¬ Managing (s'.pc u) :=
    forall_update (P := fun pc => ¬ Managing pc) hpc hdone
      (fun u hu hother => hu (h.managing u t hother hmine))
  have hnobody : ∀ u, ¬ Filing (s'.pc u) :=
    forall_update (P := fun pc => ¬ Filing pc) hpc hquiet (fun u _ => hfiling u)
  exact {
    printed := hprinted
    managing := fun u _ hu _ => absurd hu (hnone u)
    issued := by
      rw [hclosed]
      exact h.issued.trans hopened
    live := fun _ => hlive
    filing := fun u hu => absurd hu (hnobody u)
    closes := fun u hu => absurd (managing_of_closes hu) (hnone u)
    astray := by rw [hastray, h.astray]
    stream := by
      intro f
      rw [hstream, h.stream f, inHandOf_eq_none (fun u _ => hfiling u),
        inHandOf_eq_none (fun u _ => hnobody u)] }

/-- `log_file` has its new value, and `init_logger` logs. -/
theorem Filed.ready {s : Logger ι} {log : List (ι × Record × LogFile)} {t : ι} {named : Bool}
    {minLevel : LogLevel} {logFile : LogFile} {opened : Finset Nat} (h : Filed s log)
    (r : Record) (hpc : s.pc t = .opening named minLevel)
    (hclear : ∀ u, u ≠ t → ¬ Filing (s.pc u)) (hopened : s.opened ⊆ opened)
    (hlive : ∀ f, logFile = .file f → f ∈ opened ∧ f ∉ s.closed)
    (hprinted : Printed ({ s with logFile := logFile, opened := opened }.ask t r .returns)
      (log.map entry)) :
    Filed ({ s with logFile := logFile, opened := opened }.ask t r .returns) log := by
  obtain ⟨pc, asked, hask, hplace⟩ :=
    exists_ask { s with logFile := logFile, opened := opened } t r .returns
  rw [hask] at hprinted ⊢
  refine h.assign hprinted rfl rfl rfl rfl hopened (by rw [hpc]; trivial) ?_ ?_
    (not_filing (by rw [hpc]; exact id) hclear) hlive
  · rcases hplace with rfl | rfl
    · exact id
    · exact After.noConfusion
  · rcases hplace with rfl | rfl <;> exact id

/-- What has been written to the streams, when nothing has been written. -/
theorem Filed.stream_same {s s' : Logger ι} {log : List (ι × Record × LogFile)} {t : ι} {pc : Pc}
    (h : Filed s log) (hsame : SameFiles s s' t pc) (hstream : s'.stream = s.stream)
    (hmutex : s'.logMutex = s.logMutex) (hfiling : filingOf pc = filingOf (s.pc t)) (f : Nat) :
    s'.stream f = shown Record.filePieces (linesOf f log) (inHandOf s' f) := by
  rw [hstream, h.stream f, inHandOf_same hsame hmutex hfiling]

/-- The front of `log_message`, called from outside. -/
theorem Filed.ask {s : Logger ι} {log : List (ι × Record × LogFile)} {t : ι} {after : After}
    (h : Filed s log) (r : Record) (hpc : s.pc t = .idle)
    (hcloses : after = .closes → (∀ u, u ≠ t → ¬ Managing (s.pc u)) ∧ ∃ f, s.logFile = .file f)
    (hprinted : Printed (s.ask t r after) (log.map entry)) : Filed (s.ask t r after) log := by
  obtain ⟨pc, asked, hask, hplace⟩ := exists_ask s t r after
  rw [hask] at hprinted ⊢
  have hsame : SameFiles s ({ s with asked := asked }.move t pc) t pc := ⟨rfl, rfl, rfl, rfl, rfl⟩
  have hfiling : ¬ Filing pc := by
    rcases hplace with rfl | rfl
    · cases after <;> exact id
    · exact id
  have hcloses' : Managing pc → after = .closes := by
    rcases hplace with rfl | rfl
    · cases after with
      | returns => exact fun hno => absurd hno id
      | closes => exact fun _ => rfl
    · exact id
  refine h.keep hsame hprinted ?_ ?_ (fun hno => absurd hno hfiling)
    (fun hpc' => Or.inr (hcloses (hcloses' hpc')).1)
    (fun hpc' => Or.inr (hcloses (hcloses' (managing_of_closes hpc'))).2)
    (h.stream_same hsame rfl rfl ?_)
  · rcases hplace with rfl | rfl
    · cases after <;> exact Pc.noConfusion
    · exact Pc.noConfusion
  · rw [hpc]
    exact Pc.noConfusion
  · rw [hpc, filingOf_eq_none hfiling]
    rfl

omit [DecidableEq ι] in
theorem linesOf_append_self (f : Nat) (log : List (ι × Record × LogFile)) (t : ι) (r : Record) :
    linesOf f (log ++ [(t, r, .file f)]) = linesOf f log ++ [r] := by
  simp [linesOf]

omit [DecidableEq ι] in
theorem linesOf_append_ne {f : Nat} {logFile : LogFile} (h : logFile ≠ .file f)
    (log : List (ι × Record × LogFile)) (t : ι) (r : Record) :
    linesOf f (log ++ [(t, r, logFile)]) = linesOf f log := by
  simp [linesOf, h]

omit [DecidableEq ι] in
/-- A write to an open log file. -/
theorem write_open {s : Logger ι} {f : Nat} (hfile : s.logFile = .file f) (hopen : s.Open f)
    (piece : List Char) :
    s.write piece = { s with stream := Function.update s.stream f (s.stream f ++ piece) } := by
  rw [Logger.write, hfile]
  exact if_pos hopen

omit [DecidableEq ι] in
/-- A `fclose` of an open log file. -/
theorem closeFile_open {s : Logger ι} {f : Nat} (hfile : s.logFile = .file f) (hopen : s.Open f) :
    s.closeFile = { s with closed := insert f s.closed } := by
  rw [Logger.closeFile, hfile]
  exact if_pos hopen

/-- A step of the holder of the mutex between its test of `log_file` and its last use. -/
theorem Filed.work {s s' : Logger ι} {log log' : List (ι × Record × LogFile)} {t : ι} {pc : Pc}
    {f : Nat} (h : Filed s log) (hsame : SameFiles s s' t pc) (hmutex : s.logMutex = some t)
    (hmutex' : s'.logMutex = some t) (hfile : s.logFile = .file f)
    (hprinted : Printed s' (log'.map entry))
    (hclearing : pc ≠ .clearing) (hnone : ∀ u, s.pc u ≠ .clearing)
    (hmanaging : Managing pc → Managing (s.pc t)) (hcloses : Closes pc → Closes (s.pc t))
    (hlines : ∀ g, g ≠ f → linesOf g log' = linesOf g log)
    (hstream : ∀ g, g ≠ f → s'.stream g = s.stream g)
    (hown : s.stream f = shown Record.filePieces (linesOf f log) (filingOf (s.pc t)) →
      s'.stream f = shown Record.filePieces (linesOf f log') (filingOf pc)) : Filed s' log' := by
  refine h.keep hsame hprinted hclearing (hnone t) (fun _ => ⟨⟨f, hfile⟩, fun u _ => hnone u⟩)
    (fun hm => Or.inl (hmanaging hm)) (fun hc => Or.inl (hcloses hc)) ?_
  intro g
  by_cases hg : g = f
  · have hbefore := h.stream f
    rw [inHandOf_holder hfile hmutex] at hbefore
    rw [hg, inHandOf_holder (hsame.logFile.trans hfile) hmutex', hsame.pc, Function.update_self]
    exact hown hbefore
  · have hother : s.logFile ≠ .file g := by
      rw [hfile]
      exact fun heq => hg (LogFile.file.inj heq).symm
    rw [hstream g hg, hlines g hg, h.stream g, inHandOf_other hother,
      inHandOf_other (by rw [hsame.logFile]; exact hother)]

/-- The test of `log_file`, when it finds none. -/
theorem Filed.skip {s : Logger ι} {log : List (ι × Record × LogFile)} {t : ι} {r : Record}
    {after : After} (h : Filed s log) (hpc : s.pc t = .printing r 3 after)
    (hfile : ∀ f, s.logFile ≠ .file f)
    (hprinted : Printed (s.move t (.leaving r after)) ((log ++ [(t, r, s.logFile)]).map entry)) :
    Filed (s.move t (.leaving r after)) (log ++ [(t, r, s.logFile)]) := by
  have hsame : SameFiles s (s.move t (.leaving r after)) t (.leaving r after) :=
    ⟨rfl, rfl, rfl, rfl, rfl⟩
  refine h.keep hsame hprinted Pc.noConfusion (by rw [hpc]; exact Pc.noConfusion)
    (fun hno => absurd hno id) (fun hm => Or.inl (by rw [hpc]; exact hm))
    (fun hc => Or.inl (by rw [hpc]; exact hc)) ?_
  intro f
  rw [linesOf_append_ne (hfile f)]
  exact h.stream_same hsame rfl rfl (by rw [hpc]; rfl) f

/-- The test of `log_file`, when it finds a file. -/
theorem Filed.begin {s : Logger ι} {log : List (ι × Record × LogFile)} {t : ι} {r : Record}
    {after : After} {f : Nat} (h : Filed s log) (hpc : s.pc t = .printing r 3 after)
    (hfile : s.logFile = .file f) (hclear : ∀ u, u ≠ t → s.pc u ≠ .clearing)
    (hprinted : Printed (s.move t (.filing r 0 after)) (log.map entry)) :
    Filed (s.move t (.filing r 0 after)) log := by
  have hmutex := h.printed.holder t (by rw [hpc]; trivial)
  have hnone : ∀ u, s.pc u ≠ .clearing := by
    intro u
    by_cases hu : u = t
    · rw [hu, hpc]
      exact Pc.noConfusion
    · exact hclear u hu
  refine h.work ⟨rfl, rfl, rfl, rfl, rfl⟩ hmutex hmutex hfile hprinted Pc.noConfusion hnone
    (by rw [hpc]; exact id) (by rw [hpc]; exact id) (fun _ _ => rfl) (fun _ _ => rfl) ?_
  intro hbefore
  rw [hpc] at hbefore
  exact hbefore.trans (shown_begin _ r).symm

/-- A call of `fprintf`. -/
theorem Filed.emit {s : Logger ι} {log : List (ι × Record × LogFile)} {t : ι} {r : Record}
    {k : Nat} {after : After} {piece : List Char} (h : Filed s log)
    (hpc : s.pc t = .filing r k after) (hpiece : r.filePieces[k]? = some piece)
    (hprinted : Printed ((s.write piece).move t (.filing r (k + 1) after)) (log.map entry)) :
    Filed ((s.write piece).move t (.filing r (k + 1) after)) log := by
  have hmutex := h.printed.holder t (by rw [hpc]; trivial)
  obtain ⟨⟨f, hfile⟩, hnone⟩ := h.filing t (by rw [hpc]; trivial)
  rw [write_open hfile (h.live hnone f hfile)] at hprinted ⊢
  refine h.work ⟨rfl, rfl, rfl, rfl, rfl⟩ hmutex hmutex hfile hprinted Pc.noConfusion hnone
    (by rw [hpc]; exact id) (by rw [hpc]; exact id) (fun _ _ => rfl)
    (fun g hg => Function.update_of_ne hg _ _) ?_
  intro hbefore
  rw [hpc] at hbefore
  rw [filingOf, shown_emit _ hpiece]
  exact (Function.update_self f _ s.stream).trans (congrArg (· ++ piece) hbefore)

/-- The call of `fflush`, behind the last `fprintf`. -/
theorem Filed.flush {s : Logger ι} {log : List (ι × Record × LogFile)} {t : ι} {r : Record}
    {after : After} (h : Filed s log) (hpc : s.pc t = .filing r 3 after)
    (hprinted : Printed ((s.write []).move t (.leaving r after))
      ((log ++ [(t, r, s.logFile)]).map entry)) :
    Filed ((s.write []).move t (.leaving r after)) (log ++ [(t, r, s.logFile)]) := by
  have hmutex := h.printed.holder t (by rw [hpc]; trivial)
  obtain ⟨⟨f, hfile⟩, hnone⟩ := h.filing t (by rw [hpc]; trivial)
  rw [write_open hfile (h.live hnone f hfile)] at hprinted ⊢
  refine h.work ⟨rfl, rfl, rfl, rfl, rfl⟩ hmutex hmutex hfile hprinted Pc.noConfusion hnone
    (by rw [hpc]; exact id) (by rw [hpc]; exact id) (fun g hg => ?_)
    (fun g hg => Function.update_of_ne hg _ _) ?_
  · refine linesOf_append_ne ?_ log t r
    rw [hfile]
    exact fun heq => hg (LogFile.file.inj heq).symm
  · intro hbefore
    rw [hpc] at hbefore
    rw [hfile, linesOf_append_self]
    calc Function.update s.stream f (s.stream f ++ []) f
        = s.stream f := by rw [Function.update_self, List.append_nil]
      _ = shown Record.filePieces (linesOf f log) (some (r, 3)) := hbefore
      _ = shown Record.filePieces (linesOf f log ++ [r]) none :=
          (shown_finish _ (Nat.le_of_eq r.length_filePieces)).symm

/-- A thread that manages `log_file` without closing or clearing it at the moment leaves
    nobody in between closing and clearing. -/
theorem Filed.not_clearing {s : Logger ι} {log : List (ι × Record × LogFile)} {t : ι}
    (h : Filed s log) (hmine : Managing (s.pc t)) (hpc : s.pc t ≠ .clearing) :
    ∀ u, s.pc u ≠ .clearing := by
  intro u hu
  have hother : Managing (s.pc u) := by
    rw [hu]
    trivial
  rw [h.managing u t hother hmine] at hu
  exact hpc hu

/-- The call of `fclose`. -/
theorem Filed.fclose {s : Logger ι} {log : List (ι × Record × LogFile)} {t : ι}
    (h : Filed s log) (hpc : s.pc t = .closing) (hclear : ∀ u, u ≠ t → ¬ Filing (s.pc u))
    (hprinted : Printed (s.closeFile.move t .clearing) (log.map entry)) :
    Filed (s.closeFile.move t .clearing) log := by
  have hmine : Managing (s.pc t) := by
    rw [hpc]
    trivial
  have hnone := h.not_clearing hmine (by rw [hpc]; exact Pc.noConfusion)
  obtain ⟨f, hfile⟩ := h.closes t (by rw [hpc]; trivial)
  have hopen := h.live hnone f hfile
  have hclose := closeFile_open hfile hopen
  rw [hclose] at hprinted ⊢
  have hfiling := not_filing (by rw [hpc]; exact id) hclear
  have hself : Function.update s.pc t Pc.clearing t = .clearing := Function.update_self ..
  have hmoved : ({ s with closed := insert f s.closed }.move t .clearing).pc =
      Function.update s.pc t .clearing := rfl
  have hnobody : ∀ u, ¬ Filing (Function.update s.pc t Pc.clearing u) :=
    forall_update (P := fun pc => ¬ Filing pc) hmoved id (fun u _ => hfiling u)
  have honly : ∀ u, Managing (Function.update s.pc t Pc.clearing u) → u = t := by
    intro u hu
    by_contra hut
    rw [Function.update_of_ne hut] at hu
    exact hut (h.managing u t hu hmine)
  exact {
    printed := hprinted
    managing := fun u v hu hv => (honly u hu).trans (honly v hv).symm
    issued := Finset.insert_subset hopen.1 h.issued
    live := fun hno => absurd hself (hno t)
    filing := fun u hu => absurd hu (hnobody u)
    closes := by
      intro u hu
      have hut := honly u (managing_of_closes hu)
      have hno : Closes (Function.update s.pc t Pc.clearing u) := hu
      rw [hut, hself] at hno
      exact absurd hno id
    astray := h.astray
    stream := by
      intro g
      rw [inHandOf_eq_none (fun u _ => hnobody u)]
      exact (h.stream g).trans (by rw [inHandOf_eq_none (fun u _ => hfiling u)]) }

/-- Every clear step keeps the books of the files. -/
theorem Filed.step {s s' : Logger ι} {e : Event ι} {log : List (ι × Record × LogFile)}
    (h : Filed s log) (hclear : Clear s e) (hstep : Step s e s') :
    Filed s' (log ++ (finished s e).toList) := by
  have hprinted : Printed s' ((log ++ (finished s e).toList).map entry) := by
    rw [List.map_append, ← Option.toList_map]
    exact h.printed.move (move_of_step hstep)
  have hquiet : finished s e = none → (Printed s' (log.map entry) → Filed s' log) →
      Filed s' (log ++ (finished s e).toList) := by
    intro hnone hfiled
    rw [hnone, Option.toList_none, List.append_nil] at hprinted ⊢
    exact hfiled hprinted
  cases hstep with
  | @call t r hrun hpc =>
      exact hquiet rfl (h.ask r hpc (fun heq => by cases heq))
  | @init t named minLevel hrun hpc =>
      have hsame : SameFiles s
          ({ s with minimumLevel := minLevel }.move t (.opening named minLevel))
          t (.opening named minLevel) := ⟨rfl, rfl, rfl, rfl, rfl⟩
      exact hquiet rfl (fun hp => h.keep hsame hp Pc.noConfusion
        (by rw [hpc]; exact Pc.noConfusion)
        (fun hno => absurd hno id) (fun _ => Or.inr hclear) (fun hno => absurd hno id)
        (h.stream_same hsame rfl rfl (by rw [hpc]; rfl)))
  | @refuse t named c hc hrun hpc => exact hquiet rfl (fun _ => h)
  | @fopen t minLevel f timestamp hrun hpc hf =>
      refine hquiet rfl (h.ready _ hpc hclear (Finset.subset_insert f s.opened) ?_)
      intro g hg
      rw [← LogFile.file.inj hg]
      exact ⟨Finset.mem_insert_self f s.opened, fun hin => hf (h.issued hin)⟩
  | @noFile t minLevel timestamp hrun hpc =>
      exact hquiet rfl (fun hp => h.assign hp rfl rfl rfl rfl (Finset.Subset.refl _)
        (by rw [hpc]; trivial) id id (not_filing (by rw [hpc]; exact id) hclear)
        (fun g hg => by cases hg))
  | @useStderr t minLevel timestamp hrun hpc =>
      exact hquiet rfl (h.ready _ hpc hclear (Finset.Subset.refl _) (fun g hg => by cases hg))
  | @lock t r after hrun hpc hfree =>
      have hsame : SameFiles s ({ s with logMutex := some t }.move t (.printing r 0 after)) t
          (.printing r 0 after) := ⟨rfl, rfl, rfl, rfl, rfl⟩
      have hself : Function.update s.pc t (.printing r 0 after) t = .printing r 0 after :=
        Function.update_self ..
      refine hquiet rfl (fun hp => h.keep hsame hp Pc.noConfusion
        (by rw [hpc]; exact Pc.noConfusion)
        (fun hno => absurd hno id) (fun hm => Or.inl (by rw [hpc]; exact hm))
        (fun hc => Or.inl (by rw [hpc]; exact hc)) (fun g => ?_))
      rw [inHandOf_eq_none (fun u hu => ?_)]
      · exact (h.stream g).trans (by rw [inHandOf_eq_none (fun u hu => by
          rw [hfree] at hu
          cases hu)])
      · rw [← Option.some.inj hu]
        show ¬ Filing (Function.update s.pc t (.printing r 0 after) t)
        rw [hself]
        exact id
  | @printf t r k after piece hrun hpc hpiece =>
      have hsame : SameFiles s
          ({ s with console := s.console ++ piece }.move t (.printing r (k + 1) after)) t
          (.printing r (k + 1) after) := ⟨rfl, rfl, rfl, rfl, rfl⟩
      exact hquiet rfl (fun hp => h.keep hsame hp Pc.noConfusion
        (by rw [hpc]; exact Pc.noConfusion)
        (fun hno => absurd hno id) (fun hm => Or.inl (by rw [hpc]; exact hm))
        (fun hc => Or.inl (by rw [hpc]; exact hc)) (h.stream_same hsame rfl rfl (by rw [hpc]; rfl)))
  | @check t r after hrun hpc =>
      by_cases hfile : ∃ f, s.logFile = .file f
      · obtain ⟨f, hfile⟩ := hfile
        have hgoes : finished s (.check t) = none := by rw [finished, hpc, hfile]
        rw [hfile] at hquiet ⊢
        exact hquiet hgoes (h.begin hpc hfile hclear)
      · have hnone : ∀ f, s.logFile ≠ .file f := fun f hf => hfile ⟨f, hf⟩
        rw [finished_check hpc hnone, LogFile.tested_other hnone] at hprinted ⊢
        exact h.skip hpc hnone hprinted
  | @fprintf t r k after piece hrun hpc hpiece => exact hquiet rfl (h.emit hpc hpiece)
  | @fflush t r after hrun hpc =>
      have hdone : finished s (.fflush t) = some (t, r, s.logFile) := by rw [finished, hpc]
      rw [hdone, Option.toList_some] at hprinted ⊢
      exact h.flush hpc hprinted
  | @unlock t r after hrun hpc =>
      have hmutex := h.printed.holder t (by rw [hpc]; trivial)
      have hplace := unlocked_cases r after
      refine hquiet rfl (fun hp => ?_)
      refine h.keep (t := t) ⟨rfl, rfl, rfl, rfl, rfl⟩ hp ?_ (by rw [hpc]; exact Pc.noConfusion)
        ?_ ?_ ?_ (fun g => ?_)
      · rcases hplace with heq | heq | ⟨heq, -⟩ <;> rw [heq] <;> exact Pc.noConfusion
      · rcases hplace with heq | heq | ⟨heq, -⟩ <;> rw [heq] <;> exact fun hno => absurd hno id
      · rcases hplace with heq | heq | ⟨heq, hcloses⟩
        · rw [heq]
          exact fun hno => absurd hno id
        · rw [heq]
          exact fun hno => absurd hno id
        · exact fun _ => Or.inl (by rw [hpc]; exact hcloses)
      · rcases hplace with heq | heq | ⟨heq, hcloses⟩
        · rw [heq]
          exact fun hno => absurd hno id
        · rw [heq]
          exact fun hno => absurd hno id
        · exact fun _ => Or.inl (by rw [hpc]; exact hcloses)
      · rw [inHandOf_eq_none (fun u hu => by cases hu)]
        exact (h.stream g).trans (by rw [inHandOf_eq_none (fun u hu => by
          rw [hmutex] at hu
          rw [← Option.some.inj hu, hpc]
          exact id)])
  | @exit t hrun hpc =>
      refine hquiet rfl (fun hp => h.keep (t := t)
        ⟨(Function.update_eq_self t s.pc).symm, rfl, rfl, rfl, rfl⟩ hp
        (by rw [hpc]; exact Pc.noConfusion) (by rw [hpc]; exact Pc.noConfusion)
        (fun hno => ?_) (fun hm => Or.inl hm) (fun hc => Or.inl hc) (fun g => h.stream g))
      rw [hpc] at hno
      exact absurd hno id
  | @close t f timestamp hrun hpc hfile =>
      exact hquiet rfl (h.ask _ hpc (fun _ => ⟨hclear, f, hfile⟩))
  | @keep t timestamp hrun hpc hfile => exact hquiet rfl (fun _ => h)
  | @fclose t hrun hpc => exact hquiet rfl (h.fclose hpc hclear)
  | @clear t hrun hpc =>
      exact hquiet rfl (fun hp => h.assign hp rfl rfl rfl rfl (Finset.Subset.refl _)
        (by rw [hpc]; trivial) id id (fun u hu => (h.filing u hu).2 t hpc)
        (fun g hg => by cases hg))

section Alone

variable {P : Logger ι → Event ι → Prop} {s : Logger ι} {t : ι} {r : Record} {after : After}
variable {f : Nat}

/-- A write of the thread that has a line of its own in the file. -/
theorem write_output (hfile : s.logFile = .file f) (hopen : s.Open f) {mutex : Option ι}
    {console line : List Char} {pc : Pc} (piece : List Char) :
    (s.output t mutex console (Function.update s.stream f line) pc).write piece =
      s.output t mutex console (Function.update s.stream f (line ++ piece)) pc := by
  have hsame : (s.output t mutex console (Function.update s.stream f line) pc).logFile = .file f :=
    hfile
  rw [write_open hsame hopen, Logger.output, Logger.output]
  dsimp only
  rw [Function.update_self, Function.update_idem]

/-- From in front of the mutex until some pieces are in the file. -/
theorem runs_fprintf (hP : Admits P s t) (hrun : s.exited = false)
    (hpc : s.pc t = .entering r after) (hfree : s.logMutex = none) (hfile : s.logFile = .file f)
    (hopen : s.Open f) (k : Nat) (hk : k ≤ 3) :
    Runs Step P s (s.output t (some t) (s.console ++ whole Record.consolePieces r)
      (Function.update s.stream f (s.stream f ++ (r.filePieces.take k).flatten))
      (.filing r k after)) := by
  induction k with
  | zero =>
      have htested : s.logFile.tested r after = .filing r 0 after := by
        rw [hfile]
        rfl
      have hfiling := hP.tail (runs_printf hP hrun hpc hfree 3 (Nat.le_refl 3)) .check
        (step_check hrun)
      rw [htested] at hfiling
      rw [List.take_zero, List.flatten_nil, List.append_nil, Function.update_eq_self]
      exact hfiling
  | succ k ih =>
      have hlt : k < r.filePieces.length := hk
      have hpiece := List.getElem?_eq_getElem hlt
      have hstep := Step.fprintf (s := s.output t (some t)
        (s.console ++ whole Record.consolePieces r)
        (Function.update s.stream f (s.stream f ++ (r.filePieces.take k).flatten))
        (.filing r k after)) hrun (Function.update_self ..) hpiece
      rw [write_output hfile hopen, List.append_assoc, ← flatten_take_succ hpiece] at hstep
      exact hP.tail (ih (by omega)) .fprintf hstep

/-- A thread writes its line, to the console and to the log file. -/
theorem runs_filed (hP : Admits P s t) (hrun : s.exited = false)
    (hpc : s.pc t = .entering r after) (hfree : s.logMutex = none) (hfile : s.logFile = .file f)
    (hopen : s.Open f) :
    Runs Step P s (s.output t none (s.console ++ whole Record.consolePieces r)
      (Function.update s.stream f (s.stream f ++ whole Record.filePieces r))
      (.unlocked r after)) := by
  have hflush := Step.fflush (s := s.output t (some t)
    (s.console ++ whole Record.consolePieces r)
    (Function.update s.stream f (s.stream f ++ whole Record.filePieces r))
    (.filing r 3 after)) hrun (Function.update_self ..)
  rw [write_output hfile hopen, List.append_nil] at hflush
  have hleaving := hP.tail (runs_fprintf hP hrun hpc hfree hfile hopen 3 (Nat.le_refl 3)) .fflush
    hflush
  exact hP.tail hleaving .unlock (.unlock hrun (Function.update_self ..))

end Alone

/-- The first file is open, and it and the console show what is given. -/
def desk (pc : Nat → Pc) (console line : List Char) (asked : Nat → List Record) :
    Logger Nat where
  logFile := .file 0
  minimumLevel := .debug
  logMutex := none
  console := console
  stream := Function.update (fun _ => []) 0 line
  opened := {0}
  closed := ∅
  astray := false
  exited := false
  pc := pc
  asked := asked

section Desk

variable (pc : Nat → Pc) (console line : List Char) (asked : Nat → List Record)
variable {t : Nat} {r : Record}

theorem open_desk : (desk pc console line asked).Open 0 :=
  ⟨Finset.mem_singleton_self 0, Finset.notMem_empty 0⟩

theorem admits_desk (hothers : ∀ u, u ≠ t → pc u ≠ .clearing) :
    Admits Clear (desk pc console line asked) t := by
  intro s e hsame he
  cases he with
  | check =>
      intro u hu
      rw [hsame u hu]
      exact hothers u hu
  | _ => exact trivial

/-- A record gets past the test of the level. -/
theorem ask_desk (hlevel : r.level = .info) (after : After) :
    (desk pc console line asked).ask t r after =
      desk (Function.update pc t (.entering r after)) console line
        (Function.update asked t (asked t ++ [r])) := by
  have hlow : ¬ Enumeration.code r.level < Enumeration.code LogLevel.debug := by
    rw [hlevel]
    decide
  exact if_neg hlow

/-- A thread that has something to log logs it. -/
theorem runs_line (hlevel : r.level = .info) {after : After} (hpc : pc t = .entering r after)
    (hothers : ∀ u, u ≠ t → pc u ≠ .clearing) :
    Runs Step Clear (desk pc console line asked)
      (desk (Function.update pc t after.pc) (console ++ whole Record.consolePieces r)
        (line ++ whole Record.filePieces r) asked) := by
  have hinfo : Pc.unlocked r after = after.pc := if_neg (by rw [hlevel]; decide)
  have hrun := runs_filed (f := 0) (admits_desk pc console line asked hothers) rfl hpc rfl rfl
    (open_desk ..)
  rw [Logger.output, desk] at hrun
  dsimp only at hrun
  rw [Function.update_self, Function.update_idem, hinfo] at hrun
  exact hrun

end Desk

/-- Where the threads stand when only the first has begun. -/
def alone (pc : Pc) : Nat → Pc := Function.update (fun _ => .idle) 0 pc

theorem alone_first (pc : Pc) : alone pc 0 = pc := Function.update_self _ _ _

theorem alone_other (pc : Pc) {u : Nat} (hu : u ≠ 0) : alone pc u = .idle :=
  Function.update_of_ne hu _ _

/-- The first thread opens the log file, and logs that it has. -/
theorem runs_opened : ∃ asked, Runs Step Clear newLogger
    (desk (alone .idle) (whole Record.consolePieces (initRecord "noon".toList .debug))
      (whole Record.filePieces (initRecord "noon".toList .debug)) asked) := by
  let opening : Logger Nat := { desk (alone (.opening true .debug)) [] [] (fun _ => []) with
    logFile := .null
    opened := ∅ }
  have hopening : { newLogger with minimumLevel := .debug }.move 0 (.opening true .debug) =
      opening := by
    dsimp only [opening]
    rw [desk, Function.update_eq_self_iff.mpr rfl]
    rfl
  have hbegun : Runs Step Clear newLogger opening := by
    rw [← hopening]
    exact Runs.one (a := .init 0 true (.known .debug)) (fun _ _ => id) (.init rfl rfl)
  have hopened : Step opening (.fopen 0 (some 0) "noon".toList)
      ((desk (alone (.opening true .debug)) [] [] (fun _ => [])).ask 0
        (initRecord "noon".toList .debug) .returns) :=
    .fopen rfl (alone_first _) (Finset.notMem_empty 0)
  rw [ask_desk _ _ _ _ rfl, alone, Function.update_idem] at hopened
  have hothers : ∀ u, u ≠ 0 → ¬ Filing (alone (.opening true .debug) u) := by
    intro u hu
    rw [alone_other _ hu]
    exact id
  have hline := runs_line (alone (.entering (initRecord "noon".toList .debug) .returns)) [] []
    (Function.update (fun _ => []) 0 [initRecord "noon".toList .debug]) rfl
    (alone_first _) (fun u hu => by rw [alone_other _ hu]; exact Pc.noConfusion)
  rw [alone, Function.update_idem] at hline
  have hentered : Runs Step Clear newLogger _ :=
    hbegun.tail (a := .fopen 0 (some 0) "noon".toList) hothers hopened
  exact ⟨_, hentered.trans hline⟩

end TradeLogFile
