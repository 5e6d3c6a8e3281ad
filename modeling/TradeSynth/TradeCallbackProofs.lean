import TradeSynth.TradeClientProofs
import TradeSynth.TransitionProofs

/-!
# Callbacks — two threads that tell one user about one session

`on_connect` is called by the thread that connects, when the receiver it has started may
already be running; `on_disconnect` is called by the receiver, when it has already set the
state that a new connect looks at. A step of either side is a section under the mutex, a
system call, the end of the receive loop, or a callback.

* `alternates_of_clear` — the callbacks alternate while no receiver leaves its loop before
  its session has been announced, and no connect passes its check between the state and
  the callback of a receiver that has left.
* `alternates_unless_raced` — behind a step of either kind they may come out of order.
-/

namespace TradeCallback

open TradeTypes TradeClient Transition

-- ── The two sides ────────────────────────────────────────────────────────────

/-- Where the calling thread stands, in `connect_to_server` or in
    `disconnect_from_server`. -/
inductive UserPc where
  | idle
  /-- it has found the client not connected -/
  | checked
  /-- it has stored the descriptor -/
  | opened
  /-- `connect` has succeeded or is in progress -/
  | connected
  /-- it has set the state -/
  | marked
  /-- the receiver is created, `on_connect` is not called yet -/
  | announcing
  /-- it has cleared `running` -/
  | stopping
  /-- it has closed the socket -/
  | dropped
  /-- it has joined the receiver -/
  | joined
deriving DecidableEq

/-- Where a receiver thread stands. -/
inductive ReceiverPc where
  /-- there is no such thread, or it has returned -/
  | gone
  | running
  /-- behind the loop -/
  | leaving
  /-- it has set the state, `on_disconnect` is not called yet -/
  | left
deriving DecidableEq

structure Stage where
  client    : ClientContext
  user      : UserPc
  receivers : UInt64 → ReceiverPc
  log       : List ClientCall

/-- A step of the calling thread or of a receiver, with what the system answers. -/
inductive Event where
  | check
  /-- `inet_pton` fails -/
  | address
  | socket (fd : Int)
  | connect (result : ConnectResult)
  | mark (now : Int64)
  | create (thread : UInt64) (created : Bool)
  | announce
  | stop
  | drop
  | join
  | clear
  /-- the receiver's loop ends -/
  | leave (thread : UInt64)
  | exit (thread : UInt64)
  | report (thread : UInt64)

namespace Stage

def setUser (s : Stage) (pc : UserPc) : Stage := { s with user := pc }

def setReceiver (s : Stage) (thread : UInt64) (pc : ReceiverPc) : Stage :=
  { s with receivers := Function.update s.receivers thread pc }

def setState (s : Stage) (state : TradeSenders.ClientState) : Stage :=
  { s with client := { s.client with state := state } }

def storeThread (s : Stage) (thread : UInt64) : Stage :=
  { s with client := { s.client with receiverThread := thread } }

def call (s : Stage) (set : Bool) (callback : ClientCall) : Stage :=
  { s with log := s.log ++ if set then [callback] else [] }

end Stage

inductive Step (s : Stage) : Event → Stage → Prop where
  | busy (hpc : s.user = .idle) (hstate : s.client.state = .connected) : Step s .check s
  | pass (hpc : s.user = .idle) (hstate : s.client.state ≠ .connected) :
      Step s .check (s.setUser .checked)
  | address (hpc : s.user = .checked) : Step s .address (s.setUser .idle)
  | socket {fd : Int} (hpc : s.user = .checked) :
      Step s (.socket fd)
        ({ s with client := { s.client with socket := fd } }.setUser
          (if fd < 0 then .idle else .opened))
  | connect {result : ConnectResult} (hpc : s.user = .opened) :
      Step s (.connect result) (s.setUser (if result = .refused then .idle else .connected))
  | mark {now : Int64} (hpc : s.user = .connected) :
      Step s (.mark now)
        (({ s with client := { s.client with connectTime := now } }.setState .connected).setUser
          .marked)
  | create {thread : UInt64} (hpc : s.user = .marked) (hfree : s.receivers thread = .gone)
      (hthread : thread ≠ 0) :
      Step s (.create thread true)
        (((s.storeThread thread).setReceiver thread .running).setUser .announcing)
  | noThread {thread : UInt64} (hpc : s.user = .marked) :
      Step s (.create thread false) ((s.storeThread thread).setUser .idle)
  | announce (hpc : s.user = .announcing) :
      Step s .announce ((s.call s.client.onConnect .onConnect).setUser .idle)
  | stop (hpc : s.user = .idle) :
      Step s .stop ({ s with client := { s.client with running := 0 } }.setUser .stopping)
  | drop (hpc : s.user = .stopping) :
      Step s .drop
        ({ s with client := { s.client with
            socket := if 0 ≤ s.client.socket then -1 else s.client.socket } }.setUser .dropped)
  /-- `pthread_join` waits for a receiver that is under way -/
  | join (hpc : s.user = .dropped)
      (hgone : s.client.receiverThread ≠ 0 → s.receivers s.client.receiverThread = .gone) :
      Step s .join ((s.storeThread 0).setUser .joined)
  | clear (hpc : s.user = .joined) :
      Step s .clear ((s.setState .disconnected).setUser .idle)
  | leave {thread : UInt64} (hpc : s.receivers thread = .running) :
      Step s (.leave thread) (s.setReceiver thread .leaving)
  | exit {thread : UInt64} (hpc : s.receivers thread = .leaving) :
      Step s (.exit thread) ((s.setState .disconnected).setReceiver thread .left)
  | report {thread : UInt64} (hpc : s.receivers thread = .left) :
      Step s (.report thread)
        ((s.call s.client.onDisconnect .onDisconnect).setReceiver thread .gone)

-- ── The protocol ─────────────────────────────────────────────────────────────

/-- Whether the user has a session, as the callbacks tell; `none` once one has come out of
    order. -/
def hear : Option Bool → ClientCall → Option Bool
  | some false, .onConnect => some true
  | some true, .onDisconnect => some false
  | _, _ => none

/-- What the user has heard. -/
def heard (log : List ClientCall) : Option Bool := log.foldl hear (some false)

/-- The callbacks are `on_connect`, `on_disconnect`, `on_connect` and so on. -/
def Alternates (log : List ClientCall) : Prop := heard log ≠ none

/-- Both callbacks are set, there is no session, and nobody is under way. -/
structure Fresh (s : Stage) : Prop where
  onConnect    : s.client.onConnect = true
  onDisconnect : s.client.onDisconnect = true
  state        : s.client.state ≠ .connected
  user         : s.user = .idle
  receivers    : ∀ thread, s.receivers thread = .gone
  log          : s.log = []

/-- No receiver leaves before its session is announced, and no connect passes its check
    before a receiver that has set the state has reported. -/
def Clear (s : Stage) : Event → Prop
  | .check => s.client.state ≠ .connected → ∀ thread, s.receivers thread ≠ .left
  | .leave thread => s.user = .announcing → thread ≠ s.client.receiverThread
  | _ => True

theorem heard_append (log : List ClientCall) (call : ClientCall) :
    heard (log ++ [call]) = hear (heard log) call := by
  rw [heard, List.foldl_append]
  rfl

-- ── What a clear run keeps ───────────────────────────────────────────────────

/-- No receiver is under way, and no session is open. -/
structure Silent (s : Stage) : Prop where
  told   : heard s.log = some false
  gone   : ∀ thread, s.receivers thread = .gone
  user   : s.user ≠ .announcing
  marked : s.user = .marked → s.client.state = .connected

/-- The receiver of the session is in its loop, and the session not yet announced. -/
structure Starting (s : Stage) : Prop where
  told     : heard s.log = some false
  user     : s.user = .announcing
  receiver : s.receivers s.client.receiverThread = .running
  others   : ∀ thread, thread ≠ s.client.receiverThread → s.receivers thread = .gone
  handle   : s.client.receiverThread ≠ 0
  state    : s.client.state = .connected

/-- The session is announced, and its receiver has not reported the end. -/
structure Open (s : Stage) : Prop where
  told     : heard s.log = some true
  user     : s.user = .idle ∨ s.user = .stopping ∨ s.user = .dropped
  receiver : s.receivers s.client.receiverThread ≠ .gone
  others   : ∀ thread, thread ≠ s.client.receiverThread → s.receivers thread = .gone
  handle   : s.client.receiverThread ≠ 0
  state    : s.receivers s.client.receiverThread ≠ .left → s.client.state = .connected

/-- Both callbacks are set, and the two sides are in one of these. -/
structure Orderly (s : Stage) : Prop where
  onConnect    : s.client.onConnect = true
  onDisconnect : s.client.onDisconnect = true
  phase        : Silent s ∨ Starting s ∨ Open s

theorem Fresh.orderly {s : Stage} (h : Fresh s) : Orderly s where
  onConnect := h.onConnect
  onDisconnect := h.onDisconnect
  phase := Or.inl ⟨by rw [h.log]; rfl, h.receivers, by rw [h.user]; nofun, by rw [h.user]; nofun⟩

theorem Orderly.alternates {s : Stage} (h : Orderly s) : Alternates s.log := by
  rw [Alternates]
  rcases h.phase with hsilent | hstarting | hopen
  · rw [hsilent.told]
    nofun
  · rw [hstarting.told]
    nofun
  · rw [hopen.told]
    nofun

/-- No step touches the callbacks. -/
theorem callbacks_kept {s s' : Stage} {e : Event} (h : Step s e s') :
    s'.client.onConnect = s.client.onConnect ∧
      s'.client.onDisconnect = s.client.onDisconnect := by
  cases h <;> exact ⟨rfl, rfl⟩

theorem Silent.step {s s' : Stage} {e : Event} (h : Silent s) (hstep : Step s e s') :
    Silent s' ∨ Starting s' := by
  cases hstep with
  | busy => exact Or.inl h
  | pass => exact Or.inl ⟨h.told, h.gone, nofun, nofun⟩
  | address => exact Or.inl ⟨h.told, h.gone, nofun, nofun⟩
  | @socket fd =>
      refine Or.inl ⟨h.told, h.gone, ?_, ?_⟩
      · show (if fd < 0 then UserPc.idle else .opened) ≠ .announcing
        split <;> nofun
      · show (if fd < 0 then UserPc.idle else .opened) = .marked → _
        split <;> nofun
  | @connect result =>
      refine Or.inl ⟨h.told, h.gone, ?_, ?_⟩
      · show (if result = .refused then UserPc.idle else .connected) ≠ .announcing
        split <;> nofun
      · show (if result = .refused then UserPc.idle else .connected) = .marked → _
        split <;> nofun
  | mark => exact Or.inl ⟨h.told, h.gone, nofun, fun _ => rfl⟩
  | @create thread hpc hfree hthread =>
      refine Or.inr ⟨h.told, rfl, Function.update_self .., ?_, hthread, h.marked hpc⟩
      intro other hother
      exact (Function.update_of_ne hother _ _).trans (h.gone other)
  | noThread => exact Or.inl ⟨h.told, h.gone, nofun, nofun⟩
  | announce hpc => exact absurd hpc h.user
  | stop => exact Or.inl ⟨h.told, h.gone, nofun, nofun⟩
  | drop => exact Or.inl ⟨h.told, h.gone, nofun, nofun⟩
  | join => exact Or.inl ⟨h.told, h.gone, nofun, nofun⟩
  | clear => exact Or.inl ⟨h.told, h.gone, nofun, nofun⟩
  | @leave thread hpc =>
      rw [h.gone thread] at hpc
      cases hpc
  | @exit thread hpc =>
      rw [h.gone thread] at hpc
      cases hpc
  | @report thread hpc =>
      rw [h.gone thread] at hpc
      cases hpc

theorem Starting.step {s s' : Stage} {e : Event} (h : Starting s)
    (hset : s.client.onConnect = true) (hclear : Clear s e) (hstep : Step s e s') : Open s' := by
  have hrunning : ∀ {thread pc}, s.receivers thread = pc → pc ≠ .gone → pc ≠ .running → False := by
    intro thread pc hpc hgone hrunning
    by_cases hthread : thread = s.client.receiverThread
    · rw [hthread, h.receiver] at hpc
      exact hrunning hpc.symm
    · rw [h.others thread hthread] at hpc
      exact hgone hpc.symm
  cases hstep with
  | announce hpc =>
      have hlog : heard (s.log ++ if s.client.onConnect then [.onConnect] else []) = some true := by
        rw [hset, if_pos rfl, heard_append, h.told]
        rfl
      have hthere : s.receivers s.client.receiverThread ≠ .gone := by
        rw [h.receiver]
        nofun
      exact ⟨hlog, Or.inl rfl, hthere, h.others, h.handle, fun _ => h.state⟩
  | @leave thread hpc =>
      have hother := hclear h.user
      rw [h.others thread hother] at hpc
      cases hpc
  | exit hpc => exact (hrunning hpc nofun nofun).elim
  | report hpc => exact (hrunning hpc nofun nofun).elim
  | _ hpc =>
      rw [h.user] at hpc
      cases hpc

theorem Open.step {s s' : Stage} {e : Event} (h : Open s)
    (hset : s.client.onDisconnect = true) (hclear : Clear s e) (hstep : Step s e s') :
    Silent s' ∨ Open s' := by
  have hmine : ∀ {thread}, s.receivers thread ≠ .gone → thread = s.client.receiverThread := by
    intro thread hthere
    by_contra hother
    exact hthere (h.others thread hother)
  have hother : ∀ (pc : ReceiverPc) (thread : UInt64), thread ≠ s.client.receiverThread →
      Function.update s.receivers s.client.receiverThread pc thread = .gone := by
    intro pc thread hne
    exact (Function.update_of_ne hne _ _).trans (h.others thread hne)
  have hthere : ∀ pc : ReceiverPc, pc ≠ .gone →
      Function.update s.receivers s.client.receiverThread pc s.client.receiverThread ≠ .gone := by
    intro pc hpc
    rw [Function.update_self]
    exact hpc
  have huser : ∀ {pc : UserPc}, s.user = pc → pc = .idle ∨ pc = .stopping ∨ pc = .dropped := by
    rintro pc rfl
    exact h.user
  cases hstep with
  | busy => exact Or.inr h
  | pass hpc hstate =>
      have hleft : s.receivers s.client.receiverThread = .left := by
        by_contra hne
        exact hstate (h.state hne)
      exact absurd hleft (hclear hstate _)
  | stop => exact Or.inr ⟨h.told, Or.inr (Or.inl rfl), h.receiver, h.others, h.handle, h.state⟩
  | drop => exact Or.inr ⟨h.told, Or.inr (Or.inr rfl), h.receiver, h.others, h.handle, h.state⟩
  | join hpc hgone => exact absurd (hgone h.handle) h.receiver
  | @leave thread hpc =>
      obtain rfl := hmine (by rw [hpc]; nofun)
      have hconnected := h.state (by rw [hpc]; nofun)
      exact Or.inr ⟨h.told, h.user, hthere _ nofun, hother _, h.handle, fun _ => hconnected⟩
  | @exit thread hpc =>
      obtain rfl := hmine (by rw [hpc]; nofun)
      have hleft : Function.update s.receivers s.client.receiverThread ReceiverPc.left
          s.client.receiverThread = .left := Function.update_self ..
      exact Or.inr ⟨h.told, h.user, hthere _ nofun, hother _, h.handle,
        fun hne => absurd hleft hne⟩
  | @report thread hpc =>
      obtain rfl := hmine (by rw [hpc]; nofun)
      have hlog : heard (s.log ++ if s.client.onDisconnect then [.onDisconnect] else []) =
          some false := by
        rw [hset, if_pos rfl, heard_append, h.told]
        rfl
      refine Or.inl ⟨hlog, ?_, ?_, ?_⟩
      · intro thread
        by_cases hne : thread = s.client.receiverThread
        · rw [hne]
          exact Function.update_self ..
        · exact hother _ thread hne
      · intro hann
        rcases h.user with hu | hu | hu <;> exact nomatch hu.symm.trans hann
      · intro hmarked
        rcases h.user with hu | hu | hu <;> exact nomatch hu.symm.trans hmarked
  | _ hpc => rcases huser hpc with hu | hu | hu <;> cases hu

theorem Orderly.step {s s' : Stage} {e : Event} (h : Orderly s) (hclear : Clear s e)
    (hstep : Step s e s') : Orderly s' := by
  obtain ⟨hconnect, hdisconnect⟩ := callbacks_kept hstep
  refine ⟨hconnect.trans h.onConnect, hdisconnect.trans h.onDisconnect, ?_⟩
  rcases h.phase with hsilent | hstarting | hopen
  · rcases hsilent.step hstep with hsilent' | hstarting'
    · exact Or.inl hsilent'
    · exact Or.inr (Or.inl hstarting')
  · exact Or.inr (Or.inr (hstarting.step h.onConnect hclear hstep))
  · rcases hopen.step h.onDisconnect hclear hstep with hsilent' | hopen'
    · exact Or.inl hsilent'
    · exact Or.inr (Or.inr hopen')

theorem orderly_of_clear {start s : Stage} (h : Fresh start) (hrun : Runs Step Clear start s) :
    Orderly s :=
  hrun.invariant (fun _ _ _ hs hclear hstep => hs.step hclear hstep) h.orderly

-- ── What a race may end in ───────────────────────────────────────────────────

/-- A receiver that has left its loop before its session is announced may report first. -/
theorem early_report {s : Stage} {thread : UInt64} (hset : s.client.onDisconnect = true)
    (htold : heard s.log = some false) (hpc : s.receivers thread = .leaving) :
    ∃ s', Runs Step anyStep s s' ∧ ¬ Alternates s'.log := by
  let left := (s.setState .disconnected).setReceiver thread .left
  have hexit : Step s (.exit thread) left := .exit hpc
  have hleft : left.receivers thread = .left := Function.update_self ..
  have hreport : Step left (.report thread)
      ((left.call left.client.onDisconnect .onDisconnect).setReceiver thread .gone) :=
    .report hleft
  have hlog : heard (s.log ++ if s.client.onDisconnect then [.onDisconnect] else []) = none := by
    rw [hset, if_pos rfl, heard_append, htold]
    rfl
  exact ⟨_, (Runs.one trivial hexit).tail trivial hreport, fun halternates => halternates hlog⟩

/-- The stage once the descriptor is stored. -/
def Stage.opened (s : Stage) (fd : Int) : Stage :=
  { s with client := { s.client with socket := fd }, user := .opened }

/-- The stage once the state is set. -/
def Stage.marked (s : Stage) (fd : Int) (now : Int64) : Stage :=
  { s with
    client := { s.client with socket := fd, state := .connected, connectTime := now }
    user := .marked }

/-- The steps that take part in no race. -/
def Plain : Event → Prop
  | .check => False
  | .leave _ => False
  | _ => True

theorem clear_of_plain {s : Stage} {e : Event} (h : Plain e) : Clear s e := by
  cases e with
  | check => exact h.elim
  | leave thread => exact h.elim
  | _ => trivial

section Alone

-- the regimes that admit the plain steps
variable {P : Stage → Event → Prop} (hP : ∀ s e, Plain e → P s e)
include hP

theorem runs_to_opened {s : Stage} (hpc : s.user = .checked) {fd : Int} (hfd : 0 ≤ fd) :
    Runs Step P s (s.opened fd) := by
  have hsocket : Step s (.socket fd) _ := .socket hpc
  rw [if_neg (Int.not_lt.mpr hfd)] at hsocket
  exact Runs.one (hP _ _ (by trivial)) hsocket

/-- From the check to the section that sets the state. -/
theorem runs_to_marked {s : Stage} (hpc : s.user = .checked) {fd : Int} (hfd : 0 ≤ fd)
    {result : ConnectResult} (hresult : result ≠ .refused) (now : Int64) :
    Runs Step P s (s.marked fd now) := by
  have hconnect : Step (s.opened fd) (.connect result) _ := .connect rfl
  rw [if_neg hresult] at hconnect
  have hmark : Step ((s.opened fd).setUser .connected) (.mark now) (s.marked fd now) := .mark rfl
  have hconnected := (runs_to_opened hP hpc hfd).tail (hP _ _ (by trivial)) hconnect
  exact hconnected.tail (hP _ _ (by trivial)) hmark

/-- The stage once the receiver is created. -/
def Stage.created (s : Stage) (thread : UInt64) : Stage :=
  ((s.storeThread thread).setReceiver thread .running).setUser .announcing

/-- From the check to the creation of the receiver. -/
theorem runs_to_created {s : Stage} (hpc : s.user = .checked) {fd : Int} (hfd : 0 ≤ fd)
    {result : ConnectResult} (hresult : result ≠ .refused) (now : Int64) {thread : UInt64}
    (hfree : s.receivers thread = .gone) (hthread : thread ≠ 0) :
    Runs Step P s ((s.marked fd now).created thread) := by
  have hcreate : Step (s.marked fd now) (.create thread true) ((s.marked fd now).created thread) :=
    .create rfl hfree hthread
  exact (runs_to_marked hP hpc hfd hresult now).tail (hP _ _ (by trivial)) hcreate

/-- From the check to `on_connect`. -/
theorem runs_to_announce {s : Stage} (hpc : s.user = .checked) {fd : Int} (hfd : 0 ≤ fd)
    {result : ConnectResult} (hresult : result ≠ .refused) (now : Int64) {thread : UInt64}
    (hfree : s.receivers thread = .gone) (hthread : thread ≠ 0) :
    Runs Step P s
      ((((s.marked fd now).created thread).call s.client.onConnect .onConnect).setUser .idle) := by
  have hannounce : Step ((s.marked fd now).created thread) .announce
      ((((s.marked fd now).created thread).call s.client.onConnect .onConnect).setUser .idle) :=
    .announce rfl
  exact (runs_to_created hP hpc hfd hresult now hfree hthread).tail (hP _ _ (by trivial)) hannounce

/-- A receiver leaves its loop, sets the state and reports. -/
theorem runs_to_gone {s : Stage} {thread : UInt64} (hpc : s.receivers thread = .running)
    (hleaves : P s (.leave thread)) :
    ∃ s', Runs Step P s s' ∧ s'.user = s.user ∧ s'.receivers thread = .gone ∧
      s'.client = { s.client with state := .disconnected } ∧
      s'.log = s.log ++ if s.client.onDisconnect then [.onDisconnect] else [] := by
  let leaving := s.setReceiver thread .leaving
  let left := (leaving.setState .disconnected).setReceiver thread .left
  have hleave : Step s (.leave thread) leaving := .leave hpc
  have hexit : Step leaving (.exit thread) left := .exit (Function.update_self ..)
  have hreport : Step left (.report thread)
      ((left.call left.client.onDisconnect .onDisconnect).setReceiver thread .gone) :=
    .report (Function.update_self ..)
  have hrun : Runs Step P s left := (Runs.one hleaves hleave).tail (hP _ _ (by trivial)) hexit
  exact ⟨_, hrun.tail (hP _ _ (by trivial)) hreport, rfl, Function.update_self .., rfl, rfl⟩

end Alone

/-- A connect that has passed its check before the receiver of an announced session has
    reported may announce the next one first. -/
theorem early_announce {s : Stage} (hset : s.client.onConnect = true)
    (htold : heard s.log = some true) (hpc : s.user = .checked) {thread : UInt64}
    (hfree : s.receivers thread = .gone) (hthread : thread ≠ 0) :
    ∃ s', Runs Step anyStep s s' ∧ ¬ Alternates s'.log := by
  have hlog : heard (s.log ++ if s.client.onConnect then [.onConnect] else []) = none := by
    rw [hset, if_pos rfl, heard_append, htold]
    rfl
  exact ⟨_, runs_to_announce (fun _ _ _ => trivial) hpc (Int.le_refl 0)
    (show ConnectResult.established ≠ .refused by decide) 0 hfree hthread,
    fun halternates => halternates hlog⟩

theorem exists_other_handle (thread : UInt64) : ∃ other : UInt64, other ≠ thread ∧ other ≠ 0 := by
  by_cases h : thread = 1
  · exact ⟨2, by rw [h]; decide, by decide⟩
  · exact ⟨1, Ne.symm h, by decide⟩

/-- **The callbacks.** However the calling thread and the receivers interleave: in a run
    without the two races, `on_connect` and `on_disconnect` alternate, `on_connect` first;
    and as soon as a step is one of them, some way of going on breaks this. -/
theorem alternates_unless_raced {start s : Stage} (h : Fresh start)
    (hrun : Runs Step Clear start s) :
    Alternates s.log ∧ ∀ e s', Step s e s' →
      (Clear s e → Alternates s'.log) ∧
      (¬ Clear s e → ∃ s'', Runs Step anyStep s' s'' ∧ ¬ Alternates s''.log) := by
  have horderly := orderly_of_clear h hrun
  refine ⟨horderly.alternates, fun e s' hstep =>
    ⟨fun hclear => (horderly.step hclear hstep).alternates, ?_⟩⟩
  intro hclear
  cases hstep with
  | busy hpc hstate => exact absurd (fun hne => absurd hstate hne) hclear
  | pass hpc hstate =>
      rw [Clear] at hclear
      push Not at hclear
      obtain ⟨-, thread, hleft⟩ := hclear
      rcases horderly.phase with hsilent | hstarting | hopen
      · rw [hsilent.gone thread] at hleft
        cases hleft
      · exact absurd hstarting.state hstate
      · obtain ⟨other, hother, hne⟩ := exists_other_handle s.client.receiverThread
        exact early_announce horderly.onConnect hopen.told rfl (hopen.others other hother) hne
  | @leave thread hpc =>
      rw [Clear] at hclear
      push Not at hclear
      obtain ⟨huser, rfl⟩ := hclear
      rcases horderly.phase with hsilent | hstarting | hopen
      · exact absurd huser hsilent.user
      · exact early_report horderly.onDisconnect hstarting.told (Function.update_self ..)
      · rcases hopen.user with hu | hu | hu <;> exact nomatch hu.symm.trans huser
  | _ => exact absurd trivial hclear

/-- A new client with both callbacks set, and nobody under way. -/
def newStage : Stage := ⟨newClient, .idle, fun _ => .gone, []⟩

theorem fresh_newStage : Fresh newStage := ⟨rfl, rfl, by decide, rfl, fun _ => rfl, rfl⟩

/-- The server closes the first session, and the user connects again. Until the second is
    announced its receiver must not leave; then it is. -/
theorem alternates_unless_raced_twice :
    ∃ s s' : Stage, Step s .announce s' ∧ ¬ Clear s (.leave 1) ∧
      s'.log = [.onConnect, .onDisconnect, .onConnect] ∧
      (Alternates s.log ∧ ∀ e s'', Step s e s'' →
        (Clear s e → Alternates s''.log) ∧
        (¬ Clear s e → ∃ later, Runs Step anyStep s'' later ∧ ¬ Alternates later.log)) ∧
      Alternates s'.log ∧ ∀ e s'', Step s' e s'' →
        (Clear s' e → Alternates s''.log) ∧
        (¬ Clear s' e → ∃ later, Runs Step anyStep s'' later ∧ ¬ Alternates later.log) := by
  have hplain : ∀ s e, Plain e → Clear s e := fun _ _ => clear_of_plain
  have hresult : ConnectResult.established ≠ .refused := by decide
  have hhandle : (1 : UInt64) ≠ 0 := by decide
  have hchecked : Clear newStage .check := fun _ _ => nofun
  have hannounced := (Runs.one hchecked (Step.pass rfl (by decide))).trans
    (runs_to_announce hplain rfl (Int.le_refl 0) hresult 0 rfl hhandle)
  have hrunning : Stage.receivers (((((newStage.setUser .checked).marked 0 0).created 1).call true
      .onConnect).setUser .idle) 1 = .running := rfl
  obtain ⟨s, hclosed, huser, hfree, hclient, hlog⟩ := runs_to_gone hplain hrunning nofun
  have hrun := hannounced.trans hclosed
  -- nobody is under way any more
  have hsilent : Silent s := by
    rcases (orderly_of_clear fresh_newStage hrun).phase with hsilent | hstarting | hopen
    · exact hsilent
    · exact nomatch hstarting.user.symm.trans huser
    · have htold := hopen.told
      rw [hlog] at htold
      cases htold
  have hagain : Clear s .check := by
    intro _ thread hleft
    rw [hsilent.gone thread] at hleft
    cases hleft
  have hcreated := (hrun.tail hagain (.pass huser (by rw [hclient]; decide))).trans
    (runs_to_created hplain rfl (Int.le_refl 0) hresult 0 hfree hhandle)
  have hannounce : Step (((s.setUser .checked).marked 0 0).created 1) .announce _ :=
    .announce rfl
  refine ⟨_, _, hannounce, fun hclear => hclear rfl rfl, ?_,
    alternates_unless_raced fresh_newStage hcreated,
    alternates_unless_raced fresh_newStage (hcreated.tail (hplain _ _ (by trivial)) hannounce)⟩
  show s.log ++ (if s.client.onConnect then [.onConnect] else []) = _
  rw [hlog, hclient]
  rfl

/-- The server closes the connection at once, and the first thing that the user hears of
    the session is its end. -/
theorem disconnected_first :
    ¬ ∀ start s : Stage, Fresh start → Runs Step anyStep start s → Alternates s.log := by
  intro hall
  let checked := newStage.setUser .checked
  have hcheck : Step newStage .check checked := .pass rfl (by decide)
  have hmarked : Runs Step anyStep checked (checked.marked 5 0) :=
    runs_to_marked (fun _ _ _ => trivial) rfl (by decide)
      (show ConnectResult.established ≠ .refused by decide) 0
  have hcreate : Step (checked.marked 5 0) (.create 1 true) ((checked.marked 5 0).created 1) :=
    .create rfl rfl (by decide)
  have hleave : Step ((checked.marked 5 0).created 1) (.leave 1)
      (((checked.marked 5 0).created 1).setReceiver 1 .leaving) := .leave rfl
  obtain ⟨s, hrun, hbad⟩ := early_report
    (s := ((checked.marked 5 0).created 1).setReceiver 1 .leaving) rfl rfl (Function.update_self ..)
  exact hbad (hall newStage s fresh_newStage
    (((((Runs.one trivial hcheck).trans hmarked).tail trivial hcreate).tail trivial hleave).trans
      hrun))

-- ── The steps make up the functions ──────────────────────────────────────────

/-- The callbacks among some calls. -/
def callbacks (calls : List ClientCall) : List ClientCall :=
  calls.filter (fun call => decide (call = .onConnect ∨ call = .onDisconnect))

theorem callbacks_set (set : Bool) {call : ClientCall}
    (h : call = .onConnect ∨ call = .onDisconnect) :
    callbacks (if set then [call] else []) = if set then [call] else [] := by
  cases set with
  | false => rfl
  | true => rcases h with rfl | rfl <;> rfl

/-- Undisturbed, the calling thread does what `connect_to_server` does. -/
theorem runs_connectToServer {s : Stage} (hidle : s.user = .idle) (outcome : ConnectOutcome)
    (hthread : outcome.threadCreated = true →
      s.receivers outcome.thread = .gone ∧ outcome.thread ≠ 0) :
    ∃ s', Runs Step anyStep s s' ∧ s'.user = .idle ∧
      s'.client = (connectToServer s.client outcome).2.1 ∧
      s'.log = s.log ++ callbacks (connectToServer s.client outcome).2.2 := by
  have hpass : ∀ hstate : s.client.state ≠ .connected,
      Runs Step anyStep s (s.setUser .checked) :=
    fun hstate => Runs.one trivial (.pass hidle hstate)
  have hexit := connectToServer_exit s.client outcome
  generalize connectToServer s.client outcome = result at hexit
  cases hexit with
  | connected hstate => exact ⟨s, Runs.refl s, hidle, rfl, (List.append_nil _).symm⟩
  | address hstate _ =>
      exact ⟨_, (hpass hstate).tail trivial (.address rfl), rfl, rfl, (List.append_nil _).symm⟩
  | noSocket hreach hsocket =>
      have hstep : Step (s.setUser .checked) (.socket outcome.socket) _ := .socket rfl
      rw [if_pos hsocket] at hstep
      exact ⟨_, (hpass hreach.state).tail trivial hstep, rfl, rfl, (List.append_nil _).symm⟩
  | refused hreach hsocket hconnect =>
      have hstep : Step ((s.setUser .checked).opened outcome.socket) (.connect .refused) _ :=
        .connect rfl
      rw [if_pos rfl] at hstep
      exact ⟨_, ((hpass hreach.state).trans
        (runs_to_opened (fun _ _ _ => trivial) rfl hsocket)).tail trivial hstep, rfl,
        rfl, (List.append_nil _).symm⟩
  | noThread hreach hsocket hconnect hcreated =>
      have hmarked : Runs Step anyStep s ((s.setUser .checked).marked outcome.socket outcome.now) :=
        (hpass hreach.state).trans
          (runs_to_marked (fun _ _ _ => trivial) rfl hsocket hconnect outcome.now)
      have hstep : Step ((s.setUser .checked).marked outcome.socket outcome.now)
          (.create outcome.thread false) _ := .noThread rfl
      exact ⟨_, hmarked.tail trivial hstep, rfl, rfl, (List.append_nil _).symm⟩
  | success hreach hsocket hconnect hcreated =>
      obtain ⟨hfree, hne⟩ := hthread hcreated
      have hannounced := runs_to_announce (P := anyStep) (fun _ _ _ => trivial)
        (s := s.setUser .checked) rfl hsocket hconnect outcome.now hfree hne
      refine ⟨_, (hpass hreach.state).trans hannounced, rfl, rfl, ?_⟩
      rw [callbacks, List.filter_append, ← callbacks, ← callbacks,
        callbacks_set _ (Or.inl rfl)]
      rfl

theorem dropSocket_eq (context : ClientContext) :
    (dropSocket context).1 =
        { context with
          running := 0
          socket := if 0 ≤ context.socket then -1 else context.socket } ∧
      callbacks (dropSocket context).2 = [] := by
  rw [dropSocket]
  dsimp only
  by_cases hsocket : 0 ≤ context.socket
  · rw [if_pos hsocket, if_pos hsocket]
    exact ⟨rfl, rfl⟩
  · rw [if_neg hsocket, if_neg hsocket]
    exact ⟨rfl, rfl⟩

theorem joinReceiver_eq (context : ClientContext) :
    (joinReceiver context).1 = { context with receiverThread := 0 } ∧
      callbacks (joinReceiver context).2 = [] := by
  rw [joinReceiver]
  by_cases hthread : context.receiverThread ≠ 0
  · rw [if_pos hthread]
    exact ⟨rfl, rfl⟩
  · rw [if_neg hthread]
    refine ⟨?_, rfl⟩
    rw [← not_not.mp hthread]

/-- The context and the callbacks behind a disconnect. -/
theorem disconnectFromServer_eq (context : ClientContext) (receiving : Bool) :
    (disconnectFromServer context receiving).1 =
        { context with
          running := 0
          socket := if 0 ≤ context.socket then -1 else context.socket
          receiverThread := 0
          state := .disconnected } ∧
      callbacks (disconnectFromServer context receiving).2 =
        if receiving && context.onDisconnect then [.onDisconnect] else [] := by
  obtain ⟨hdrop, hquiet⟩ := dropSocket_eq context
  rw [disconnectFromServer]
  dsimp only
  rw [(joinReceiver_eq _).1, callbacks, List.filter_append, List.filter_append, ← callbacks,
    ← callbacks, ← callbacks, (joinReceiver_eq _).2, hquiet, List.append_nil, List.nil_append]
  cases receiving with
  | false =>
      rw [if_neg Bool.false_ne_true, hdrop]
      exact ⟨rfl, rfl⟩
  | true =>
      rw [if_pos rfl, receiverExit, hdrop]
      exact ⟨rfl, callbacks_set _ (Or.inr rfl)⟩

/-- The stage once the socket is closed. -/
def Stage.dropped (s : Stage) : Stage :=
  { s with
    client :=
      { s.client with
        running := 0
        socket := if 0 ≤ s.client.socket then -1 else s.client.socket }
    user := .dropped }

theorem runs_to_dropped {s : Stage} (hidle : s.user = .idle) :
    Runs Step anyStep s s.dropped := by
  have hstop : Step s .stop
      ({ s with client := { s.client with running := 0 } }.setUser .stopping) := .stop hidle
  exact (Runs.one trivial hstop).tail trivial (.drop rfl)

/-- From the closed socket to the end, when no receiver is waited for. -/
theorem runs_from_dropped {s : Stage} (hpc : s.user = .dropped)
    (hgone : s.client.receiverThread ≠ 0 → s.receivers s.client.receiverThread = .gone) :
    Runs Step anyStep s
      (((s.storeThread 0).setState .disconnected).setUser .idle) := by
  have hjoin : Step s .join ((s.storeThread 0).setUser .joined) := .join hpc hgone
  exact (Runs.one trivial hjoin).tail trivial (.clear rfl)

/-- Undisturbed, and with the receiver leaving while it is waited for, the calling thread
    does what `disconnect_from_server` does. -/
theorem runs_disconnectFromServer {s : Stage} (hidle : s.user = .idle) {receiving : Bool}
    (hreceiver : if receiving then s.receivers s.client.receiverThread = .running
      else s.client.receiverThread ≠ 0 → s.receivers s.client.receiverThread = .gone) :
    ∃ s', Runs Step anyStep s s' ∧ s'.user = .idle ∧
      s'.client = (disconnectFromServer s.client receiving).1 ∧
      s'.log = s.log ++ callbacks (disconnectFromServer s.client receiving).2 := by
  rw [(disconnectFromServer_eq _ _).1, (disconnectFromServer_eq _ _).2]
  cases receiving with
  | false =>
      rw [if_neg Bool.false_ne_true] at hreceiver
      exact ⟨_, (runs_to_dropped hidle).trans (runs_from_dropped rfl hreceiver), rfl, rfl,
        (List.append_nil _).symm⟩
  | true =>
      rw [if_pos rfl] at hreceiver
      have hrunning : s.dropped.receivers s.client.receiverThread = .running := hreceiver
      obtain ⟨s', hrun, huser, hgone, hclient, hlog⟩ :=
        runs_to_gone (P := anyStep) (fun _ _ _ => trivial) hrunning trivial
      have hhandle : s'.client.receiverThread = s.client.receiverThread := by
        rw [hclient]
        rfl
      have hend := runs_from_dropped huser (fun _ => by rw [hhandle]; exact hgone)
      refine ⟨_, ((runs_to_dropped hidle).trans hrun).trans hend, rfl, ?_, hlog⟩
      show ({ s'.client with receiverThread := 0, state := .disconnected } : ClientContext) = _
      rw [hclient]
      rfl

end TradeCallback
