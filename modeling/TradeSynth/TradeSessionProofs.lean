import Mathlib.Data.Finset.Insert
import TradeSynth.TradeClientProofs
import TradeSynth.TradeReceiveProofs

/-!
# Sessions — a client that connects and disconnects any number of times

A history is a list of calls of `connect_to_server` and `disconnect_from_server`, with
the ends of receiver threads in between. Two things are to be kept up along it.

* The flag `running` is set once, by `initialize_client`, and cleared by the first
  disconnect. The receiver of every later session leaves its loop before the first
  `recv` (`session_receives_iff`).
* The socket field is the only record of the descriptor. It survives the end of a
  session from the other side, and the next connect writes over it; and it survives
  a failed attempt that has closed the descriptor, and the next disconnect or the
  cleanup closes it again (`sound_iff_clear`).
-/

namespace TradeSession

open FixedCodec TradeTypes TradeCodec TradeWire TradeReceive TradeClient

-- ── Histories ────────────────────────────────────────────────────────────────

/-- The client, the descriptors it has opened and not closed, and whether a receiver
    thread is in its loop. -/
structure Session where
  client    : ClientContext
  owned     : Finset Int
  receiving : Bool

inductive SessionEvent where
  | connect (outcome : ConnectOutcome)
  | disconnect
  /-- the server closes the connection, or `recv` fails -/
  | receiverExit

/-- What a call leaves open. -/
def post (owned : Finset Int) : ClientCall → Finset Int
  | .opened fd => insert fd owned
  | .closed fd => owned.erase fd
  | _ => owned

/-- What a list of calls leaves open. -/
def settle (owned : Finset Int) (calls : List ClientCall) : Finset Int := calls.foldl post owned

/-- The context behind an event, and the calls made in it. Only a receiver that is in its
    loop can leave it. -/
def perform (s : Session) : SessionEvent → ClientContext × List ClientCall
  | .connect outcome => (connectToServer s.client outcome).2
  | .disconnect => disconnectFromServer s.client s.receiving
  | .receiverExit => if s.receiving then receiverExit s.client else (s.client, [])

/-- Whether a receiver is in its loop behind an event. -/
def receives (s : Session) : SessionEvent → Bool
  | .connect outcome => s.receiving ||
      decide ((connectToServer s.client outcome).1 = ErrorCode.success.code)
  | _ => false

def after (s : Session) (e : SessionEvent) : Session where
  client := (perform s e).1
  owned := settle s.owned (perform s e).2
  receiving := receives s e

/-- The session at the end of a history. -/
def afterAll (s : Session) (history : List SessionEvent) : Session := history.foldl after s

/-- The session of a new client. -/
def start (client : ClientContext) : Session := ⟨client, ∅, false⟩

-- ── The flag ─────────────────────────────────────────────────────────────────

theorem connectToServer_running (context : ClientContext) (outcome : ConnectOutcome) :
    (connectToServer context outcome).2.1.running = context.running := by
  have hexit := connectToServer_exit context outcome
  generalize connectToServer context outcome = result at hexit
  cases hexit <;> rfl

/-- An event keeps the flag, unless it is a disconnect. -/
theorem running_after (s : Session) (e : SessionEvent) :
    (after s e).client.running = 1 ↔ s.client.running = 1 ∧ e ≠ .disconnect := by
  cases e with
  | connect outcome =>
      rw [after, perform, connectToServer_running]
      exact (and_iff_left nofun).symm
  | disconnect =>
      rw [after, perform, (disconnectFromServer_frame _ _).1]
      exact iff_of_false (by decide) (fun h => h.2 rfl)
  | receiverExit =>
      have hkept : (perform s .receiverExit).1.running = s.client.running := by
        rw [perform]
        split <;> rfl
      rw [after, hkept]
      exact (and_iff_left nofun).symm

theorem running_afterAll (history : List SessionEvent) :
    ∀ s : Session, (afterAll s history).client.running = 1 ↔
      s.client.running = 1 ∧ .disconnect ∉ history := by
  induction history with
  | nil => exact fun s => (and_iff_left List.not_mem_nil).symm
  | cons e rest ih =>
      intro s
      rw [afterAll, List.foldl_cons, ← afterAll, ih, running_after, List.mem_cons, not_or,
        and_assoc]
      exact and_congr_right (fun _ => and_congr_left (fun _ => ne_comm))

/-- The thread looks at the flag before each `recv`; a session leaves the flag alone. -/
def messageReceiverThread {σ : Type} (dispatch : σ → Message → CheckedMemory.Checked σ)
    (running : Int32) (r : RecvState) (st : σ) (events : List RecvEvent) :
    CheckedMemory.Checked σ :=
  if running = 0 then messageReceiverLoop dispatch r st (.stopped :: events)
  else messageReceiverLoop dispatch r st events

/-- The receiver brings these messages to its switch, however often it polls. -/
def Receives (running : Int32) (ms : List Message) (chunks : List (List UInt8)) : Prop :=
  ∀ r events, Polls events chunks → ∃ seen,
    messageReceiverThread record running r [] events = .ok seen ∧
      seen.map content = ms.map content

theorem polls_map (chunks : List (List UInt8)) : Polls (chunks.map .received) chunks := by
  induction chunks with
  | nil => exact .nil
  | cons chunk rest ih => exact .data chunk ih

theorem receives_iff_brings (ms : List Message) (chunks : List (List UInt8)) :
    Receives 1 ms chunks ↔ Brings ms chunks := by
  have hloop : ∀ r events, Polls events chunks →
      messageReceiverThread record 1 r [] events = dispatched r chunks := by
    intro r events hevents
    rw [messageReceiverThread, if_neg (by decide), messageReceiverLoop_eq hevents]
    cases dispatched r chunks <;> rfl
  constructor
  · intro hreceives r
    obtain ⟨seen, hseen, hcontent⟩ := hreceives r _ (polls_map chunks)
    exact ⟨seen, (hloop r _ (polls_map chunks)).symm.trans hseen, hcontent⟩
  · intro hbrings r events hevents
    obtain ⟨seen, hseen, hcontent⟩ := hbrings r
    exact ⟨seen, (hloop r events hevents).trans hseen, hcontent⟩

theorem running_initialized {serverHost : List UInt8} {onConnect onDisconnect : Bool}
    {init : ClientInit} {client : ClientContext}
    (h : initializeClient serverHost onConnect onDisconnect init = some client) :
    client.running = 1 ∧ client.socket = -1 ∧ client.state = .disconnected := by
  rw [initializeClient] at h
  split at h
  · cases h
  split at h
  · cases h
  cases h
  exact ⟨rfl, rfl, rfl⟩

/-- **Every session receives.** Behind any history of a client, a successful connect finds
    the flag set, and its receiver brings every stream of messages of given types, cut
    into chunks of given lengths, to the switch, exactly when the history has no
    disconnect and the chunks are the encodings. -/
theorem session_receives_iff {serverHost : List UInt8} {onConnect onDisconnect : Bool}
    {init : ClientInit} {client client' : ClientContext}
    (hinit : initializeClient serverHost onConnect onDisconnect init = some client)
    (history : List SessionEvent) {outcome : ConnectOutcome} {calls : List ClientCall}
    (hconnect : connectToServer (afterAll (start client) history).client outcome =
      (ErrorCode.success.code, client', calls))
    {ts : List (CEnum MessageType)} {cuts : List Nat}
    (hts : ∀ t ∈ ts, t ∈ serializableTypes) (hcuts : ∀ k ∈ cuts, 0 < k ∧ k ≤ bufferSize)
    (hsum : cuts.sum = (ts.map encodedSize).sum) :
    (client'.running = 1 ∧
        ∀ ms es chunks, ms.map Message.type = ts → List.Forall₂ Encodes ms es →
          chunks.flatten = es.flatten → chunks.map List.length = cuts →
          Receives client'.running ms chunks) ↔
      .disconnect ∉ history ∧ cuts = ts.map encodedSize := by
  have hrunning : client'.running = (afterAll (start client) history).client.running := by
    have hkept := connectToServer_running (afterAll (start client) history).client outcome
    rw [hconnect] at hkept
    exact hkept
  have hflag : client'.running = 1 ↔ .disconnect ∉ history := by
    rw [hrunning, running_afterAll]
    exact and_iff_right (running_initialized hinit).1
  rw [← brings_iff_cuts hts hcuts hsum, ← hflag]
  refine and_congr_right (fun hone => ?_)
  rw [hone]
  simp only [receives_iff_brings]

/-- The server has closed a first session, and the client connects again. -/
theorem session_receives_iff_again :
    ∃ client' calls,
      connectToServer
        (afterAll (start newClient) [.connect (connects 5), .receiverExit]).client (connects 6) =
          (ErrorCode.success.code, client', calls) ∧
      client'.socket = 6 ∧
      ((client'.running = 1 ∧
          ∀ ms es chunks, ms.map Message.type = [.known .orderNew, .known .marketData] →
            List.Forall₂ Encodes ms es → chunks.flatten = es.flatten →
            chunks.map List.length = [148, 124] → Receives client'.running ms chunks) ↔
        .disconnect ∉ [SessionEvent.connect (connects 5), .receiverExit] ∧
          [148, 124] = [CEnum.known .orderNew, .known .marketData].map encodedSize) := by
  have hconnect : connectToServer
      (afterAll (start newClient) [.connect (connects 5), .receiverExit]).client (connects 6) =
        (ErrorCode.success.code,
          withThread (receiverExit (withThread newClient (connects 5))).1 (connects 6), _) := rfl
  exact ⟨_, _, hconnect, rfl, session_receives_iff initialize_newClient
    [.connect (connects 5), .receiverExit] hconnect (by decide) (by decide) (by decide)⟩

/-- The second session of a client finds the flag cleared. -/
theorem second_session_deaf :
    ¬ ∀ (serverHost : List UInt8) (onConnect onDisconnect : Bool) (init : ClientInit)
        (client client' : ClientContext) (history : List SessionEvent)
        (outcome : ConnectOutcome) (calls : List ClientCall),
        initializeClient serverHost onConnect onDisconnect init = some client →
        connectToServer (afterAll (start client) history).client outcome =
          (ErrorCode.success.code, client', calls) → client'.running = 1 := by
  intro hall
  have hflag := hall _ _ _ _ newClient _ [.connect (connects 5), .disconnect] (connects 5) _
    initialize_newClient rfl
  exact absurd hflag (by decide)

-- ── The descriptors of a history ─────────────────────────────────────────────

/-- A descriptor is shut down or closed only while it is open. -/
def Legit (owned : Finset Int) : ClientCall → Prop
  | .shutDown fd => fd ∈ owned
  | .closed fd => fd ∈ owned
  | _ => True

/-- Every call of the list is legitimate at its place. -/
def Proper : Finset Int → List ClientCall → Prop
  | _, [] => True
  | owned, call :: rest => Legit owned call ∧ Proper (post owned call) rest

instance decidableLegit (owned : Finset Int) : (call : ClientCall) → Decidable (Legit owned call)
  | .shutDown fd => inferInstanceAs (Decidable (fd ∈ owned))
  | .closed fd => inferInstanceAs (Decidable (fd ∈ owned))
  | .opened _ => isTrue trivial
  | .created _ => isTrue trivial
  | .joined _ => isTrue trivial
  | .onConnect => isTrue trivial
  | .onDisconnect => isTrue trivial

instance decidableProper : (owned : Finset Int) → (calls : List ClientCall) →
    Decidable (Proper owned calls)
  | _, [] => isTrue trivial
  | owned, call :: rest =>
      have := decidableProper (post owned call) rest
      inferInstanceAs (Decidable (Legit owned call ∧ Proper (post owned call) rest))

/-- The calls from some session to the end of the history, and of the cleanup behind it. -/
def allCalls (s : Session) : List SessionEvent → List ClientCall
  | [] => cleanupClient s.client s.receiving
  | e :: rest => (perform s e).2 ++ allCalls (after s e) rest

/-- The kernel hands out no descriptor that is still open. -/
def Possible (s : Session) : List SessionEvent → Prop
  | [] => True
  | e :: rest => (∀ fd, .opened fd ∈ (perform s e).2 → fd ∉ s.owned) ∧ Possible (after s e) rest

/-- Every descriptor is closed once and none is touched behind that. -/
def Sound (owned : Finset Int) (calls : List ClientCall) : Prop :=
  Proper owned calls ∧ settle owned calls = ∅

theorem settle_append (owned : Finset Int) (calls rest : List ClientCall) :
    settle owned (calls ++ rest) = settle (settle owned calls) rest :=
  List.foldl_append

theorem proper_append {calls rest : List ClientCall} :
    ∀ {owned : Finset Int}, Proper owned (calls ++ rest) ↔
      Proper owned calls ∧ Proper (settle owned calls) rest := by
  induction calls with
  | nil => exact fun {owned} => (and_iff_right trivial).symm
  | cons call calls ih =>
      intro owned
      rw [List.cons_append, Proper, Proper, ih, and_assoc]
      rfl

theorem sound_append {owned : Finset Int} {calls rest : List ClientCall} :
    Sound owned (calls ++ rest) ↔ Proper owned calls ∧ Sound (settle owned calls) rest := by
  rw [Sound, Sound, proper_append, settle_append, and_assoc]

-- ── What the field stands for ────────────────────────────────────────────────

/-- What became of the last connect that came as far as `socket`, if no disconnect has
    followed it. -/
inductive Standing where
  /-- there was none, or `socket` failed -/
  | none
  /-- it succeeded -/
  | live
  /-- it failed in `connect` or in `pthread_create` -/
  | stale
deriving DecidableEq

instance (context : ClientContext) (outcome : ConnectOutcome) :
    Decidable (Reaches context outcome) :=
  decidable_of_iff (context.state ≠ .connected ∧
    0 < outcome.inetPton (address context.serverHost)) ⟨fun h => ⟨h.1, h.2⟩, fun h => ⟨h.1, h.2⟩⟩

def Standing.next (standing : Standing) (s : Session) : SessionEvent → Standing
  | .connect outcome =>
      if Reaches s.client outcome then
        if outcome.socket < 0 then .none
        else if outcome.connect = .refused ∨ outcome.threadCreated = false then .stale
        else .live
      else standing
  | .disconnect => .none
  | .receiverExit => standing

/-- No connect comes as far as `socket` behind a success, and no disconnect follows a
    failure in `connect` or `pthread_create`. -/
def Clear (standing : Standing) (s : Session) : SessionEvent → Prop
  | .connect outcome => Reaches s.client outcome → standing ≠ .live
  | .disconnect => standing ≠ .stale
  | .receiverExit => True

/-- Every event of the history is clear, and so is the cleanup. -/
def ClearAll (standing : Standing) (s : Session) : List SessionEvent → Prop
  | [] => Clear standing s .disconnect
  | e :: rest => Clear standing s e ∧ ClearAll (standing.next s e) (after s e) rest

/-- What the field and the kernel hold, as long as every event was clear. -/
def Book (s : Session) : Standing → Prop
  | .none => s.client.socket < 0 ∧ s.owned = ∅
  | .live => 0 ≤ s.client.socket ∧ s.owned = {s.client.socket}
  | .stale => 0 ≤ s.client.socket ∧ s.owned = ∅

/-- A descriptor that is open, and that the context has forgotten. -/
def Lost (s : Session) (fd : Int) : Prop := 0 ≤ fd ∧ fd ∈ s.owned ∧ s.client.socket ≠ fd

-- ── What each event does to the descriptors ──────────────────────────────────

/-- Calls that concern no descriptor. -/
def Neutral (calls : List ClientCall) : Prop :=
  ∀ owned, Proper owned calls ∧ settle owned calls = owned

theorem neutral_append {calls rest : List ClientCall} (hcalls : Neutral calls)
    (hrest : Neutral rest) : Neutral (calls ++ rest) := by
  intro owned
  rw [proper_append, settle_append, (hcalls owned).2]
  exact ⟨⟨(hcalls owned).1, (hrest owned).1⟩, (hrest owned).2⟩

/-- Whether a callback is set or not, its call concerns no descriptor. -/
theorem neutral_callback (call : ClientCall) (h : Neutral [call]) (set : Bool) :
    Neutral (if set then [call] else []) := by
  cases set with
  | false => exact fun _ => ⟨trivial, rfl⟩
  | true => exact h

theorem neutral_receiverExit (context : ClientContext) : Neutral (receiverExit context).2 :=
  neutral_callback .onDisconnect (fun _ => ⟨⟨trivial, trivial⟩, rfl⟩) context.onDisconnect

theorem neutral_joinReceiver (context : ClientContext) : Neutral (joinReceiver context).2 := by
  intro owned
  rw [joinReceiver]
  split
  · exact ⟨⟨trivial, trivial⟩, rfl⟩
  · exact ⟨trivial, rfl⟩

/-- A disconnect shuts down and closes what the field names. -/
theorem disconnect_books (context : ClientContext) (receiving : Bool) (owned : Finset Int) :
    (Proper owned (disconnectFromServer context receiving).2 ↔
      (0 ≤ context.socket → context.socket ∈ owned)) ∧
    settle owned (disconnectFromServer context receiving).2 =
      if 0 ≤ context.socket then owned.erase context.socket else owned := by
  have hneutral : ∃ rest, Neutral rest ∧
      (disconnectFromServer context receiving).2 = (dropSocket context).2 ++ rest := by
    rw [disconnectFromServer]
    cases receiving with
    | false =>
        exact ⟨_, neutral_joinReceiver (dropSocket context).1, by rw [List.append_assoc]; rfl⟩
    | true =>
        exact ⟨_, neutral_append (neutral_receiverExit _) (neutral_joinReceiver _),
          List.append_assoc _ _ _⟩
  obtain ⟨rest, hrest, hcalls⟩ := hneutral
  rw [hcalls, proper_append, settle_append, (hrest _).2, and_iff_left (hrest _).1, dropSocket]
  dsimp only
  by_cases hsocket : 0 ≤ context.socket
  · rw [if_pos hsocket, if_pos hsocket]
    exact ⟨⟨fun hproper _ => hproper.1, fun hopen => ⟨hopen hsocket, hopen hsocket, trivial⟩⟩, rfl⟩
  · rw [if_neg hsocket, if_neg hsocket]
    exact ⟨⟨fun _ h => absurd h hsocket, fun _ => trivial⟩, rfl⟩

/-- A connect that comes as far as `socket` writes its result over the field. What it
    opens it closes again, unless it succeeds. -/
theorem reaching_books {context : ClientContext} {outcome : ConnectOutcome}
    (h : Reaches context outcome) (owned : Finset Int)
    (hfresh : ∀ fd, .opened fd ∈ (connectToServer context outcome).2.2 → fd ∉ owned) :
    (connectToServer context outcome).2.1.socket = outcome.socket ∧
    Proper owned (connectToServer context outcome).2.2 ∧
    (0 ≤ outcome.socket → outcome.socket ∉ owned) ∧
    settle owned (connectToServer context outcome).2.2 =
      if outcome.socket < 0 ∨ outcome.connect = .refused ∨ outcome.threadCreated = false
        then owned else insert outcome.socket owned := by
  have hexit := connectToServer_exit context outcome
  generalize connectToServer context outcome = result at hexit hfresh
  cases hexit with
  | connected hstate => exact absurd hstate h.state
  | address _ haddress => exact absurd h.address (Int.not_lt.mpr haddress)
  | noSocket _ hsocket =>
      rw [if_pos (Or.inl hsocket)]
      exact ⟨rfl, trivial, fun hle => by omega, rfl⟩
  | refused _ hsocket hconnect =>
      have hnew := hfresh _ List.mem_cons_self
      rw [if_pos (Or.inr (Or.inl hconnect))]
      exact ⟨rfl, ⟨trivial, Finset.mem_insert_self _ _, trivial⟩, fun _ => hnew,
        Finset.erase_insert hnew⟩
  | noThread _ hsocket _ hthread =>
      have hnew := hfresh _ List.mem_cons_self
      rw [if_pos (Or.inr (Or.inr hthread))]
      exact ⟨rfl, ⟨trivial, Finset.mem_insert_self _ _, trivial⟩, fun _ => hnew,
        Finset.erase_insert hnew⟩
  | success _ hsocket hconnect hthread =>
      have hnew := hfresh _ (List.mem_append_left _ List.mem_cons_self)
      have hcallback : Neutral (if context.onConnect then [.onConnect] else []) :=
        neutral_callback .onConnect (fun _ => ⟨⟨trivial, trivial⟩, rfl⟩) context.onConnect
      have hkept : ¬ (outcome.socket < 0 ∨ outcome.connect = .refused ∨
          outcome.threadCreated = false) := by
        rintro (hneg | hrefused | hnone)
        · omega
        · exact hconnect hrefused
        · rw [hthread] at hnone
          cases hnone
      rw [if_neg hkept, proper_append, settle_append, (hcallback _).2]
      exact ⟨rfl, ⟨⟨trivial, trivial, trivial⟩, (hcallback _).1⟩, fun _ => hnew, rfl⟩

/-- A connect that does not come as far changes nothing. -/
theorem connect_short {context : ClientContext} {outcome : ConnectOutcome}
    (h : ¬ Reaches context outcome) : (connectToServer context outcome).2 = (context, []) := by
  have hexit := connectToServer_exit context outcome
  generalize connectToServer context outcome = result at hexit
  cases hexit with
  | connected => rfl
  | address => rfl
  | noSocket hreach => exact absurd hreach h
  | refused hreach => exact absurd hreach h
  | noThread hreach => exact absurd hreach h
  | success hreach => exact absurd hreach h

theorem perform_receiverExit (s : Session) :
    (perform s .receiverExit).1.socket = s.client.socket ∧
      Neutral (perform s .receiverExit).2 := by
  rw [perform]
  split
  · exact ⟨rfl, neutral_receiverExit s.client⟩
  · exact ⟨rfl, fun _ => ⟨trivial, rfl⟩⟩

-- ── Whole histories ──────────────────────────────────────────────────────────

/-- A disconnect that is not behind a failure touches nothing that is closed, and leaves
    nothing open. -/
theorem Book.disconnect {s : Session} {standing : Standing} (h : Book s standing)
    (hclear : standing ≠ .stale) :
    Proper s.owned (disconnectFromServer s.client s.receiving).2 ∧
      Book (after s .disconnect) .none := by
  obtain ⟨hproper, hsettle⟩ := disconnect_books s.client s.receiving s.owned
  refine ⟨hproper.mpr ?_, (disconnectFromServer_frame s.client s.receiving).2, hsettle.trans ?_⟩
  · intro hsocket
    cases standing with
    | none => exact absurd h.1 (Int.not_lt.mpr hsocket)
    | live =>
        rw [h.2]
        exact Finset.mem_singleton_self _
    | stale => exact absurd rfl hclear
  · cases standing with
    | none => rw [if_neg (Int.not_le.mpr h.1), h.2]
    | live => rw [if_pos h.1, h.2, Finset.erase_singleton]
    | stale => exact absurd rfl hclear

/-- A clear event touches nothing that is closed, and the books stay right. -/
theorem Book.step {s : Session} {standing : Standing} (h : Book s standing) {e : SessionEvent}
    (hclear : Clear standing s e) (hfresh : ∀ fd, .opened fd ∈ (perform s e).2 → fd ∉ s.owned) :
    Proper s.owned (perform s e).2 ∧ Book (after s e) (standing.next s e) := by
  cases e with
  | connect outcome =>
      by_cases hreach : Reaches s.client outcome
      swap
      · have hshort : perform s (.connect outcome) = (s.client, []) := connect_short hreach
        rw [Standing.next, if_neg hreach, hshort]
        refine ⟨trivial, ?_⟩
        rw [after, hshort]
        cases standing <;> exact h
      obtain ⟨hfield, hproper, -, hsettle⟩ := reaching_books hreach s.owned hfresh
      refine ⟨hproper, ?_⟩
      have howned : s.owned = ∅ := by
        cases standing with
        | none => exact h.2
        | live => exact absurd rfl (hclear hreach)
        | stale => exact h.2
      rw [Standing.next, if_pos hreach, after]
      rw [howned] at hsettle
      by_cases hsocket : outcome.socket < 0
      · rw [if_pos (Or.inl hsocket)] at hsettle
        rw [if_pos hsocket]
        exact ⟨hfield ▸ hsocket, by rw [howned]; exact hsettle⟩
      rw [if_neg hsocket]
      by_cases hfailed : outcome.connect = .refused ∨ outcome.threadCreated = false
      · rw [if_pos (Or.inr hfailed)] at hsettle
        rw [if_pos hfailed]
        exact ⟨hfield ▸ Int.not_lt.mp hsocket, by rw [howned]; exact hsettle⟩
      · rw [if_neg (not_or.mpr ⟨hsocket, hfailed⟩)] at hsettle
        rw [if_neg hfailed]
        refine ⟨hfield ▸ Int.not_lt.mp hsocket, ?_⟩
        rw [howned]
        exact hsettle.trans (by rw [perform, hfield]; rfl)
  | disconnect => exact h.disconnect hclear
  | receiverExit =>
      obtain ⟨hfield, hneutral⟩ := perform_receiverExit s
      refine ⟨(hneutral _).1, ?_⟩
      rw [Standing.next]
      have howned : (after s .receiverExit).owned = s.owned := (hneutral _).2
      have hsocket : (after s .receiverExit).client.socket = s.client.socket := hfield
      cases standing with
      | none => exact ⟨hsocket ▸ h.1, howned.trans h.2⟩
      | live => exact ⟨hsocket ▸ h.1, by rw [howned, hsocket, h.2]⟩
      | stale => exact ⟨hsocket ▸ h.1, howned.trans h.2⟩

/-- A connect that comes as far as `socket` forgets whatever is open. -/
theorem lost_of_reaches {s : Session} {fd : Int} (hnonneg : 0 ≤ fd) (howned : fd ∈ s.owned)
    {outcome : ConnectOutcome} (hreach : Reaches s.client outcome)
    (hfresh : ∀ fd, .opened fd ∈ (perform s (.connect outcome)).2 → fd ∉ s.owned) :
    Lost (after s (.connect outcome)) fd := by
  obtain ⟨hnew, -, hnot, hsettle⟩ := reaching_books hreach s.owned hfresh
  refine ⟨hnonneg, ?_, ?_⟩
  · rw [after, perform, hsettle]
    split
    · exact howned
    · exact Finset.mem_insert_of_mem howned
  · rw [after, perform, hnew]
    rintro rfl
    exact hnot hnonneg howned

/-- A disconnect does not close what the context has forgotten. -/
theorem Lost.disconnect {s : Session} {fd : Int} (h : Lost s fd) :
    Lost (after s .disconnect) fd := by
  obtain ⟨hnonneg, howned, hfield⟩ := h
  refine ⟨hnonneg, ?_, ?_⟩
  · rw [after, perform, (disconnect_books s.client s.receiving s.owned).2]
    split
    · exact Finset.mem_erase.mpr ⟨Ne.symm hfield, howned⟩
    · exact howned
  · have hnone : (after s .disconnect).client.socket < 0 :=
      (disconnectFromServer_frame s.client s.receiving).2
    omega

/-- Nor does any other event. -/
theorem Lost.step {s : Session} {fd : Int} (h : Lost s fd) {e : SessionEvent}
    (hfresh : ∀ fd, .opened fd ∈ (perform s e).2 → fd ∉ s.owned) : Lost (after s e) fd := by
  obtain ⟨hnonneg, howned, hfield⟩ := h
  cases e with
  | connect outcome =>
      by_cases hreach : Reaches s.client outcome
      · exact lost_of_reaches hnonneg howned hreach hfresh
      · have hshort : perform s (.connect outcome) = (s.client, []) := connect_short hreach
        rw [after, hshort]
        exact ⟨hnonneg, howned, hfield⟩
  | disconnect => exact Lost.disconnect ⟨hnonneg, howned, hfield⟩
  | receiverExit =>
      obtain ⟨hsame, hneutral⟩ := perform_receiverExit s
      exact ⟨hnonneg, by rw [after, (hneutral _).2]; exact howned,
        by rw [after, hsame]; exact hfield⟩

/-- What has been forgotten is never closed. -/
theorem Lost.not_sound {fd : Int} (history : List SessionEvent) :
    ∀ {s : Session}, Lost s fd → Possible s history → ¬ Sound s.owned (allCalls s history) := by
  induction history with
  | nil =>
      intro s hlost _ hsound
      have hempty : (after s .disconnect).owned = ∅ := hsound.2
      have hmem := hlost.disconnect.2.1
      rw [hempty] at hmem
      exact absurd hmem (Finset.notMem_empty _)
  | cons e rest ih =>
      intro s hlost hpossible hsound
      rw [allCalls, sound_append] at hsound
      exact ih (hlost.step hpossible.1) hpossible.2 hsound.2

/-- A disconnect behind a failure touches a closed descriptor. -/
theorem improper_of_unclear {s : Session} (h : Book s .stale) :
    ¬ Proper s.owned (disconnectFromServer s.client s.receiving).2 := by
  rw [(disconnect_books s.client s.receiving s.owned).1, h.2]
  exact fun hopen => absurd (hopen h.1) (Finset.notMem_empty _)

theorem sound_of_book (history : List SessionEvent) :
    ∀ {s : Session} {standing : Standing}, Book s standing → Possible s history →
      (Sound s.owned (allCalls s history) ↔ ClearAll standing s history) := by
  induction history with
  | nil =>
      intro s standing hbook _
      rw [allCalls, cleanupClient, ClearAll, Clear]
      constructor
      · rintro ⟨hproper, -⟩ rfl
        exact improper_of_unclear hbook hproper
      · intro hclear
        obtain ⟨hproper, hnext⟩ := hbook.disconnect hclear
        exact ⟨hproper, hnext.2⟩
  | cons e rest ih =>
      intro s standing hbook hpossible
      rw [allCalls, sound_append, ClearAll]
      by_cases hclear : Clear standing s e
      · obtain ⟨hproper, hnext⟩ := hbook.step hclear hpossible.1
        exact (and_iff_right hproper).trans
          ((ih hnext hpossible.2).trans (and_iff_right hclear).symm)
      refine iff_of_false ?_ (fun h => hclear h.1)
      rintro ⟨hproper, hsound⟩
      cases e with
      | connect outcome =>
          rw [Clear] at hclear
          push Not at hclear
          obtain ⟨hreach, rfl⟩ := hclear
          have hopen : s.client.socket ∈ s.owned := by
            rw [hbook.2]
            exact Finset.mem_singleton_self _
          have hlost : Lost (after s (.connect outcome)) s.client.socket :=
            lost_of_reaches hbook.1 hopen hreach hpossible.1
          exact Lost.not_sound rest hlost hpossible.2 hsound
      | disconnect =>
          obtain rfl : standing = .stale := not_not.mp hclear
          exact improper_of_unclear hbook hproper
      | receiverExit => exact hclear trivial

/-- **The client's descriptors.** Over any history of a client that ends with the cleanup,
    every descriptor is closed exactly once, and none is touched behind that, exactly
    when no connect comes as far as `socket` behind a success without a disconnect in
    between, and no disconnect and no cleanup follow a failure in `connect` or
    `pthread_create` without another connect that comes as far. -/
theorem sound_iff_clear {serverHost : List UInt8} {onConnect onDisconnect : Bool}
    {init : ClientInit} {client : ClientContext}
    (hinit : initializeClient serverHost onConnect onDisconnect init = some client)
    {history : List SessionEvent} (hpossible : Possible (start client) history) :
    Sound ∅ (allCalls (start client) history) ↔ ClearAll .none (start client) history := by
  have hbook : Book (start client) .none := by
    refine ⟨?_, rfl⟩
    rw [start, (running_initialized hinit).2.1]
    decide
  exact sound_of_book history hbook hpossible

theorem sound_iff_clear_once :
    Sound ∅ (allCalls (start newClient) [.connect (connects 5), .disconnect]) ↔
      ClearAll .none (start newClient) [.connect (connects 5), .disconnect] := by
  have hcalls : (perform (after (start newClient) (.connect (connects 5))) .disconnect).2 =
      [.shutDown 5, .closed 5, .onDisconnect, .joined 1] := by decide
  refine sound_iff_clear initialize_newClient ⟨fun fd _ => Finset.notMem_empty fd, ?_, trivial⟩
  intro fd hmem
  rw [hcalls] at hmem
  simp at hmem

/-- The server refuses, and the cleanup closes the descriptor a second time. -/
theorem refused_closed_twice :
    ¬ ∀ (serverHost : List UInt8) (onConnect onDisconnect : Bool) (init : ClientInit)
        (client : ClientContext) (history : List SessionEvent),
        initializeClient serverHost onConnect onDisconnect init = some client →
        Possible (start client) history → Sound ∅ (allCalls (start client) history) := by
  intro hall
  have hsound := hall _ _ _ _ newClient [.connect (refuses 5)] initialize_newClient
    ⟨fun fd _ => Finset.notMem_empty fd, trivial⟩
  exact absurd hsound.1 (by decide)

end TradeSession
