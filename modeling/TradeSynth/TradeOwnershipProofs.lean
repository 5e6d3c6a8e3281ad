import Mathlib.Data.List.Nodup
import TradeSynth.TradeRunProofs

/-!
# Descriptor ownership — which runs of the server close what they own

The descriptors a well-kept server holds are its listening socket, while it runs, and
the sockets of its connected clients. `Books` says that these are distinct and are
exactly the open entries of the ledger.

Four habits of the code break the books:

* the `close` of `disconnect_client` reads the descriptor after the shift, so only the
  last client closes its own;
* removal searches by id, so of two clients with one id the wrong one is removed;
* `stop_server` closes `server_socket` also before a first start, when it is still the
  0 of `calloc`;
* a second start while the server runs drops the listening socket.

A run that avoids them is `Orderly`, and keeps the books to its end (`orderly_owned`).
-/

namespace TradeOwnership

open CheckedMemory FixedCodec TradeTypes DescriptorLedger TradeRegistry TradeRun

variable {config : ServerConfig}

-- ── Orderly operations ───────────────────────────────────────────────────────

/-- A start has been attempted. -/
def Started (context : ServerContext config) : Prop :=
  context.state ≠ .init ∨ context.serverSocket < 0

/-- No connected client before slot `j` has the id of slot `j`. -/
def OwnId (context : ServerContext config) (j : Nat) : Prop :=
  ∀ k c target, k < j → context.connected[k]? = some c →
    context.connected[j]? = some target → c.idString ≠ target.idString

/-- The operations that keep the books: the last client leaves, under an id of its own;
    the server is not started while it runs, and not stopped before a first start. -/
def Orderly (context : ServerContext config) : Op → Prop
  | .start _ => context.state ≠ .running
  | .disconnect j => j + 1 = context.clientCount ∧ OwnId context j
  | .stop => Started context
  | _ => True

/-- Runs of orderly operations under a kernel that keeps its promise. -/
def orderlyRun (s : Sys config) (op : Op) : Prop :=
  op.Kernel s.owned ∧ Orderly s.context op

-- ── The books ────────────────────────────────────────────────────────────────

/-- The descriptors that the context knows as open. -/
def holdings (context : ServerContext config) : List Int :=
  (if context.state = .running then [context.serverSocket] else []) ++ context.sockets

structure Books (s : Sys config) : Prop where
  distinct  : (holdings s.context).Nodup
  exact     : ∀ fd, fd ∈ s.owned ↔ fd ∈ holdings s.context
  listening : s.context.state = .running → 0 ≤ s.context.serverSocket
  idle      : s.context.state ≠ .running → s.context.serverSocket < 0 ∨
    s.context.state = .init ∧ s.context.serverSocket = 0

theorem books_fresh : Books (⟨ServerContext.fresh config, ∅⟩ : Sys config) where
  distinct := List.nodup_nil
  exact fd := ⟨fun h => absurd h (Finset.notMem_empty fd), fun h => absurd h List.not_mem_nil⟩
  listening h := nomatch h
  idle _ := Or.inr ⟨rfl, rfl⟩

/-- The books depend on the sockets, the listening socket and the state only. -/
theorem Books.congr {s : Sys config} (h : Books s) {context' : ServerContext config}
    (hsockets : context'.sockets = s.context.sockets)
    (hserver : context'.serverSocket = s.context.serverSocket)
    (hstate : context'.state = s.context.state) : Books ⟨context', s.owned⟩ := by
  have hholdings : holdings context' = holdings s.context := by
    rw [holdings, holdings, hsockets, hserver, hstate]
  exact {
    distinct := by rw [hholdings]; exact h.distinct
    exact := by rw [hholdings]; exact h.exact
    listening := by rw [hstate, hserver]; exact h.listening
    idle := by rw [hstate, hserver]; exact h.idle }

/-- A new descriptor is in no book yet. -/
theorem Books.not_held {s : Sys config} (h : Books s) {fd : Int} (hfd : Granted s.owned fd) :
    fd ∉ holdings s.context := fun hmem => hfd.2 ((h.exact fd).mpr hmem)

/-- A client joins on a new descriptor. -/
theorem Books.joined {s : Sys config} (h : Books s) {context' : ServerContext config}
    {fd : Int} {address : SockaddrIn} {now₁ now₂ : Int64}
    (hjoined : Joined s.context context' fd address now₁ now₂) (hfd : Granted s.owned fd) :
    Books ⟨context', insert fd s.owned⟩ := by
  have hholdings : holdings context' = holdings s.context ++ [fd] := by
    rw [holdings, holdings, hjoined.state, hjoined.serverSocket, hjoined.sockets,
      List.append_assoc]
  exact {
    distinct := by
      rw [hholdings, ← List.concat_eq_append]
      exact h.distinct.concat (h.not_held hfd)
    exact := by
      intro a
      rw [hholdings, Finset.mem_insert, h.exact a, List.mem_append, List.mem_singleton]
      exact or_comm
    listening := by rw [hjoined.state, hjoined.serverSocket]; exact h.listening
    idle := by rw [hjoined.state, hjoined.serverSocket]; exact h.idle }

/-- The last client with an id of its own is the one that `disconnect_client` finds, and
    its descriptor is the one that is closed. -/
theorem own_of_last {context context' : ServerContext config} {j i : Nat} {fd : Int}
    (hb : context.Bounded) (hleft : Left context context' j i fd)
    (hlast : j + 1 = context.clientCount) (hid : OwnId context j) :
    i = j ∧ ∃ c, context.connected[j]? = some c ∧ c.socket = fd := by
  have hlen := length_connected hb
  constructor
  · by_contra hne
    have hle := hleft.le
    obtain ⟨other, hother⟩ : ∃ c, context.connected[i]? = some c :=
      ⟨_, List.getElem?_eq_getElem (by omega)⟩
    obtain ⟨target, htarget⟩ : ∃ c, context.connected[j]? = some c :=
      ⟨_, List.getElem?_eq_getElem (by omega)⟩
    have hsame := hleft.sameId
    rw [hother, htarget] at hsame
    exact hid i other target (by omega) hother htarget (Option.some.inj hsame)
  · have hclosed := hleft.closed_eq (by omega)
    rw [if_neg (by omega)] at hclosed
    exact hclosed

/-- The last client leaves. -/
theorem Books.left {s : Sys config} (h : Books s) {context' : ServerContext config}
    {j : Nat} {fd : Int} {c : ClientConnection} (hleft : Left s.context context' j j fd)
    (hc : s.context.connected[j]? = some c) (hfd : c.socket = fd) :
    fd ∈ s.owned ∧ Books ⟨context', s.owned.erase fd⟩ := by
  have hsocket : s.context.sockets[j]? = some fd := by
    rw [ServerContext.sockets, List.getElem?_map, hc, Option.map_some, hfd]
  obtain ⟨hlt, hval⟩ := List.getElem?_eq_some_iff.mp hsocket
  have hheld : fd ∈ holdings s.context :=
    List.mem_append_right _ (List.mem_of_getElem? hsocket)
  have hclients : s.context.sockets.Nodup := h.distinct.of_append_right
  have hsockets : context'.sockets = s.context.sockets.erase fd := by
    rw [hleft.sockets, ← hval, hclients.erase_getElem]
  have hserver : fd ∉ (if s.context.state = .running then [s.context.serverSocket] else []) :=
    fun hmem => List.disjoint_of_nodup_append h.distinct hmem (List.mem_of_getElem? hsocket)
  have hholdings : holdings context' = (holdings s.context).erase fd := by
    rw [holdings, holdings, hleft.state, hleft.serverSocket, hsockets,
      List.erase_append_right _ hserver]
  refine ⟨(h.exact fd).mpr hheld, ?_⟩
  exact {
    distinct := by
      rw [hholdings]
      exact h.distinct.erase fd
    exact := by
      intro a
      rw [hholdings, Finset.mem_erase, h.distinct.mem_erase_iff, h.exact a]
    listening := by rw [hleft.state, hleft.serverSocket]; exact h.listening
    idle := by rw [hleft.state, hleft.serverSocket]; exact h.idle }

theorem ledger_closes (l : List Int) : ledger (l.map .closed) = l.map .release := by
  induction l with
  | nil => rfl
  | cons fd rest ih =>
      show Entry.release fd :: ledger (rest.map .closed) = _
      rw [ih, List.map_cons]

/-- After a first start, `stop_server` closes the descriptors in the books. -/
theorem stop_calls {s : Sys config} (h : Books s) (hstarted : Started s.context) :
    (if 0 ≤ s.context.serverSocket then [Syscall.closed s.context.serverSocket] else [])
      ++ s.context.sockets.map .closed = (holdings s.context).map .closed := by
  rw [holdings, List.map_append]
  congr 1
  by_cases hrunning : s.context.state = .running
  · rw [if_pos (h.listening hrunning), if_pos hrunning]
    rfl
  · have hnegative : s.context.serverSocket < 0 := by
      rcases h.idle hrunning with hneg | ⟨hinit, hzero⟩
      · exact hneg
      · rcases hstarted with hstate | hneg
        · exact absurd hinit hstate
        · exact hneg
    rw [if_neg (by omega), if_neg hrunning]
    rfl

/-- Closing everything in the books is disciplined, and leaves nothing open. -/
theorem Books.release {s : Sys config} (h : Books s) (hstarted : Started s.context) :
    ∀ calls, calls = (if 0 ≤ s.context.serverSocket then [Syscall.closed
        s.context.serverSocket] else []) ++ s.context.sockets.map .closed →
      Disciplined s.owned (ledger calls) ∧ settle s.owned (ledger calls) = ∅ := by
  intro calls hcalls
  rw [stop_calls h hstarted] at hcalls
  obtain ⟨hdisciplined, hsettle⟩ :=
    release_all h.distinct s.owned (fun fd hfd => (h.exact fd).mpr hfd)
  rw [hcalls, ledger_closes]
  refine ⟨hdisciplined, ?_⟩
  apply Finset.eq_empty_of_forall_notMem
  intro fd hfd
  obtain ⟨howned, hgone⟩ := (hsettle fd).mp hfd
  exact hgone ((h.exact fd).mp howned)

/-- The server stops. -/
theorem Books.stopped {s : Sys config} {context' : ServerContext config}
    (hstopped : Stopped s.context context') : Books ⟨context', ∅⟩ := by
  have hnotRunning : context'.state ≠ .running := by
    rw [hstopped.state]
    decide
  have hholdings : holdings context' = [] := by
    rw [holdings, if_neg hnotRunning, ServerContext.sockets, ServerContext.connected,
      hstopped.count]
    rfl
  exact {
    distinct := by rw [hholdings]; exact List.nodup_nil
    exact := by
      intro fd
      rw [hholdings]
      exact ⟨fun hfd => absurd hfd (Finset.notMem_empty fd),
        fun hfd => absurd hfd List.not_mem_nil⟩
    listening := fun hrunning => absurd hrunning hnotRunning
    idle := fun _ => Or.inl hstopped.serverSocket }

/-- The set-up ends with a listening socket, or with what it opened closed again. -/
theorem setupSocket_cases (outcome : SetupOutcome) :
    (∃ fd, outcome = .ready fd) ∨
      (setupSocket outcome).1 < 0 ∧ (ledger (setupSocket outcome).2 = [] ∨
        ∃ fd, descriptor? outcome = some fd ∧
          ledger (setupSocket outcome).2 = [.acquire fd, .release fd]) := by
  cases outcome with
  | noSocket => exact Or.inr ⟨ErrorCode.code_neg (e := .socketCreate) (by decide), Or.inl rfl⟩
  | ready fd => exact Or.inl ⟨fd, rfl⟩
  | optionFailed fd =>
      exact Or.inr ⟨ErrorCode.code_neg (e := .socketCreate) (by decide), Or.inr ⟨fd, rfl, rfl⟩⟩
  | bindFailed fd =>
      exact Or.inr ⟨ErrorCode.code_neg (e := .socketBind) (by decide), Or.inr ⟨fd, rfl, rfl⟩⟩
  | listenFailed fd =>
      exact Or.inr ⟨ErrorCode.code_neg (e := .socketListen) (by decide), Or.inr ⟨fd, rfl, rfl⟩⟩

/-- While the server is not running, the books hold the clients alone. -/
theorem holdings_idle {context : ServerContext config} (h : context.state ≠ .running) :
    holdings context = context.sockets := by
  rw [holdings, if_neg h, List.nil_append]

/-- The listening socket is a new entry in the books. -/
theorem Books.opened {s : Sys config} (h : Books s) {fd : Int}
    (hidle : s.context.state ≠ .running) (hfd : Granted s.owned fd) :
    Books ⟨(startListening s.context (.ready fd)).2.1, insert fd s.owned⟩ := by
  have hstart : startListening s.context (.ready fd) =
      (ErrorCode.success.code, { s.context with serverSocket := fd, state := .running },
        [.opened fd]) := by
    have hneg : ¬ fd < 0 := not_lt.mpr hfd.1
    rw [startListening]
    exact if_neg hneg
  have hheld := holdings_idle hidle
  rw [hstart]
  exact {
    distinct := by
      show (fd :: s.context.sockets).Nodup
      rw [← hheld]
      exact List.nodup_cons.mpr ⟨h.not_held hfd, h.distinct⟩
    exact := by
      intro a
      show a ∈ insert fd s.owned ↔ a ∈ fd :: s.context.sockets
      rw [Finset.mem_insert, List.mem_cons, h.exact a, hheld]
    listening := fun _ => hfd.1
    idle := fun hne => absurd rfl hne }

/-- A failed set-up leaves the books as they were. -/
theorem Books.setupFailed {s : Sys config} (h : Books s) {outcome : SetupOutcome}
    (hidle : s.context.state ≠ .running) (hfailed : (setupSocket outcome).1 < 0) :
    Books ⟨(startListening s.context outcome).2.1, s.owned⟩ := by
  have hstart : (startListening s.context outcome).2.1 =
      { s.context with serverSocket := (setupSocket outcome).1 } := by
    simp only [startListening]
    rw [if_pos hfailed]
  have hholdings : holdings { s.context with serverSocket := (setupSocket outcome).1 } =
      holdings s.context := by
    have hsame : ({ s.context with serverSocket := (setupSocket outcome).1 } :
        ServerContext config).state ≠ .running := hidle
    rw [holdings_idle hsame, holdings_idle hidle]
    rfl
  rw [hstart]
  exact {
    distinct := by rw [hholdings]; exact h.distinct
    exact := by rw [hholdings]; exact h.exact
    listening := fun hrunning => absurd hrunning hidle
    idle := fun _ => Or.inl hfailed }

/-- The server starts while it is not running. -/
theorem Books.started {s : Sys config} (h : Books s) {outcome : SetupOutcome}
    (hidle : s.context.state ≠ .running)
    (hkernel : ∀ fd, descriptor? outcome = some fd → Granted s.owned fd) :
    Disciplined s.owned (ledger (setupSocket outcome).2) ∧
      Books ⟨(startListening s.context outcome).2.1,
        settle s.owned (ledger (setupSocket outcome).2)⟩ := by
  rcases setupSocket_cases outcome with ⟨fd, rfl⟩ | ⟨hfailed, hnone | ⟨fd, hfd, hboth⟩⟩
  · exact ⟨trivial, h.opened hidle (hkernel fd rfl)⟩
  · rw [hnone]
    exact ⟨trivial, h.setupFailed hidle hfailed⟩
  · rw [hboth, settle_acquire_release (hkernel fd hfd).2]
    exact ⟨disciplined_acquire_release s.owned fd, h.setupFailed hidle hfailed⟩

-- ── Steps and runs ───────────────────────────────────────────────────────────

/-- One orderly operation closes only what is owned, and keeps the books. -/
theorem Books.step {s : Sys config} (h : Books s) (hb : s.context.Bounded) {op : Op}
    (hop : orderlyRun s op) {context' : ServerContext config} {calls : List Syscall}
    (heffect : Effect s.context op context' calls) :
    Disciplined s.owned (ledger calls) ∧
      Books ⟨context', settle s.owned (ledger calls)⟩ := by
  obtain ⟨hkernel, horderly⟩ := hop
  cases heffect with
  | started outcome => exact h.started horderly hkernel
  | nobody again => exact ⟨trivial, h⟩
  | refused fd address now₁ now₂ =>
      refine ⟨disciplined_acquire_release s.owned fd, ?_⟩
      show Books ⟨s.context, settle s.owned [.acquire fd, .release fd]⟩
      rw [settle_acquire_release hkernel.2]
      exact h
  | joined hjoined => exact ⟨trivial, h.joined hjoined hkernel⟩
  | left hj hleft =>
      obtain ⟨rfl, c, hc, hfd⟩ := own_of_last hb hleft horderly.1 horderly.2
      obtain ⟨howned, hbooks⟩ := h.left hleft hc hfd
      exact ⟨⟨howned, trivial⟩, hbooks⟩
  | named hj hnamed =>
      exact ⟨trivial, h.congr hnamed.sockets hnamed.serverSocket hnamed.state⟩
  | stopped hstopped =>
      obtain ⟨hdisciplined, hsettle⟩ := h.release horderly _ rfl
      rw [hsettle]
      exact ⟨hdisciplined, .stopped hstopped⟩

/-- An orderly run keeps the books. -/
theorem books_of_reachable {s : Sys config} (h : Reachable orderlyRun s) :
    s.context.Bounded ∧ Books s :=
  h.invariant books_fresh (fun _ _ _ _ hI hb hop heffect => (hI.step hb hop heffect).2)

/-- What is asked of an operation: its closes are of descriptors that the server opened
    and has not closed; and a disconnect closes the leaving client's socket, and leaves
    those of the others open. -/
def Conduct (s : Sys config) (op : Op) : Prop :=
  ∃ context' calls, exec s.context op = .ok (context', calls) ∧
    Disciplined s.owned (ledger calls) ∧
    ∀ j, op = .disconnect j → ∃ c, s.context.connected[j]? = some c ∧
      calls = [.closed c.socket] ∧
      ∀ k other, k ≠ j → s.context.connected[k]? = some other →
        other.socket ∈ settle s.owned (ledger calls)

/-- What is asked of `cleanup_server`: the same of its closes, and nothing is left
    open. -/
def CleansUp (s : Sys config) : Prop :=
  ∃ calls, cleanupServer s.context = .ok calls ∧ Disciplined s.owned (ledger calls) ∧
    settle s.owned (ledger calls) = ∅

/-- A disconnect in the books closes the leaving client's socket alone. -/
theorem Books.disconnect {s : Sys config} (h : Books s) (hb : s.context.Bounded) {j : Nat}
    (hlast : j + 1 = s.context.clientCount) (hid : OwnId s.context j)
    {context' : ServerContext config} {i : Nat} {fd : Int}
    (hleft : Left s.context context' j i fd) :
    ∃ c, s.context.connected[j]? = some c ∧ c.socket = fd ∧
      ∀ k other, k ≠ j → s.context.connected[k]? = some other →
        other.socket ∈ s.owned.erase fd := by
  obtain ⟨-, c, hc, hfd⟩ := own_of_last hb hleft hlast hid
  refine ⟨c, hc, hfd, ?_⟩
  intro k other hk hother
  have hclients : s.context.sockets.Nodup := h.distinct.of_append_right
  have hsocket : ∀ {m : Nat} {d : ClientConnection}, s.context.connected[m]? = some d →
      s.context.sockets[m]? = some d.socket := by
    intro m d hd
    rw [ServerContext.sockets, List.getElem?_map, hd, Option.map_some]
  have hown : other.socket ∈ s.owned :=
    (h.exact _).mpr (List.mem_append_right _ (List.mem_of_getElem? (hsocket hother)))
  refine Finset.mem_erase.mpr ⟨?_, hown⟩
  intro heq
  rw [← hfd] at heq
  obtain ⟨hkr, hkv⟩ := List.getElem?_eq_some_iff.mp (hsocket hother)
  obtain ⟨hjr, hjv⟩ := List.getElem?_eq_some_iff.mp (hsocket hc)
  exact hk (hclients.getElem_inj_iff.mp (by rw [hkv, hjv, heq]))

/-- **Ownership in orderly runs.** In every state of an orderly run, every orderly
    operation conducts itself, and after a first start so does the clean-up. -/
theorem orderly_owned {s : Sys config} (h : Reachable orderlyRun s) :
    (∀ op, op.Connected s.context → op.Kernel s.owned → Orderly s.context op →
      Conduct s op) ∧
    (Started s.context → CleansUp s) := by
  obtain ⟨hb, hbooks⟩ := books_of_reachable h
  constructor
  · intro op hop hkernel horderly
    obtain ⟨context', calls, hexec, heffect⟩ := exec_effect hb hop
    refine ⟨context', calls, hexec, (hbooks.step hb ⟨hkernel, horderly⟩ heffect).1, ?_⟩
    intro j hj
    subst hj
    cases heffect with
    | left hj hleft =>
        obtain ⟨c, hc, hfd, hothers⟩ := hbooks.disconnect hb horderly.1 horderly.2 hleft
        exact ⟨c, hc, by rw [hfd], hothers⟩
  · intro hstarted
    obtain ⟨context', hstop, -⟩ := stopServer_eq hb
    refine ⟨_, ?_, hbooks.release hstarted _ rfl⟩
    rw [cleanupServer, hstop]
    rfl

-- ── A server with two clients ────────────────────────────────────────────────

/-- The id of one letter. -/
def letter (b : UInt8) : Block UInt8 maxClientIdLength := ⟨b :: List.replicate 31 0, rfl⟩

/-- A running server that listens on descriptor 3. -/
def serving (c₀ c₁ : ClientConnection) (count : Nat) (owned : Finset Int) : Sys twoSlots where
  context :=
    { serverSocket := 3, state := .running, sequenceNum := 1, clients := ⟨[c₀, c₁], rfl⟩,
      clientCount := count }
  owned := owned

/-- The client on descriptor `fd` under an id of one letter. -/
def client (fd : Int) (b : UInt8) : ClientConnection :=
  { ClientConnection.empty.connect fd (peer 40001) 0 0 with id := letter b }

/-- Clients `a` and `b` on descriptors 5 and 6. -/
def named : Sys twoSlots :=
  serving (client 5 97) (client 6 98) 2 (insert 6 (insert 5 (insert 3 ∅)))

theorem reachable_named : Reachable orderlyRun named := by
  have hstart : Reachable orderlyRun
      (serving .empty .empty 0 (insert 3 ∅)) :=
    (reachable_fresh _).step (.exec (.start (.ready 3)) [.opened 3] trivial
      ⟨fun fd hfd => by cases hfd; exact ⟨by decide, by decide⟩, fun h => nomatch h⟩ rfl rfl)
  have hjoin₁ : Reachable orderlyRun
      (serving (.connect .empty 5 (peer 40001) 0 0) .empty 1 (insert 5 (insert 3 ∅))) :=
    hstart.step (.exec (.accept (.accepted 5 (peer 40001) 0 0)) [.opened 5] trivial
      ⟨⟨by decide, by decide⟩, trivial⟩ rfl rfl)
  have hname₁ : Reachable orderlyRun
      (serving (client 5 97) .empty 1 (insert 5 (insert 3 ∅))) :=
    hjoin₁.step (.exec (.assignId 0 (letter 97)) [] Nat.zero_lt_one ⟨trivial, trivial⟩ rfl rfl)
  have hjoin₂ : Reachable orderlyRun
      (serving (client 5 97) (.connect .empty 6 (peer 40001) 0 0) 2
        (insert 6 (insert 5 (insert 3 ∅)))) :=
    hname₁.step (.exec (.accept (.accepted 6 (peer 40001) 0 0)) [.opened 6] trivial
      ⟨⟨by decide, by decide⟩, trivial⟩ rfl rfl)
  exact hjoin₂.step (.exec (.assignId 1 (letter 98)) [] Nat.one_lt_two ⟨trivial, trivial⟩ rfl rfl)

theorem orderly_owned_named :
    (∀ op, op.Connected named.context → op.Kernel named.owned → Orderly named.context op →
      Conduct named op) ∧
    (Started named.context → CleansUp named) :=
  orderly_owned reachable_named

/-- The first of two clients with different ids leaves, and the socket of the second is
    closed. -/
theorem disconnect_closes_other :
    ¬ ∀ (config : ServerConfig) (s : Sys config),
        Reachable (fun s op => op.Kernel s.owned) s →
        (s.context.connected.map ClientConnection.idString).Nodup →
        (∀ op, op.Connected s.context → op.Kernel s.owned → Conduct s op) ∧ CleansUp s := by
  intro hall
  have hreach : Reachable (fun s op => op.Kernel s.owned) named :=
    reachable_named.mono (fun _ _ hop => hop.1)
  have hids : (named.context.connected.map ClientConnection.idString).Nodup := by
    decide +kernel
  obtain ⟨context', calls, hexec, -, hown⟩ :=
    (hall twoSlots named hreach hids).1 (.disconnect 0) Nat.zero_lt_two trivial
  have hresult : exec named.context (.disconnect 0) =
      .ok ((serving (client 6 98) (client 6 98) 1 ∅).context, [.closed 6]) := rfl
  rw [hresult] at hexec
  cases hexec
  obtain ⟨c, hc, hcalls, -⟩ := hown 0 rfl
  cases hc
  exact absurd hcalls (by decide)

/-- A clean-up before any start closes descriptor 0, which the server never opened. -/
theorem cleanup_closes_standard_input :
    cleanupServer (ServerContext.fresh twoSlots) = .ok [.closed 0] := rfl

end TradeOwnership
