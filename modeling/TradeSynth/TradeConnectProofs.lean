import Mathlib.Data.Finset.Insert
import Mathlib.Order.Interval.Set.Infinite
import TradeSynth.TradeClientProofs
import TradeSynth.TradeRunProofs
import TradeSynth.TransitionProofs

/-!
# Concurrent connects — a state that is checked in one section and set in another

Any number of threads call `connect_to_server` on one context. A step is one of the
two sections under the mutex or one system call; the descriptor and the handle of the
receiver live in the context, so that a call may go on with the descriptor of another.

* `good_of_clear` — while a call passes the check only when no other is on its way to
  the second section, at most one call succeeds, and it owns the one socket and the one
  receiver.
* `one_session_unless_raced` — when two calls are on their way together, there is a way
  for them to finish that breaks this.
-/

namespace TradeConnect

open TradeTypes TradeRun TradeClient Transition

-- ── The calls ────────────────────────────────────────────────────────────────

/-- Where a call stands. -/
inductive Pc where
  | idle
  /-- it has found the client not connected -/
  | checked
  /-- it has stored the result of `socket` -/
  | opened
  /-- `connect` has succeeded or is in progress -/
  | connected
  /-- `connect` has failed -/
  | closing
  /-- it has set the state -/
  | marked
  /-- `pthread_create` has failed -/
  | reaping
  | returned (code : Int)
deriving DecidableEq

/-- The shared context, the sockets that are open, the receiver threads, and where each
    call stands. -/
structure Calls where
  client  : ClientContext
  sockets : Finset Int
  threads : Finset UInt64
  pc      : Nat → Pc

namespace Calls

def move (s : Calls) (t : Nat) (pc : Pc) : Calls := { s with pc := Function.update s.pc t pc }

/-- The result of `socket` is stored, and is a new descriptor. -/
def store (s : Calls) (fd : Int) : Calls :=
  { s with
    client := { s.client with socket := fd }
    sockets := insert fd s.sockets }

/-- The descriptor that the context names is closed. -/
def drop (s : Calls) : Calls := { s with sockets := s.sockets.erase s.client.socket }

/-- The section that sets the state. -/
def mark (s : Calls) (now : Int64) : Calls :=
  { s with client := { s.client with state := .connected, connectTime := now } }

/-- The handle of a new receiver is stored. -/
def spawn (s : Calls) (thread : UInt64) : Calls :=
  { s with
    client := { s.client with receiverThread := thread }
    threads := insert thread s.threads }

theorem store_sockets {s : Calls} (h : s.sockets = ∅) (fd : Int) :
    (s.store fd).sockets = {fd} := by
  rw [store, h]
  rfl

theorem drop_sockets {s : Calls} (h : s.sockets = {s.client.socket}) : s.drop.sockets = ∅ := by
  rw [drop, h, Finset.erase_singleton]

theorem spawn_threads {s : Calls} (h : s.threads = ∅) (thread : UInt64) :
    (s.spawn thread).threads = {thread} := by
  rw [spawn, h]
  rfl

end Calls

/-- A step of call `t`, with what the system answers. -/
inductive Event where
  | check (t : Nat)
  /-- `inet_pton` fails -/
  | address (t : Nat)
  | socket (t : Nat) (fd : Int)
  | connect (t : Nat) (result : ConnectResult)
  | close (t : Nat)
  | mark (t : Nat) (now : Int64)
  | create (t : Nat) (thread : UInt64) (created : Bool)

inductive Step (s : Calls) : Event → Calls → Prop where
  | busy {t : Nat} (hpc : s.pc t = .idle) (hstate : s.client.state = .connected) :
      Step s (.check t) (s.move t (.returned ErrorCode.invalidState.code))
  | pass {t : Nat} (hpc : s.pc t = .idle) (hstate : s.client.state ≠ .connected) :
      Step s (.check t) (s.move t .checked)
  | address {t : Nat} (hpc : s.pc t = .checked) :
      Step s (.address t) (s.move t (.returned ErrorCode.socketConnect.code))
  | socket {t : Nat} {fd : Int} (hpc : s.pc t = .checked) (hfd : Granted s.sockets fd) :
      Step s (.socket t fd) ((s.store fd).move t .opened)
  | noSocket {t : Nat} {fd : Int} (hpc : s.pc t = .checked) (hfd : fd < 0) :
      Step s (.socket t fd)
        ({ s with client := { s.client with socket := fd } }.move t
          (.returned ErrorCode.socketCreate.code))
  /-- on a closed descriptor `connect` cannot succeed -/
  | connect {t : Nat} {result : ConnectResult} (hpc : s.pc t = .opened)
      (hopen : s.client.socket ∈ s.sockets) (hresult : result ≠ .refused) :
      Step s (.connect t result) (s.move t .connected)
  | refused {t : Nat} (hpc : s.pc t = .opened) :
      Step s (.connect t .refused) (s.move t .closing)
  | close {t : Nat} (hpc : s.pc t = .closing) :
      Step s (.close t) (s.drop.move t (.returned ErrorCode.socketConnect.code))
  | mark {t : Nat} {now : Int64} (hpc : s.pc t = .connected) :
      Step s (.mark t now) ((s.mark now).move t .marked)
  | create {t : Nat} {thread : UInt64} (hpc : s.pc t = .marked) (hthread : thread ∉ s.threads) :
      Step s (.create t thread true)
        ((s.spawn thread).move t (.returned ErrorCode.success.code))
  | noThread {t : Nat} {thread : UInt64} (hpc : s.pc t = .marked) :
      Step s (.create t thread false)
        ({ s with client := { s.client with receiverThread := thread } }.move t .reaping)
  | reap {t : Nat} (hpc : s.pc t = .reaping) :
      Step s (.close t) (s.drop.move t (.returned ErrorCode.threadCreate.code))

/-- Nobody has called yet, and there is no session. -/
structure Disconnected (s : Calls) : Prop where
  state   : s.client.state ≠ .connected
  sockets : s.sockets = ∅
  threads : s.threads = ∅
  pc      : ∀ t, s.pc t = .idle

/-- The call has returned `SUCCESS`. -/
def Succeeded (s : Calls) (t : Nat) : Prop := s.pc t = .returned ErrorCode.success.code

/-- No call is under way. -/
def Settled (s : Calls) : Prop := ∀ t, s.pc t = .idle ∨ ∃ code, s.pc t = .returned code

/-- At most one call has succeeded; and once no call is under way, its socket is the only
    one and its receiver the only one, and the context names both. -/
structure Good (s : Calls) : Prop where
  unique  : ∀ t u, Succeeded s t → Succeeded s u → t = u
  session : ∀ t, Succeeded s t → Settled s →
    s.sockets = {s.client.socket} ∧ s.threads = {s.client.receiverThread}

/-- The call is on its way from the check to the section that sets the state. -/
def OnItsWay : Pc → Prop
  | .checked => True
  | .opened => True
  | .connected => True
  | .closing => True
  | _ => False

/-- A call that passes the check is alone on its way. -/
def Clear (s : Calls) : Event → Prop
  | .check t => s.client.state ≠ .connected → ∀ u, u ≠ t → ¬ OnItsWay (s.pc u)
  | _ => True

-- ── One call at a time ───────────────────────────────────────────────────────

/-- The call has not begun, or has failed. -/
def Quiet (pc : Pc) : Prop :=
  pc = .idle ∨ ∃ code, code ≠ ErrorCode.success.code ∧ pc = .returned code

/-- What the one call that is not quiet finds. -/
def Holds (s : Calls) : Pc → Prop
  | .idle => False
  | .checked => s.client.state ≠ .connected ∧ s.sockets = ∅ ∧ s.threads = ∅
  | .opened => s.client.state ≠ .connected ∧ s.sockets = {s.client.socket} ∧ s.threads = ∅
  | .connected => s.client.state ≠ .connected ∧ s.sockets = {s.client.socket} ∧ s.threads = ∅
  | .closing => s.client.state ≠ .connected ∧ s.sockets = {s.client.socket} ∧ s.threads = ∅
  | .marked => s.client.state = .connected ∧ s.sockets = {s.client.socket} ∧ s.threads = ∅
  | .reaping => s.client.state = .connected ∧ s.sockets = {s.client.socket} ∧ s.threads = ∅
  | .returned code => code = ErrorCode.success.code ∧ s.client.state = .connected ∧
      s.sockets = {s.client.socket} ∧ s.threads = {s.client.receiverThread}

/-- All calls are quiet and nothing is open, or one is not quiet and holds the session. -/
def Single (s : Calls) : Prop :=
  (s.sockets = ∅ ∧ s.threads = ∅ ∧ ∀ t, Quiet (s.pc t)) ∨
    ∃ u, (∀ t, t ≠ u → Quiet (s.pc t)) ∧ Holds s (s.pc u)

theorem not_quiet_of_holds {s : Calls} {pc : Pc} (h : Holds s pc) : ¬ Quiet pc := by
  rintro (rfl | ⟨code, hcode, rfl⟩)
  · exact h
  · exact hcode h.1

/-- A call that is not quiet is the one that holds the session. -/
theorem Single.holder {s : Calls} (h : Single s) {t : Nat} (ht : ¬ Quiet (s.pc t)) :
    (∀ u, u ≠ t → Quiet (s.pc u)) ∧ Holds s (s.pc t) := by
  rcases h with ⟨-, -, hquiet⟩ | ⟨u, hquiet, hholds⟩
  · exact absurd (hquiet t) ht
  · by_cases htu : t = u
    · rw [htu]
      exact ⟨hquiet, hholds⟩
    · exact absurd (hquiet t htu) ht

theorem Single.good {s : Calls} (h : Single s) : Good s := by
  have hnot : ∀ {t}, Succeeded s t → ¬ Quiet (s.pc t) := by
    rintro t ht (hidle | ⟨code, hcode, hreturned⟩)
    · rw [Succeeded, hidle] at ht
      cases ht
    · rw [Succeeded, hreturned] at ht
      cases ht
      exact hcode rfl
  constructor
  · intro t u ht hu
    by_contra htu
    exact hnot ht ((h.holder (hnot hu)).1 t htu)
  · intro t ht _
    have hholds := (h.holder (hnot ht)).2
    rw [Succeeded] at ht
    rw [ht] at hholds
    exact ⟨hholds.2.2.1, hholds.2.2.2⟩

/-- A step of the holder by which it still holds the session. -/
theorem single_move {s : Calls} {t : Nat} {pc : Pc} (hquiet : ∀ u, u ≠ t → Quiet (s.pc u))
    (h : Holds (s.move t pc) pc) : Single (s.move t pc) := by
  refine Or.inr ⟨t, ?_, ?_⟩
  · intro u hut
    show Quiet (Function.update s.pc t pc u)
    rw [Function.update_of_ne hut]
    exact hquiet u hut
  · show Holds _ (Function.update s.pc t pc t)
    rw [Function.update_self]
    exact h

/-- A step of the holder by which it fails, and leaves nothing open. -/
theorem single_fail {s : Calls} {t : Nat} {code : Int} (hcode : code ≠ ErrorCode.success.code)
    (hquiet : ∀ u, u ≠ t → Quiet (s.pc u)) (hsockets : s.sockets = ∅)
    (hthreads : s.threads = ∅) : Single (s.move t (.returned code)) := by
  refine Or.inl ⟨hsockets, hthreads, fun u => ?_⟩
  show Quiet (Function.update s.pc t _ u)
  by_cases hut : u = t
  · rw [hut, Function.update_self]
    exact Or.inr ⟨code, hcode, rfl⟩
  · rw [Function.update_of_ne hut]
    exact hquiet u hut

/-- A quiet call that stays quiet changes nothing. -/
theorem Single.quiet {s : Calls} (h : Single s) {t : Nat} {pc : Pc} (ht : Quiet (s.pc t))
    (hpc : Quiet pc) : Single (s.move t pc) := by
  have hkeep : ∀ {u}, Quiet (s.pc u) → Quiet ((s.move t pc).pc u) := by
    intro u hu
    show Quiet (Function.update s.pc t pc u)
    by_cases hut : u = t
    · rw [hut, Function.update_self]
      exact hpc
    · rw [Function.update_of_ne hut]
      exact hu
  rcases h with ⟨hsockets, hthreads, hquiet⟩ | ⟨u, hquiet, hholds⟩
  · exact Or.inl ⟨hsockets, hthreads, fun u => hkeep (hquiet u)⟩
  · have hut : u ≠ t := by
      rintro rfl
      exact not_quiet_of_holds hholds ht
    refine Or.inr ⟨u, fun v hv => hkeep (hquiet v hv), ?_⟩
    show Holds _ (Function.update s.pc t pc u)
    rw [Function.update_of_ne hut]
    exact hholds

/-- While the client is not connected, the holder is on its way. -/
theorem onItsWay_of_holds {s : Calls} {pc : Pc} (h : Holds s pc)
    (hstate : s.client.state ≠ .connected) : OnItsWay pc := by
  cases pc with
  | idle => exact h.elim
  | checked => exact trivial
  | opened => exact trivial
  | connected => exact trivial
  | closing => exact trivial
  | marked => exact absurd h.1 hstate
  | reaping => exact absurd h.1 hstate
  | returned code => exact absurd h.2.1 hstate

theorem not_quiet {pc pc' : Pc} (hpc : pc = pc') (hidle : pc' ≠ .idle)
    (hreturned : ∀ code, pc' ≠ .returned code) : ¬ Quiet pc := by
  rintro (h | ⟨code, -, h⟩)
  · exact hidle (hpc ▸ h)
  · exact hreturned code (hpc ▸ h)

/-- A clear step leaves one holder at most. -/
theorem Single.step {s s' : Calls} {e : Event} (h : Single s) (hclear : Clear s e)
    (hstep : Step s e s') : Single s' := by
  have hold : ∀ {t pc}, s.pc t = pc → pc ≠ .idle → (∀ code, pc ≠ .returned code) →
      (∀ u, u ≠ t → Quiet (s.pc u)) ∧ Holds s pc := by
    intro t pc hpc hidle hreturned
    have hholder := h.holder (not_quiet hpc hidle hreturned)
    rw [hpc] at hholder
    exact hholder
  cases hstep with
  | busy hpc hstate => exact h.quiet (Or.inl hpc) (Or.inr ⟨_, by decide, rfl⟩)
  | @pass t hpc hstate =>
      rcases h with ⟨hsockets, hthreads, hquiet⟩ | ⟨u, hquiet, hholds⟩
      · exact single_move (fun v _ => hquiet v) ⟨hstate, hsockets, hthreads⟩
      · have hut : u ≠ t := by
          rintro rfl
          rw [hpc] at hholds
          exact hholds
        exact absurd (onItsWay_of_holds hholds hstate) (hclear hstate u hut)
  | address hpc =>
      obtain ⟨hquiet, -, hsockets, hthreads⟩ := hold hpc nofun nofun
      exact single_fail (by decide) hquiet hsockets hthreads
  | @socket t fd hpc hfd =>
      obtain ⟨hquiet, hstate, hsockets, hthreads⟩ := hold hpc nofun nofun
      exact single_move hquiet ⟨hstate, Calls.store_sockets hsockets fd, hthreads⟩
  | noSocket hpc hfd =>
      obtain ⟨hquiet, -, hsockets, hthreads⟩ := hold hpc nofun nofun
      exact single_fail (by decide) hquiet hsockets hthreads
  | connect hpc hopen hresult =>
      obtain ⟨hquiet, hholds⟩ := hold hpc nofun nofun
      exact single_move hquiet hholds
  | refused hpc =>
      obtain ⟨hquiet, hholds⟩ := hold hpc nofun nofun
      exact single_move hquiet hholds
  | close hpc =>
      obtain ⟨hquiet, -, hsockets, hthreads⟩ := hold hpc nofun nofun
      exact single_fail (by decide) hquiet (Calls.drop_sockets hsockets) hthreads
  | mark hpc =>
      obtain ⟨hquiet, -, hsockets, hthreads⟩ := hold hpc nofun nofun
      exact single_move hquiet ⟨rfl, hsockets, hthreads⟩
  | create hpc hthread =>
      obtain ⟨hquiet, hstate, hsockets, hthreads⟩ := hold hpc nofun nofun
      exact single_move hquiet ⟨rfl, hstate, hsockets, Calls.spawn_threads hthreads _⟩
  | noThread hpc =>
      obtain ⟨hquiet, hholds⟩ := hold hpc nofun nofun
      exact single_move hquiet hholds
  | reap hpc =>
      obtain ⟨hquiet, -, hsockets, hthreads⟩ := hold hpc nofun nofun
      exact single_fail (by decide) hquiet (Calls.drop_sockets hsockets) hthreads

theorem Disconnected.single {s : Calls} (h : Disconnected s) : Single s :=
  Or.inl ⟨h.sockets, h.threads, fun t => Or.inl (h.pc t)⟩

theorem single_of_clear {start s : Calls} (h : Disconnected start)
    (hrun : Runs Step Clear start s) : Single s :=
  hrun.invariant (fun _ _ _ hs hclear hstep => hs.step hclear hstep) h.single

-- ── A call that is left alone ────────────────────────────────────────────────

theorem move_pc (s : Calls) (t : Nat) (pc : Pc) : (s.move t pc).pc t = pc :=
  Function.update_self ..

theorem move_move (s : Calls) (t : Nat) (pc pc' : Pc) :
    (s.move t pc).move t pc' = s.move t pc' := by
  rw [Calls.move, Calls.move, Calls.move, Function.update_idem]

/-- From the end of `connect` to the end. -/
theorem runs_connected {s : Calls} {t : Nat} (hpc : s.pc t = .connected) (now : Int64)
    {thread : UInt64} (hthread : thread ∉ s.threads) :
    Runs Step anyStep s
      (((s.mark now).spawn thread).move t (.returned ErrorCode.success.code)) := by
  have hmark : Step s (.mark t now) ((s.mark now).move t .marked) := .mark hpc
  have hcreate : Step ((s.mark now).move t .marked) (.create t thread true)
      ((((s.mark now).move t .marked).spawn thread).move t
        (.returned ErrorCode.success.code)) := .create (move_pc _ t _) hthread
  have hend : Runs Step anyStep s _ := (Runs.one trivial hmark).tail trivial hcreate
  have hsame : ((s.mark now).move t .marked).spawn thread =
      ((s.mark now).spawn thread).move t .marked := rfl
  rw [hsame, move_move] at hend
  exact hend

/-- From the store of the descriptor to the end. -/
theorem runs_opened {s : Calls} {t : Nat} (hpc : s.pc t = .opened)
    (hopen : s.client.socket ∈ s.sockets) {result : ConnectResult} (hresult : result ≠ .refused)
    (now : Int64) {thread : UInt64} (hthread : thread ∉ s.threads) :
    Runs Step anyStep s
      (((s.mark now).spawn thread).move t (.returned ErrorCode.success.code)) := by
  have hconnect : Step s (.connect t result) (s.move t .connected) := .connect hpc hopen hresult
  have hrest : Runs Step anyStep (s.move t .connected)
      ((((s.move t .connected).mark now).spawn thread).move t
        (.returned ErrorCode.success.code)) := runs_connected (move_pc s t _) now hthread
  have hsame : ((s.move t .connected).mark now).spawn thread =
      ((s.mark now).spawn thread).move t .connected := rfl
  rw [hsame, move_move] at hrest
  exact (Runs.one trivial hconnect).trans hrest

/-- From the check to the end. -/
theorem runs_checked {s : Calls} {t : Nat} (hpc : s.pc t = .checked) {fd : Int}
    (hfd : Granted s.sockets fd) {result : ConnectResult} (hresult : result ≠ .refused)
    (now : Int64) {thread : UInt64} (hthread : thread ∉ s.threads) :
    Runs Step anyStep s
      ((((s.store fd).mark now).spawn thread).move t (.returned ErrorCode.success.code)) := by
  have hsocket : Step s (.socket t fd) ((s.store fd).move t .opened) := .socket hpc hfd
  have hrest : Runs Step anyStep ((s.store fd).move t .opened)
      (((((s.store fd).move t .opened).mark now).spawn thread).move t
        (.returned ErrorCode.success.code)) :=
    runs_opened (move_pc (s.store fd) t _) (Finset.mem_insert_self fd s.sockets) hresult now
      hthread
  have hsame : (((s.store fd).move t .opened).mark now).spawn thread =
      (((s.store fd).mark now).spawn thread).move t .opened := rfl
  rw [hsame, move_move] at hrest
  exact (Runs.one trivial hsocket).trans hrest

-- ── Two calls at a time ──────────────────────────────────────────────────────

theorem exists_granted (owned : Finset Int) : ∃ fd, Granted owned fd := by
  obtain ⟨fd, hnonneg, hfd⟩ := (Set.Ici_infinite (0 : Int)).exists_notMem_finset owned
  exact ⟨fd, hnonneg, hfd⟩

/-- A call that has passed the check succeeds after another one has. -/
theorem second_success {s : Calls} {t u : Nat} (hut : u ≠ t) (ht : s.pc t = .checked)
    (hu : Succeeded s u) {thread : UInt64} (hthread : thread ∉ s.threads) :
    ∃ s', Runs Step anyStep s s' ∧ ¬ Good s' := by
  obtain ⟨fd, hfd⟩ := exists_granted s.sockets
  have hrun := runs_checked ht hfd (show ConnectResult.established ≠ .refused by decide) 0 hthread
  refine ⟨_, hrun, fun hgood => hut (hgood.unique u t ?_ (move_pc _ t _))⟩
  exact (Function.update_of_ne hut _ _).trans hu

theorem onItsWay_iff {pc : Pc} :
    OnItsWay pc ↔ pc = .checked ∨ pc = .opened ∨ pc = .connected ∨ pc = .closing := by
  cases pc <;> simp [OnItsWay]

/-- What a call on its way finds. -/
theorem holds_onItsWay {s : Calls} {pc : Pc} (h : Holds s pc) (hway : OnItsWay pc) :
    s.threads = ∅ ∧ (pc ≠ .checked → s.sockets = {s.client.socket}) := by
  rcases onItsWay_iff.mp hway with rfl | rfl | rfl | rfl
  · exact ⟨h.2.2, fun hne => absurd rfl hne⟩
  · exact ⟨h.2.2, fun _ => h.2.1⟩
  · exact ⟨h.2.2, fun _ => h.2.1⟩
  · exact ⟨h.2.2, fun _ => h.2.1⟩

/-- A call whose `connect` has failed closes the descriptor of one that has succeeded
    meanwhile, and leaves its own. -/
theorem closing_closes_other {s : Calls} {t u : Nat} (hut : u ≠ t) (ht : s.pc t = .checked)
    (hu : s.pc u = .closing) (hothers : ∀ v, v ≠ t → v ≠ u → Quiet (s.pc v))
    (hsockets : s.sockets = {s.client.socket}) {thread : UInt64} (hthread : thread ∉ s.threads) :
    ∃ s', Runs Step anyStep s s' ∧ ¬ Good s' := by
  obtain ⟨fd, hfd⟩ := exists_granted s.sockets
  have hne : fd ≠ s.client.socket := by
    rintro rfl
    rw [hsockets] at hfd
    exact hfd.2 (Finset.mem_singleton_self _)
  let won := (((s.store fd).mark 0).spawn thread).move t (.returned ErrorCode.success.code)
  have hrun : Runs Step anyStep s won :=
    runs_checked ht hfd (show ConnectResult.established ≠ .refused by decide) 0 hthread
  have hclosing : won.pc u = .closing := (Function.update_of_ne hut _ _).trans hu
  have hclose : Step won (.close u) (won.drop.move u (.returned ErrorCode.socketConnect.code)) :=
    .close hclosing
  refine ⟨_, hrun.tail trivial hclose, fun hgood => ?_⟩
  have hsucceeded : Succeeded (won.drop.move u (.returned ErrorCode.socketConnect.code)) t :=
    (Function.update_of_ne (Ne.symm hut) _ _).trans (move_pc _ t _)
  have hsettled : Settled (won.drop.move u (.returned ErrorCode.socketConnect.code)) := by
    intro v
    by_cases hvu : v = u
    · exact Or.inr ⟨_, by rw [hvu]; exact move_pc _ u _⟩
    by_cases hvt : v = t
    · exact Or.inr ⟨_, by rw [hvt]; exact hsucceeded⟩
    have hv : (won.drop.move u (.returned ErrorCode.socketConnect.code)).pc v = s.pc v :=
      (Function.update_of_ne hvu _ _).trans (Function.update_of_ne hvt _ _)
    rw [hv]
    rcases hothers v hvt hvu with hidle | ⟨code, -, hreturned⟩
    · exact Or.inl hidle
    · exact Or.inr ⟨code, hreturned⟩
  have hleft : s.client.socket ∈ (insert fd s.sockets).erase fd := by
    rw [Finset.mem_erase, hsockets]
    exact ⟨Ne.symm hne, Finset.mem_insert_of_mem (Finset.mem_singleton_self _)⟩
  have honly : (insert fd s.sockets).erase fd = {fd} := (hgood.session t hsucceeded hsettled).1
  rw [honly, Finset.mem_singleton] at hleft
  exact hne hleft.symm

/-- When a call has passed the check behind another that is on its way, the two can finish
    so that the outcome is no good. -/
theorem race {s : Calls} (h : Single s) {t u : Nat} (hut : u ≠ t) (hway : OnItsWay (s.pc u)) :
    ∃ s', Runs Step anyStep (s.move t .checked) s' ∧ ¬ Good s' := by
  have hquiet : ¬ Quiet (s.pc u) := by
    rintro (hidle | ⟨code, -, hreturned⟩)
    · rw [hidle] at hway
      exact hway
    · rw [hreturned] at hway
      exact hway
  obtain ⟨hothers, hholds⟩ := h.holder hquiet
  obtain ⟨hthreads, hsockets⟩ := holds_onItsWay hholds hway
  have hu : (s.move t .checked).pc u = s.pc u := Function.update_of_ne hut _ _
  have hresult : ConnectResult.established ≠ .refused := by decide
  have hfirst : 1 ∉ (s.move t .checked).threads := by
    show 1 ∉ s.threads
    rw [hthreads]
    decide
  -- the first one to succeed leaves the second where it is
  have hsecond : ∀ s' : Calls, s'.pc = (s.move t .checked).pc →
      s'.threads = insert 1 s.threads →
      Runs Step anyStep (s.move t .checked) (s'.move u (.returned ErrorCode.success.code)) →
      ∃ s'', Runs Step anyStep (s.move t .checked) s'' ∧ ¬ Good s'' := by
    intro s' hpc hthread hrun
    have ht : (s'.move u (.returned ErrorCode.success.code)).pc t = .checked := by
      show Function.update s'.pc u _ t = _
      rw [Function.update_of_ne (Ne.symm hut), hpc]
      exact move_pc s t _
    have htwo : 2 ∉ (s'.move u (.returned ErrorCode.success.code)).threads := by
      show 2 ∉ s'.threads
      rw [hthread, hthreads]
      decide
    obtain ⟨s'', hrest, hbad⟩ := second_success hut ht (move_pc s' u _) htwo
    exact ⟨s'', hrun.trans hrest, hbad⟩
  rcases onItsWay_iff.mp hway with hpc | hpc | hpc | hpc
  · obtain ⟨fd, hfd⟩ := exists_granted (s.move t .checked).sockets
    exact hsecond ((((s.move t .checked).store fd).mark 0).spawn 1) rfl rfl
      (runs_checked (hu.trans hpc) hfd hresult 0 hfirst)
  · have hopen : s.client.socket ∈ s.sockets := by
      rw [hsockets (by rw [hpc]; decide)]
      exact Finset.mem_singleton_self _
    exact hsecond (((s.move t .checked).mark 0).spawn 1) rfl rfl
      (runs_opened (hu.trans hpc) hopen hresult 0 hfirst)
  · exact hsecond (((s.move t .checked).mark 0).spawn 1) rfl rfl
      (runs_connected (hu.trans hpc) 0 hfirst)
  · refine closing_closes_other hut (move_pc s t _) (hu.trans hpc) ?_
      (hsockets (by rw [hpc]; decide)) hfirst
    intro v hvt hvu
    rw [show (s.move t .checked).pc v = s.pc v from Function.update_of_ne hvt _ _]
    exact hothers v hvu

/-- **At most one session.** However calls on a disconnected context interleave: in a run
    in which each call that passes the check is alone on its way, the outcome is good at
    every moment; and as soon as one passes that is not alone, some way of finishing is
    no good. -/
theorem one_session_unless_raced {start s : Calls} (h : Disconnected start)
    (hrun : Runs Step Clear start s) :
    Good s ∧ ∀ e s', Step s e s' →
      (Clear s e → Good s') ∧
      (¬ Clear s e → ∃ s'', Runs Step anyStep s' s'' ∧ ¬ Good s'') := by
  have hsingle := single_of_clear h hrun
  refine ⟨hsingle.good, fun e s' hstep => ⟨fun hclear => (hsingle.step hclear hstep).good, ?_⟩⟩
  intro hclear
  cases hstep with
  | busy hpc hstate => exact absurd (fun hne => absurd hstate hne) hclear
  | pass hpc hstate =>
      rw [Clear] at hclear
      push Not at hclear
      obtain ⟨-, u, hut, hway⟩ := hclear
      exact race hsingle hut hway
  | _ => exact absurd trivial hclear

/-- Nobody has called `connect_to_server` on the new client yet. -/
def nobody : Calls := ⟨newClient, ∅, ∅, fun _ => .idle⟩

theorem disconnected_nobody : Disconnected nobody := ⟨by decide, rfl, rfl, fun _ => rfl⟩

/-- One call has passed the check. -/
def onePassed : Calls := nobody.move 0 .checked

theorem runs_to_onePassed : Runs Step Clear nobody onePassed := by
  have hclear : Clear nobody (.check 0) := fun _ _ _ hway => hway
  exact Runs.one hclear (.pass rfl (by decide))

/-- It has stored its descriptor, and then it has succeeded. -/
def oneOpened : Calls := (onePassed.store 5).move 0 .opened

def oneSucceeded : Calls :=
  ((((oneOpened.move 0 .connected).mark 0).move 0 .marked).spawn 1).move 0
    (.returned ErrorCode.success.code)

/-- Another call has found the client connected. -/
def oneRefused : Calls := oneSucceeded.move 1 (.returned ErrorCode.invalidState.code)

theorem runs_to_oneRefused : Runs Step Clear onePassed oneRefused := by
  have hsocket : Step onePassed (.socket 0 5) oneOpened :=
    .socket (move_pc nobody 0 _) ⟨by decide, by decide⟩
  have hconnect : Step oneOpened (.connect 0 .established) (oneOpened.move 0 .connected) :=
    .connect (move_pc _ 0 _) (by decide) (by decide)
  have hmark : Step (oneOpened.move 0 .connected) (.mark 0 0)
      (((oneOpened.move 0 .connected).mark 0).move 0 .marked) := .mark (move_pc _ 0 _)
  have hcreate : Step (((oneOpened.move 0 .connected).mark 0).move 0 .marked)
      (.create 0 1 true) oneSucceeded := .create (move_pc _ 0 _) (by decide)
  have hbusy : Step oneSucceeded (.check 1) oneRefused := .busy (by decide) rfl
  have hclear : Clear oneSucceeded (.check 1) := fun hne => absurd rfl hne
  exact ((((Runs.one trivial hsocket).tail trivial hconnect).tail trivial hmark).tail trivial
    hcreate).tail hclear hbusy

/-- While one call is on its way, another must not pass the check; when the first has
    succeeded, the other is refused. -/
theorem one_session_unless_raced_two :
    ¬ Clear onePassed (.check 1) ∧
    (Good onePassed ∧ ∀ e s', Step onePassed e s' →
      (Clear onePassed e → Good s') ∧
      (¬ Clear onePassed e → ∃ s'', Runs Step anyStep s' s'' ∧ ¬ Good s'')) ∧
    Succeeded oneRefused 0 ∧ oneRefused.pc 1 = .returned ErrorCode.invalidState.code ∧
    Good oneRefused ∧ ∀ e s', Step oneRefused e s' →
      (Clear oneRefused e → Good s') ∧
      (¬ Clear oneRefused e → ∃ s'', Runs Step anyStep s' s'' ∧ ¬ Good s'') := by
  have hraced : ¬ Clear onePassed (.check 1) :=
    fun hclear => hclear (by decide) 0 Nat.zero_ne_one trivial
  exact ⟨hraced, one_session_unless_raced disconnected_nobody runs_to_onePassed, rfl, rfl,
    one_session_unless_raced disconnected_nobody
      (runs_to_onePassed.trans runs_to_oneRefused)⟩

/-- Two calls pass the check one after the other, and both succeed. -/
theorem both_succeed :
    ¬ ∀ start s : Calls, Disconnected start → Runs Step anyStep start s → Good s := by
  intro hall
  have hsecond : Step onePassed (.check 1) (onePassed.move 1 .checked) := .pass rfl (by decide)
  have hsingle : Single onePassed := single_of_clear disconnected_nobody runs_to_onePassed
  obtain ⟨s, hrun, hbad⟩ := race hsingle Nat.zero_ne_one trivial
  exact hbad (hall nobody s disconnected_nobody
    (((runs_to_onePassed.mono fun _ _ _ => trivial).tail trivial hsecond).trans hrun))

-- ── The steps make up the function ───────────────────────────────────────────

/-- The steps up to the store of a descriptor. -/
theorem runs_to_opened {s : Calls} {t : Nat} {fd : Int} (hidle : s.pc t = .idle)
    (hstate : s.client.state ≠ .connected) (hfd : Granted s.sockets fd) :
    Runs Step anyStep s (((s.move t .checked).store fd).move t .opened) := by
  have hpass : Runs Step anyStep s (s.move t .checked) := Runs.one trivial (.pass hidle hstate)
  exact hpass.tail trivial (.socket (move_pc s t _) hfd)

/-- The steps up to the section that sets the state. -/
theorem runs_to_marked {s : Calls} {t : Nat} {fd : Int} (hidle : s.pc t = .idle)
    (hstate : s.client.state ≠ .connected) (hfd : Granted s.sockets fd)
    {result : ConnectResult} (hresult : result ≠ .refused) (now : Int64) :
    ∃ s' : Calls, Runs Step anyStep s (s'.move t .marked) ∧ s'.threads = s.threads ∧
      s'.client = { s.client with socket := fd, state := .connected, connectTime := now } := by
  let opened := ((s.move t .checked).store fd).move t .opened
  have hopen : opened.client.socket ∈ opened.sockets := Finset.mem_insert_self fd s.sockets
  have hconnect : Step opened (.connect t result) (opened.move t .connected) :=
    .connect (move_pc _ t _) hopen hresult
  have hmark : Step (opened.move t .connected) (.mark t now)
      (((opened.move t .connected).mark now).move t .marked) := .mark (move_pc _ t _)
  have hrun : Runs Step anyStep s opened := runs_to_opened hidle hstate hfd
  exact ⟨_, (hrun.tail trivial hconnect).tail trivial hmark, rfl, rfl⟩

/-- A call whose steps nobody disturbs does what `connect_to_server` does. -/
theorem runs_connectToServer {s : Calls} {t : Nat} (hidle : s.pc t = .idle)
    (outcome : ConnectOutcome) (hfd : 0 ≤ outcome.socket → outcome.socket ∉ s.sockets)
    (hthread : outcome.threadCreated = true → outcome.thread ∉ s.threads) :
    ∃ s', Runs Step anyStep s s' ∧
      s'.client = (connectToServer s.client outcome).2.1 ∧
      s'.pc t = .returned (connectToServer s.client outcome).1 := by
  have hexit := connectToServer_exit s.client outcome
  generalize connectToServer s.client outcome = result at hexit
  cases hexit with
  | connected hstate => exact ⟨_, Runs.one trivial (.busy hidle hstate), rfl, move_pc s t _⟩
  | address hstate _ =>
      have hpass : Runs Step anyStep s (s.move t .checked) :=
        Runs.one trivial (.pass hidle hstate)
      exact ⟨_, hpass.tail trivial (.address (move_pc s t _)), rfl, move_pc _ t _⟩
  | noSocket hreach hsocket =>
      have hpass : Runs Step anyStep s (s.move t .checked) :=
        Runs.one trivial (.pass hidle hreach.state)
      exact ⟨_, hpass.tail trivial (.noSocket (move_pc s t _) hsocket), rfl, move_pc _ t _⟩
  | refused hreach hsocket hconnect =>
      have hopened := runs_to_opened hidle hreach.state ⟨hsocket, hfd hsocket⟩
      have hrefused := hopened.tail trivial (.refused (move_pc _ t _))
      exact ⟨_, hrefused.tail trivial (.close (move_pc _ t _)), rfl, move_pc _ t _⟩
  | noThread hreach hsocket hconnect hcreated =>
      obtain ⟨s', hmarked, -, hclient⟩ :=
        runs_to_marked hidle hreach.state ⟨hsocket, hfd hsocket⟩ hconnect outcome.now
      have hfailed : Runs Step anyStep s _ :=
        hmarked.tail (a := .create t outcome.thread false) trivial (.noThread (move_pc s' t _))
      refine ⟨_, hfailed.tail trivial (.reap (move_pc _ t _)), ?_, move_pc _ t _⟩
      show ({ s'.client with receiverThread := outcome.thread } : ClientContext) = _
      rw [hclient]
      rfl
  | success hreach hsocket hconnect hcreated =>
      obtain ⟨s', hmarked, hsame, hclient⟩ :=
        runs_to_marked hidle hreach.state ⟨hsocket, hfd hsocket⟩ hconnect outcome.now
      have hfree : outcome.thread ∉ (s'.move t .marked).threads := by
        show outcome.thread ∉ s'.threads
        rw [hsame]
        exact hthread hcreated
      refine ⟨_, hmarked.tail trivial (.create (move_pc s' t _) hfree), ?_, move_pc _ t _⟩
      show ({ s'.client with receiverThread := outcome.thread } : ClientContext) = _
      rw [hclient]
      rfl

end TradeConnect
