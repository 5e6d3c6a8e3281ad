import TradeSynth.TradeOrderingProofs

/-!
# Shutdown — joining under the lock that the joined ones need

`stop_server` takes `clients_mutex`, and joins the threads of active clients while it
holds it. A thread that runs `handle_client` ends with `disconnect_client`, which takes
the same lock. A handler that stands before the lock while `stop_server` holds it and has
yet to join it can never go on, and neither can `stop_server`.

* `shutdown_deadlock_free` — the two never wait for each other when every handler that is
  still to be joined is past the lock before `stop_server` takes it, or does not come to
  it any more; otherwise `stop_server` never returns.
* `runs_stopServer`, `runs_disconnectClient` — undisturbed, the steps make up the whole
  functions.
-/

namespace TradeShutdown

open CheckedMemory FixedCodec TradeTypes TradeRegistry TradeRun TradeBroadcast TradeCapacity
  TradeDispatch TradeRouting TradeBinding Transition

variable {config : ServerConfig}

-- ── The threads and the lock ─────────────────────────────────────────────────

/-- Who holds `clients_mutex`. -/
inductive Owner where
  | stop
  | handler (t : UInt64)
deriving DecidableEq

/-- Where `stop_server` stands. -/
inductive StopPc where
  | idle
  /-- before the lock -/
  | waiting
  /-- in the loop, before slot `i` -/
  | visiting (i : Nat)
  /-- in `pthread_join` of thread `t`, for slot `i` -/
  | joining (i : Nat) (t : UInt64)
  | done
deriving DecidableEq

/-- Where a thread of `handle_client` stands, with the slot that its pointer designates. -/
inductive HandlerPc where
  /-- in the loop, before `recv` -/
  | running (j : Nat)
  /-- in `disconnect_client`, before the lock -/
  | waiting (j : Nat)
  /-- the same, under the lock -/
  | removing (j : Nat)
  /-- the same, behind the lock -/
  | closing (j : Nat)
  | returned
deriving DecidableEq

structure Shutdown (config : ServerConfig) where
  context  : ServerContext config
  owner    : Option Owner
  stop     : StopPc
  handlers : UInt64 → HandlerPc
  calls    : List Syscall

/-- Whose step it is; `leave` is that of a handler whose loop ends. -/
inductive Event where
  | stop
  | leave (t : UInt64)
  | handler (t : UInt64)

inductive Step (s : Shutdown config) : Event → Shutdown config → Prop where
  | begin (hpc : s.stop = .idle) :
      Step s .stop
        { s with
          context := { s.context with
            serverSocket :=
              if 0 ≤ s.context.serverSocket then -1 else s.context.serverSocket
            state := .stopping }
          stop := .waiting
          calls := s.calls ++
            if 0 ≤ s.context.serverSocket then [.closed s.context.serverSocket] else [] }
  | lock (hpc : s.stop = .waiting) (hfree : s.owner = none) :
      Step s .stop { s with owner := some .stop, stop := .visiting 0 }
  | pass {i : Nat} {c : ClientConnection} (hpc : s.stop = .visiting i)
      (hi : i < s.context.clientCount) (hread : s.context.clients.read i = .ok c)
      (hactive : c.active = 0) :
      Step s .stop { s with stop := .visiting (i + 1), calls := s.calls ++ [.closed c.socket] }
  | join {i : Nat} {c : ClientConnection} (hpc : s.stop = .visiting i)
      (hi : i < s.context.clientCount) (hread : s.context.clients.read i = .ok c)
      (hactive : c.active ≠ 0) :
      Step s .stop { s with stop := .joining i c.thread }
  | joined {i : Nat} {t : UInt64} {c : ClientConnection}
      {clients : Block ClientConnection config.maxClients.toNat}
      (hpc : s.stop = .joining i t) (hreturned : s.handlers t = .returned)
      (hread : s.context.clients.read i = .ok c)
      (hwrite : s.context.clients.write i { c with active := 0 } = .ok clients) :
      Step s .stop
        { s with
          context := { s.context with clients := clients }
          stop := .visiting (i + 1)
          calls := s.calls ++ [.closed c.socket] }
  | unlock {i : Nat} (hpc : s.stop = .visiting i) (hi : ¬ i < s.context.clientCount) :
      Step s .stop
        { s with
          context := { s.context with clientCount := 0, state := .stopped }
          owner := none
          stop := .done }
  | receive {t : UInt64} {j : Nat} {msg : Message} {now : Int64} {outside : Outside}
      {context' : ServerContext config} {calls : List Syscall}
      (hpc : s.handlers t = .running j)
      (hexec : handleReceived s.context j msg now outside = .ok (context', calls)) :
      Step s (.handler t) { s with context := context', calls := s.calls ++ calls }
  | leave {t : UInt64} {j : Nat} (hpc : s.handlers t = .running j) :
      Step s (.leave t) { s with handlers := Function.update s.handlers t (.waiting j) }
  | enter {t : UInt64} {j : Nat} (hpc : s.handlers t = .waiting j) (hfree : s.owner = none) :
      Step s (.handler t)
        { s with
          owner := some (.handler t)
          handlers := Function.update s.handlers t (.removing j) }
  | remove {t : UInt64} {j : Nat} {target : ClientConnection}
      {context' : ServerContext config} (hpc : s.handlers t = .removing j)
      (hread : s.context.clients.read j = .ok target)
      (hexec : removeClient s.context target = .ok context') :
      Step s (.handler t)
        { s with
          context := context'
          owner := none
          handlers := Function.update s.handlers t (.closing j) }
  | close {t : UInt64} {j : Nat} {c : ClientConnection} (hpc : s.handlers t = .closing j)
      (hread : s.context.clients.read j = .ok c) :
      Step s (.handler t)
        { s with
          handlers := Function.update s.handlers t .returned
          calls := s.calls ++ [.closed c.socket] }

-- ── stop_server alone ────────────────────────────────────────────────────────

/-- The loop of `stop_server`, when the threads of all active clients have returned. -/
theorem runs_stopClients {P : Shutdown config → Event → Prop} (hP : ∀ s, P s .stop)
    {handlers : UInt64 → HandlerPc} (hreturned : ∀ t, handlers t = .returned) (len : Nat) :
    ∀ (context : ServerContext config) (i : Nat) clients calls calls',
      i + len = context.clientCount →
      stopClients context.clients i len = .ok (clients, calls') →
      Runs Step P ⟨context, some .stop, .visiting i, handlers, calls⟩
        ⟨{ context with clients := clients }, some .stop, .visiting (i + len), handlers,
          calls ++ calls'⟩ := by
  induction len with
  | zero =>
      intro context i clients calls calls' _ h
      cases h
      rw [List.append_nil]
      exact Runs.refl _
  | succ len ih =>
      intro context i clients calls calls' hi h
      rw [stopClients] at h
      obtain ⟨c, hread, h⟩ := bind_eq_ok.mp h
      obtain ⟨joined, hjoin, h⟩ := bind_eq_ok.mp h
      obtain ⟨⟨rest, restCalls⟩, hrest, h⟩ := bind_eq_ok.mp h
      cases h
      have hfirst : Runs Step P ⟨context, some .stop, .visiting i, handlers, calls⟩
          ⟨{ context with clients := joined }, some .stop, .visiting (i + 1), handlers,
            calls ++ [.closed c.socket]⟩ := by
        have hlt : i < context.clientCount := by omega
        rw [joinClient] at hjoin
        by_cases hactive : c.active ≠ 0
        · rw [if_pos hactive] at hjoin
          exact (Runs.one (hP _) (.join rfl hlt hread hactive)).tail (hP _)
            (.joined rfl (hreturned c.thread) hread hjoin)
        · rw [if_neg hactive] at hjoin
          cases hjoin
          exact Runs.one (hP _) (.pass rfl hlt hread (not_not.mp hactive))
      have hlater := ih { context with clients := joined } (i + 1) rest
        (calls ++ [.closed c.socket]) restCalls (by show i + 1 + len = context.clientCount; omega)
        hrest
      rw [show i + 1 + len = i + (len + 1) by omega, List.append_assoc] at hlater
      exact hfirst.trans hlater

/-- With all handlers gone, the steps of `stop_server` make up the whole function. -/
theorem runs_stopServer {P : Shutdown config → Event → Prop} (hP : ∀ s, P s .stop)
    {handlers : UInt64 → HandlerPc} (hreturned : ∀ t, handlers t = .returned)
    {context context' : ServerContext config} {calls : List Syscall}
    (h : stopServer context = .ok (context', calls)) :
    Runs Step P ⟨context, none, .idle, handlers, []⟩
      ⟨context', none, .done, handlers, calls⟩ := by
  rw [stopServer] at h
  obtain ⟨⟨clients, closed⟩, hloop, h⟩ := bind_eq_ok.mp h
  cases h
  have hbegin := (Runs.one (P := P) (hP _)
    (Step.begin (s := ⟨context, none, .idle, handlers, []⟩) rfl)).tail (hP _) (.lock rfl rfl)
  have hvisits := runs_stopClients hP hreturned context.clientCount
    { context with
      serverSocket := if 0 ≤ context.serverSocket then -1 else context.serverSocket
      state := .stopping }
    0 clients ([] ++ if 0 ≤ context.serverSocket then [.closed context.serverSocket] else [])
    closed (Nat.zero_add _) hloop
  exact (hbegin.trans hvisits).tail (hP _)
    (.unlock rfl (by show ¬ 0 + context.clientCount < context.clientCount; omega))

/-- A handler that finds the lock free and is not disturbed goes through the whole of
    `disconnect_client`. -/
theorem runs_disconnectClient {P : Shutdown config → Event → Prop}
    (hP : ∀ s t, P s (.handler t)) {s : Shutdown config} {t : UInt64} {j : Nat}
    (hpc : s.handlers t = .waiting j) (hfree : s.owner = none)
    {context' : ServerContext config} {calls : List Syscall}
    (h : disconnectClient s.context (.slot j) = .ok (context', calls)) :
    Runs Step P s
      { s with
        context := context'
        handlers := Function.update s.handlers t .returned
        calls := s.calls ++ calls } := by
  rw [disconnectClient_eq] at h
  obtain ⟨target, hread, h⟩ := bind_eq_ok.mp h
  obtain ⟨removed, hremove, h⟩ := bind_eq_ok.mp h
  obtain ⟨c, hclose, h⟩ := bind_eq_ok.mp h
  cases h
  have henter := Runs.one (hP s t) (Step.enter hpc hfree)
  have hremoved := henter.tail (hP _ t) (.remove (Function.update_self _ _ _) hread hremove)
  have hclosed := hremoved.tail (hP _ t) (.close (Function.update_self _ _ _) hclose)
  rw [Function.update_idem, Function.update_idem, ← hfree] at hclosed
  exact hclosed

-- ── Who waits for whom ───────────────────────────────────────────────────────

/-- `stop_server` holds the lock and waits for a handler that waits for the lock. -/
def Deadlocked (s : Shutdown config) : Prop :=
  s.owner = some .stop ∧ ∃ i t j, s.stop = .joining i t ∧ s.handlers t = .waiting j

/-- The first slot that `stop_server` is not through with. -/
def cursor (s : Shutdown config) : Nat :=
  match s.stop with
  | .idle => 0
  | .waiting => 0
  | .visiting i => i
  | .joining i _ => i
  | .done => s.context.clientCount

/-- Slot `k` is that of an active client with thread `t`. -/
def ActiveAt (context : ServerContext config) (k : Nat) (t : UInt64) : Prop :=
  ∃ c, context.clients.cells[k]? = some c ∧ c.active ≠ 0 ∧ c.thread = t

/-- The thread belongs to an active client that `stop_server` is not through with. -/
def ToJoin (s : Shutdown config) (t : UInt64) : Prop :=
  ∃ k, cursor s ≤ k ∧ k < s.context.clientCount ∧ ActiveAt s.context k t

/-- `stop_server` does not take the lock while a handler that it has to join stands
    before it, and no handler that it has to join comes to the lock while it has it. -/
def Clear (s : Shutdown config) : Event → Prop
  | .stop => s.stop = .waiting → s.owner = none →
      ∀ t j, s.handlers t = .waiting j → ¬ ToJoin s t
  | .leave t => s.owner = some .stop → ¬ ToJoin s t
  | .handler _ => True

/-- Nobody has begun to stop the server, and every handler is in its loop or gone. -/
structure Serving (s : Shutdown config) : Prop where
  owner    : s.owner = none
  stop     : s.stop = .idle
  handlers : ∀ t, s.handlers t = .returned ∨ ∃ j, s.handlers t = .running j

/-- `stop_server` is in its loop. -/
def StopPc.InLoop : StopPc → Prop
  | visiting _ => True
  | joining _ _ => True
  | _ => False

/-- What every run keeps: who is in a critical section holds the lock, and a thread that
    is joined is that of the slot at the cursor. -/
structure Locked (s : Shutdown config) : Prop where
  looping  : s.owner = some .stop ↔ s.stop.InLoop
  removing : ∀ t j, s.handlers t = .removing j → s.owner = some (.handler t)
  joining  : ∀ i t, s.stop = .joining i t →
    i < s.context.clientCount ∧ ActiveAt s.context i t

theorem Serving.locked {s : Shutdown config} (h : Serving s) : Locked s where
  looping := by
    rw [h.owner, h.stop]
    constructor
    · intro howner
      cases howner
    · exact False.elim
  removing := by
    intro t j ht
    rcases h.handlers t with hgone | ⟨k, hrunning⟩
    · rw [hgone] at ht
      cases ht
    · rw [hrunning] at ht
      cases ht
  joining := by
    intro i t hi
    rw [h.stop] at hi
    cases hi

/-- Whoever else holds the lock, or nobody, keeps `stop_server` out of its loop. -/
theorem Locked.outside {s : Shutdown config} (h : Locked s) {owner : Option Owner}
    (howner : s.owner = owner) (hne : owner ≠ some .stop) : ¬ s.stop.InLoop := by
  intro hloop
  rw [← howner] at hne
  exact hne (h.looping.mpr hloop)

/-- Where `stop_server` is not in its loop, it joins nobody. -/
theorem joining_outside {s : Shutdown config} (h : ¬ s.stop.InLoop) {P : Nat → UInt64 → Prop} :
    ∀ i t, s.stop = .joining i t → P i t := by
  intro i t hi
  rw [hi] at h
  exact absurd trivial h

/-- A handler that moves leaves the others where they are. -/
theorem handlers_update {handlers : UInt64 → HandlerPc} {t u : UInt64} {pc pc' : HandlerPc}
    (h : Function.update handlers t pc u = pc') :
    (u = t ∧ pc = pc') ∨ (u ≠ t ∧ handlers u = pc') := by
  by_cases hut : u = t
  · rw [hut, Function.update_self] at h
    exact Or.inl ⟨hut, h⟩
  · rw [Function.update_of_ne hut] at h
    exact Or.inr ⟨hut, h⟩

/-- When a handler has moved to a place outside the critical section, whoever is in it is
    another one, and holds the lock. -/
theorem removing_update {s : Shutdown config} (h : Locked s) {t : UInt64} {pc : HandlerPc}
    (hpc : ∀ j, pc ≠ .removing j) :
    ∀ u k, Function.update s.handlers t pc u = .removing k →
      u ≠ t ∧ s.owner = some (.handler u) := by
  intro u k hu
  rcases handlers_update hu with ⟨-, heq⟩ | ⟨hne, hold⟩
  · exact absurd heq (hpc k)
  · exact ⟨hne, h.removing u k hold⟩

/-- A message moves nobody's thread. -/
theorem activeAt_receive {context context' : ServerContext config} {j : Nat} {msg : Message}
    {now : Int64} {outside : Outside} {calls : List Syscall}
    (h : handleReceived context j msg now outside = .ok (context', calls)) (k : Nat)
    (t : UInt64) : ActiveAt context' k t ↔ ActiveAt context k t := by
  obtain ⟨c, hc, hcells, -⟩ := handleReceived_slot h
  rw [ActiveAt, ActiveAt, hcells]
  by_cases hkj : j = k
  · subst hkj
    rw [List.getElem?_set_self (List.getElem?_eq_some_iff.mp hc).1, hc]
    constructor
    · rintro ⟨d, hd, hactive, hthread⟩
      cases hd
      exact ⟨c, rfl, hactive, hthread⟩
    · rintro ⟨d, hd, hactive, hthread⟩
      cases hd
      exact ⟨counted c now, rfl, hactive, hthread⟩
  · rw [List.getElem?_set_ne hkj]

theorem clientCount_receive {context context' : ServerContext config} {j : Nat}
    {msg : Message} {now : Int64} {outside : Outside} {calls : List Syscall}
    (h : handleReceived context j msg now outside = .ok (context', calls)) :
    context'.clientCount = context.clientCount := by
  obtain ⟨-, -, -, hcount⟩ := handleReceived_slot h
  exact hcount

theorem Locked.step {s s' : Shutdown config} {e : Event} (h : Locked s)
    (hstep : Step s e s') : Locked s' := by
  cases hstep with
  | begin hpc =>
      refine ⟨?_, h.removing, fun _ _ hi => by cases hi⟩
      show s.owner = some .stop ↔ False
      rw [h.looping, hpc]
      rfl
  | lock hpc hfree =>
      refine ⟨iff_of_true rfl trivial, ?_, fun _ _ hi => by cases hi⟩
      intro t j ht
      have howner := h.removing t j ht
      rw [hfree] at howner
      cases howner
  | pass hpc hi hread hidle =>
      have howner := h.looping.mpr (by rw [hpc]; trivial)
      exact ⟨iff_of_true howner trivial, h.removing, fun _ _ hi => by cases hi⟩
  | @join i c hpc hi hread hactive =>
      have howner := h.looping.mpr (by rw [hpc]; trivial)
      refine ⟨iff_of_true howner trivial, h.removing, ?_⟩
      intro i' t' heq
      cases heq
      exact ⟨hi, c, Block.read_eq_ok.mp hread, hactive, rfl⟩
  | joined hpc hreturned hread hwrite =>
      have howner := h.looping.mpr (by rw [hpc]; trivial)
      exact ⟨iff_of_true howner trivial, h.removing, fun _ _ hi => by cases hi⟩
  | unlock hpc hi =>
      have howner := h.looping.mpr (by rw [hpc]; trivial)
      refine ⟨iff_of_false (fun ho => by cases ho) id, ?_, fun _ _ hi => by cases hi⟩
      intro t j ht
      have hother := h.removing t j ht
      rw [howner] at hother
      cases hother
  | receive hpc hexec =>
      refine ⟨h.looping, h.removing, ?_⟩
      intro i t hi
      obtain ⟨hlt, hactive⟩ := h.joining i t hi
      exact ⟨(clientCount_receive hexec).symm ▸ hlt, (activeAt_receive hexec i t).mpr hactive⟩
  | leave hpc =>
      refine ⟨h.looping, ?_, h.joining⟩
      exact fun u k hu => (removing_update h (fun _ heq => by cases heq) u k hu).2
  | @enter t j hpc hfree =>
      have houtside := h.outside hfree nofun
      refine ⟨iff_of_false (fun ho => by cases ho) houtside, ?_, joining_outside houtside⟩
      intro u k hu
      rcases handlers_update hu with ⟨rfl, -⟩ | ⟨-, hold⟩
      · rfl
      · have howner := h.removing u k hold
        rw [hfree] at howner
        cases howner
  | @remove t j target context' hpc hread hexec =>
      have hmine := h.removing t j hpc
      have houtside := h.outside hmine nofun
      refine ⟨iff_of_false (fun ho => by cases ho) houtside, ?_, joining_outside houtside⟩
      intro u k hu
      -- the lock is that of the thread that has just left the section
      obtain ⟨hne, howner⟩ := removing_update h (fun _ heq => by cases heq) u k hu
      rw [hmine] at howner
      cases howner
      exact absurd rfl hne
  | close hpc hread =>
      refine ⟨h.looping, ?_, h.joining⟩
      exact fun u k hu => (removing_update h (fun _ heq => by cases heq) u k hu).2

-- ── Without a deadlock ───────────────────────────────────────────────────────

/-- While `stop_server` holds the lock, no handler that it has to join waits for it. -/
def Free (s : Shutdown config) : Prop :=
  s.owner = some .stop → ∀ t j, s.handlers t = .waiting j → ¬ ToJoin s t

theorem Free.not_deadlocked {s : Shutdown config} (hl : Locked s) (h : Free s) :
    ¬ Deadlocked s := by
  rintro ⟨howner, i, t, j, hstop, hwaiting⟩
  obtain ⟨hi, hactive⟩ := hl.joining i t hstop
  refine h howner t j hwaiting ⟨i, ?_, hi, hactive⟩
  rw [cursor, hstop]

/-- Before it has begun, `stop_server` does not hold the lock. -/
theorem Locked.not_idle {s : Shutdown config} (h : Locked s) (howner : s.owner = some .stop) :
    s.stop ≠ .idle := by
  intro hpc
  have hloop := h.looping.mp howner
  rw [hpc] at hloop
  cases hloop

/-- A write leaves the other slots as they are. -/
theorem write_other {n : Nat} {b b' : Block ClientConnection n} {i k : Nat}
    {c : ClientConnection} (h : b.write i c = .ok b') (hne : i ≠ k) :
    b'.cells[k]? = b.cells[k]? := by
  rw [Block.write] at h
  split at h
  · cases h
    exact List.getElem?_set_ne hne
  · cases h

/-- The steps of `stop_server` in its loop leave nothing behind the cursor to join. -/
theorem toJoin_of_visit {s s' : Shutdown config} {t : UInt64} (hl : Locked s)
    (hstep : Step s .stop s') (howner : s.owner = some .stop) (h : ToJoin s' t) :
    ToJoin s t := by
  obtain ⟨k, hk, hlt, hactive⟩ := h
  cases hstep with
  | begin hpc => exact absurd hpc (hl.not_idle howner)
  | lock hpc hfree =>
      rw [hfree] at howner
      cases howner
  | @pass i c hpc hi hread hidle =>
      have hk : i + 1 ≤ k := hk
      refine ⟨k, ?_, hlt, hactive⟩
      rw [cursor, hpc]
      exact Nat.le_of_succ_le hk
  | @join i c hpc hi hread hidle =>
      refine ⟨k, ?_, hlt, hactive⟩
      rw [cursor, hpc]
      exact hk
  | @joined i u c clients hpc hreturned hread hwrite =>
      have hk : i + 1 ≤ k := hk
      refine ⟨k, ?_, hlt, ?_⟩
      · rw [cursor, hpc]
        exact Nat.le_of_succ_le hk
      · rw [ActiveAt, ← write_other hwrite (show i ≠ k by omega)]
        exact hactive
  | unlock hpc hi =>
      have hlt : k < 0 := hlt
      omega

theorem toJoin_receive {s : Shutdown config} {context' : ServerContext config} {j : Nat}
    {msg : Message} {now : Int64} {outside : Outside} {calls calls' : List Syscall}
    {t : UInt64} (h : handleReceived s.context j msg now outside = .ok (context', calls)) :
    ToJoin { s with context := context', calls := calls' } t ↔ ToJoin s t := by
  have hcursor : cursor { s with context := context', calls := calls' } = cursor s := by
    rw [cursor, cursor, clientCount_receive h]
  simp only [ToJoin, hcursor, clientCount_receive h, activeAt_receive h]

theorem Free.step {s s' : Shutdown config} {e : Event} (hl : Locked s) (h : Free s)
    (hclear : Clear s e) (hstep : Step s e s') : Free s' := by
  intro howner u k hu hjoin
  cases e with
  | stop =>
      by_cases hmine : s.owner = some .stop
      · have hwaiting : s.handlers u = .waiting k := by
          cases hstep <;> exact hu
        exact h hmine u k hwaiting (toJoin_of_visit hl hstep hmine hjoin)
      · -- the only step that takes the lock
        cases hstep with
        | begin hpc => exact hmine howner
        | lock hpc hfree =>
            obtain ⟨i, hi, hlt, hactive⟩ := hjoin
            exact hclear hpc hfree u k hu ⟨i, by rw [cursor, hpc]; exact hi, hlt, hactive⟩
        | pass hpc => exact hmine (hl.looping.mpr (by rw [hpc]; trivial))
        | join hpc => exact hmine (hl.looping.mpr (by rw [hpc]; trivial))
        | joined hpc => exact hmine (hl.looping.mpr (by rw [hpc]; trivial))
        | unlock hpc => exact hmine (hl.looping.mpr (by rw [hpc]; trivial))
  | leave t =>
      cases hstep with
      | @leave _ j hpc =>
          rcases handlers_update hu with ⟨rfl, -⟩ | ⟨-, hold⟩
          · exact hclear howner hjoin
          · exact h howner u k hold hjoin
  | handler t =>
      cases hstep with
      | receive hpc hexec => exact h howner u k hu ((toJoin_receive hexec).mp hjoin)
      | enter => cases howner
      | remove => cases howner
      | close hpc hread =>
          rcases handlers_update hu with ⟨-, heq⟩ | ⟨-, hold⟩
          · cases heq
          · exact h howner u k hold hjoin

-- ── Forever ──────────────────────────────────────────────────────────────────

/-- `stop_server` holds the lock, and a handler that it has to join waits for it. -/
def Doomed (s : Shutdown config) : Prop :=
  s.owner = some .stop ∧ ∃ t j, s.handlers t = .waiting j ∧ ToJoin s t

theorem doomed_of_unclear {s s' : Shutdown config} {e : Event} (hstep : Step s e s')
    (hclear : ¬ Clear s e) : Doomed s' := by
  cases e with
  | stop =>
      rw [Clear] at hclear
      push Not at hclear
      obtain ⟨hpc, hfree, t, j, hwaiting, i, -, hlt, hactive⟩ := hclear
      cases hstep with
      | lock _ _ => exact ⟨rfl, t, j, hwaiting, i, Nat.zero_le i, hlt, hactive⟩
      | begin hpc' => rw [hpc] at hpc'; cases hpc'
      | pass hpc' => rw [hpc] at hpc'; cases hpc'
      | join hpc' => rw [hpc] at hpc'; cases hpc'
      | joined hpc' => rw [hpc] at hpc'; cases hpc'
      | unlock hpc' => rw [hpc] at hpc'; cases hpc'
  | leave t =>
      rw [Clear] at hclear
      push Not at hclear
      obtain ⟨howner, hjoin⟩ := hclear
      cases hstep with
      | @leave _ j hpc => exact ⟨howner, t, j, Function.update_self _ _ _, hjoin⟩
  | handler t => exact absurd trivial hclear

theorem Doomed.step {s s' : Shutdown config} {e : Event} (hl : Locked s) (h : Doomed s)
    (hstep : Step s e s') : Doomed s' := by
  obtain ⟨howner, t, j, hwaiting, hjoin⟩ := h
  have hother : ∀ {u pc}, s.handlers u ≠ .waiting j →
      Function.update s.handlers u pc t = .waiting j := by
    intro u pc hu
    rw [Function.update_of_ne]
    · exact hwaiting
    · rintro rfl
      exact hu hwaiting
  cases hstep with
  | begin hpc => exact absurd hpc (hl.not_idle howner)
  | lock hpc hfree =>
      rw [hfree] at howner
      cases howner
  | @pass i c hpc hi hread hidle =>
      obtain ⟨k, hk, hlt, d, hd, hactive, hthread⟩ := hjoin
      rw [cursor, hpc] at hk
      have hne : i ≠ k := by
        rintro rfl
        rw [Block.read_eq_ok.mp hread] at hd
        cases hd
        exact hactive hidle
      exact ⟨howner, t, j, hwaiting, k, Nat.lt_of_le_of_ne hk hne, hlt, d, hd, hactive, hthread⟩
  | @join i c hpc hi hread hbusy =>
      obtain ⟨k, hk, hlt, hactive⟩ := hjoin
      rw [cursor, hpc] at hk
      exact ⟨howner, t, j, hwaiting, k, hk, hlt, hactive⟩
  | @joined i u c clients hpc hreturned hread hwrite =>
      obtain ⟨k, hk, hlt, d, hd, hactive, hthread⟩ := hjoin
      rw [cursor, hpc] at hk
      have hne : i ≠ k := by
        rintro rfl
        obtain ⟨-, c', hc', -, hu⟩ := hl.joining i u hpc
        rw [hd] at hc'
        cases hc'
        rw [← hu, hthread, hwaiting] at hreturned
        cases hreturned
      refine ⟨howner, t, j, hwaiting, k, Nat.lt_of_le_of_ne hk hne, hlt, d, ?_, hactive, hthread⟩
      show clients.cells[k]? = some d
      rw [write_other hwrite hne]
      exact hd
  | unlock hpc hi =>
      obtain ⟨k, hk, hlt, -⟩ := hjoin
      rw [cursor, hpc] at hk
      exact absurd (Nat.lt_of_le_of_lt hk hlt) hi
  | receive hpc hexec => exact ⟨howner, t, j, hwaiting, (toJoin_receive hexec).mpr hjoin⟩
  | leave hpc =>
      refine ⟨howner, t, j, hother ?_, hjoin⟩
      rw [hpc]
      exact HandlerPc.noConfusion
  | enter hpc hfree =>
      rw [hfree] at howner
      cases howner
  | remove hpc =>
      rw [hl.removing _ _ hpc] at howner
      cases howner
  | close hpc hread =>
      refine ⟨howner, t, j, hother ?_, hjoin⟩
      rw [hpc]
      exact HandlerPc.noConfusion

theorem Doomed.not_done {s : Shutdown config} (hl : Locked s) (h : Doomed s) :
    s.stop ≠ .done := by
  intro hdone
  have hloop := hl.looping.mp h.1
  rw [hdone] at hloop
  exact hloop

/-- **No deadlock at shutdown.** After a run of clear steps `stop_server` does not wait,
    with the lock, for a handler that waits for the lock; after a step that is not clear
    it never returns. -/
theorem shutdown_deadlock_free {start s : Shutdown config} (hstart : Serving start)
    (hrun : Runs Step Clear start s) :
    ¬ Deadlocked s ∧ ∀ e s', Step s e s' → ¬ Clear s e →
      ∀ s'', Runs Step anyStep s' s'' → s''.stop ≠ .done := by
  have hinv : Locked s ∧ Free s := by
    refine hrun.invariant (I := fun s => Locked s ∧ Free s) ?_ ⟨hstart.locked, ?_⟩
    · rintro s e s' ⟨hl, hfree⟩ hclear hstep
      exact ⟨hl.step hstep, hfree.step hl hclear hstep⟩
    · intro howner
      rw [hstart.owner] at howner
      cases howner
  obtain ⟨hl, hfree⟩ := hinv
  refine ⟨hfree.not_deadlocked hl, ?_⟩
  intro e s' hstep hclear s'' hlater
  have hdoomed : Locked s'' ∧ Doomed s'' := by
    refine hlater.invariant (I := fun s => Locked s ∧ Doomed s) ?_
      ⟨hl.step hstep, doomed_of_unclear hstep hclear⟩
    rintro s e s' ⟨hl, hd⟩ - hstep
    exact ⟨hl.step hstep, hd.step hl hstep⟩
  exact hdoomed.2.not_done hdoomed.1

/-- A client whose slot is marked active, with its thread. -/
def activeA : ClientConnection := { guestA with active := 1, thread := 1 }

/-- The handlers, when one thread serves the first slot. -/
def oneHandler : UInt64 → HandlerPc :=
  Function.update (fun _ => .returned) 1 (.running 0)

def oneServed : Shutdown hundredSlots := ⟨hall [activeA] 1, none, .idle, oneHandler, []⟩

theorem serving_oneServed : Serving oneServed where
  owner := rfl
  stop := rfl
  handlers := by
    intro t
    by_cases ht : t = 1
    · rw [ht]
      exact Or.inr ⟨0, rfl⟩
    · left
      show Function.update (fun _ => HandlerPc.returned) 1 _ t = .returned
      rw [Function.update_of_ne ht]

/-- Two active clients without an id. -/
def twinA : ClientConnection := { guest 5 40001 noId with active := 1, thread := 1 }

def twinB : ClientConnection := { guest 6 40002 noId with active := 1, thread := 2 }

/-- Their handlers; the second is at the given place. -/
def twinHandlers (second : HandlerPc) : UInt64 → HandlerPc :=
  Function.update (Function.update (fun _ => .returned) 1 (.running 1)) 2 second

theorem twinHandlers_update (second pc : HandlerPc) :
    Function.update (twinHandlers second) 2 pc = twinHandlers pc :=
  Function.update_idem _ _ _

/-- A handler at a place that only the second twin's can be at. -/
theorem place_of_twin {second pc : HandlerPc} {t : UInt64} (h : twinHandlers second t = pc)
    (hrunning : pc ≠ .running 1) (hreturned : pc ≠ .returned) : pc = second := by
  rcases handlers_update h with ⟨-, heq⟩ | ⟨-, hold⟩
  · exact heq.symm
  · rcases handlers_update hold with ⟨-, heq⟩ | ⟨-, hgone⟩
    · exact absurd heq.symm hrunning
    · exact absurd hgone.symm hreturned

/-- They are served behind a client that is not active. -/
def twinsServed : Shutdown hundredSlots :=
  ⟨hall [guestC, twinA, twinB] 3, none, .idle, twinHandlers (.running 2), []⟩

theorem serving_twinsServed : Serving twinsServed where
  owner := rfl
  stop := rfl
  handlers := by
    intro t
    by_cases hsecond : t = 2
    · rw [hsecond]
      exact Or.inr ⟨2, rfl⟩
    by_cases hfirst : t = 1
    · rw [hfirst]
      exact Or.inr ⟨1, rfl⟩
    · left
      show Function.update (Function.update (fun _ => HandlerPc.returned) 1 (.running 1)) 2
        (.running 2) t = .returned
      rw [Function.update_of_ne hsecond, Function.update_of_ne hfirst]

/-- A server that is being stopped. -/
def stoppingHall (cells : List ClientConnection) (count : Nat) : ServerContext hundredSlots :=
  { hall cells count with serverSocket := -1, state := .stopping }

/-- `stop_server` and the handler of the second twin stand before the lock. -/
def bothWaiting : Shutdown hundredSlots :=
  ⟨stoppingHall [guestC, twinA, twinB] 3, none, .waiting, twinHandlers (.waiting 2),
    [.closed 0]⟩

theorem runs_to_bothWaiting : Runs Step Clear twinsServed bothWaiting := by
  let begun : Shutdown hundredSlots :=
    ⟨stoppingHall [guestC, twinA, twinB] 3, none, .waiting, twinHandlers (.running 2),
      [.closed 0]⟩
  have hbegin : Step twinsServed .stop begun := .begin rfl
  have hleave : Step begun (.leave 2) bothWaiting := by
    rw [bothWaiting, ← twinHandlers_update (.running 2)]
    exact .leave rfl
  have hclear : Clear twinsServed .stop := fun hpc => by cases hpc
  have hclear' : Clear begun (.leave 2) := fun howner => by cases howner
  exact (Runs.one hclear hbegin).tail hclear' hleave

/-- Its handler has returned, and has taken the other twin out of the array. -/
def twinReturned : Shutdown hundredSlots :=
  ⟨stoppingHall [guestC, twinB, twinB] 2, none, .waiting, twinHandlers .returned,
    [.closed 0, .closed 6]⟩

theorem runs_to_twinReturned : Runs Step Clear bothWaiting twinReturned := by
  have hdisconnect : disconnectClient (stoppingHall [guestC, twinA, twinB] 3) (.slot 2) =
      .ok (stoppingHall [guestC, twinB, twinB] 2, [.closed 6]) := rfl
  rw [twinReturned, ← twinHandlers_update (.waiting 2)]
  exact runs_disconnectClient (fun _ _ => trivial) rfl rfl hdisconnect

/-- `stop_server` in its loop after that. -/
def loopBehind (cells : List ClientConnection) (stop : StopPc) (calls : List Syscall) :
    Shutdown hundredSlots :=
  ⟨stoppingHall cells 2, some .stop, stop, twinHandlers .returned, calls⟩

/-- The record of the second twin once its handler has been joined. -/
def joinedB : ClientConnection := { twinB with active := 0 }

/-- `stop_server` has passed the client that is not active, joined the handler, and
    returned. -/
def twinsStopped : Shutdown hundredSlots :=
  ⟨{ stoppingHall [guestC, joinedB, twinB] 0 with state := .stopped }, none, .done,
    twinHandlers .returned, [.closed 0, .closed 6, .closed 7, .closed 6]⟩

theorem runs_to_twinsStopped : Runs Step Clear twinReturned twinsStopped := by
  have hfree : Clear twinReturned .stop := by
    intro _ _ t j ht
    cases place_of_twin ht nofun nofun
  have hinside : ∀ {s : Shutdown hundredSlots}, s.stop ≠ .waiting → Clear s .stop :=
    fun hne hpc => absurd hpc hne
  let cells := [guestC, twinB, twinB]
  have hlock : Step twinReturned .stop
      (loopBehind cells (.visiting 0) [.closed 0, .closed 6]) := .lock rfl rfl
  have hpass : Step (loopBehind cells (.visiting 0) [.closed 0, .closed 6]) .stop
      (loopBehind cells (.visiting 1) [.closed 0, .closed 6, .closed 7]) :=
    .pass (s := loopBehind cells (.visiting 0) [.closed 0, .closed 6]) (c := guestC) rfl
      Nat.zero_lt_two rfl rfl
  have hjoin : Step (loopBehind cells (.visiting 1) [.closed 0, .closed 6, .closed 7]) .stop
      (loopBehind cells (.joining 1 2) [.closed 0, .closed 6, .closed 7]) :=
    .join (s := loopBehind cells (.visiting 1) [.closed 0, .closed 6, .closed 7]) (c := twinB)
      rfl Nat.one_lt_two rfl (by decide)
  have hjoined : Step (loopBehind cells (.joining 1 2) [.closed 0, .closed 6, .closed 7]) .stop
      (loopBehind [guestC, joinedB, twinB] (.visiting 2)
        [.closed 0, .closed 6, .closed 7, .closed 6]) :=
    .joined (s := loopBehind cells (.joining 1 2) [.closed 0, .closed 6, .closed 7])
      (c := twinB) rfl rfl rfl rfl
  have hunlock : Step (loopBehind [guestC, joinedB, twinB] (.visiting 2)
      [.closed 0, .closed 6, .closed 7, .closed 6]) .stop twinsStopped :=
    .unlock rfl (Nat.lt_irrefl 2)
  exact ((((Runs.one hfree hlock).tail (hinside nofun) hpass).tail (hinside nofun) hjoin).tail
    (hinside nofun) hjoined).tail (hinside nofun) hunlock

/-- While `stop_server` and a handler both stand before the lock, it must not be the one to
    take it; when the handler has gone first, it passes a client, joins the handler, and
    returns. -/
theorem shutdown_deadlock_free_twins :
    ¬ Clear bothWaiting .stop ∧
    (¬ Deadlocked bothWaiting ∧ ∀ e s', Step bothWaiting e s' → ¬ Clear bothWaiting e →
      ∀ s'', Runs Step anyStep s' s'' → s''.stop ≠ .done) ∧
    twinsStopped.stop = .done ∧
    ¬ Deadlocked twinsStopped ∧ ∀ e s', Step twinsStopped e s' → ¬ Clear twinsStopped e →
      ∀ s'', Runs Step anyStep s' s'' → s''.stop ≠ .done := by
  have hactive : ActiveAt bothWaiting.context 2 2 := ⟨twinB, rfl, by decide, rfl⟩
  have hjoin : ToJoin bothWaiting 2 := ⟨2, Nat.zero_le 2, by decide, hactive⟩
  refine ⟨fun hclear => hclear rfl rfl 2 2 rfl hjoin,
    shutdown_deadlock_free serving_twinsServed runs_to_bothWaiting, rfl, ?_⟩
  exact shutdown_deadlock_free serving_twinsServed
    ((runs_to_bothWaiting.trans runs_to_twinReturned).trans runs_to_twinsStopped)

/-- The handler leaves when `stop_server` has begun to wait for it. -/
theorem stop_waits_for_waiting :
    ¬ ∀ (config : ServerConfig) (start s : Shutdown config), Serving start →
        (∀ k c, start.context.connected[k]? = some c →
          c.active ≠ 0 ∧ start.handlers c.thread = .running k) →
        Runs Step anyStep start s → ¬ Deadlocked s := by
  intro hevery
  have hserved : ∀ k c, oneServed.context.connected[k]? = some c →
      c.active ≠ 0 ∧ oneServed.handlers c.thread = .running k := by
    intro k c hc
    cases k with
    | zero =>
        cases hc
        exact ⟨by decide, rfl⟩
    | succ k => cases hc
  let before : ServerContext hundredSlots :=
    { hall [activeA] 1 with serverSocket := -1, state := .stopping }
  have hbegin : Step oneServed .stop ⟨before, none, .waiting, oneHandler, [.closed 0]⟩ :=
    .begin rfl
  have hlock : Step ⟨before, none, .waiting, oneHandler, [.closed 0]⟩ .stop
      ⟨before, some .stop, .visiting 0, oneHandler, [.closed 0]⟩ := .lock rfl rfl
  have hjoin : Step ⟨before, some .stop, .visiting 0, oneHandler, [.closed 0]⟩ .stop
      ⟨before, some .stop, .joining 0 1, oneHandler, [.closed 0]⟩ :=
    .join rfl Nat.zero_lt_one (Block.read_eq_ok.mpr (show _ = some activeA from rfl))
      (by decide)
  have hleave : Step ⟨before, some .stop, .joining 0 1, oneHandler, [.closed 0]⟩ (.leave 1) _ :=
    .leave rfl
  have hrun := (((Runs.one (P := anyStep) trivial hbegin).tail trivial hlock).tail trivial
    hjoin).tail trivial hleave
  exact hevery hundredSlots _ _ serving_oneServed hserved hrun
    ⟨rfl, 0, 1, 0, rfl, rfl⟩

end TradeShutdown
