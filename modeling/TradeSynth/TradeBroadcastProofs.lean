import TradeSynth.TradeHandlersProofs

/-!
# Broadcast and lookup — the whole array against the connected clients

The broadcast and the lookup visit `MAX_CLIENTS` slots and take a positive descriptor
for a connected client. The registry has `config.max_clients` slots, the connected
clients are the first `client_count` of them, and the slots behind keep what a leaving
client left there.

* The traversals stay inside the array exactly under the configuration in which the two
  sizes agree (`lookups_inside_iff`).
* There, a broadcast reaches each connected client once and no other descriptor exactly
  when the slots behind the connected clients are clear, and the connected descriptors
  are open, positive and distinct (`broadcast_exact_iff`).
-/

namespace TradeBroadcast

open CheckedMemory FixedCodec TradeTypes TradeCodec TradeWire DescriptorLedger TradeRegistry
  TradeRun TradeHandlers

variable {config : ServerConfig} {n : Nat}

-- ── The broadcast loop ───────────────────────────────────────────────────────

/-- The descriptors that calls of `send` were made on, in order. -/
def targets (calls : List Syscall) : List Int :=
  calls.filterMap (fun call => match call with
    | .sent fd _ _ => some fd
    | _ => none)

theorem notify_inside (fd : Int) (m : Message) (send : List UInt8 → Int) :
    ∃ calls, notify fd m send = .ok calls := by
  rw [notify]
  by_cases hpos : 0 < fd
  · obtain ⟨result, hresult⟩ := sendResponseMessage_inside fd m send
    exact ⟨result.2, by rw [if_pos hpos, hresult]; rfl⟩
  · exact ⟨[], by rw [if_neg hpos]⟩

/-- A loop that fits sends the frame to the positive descriptors of the slots it
    visits. -/
theorem broadcastLoop_eq {m : Message} {f : Frame} (hm : Carries m f)
    (clients : Block ClientConnection n) (send : Nat → List UInt8 → Int) (len : Nat) :
    ∀ i, i + len ≤ n → ∃ calls, broadcastLoop clients m send i len = .ok calls ∧
      (∀ call ∈ calls, ∃ fd result, call = .sent fd f.bytes result) ∧
      targets calls =
        (((clients.cells.drop i).take len).map ClientConnection.socket).filter (0 < ·) := by
  induction len with
  | zero =>
      intro i _
      exact ⟨[], rfl, fun call hcall => absurd hcall List.not_mem_nil, by
        rw [List.take_zero]
        rfl⟩
  | succ len ih =>
      intro i hi
      obtain ⟨client, hread, -, hdrop⟩ := clients.read_of_lt (i := i) (by omega)
      obtain ⟨rest, hrest, hbytes, htargets⟩ := ih (i + 1) (by omega)
      rw [hdrop, List.take_succ_cons, List.map_cons, List.filter_cons]
      rw [broadcastLoop, hread, ok_bind, notify]
      by_cases hpos : 0 < client.socket
      · refine ⟨.sent client.socket f.bytes (send i f.bytes) :: rest, ?_, ?_, ?_⟩
        · rw [if_pos hpos, sendResponseMessage_frame hm, ok_bind, pure_eq_ok, ok_bind, hrest]
          rfl
        · intro call hcall
          rcases List.mem_cons.mp hcall with rfl | hcall
          · exact ⟨_, _, rfl⟩
          · exact hbytes call hcall
        · rw [if_pos (decide_eq_true hpos), ← htargets]
          rfl
      · refine ⟨rest, ?_, hbytes, ?_⟩
        · rw [if_neg hpos, ok_bind, hrest]
          rfl
        · rw [if_neg (by rw [decide_eq_true_iff]; exact hpos), htargets]

/-- A loop that does not fit leaves the array at its end. -/
theorem broadcastLoop_fault (m : Message) (clients : Block ClientConnection n)
    (send : Nat → List UInt8 → Int) (len : Nat) :
    ∀ i, i ≤ n → n < i + len → broadcastLoop clients m send i len = .error ⟨n⟩ := by
  induction len with
  | zero =>
      intro i hi hlen
      omega
  | succ len ih =>
      intro i hi hlen
      rw [broadcastLoop]
      by_cases hlt : i < n
      · obtain ⟨client, hread, -, -⟩ := clients.read_of_lt hlt
        obtain ⟨calls, hcalls⟩ := notify_inside client.socket m (send i)
        rw [hread, ok_bind, hcalls, ok_bind, ih (i + 1) (by omega) (by omega), error_bind]
      · have hn : i = n := by omega
        rw [hn, clients.read_of_le (Nat.le_refl n), error_bind]

-- ── Staying inside the array ─────────────────────────────────────────────────

/-- In every state that a run reaches, whatever the message and whatever `send`
    returns, the traversals of the array stay inside it. -/
def InBounds (config : ServerConfig) : Prop :=
  ∀ s : Sys config, Reachable (fun s op => op.Kernel s.owned) s →
    (∀ marketData now send, ∃ result,
      broadcastMarketData s.context marketData now send = .ok result) ∧
    (∀ clientId, ∃ fd, findClientSocket s.context clientId = .ok fd) ∧
    (∀ order now₁ now₂ send, ∃ result,
      processOrder s.context order now₁ now₂ send = .ok result) ∧
    (∀ trade now sendBuyer sendSeller, ∃ result,
      processTradeExecution s.context trade now sendBuyer sendSeller = .ok result) ∧
    ∃ result, stopServer s.context = .ok result

theorem findClientSocket_inside (h : maxClients ≤ config.maxClients.toNat)
    (context : ServerContext config) (clientId : List UInt8) :
    ∃ fd, findClientSocket context clientId = .ok fd := by
  have hfit : 0 + maxClients ≤ config.maxClients.toNat := by omega
  obtain ⟨found, hfind, hin⟩ := context.clients.findFrom_inside (answersTo clientId) hfit
  rw [findClientSocket, hfind, ok_bind]
  cases found with
  | none => exact ⟨-1, rfl⟩
  | some i =>
      obtain ⟨client, hread, -, -⟩ := context.clients.read_of_lt (hin i rfl)
      exact ⟨client.socket, by dsimp only; rw [hread]; rfl⟩

/-- The market data message of a broadcast is serializable. -/
theorem exists_quote_frame (context : ServerContext config) (marketData : MarketData)
    (now : Int64) : ∃ f, Carries (marketDataMessage context marketData now) f := by
  obtain ⟨f, hf, -⟩ := exists_carries (m := marketDataMessage context marketData now) rfl
  exact ⟨f, hf⟩

theorem processOrder_inside (h : maxClients ≤ config.maxClients.toNat)
    (context : ServerContext config) (order : Order) (now₁ now₂ : Int64)
    (send : List UInt8 → Int) :
    ∃ result, processOrder context order now₁ now₂ send = .ok result := by
  by_cases hquantity : order.quantity = 0 ∨ positionLimit < order.quantity
  · exact ⟨_, by rw [processOrder, if_pos hquantity]⟩
  by_cases hposition : order.side = .known .buy ∧ positionLimit <
      getClientPosition context (clientIdOf order) (symbolOf order) + order.quantity
  · exact ⟨_, by rw [processOrder, if_neg hquantity, if_pos hposition]⟩
  exact ⟨_, processOrder_admitted hquantity hposition (findClientSocket_inside h _) now₁ now₂
    send⟩

theorem processTradeExecution_inside (h : maxClients ≤ config.maxClients.toNat)
    (context : ServerContext config) (trade : TradeExecution) (now : Int64)
    (sendBuyer sendSeller : List UInt8 → Int) :
    ∃ result, processTradeExecution context trade now sendBuyer sendSeller = .ok result := by
  rw [processTradeExecution]
  generalize Message.mk (.known .tradeExec) context.sequenceNum now _ = msg
  obtain ⟨buyer, hbuyer⟩ := findClientSocket_inside h
    { context with sequenceNum := context.sequenceNum + 1 } (buyerIdOf trade)
  obtain ⟨seller, hseller⟩ := findClientSocket_inside h
    { context with sequenceNum := context.sequenceNum + 1 } (sellerIdOf trade)
  obtain ⟨buyerCalls, hbuyerCalls⟩ := notify_inside buyer msg sendBuyer
  obtain ⟨sellerCalls, hsellerCalls⟩ := notify_inside seller msg sendSeller
  rw [hbuyer, ok_bind, hseller, ok_bind, hbuyerCalls, ok_bind, hsellerCalls, ok_bind]
  exact ⟨_, rfl⟩

theorem validateServerConfig_bounds (h : validateServerConfig config = 1) :
    0 < config.maxClients ∧ config.maxClients ≤ maxClients := by
  rw [validateServerConfig] at h
  split at h
  · exact nomatch h
  split at h
  · exact nomatch h
  omega

/-- **The size of the array.** Under an accepted configuration every traversal stays
    inside the array exactly when `max_clients` is `MAX_CLIENTS`. -/
theorem lookups_inside_iff (h : validateServerConfig config = 1) :
    InBounds config ↔ config.maxClients = maxClients := by
  obtain ⟨hpos, hmax⟩ := validateServerConfig_bounds h
  constructor
  · intro hall
    by_contra hne
    -- the first broadcast of a fresh server runs into the end of the array
    obtain ⟨hbroadcast, -⟩ := hall ⟨ServerContext.fresh config, ∅⟩ (reachable_fresh _)
    obtain ⟨result, hresult⟩ := hbroadcast dummyData 0 (fun _ bytes => bytes.length)
    rw [broadcastMarketData] at hresult
    dsimp only at hresult
    rw [broadcastLoop_fault _ _ _ maxClients 0 (Nat.zero_le _) (by omega), error_bind] at hresult
    exact nomatch hresult
  · intro heq s hs
    have hsize : maxClients ≤ config.maxClients.toNat := by omega
    have hb := hs.bounded
    refine ⟨?_, findClientSocket_inside hsize s.context, processOrder_inside hsize s.context,
      processTradeExecution_inside hsize s.context, ?_⟩
    · intro marketData now send
      obtain ⟨f, hf⟩ := exists_quote_frame s.context marketData now
      obtain ⟨calls, hcalls, -⟩ :=
        broadcastLoop_eq hf s.context.clients send maxClients 0 (by omega)
      exact ⟨_, by rw [broadcastMarketData]; dsimp only; rw [hcalls, ok_bind, pure_eq_ok]⟩
    · obtain ⟨context', hstop, -⟩ := stopServer_eq hb
      exact ⟨_, hstop⟩

theorem lookups_inside_iff_default :
    InBounds ⟨8080, 100, 30⟩ ↔ (ServerConfig.mk 8080 100 30).maxClients = maxClients :=
  lookups_inside_iff (by decide)

/-- The configuration of the integration test: one slot, and a broadcast reads the
    second. -/
theorem broadcast_leaves_one_slot :
    ¬ ∀ config : ServerConfig, validateServerConfig config = 1 → InBounds config := by
  intro hall
  obtain ⟨hbroadcast, -⟩ := hall ⟨8080, 1, 0⟩ (by decide) ⟨ServerContext.fresh _, ∅⟩
    (reachable_fresh _)
  obtain ⟨result, hresult⟩ := hbroadcast dummyData 0 (fun _ bytes => bytes.length)
  rw [broadcastMarketData] at hresult
  dsimp only at hresult
  rw [broadcastLoop_fault _ _ _ maxClients 0 (Nat.zero_le _) (by decide), error_bind] at hresult
  exact nomatch hresult

-- ── Exactly the connected clients ────────────────────────────────────────────

/-- The operations on a registry of whatever listening socket: joins, leaves, names and
    stops. -/
def registryRun (s : Sys config) (op : Op) : Prop :=
  op.Kernel s.owned ∧ ∀ outcome, op ≠ .start outcome

/-- No slot of a reachable registry holds a negative descriptor. -/
theorem sockets_nonneg {s : Sys config} (h : Reachable registryRun s) :
    ∀ c ∈ s.context.clients.cells, 0 ≤ c.socket := by
  refine (h.invariant (I := fun s => ∀ c ∈ s.context.clients.cells, 0 ≤ c.socket) ?_ ?_).2
  · intro c hc
    rw [List.eq_of_mem_replicate hc]
    exact Int.le_refl 0
  · intro s op context' calls hI _ hop heffect
    cases heffect with
    | started outcome => exact absurd rfl (hop.2 outcome)
    | nobody => exact hI
    | refused => exact hI
    | joined hjoined =>
        obtain ⟨old, -, hcells, -⟩ := hjoined.filed
        show ∀ c ∈ context'.clients.cells, _
        rw [hcells]
        exact forall_mem_set hI hop.1.1
    | left _ hleft => exact fun c hc => hI c (hleft.cells_subset c hc)
    | named _ hnamed =>
        obtain ⟨old, hold, hcells⟩ := hnamed.written
        show ∀ c ∈ context'.clients.cells, _
        rw [hcells]
        exact forall_mem_set hI (hI old (List.mem_of_getElem? hold))
    | stopped hstopped =>
        intro c hc
        have htag : (c.socket, c.id) ∈ tags context'.clients :=
          List.mem_map_of_mem (f := fun c => (c.socket, c.id)) hc
        rw [hstopped.kept] at htag
        obtain ⟨d, hd, heq⟩ := List.mem_map.mp htag
        have hsocket : d.socket = c.socket := congrArg Prod.fst heq
        rw [← hsocket]
        exact hI d hd

/-- A broadcast sends the message once to each connected client, and to no other
    descriptor; every descriptor it sends to is open. -/
def BroadcastExact (s : Sys config) : Prop :=
  ∀ marketData now send, ∃ context' calls,
    broadcastMarketData s.context marketData now send =
      .ok (ErrorCode.success.code, context', calls) ∧
    (∀ call ∈ calls, ∃ fd bytes result, call = .sent fd bytes result ∧
      Encodes (marketDataMessage s.context marketData now) bytes) ∧
    ∀ fd, (targets calls).count fd = (if fd ∈ s.context.sockets then 1 else 0) ∧
      (fd ∈ targets calls → fd ∈ s.owned)

/-- The two notions of a connected client coincide: the slots behind the connected
    clients are clear, and the connected descriptors are positive, distinct and open. -/
structure Coincide (s : Sys config) : Prop where
  vacated  : ∀ c ∈ s.context.clients.cells.drop s.context.clientCount, c.socket = 0
  positive : ∀ fd ∈ s.context.sockets, fd ≠ 0
  distinct : s.context.sockets.Nodup
  opened   : ∀ fd ∈ s.context.sockets, fd ∈ s.owned

/-- The descriptors that a slot behind the connected clients still holds. -/
def leftBehind (context : ServerContext config) : List Int :=
  (context.clients.cells.drop context.clientCount).map ClientConnection.socket

/-- A broadcast over an array of `MAX_CLIENTS` slots sends to the positive descriptors
    of the connected clients, and then to those left behind. -/
theorem broadcast_calls (hsize : config.maxClients = maxClients)
    (context : ServerContext config) (marketData : MarketData) (now : Int64)
    (send : Nat → List UInt8 → Int) :
    ∃ context' calls, broadcastMarketData context marketData now send =
        .ok (ErrorCode.success.code, context', calls) ∧
      (∀ call ∈ calls, ∃ fd bytes result, call = .sent fd bytes result ∧
        Encodes (marketDataMessage context marketData now) bytes) ∧
      targets calls = context.sockets.filter (0 < ·) ++ (leftBehind context).filter (0 < ·) := by
  obtain ⟨f, hf⟩ := exists_quote_frame context marketData now
  obtain ⟨calls, hcalls, hbytes, htargets⟩ :=
    broadcastLoop_eq hf context.clients send maxClients 0 (by omega)
  refine ⟨{ context with sequenceNum := context.sequenceNum + 1 }, calls, ?_, ?_, ?_⟩
  · rw [broadcastMarketData]
    dsimp only
    rw [hcalls, ok_bind, pure_eq_ok]
  · intro call hcall
    obtain ⟨fd, result, heq⟩ := hbytes call hcall
    exact ⟨fd, f.bytes, result, heq, (encodes_iff hf f.bytes).mpr rfl⟩
  · have hall : context.clients.cells.take maxClients = context.clients.cells := by
      apply List.take_of_length_le
      rw [context.clients.size]
      omega
    rw [htargets, List.drop_zero, hall, ← List.filter_append, ServerContext.sockets,
      leftBehind, ServerContext.connected, ← List.map_append, List.take_append_drop]

/-- Slots behind the count that are free have no part in a broadcast. -/
theorem leftBehind_silent {context : ServerContext config}
    (h : ∀ c ∈ context.clients.cells.drop context.clientCount, ¬ 0 < c.socket) :
    (leftBehind context).filter (0 < ·) = [] := by
  refine List.filter_eq_nil_iff.mpr (fun fd hfd => ?_)
  obtain ⟨c, hc, rfl⟩ := List.mem_map.mp hfd
  rw [decide_eq_true_iff]
  exact h c hc

/-- Where the two notions coincide, a broadcast is exact. -/
theorem exact_of_coincide (hsize : config.maxClients = maxClients) {s : Sys config}
    (hcells : ∀ c ∈ s.context.clients.cells, 0 ≤ c.socket) (h : Coincide s) :
    BroadcastExact s := by
  intro marketData now send
  obtain ⟨context', calls, hcalls, hbytes, htargets⟩ :=
    broadcast_calls hsize s.context marketData now send
  have hkept : s.context.sockets.filter (0 < ·) = s.context.sockets := by
    refine List.filter_eq_self.mpr (fun fd hfd => decide_eq_true ?_)
    obtain ⟨c, hc, rfl⟩ := List.mem_map.mp hfd
    have hle := hcells c (List.mem_of_mem_take hc)
    have hne := h.positive c.socket hfd
    omega
  have hnone : (leftBehind s.context).filter (0 < ·) = [] := by
    refine leftBehind_silent (fun c hc => ?_)
    rw [h.vacated c hc]
    decide
  rw [hkept, hnone, List.append_nil] at htargets
  refine ⟨context', calls, hcalls, hbytes, ?_⟩
  intro fd
  rw [htargets]
  refine ⟨?_, h.opened fd⟩
  by_cases hmem : fd ∈ s.context.sockets
  · rw [if_pos hmem, List.count_eq_one_of_mem h.distinct hmem]
  · rw [if_neg hmem, List.count_eq_zero_of_not_mem hmem]

/-- An exact broadcast counts each connected descriptor once, and nothing that was left
    behind. -/
theorem counts_of_exact (hsize : config.maxClients = maxClients) {s : Sys config}
    (h : BroadcastExact s) (fd : Int) :
    (s.context.sockets.filter (0 < ·)).count fd +
        ((leftBehind s.context).filter (0 < ·)).count fd =
      (if fd ∈ s.context.sockets then 1 else 0) ∧
    (fd ∈ s.context.sockets → fd ∈ s.owned) := by
  obtain ⟨context', calls, hcalls, -, hcount⟩ := h dummyData 0 (fun _ bytes => bytes.length)
  obtain ⟨context₁, calls₁, hcalls₁, -, htargets⟩ :=
    broadcast_calls hsize s.context dummyData 0 (fun _ bytes => bytes.length)
  rw [hcalls₁] at hcalls
  cases hcalls
  obtain ⟨hfd, howned⟩ := hcount fd
  constructor
  · rw [← hfd, htargets, List.count_append]
  · intro hmem
    rw [if_pos hmem] at hfd
    exact howned (List.count_pos_iff.mp (by omega))

/-- Where a broadcast is exact, the two notions coincide. -/
theorem coincide_of_exact (hsize : config.maxClients = maxClients) {s : Sys config}
    (hcells : ∀ c ∈ s.context.clients.cells, 0 ≤ c.socket) (h : BroadcastExact s) :
    Coincide s := by
  have hcounts := counts_of_exact hsize h
  have hclear : ∀ c ∈ s.context.clients.cells.drop s.context.clientCount, ¬ 0 < c.socket := by
    intro c hc hpos
    have hbehind : 0 < ((leftBehind s.context).filter (0 < ·)).count c.socket :=
      List.count_pos_iff.mpr
        (List.mem_filter.mpr ⟨List.mem_map_of_mem hc, decide_eq_true hpos⟩)
    obtain ⟨hsum, -⟩ := hcounts c.socket
    by_cases hmem : c.socket ∈ s.context.sockets
    · have hsent : 0 < (s.context.sockets.filter (0 < ·)).count c.socket :=
        List.count_pos_iff.mpr (List.mem_filter.mpr ⟨hmem, decide_eq_true hpos⟩)
      rw [if_pos hmem] at hsum
      omega
    · rw [if_neg hmem] at hsum
      omega
  have hnone : (leftBehind s.context).filter (0 < ·) = [] := leftBehind_silent hclear
  have hsent : ∀ fd, (s.context.sockets.filter (0 < ·)).count fd =
      (if fd ∈ s.context.sockets then 1 else 0) := by
    intro fd
    rw [← (hcounts fd).1, hnone, List.count_nil, Nat.add_zero]
  have hpositive : ∀ fd ∈ s.context.sockets, 0 < fd := by
    intro fd hfd
    have hone := hsent fd
    rw [if_pos hfd] at hone
    have hmem : fd ∈ s.context.sockets.filter (0 < ·) :=
      List.count_pos_iff.mp (by omega)
    exact of_decide_eq_true (List.mem_filter.mp hmem).2
  exact {
    vacated := by
      intro c hc
      have hle := hcells c (List.mem_of_mem_drop hc)
      have hno := hclear c hc
      omega
    positive := fun fd hfd => ne_of_gt (hpositive fd hfd)
    distinct := by
      have hkept : s.context.sockets.filter (0 < ·) = s.context.sockets :=
        List.filter_eq_self.mpr (fun fd hfd => decide_eq_true (hpositive fd hfd))
      rw [List.nodup_iff_count_le_one]
      intro fd
      rw [← hkept, hsent fd]
      split <;> omega
    opened := fun fd hfd => (hcounts fd).2 hfd }

/-- **Who is sent a broadcast.** In every state reached by joins, leaves, names and
    stops, under the configuration whose array has `MAX_CLIENTS` slots. -/
theorem broadcast_exact_iff (hsize : config.maxClients = maxClients) {s : Sys config}
    (h : Reachable registryRun s) : BroadcastExact s ↔ Coincide s :=
  ⟨coincide_of_exact hsize (sockets_nonneg h), exact_of_coincide hsize (sockets_nonneg h)⟩

-- ── While nobody leaves ──────────────────────────────────────────────────────

/-- The operations while nobody leaves, on descriptors above that of standard input. -/
def joinsOnly (s : Sys config) (op : Op) : Prop :=
  op.Kernel s.owned ∧ match op with
    | .accept (.accepted fd _ _ _) => 0 < fd
    | .accept (.failed _) => True
    | .assignId _ _ => True
    | _ => False

theorem Coincide.joined {s : Sys config} (h : Coincide s) {context' : ServerContext config}
    {fd : Int} {address : SockaddrIn} {now₁ now₂ : Int64}
    (hjoined : Joined s.context context' fd address now₁ now₂) (hpos : 0 < fd)
    (hfd : Granted s.owned fd) : Coincide ⟨context', insert fd s.owned⟩ := by
  obtain ⟨old, -, hcells, -⟩ := hjoined.filed
  have hnew : fd ∉ s.context.sockets := fun hmem => hfd.2 (h.opened fd hmem)
  have hmem : ∀ a, a ∈ context'.sockets ↔ a ∈ s.context.sockets ∨ a = fd := by
    intro a
    rw [hjoined.sockets, List.mem_append, List.mem_singleton]
  exact {
    vacated := by
      intro c hc
      rw [hjoined.count, hcells, List.drop_set_of_lt (by omega), ← List.drop_drop] at hc
      exact h.vacated c (List.mem_of_mem_drop hc)
    positive := by
      intro a ha
      rcases (hmem a).mp ha with ha | rfl
      · exact h.positive a ha
      · exact ne_of_gt hpos
    distinct := by
      rw [hjoined.sockets, ← List.concat_eq_append]
      exact h.distinct.concat hnew
    opened := by
      intro a ha
      rcases (hmem a).mp ha with ha | rfl
      · exact Finset.mem_insert_of_mem (h.opened a ha)
      · exact Finset.mem_insert_self a s.owned }

theorem Coincide.named {s : Sys config} (h : Coincide s) {context' : ServerContext config}
    {j : Nat} {id : Block UInt8 maxClientIdLength} (hj : j < s.context.clientCount)
    (hnamed : Named s.context context' j id) : Coincide ⟨context', s.owned⟩ := by
  obtain ⟨old, -, hcells⟩ := hnamed.written
  exact {
    vacated := by
      rw [hnamed.count, hcells, List.drop_set_of_lt hj]
      exact h.vacated
    positive := by rw [hnamed.sockets]; exact h.positive
    distinct := by rw [hnamed.sockets]; exact h.distinct
    opened := by rw [hnamed.sockets]; exact h.opened }

/-- While nobody leaves, the two notions of a connected client coincide. -/
theorem coincide_of_joins {s : Sys config} (h : Reachable joinsOnly s) : Coincide s := by
  refine (h.invariant (I := Coincide) ?_ ?_).2
  · exact {
      vacated := by
        intro c hc
        rw [List.eq_of_mem_replicate (List.mem_of_mem_drop hc)]
        rfl
      positive := fun fd hfd => absurd hfd List.not_mem_nil
      distinct := List.nodup_nil
      opened := fun fd hfd => absurd hfd List.not_mem_nil }
  · intro s op context' calls hI _ hop heffect
    obtain ⟨hkernel, hjoins⟩ := hop
    cases heffect with
    | nobody => exact hI
    | refused fd address now₁ now₂ =>
        show Coincide ⟨s.context, settle s.owned [.acquire fd, .release fd]⟩
        rw [settle_acquire_release hkernel.2]
        exact hI
    | joined hjoined => exact hI.joined hjoined hjoins hkernel
    | named hj hnamed => exact hI.named hj hnamed
    | started => exact hjoins.elim
    | left => exact hjoins.elim
    | stopped => exact hjoins.elim

/-- The registry of the default configuration. -/
def hundredSlots : ServerConfig := ⟨8080, 100, 30⟩

/-- A registry whose first slot has been filled, on descriptor 5. -/
def firstSlot (count : Nat) (owned : Finset Int) : Sys hundredSlots where
  context := { ServerContext.fresh hundredSlots with
    clients := ⟨ClientConnection.empty.connect 5 (peer 40001) 0 0
      :: List.replicate 99 ClientConnection.empty, by
        rw [List.length_cons, List.length_replicate]
        rfl⟩
    clientCount := count }
  owned := owned

theorem reachable_firstSlot : Reachable registryRun (firstSlot 1 (insert 5 ∅)) :=
  (reachable_fresh _).step (.exec (.accept (.accepted 5 (peer 40001) 0 0)) [.opened 5] trivial
    ⟨⟨by decide, by decide⟩, fun _ h => nomatch h⟩ rfl rfl)

theorem broadcast_exact_iff_firstSlot :
    BroadcastExact (firstSlot 1 (insert 5 ∅)) ↔ Coincide (firstSlot 1 (insert 5 ∅)) :=
  broadcast_exact_iff rfl reachable_firstSlot

/-- One client joins and leaves, and a broadcast still writes to its closed
    descriptor. -/
theorem broadcast_reaches_departed :
    ¬ ∀ (config : ServerConfig) (s : Sys config), config.maxClients = maxClients →
        Reachable registryRun s →
        (s.context.connected.map ClientConnection.idString).Nodup → BroadcastExact s := by
  intro hall
  have hleft : Reachable registryRun (firstSlot 0 (Finset.erase (insert 5 ∅) 5)) :=
    reachable_firstSlot.step (.exec (.disconnect 0) [.closed 5] Nat.zero_lt_one
      ⟨trivial, fun _ h => nomatch h⟩ rfl rfl)
  have hexact := hall hundredSlots _ rfl hleft List.nodup_nil
  have hcoincide := coincide_of_exact rfl (sockets_nonneg hleft) hexact
  exact absurd (hcoincide.vacated _ List.mem_cons_self) (by decide)

end TradeBroadcast
