import TradeSynth.TradeBroadcastProofs

/-!
# Trade routing — two lookups, and the clients they stand for

`process_trade_execution` looks up the buyer and the seller, each as the first slot with
a positive descriptor and the id, and sends the execution to what it finds. The clients
it is meant for are the connected ones with either id, its `recipients`.

The two agree exactly when every recipient can be found and reached, no slot behind the
connected clients answers to an id that nobody connected has, and buyer and seller do
not share a descriptor, as they do when they are one client (`trade_routed_iff`).
-/

namespace TradeRouting

open CheckedMemory FixedCodec TradeTypes TradeCodec TradeWire TradeRegistry TradeRun
  TradeHandlers TradeBroadcast

variable {config : ServerConfig}

-- ── The lookup ───────────────────────────────────────────────────────────────

theorem answersTo_iff {id : List UInt8} {c : ClientConnection} :
    answersTo id c = true ↔ 0 < c.socket ∧ c.idString = cString id := by
  simp [answersTo]

/-- The lookup returns the descriptor of the first slot that answers, within the first
    `MAX_CLIENTS`; if none of them answers, it reads them all. -/
theorem findClientSocket_cases (context : ServerContext config) (id : List UInt8) :
    (∃ i c, i < maxClients ∧ context.clients.cells[i]? = some c ∧ answersTo id c = true ∧
      (∀ k d, k < i → context.clients.cells[k]? = some d → answersTo id d = false) ∧
      findClientSocket context id = .ok c.socket) ∨
    ((∀ i c, i < maxClients → context.clients.cells[i]? = some c → answersTo id c = false) ∧
      ∀ fd, findClientSocket context id = .ok fd →
        fd = -1 ∧ maxClients ≤ config.maxClients.toNat) := by
  by_cases hany : ∃ i c, i < maxClients ∧ context.clients.cells[i]? = some c ∧
      answersTo id c = true
  · obtain ⟨j, c, hj, hc, hanswers⟩ := hany
    obtain ⟨i, d, hle, hfind, hd, hhit, hfirst⟩ := Block.findFrom_first hj hc hanswers
    refine Or.inl ⟨i, d, by omega, hd, hhit, hfirst, ?_⟩
    rw [findClientSocket, hfind, ok_bind]
    simp only [Block.read_eq_ok.mpr hd, ok_bind, pure_eq_ok]
  · have hnone : ∀ i c, i < maxClients → context.clients.cells[i]? = some c →
        answersTo id c = false := by
      intro i c hi hc
      rw [Bool.eq_false_iff]
      exact fun hanswers => hany ⟨i, c, hi, hc, hanswers⟩
    refine Or.inr ⟨hnone, ?_⟩
    intro fd hfd
    by_cases hsize : maxClients ≤ config.maxClients.toNat
    · rw [findClientSocket, Block.findFrom_miss (by omega)
        (fun j c _ hj hc => hnone j c (by omega) hc)] at hfd
      cases hfd
      exact ⟨rfl, hsize⟩
    · rw [findClientSocket, Block.findFrom_fault ?_ (Nat.zero_le _) (by omega)] at hfd
      · cases hfd
      · intro c hc
        obtain ⟨i, hi⟩ := List.getElem?_of_mem hc
        have hlt := (List.getElem?_eq_some_iff.mp hi).1
        rw [context.clients.size] at hlt
        exact hnone i c (by omega) hi

/-- With distinct ids at most one connected slot has an id. -/
theorem slot_unique {context : ServerContext config}
    (hids : (context.connected.map ClientConnection.idString).Nodup) {i j : Nat}
    {c d : ClientConnection} (hc : context.connected[i]? = some c)
    (hd : context.connected[j]? = some d) (hsame : c.idString = d.idString) : i = j := by
  have hi : (context.connected.map ClientConnection.idString)[i]? = some c.idString := by
    rw [List.getElem?_map, hc]
    rfl
  have hj : (context.connected.map ClientConnection.idString)[j]? = some c.idString := by
    rw [List.getElem?_map, hd, hsame]
    rfl
  obtain ⟨hlt, -⟩ := List.getElem?_eq_some_iff.mp hi
  exact (List.getElem?_inj hlt hids).mp (hi.trans hj.symm)

/-- A connected client with a positive descriptor among the first `MAX_CLIENTS` slots is
    the one that the lookup finds. -/
theorem findClientSocket_named {context : ServerContext config} (hb : context.Bounded)
    (hids : (context.connected.map ClientConnection.idString).Nodup) {i : Nat}
    {c : ClientConnection} {id : List UInt8} (hc : context.connected[i]? = some c)
    (hid : c.idString = cString id) (hi : i < maxClients) (hpos : 0 < c.socket) :
    findClientSocket context id = .ok c.socket := by
  have hlt : i < context.clientCount := by
    rw [← length_connected hb]
    exact (List.getElem?_eq_some_iff.mp hc).1
  have hcell := hc
  rw [getElem?_connected hlt] at hcell
  have hanswers : answersTo id c = true := answersTo_iff.mpr ⟨hpos, hid⟩
  rcases findClientSocket_cases context id with
    ⟨j, d, -, hd, hhit, hfirst, hfound⟩ | ⟨hnone, -⟩
  · have hle : j ≤ i := by
      by_contra hgt
      have hno := hfirst i c (by omega) hcell
      rw [hanswers] at hno
      cases hno
    rw [← getElem?_connected (by omega)] at hd
    have hsame : d.idString = c.idString := by rw [(answersTo_iff.mp hhit).2, hid]
    have heq := slot_unique hids hd hc hsame
    subst heq
    rw [hc] at hd
    cases hd
    exact hfound
  · have hno := hnone i c hi hcell
    rw [hanswers] at hno
    cases hno

-- ── Recipients ───────────────────────────────────────────────────────────────

/-- The connected clients with an id. -/
def holders (context : ServerContext config) (id : List UInt8) : List ClientConnection :=
  context.connected.filter (fun c => c.idString == cString id)

/-- The connected clients with one of two ids. -/
def holdersOf (context : ServerContext config) (id id' : List UInt8) :
    List ClientConnection :=
  context.connected.filter (fun c => c.idString == cString id || c.idString == cString id')

/-- The connected clients that an execution is meant for. -/
def recipients (context : ServerContext config) (trade : TradeExecution) :
    List ClientConnection :=
  holdersOf context (buyerIdOf trade) (sellerIdOf trade)

/-- The message that an execution travels as. -/
def tradeMessage (context : ServerContext config) (trade : TradeExecution) (now : Int64) :
    Message where
  type := .known .tradeExec
  sequenceNum := context.sequenceNum
  timestamp := now
  data := unionOf TradeExecution.codec trade trade_fits

/-- An execution is delivered once to each recipient and to nobody else, no descriptor
    gets it twice, and every descriptor that gets it is open; `send` takes all bytes. -/
def TradeExact (s : Sys config) (trade : TradeExecution) : Prop :=
  ∀ now, ∃ context' calls,
    processTradeExecution s.context trade now (fun bytes => bytes.length)
      (fun bytes => bytes.length) = .ok (ErrorCode.success.code, context', calls) ∧
    (∀ call ∈ calls, ∃ fd bytes result, call = .sent fd bytes result ∧
      Encodes (tradeMessage s.context trade now) bytes) ∧
    (targets calls).Perm ((recipients s.context trade).map ClientConnection.socket) ∧
    (targets calls).Nodup ∧ ∀ fd ∈ targets calls, fd ∈ s.owned

/-- Every recipient can be found and reached, nothing behind the connected clients
    answers in the place of one, and buyer and seller are apart. -/
structure Routable (s : Sys config) (trade : TradeExecution) : Prop where
  seen   : ∀ i c, s.context.connected[i]? = some c →
    (c.idString = cString (buyerIdOf trade) ∨ c.idString = cString (sellerIdOf trade)) →
    i < maxClients ∧ c.socket ≠ 0 ∧ c.socket ∈ s.owned
  absent : ∀ id, (id = buyerIdOf trade ∨ id = sellerIdOf trade) →
    (∀ c ∈ s.context.connected, c.idString ≠ cString id) →
    maxClients ≤ config.maxClients.toNat ∧
    ∀ i c, s.context.clientCount ≤ i → i < maxClients →
      s.context.clients.cells[i]? = some c → c.idString = cString id → c.socket = 0
  apart  : ∀ c ∈ s.context.connected, ∀ d ∈ s.context.connected,
    c.idString = cString (buyerIdOf trade) → d.idString = cString (sellerIdOf trade) →
    c.socket ≠ d.socket

-- ── What the function sends ──────────────────────────────────────────────────

/-- The descriptors that the result of a lookup leads to. -/
def notified (fd : Int) : List Int := if 0 < fd then [fd] else []

theorem notify_frame {m : Message} {f : Frame} (hm : Carries m f) (fd : Int)
    (send : List UInt8 → Int) :
    ∃ calls, notify fd m send = .ok calls ∧
      (∀ call ∈ calls, ∃ fd' result, call = .sent fd' f.bytes result) ∧
      targets calls = notified fd := by
  rw [notify, notified]
  by_cases hpos : 0 < fd
  · rw [if_pos hpos, if_pos hpos, sendResponseMessage_frame hm]
    refine ⟨_, rfl, ?_, rfl⟩
    intro call hcall
    exact ⟨fd, send f.bytes, List.mem_singleton.mp hcall⟩
  · rw [if_neg hpos, if_neg hpos]
    exact ⟨[], rfl, fun call hcall => absurd hcall List.not_mem_nil, rfl⟩

/-- The execution goes to what the two lookups find, to the buyer first. -/
theorem processTradeExecution_calls {context : ServerContext config} {trade : TradeExecution}
    {buyer seller : Int} (hbuyer : findClientSocket context (buyerIdOf trade) = .ok buyer)
    (hseller : findClientSocket context (sellerIdOf trade) = .ok seller) (now : Int64)
    (sendBuyer sendSeller : List UInt8 → Int) :
    ∃ context' calls,
      processTradeExecution context trade now sendBuyer sendSeller =
        .ok (ErrorCode.success.code, context', calls) ∧
      (∀ call ∈ calls, ∃ fd bytes result, call = .sent fd bytes result ∧
        Encodes (tradeMessage context trade now) bytes) ∧
      targets calls = notified buyer ++ notified seller := by
  obtain ⟨f, hf, -⟩ := exists_carries (m := tradeMessage context trade now) rfl
  obtain ⟨buyerCalls, hbuyerCalls, hbuyerBytes, hbuyerTargets⟩ := notify_frame hf buyer sendBuyer
  obtain ⟨sellerCalls, hsellerCalls, hsellerBytes, hsellerTargets⟩ :=
    notify_frame hf seller sendSeller
  refine ⟨{ context with sequenceNum := context.sequenceNum + 1 },
    buyerCalls ++ sellerCalls, ?_, ?_, ?_⟩
  · show (findClientSocket context (buyerIdOf trade) >>= fun buyerSocket =>
      findClientSocket context (sellerIdOf trade) >>= fun sellerSocket =>
      notify buyerSocket (tradeMessage context trade now) sendBuyer >>= fun buyerCalls =>
      notify sellerSocket (tradeMessage context trade now) sendSeller >>= fun sellerCalls =>
      pure _) = _
    rw [hbuyer, ok_bind, hseller, ok_bind, hbuyerCalls, ok_bind, hsellerCalls, ok_bind]
    rfl
  · intro call hcall
    rcases List.mem_append.mp hcall with hcall | hcall
    · obtain ⟨fd, result, rfl⟩ := hbuyerBytes call hcall
      exact ⟨fd, f.bytes, result, rfl, (encodes_iff hf _).mpr rfl⟩
    · obtain ⟨fd, result, rfl⟩ := hsellerBytes call hcall
      exact ⟨fd, f.bytes, result, rfl, (encodes_iff hf _).mpr rfl⟩
  · rw [targets, List.filterMap_append]
    exact congrArg₂ (· ++ ·) hbuyerTargets hsellerTargets

/-- An execution that is processed has had both of its lookups. -/
theorem lookups_of_process {context context' : ServerContext config} {trade : TradeExecution}
    {now : Int64} {sendBuyer sendSeller : List UInt8 → Int} {code : Int}
    {calls : List Syscall}
    (h : processTradeExecution context trade now sendBuyer sendSeller =
      .ok (code, context', calls)) :
    ∃ buyer seller, findClientSocket context (buyerIdOf trade) = .ok buyer ∧
      findClientSocket context (sellerIdOf trade) = .ok seller ∧
      targets calls = notified buyer ++ notified seller := by
  have hprocess := h
  rw [processTradeExecution] at h
  obtain ⟨buyer, hbuyer, h⟩ := bind_eq_ok.mp h
  obtain ⟨seller, hseller, -⟩ := bind_eq_ok.mp h
  -- the number that was taken in between is not part of what the lookups read
  have hbuyer : findClientSocket context (buyerIdOf trade) = .ok buyer := hbuyer
  have hseller : findClientSocket context (sellerIdOf trade) = .ok seller := hseller
  obtain ⟨context₁, calls₁, hprocess₁, -, htargets⟩ :=
    processTradeExecution_calls hbuyer hseller now sendBuyer sendSeller
  rw [hprocess₁] at hprocess
  cases hprocess
  exact ⟨buyer, seller, hbuyer, hseller, htargets⟩

-- ── One holder, or none ──────────────────────────────────────────────────────

theorem mem_holders {context : ServerContext config} {id : List UInt8}
    {c : ClientConnection} :
    c ∈ holders context id ↔ c ∈ context.connected ∧ c.idString = cString id := by
  rw [holders, List.mem_filter, beq_iff_eq]

theorem mem_holdersOf {context : ServerContext config} {id id' : List UInt8}
    {c : ClientConnection} :
    c ∈ holdersOf context id id' ↔
      c ∈ context.connected ∧ (c.idString = cString id ∨ c.idString = cString id') := by
  rw [holdersOf, List.mem_filter, Bool.or_eq_true, beq_iff_eq, beq_iff_eq]

theorem holdersOf_comm (context : ServerContext config) (id id' : List UInt8) :
    holdersOf context id id' = holdersOf context id' id := by
  rw [holdersOf, holdersOf]
  exact congrArg (fun p => context.connected.filter p)
    (funext (fun c => Bool.or_comm _ _))

/-- With distinct ids, at most one connected client has an id. -/
theorem holders_cases {context : ServerContext config}
    (hids : (context.connected.map ClientConnection.idString).Nodup) (id : List UInt8) :
    holders context id = [] ∨ ∃ c, holders context id = [c] := by
  match hlist : holders context id with
  | [] => exact Or.inl rfl
  | [c] => exact Or.inr ⟨c, rfl⟩
  | c :: d :: rest =>
      -- two holders would have one id
      have hsub : ((c :: d :: rest).map ClientConnection.idString).Nodup := by
        rw [← hlist]
        exact hids.sublist (List.filter_sublist.map _)
      have hc := mem_holders.mp (show c ∈ holders context id by simp [hlist])
      have hd := mem_holders.mp (show d ∈ holders context id by simp [hlist])
      refine absurd ?_ (List.nodup_cons.mp hsub).1
      rw [hc.2, ← hd.2]
      exact List.mem_cons_self

/-- The clients with one of two different ids are those with the one, and those with the
    other. -/
theorem holdersOf_perm {context : ServerContext config}
    (hids : (context.connected.map ClientConnection.idString).Nodup) {id id' : List UInt8}
    (hne : cString id ≠ cString id') :
    (holders context id ++ holders context id').Perm (holdersOf context id id') := by
  have hclients := hids.of_map
  refine (List.perm_ext_iff_of_nodup ?_ (hclients.filter _)).mpr ?_
  · refine List.nodup_append'.mpr ⟨hclients.filter _, hclients.filter _, ?_⟩
    intro c hc hc'
    exact hne ((mem_holders.mp hc).2.symm.trans (mem_holders.mp hc').2)
  · intro c
    show c ∈ holders context id ++ holders context id' ↔ c ∈ holdersOf context id id'
    rw [List.mem_append, mem_holders, mem_holders, mem_holdersOf, and_or_left]

theorem mem_notified {fd a : Int} : a ∈ notified fd ↔ 0 < a ∧ a = fd := by
  rw [notified]
  by_cases hpos : 0 < fd
  · rw [if_pos hpos, List.mem_singleton]
    constructor
    · rintro rfl
      exact ⟨hpos, rfl⟩
    · exact And.right
  · rw [if_neg hpos]
    constructor
    · intro ha
      cases ha
    · rintro ⟨ha, rfl⟩
      exact absurd ha hpos

-- ── Where an execution can be routed ─────────────────────────────────────────

/-- A lookup leads to the holder of its id, or to nobody where nobody holds it. -/
theorem lookup_holders {context : ServerContext config} (hb : context.Bounded)
    (hcells : ∀ c ∈ context.clients.cells, 0 ≤ c.socket)
    (hids : (context.connected.map ClientConnection.idString).Nodup) {id : List UInt8}
    (hseen : ∀ i c, context.connected[i]? = some c → c.idString = cString id →
      i < maxClients ∧ c.socket ≠ 0)
    (habsent : (∀ c ∈ context.connected, c.idString ≠ cString id) →
      maxClients ≤ config.maxClients.toNat ∧
      ∀ i c, context.clientCount ≤ i → i < maxClients →
        context.clients.cells[i]? = some c → c.idString = cString id → c.socket = 0) :
    ∃ fd, findClientSocket context id = .ok fd ∧
      notified fd = (holders context id).map ClientConnection.socket := by
  rcases holders_cases hids id with hnone | ⟨c, hone⟩
  · have hnobody : ∀ c ∈ context.connected, c.idString ≠ cString id := by
      intro c hc hid
      have hmem := mem_holders.mpr ⟨hc, hid⟩
      rw [hnone] at hmem
      cases hmem
    obtain ⟨hsize, hclear⟩ := habsent hnobody
    obtain ⟨fd, hfd⟩ := findClientSocket_inside hsize context id
    refine ⟨fd, hfd, ?_⟩
    rcases findClientSocket_cases context id with
      ⟨i, d, hi, hd, hhit, -, -⟩ | ⟨-, hmiss⟩
    · -- a hit would be behind the connected clients, where none is left
      obtain ⟨hpos, hid⟩ := answersTo_iff.mp hhit
      by_cases hin : i < context.clientCount
      · rw [← getElem?_connected hin] at hd
        exact absurd hid (hnobody d (List.mem_of_getElem? hd))
      · have hzero := hclear i d (by omega) hi hd hid
        omega
    · obtain ⟨rfl, -⟩ := hmiss fd hfd
      rw [hnone]
      rfl
  · have hc : c ∈ holders context id := by
      rw [hone]
      exact List.mem_cons_self
    obtain ⟨hconnected, hid⟩ := mem_holders.mp hc
    obtain ⟨i, hi⟩ := List.getElem?_of_mem hconnected
    obtain ⟨hlt, hne⟩ := hseen i c hi hid
    have hle := hcells c (List.mem_of_mem_take hconnected)
    have hpos : 0 < c.socket := by omega
    refine ⟨c.socket, findClientSocket_named hb hids hi hid hlt hpos, ?_⟩
    rw [hone, notified, if_pos hpos]
    rfl

/-- A routable execution goes to its recipients. -/
theorem exact_of_routable {s : Sys config} (hb : s.context.Bounded)
    (hcells : ∀ c ∈ s.context.clients.cells, 0 ≤ c.socket)
    (hids : (s.context.connected.map ClientConnection.idString).Nodup)
    {trade : TradeExecution} (h : Routable s trade) : TradeExact s trade := by
  intro now
  obtain ⟨buyer, hbuyer, hbuyerTo⟩ := lookup_holders hb hcells hids
    (fun i c hc hid => ⟨(h.seen i c hc (Or.inl hid)).1, (h.seen i c hc (Or.inl hid)).2.1⟩)
    (h.absent (buyerIdOf trade) (Or.inl rfl))
  obtain ⟨seller, hseller, hsellerTo⟩ := lookup_holders hb hcells hids
    (fun i c hc hid => ⟨(h.seen i c hc (Or.inr hid)).1, (h.seen i c hc (Or.inr hid)).2.1⟩)
    (h.absent (sellerIdOf trade) (Or.inr rfl))
  obtain ⟨context', calls, hprocess, hbytes, htargets⟩ :=
    processTradeExecution_calls hbuyer hseller now (fun bytes => bytes.length)
      (fun bytes => bytes.length)
  rw [hbuyerTo, hsellerTo, ← List.map_append] at htargets
  have hperm : (targets calls).Perm
      ((recipients s.context trade).map ClientConnection.socket) := by
    rw [htargets]
    refine List.Perm.map ClientConnection.socket ?_
    by_cases hsame : cString (buyerIdOf trade) = cString (sellerIdOf trade)
    · -- nobody has the id, for that client would not be apart from itself
      have hnobody : s.context.connected.filter
          (fun c => c.idString == cString (sellerIdOf trade)) = [] := by
        refine List.filter_eq_nil_iff.mpr (fun c hc hid => ?_)
        have hid := beq_iff_eq.mp hid
        exact h.apart c hc c hc (hid.trans hsame.symm) hid rfl
      rw [recipients, holdersOf, holders, holders, hsame]
      simp only [Bool.or_self, hnobody, List.append_nil, List.Perm.refl]
    · exact holdersOf_perm hids hsame
  refine ⟨context', calls, hprocess, hbytes, hperm, ?_, ?_⟩
  · rw [htargets, List.map_append, List.nodup_append']
    refine ⟨?_, ?_, ?_⟩
    · rcases holders_cases hids (buyerIdOf trade) with hnone | ⟨c, hone⟩
      · simp [hnone]
      · simp [hone]
    · rcases holders_cases hids (sellerIdOf trade) with hnone | ⟨c, hone⟩
      · simp [hnone]
      · simp [hone]
    · intro fd hfd hfd'
      obtain ⟨c, hc, hsocket⟩ := List.mem_map.mp hfd
      obtain ⟨d, hd, hsocket'⟩ := List.mem_map.mp hfd'
      obtain ⟨hc, hcid⟩ := mem_holders.mp hc
      obtain ⟨hd, hdid⟩ := mem_holders.mp hd
      exact h.apart c hc d hd hcid hdid (hsocket.trans hsocket'.symm)
  · intro fd hfd
    obtain ⟨c, hc, rfl⟩ := List.mem_map.mp (hperm.mem_iff.mp hfd)
    obtain ⟨hc, hid⟩ := mem_holdersOf.mp hc
    obtain ⟨i, hi⟩ := List.getElem?_of_mem hc
    exact (h.seen i c hi hid).2.2

-- ── Where it has been ────────────────────────────────────────────────────────

/-- Two lookups, whose results are the descriptors of the holders of the two ids, each
    once. -/
structure Delivered (context : ServerContext config) (id id' : List UInt8) (fd fd' : Int) :
    Prop where
  found  : findClientSocket context id = .ok fd
  found' : findClientSocket context id' = .ok fd'
  perm   : (notified fd ++ notified fd').Perm
    ((holdersOf context id id').map ClientConnection.socket)
  once   : (notified fd ++ notified fd').Nodup

theorem Delivered.symm {context : ServerContext config} {id id' : List UInt8} {fd fd' : Int}
    (h : Delivered context id id' fd fd') : Delivered context id' id fd' fd where
  found := h.found'
  found' := h.found
  perm := by
    rw [holdersOf_comm]
    exact List.perm_append_comm.trans h.perm
  once := (List.perm_append_comm.nodup_iff).mp h.once

/-- The descriptor of a holder has been found, and is positive. -/
theorem Delivered.positive {context : ServerContext config} {id id' : List UInt8}
    {fd fd' : Int} (h : Delivered context id id' fd fd') {c : ClientConnection}
    (hc : c ∈ holdersOf context id id') :
    0 < c.socket ∧ (c.socket = fd ∨ c.socket = fd') := by
  have hmem := h.perm.mem_iff.mpr (List.mem_map_of_mem (f := ClientConnection.socket) hc)
  rcases List.mem_append.mp hmem with hmem | hmem
  · obtain ⟨hpos, heq⟩ := mem_notified.mp hmem
    exact ⟨hpos, Or.inl heq⟩
  · obtain ⟨hpos, heq⟩ := mem_notified.mp hmem
    exact ⟨hpos, Or.inr heq⟩

/-- A holder of the first id stands among the first `MAX_CLIENTS` slots. -/
theorem Delivered.inside {context : ServerContext config} (hb : context.Bounded)
    (hids : (context.connected.map ClientConnection.idString).Nodup) {id id' : List UInt8}
    {fd fd' : Int} (h : Delivered context id id' fd fd') {i : Nat} {c : ClientConnection}
    (hc : context.connected[i]? = some c) (hid : c.idString = cString id) :
    i < maxClients := by
  by_contra hout
  have hlt : i < context.clientCount := by
    rw [← length_connected hb]
    exact (List.getElem?_eq_some_iff.mp hc).1
  have hholder : c ∈ holdersOf context id id' :=
    mem_holdersOf.mpr ⟨List.mem_of_getElem? hc, Or.inl hid⟩
  obtain ⟨hpos, hwhere⟩ := h.positive hholder
  -- a slot that a lookup found is a connected one in front of slot `i`
  have hfront : ∀ j d, j < maxClients → context.clients.cells[j]? = some d →
      context.connected[j]? = some d := by
    intro j d hj hd
    rw [getElem?_connected (by omega), hd]
  have hfirst : fd = -1 := by
    rcases findClientSocket_cases context id with ⟨j, d, hj, hd, hhit, -, -⟩ | ⟨-, hmiss⟩
    · have heq := slot_unique hids (hfront j d hj hd) hc
        ((answersTo_iff.mp hhit).2.trans hid.symm)
      omega
    · exact (hmiss fd h.found).1
  have hsecond : c.socket = fd' := by
    rcases hwhere with hsocket | hsocket
    · omega
    · exact hsocket
  rcases findClientSocket_cases context id' with ⟨j, d, hj, hd, hhit, -, hfound⟩ | ⟨-, hmiss⟩
  · -- one message was sent, and two clients hold the ids
    have hlen := h.perm.length_eq
    rw [hfirst, List.length_append, List.length_map] at hlen
    have hshort : (holdersOf context id id').length ≤ 1 := by
      rw [← hlen, notified, notified, if_neg (by decide)]
      split <;> simp
    have hd' : d ∈ holdersOf context id id' :=
      mem_holdersOf.mpr ⟨List.mem_of_getElem? (hfront j d hj hd),
        Or.inr (answersTo_iff.mp hhit).2⟩
    have hsame : d = c := by
      match hlist : holdersOf context id id' with
      | [] => rw [hlist] at hd'; cases hd'
      | [e] =>
          rw [hlist] at hd' hholder
          rw [List.mem_singleton.mp hd', List.mem_singleton.mp hholder]
      | e :: e' :: rest =>
          rw [hlist] at hshort
          simp at hshort
    have heq := slot_unique hids (hfront j d hj hd) hc (congrArg _ hsame)
    omega
  · have hmissed := (hmiss fd' h.found').1
    omega

/-- A holder of the first id is what the first lookup has found. -/
theorem Delivered.holder {context : ServerContext config} (hb : context.Bounded)
    (hids : (context.connected.map ClientConnection.idString).Nodup) {id id' : List UInt8}
    {fd fd' : Int} (h : Delivered context id id' fd fd') {c : ClientConnection}
    (hc : c ∈ context.connected) (hid : c.idString = cString id) :
    0 < c.socket ∧ fd = c.socket := by
  obtain ⟨i, hi⟩ := List.getElem?_of_mem hc
  obtain ⟨hpos, -⟩ := h.positive (mem_holdersOf.mpr ⟨hc, Or.inl hid⟩)
  have hfound := findClientSocket_named hb hids hi hid (h.inside hb hids hi hid) hpos
  rw [h.found] at hfound
  exact ⟨hpos, Except.ok.inj hfound⟩

/-- When nobody holds the first id, its lookup has read all `MAX_CLIENTS` slots, and
    none that it read answers to it. -/
theorem Delivered.nobody {context : ServerContext config} (hb : context.Bounded)
    (hids : (context.connected.map ClientConnection.idString).Nodup) {id id' : List UInt8}
    {fd fd' : Int} (h : Delivered context id id' fd fd')
    (hnobody : ∀ c ∈ context.connected, c.idString ≠ cString id) :
    maxClients ≤ config.maxClients.toNat ∧
      ∀ i c, i < maxClients → context.clients.cells[i]? = some c →
        answersTo id c = false := by
  rcases findClientSocket_cases context id with
    ⟨i, c, -, hc, hhit, -, hfound⟩ | ⟨hnone, hmiss⟩
  · -- what answered is left behind, yet its descriptor is that of a holder of the other id
    exfalso
    rw [h.found] at hfound
    have hfd : fd = c.socket := Except.ok.inj hfound
    have hpos := (answersTo_iff.mp hhit).1
    have hfirst : c.socket ∈ notified fd := mem_notified.mpr ⟨hpos, hfd.symm⟩
    obtain ⟨r, hr, hsocket⟩ := List.mem_map.mp
      (h.perm.mem_iff.mp (List.mem_append_left (notified fd') hfirst))
    obtain ⟨hrc, hrid⟩ := mem_holdersOf.mp hr
    have hrid' : r.idString = cString id' := hrid.resolve_left (hnobody r hrc)
    obtain ⟨hrpos, hfd'⟩ := h.symm.holder hb hids hrc hrid'
    have hsecond : c.socket ∈ notified fd' :=
      mem_notified.mpr ⟨hpos, hsocket.symm.trans hfd'.symm⟩
    exact (List.nodup_append'.mp h.once).2.2 hfirst hsecond
  · exact ⟨(hmiss fd h.found).2, hnone⟩

/-- An execution that went to its recipients was routable. -/
theorem routable_of_exact {s : Sys config} (hb : s.context.Bounded)
    (hcells : ∀ c ∈ s.context.clients.cells, 0 ≤ c.socket)
    (hids : (s.context.connected.map ClientConnection.idString).Nodup)
    {trade : TradeExecution} (h : TradeExact s trade) : Routable s trade := by
  obtain ⟨context', calls, hprocess, -, hperm, honce, howned⟩ := h 0
  obtain ⟨buyer, seller, hbuyer, hseller, htargets⟩ := lookups_of_process hprocess
  have hdelivered : Delivered s.context (buyerIdOf trade) (sellerIdOf trade) buyer seller := {
    found := hbuyer
    found' := hseller
    perm := htargets ▸ hperm
    once := htargets ▸ honce }
  exact {
    seen := by
      intro i c hc hid
      have hrecipient : c ∈ recipients s.context trade :=
        mem_holdersOf.mpr ⟨List.mem_of_getElem? hc, hid⟩
      obtain ⟨hpos, -⟩ := hdelivered.positive hrecipient
      refine ⟨?_, by omega, ?_⟩
      · rcases hid with hid | hid
        · exact hdelivered.inside hb hids hc hid
        · exact hdelivered.symm.inside hb hids hc hid
      · exact howned _ (hperm.mem_iff.mpr (List.mem_map_of_mem hrecipient))
    absent := by
      intro id hid hnobody
      have hnone : maxClients ≤ config.maxClients.toNat ∧
          ∀ i c, i < maxClients → s.context.clients.cells[i]? = some c →
            answersTo id c = false := by
        rcases hid with rfl | rfl
        · exact hdelivered.nobody hb hids hnobody
        · exact hdelivered.symm.nobody hb hids hnobody
      refine ⟨hnone.1, ?_⟩
      intro i c _ hi hc hcid
      have hle := hcells c (List.mem_of_getElem? hc)
      have hno := hnone.2 i c hi hc
      by_contra hne
      rw [answersTo_iff.mpr ⟨by omega, hcid⟩] at hno
      cases hno
    apart := by
      intro c hc d hd hcid hdid hsame
      obtain ⟨hpos, hfd⟩ := hdelivered.holder hb hids hc hcid
      obtain ⟨hpos', hfd'⟩ := hdelivered.symm.holder hb hids hd hdid
      exact (List.nodup_append'.mp hdelivered.once).2.2
        (mem_notified.mpr ⟨hpos, hfd.symm⟩) (mem_notified.mpr ⟨hpos, hsame.trans hfd'.symm⟩) }

/-- **Who is sent an execution.** In every state reached by joins, leaves, names and
    stops in which the connected clients have distinct ids. -/
theorem trade_routed_iff {s : Sys config} (h : Reachable registryRun s)
    (hids : (s.context.connected.map ClientConnection.idString).Nodup)
    (trade : TradeExecution) : TradeExact s trade ↔ Routable s trade :=
  ⟨routable_of_exact h.bounded (sockets_nonneg h) hids,
    exact_of_routable h.bounded (sockets_nonneg h) hids⟩

/-- The id A. -/
def idA : Block UInt8 maxClientIdLength := ⟨65 :: List.replicate 31 0, rfl⟩

/-- A registry whose first slot has been filled, on descriptor 5, and named A. -/
def namedSlot (count : Nat) (owned : Finset Int) : Sys hundredSlots where
  context := { ServerContext.fresh hundredSlots with
    clients := ⟨{ ClientConnection.empty.connect 5 (peer 40001) 0 0 with id := idA }
      :: List.replicate 99 ClientConnection.empty, by
        rw [List.length_cons, List.length_replicate]
        rfl⟩
    clientCount := count }
  owned := owned

/-- Joins, leaves and names. -/
def namedRun (s : Sys config) (op : Op) : Prop := registryRun s op ∧ op ≠ .stop

theorem reachable_namedSlot : Reachable namedRun (namedSlot 1 (insert 5 ∅)) := by
  have hjoined : Reachable namedRun (firstSlot 1 (insert 5 ∅)) :=
    (reachable_fresh _).step (.exec (.accept (.accepted 5 (peer 40001) 0 0)) [.opened 5] trivial
      ⟨⟨⟨by decide, by decide⟩, fun _ h => nomatch h⟩, fun h => nomatch h⟩ rfl rfl)
  exact hjoined.step (.exec (.assignId 0 idA) [] Nat.zero_lt_one
    ⟨⟨trivial, fun _ h => nomatch h⟩, fun h => nomatch h⟩ rfl rfl)

/-- An execution between two clients. -/
def executionOf (buyer seller : Block UInt8 maxClientIdLength) : TradeExecution where
  tradeId := 1
  orderId := 1
  symbol := Block.fill maxSymbolLength 0
  price := ⟨100, 2, Block.fill 4 0⟩
  quantity := 1
  pad := Block.fill 4 0
  timestamp := 0
  buyerId := buyer
  sellerId := seller

theorem trade_routed_iff_named :
    TradeExact (namedSlot 1 (insert 5 ∅)) (executionOf idA (Block.fill maxClientIdLength 66)) ↔
      Routable (namedSlot 1 (insert 5 ∅)) (executionOf idA (Block.fill maxClientIdLength 66)) :=
  trade_routed_iff (reachable_namedSlot.mono fun _ _ h => h.1) (List.nodup_singleton _) _

/-- The only client leaves, and an execution for its id is still sent to the descriptor
    that was closed. -/
theorem trade_reaches_departed :
    ¬ ∀ (config : ServerConfig) (s : Sys config), validateServerConfig config = 1 →
        Reachable namedRun s → (s.context.connected.map ClientConnection.idString).Nodup →
        (∀ c ∈ s.context.connected, c.idString ≠ []) →
        ∀ trade, TradeExact s trade := by
  intro hall
  have hleft : Reachable namedRun (namedSlot 0 (Finset.erase (insert 5 ∅) 5)) :=
    reachable_namedSlot.step (.exec (.disconnect 0) [.closed 5] Nat.zero_lt_one
      ⟨⟨trivial, fun _ h => nomatch h⟩, fun h => nomatch h⟩ rfl rfl)
  have hexact := hall hundredSlots _ (by decide) hleft List.nodup_nil
    (fun c hc => absurd hc List.not_mem_nil) (executionOf idA idA)
  have hrouted := routable_of_exact hleft.bounded
    (sockets_nonneg (hleft.mono fun _ _ h => h.1)) List.nodup_nil hexact
  have hcleared := (hrouted.absent _ (Or.inl rfl) (fun c hc => absurd hc List.not_mem_nil)).2
    0 _ (Nat.le_refl 0) (by decide) rfl (by decide +kernel)
  exact absurd hcleared (by decide)

end TradeRouting
