import Mathlib.Data.List.SplitLengths
import TradeSynth.TradeWireProofs

/-!
# The receive loops — one message for each `recv`

The loops of `handle_client` and `message_receiver_thread`. Each iteration receives
into the front of one buffer, decodes from its first byte, and passes at most one
message to the dispatch switch; nothing is carried over to the next iteration except
the stale bytes of the buffer and the last message.

The stream is a concatenation of encodings and `recv` may cut it anywhere. The loops
deliver exactly the messages that were sent, for all contents, when the cuts fall on
the message boundaries and on no others (`delivers_iff_cuts`). Necessity counts a
byte: in a stream of blank messages the value 1 occurs once in each, as the version,
and a chunk that decodes has it in front (`dispatched_length_le_count`).
-/

namespace TradeReceive

open CheckedMemory FixedCodec TradeTypes TradeCodec TradeWire

-- ── The loops ────────────────────────────────────────────────────────────────

/-- What one iteration of a receive loop meets. -/
inductive RecvEvent where
  /-- the loop condition is read as 0 -/
  | stopped
  /-- `recv` returns the length of these bytes -/
  | received (chunk : List UInt8)
  /-- `recv` returns 0 -/
  | closed
  /-- `recv` returns -1; `again` when `errno` is `EAGAIN` or `EWOULDBLOCK` -/
  | failed (again : Bool)
deriving DecidableEq

/-- The two locals of a receive loop that live across iterations. -/
structure RecvState where
  buffer : Block UInt8 bufferSize
  msg    : Message

/-- Receive a chunk and decode it; a message that decodes is passed on. -/
def recvStep (r : RecvState) (chunk : List UInt8) : Checked (RecvState × Option Message) := do
  let buffer ← r.buffer.writeRange 0 chunk
  let result ← deserializeMessage buffer chunk.length r.msg
  pure (⟨buffer, result.2⟩, if result.1 = .success then some result.2 else none)

/-- The part of an iteration behind a `recv` that returned bytes; `dispatch` is the
    body of the switch. -/
def recvDispatch {σ : Type} (dispatch : σ → Message → Checked σ) (r : RecvState) (st : σ)
    (chunk : List UInt8) : Checked (RecvState × σ) := do
  let step ← recvStep r chunk
  match step.2 with
  | some m => do
      let st' ← dispatch st m
      pure (step.1, st')
  | none => pure (step.1, st)

/-- The loop of `handle_client`. -/
def handleClientLoop {σ : Type} (dispatch : σ → Message → Checked σ) :
    RecvState → σ → List RecvEvent → Checked σ
  | r, st, .received chunk :: rest => do
      let next ← recvDispatch dispatch r st chunk
      handleClientLoop dispatch next.1 next.2 rest
  | _, st, .stopped :: _ => .ok st
  | _, st, .closed :: _ => .ok st
  | _, st, .failed _ :: _ => .ok st
  | _, st, [] => .ok st

/-- The loop of `message_receiver_thread`; the socket does not block, and an empty one
    is polled again. -/
def messageReceiverLoop {σ : Type} (dispatch : σ → Message → Checked σ) :
    RecvState → σ → List RecvEvent → Checked σ
  | r, st, .received chunk :: rest => do
      let next ← recvDispatch dispatch r st chunk
      messageReceiverLoop dispatch next.1 next.2 rest
  | r, st, .failed true :: rest => messageReceiverLoop dispatch r st rest
  | _, st, .stopped :: _ => .ok st
  | _, st, .closed :: _ => .ok st
  | _, st, .failed false :: _ => .ok st
  | _, st, [] => .ok st

/-- A switch body that records what reaches it. -/
def record (seen : List Message) (m : Message) : Checked (List Message) := .ok (seen ++ [m])

/-- The messages that a list of chunks brings to the switch. -/
def dispatched : RecvState → List (List UInt8) → Checked (List Message)
  | _, [] => .ok []
  | r, chunk :: rest => do
      let step ← recvStep r chunk
      let later ← dispatched step.1 rest
      pure (step.2.toList ++ later)

/-- The outcomes of polling a non-blocking socket that delivers the given chunks. -/
inductive Polls : List RecvEvent → List (List UInt8) → Prop where
  | nil : Polls [] []
  | data {events chunks} (chunk : List UInt8) :
      Polls events chunks → Polls (.received chunk :: events) (chunk :: chunks)
  | again {events chunks} : Polls events chunks → Polls (.failed true :: events) chunks

theorem recvDispatch_record (r : RecvState) (seen : List Message) (chunk : List UInt8) :
    recvDispatch record r seen chunk =
      (recvStep r chunk >>= fun step => .ok (step.1, seen ++ step.2.toList)) := by
  rw [recvDispatch]
  cases recvStep r chunk with
  | error e => rfl
  | ok step =>
      obtain ⟨r', m?⟩ := step
      cases m? with
      | none =>
          show Except.ok (r', seen) = Except.ok (r', seen ++ [])
          rw [List.append_nil]
      | some m => rfl

theorem dispatched_cons (r : RecvState) (seen : List Message) (chunk : List UInt8)
    (rest : List (List UInt8)) :
    (dispatched r (chunk :: rest) >>= fun later => Except.ok (seen ++ later)) =
      (recvStep r chunk >>= fun step =>
        dispatched step.1 rest >>= fun later => .ok (seen ++ step.2.toList ++ later)) := by
  rw [dispatched]
  cases recvStep r chunk with
  | error e => rfl
  | ok step =>
      simp only [ok_bind]
      cases dispatched step.1 rest with
      | error e => rfl
      | ok later => simp only [ok_bind, pure_eq_ok, List.append_assoc]

/-- The server's loop brings to its switch what the chunks contain. -/
theorem handleClientLoop_eq (chunks : List (List UInt8)) :
    ∀ (r : RecvState) (seen : List Message),
      handleClientLoop record r seen (chunks.map .received) =
        (dispatched r chunks >>= fun later => .ok (seen ++ later)) := by
  induction chunks with
  | nil =>
      intro r seen
      rw [List.map_nil, handleClientLoop, dispatched, ok_bind, List.append_nil]
  | cons chunk rest ih =>
      intro r seen
      rw [List.map_cons, handleClientLoop, recvDispatch_record, dispatched_cons]
      cases recvStep r chunk with
      | error e => rfl
      | ok step => exact ih step.1 (seen ++ step.2.toList)

/-- So does the client's, however often it polls in between. -/
theorem messageReceiverLoop_eq {events : List RecvEvent} {chunks : List (List UInt8)}
    (h : Polls events chunks) :
    ∀ (r : RecvState) (seen : List Message),
      messageReceiverLoop record r seen events =
        (dispatched r chunks >>= fun later => .ok (seen ++ later)) := by
  induction h with
  | nil =>
      intro r seen
      rw [messageReceiverLoop, dispatched, ok_bind, List.append_nil]
  | again _ ih =>
      intro r seen
      rw [messageReceiverLoop]
      exact ih r seen
  | data chunk _ ih =>
      intro r seen
      rw [messageReceiverLoop, recvDispatch_record, dispatched_cons]
      cases recvStep r chunk with
      | error e => rfl
      | ok step => exact ih step.1 (seen ++ step.2.toList)

-- ── One chunk ────────────────────────────────────────────────────────────────

/-- The buffer after a chunk has been received into its front. -/
theorem writeRange_chunk (buffer : Block UInt8 bufferSize) {chunk : List UInt8}
    (h : chunk.length ≤ bufferSize) :
    ∃ buffer' : Block UInt8 bufferSize, buffer.writeRange 0 chunk = .ok buffer' ∧
      buffer'.cells.take chunk.length = chunk := by
  have hfit : 0 + chunk.length ≤ bufferSize := by omega
  exact ⟨buffer.splice 0 chunk hfit, buffer.writeRange_eq hfit, buffer.take_splice chunk hfit⟩

/-- Type and payload, the part of a message that the wire carries. -/
def content (m : Message) : CEnum MessageType × List UInt8 := (m.type, payload m)

/-- A chunk that is one frame brings a message that carries it to the switch. -/
theorem recvStep_frame (r : RecvState) (f : Frame) :
    ∃ r' m', recvStep r f.bytes = .ok (r', some m') ∧ Carries m' f := by
  have hlen := f.length_bytes
  have hle : f.bytes.length ≤ bufferSize := by rw [hlen]; exact f.size_le
  obtain ⟨buffer', hwrite, htake⟩ := writeRange_chunk r.buffer hle
  have hdecode := deserialize_frame (f := f) hle (by rw [hlen]) (by rw [← hlen, htake]) r.msg
  refine ⟨⟨buffer', r.msg.load f.type f.payload⟩, r.msg.load f.type f.payload, ?_,
    carries_load r.msg f⟩
  rw [recvStep, hwrite, ok_bind, hdecode]
  rfl

/-- A chunk that is one encoding brings that message to the switch. -/
theorem recvStep_encoding (r : RecvState) {m : Message} {e : List UInt8}
    (he : Encodes m e) :
    ∃ r' m', recvStep r e = .ok (r', some m') ∧ content m' = content m := by
  obtain ⟨f, hm, rfl⟩ := exists_frame_of_encodes he
  obtain ⟨r', m', hstep, hm'⟩ := recvStep_frame r f
  refine ⟨r', m', hstep, ?_⟩
  rw [content, content, hm'.1, hm'.2, hm.1, hm.2]

/-- A chunk that stops inside an encoding brings nothing. -/
theorem recvStep_cut (r : RecvState) {f : Frame} {chunk : List UInt8}
    (hlt : chunk.length < f.size) (hchunk : chunk = f.bytes.take chunk.length) :
    ∃ r', recvStep r chunk = .ok (r', none) := by
  have hsize := f.size_le
  have hle : chunk.length ≤ bufferSize := by omega
  obtain ⟨buffer', hwrite, htake⟩ := writeRange_chunk r.buffer hle
  have hdecode := deserialize_cut hle hlt (by rw [htake, ← hchunk]) r.msg
  refine ⟨⟨buffer', r.msg⟩, ?_⟩
  rw [recvStep, hwrite, ok_bind, hdecode]
  rfl

/-- A chunk that brings a message begins with the version byte. -/
theorem recvStep_version {r r' : RecvState} {m : Message} {chunk : List UInt8}
    (h : recvStep r chunk = .ok (r', some m)) : chunk[0]? = some 1 := by
  by_cases hle : chunk.length ≤ bufferSize
  swap
  · rw [recvStep, r.buffer.writeRange_fault (by omega) (by omega), error_bind] at h
    exact nomatch h
  obtain ⟨buffer', hwrite, htake⟩ := writeRange_chunk r.buffer hle
  rw [recvStep, hwrite, ok_bind, bind_eq_ok] at h
  obtain ⟨⟨err, m'⟩, hdecode, hpure⟩ := h
  have hstep := congrArg Prod.snd (Except.ok.inj hpure)
  by_cases herr : err = .success
  swap
  · rw [if_neg herr] at hstep
    exact nomatch hstep
  rw [herr] at hdecode
  obtain ⟨f, hf⟩ := deserialize_success hle hdecode
  have hlong := hf.long
  have hversion := hf.version
  rw [peekHeader_eq] at hversion
  have hpos : 0 < chunk.length := by rw [headerSize_eq] at hlong; omega
  have hroom : 0 + 4 ≤ buffer'.cells.length := by
    rw [buffer'.size]
    decide
  obtain ⟨b, hb⟩ : ∃ b, chunk[0]? = some b := ⟨_, List.getElem?_eq_getElem hpos⟩
  have hb' : buffer'.cells[0]? = some b := by
    rw [← hb, ← htake, List.getElem?_take_of_lt hpos]
  have hlow := fieldAt_mod hroom hb'
  dsimp only at hversion
  rw [hversion] at hlow
  rw [hb, Option.some.injEq]
  apply UInt8.toNat_inj.mp
  rw [← hlow]
  rfl

-- ── Cuts on the boundaries are enough ────────────────────────────────────────

/-- Chunks that are the encodings, one by one, bring the messages, one by one. -/
theorem dispatched_encodings {ms : List Message} {es : List (List UInt8)}
    (h : List.Forall₂ Encodes ms es) :
    ∀ r, ∃ ms', dispatched r es = .ok ms' ∧ ms'.map content = ms.map content := by
  induction h with
  | nil =>
      intro r
      exact ⟨[], rfl, rfl⟩
  | cons he _ ih =>
      intro r
      obtain ⟨r', m', hstep, hm'⟩ := recvStep_encoding r he
      obtain ⟨later, hlater, hmap⟩ := ih r'
      refine ⟨m' :: later, ?_, ?_⟩
      · rw [dispatched, hstep, ok_bind, hlater]
        rfl
      · rw [List.map_cons, List.map_cons, hm', hmap]

-- ── Cuts elsewhere lose a blank message ──────────────────────────────────────

/-- The encoding of a blank message. -/
def blankBytes (t : CEnum MessageType) : List UInt8 :=
  let cleared := List.replicate ((payloadSize t).getD 0) 0
  MessageHeader.codec.encode
    { version := serializationVersion
      messageSize := UInt32.ofNat (headerSize + cleared.length)
      type := t
      payloadSize := UInt32.ofNat cleared.length
      checksum := checksum cleared } ++ cleared

/-- In the encoding of a blank message the value 1 occurs once, in front. -/
theorem count_blankBytes :
    ∀ t ∈ serializableTypes, (blankBytes t).count 1 = 1 ∧ (blankBytes t)[0]? = some 1 := by
  decide +kernel

theorem blank_frame {f : Frame} (h : Carries (blank f.type) f) :
    f.bytes = blankBytes f.type := by
  have hsize : (payloadSize f.type).getD 0 = f.payload.length := by rw [f.fits]; rfl
  have hcleared : f.payload = List.replicate f.payload.length 0 := by
    calc f.payload
        = (List.replicate unionSize 0).take ((payloadSize f.type).getD 0) := h.2.symm
      _ = List.replicate f.payload.length 0 := by
          rw [hsize, List.take_replicate, Nat.min_eq_left f.payload_le]
  rw [blankBytes, hsize, ← hcleared]
  rfl

theorem encodes_blankBytes {t : CEnum MessageType} (ht : t ∈ serializableTypes) :
    Encodes (blank t) (blankBytes t) := by
  obtain ⟨size, hsize⟩ := mem_serializableTypes.mp ht
  obtain ⟨f, hf, -⟩ := exists_carries (m := blank t) hsize
  have htype : t = f.type := hf.1
  rw [encodes_iff hf, htype, blank_frame (htype ▸ hf)]

/-- The same count for the frame of a blank message. -/
theorem count_blank_frame {f : Frame} (h : Carries (blank f.type) f) :
    f.bytes.count 1 = 1 ∧ f.bytes[0]? = some 1 := by
  rw [blank_frame h]
  exact count_blankBytes f.type (mem_serializableTypes.mpr ⟨_, f.fits⟩)

theorem count_blank_frames {fs : List Frame} (hfs : ∀ f ∈ fs, Carries (blank f.type) f) :
    (fs.map Frame.bytes).flatten.count 1 = fs.length := by
  induction fs with
  | nil => rfl
  | cons f rest ih =>
      obtain ⟨hcount, -⟩ := count_blank_frame (hfs f List.mem_cons_self)
      have hrest := ih (fun g hg => hfs g (List.mem_cons_of_mem f hg))
      rw [List.map_cons, List.flatten_cons, List.count_append, hcount, hrest,
        List.length_cons]
      omega

theorem dispatched_cons_ok {chunk : List UInt8} {rest : List (List UInt8)} {r : RecvState}
    {ms : List Message} (h : dispatched r (chunk :: rest) = .ok ms) :
    ∃ r' m? later, recvStep r chunk = .ok (r', m?) ∧ dispatched r' rest = .ok later ∧
      ms.length = m?.toList.length + later.length := by
  rw [dispatched, bind_eq_ok] at h
  obtain ⟨⟨r', m?⟩, hstep, h⟩ := h
  rw [bind_eq_ok] at h
  obtain ⟨later, hlater, hms⟩ := h
  refine ⟨r', m?, later, hstep, hlater, ?_⟩
  rw [← Except.ok.inj hms, List.length_append]

/-- The chunks bring at most as many messages as the version byte occurs in them. -/
theorem dispatched_length_le_count (chunks : List (List UInt8)) :
    ∀ (r : RecvState) (ms : List Message), dispatched r chunks = .ok ms →
      ms.length ≤ chunks.flatten.count 1 := by
  induction chunks with
  | nil =>
      intro r ms h
      rw [← Except.ok.inj h]
      exact Nat.zero_le _
  | cons chunk rest ih =>
      intro r ms h
      obtain ⟨r', m?, later, hstep, hlater, hlen⟩ := dispatched_cons_ok h
      have hle := ih r' later hlater
      rw [List.flatten_cons, List.count_append]
      cases m? with
      | none =>
          rw [Option.toList_none, List.length_nil] at hlen
          omega
      | some m =>
          have hpos : 0 < chunk.count 1 :=
            List.count_pos_iff.mpr (List.mem_of_getElem? (recvStep_version hstep))
          rw [Option.toList_some, List.length_singleton] at hlen
          omega

/-- A chunk that stops inside the frame of a blank message contains its version byte. -/
theorem count_of_short {f : Frame} {chunk rest later : List UInt8}
    (hf : Carries (blank f.type) f) (hpos : 0 < chunk.length) (hlt : chunk.length < f.size)
    (hflat : chunk ++ rest = f.bytes ++ later) :
    chunk = f.bytes.take chunk.length ∧ 0 < chunk.count 1 := by
  have hcut : chunk = f.bytes.take chunk.length := by
    have htake := congrArg (List.take chunk.length) hflat
    rw [List.take_left, List.take_append_of_le_length (by rw [f.length_bytes]; omega)] at htake
    exact htake
  have hget : chunk[0]? = some 1 := by
    rw [hcut, List.getElem?_take_of_lt hpos, (count_blank_frame hf).2]
  exact ⟨hcut, List.count_pos_iff.mpr (List.mem_of_getElem? hget)⟩

/-- A chunk that runs into the next frame contains the version bytes of both. -/
theorem count_of_long {f : Frame} {gs : List Frame} {chunk rest : List UInt8}
    (hf : Carries (blank f.type) f) (hgs : ∀ g ∈ gs, Carries (blank g.type) g)
    (hgt : f.size < chunk.length)
    (hflat : chunk ++ rest = f.bytes ++ (gs.map Frame.bytes).flatten) :
    2 ≤ chunk.count 1 := by
  obtain ⟨tail, hchunk, hafter⟩ : ∃ tail, chunk = f.bytes ++ tail ∧
      tail ++ rest = (gs.map Frame.bytes).flatten := by
    rcases List.append_eq_append_iff.mp hflat with ⟨tail, hf, -⟩ | ⟨tail, hc, hg⟩
    · have hlen := congrArg List.length hf
      rw [List.length_append, f.length_bytes] at hlen
      omega
    · exact ⟨tail, hc, hg.symm⟩
  have htail : 0 < tail.length := by
    have hlen := congrArg List.length hchunk
    rw [List.length_append, f.length_bytes] at hlen
    omega
  have hget : tail[0]? = some 1 := by
    cases gs with
    | nil =>
        have hnil := congrArg List.length hafter
        rw [List.length_append, List.map_nil, List.flatten_nil, List.length_nil] at hnil
        omega
    | cons g _ =>
        have hbytes : 0 < g.bytes.length := by rw [g.length_bytes]; exact g.size_pos
        rw [List.map_cons, List.flatten_cons] at hafter
        have hread : (tail ++ rest)[0]? = tail[0]? := List.getElem?_append_left htail
        rw [← hread, hafter, List.getElem?_append_left hbytes,
          (count_blank_frame (hgs g List.mem_cons_self)).2]
  have hnext : 0 < tail.count 1 := List.count_pos_iff.mpr (List.mem_of_getElem? hget)
  rw [hchunk, List.count_append, (count_blank_frame hf).1]
  omega

/-- A stream of blank messages is delivered in full only by the cuts at the message
    boundaries: a shorter chunk brings nothing and uses up a version byte, a longer one
    brings one message and uses up two. -/
theorem cuts_of_dispatched (chunks : List (List UInt8)) :
    ∀ (fs : List Frame) (r : RecvState) (ms : List Message),
      (∀ f ∈ fs, Carries (blank f.type) f) → (∀ c ∈ chunks, 0 < c.length) →
      chunks.flatten = (fs.map Frame.bytes).flatten → dispatched r chunks = .ok ms →
      ms.length = fs.length → chunks.map List.length = fs.map Frame.size := by
  induction chunks with
  | nil =>
      intro fs r ms hfs hpos hflat hms hlen
      rw [← Except.ok.inj hms, List.length_nil] at hlen
      rw [List.eq_nil_of_length_eq_zero hlen.symm]
      rfl
  | cons chunk rest ih =>
      intro fs r ms hfs hpos hflat hms hlen
      have hchunk := hpos chunk List.mem_cons_self
      obtain ⟨r', m?, later, hstep, hlater, hmslen⟩ := dispatched_cons_ok hms
      have hbound := dispatched_length_le_count rest r' later hlater
      have hcount := congrArg (List.count 1) hflat
      rw [count_blank_frames hfs, List.flatten_cons, List.count_append] at hcount
      cases fs with
      | nil =>
          have hnil := congrArg List.length hflat
          rw [List.flatten_cons, List.length_append, List.map_nil, List.flatten_nil,
            List.length_nil] at hnil
          omega
      | cons f gs =>
          have hf := hfs f List.mem_cons_self
          have hgs : ∀ g ∈ gs, Carries (blank g.type) g :=
            fun g hg => hfs g (List.mem_cons_of_mem f hg)
          rw [List.flatten_cons, List.map_cons, List.flatten_cons] at hflat
          rw [List.length_cons] at hcount hlen
          rcases Nat.lt_trichotomy chunk.length f.size with hlt | heq | hgt
          · obtain ⟨hcut, hone⟩ := count_of_short hf hchunk hlt hflat
            obtain ⟨_, hnone⟩ := recvStep_cut r hlt hcut
            rw [hnone] at hstep
            have hm? : m? = none := (congrArg Prod.snd (Except.ok.inj hstep)).symm
            rw [hm?, Option.toList_none, List.length_nil] at hmslen
            omega
          · obtain ⟨hbytes, hrest⟩ := List.append_inj hflat (by rw [heq, f.length_bytes])
            obtain ⟨_, m, hsome, -⟩ := recvStep_encoding r ((encodes_iff hf chunk).mpr hbytes)
            rw [hsome] at hstep
            have hm? : m? = some m := (congrArg Prod.snd (Except.ok.inj hstep)).symm
            rw [hm?, Option.toList_some, List.length_singleton] at hmslen
            have hcuts := ih gs r' later hgs
              (fun c hc => hpos c (List.mem_cons_of_mem _ hc)) hrest hlater (by omega)
            rw [List.map_cons, List.map_cons, heq, hcuts]
          · have htwo := count_of_long hf hgs hgt hflat
            have hone : m?.toList.length ≤ 1 := by cases m? <;> simp
            omega

-- ── Delivery ─────────────────────────────────────────────────────────────────

/-- Both loops, from any buffer and any message left in it, bring exactly these
    messages to their switches. -/
def Delivers (ms : List Message) (chunks : List (List UInt8)) : Prop :=
  ∀ r : RecvState,
    (∃ seen, handleClientLoop record r [] (chunks.map .received) = .ok seen ∧
      seen.map content = ms.map content) ∧
    ∀ events, Polls events chunks →
      ∃ seen, messageReceiverLoop record r [] events = .ok seen ∧
        seen.map content = ms.map content

/-- From any buffer and any message left in it, the chunks bring exactly these messages. -/
def Brings (ms : List Message) (chunks : List (List UInt8)) : Prop :=
  ∀ r, ∃ seen, dispatched r chunks = .ok seen ∧ seen.map content = ms.map content

theorem delivers_iff_brings (ms : List Message) (chunks : List (List UInt8)) :
    Delivers ms chunks ↔ Brings ms chunks := by
  have hstart : ∀ x : Checked (List Message),
      (x >>= fun later => Except.ok ([] ++ later)) = x := by
    intro x
    cases x <;> rfl
  constructor
  · intro h r
    have hserver := (h r).1
    rw [handleClientLoop_eq, hstart] at hserver
    exact hserver
  · intro h r
    constructor
    · rw [handleClientLoop_eq, hstart]
      exact h r
    · intro events hevents
      rw [messageReceiverLoop_eq hevents, hstart]
      exact h r

/-- The number of bytes of an encoding. -/
def encodedSize (t : CEnum MessageType) : Nat := headerSize + (payloadSize t).getD 0

theorem Frame.size_eq (f : Frame) : f.size = encodedSize f.type := by
  rw [encodedSize, f.fits]
  rfl

theorem length_of_encodes {m : Message} {e : List UInt8} (h : Encodes m e) :
    e.length = encodedSize m.type := by
  obtain ⟨f, hf, rfl⟩ := exists_frame_of_encodes h
  rw [f.length_bytes, Frame.size_eq, hf.1]

theorem lengths_of_encodes {ms : List Message} {es : List (List UInt8)}
    (h : List.Forall₂ Encodes ms es) :
    es.map List.length = (ms.map Message.type).map encodedSize := by
  induction h with
  | nil => rfl
  | cons he _ ih => rw [List.map_cons, List.map_cons, List.map_cons, length_of_encodes he, ih]

/-- The frames of blank messages of given types. -/
theorem exists_blank_frames {ts : List (CEnum MessageType)}
    (hts : ∀ t ∈ ts, t ∈ serializableTypes) :
    ∃ fs : List Frame, (∀ f ∈ fs, Carries (blank f.type) f) ∧ fs.map Frame.type = ts := by
  induction ts with
  | nil => exact ⟨[], fun _ h => absurd h List.not_mem_nil, rfl⟩
  | cons t rest ih =>
      obtain ⟨fs, hfs, hmap⟩ := ih (fun s hs => hts s (List.mem_cons_of_mem t hs))
      obtain ⟨size, hsize⟩ := mem_serializableTypes.mp (hts t List.mem_cons_self)
      obtain ⟨f, hf, -⟩ := exists_carries (m := blank t) hsize
      have htype : t = f.type := hf.1
      refine ⟨f :: fs, ?_, ?_⟩
      · intro g hg
        rcases List.mem_cons.mp hg with rfl | hg
        · rw [← htype]
          exact hf
        · exact hfs g hg
      · rw [List.map_cons, hmap, ← htype]

theorem encodes_frames {fs : List Frame} (hfs : ∀ f ∈ fs, Carries (blank f.type) f) :
    List.Forall₂ Encodes (fs.map (fun f => blank f.type)) (fs.map Frame.bytes) := by
  induction fs with
  | nil => exact .nil
  | cons f rest ih =>
      exact .cons ((encodes_iff (hfs f List.mem_cons_self) f.bytes).mpr rfl)
        (ih (fun g hg => hfs g (List.mem_cons_of_mem f hg)))

/-- Cuts into chunks of given lengths bring the messages, for all contents, exactly when
    the lengths are those of the encodings. -/
theorem brings_iff_cuts {ts : List (CEnum MessageType)} {cuts : List Nat}
    (hts : ∀ t ∈ ts, t ∈ serializableTypes) (hcuts : ∀ k ∈ cuts, 0 < k ∧ k ≤ bufferSize)
    (hsum : cuts.sum = (ts.map encodedSize).sum) :
    (∀ ms es chunks, ms.map Message.type = ts → List.Forall₂ Encodes ms es →
        chunks.flatten = es.flatten → chunks.map List.length = cuts → Brings ms chunks) ↔
      cuts = ts.map encodedSize := by
  constructor
  · intro hall
    obtain ⟨fs, hfs, hmap⟩ := exists_blank_frames hts
    have hsizes : fs.map Frame.size = ts.map encodedSize := by
      rw [← hmap, List.map_map]
      exact List.map_congr_left (fun f _ => Frame.size_eq f)
    have htotal : (fs.map Frame.bytes).flatten.length = cuts.sum := by
      rw [List.length_flatten, List.map_map, hsum, ← hsizes]
      exact congrArg List.sum (List.map_congr_left (fun f _ => f.length_bytes))
    let chunks := cuts.splitLengths (fs.map Frame.bytes).flatten
    have hflat : chunks.flatten = (fs.map Frame.bytes).flatten :=
      List.flatten_splitLengths _ _ (by omega)
    have hlens : chunks.map List.length = cuts :=
      List.map_splitLengths_length _ _ (by omega)
    have htypes : (fs.map (fun f => blank f.type)).map Message.type = ts := by
      rw [List.map_map, ← hmap]
      rfl
    obtain ⟨seen, hseen, hcontent⟩ :=
      hall _ _ chunks htypes (encodes_frames hfs) hflat hlens
        ⟨Block.fill bufferSize 0, blank (.known .none)⟩
    have hlen : seen.length = fs.length := by
      have hlen := congrArg List.length hcontent
      rw [List.length_map, List.length_map, List.length_map] at hlen
      exact hlen
    have hpos : ∀ c ∈ chunks, 0 < c.length := by
      intro c hc
      have hmem : c.length ∈ cuts := by
        rw [← hlens]
        exact List.mem_map_of_mem hc
      exact (hcuts _ hmem).1
    rw [← hlens, ← hsizes]
    exact cuts_of_dispatched chunks fs _ seen hfs hpos hflat hseen hlen
  · intro hboundary ms es chunks htypes hencodes hflat hlens
    have hchunks : chunks = es := by
      apply List.eq_iff_flatten_eq.mpr
      refine ⟨hflat, ?_⟩
      rw [hlens, lengths_of_encodes hencodes, htypes, hboundary]
    rw [hchunks]
    exact dispatched_encodings hencodes

/-- **Where the stream may be cut.** A stream of messages of given types, cut into
    chunks of given lengths, is delivered as sent for all contents exactly when the
    lengths of the chunks are the lengths of the encodings. -/
theorem delivers_iff_cuts {ts : List (CEnum MessageType)} {cuts : List Nat}
    (hts : ∀ t ∈ ts, t ∈ serializableTypes) (hcuts : ∀ k ∈ cuts, 0 < k ∧ k ≤ bufferSize)
    (hsum : cuts.sum = (ts.map encodedSize).sum) :
    (∀ ms es chunks, ms.map Message.type = ts → List.Forall₂ Encodes ms es →
        chunks.flatten = es.flatten → chunks.map List.length = cuts → Delivers ms chunks) ↔
      cuts = ts.map encodedSize := by
  simp only [delivers_iff_brings]
  exact brings_iff_cuts hts hcuts hsum

theorem delivers_iff_cuts_order_quote :
    (∀ ms es chunks, ms.map Message.type = [.known .orderNew, .known .marketData] →
        List.Forall₂ Encodes ms es → chunks.flatten = es.flatten →
        chunks.map List.length = [148, 124] → Delivers ms chunks) ↔
      [148, 124] = [CEnum.known .orderNew, .known .marketData].map encodedSize :=
  delivers_iff_cuts (by decide) (by decide) (by decide)

/-- Two blank orders that arrive in one chunk: the second is lost. -/
theorem coalesced_lost :
    ¬ ∀ (ms : List Message) (es chunks : List (List UInt8)),
        (∀ m ∈ ms, m.type ∈ serializableTypes) → List.Forall₂ Encodes ms es →
        chunks.flatten = es.flatten →
        (∀ c ∈ chunks, 0 < c.length ∧ c.length ≤ bufferSize) → Delivers ms chunks := by
  intro hall
  let order := blank (.known .orderNew)
  let bytes := blankBytes (.known .orderNew)
  have hbytes : Encodes order bytes := encodes_blankBytes (by decide)
  have hmem : ∀ m ∈ [order, order], m.type ∈ serializableTypes := by decide +kernel
  have hchunk : ∀ c ∈ [bytes ++ bytes], 0 < c.length ∧ c.length ≤ bufferSize := by
    decide +kernel
  have hdelivers := hall [order, order] [bytes, bytes] [bytes ++ bytes] hmem
    (.cons hbytes (.cons hbytes .nil)) (by simp) hchunk
  obtain ⟨seen, hseen, hcontent⟩ := (delivers_iff_brings _ _).mp hdelivers
    ⟨Block.fill bufferSize 0, blank (.known .none)⟩
  obtain ⟨r', m?, later, -, hlater, hlen⟩ := dispatched_cons_ok hseen
  have hnone : later = [] := (Except.ok.inj hlater).symm
  have htwo := congrArg List.length hcontent
  have hone : m?.toList.length ≤ 1 := by cases m? <;> simp
  rw [List.length_map, List.length_map, hlen, hnone] at htwo
  simp only [List.length_cons, List.length_nil] at htwo
  omega

end TradeReceive
