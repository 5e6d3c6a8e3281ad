import TradeSynth.TradeBindingProofs

/-!
# Two switches of the server — the handler thread and `handle_message`

`handle_client` dispatches a decoded message in a switch of its own, past
`handle_message` and the helpers behind it. The two tables have different labels: the
inline switch knows the five types of the codec, the other eight. On what the decoder
accepts both have a case, the same one, and do the same (`dispatchers_agree`).
-/

namespace TradeSwitches

open CheckedMemory FixedCodec TradeTypes TradeCodec TradeWire TradeRegistry TradeRun
  TradeHandlers TradeBroadcast TradeDispatch TradeBinding

variable {config : ServerConfig} {n : Nat}

/-- The labels of the switch in `handle_client`, as cases of `handle_message`. -/
def handlerCase : CEnum MessageType → Option ServerCase
  | .known .orderNew => some .order
  | .known .orderModify => some .order
  | .known .orderCancel => some .order
  | .known .marketData => some .marketData
  | .known .tradeExec => some .tradeExec
  | _ => none

/-- What a handler function does, without the code that it returns. -/
def effect (result : Checked (Int × ServerContext config × List Syscall)) :
    Checked (ServerContext config × List Syscall) := do
  let r ← result
  pure r.2

/-- The inline switch, case by case: the handlers that it goes past only log. -/
theorem clientSwitch_eq (context : ServerContext config) (msg : Message) (outside : Outside) :
    clientSwitch context msg outside =
      match handlerCase msg.type with
      | some .order => effect (handleOrderMessage context msg outside)
      | some .marketData => effect (handleMarketData context msg outside)
      | some .tradeExec => effect (handleTradeExec context msg outside)
      | _ => .ok (context, []) := by
  rw [clientSwitch]
  generalize msg.type = t
  cases t with
  | unknown c hc => rfl
  | known t => cases t <;> rfl

/-- Both tables have a case, and the same one, for every type with a payload. -/
theorem labels_of_payloadSize {t : CEnum MessageType} {size : Nat}
    (h : payloadSize t = some size) :
    ∃ label, handlerCase t = some label ∧ serverCase t = some label := by
  have hmem := mem_serializableTypes.mpr ⟨size, h⟩
  simp only [serializableTypes, List.mem_cons, List.not_mem_nil, or_false] at hmem
  rcases hmem with rfl | rfl | rfl | rfl | rfl
  · exact ⟨.order, rfl, rfl⟩
  · exact ⟨.order, rfl, rfl⟩
  · exact ⟨.order, rfl, rfl⟩
  · exact ⟨.marketData, rfl, rfl⟩
  · exact ⟨.tradeExec, rfl, rfl⟩

/-- The tables differ on three types, none of which the codec knows. -/
theorem labels_agree_iff (t : CEnum MessageType) :
    handlerCase t = serverCase t ↔
      t ≠ .known .heartbeat ∧ t ≠ .known .orderStatus ∧ t ≠ .known .error := by
  cases t with
  | unknown c hc => simp [handlerCase, serverCase]
  | known t =>
      cases t with
      | heartbeat => simp [handlerCase, serverCase]
      | orderStatus => simp [handlerCase, serverCase]
      | error => simp [handlerCase, serverCase]
      | _ => simp [handlerCase, serverCase]

/-- A label that both tables give makes both switches do the same. -/
theorem effect_of_labels (context : ServerContext config) (clientSocket : Int) {msg : Message}
    (outside : Outside) {label : ServerCase} (hhandler : handlerCase msg.type = some label)
    (hserver : serverCase msg.type = some label) :
    clientSwitch context msg outside =
      effect (handleMessage context clientSocket msg outside) := by
  rw [clientSwitch_eq, handleMessage, hhandler, hserver]
  cases label with
  | order => rfl
  | marketData => rfl
  | tradeExec => rfl
  | error => rfl
  | heartbeat =>
      -- the inline switch has no label for heartbeats
      unfold handlerCase at hhandler
      split at hhandler
      all_goals cases hhandler

/-- **Agreement.** Whatever bytes the decoder accepts, in every state of the server and
    for every outcome of the sends: the inline switch leaves the context that
    `handle_message` leaves, and makes the same sends, and neither takes its default
    branch. -/
theorem dispatchers_agree {buffer : Block UInt8 n} {k : Nat} (hk : k ≤ n)
    {prior msg : Message} (h : deserializeMessage buffer k prior = .ok (.success, msg))
    (context : ServerContext config) (clientSocket : Int) (outside : Outside) :
    clientSwitch context msg outside =
        effect (handleMessage context clientSocket msg outside) ∧
      handlerCase msg.type ≠ none ∧ serverCase msg.type ≠ none := by
  obtain ⟨f, hf⟩ := deserialize_success hk h
  have htype : msg.type = f.type := by
    rw [hf.loaded, prior.load_type]
  have hsize : payloadSize msg.type = some f.payload.length := by
    rw [htype]
    exact f.fits
  obtain ⟨label, hhandler, hserver⟩ := labels_of_payloadSize hsize
  refine ⟨effect_of_labels context clientSocket outside hhandler hserver, ?_, ?_⟩
  · rw [hhandler]
    exact Option.some_ne_none label
  · rw [hserver]
    exact Option.some_ne_none label

/-- With three clients in the array, the short frame has both switches send to all of
    them. -/
theorem dispatchers_agree_short_frame :
    ∃ context' calls, clientSwitch (hall [guestA, guestB, guestC] 3) (blank (.known .marketData))
        still = .ok (context', calls) ∧ targets calls = [5, 6, 7] ∧
      clientSwitch (hall [guestA, guestB, guestC] 3) (blank (.known .marketData)) still =
        effect (handleMessage (hall [guestA, guestB, guestC] 3) 5 (blank (.known .marketData))
          still) ∧
      handlerCase (blank (.known .marketData)).type ≠ none ∧
      serverCase (blank (.known .marketData)).type ≠ none := by
  obtain ⟨context', calls, hcalls, -, htargets⟩ :=
    broadcast_calls (show hundredSlots.maxClients = maxClients from rfl)
      (hall [guestA, guestB, guestC] 3)
      (blank (.known .marketData)).marketData still.now₁ still.send
  have hthree : targets calls = [5, 6, 7] := by
    rw [htargets]
    decide +kernel
  refine ⟨context', calls, ?_, hthree, dispatchers_agree (Nat.le_refl 124)
    deserialize_shortFrame (hall [guestA, guestB, guestC] 3) 5 still⟩
  have htype : (blank (.known .marketData)).type = .known .marketData := rfl
  rw [clientSwitch, htype]
  dsimp only
  rw [hcalls]
  rfl

end TradeSwitches
