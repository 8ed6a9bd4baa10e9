import FMITerminalBlock.Model.HeldInputs
import FMITerminalBlock.Network.CoupledInstances
import FMITerminalBlock.Timing.SourceOrder

/-! The whole way from the outputs of one instance to the inputs of the model of another one: through
the publisher, the connection, the subscriber, the dispatcher and the predictor. -/
namespace FMITerminalBlock.Network
open Base Timing Model ASN1Commons CompactASN1Publisher CompactASN1Subscriber OneStepEventPredictor

/-- The two ends of a connection describe the same values in the default encoding. -/
structure Coupled (sender receiver : TransmissionChannel) : Prop where
  known : ∀ id ∈ sender.portIDs, id.1 ∈ FMIVariableType.known
  nonempty : sender.portIDs ≠ []
  defaultEncoding : List.Forall₂ DefaultEncoding sender.portIDs sender.portConfig
  types : receiver.portIDs.map Prod.fst = sender.portIDs.map Prod.fst

/-- Each port of the channel has an input of the model for itself. -/
structure Exclusive (c : OneStepConfiguration) (ports : List PortID) : Prop where
  nodup : ports.Nodup
  slots : ∀ id ∈ ports, ∀ other target, slot c id = some target → slot c other = some target → other = id

/-- The events of the subscription `mine` are the first ones that the subscriber has pushed, and the
ports of its channel are in no other external event. -/
structure FedBy {σ : Type} (mine : Nat → Bool) (ports : List PortID) (pushed : List (List Variable))
    (s : RunState σ) : Prop where
  pushed : (EventDispatcher.ownEvents mine s.externals).map (fun ptr => ptr.event.vars) <+: pushed
  foreign : ∀ ptr ∈ s.externals, ¬mine ptr.address → ∀ v ∈ ptr.event.vars, v.id ∉ ports

/-- The inputs on the ports of the receiver show the outputs of the sender at the moment of message
number `k`. Before the first message they are the initial ones. -/
def InputsShow (c : OneStepConfiguration) (sender receiver : List PortID) (histories : List (List Variable))
    (initial inputs : FMIVariableType × Nat → Option Value) : Nat → Prop
  | 0 => ∀ id ∈ receiver, ∀ target ∈ slot c id, inputs target = initial target
  | k + 1 => ∃ history ∈ histories[k]?, ∀ (i : Nat) id port target, receiver[i]? = some id → sender[i]? = some port →
      slot c id = some target → inputs target = portValue history port

variable {c : OneStepConfiguration} {sender receiver : List PortID} {history vars : List Variable}

/-- What an event shows is what it writes. -/
theorem Shows.lastWritten (h : Shows sender receiver history vars) (hc : Exclusive c receiver) {i : Nat}
    {id port : PortID} {target : FMIVariableType × Nat} (hid : receiver[i]? = some id) (hport : sender[i]? = some port)
    (htarget : slot c id = some target) :
    ∃ value, OneStepEventPredictor.lastWritten c target vars = some value ∧ portValue history port = some value := by
  obtain ⟨hids, hvalues⟩ := h
  obtain ⟨v, hv, rfl⟩ : ∃ v, vars[i]? = some v ∧ v.id = id := by
    rw [← hids, List.getElem?_map] at hid
    exact Option.map_eq_some_iff.mp hid
  have hvalue : portValue history port = some v.value := by
    have hi := congrArg (fun values => values[i]?) hvalues
    simp only [List.getElem?_map, hv, hport, Option.map_some, Option.some.injEq] at hi
    exact hi.symm
  refine ⟨v.value, ?_, hvalue⟩
  -- The search finds some variable of the input, and only `v` belongs to it.
  have hfound : (vars.reverse.find? fun w => decide (slot c w.id = some target)).isSome := by
    rw [List.find?_isSome]
    exact ⟨v, List.mem_reverse.mpr (List.mem_of_getElem? hv), by simpa using htarget⟩
  obtain ⟨w, hw⟩ := Option.isSome_iff_exists.mp hfound
  have hmem := List.mem_reverse.mp (List.mem_of_find?_eq_some hw)
  have hslot : slot c w.id = some target := by simpa using List.find?_some hw
  have hreceiver : v.id ∈ receiver := hids ▸ List.mem_map_of_mem (List.mem_of_getElem? hv)
  have hsame := hc.slots v.id hreceiver w.id target htarget hslot
  have hwv : w = v := List.inj_on_of_nodup_map (hids ▸ hc.nodup) hmem (List.mem_of_getElem? hv) hsame
  rw [OneStepEventPredictor.lastWritten, hw, hwv]
  rfl

/-- Events that show one history after the other leave the inputs with the last one. -/
theorem inputsShow_of_shows (hc : Exclusive c receiver) {histories messages : List (List Variable)}
    {sent : Nat} (h : List.Forall₂ (Shows sender receiver) (histories.take sent) messages)
    {initial inputs : FMIVariableType × Nat → Option Value} {k : Nat} (hk : k ≤ messages.length)
    (hinputs : ∀ id ∈ receiver, ∀ target ∈ slot c id,
      inputs target = (lastWritten c target (messages.take k).flatten).or (initial target)) :
    InputsShow c sender receiver histories initial inputs k := by
  cases k with
  | zero => exact fun id hid target htarget => hinputs id hid target htarget
  | succ k =>
    have hlength := h.length_eq
    rw [List.length_take] at hlength
    have hshows := h.get (i := k) (by rw [List.length_take]; omega) (by omega)
    rw [List.get_eq_getElem, List.get_eq_getElem, List.getElem_take] at hshows
    refine ⟨histories[k], List.getElem?_eq_getElem (by omega), fun i id port target hid hport htarget => ?_⟩
    obtain ⟨value, hlast, hvalue⟩ := hshows.lastWritten hc hid hport htarget
    rw [hinputs id (List.mem_of_getElem? hid) target htarget, List.take_succ_eq_append_getElem (by omega),
      List.flatten_append, List.flatten_singleton, lastWritten_append]
    rw [hlast]
    exact hvalue.symm

/-- What a new subscriber has pushed after some pieces of the messages. -/
theorem pushed_shows {env : Surroundings} (henv : env.KeepsIdenticalTypes) (toFloat : BitVec 64 → BitVec 32)
    {sender receiver : TransmissionChannel} (h : Coupled sender receiver) {events : List (List Variable)}
    (hvalid : ∀ vars ∈ events, ∀ v ∈ vars, v.isValid = true ∧ Transmissible v.value) {p : CompactASN1Publisher}
    (hsender : CompactASN1Publisher.init {} sender = (p, .ok ())) {sub sub' : CompactASN1Subscriber}
    (hreceiver : CompactASN1Subscriber.init { portIDs := [] } receiver = .ok sub)
    {messages : List (Option (List UInt8))} (hmessages : publish toFloat p events = some messages)
    {chunks : List (List UInt8)} {rest : List UInt8} (hchunks : chunks.flatten ++ rest = messages.reduceOption.flatten)
    (hcommit : sub.commitAll env chunks = some sub') :
    ∃ k, List.Forall₂ (Shows sender.portIDs receiver.portIDs) ((sentHistories sender.portIDs [] events).take k)
      (sub'.pushed.map fun pushed => pushed.event.var) := by
  obtain ⟨-, hshows⟩ := commitAll_shows henv toFloat h.known h.nonempty h.defaultEncoding h.types hvalid hsender
    hreceiver hmessages
  obtain ⟨k, s', tail, hcommit', -, hpushed, -⟩ := hshows chunks rest hchunks
  obtain rfl : s' = sub' := Option.some.inj (hcommit'.symm.trans hcommit)
  exact ⟨k, hpushed⟩

theorem allVariables_own (mine : Nat → Bool) (entries : List (EventPtr StaticEvent × Bool)) :
    allVariables (entries.filter fun entry => !entry.2 && mine entry.1.address) =
      ((EventDispatcher.own mine entries).map fun ptr => ptr.event.vars).flatten := by
  rw [EventDispatcher.own, TimedEventQueue.externals, List.filter_filter, List.map_map, allVariables, List.flatMap_def]
  congr 2
  exact List.filter_congr fun entry _ => Bool.and_comm ..

/-- The model of the receiving instance sees the outputs of the sending one. Whatever events the sender
distributes, however far and in whichever pieces its messages have arrived, and however the receiver
interleaves them with its own predictions and with other subscriptions: as long as it runs, the inputs
on the channel are the outputs of the sender as they were together at one of the messages, namely at
the last one that was delivered, or the initial ones before that. -/
theorem model_inputs_show_sent_outputs {env : Surroundings} (henv : env.KeepsIdenticalTypes)
    (toFloat : BitVec 64 → BitVec 32) {sender receiver : TransmissionChannel} (hcoupled : Coupled sender receiver)
    (events : List (List Variable)) (hvalid : ∀ vars ∈ events, ∀ v ∈ vars, v.isValid = true ∧ Transmissible v.value)
    (publisher : CompactASN1Publisher) (hsender : CompactASN1Publisher.init {} sender = (publisher, .ok ()))
    (messages : List (Option (List UInt8))) (hmessages : publish toFloat publisher events = some messages)
    (sub sub' : CompactASN1Subscriber) (hreceiver : CompactASN1Subscriber.init { portIDs := [] } receiver = .ok sub)
    (chunks : List (List UInt8)) (rest : List UInt8) (hchunks : chunks.flatten ++ rest = messages.reduceOption.flatten)
    (hcommit : sub.commitAll env chunks = some sub')
    {σ : Type} (M : FMUModelExchange σ) (input : σ → FMIVariableType × Nat → Option Value) (hM : HoldsInputs M input)
    (context : ApplicationContext.Settled) (properties : SimulationProperties) (c : OneStepConfiguration)
    (hconfig : configure M context properties = .ok c) (hexclusive : Exclusive c receiver.portIDs) (s₀ : σ)
    (p : OneStepEventPredictor σ) (hstart : start M c s₀ = .ok p) (turns : Nat) (now : Int) (startTime theEnd : ℚ)
    (labels : List (Label StaticEvent)) (s : RunState σ)
    (hrun : EventDispatcher.Reaches (simulation M c turns) theEnd (EventDispatcher.init p now startTime) labels s)
    (mine : Nat → Bool) (hturn : LabelledRun.Along (EventDispatcher.step (simulation M c turns) theEnd)
      (fun s l _ => EventDispatcher.PushedInTurn (simulation M c turns) mine s l)
      (EventDispatcher.init p now startTime) labels)
    (hfed : FedBy mine receiver.portIDs (sub'.pushed.map fun pushed => pushed.event.var) s)
    (hrunning : ∀ fault, s.phase ≠ .failed fault) :
    InputsShow c sender.portIDs receiver.portIDs (sentHistories sender.portIDs [] events) (input s₀)
      (input s.predictor.fmu) (EventDispatcher.own mine s.delivered).length := by
  obtain ⟨sent, hshows⟩ :=
    pushed_shows henv toFloat hcoupled hvalid hsender hreceiver hmessages hchunks hcommit
  obtain ⟨hand, -, hline⟩ := (EventDispatcher.inTurn_run (EventDispatcher.cycleInvariant_init p now startTime)
    (EventDispatcher.inTurn_init p now startTime) hturn hrun).line
  have hdelivered : (EventDispatcher.own mine s.delivered).map (fun ptr => ptr.event.vars) <+:
      sub'.pushed.map fun pushed => pushed.event.var := by
    refine List.IsPrefix.trans (List.IsPrefix.map _ ?_) hfed.pushed
    rw [← hline, List.append_assoc, List.append_assoc]
    exact List.prefix_append ..
  have htake := List.prefix_iff_eq_take.mp hdelivered
  rw [List.length_map] at htake
  refine inputsShow_of_shows hexclusive hshows ?_ fun id hid target htarget => ?_
  · have hlength := hdelivered.length_le
    rwa [List.length_map] at hlength
  · rw [← htake, ← allVariables_own]
    refine inputs_of_writers hM (configure_configured hconfig) hstart hrun hrunning target
      (fun ptr => mine ptr.address) ?_
    intro ptr hptr hforeign v hv hslot
    have hsame := hexclusive.slots id hid v.id target htarget hslot
    exact hfed.foreign ptr hptr hforeign v hv (hsame ▸ hid)

/-- The output `y` of the sender and the input `u` of the receiver, which has another number there. -/
def outputChannel : TransmissionChannel := ⟨.node [] [], [(.fmiTypeReal, 0)], [.node [] []]⟩

def inputChannel : TransmissionChannel := ⟨.node [] [], [(.fmiTypeReal, 1)], [.node [] []]⟩

/-- The output becomes one and then two. -/
def growingOutputs : List (List Variable) :=
  [[⟨(.fmiTypeReal, 0), .real 0x3ff0000000000000⟩], [⟨(.fmiTypeReal, 0), .real 0x4000000000000000⟩]]

theorem coupled_channels : Coupled outputChannel inputChannel where
  known := by decide
  nonempty := by decide
  defaultEncoding := .cons (fun encodeType h => by cases h) .nil
  types := rfl

theorem exclusive_inputChannel : Exclusive latchConfiguration inputChannel.portIDs where
  nodup := by decide
  slots id _ other target hid hother := by
    rw [(latchConfiguration_slot hid).1, (latchConfiguration_slot hother).1]

def outputPublisher : CompactASN1Publisher := (CompactASN1Publisher.init {} outputChannel).1

def growingMessages : List (Option (List UInt8)) :=
  (publish (fun _ => 0) outputPublisher growingOutputs).get (by decide +kernel)

/-- The first message and the beginning of the second one have arrived. -/
def growingChunks : List (List UInt8) := [growingMessages.reduceOption.flatten.take 12]

def inputSubscriber : CompactASN1Subscriber :=
  (CompactASN1Subscriber.commitAll .exact { portIDs := inputChannel.portIDs } growingChunks).get (by decide +kernel)

theorem model_inputs_show_sent_outputs_latched :
    ∃ s, EventDispatcher.Reaches (simulation latchModel latchConfiguration 5) 10
        (EventDispatcher.init latchPredictor 0 0) latchedRun s ∧
      InputsShow latchConfiguration outputChannel.portIDs inputChannel.portIDs
        (sentHistories outputChannel.portIDs [] growingOutputs) (latchInput (0, 0)) (latchInput s.predictor.fmu) 1 := by
  obtain ⟨s, hrun, ⟨p, -, hphase⟩, hlength, hpushed, hforeign⟩ := LabelledRun.exec_of_any
    (EventDispatcher.step (simulation latchModel latchConfiguration 5) 10)
    (EventDispatcher.init latchPredictor 0 0) latchedRun
    (fun s => (∃ p, p ∈ s.predictions.getLast? ∧ s.phase = .adding p) ∧
      (EventDispatcher.own (· == 1) s.delivered).length = 1 ∧
      (EventDispatcher.ownEvents (· == 1) s.externals).map (fun ptr => ptr.event.vars) <+:
        inputSubscriber.pushed.map (fun pushed => pushed.event.var) ∧
      ∀ ptr ∈ s.externals, ¬(ptr.address == 1) → ∀ v ∈ ptr.event.vars, v.id ∉ inputChannel.portIDs) (by decide +kernel)
  refine ⟨s, hrun, ?_⟩
  have hshow := model_inputs_show_sent_outputs Surroundings.exact_keepsIdenticalTypes (fun _ => 0) coupled_channels
    growingOutputs (by simp [growingOutputs, Transmissible, Variable.isValid, Value.anyCast]) outputPublisher rfl
    growingMessages (Option.some_get _).symm _ inputSubscriber rfl growingChunks
    (growingMessages.reduceOption.flatten.drop 12) (by simp [growingChunks]) (Option.some_get _).symm
    latchModel latchInput latchModel_holdsInputs .feedThrough unitSteps latchConfiguration (Fallible.eq_ok_get _)
    exclusive_inputChannel (0, 0) latchPredictor (Fallible.eq_ok_get _) 5 0 0 10 latchedRun s hrun (· == 1)
    (by decide +kernel) ⟨hpushed, hforeign⟩ (by simp [hphase])
  rw [hlength] at hshow
  exact hshow

end FMITerminalBlock.Network
