import FMITerminalBlock.Model.EventDistribution
import FMITerminalBlock.Model.SynchronizationPoints
import FMITerminalBlock.Network.CompactASN1Publisher

/-! Ports are identified by name and type within a direction, and the two directions share no
identifier. So a publisher is deaf to inputs and a predictor to outputs. -/
namespace FMITerminalBlock
open Base Timing Model Network

/-! ### Publishers and foreign variables -/

namespace Network.CompactASN1Publisher

/-- The image holds the ports of the channel. -/
def Serves (channel : TransmissionChannel) (p : CompactASN1Publisher) : Prop :=
  p.outputVariables.map Variable.id = channel.portIDs

theorem initOutputVariables_ids {ports : List PortID} {vars : List Variable}
    (h : initOutputVariables ports = some vars) : vars.map Variable.id = ports := by
  induction ports generalizing vars with
  | nil =>
    cases h
    rfl
  | cons id ports ih =>
    simp only [initOutputVariables, List.mapM_cons, Option.bind_eq_bind, Option.bind_eq_some_iff,
      Option.map_eq_some_iff, Option.pure_def, Option.some.injEq] at h
    obtain ⟨v, ⟨value, -, rfl⟩, rest, hrest, rfl⟩ := h
    rw [List.map_cons, ih hrest]

theorem initOutputTypes_outputVariables (ports : List (PortID × Ptree)) (p : CompactASN1Publisher) :
    (initOutputTypes ports p).1.outputVariables = p.outputVariables := by
  induction ports generalizing p with
  | nil => rfl
  | cons port ports ih =>
    rw [initOutputTypes]
    split
    · rfl
    · exact ih _

theorem serves_init {p₀ p : CompactASN1Publisher} {channel : TransmissionChannel}
    (h : init p₀ channel = (p, .ok ())) : Serves channel p := by
  unfold init at h
  split at h
  · cases h
  · rename_i vars hvars
    have himage := initOutputTypes_outputVariables (channel.portIDs.zip channel.portConfig)
      { p₀ with outputVariables := vars }
    rw [h] at himage
    rw [Serves, himage]
    exact initOutputVariables_ids hvars

/-- The value of a variable goes to an output with its identifier. -/
def store (v out : Variable) : Variable := if v.id = out.id then { out with value := v.value } else out

@[simp] theorem store_id (v out : Variable) : (store v out).id = out.id := by
  rw [store]
  split <;> rfl

/-- The loop stores the value in every output of the port, and it fails only if there is one and the
variable is not valid. -/
theorem updateOutput_eq_some {v : Variable} {outs : List Variable} {r : Bool × List Variable} :
    updateOutput v outs = some r ↔ (v.id ∈ outs.map Variable.id → v.isValid = true) ∧
      r = (decide (v.id ∈ outs.map Variable.id), outs.map (store v)) := by
  induction outs generalizing r with
  | nil =>
    constructor
    · rintro ⟨⟩
      exact ⟨fun hmem => absurd hmem List.not_mem_nil, rfl⟩
    · rintro ⟨-, rfl⟩
      rfl
  | cons out outs ih =>
    rw [updateOutput, Option.bind_eq_bind, Option.bind_eq_some_iff]
    constructor
    · rintro ⟨rest, hrest, h⟩
      obtain ⟨hvalid, rfl⟩ := ih.mp hrest
      dsimp only at h
      split_ifs at h with hid hself <;> cases h
      · exact ⟨fun _ => hself, by simp [store, hid]⟩
      · exact ⟨fun hmem => hvalid ((List.mem_cons.mp hmem).resolve_left hid), by simp [store, hid]⟩
    · rintro ⟨hvalid, rfl⟩
      refine ⟨_, ih.mpr ⟨fun hmem => hvalid (List.mem_cons_of_mem _ hmem), rfl⟩, ?_⟩
      by_cases hid : v.id = out.id
      · simp [store, hid, hvalid (List.mem_cons.mpr (.inl hid))]
      · simp [store, hid]

theorem updateOutput_ids {v : Variable} {outs outs' : List Variable} {updated : Bool}
    (h : updateOutput v outs = some (updated, outs')) : outs'.map Variable.id = outs.map Variable.id := by
  obtain ⟨-, heq⟩ := updateOutput_eq_some.mp h
  cases heq
  rw [List.map_map]
  exact List.map_congr_left fun out _ => store_id v out

theorem updateOutputVariables_ids {vars : List Variable} {p p' : CompactASN1Publisher} {updated : Bool}
    (h : updateOutputVariables vars p = some (updated, p')) :
    p'.outputVariables.map Variable.id = p.outputVariables.map Variable.id := by
  induction vars generalizing p updated with
  | nil =>
    cases h
    rfl
  | cons v vars ih =>
    obtain ⟨⟨first, outs⟩, hfirst, h⟩ := Option.bind_eq_some_iff.mp h
    obtain ⟨⟨rest, q⟩, hrest, h⟩ := Option.bind_eq_some_iff.mp h
    cases h
    exact (ih hrest).trans (updateOutput_ids hfirst)

/-- The publisher after a sequence of events. -/
def afterEvents (toFloat : BitVec 64 → BitVec 32) (p : CompactASN1Publisher) (events : List (List Variable)) :
    Option CompactASN1Publisher :=
  events.foldlM (fun p vars => (p.eventTriggered toFloat vars).map Prod.snd) p

theorem serves_eventTriggered {toFloat : BitVec 64 → BitVec 32} {channel : TransmissionChannel}
    {p p' : CompactASN1Publisher} {vars : List Variable} {message : Option (List UInt8)} (hp : Serves channel p)
    (h : p.eventTriggered toFloat vars = some (message, p')) : Serves channel p' := by
  obtain ⟨⟨updated, q⟩, hq, h⟩ := Option.bind_eq_some_iff.mp h
  have hserves : Serves channel q := (updateOutputVariables_ids hq).trans hp
  dsimp only at h
  split at h
  · obtain ⟨buffer, -, h⟩ := Option.bind_eq_some_iff.mp h
    cases h
    exact hserves
  · cases h
    exact hserves

theorem serves_afterEvents {toFloat : BitVec 64 → BitVec 32} {channel : TransmissionChannel}
    {p p' : CompactASN1Publisher} {events : List (List Variable)} (hp : Serves channel p)
    (h : p.afterEvents toFloat events = some p') : Serves channel p' := by
  induction events generalizing p with
  | nil =>
    cases h
    exact hp
  | cons vars events ih =>
    rw [afterEvents, List.foldlM_cons] at h
    obtain ⟨q, hq, h⟩ := Option.bind_eq_some_iff.mp h
    obtain ⟨⟨message, q'⟩, hq', rfl⟩ := Option.map_eq_some_iff.mp hq
    exact ih (serves_eventTriggered hp hq') h

theorem updateOutput_foreign {v : Variable} {outs : List Variable} (h : v.id ∉ outs.map Variable.id) :
    updateOutput v outs = some (false, outs) := by
  have hkept : outs.map (store v) = outs := by
    rw [List.map_congr_left, List.map_id]
    intro out hout
    exact if_neg fun hid => h (List.mem_map.mpr ⟨out, hout, hid.symm⟩)
  rw [updateOutput_eq_some, decide_eq_false h, hkept]
  exact ⟨fun hmem => absurd hmem h, rfl⟩

/-- Variables of other ports neither change the image nor send a message. -/
theorem eventTriggered_foreign (toFloat : BitVec 64 → BitVec 32) {p : CompactASN1Publisher} {vars : List Variable}
    (h : ∀ v ∈ vars, v.id ∉ p.outputVariables.map Variable.id) : p.eventTriggered toFloat vars = some (none, p) := by
  have hupdate : updateOutputVariables vars p = some (false, p) := by
    induction vars with
    | nil => rfl
    | cons v vars ih =>
      have hrest := ih fun w hw => h w (List.mem_cons_of_mem _ hw)
      simp [updateOutputVariables, updateOutput_foreign (h v List.mem_cons_self), hrest]
  simp [eventTriggered, hupdate]

end Network.CompactASN1Publisher

/-! ### Predictors and foreign variables -/

theorem Model.OneStepEventPredictor.updateInputVariables_foreign {σ : Type} (M : FMUModelExchange σ)
    {c : OneStepConfiguration} {vars : List Variable} (hvalid : ∀ v ∈ vars, v.isValid = true)
    (h : ∀ v ∈ vars, c.inputValueReference.lookup v.id = none) (s : σ) :
    updateInputVariables M c vars s = .ok (false, s) := by
  induction vars with
  | nil => rfl
  | cons v vars ih =>
    have hfirst : updateInputVariable M c s v = .ok (false, s) := by
      simp [updateInputVariable, hvalid v List.mem_cons_self, h v List.mem_cons_self]
    have hrest := ih (fun w hw => hvalid w (List.mem_cons_of_mem _ hw)) fun w hw => h w (List.mem_cons_of_mem _ hw)
    rw [updateInputVariables, hfirst]
    simp only [bind, Except.bind, hrest]
    rfl

namespace Model.EventPredictor
variable {σ : Type} {M : IncrementalFMU σ} {c : PredictorConfiguration} {p : EventPredictor σ}

theorem updateInput_foreign {type : FMIVariableType} {v : Variable} {ports : List PortID} (h : v.id ∉ ports)
    (i : Nat) (r : Bool × List (Carrier type)) : updateInput type v i ports r = .ok r := by
  induction ports generalizing i with
  | nil => rfl
  | cons port ports ih =>
    rw [List.mem_cons, not_or] at h
    rw [updateInput, if_neg h.1]
    exact ih h.2 (i + 1)

theorem updateInputImageOf_foreign {ev : PredictorEvent} {vars : List Variable} (hopened : Opened M p ev vars)
    {type : FMIVariableType} (h : ∀ v ∈ vars, v.id ∉ c.inputIDs type) :
    updateInputImageOf M c ev p type = .ok (false, p.observed p.inputImage (p.reads ++ [vars])) := by
  have hloop : vars.foldlM (fun r v => updateInput type v 0 (c.inputIDs type) r) (false, p.inputImage type) =
      (.ok (false, p.inputImage type) : Except PredictorFault _) := by
    clear hopened
    induction vars with
    | nil => rfl
    | cons v vars ih =>
      rw [List.foldlM_cons, updateInput_foreign (h v List.mem_cons_self)]
      exact ih fun w hw => h w (List.mem_cons_of_mem _ hw)
  rw [updateInputImageOf, hopened.getVariables]
  simp only [bind, Except.bind, hloop, Function.update_eq_self]
  rfl

/-- An event without inputs is read once for each type and has no other effect. -/
theorem updateInputImage_foreign {ev : PredictorEvent} {vars : List Variable} (hopened : Opened M p ev vars)
    (h : ∀ v ∈ vars, v.id ∉ c.context.input.getAllVariableIDs) :
    updateInputImage M c p ev = .ok (false, p.observed p.inputImage (p.reads ++ List.replicate 4 vars)) := by
  have hforeign (type : FMIVariableType) : ∀ v ∈ vars, v.id ∉ c.inputIDs type := fun v hv hid =>
    h v hv (List.mem_flatMap.mpr ⟨type, FMIVariableType.mem_all type, hid⟩)
  have htypes (types : List FMIVariableType) : types.foldlM (fun (r : Bool × EventPredictor σ) type =>
      (updateInputImageOf M c ev r.2 type).map fun next => (r.1 || next.1, next.2)) (false, p) =
        .ok (false, p.observed p.inputImage (p.reads ++ List.replicate types.length vars)) := by
    induction types generalizing p with
    | nil => simp [EventPredictor.observed, pure, Except.pure]
    | cons type types ih =>
      have hrest := ih (hopened.observed p.inputImage (p.reads ++ [vars]))
      rw [List.foldlM_cons, updateInputImageOf_foreign hopened (hforeign type)]
      apply hrest.trans
      simp only [EventPredictor.observed]
      rw [List.append_assoc, List.singleton_append, ← List.replicate_succ, List.length_cons]
  exact htypes FMIVariableType.known

/-- The same holds for an event that has yet to be read for the first time. -/
theorem updateInputImage_foreign_of_getVariables {ev : PredictorEvent} {vars : List Variable} {q : EventPredictor σ}
    (hget : getVariables M c p ev = .ok (vars, q)) (h : ∀ v ∈ vars, v.id ∉ c.context.input.getAllVariableIDs) :
    ∃ p', updateInputImage M c p ev = .ok (false, p') ∧ p'.inputImage = p.inputImage := by
  obtain ⟨hopened, himage⟩ := (getVariables_opened ev).of_ok hget
  exact ⟨_, (updateInputImage_of_getVariables hget hopened).trans (updateInputImage_foreign hopened h), himage⟩

end Model.EventPredictor

/-! ### Both directions -/

/-- The mapping identifies the ports configured in the tree by their names and types. -/
structure Base.ChannelMapping.Identifies (m : ChannelMapping) (tree : Ptree) : Prop where
  /-- Names and identifiers are listed in parallel. -/
  parallel : m.getAllVariableNames.length = m.getAllVariableIDs.length
  variable_of_port : ∀ port ∈ m.ports,
    ∃ i : Nat, m.getAllVariableNames[i]? = some port.1.data ∧ m.getAllVariableIDs[i]? = some port.2
  port_of_variable : ∀ (i : Nat) name id, m.getAllVariableNames[i]? = some name →
    m.getAllVariableIDs[i]? = some id → ∃ port ∈ m.ports, port.1.data = name ∧ port.2 = id
  same_id_iff : ∀ x ∈ m.ports, ∀ y ∈ m.ports, x.2 = y.2 ↔
    x.1.data = y.1.data ∧ ChannelMapping.portType x.1 = ChannelMapping.portType y.1
  type_of_port : ∀ port ∈ m.ports, ChannelMapping.portType port.1 = some port.2.1
  /-- Channels and ports are those with consecutive numbers, in their order. -/
  channels : (∀ (i : Nat) channel, m.channels[i]? = some channel → tree.indexed i = some channel.channelConfig) ∧
    tree.indexed m.channels.length = none
  ports : ∀ channel ∈ m.channels, channel.portIDs.length = channel.portConfig.length ∧
    (∀ (i : Nat) port, channel.portConfig[i]? = some port → channel.channelConfig.indexed i = some port) ∧
    channel.channelConfig.indexed channel.portIDs.length = none
  total : m.getTotalNumberOfVariables =
    (m.ports.map fun port => (port.1.data, ChannelMapping.portType port.1)).toFinset.card

theorem Base.ApplicationContext.MappedFrom.identifies {tree : Ptree} {first last : PortIDDrawer} {m : ChannelMapping}
    (h : ApplicationContext.MappedFrom tree first last m) : m.Identifies tree := by
  have hparallel := h.built.zip_all.1
  refine ⟨hparallel, ?_, ?_, fun x hx y hy => h.built.same_id_iff hx hy, fun port => h.built.port_type, ?_, ?_,
    h.built.total⟩
  · intro port hport
    have hzip := h.built.mem_zip_all.mpr ⟨port, hport, rfl, rfl⟩
    obtain ⟨i, hi⟩ := List.mem_iff_getElem?.mp hzip
    exact ⟨i, List.getElem?_zip_eq_some.mp hi⟩
  · intro i name id hname hid
    have hzip : (m.getAllVariableNames.zip m.getAllVariableIDs)[i]? = some (name, id) :=
      List.getElem?_zip_eq_some.mpr ⟨hname, hid⟩
    exact h.built.mem_zip_all.mp (List.mem_of_getElem? hzip)
  · obtain ⟨hget, hend⟩ := tree.consecutive_spec
    refine ⟨fun i channel hchannel => hget i _ ?_, ?_⟩
    · rw [← h.channels, List.getElem?_map, hchannel, Option.map_some]
    · rw [← h.channels, List.length_map] at hend
      exact hend
  · intro channel hchannel
    have hlength := (h.built.assigned channel hchannel).length_eq
    obtain ⟨hget, hend⟩ := channel.channelConfig.consecutive_spec
    rw [← h.listed channel hchannel] at hget hend
    exact ⟨hlength.symm, hget, hlength ▸ hend⟩

theorem Base.ApplicationContext.Settled.channel_port_mem (context : ApplicationContext.Settled)
    {channel : TransmissionChannel} (hchannel : channel ∈ context.output.channels) {id : PortID}
    (hid : id ∈ channel.portIDs) : id ∈ context.output.getAllVariableIDs := by
  obtain ⟨first, last, hmapped⟩ := context.output_mapped
  obtain ⟨i, hi⟩ := List.mem_iff_getElem?.mp hid
  have hlength := (hmapped.built.assigned channel hchannel).length_eq
  obtain ⟨port, hport⟩ : ∃ port, channel.portConfig[i]? = some port :=
    ⟨_, List.getElem?_eq_getElem (hlength ▸ (List.getElem?_eq_some_iff.mp hi).1)⟩
  have hmem : (port, id) ∈ context.output.ports := List.mem_flatMap.mpr ⟨channel, hchannel,
    List.mem_of_getElem? (List.getElem?_zip_eq_some.mpr ⟨hport, hi⟩)⟩
  exact hmapped.built.port_mem_ids hmem

/-- Whatever is asked for first, both mappings identify their ports and share no identifier. So an
event with variables of input ports only makes no publisher of an output channel send, and one with
variables of output ports only changes no input of a predictor. -/
theorem ports_identified_and_apart (context : ApplicationContext.Settled) :
    context.input.Identifies (ApplicationContext.subtree { config := context.config } ApplicationContext.propIn) ∧
    context.output.Identifies (ApplicationContext.subtree { config := context.config } ApplicationContext.propOut) ∧
    (∀ id ∈ context.input.getAllVariableIDs, id ∉ context.output.getAllVariableIDs) ∧
    (∀ channel ∈ context.output.channels, ∀ (p₀ p p' : CompactASN1Publisher) toFloat past vars,
      CompactASN1Publisher.init p₀ channel = (p, .ok ()) → p.afterEvents toFloat past = some p' →
      (∀ v ∈ vars, v.id ∈ context.input.getAllVariableIDs) → p'.eventTriggered toFloat vars = some (none, p')) ∧
    (∀ vars, OutputOnly context vars → (∀ v ∈ vars, v.isValid = true) →
      (∀ (σ : Type) (M : FMUModelExchange σ) properties c s,
        OneStepEventPredictor.configure M context properties = .ok c →
        OneStepEventPredictor.updateInputVariables M c vars s = .ok (false, s)) ∧
      ∀ (σ : Type) (M : IncrementalFMU σ) (c : PredictorConfiguration) (p q : EventPredictor σ) ev,
        c.context = context → EventPredictor.getVariables M c p ev = .ok (vars, q) →
        ∃ p', EventPredictor.updateInputImage M c p ev = .ok (false, p') ∧ p'.inputImage = p.inputImage) := by
  refine ⟨?_, ?_, fun id => context.apart, ?_, ?_⟩
  · obtain ⟨first, last, hmapped⟩ := context.input_mapped
    exact hmapped.identifies
  · obtain ⟨first, last, hmapped⟩ := context.output_mapped
    exact hmapped.identifies
  · intro channel hchannel p₀ p p' toFloat past vars hinit hpast hvars
    have hserves := CompactASN1Publisher.serves_afterEvents (CompactASN1Publisher.serves_init hinit) hpast
    apply CompactASN1Publisher.eventTriggered_foreign toFloat
    intro v hv hid
    rw [hserves] at hid
    exact context.apart (hvars v hv) (context.channel_port_mem hchannel hid)
  · intro vars houtput hvalid
    constructor
    · intro σ M properties c s hconfigure
      have hconfigured := OneStepEventPredictor.configure_configured hconfigure
      refine OneStepEventPredictor.updateInputVariables_foreign M hvalid (fun v hv => ?_) s
      rw [← Option.not_isSome_iff_eq_none, hconfigured.input]
      exact houtput.not_mem_input hv
    · rintro σ M c p q ev rfl hget
      exact EventPredictor.updateInputImage_foreign_of_getVariables hget fun v hv => houtput.not_mem_input hv

/-- The output is asked for first and takes the first number, so an event of the input is not sent. -/
theorem ports_identified_and_apart_feedThrough :
    ApplicationContext.Settled.feedThrough.output.getAllVariableIDs = [(.fmiTypeReal, 0)] ∧
    ApplicationContext.Settled.feedThrough.input.getAllVariableIDs = [(.fmiTypeReal, 1)] ∧
    ∀ channel ∈ ApplicationContext.Settled.feedThrough.output.channels, ∀ (p : CompactASN1Publisher) toFloat,
      CompactASN1Publisher.init {} channel = (p, .ok ()) →
        p.eventTriggered toFloat [⟨(.fmiTypeReal, 1), .real 0⟩] = some (none, p) := by
  refine ⟨by decide +kernel, by decide +kernel, fun channel hchannel p toFloat hinit => ?_⟩
  have hsends := (ports_identified_and_apart .feedThrough).2.2.2.1
  exact hsends channel hchannel {} p p toFloat [] _ hinit rfl (by decide +kernel)

end FMITerminalBlock
