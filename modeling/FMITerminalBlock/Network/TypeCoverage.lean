import FMITerminalBlock.Model.DefaultInputs
import FMITerminalBlock.Model.SynchronizationPoints
import FMITerminalBlock.Network.AssertedDecoder

/-! The type checks that the predictors make before a run, and the branches of other classes that rely
on them. -/
namespace FMITerminalBlock.Model
open Base Timing ApplicationContext

/-- The identifiers of the outputs of each type. The names are passed to the solver as well. -/
def EventPredictor.defineOutputs (mapping : ChannelMapping) :
    Except SystemConfigurationException (FMIVariableType → List PortID) := do
  if mapping.getVariableNames .fmiTypeUnknown ≠ [] then
    throw { what := "Model variable of unknown type registered" }
  return fun
    | .fmiTypeUnknown => []
    | type => mapping.getVariableIDs type

/-- The predictor that is selected by the configuration, with what its initialization depends on. -/
inductive Predictor (σ : Type) where
  | eventPredictor (translate : Translator)
  | oneStepEventPredictor (M : FMUModelExchange σ) (properties : SimulationProperties)

/-- The part of `init` that deals with inputs and outputs succeeds. -/
def Predictor.Initializes {σ : Type} (context : Settled) : Predictor σ → Prop
  | .eventPredictor translate => (∃ ids, EventPredictor.defineOutputs context.output = .ok ids) ∧
      ∃ image, EventPredictor.defineInputs translate context.config context.input = .ok image
  | .oneStepEventPredictor M properties => ∃ c, OneStepEventPredictor.configure M context properties = .ok c

/-- The `switch` of `updateInputVariable` ends in its default branch. -/
def OneStepEventPredictor.ReachesDefaultBranch (c : OneStepConfiguration) (v : Variable) : Prop :=
  (c.inputValueReference.lookup v.id).isSome = true ∧ v.id.1 = .fmiTypeUnknown

end FMITerminalBlock.Model

namespace FMITerminalBlock.Network
open Base Timing Model ApplicationContext

/-! ### Types of ports -/

/-- Every port of the tree has one of the four types. -/
def TypedPorts (tree : Ptree) : Prop :=
  ∀ channel ∈ tree.consecutive, ∀ port ∈ channel.consecutive,
    0 ≤ ChannelMapping.typeCode port ∧ ChannelMapping.typeCode port ≤ 3

/-- No port of the channels is of unknown type. -/
def KnownTypes (channels : List TransmissionChannel) : Prop :=
  ∀ channel ∈ channels, ∀ id ∈ channel.portIDs, id.1 ≠ .fmiTypeUnknown

theorem mem_known {type : FMIVariableType} : type ∈ FMIVariableType.known ↔ type ≠ .fmiTypeUnknown := by
  cases type <;> decide

theorem portType_known {port : Ptree} {type : FMIVariableType} (h : ChannelMapping.portType port = some type) :
    type ≠ .fmiTypeUnknown ↔ 0 ≤ ChannelMapping.typeCode port ∧ ChannelMapping.typeCode port ≤ 3 := by
  rw [ChannelMapping.portType] at h
  generalize ChannelMapping.typeCode port = code at h ⊢
  unfold FMIVariableType.ofCode at h
  split at h
  · cases h
  · rename_i hsign
    obtain ⟨n, rfl⟩ : ∃ n : Nat, code = n := ⟨code.toNat, by omega⟩
    rw [Int.toNat_natCast] at h
    have hn : n < 5 := (List.getElem?_eq_some_iff.mp h).1
    interval_cases n <;> cases h <;> decide

theorem getElem_mem_zip {α β : Type*} {xs : List α} {ys : List β} {i : Nat} (hx : i < xs.length) (hy : i < ys.length) :
    (xs[i], ys[i]) ∈ xs.zip ys := by
  have hi : i < (xs.zip ys).length := by
    rw [List.length_zip]
    exact lt_min hx hy
  exact List.mem_iff_getElem.mpr ⟨i, hi, List.getElem_zip⟩

theorem knownTypes_iff {tree : Ptree} {first last : PortIDDrawer} {m : ChannelMapping}
    (h : MappedFrom tree first last m) : KnownTypes m.channels ↔ TypedPorts tree := by
  have htype {channel : TransmissionChannel} (hc : channel ∈ m.channels) {port : Ptree} {id : PortID}
      (hzip : (port, id) ∈ channel.portConfig.zip channel.portIDs) :
      id.1 ≠ .fmiTypeUnknown ↔ 0 ≤ ChannelMapping.typeCode port ∧ ChannelMapping.typeCode port ≤ 3 := by
    have hport : (port, id) ∈ m.ports := List.mem_flatMap.mpr ⟨channel, hc, hzip⟩
    have htype := h.built.port_type hport
    exact portType_known htype
  constructor
  · intro hknown prop hprop port hport
    rw [← h.channels] at hprop
    obtain ⟨channel, hc, rfl⟩ := List.mem_map.mp hprop
    rw [← h.listed channel hc] at hport
    obtain ⟨i, hi, rfl⟩ := List.mem_iff_getElem.mp hport
    have hi' : i < channel.portIDs.length := (h.built.assigned channel hc).length_eq ▸ hi
    have hzip := getElem_mem_zip hi hi'
    exact (htype hc hzip).mp (hknown channel hc _ (List.getElem_mem hi'))
  · intro htyped channel hc id hid
    obtain ⟨i, hi, rfl⟩ := List.mem_iff_getElem.mp hid
    have hi' : i < channel.portConfig.length := (h.built.assigned channel hc).length_eq ▸ hi
    have hzip := getElem_mem_zip hi' hi
    apply (htype hc hzip).mpr
    apply htyped channel.channelConfig
    · rw [← h.channels]
      exact List.mem_map_of_mem hc
    · rw [← h.listed channel hc]
      exact List.getElem_mem hi'

/-- A mapping without names of unknown type has no ports of unknown type. -/
theorem knownTypes_of_names {tree : Ptree} {first last : PortIDDrawer} {m : ChannelMapping}
    (h : MappedFrom tree first last m) (hnames : m.getVariableNames .fmiTypeUnknown = []) : KnownTypes m.channels := by
  intro channel hc id hid hunknown
  obtain ⟨i, hi, rfl⟩ := List.mem_iff_getElem.mp hid
  have hassigned := h.built.assigned channel hc
  have hi' : i < channel.portConfig.length := hassigned.length_eq ▸ hi
  obtain ⟨type, j, -, hname, heq⟩ := hassigned.get hi' hi
  have htype : type = .fmiTypeUnknown := by
    rw [List.get_eq_getElem] at heq
    rwa [heq] at hunknown
  rw [htype] at hname
  rw [ChannelMapping.getVariableNames] at hnames
  rw [hnames] at hname
  cases hname

/-! ### What the initialization checks -/

theorem defineOutputs_names {mapping : ChannelMapping} {ids : FMIVariableType → List PortID}
    (h : EventPredictor.defineOutputs mapping = .ok ids) : mapping.getVariableNames .fmiTypeUnknown = [] := by
  by_contra hnames
  simp only [EventPredictor.defineOutputs, if_pos hnames] at h
  cases h

theorem defineInputs_names {translate : Translator} {config : Ptree} {mapping : ChannelMapping}
    {image : (type : FMIVariableType) → List (Carrier type)}
    (h : EventPredictor.defineInputs translate config mapping = .ok image) :
    mapping.getVariableNames .fmiTypeUnknown = [] := by
  by_contra hnames
  obtain ⟨real, -, h⟩ := Fallible.bind_eq_ok.mp h
  obtain ⟨integer, -, h⟩ := Fallible.bind_eq_ok.mp h
  obtain ⟨boolean, -, h⟩ := Fallible.bind_eq_ok.mp h
  obtain ⟨string, -, h⟩ := Fallible.bind_eq_ok.mp h
  simp only [if_pos hnames] at h
  cases h

variable {σ : Type}

theorem initOutputStructures_names {M : FMUModelExchange σ} {mapping : ChannelMapping}
    {references : FMIVariableType → List Nat}
    (h : OneStepEventPredictor.initOutputStructures M mapping = .ok references) :
    mapping.getVariableNames .fmiTypeUnknown = [] := by
  by_contra hnames
  obtain ⟨real, -, h⟩ := Fallible.bind_eq_ok.mp h
  obtain ⟨integer, -, h⟩ := Fallible.bind_eq_ok.mp h
  obtain ⟨boolean, -, h⟩ := Fallible.bind_eq_ok.mp h
  obtain ⟨string, -, h⟩ := Fallible.bind_eq_ok.mp h
  simp only [if_pos (List.length_pos_iff.mpr hnames)] at h
  cases h

/-- Both predictors check their outputs. -/
theorem Initializes.outputs {context : Settled} {selected : Predictor σ} (h : selected.Initializes context) :
    KnownTypes context.output.channels := by
  obtain ⟨first, last, hmapped⟩ := context.output_mapped
  apply knownTypes_of_names hmapped
  cases selected with
  | eventPredictor translate =>
    obtain ⟨⟨ids, hids⟩, -⟩ := h
    exact defineOutputs_names hids
  | oneStepEventPredictor M properties =>
    obtain ⟨c, hc⟩ := h
    obtain ⟨references, hreferences, -⟩ := Fallible.bind_eq_ok.mp hc
    exact initOutputStructures_names hreferences

theorem ids_known {tree : Ptree} {first last : PortIDDrawer} {m : ChannelMapping} (h : MappedFrom tree first last m)
    (hknown : KnownTypes m.channels) {id : PortID} (hid : id ∈ m.getAllVariableIDs) : id.1 ≠ .fmiTypeUnknown := by
  obtain ⟨i, hi, rfl⟩ := List.mem_iff_getElem.mp hid
  have hlength := h.built.zip_all.1
  have hi' : i < m.getAllVariableNames.length := by omega
  have hzip := getElem_mem_zip hi' hi
  obtain ⟨x, hx, -, hid⟩ := h.built.mem_zip_all.mp hzip
  obtain ⟨channel, hc, hmem⟩ := List.mem_flatMap.mp hx
  exact hid ▸ hknown channel hc _ (List.of_mem_zip hmem).2

/-! ### The branches that rely on the checks -/

/-- No port is of unknown type, and the branches for unknown types are never taken: not by a decoder for
any data, not by the update of an input and not by the initialization of a publisher. -/
structure Covered (context : Settled) (selected : Predictor σ) : Prop where
  input : KnownTypes context.input.channels
  output : KnownTypes context.output.channels
  processRawDataToEvent : ∀ channel ∈ context.input.channels, ∀ env s₀,
    CompactASN1Subscriber.init { portIDs := [] } channel = .ok s₀ → ∀ inputs s,
      LabelledRun.exec (CompactASN1Subscriber.receive env) s₀ inputs = some s → ∀ data,
        ¬Asserted.CommitData env (.init channel) s data (.error .knownPortType)
  updateInputVariable : ∀ M properties c, selected = .oneStepEventPredictor M properties →
    OneStepEventPredictor.configure M context properties = .ok c →
      ∀ v, ¬OneStepEventPredictor.ReachesDefaultBranch c v
  initOutputVariables : ∀ channel ∈ context.output.channels,
    CompactASN1Publisher.initOutputVariables channel.portIDs ≠ none

theorem knownPorts_of_types {channels : List TransmissionChannel} (h : KnownTypes channels)
    {channel : TransmissionChannel} (hc : channel ∈ channels) : Asserted.KnownPorts channel.portIDs :=
  fun id hid => mem_known.mpr (h channel hc id hid)

theorem covered_of_known {context : Settled} (hin : KnownTypes context.input.channels)
    (hout : KnownTypes context.output.channels) (selected : Predictor σ) : Covered context selected := by
  refine ⟨hin, hout, ?_, ?_, ?_⟩
  · intro channel hc env s₀ hinit inputs s hs data hfails
    obtain ⟨r, -, -, honly⟩ := Asserted.exists_commitData_received hinit (knownPorts_of_types hin hc) hs data
    cases honly _ hfails
  · rintro M properties c - hc v ⟨hregistered, hunknown⟩
    obtain ⟨first, last, hmapped⟩ := context.input_mapped
    have hid := ((OneStepEventPredictor.configure_configured hc).input v.id).mp hregistered
    exact ids_known hmapped hin hid hunknown
  · intro channel hc
    obtain ⟨vars, hvars⟩ := CompactASN1Publisher.initOutputVariables_known (knownPorts_of_types hout hc)
    rw [hvars]
    exact Option.some_ne_none vars

/-- After a successful initialization the checks cover all ports if and only if the multistep predictor is
selected or every configured input has one of the four types. -/
theorem type_checks_cover_iff {context : Settled} {selected : Predictor σ} (hinit : selected.Initializes context) :
    Covered context selected ↔
      (∃ translate, selected = .eventPredictor translate) ∨
        TypedPorts (subtree { config := context.config } propIn) := by
  obtain ⟨first, last, hmapped⟩ := context.input_mapped
  have houtputs := Initializes.outputs hinit
  constructor
  · intro hcovered
    exact .inr ((knownTypes_iff hmapped).mp hcovered.input)
  · rintro (⟨translate, rfl⟩ | htyped)
    · obtain ⟨-, image, himage⟩ := hinit
      have hnames := defineInputs_names himage
      exact covered_of_known (knownTypes_of_names hmapped hnames) houtputs _
    · exact covered_of_known ((knownTypes_iff hmapped).mpr htyped) houtputs _

/-- With one real input and one real output all ports are covered. -/
theorem type_checks_cover_feedThrough :
    (Predictor.oneStepEventPredictor OneStepEventPredictor.idleModel OneStepEventPredictor.unitSteps).Initializes
        .feedThrough ∧
      Covered .feedThrough
        (Predictor.oneStepEventPredictor OneStepEventPredictor.idleModel OneStepEventPredictor.unitSteps) := by
  have hinit : (Predictor.oneStepEventPredictor OneStepEventPredictor.idleModel
      OneStepEventPredictor.unitSteps).Initializes .feedThrough :=
    ⟨OneStepEventPredictor.idleConfiguration, Fallible.eq_ok_get _⟩
  refine ⟨hinit, (type_checks_cover_iff hinit).mpr (.inr ?_)⟩
  unfold TypedPorts
  decide +kernel

/-- One input `u` without a type. -/
def untypedInput : Settled :=
  Settled.ofConfig (.node [] [(propIn, .node [] [(ascii "0", .node [] [(ascii "0", .node (ascii "u") [])])])])
    [.output, .input] (by decide +kernel) (by decide +kernel)

/-- The single step predictor accepts an input without a type, and the first byte that is received for it
ends in the branch for unknown types. -/
theorem untyped_input_not_covered :
    (Predictor.oneStepEventPredictor OneStepEventPredictor.idleModel OneStepEventPredictor.unitSteps).Initializes
        untypedInput ∧
      (∃ channel ∈ untypedInput.input.channels, channel.portIDs = [(.fmiTypeUnknown, 0)] ∧
        Asserted.CommitData .exact (.init channel) { portIDs := channel.portIDs } [0x41] (.error .knownPortType)) ∧
      ¬Covered untypedInput
        (Predictor.oneStepEventPredictor OneStepEventPredictor.idleModel OneStepEventPredictor.unitSteps) := by
  have hchannel : untypedInput.input.channels.map TransmissionChannel.portIDs = [[(.fmiTypeUnknown, 0)]] := by
    decide +kernel
  obtain ⟨channel, hc, hports⟩ : ∃ channel ∈ untypedInput.input.channels,
      channel.portIDs = [(.fmiTypeUnknown, 0)] := by
    apply List.mem_map.mp
    rw [hchannel]
    exact List.mem_cons_self
  refine ⟨⟨_, Fallible.eq_ok_get (by decide +kernel)⟩,
    ⟨channel, hc, hports, Asserted.commitData_unknown hports .exact 0x41 []⟩, fun hcovered => ?_⟩
  exact hcovered.input channel hc (.fmiTypeUnknown, 0) (by rw [hports]; exact List.mem_cons_self) rfl

end FMITerminalBlock.Network
