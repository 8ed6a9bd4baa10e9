import FMITerminalBlock.Base.Properties
import FMITerminalBlock.Model.EventPredictor
import FMITerminalBlock.Model.OneStepEventPredictor

/-! The initial values of the inputs. One predictor asks the configuration for every input, the
other one walks through the configured values and asks the model for each of them. -/
namespace FMITerminalBlock.Model
open Base Timing ApplicationContext

/-- The conversion of a property to the data type of an FMI type. -/
abbrev Translator := (type : FMIVariableType) → StdString → Option (Carrier type)

/-- What the predictors know of the variables of a model: their types and whether a value can be set
before the model is initialized. -/
structure ModelVariables where
  getType : StdString → FMIVariableType
  setValue : StdString → Value → Bool

/-- What makes the initialization fail. -/
inductive InitFault where
  | argument (ex : InvalidArgument)
  | configuration (ex : SystemConfigurationException)

/-- The exception of a query as one of the initialization. -/
def liftArgument {α : Type} (x : Except InvalidArgument α) : Except InitFault α := x.mapError .argument

namespace EventPredictor

/-- The template for one type. -/
def defineInputsOf (translate : Translator) (config : Ptree) (mapping : ChannelMapping) (type : FMIVariableType)
    (defaultValue : Carrier type) : Except InitFault (List (Carrier type)) :=
  (mapping.getVariableNames type).mapM fun name =>
    liftArgument (getPropertyOr (translate type) config (defaultInputKey name) defaultValue)

def defineInputs (translate : Translator) (config : Ptree) (mapping : ChannelMapping) :
    Except InitFault ((type : FMIVariableType) → List (Carrier type)) := do
  let real ← defineInputsOf translate config mapping .fmiTypeReal 0
  let integer ← defineInputsOf translate config mapping .fmiTypeInteger 0
  let boolean ← defineInputsOf translate config mapping .fmiTypeBoolean 0
  let string ← defineInputsOf translate config mapping .fmiTypeString []
  if mapping.getVariableNames .fmiTypeUnknown ≠ [] then
    throw (.configuration { what := "Model input variable of unknown type registered" })
  return fun
    | .fmiTypeReal => real
    | .fmiTypeInteger => integer
    | .fmiTypeBoolean => boolean
    | .fmiTypeString => string
    | .fmiTypeUnknown => []

/-- The names and values that `initSolver` passes to the model. -/
def initialInputs (mapping : ChannelMapping) (image : (type : FMIVariableType) → List (Carrier type)) :
    List (StdString × Value) :=
  FMIVariableType.known.flatMap fun type =>
    (mapping.getVariableNames type).zip ((image type).map (Value.of type))

def startInputs (translate : Translator) (context : ApplicationContext.Settled) :
    Except InitFault (List (StdString × Value)) :=
  (defineInputs translate context.config context.input).map (initialInputs context.input)

end EventPredictor

namespace OneStepEventPredictor

/-- A path as part of a text. -/
def text (path : StdString) : String := String.ofList (path.map fun b => Char.ofNat b.toNat)

/-- The value that is set for a variable. -/
def setDefaultValue (translate : Translator) (model : ModelVariables) (config : Ptree) (varName : StdString) :
    Except InitFault (StdString × Value) :=
  let varPath := defaultInputKey varName
  let type := model.getType varName
  if type = .fmiTypeUnknown then
    .error (.configuration { what := "Unknown default variable in " ++ text varPath })
  else do
    let value ← liftArgument (getProperty (translate type) config varPath)
    if model.setValue varName (.of type value) then return (varName, .of type value)
    else
      let data ← liftArgument (getProperty some config varPath)
      throw (.configuration { what := "Cannot set the default variable (%1%)", config := some (varPath, data) })

def setDefaultValues (translate : Translator) (model : ModelVariables) (config : Ptree) :
    Except InitFault (List (StdString × Value)) :=
  match config.getChildOptional propDefaultInput with
  | none => .ok []
  | some tree => tree.children.mapM fun entry => setDefaultValue translate model config entry.1

end OneStepEventPredictor

/-! ### Initial values -/

/-- The default value of a property reaches its variable: it is set, and to nothing else. -/
def StartsWith (translate : Translator) (model : ModelVariables) (set : List (StdString × Value))
    (d : StdString × StdString) : Prop :=
  ∃ x, translate (model.getType d.1) d.2 = some x ∧ (d.1, .of (model.getType d.1) x) ∈ set ∧
    ∀ value, (d.1, value) ∈ set → value = .of (model.getType d.1) x

/-- The initialization succeeds and all default values reach their variables. -/
def Starts (translate : Translator) (model : ModelVariables) (defaults : List (StdString × StdString))
    (init : Except InitFault (List (StdString × Value))) : Prop :=
  ∃ set, init = .ok set ∧ ∀ d ∈ defaults, StartsWith translate model set d

/-- The configured inputs exist in the model, and the default values are those of inputs. -/
structure Fitting (translate : Translator) (model : ModelVariables) (mapping : ChannelMapping)
    (defaults : List (StdString × StdString)) : Prop where
  declared : ∀ type, ∀ name ∈ mapping.getVariableNames type,
    model.getType name = type ∧ type ∈ FMIVariableType.known
  settable : ∀ type, ∀ name ∈ mapping.getVariableNames type, ∀ x, model.setValue name (.of type x) = true
  configured : ∀ d ∈ defaults, ∃ type, d.1 ∈ mapping.getVariableNames type
  converts : ∀ d ∈ defaults, (translate (model.getType d.1) d.2).isSome

variable {translate : Translator} {model : ModelVariables} {defaults : List (StdString × StdString)}

theorem getProperty_default {α : Type} (convert : StdString → Option α) {config : Ptree}
    (hnodes : defaultNodes config = leaves defaults) (hdots : ∀ d ∈ defaults, (46 : UInt8) ∉ d.1)
    {name value : StdString} (hvalue : defaults.lookup name = some value) {x : α} (hx : convert value = some x) :
    getProperty convert config (defaultInputKey name) = .ok x := by
  rw [getProperty, getChildOptional_of_leaves hnodes hdots, hvalue]
  simp only [Option.map_some, Option.bind_some, Ptree.data, hx]

theorem lookup_default (hnodup : (defaults.map (·.1)).Nodup) {d : StdString × StdString} (hd : d ∈ defaults) :
    defaults.lookup d.1 = some d.2 := by
  induction defaults with
  | nil => cases hd
  | cons other defaults ih =>
    rw [List.map_cons, List.nodup_cons] at hnodup
    rw [List.lookup_cons]
    rcases List.mem_cons.mp hd with rfl | hd
    · rw [beq_self_eq_true]
    · have hne : d.1 ≠ other.1 := fun heq => hnodup.1 (heq ▸ List.mem_map_of_mem hd)
      rw [beq_false_of_ne hne]
      exact ih hnodup.2 hd

namespace EventPredictor

/-- The value an input starts with, given the default value for inputs of its type. -/
def initialValue (translate : Translator) (defaults : List (StdString × StdString)) (type : FMIVariableType)
    (defaultValue : Carrier type) (name : StdString) : Carrier type :=
  ((defaults.lookup name).bind (translate type)).getD defaultValue

theorem defineInputsOf_eq {config : Ptree} {mapping : ChannelMapping} (hfit : Fitting translate model mapping defaults)
    (hnodes : defaultNodes config = leaves defaults) (hdots : ∀ d ∈ defaults, (46 : UInt8) ∉ d.1)
    (type : FMIVariableType) (defaultValue : Carrier type) :
    defineInputsOf translate config mapping type defaultValue =
      .ok ((mapping.getVariableNames type).map (initialValue translate defaults type defaultValue)) := by
  rw [defineInputsOf, Fallible.mapM_eq_ok, List.forall₂_map_right_iff, List.forall₂_same]
  intro name hname
  rw [getPropertyOr, hasProperty, getChildOptional_of_leaves hnodes hdots, initialValue]
  cases hvalue : defaults.lookup name with
  | none => rfl
  | some value =>
    have hmem : (name, value) ∈ defaults := by
      obtain ⟨before, after, rfl, -⟩ := List.lookup_eq_some_iff.mp hvalue
      exact List.mem_append_right _ List.mem_cons_self
    have hconverts := hfit.converts _ hmem
    obtain ⟨htype, -⟩ := hfit.declared type name hname
    dsimp only at hconverts
    rw [htype] at hconverts
    obtain ⟨x, hx⟩ := Option.isSome_iff_exists.mp hconverts
    rw [getProperty_default (translate type) hnodes hdots hvalue hx]
    simp [liftArgument, Except.mapError, hx]

/-- The image after `defineInputs`. -/
def initialImage (translate : Translator) (defaults : List (StdString × StdString)) (mapping : ChannelMapping) :
    (type : FMIVariableType) → List (Carrier type)
  | .fmiTypeReal => (mapping.getVariableNames .fmiTypeReal).map (initialValue translate defaults .fmiTypeReal 0)
  | .fmiTypeInteger =>
    (mapping.getVariableNames .fmiTypeInteger).map (initialValue translate defaults .fmiTypeInteger 0)
  | .fmiTypeBoolean =>
    (mapping.getVariableNames .fmiTypeBoolean).map (initialValue translate defaults .fmiTypeBoolean 0)
  | .fmiTypeString => (mapping.getVariableNames .fmiTypeString).map (initialValue translate defaults .fmiTypeString [])
  | .fmiTypeUnknown => []

theorem defineInputs_eq {config : Ptree} {mapping : ChannelMapping} (hfit : Fitting translate model mapping defaults)
    (hnodes : defaultNodes config = leaves defaults) (hdots : ∀ d ∈ defaults, (46 : UInt8) ∉ d.1) :
    defineInputs translate config mapping = .ok (initialImage translate defaults mapping) := by
  have hunknown : mapping.getVariableNames .fmiTypeUnknown = [] := by
    rw [List.eq_nil_iff_forall_not_mem]
    intro name hname
    exact absurd (hfit.declared _ name hname).2 (by decide)
  simp only [defineInputs, defineInputsOf_eq hfit hnodes hdots, bind, Except.bind, hunknown, ne_eq,
    not_true_eq_false, if_false, pure, Except.pure, Except.ok.injEq]
  funext type
  cases type <;> rfl

theorem initialImage_known (translate : Translator) (defaults : List (StdString × StdString))
    (mapping : ChannelMapping) {type : FMIVariableType} (h : type ∈ FMIVariableType.known) :
    ∃ defaultValue, initialImage translate defaults mapping type =
      (mapping.getVariableNames type).map (initialValue translate defaults type defaultValue) := by
  cases type with
  | fmiTypeUnknown => exact absurd h (by decide)
  | _ => exact ⟨_, rfl⟩

/-- An input with a default value starts with it. -/
theorem mem_initialInputs {mapping : ChannelMapping} (hfit : Fitting translate model mapping defaults)
    (hnodup : (defaults.map (·.1)).Nodup) {d : StdString × StdString} (hd : d ∈ defaults)
    {x : Carrier (model.getType d.1)} (hx : translate (model.getType d.1) d.2 = some x) (value : Value) :
    (d.1, value) ∈ initialInputs mapping (initialImage translate defaults mapping) ↔
      value = .of (model.getType d.1) x := by
  have hinitial (defaultValue : Carrier (model.getType d.1)) :
      initialValue translate defaults (model.getType d.1) defaultValue d.1 = x := by
    rw [initialValue, lookup_default hnodup hd, Option.bind_some, hx, Option.getD_some]
  have hentry {type : FMIVariableType} (htype : type ∈ FMIVariableType.known) :
      (d.1, value) ∈ (mapping.getVariableNames type).zip
          ((initialImage translate defaults mapping type).map (Value.of type)) ↔
        d.1 ∈ mapping.getVariableNames type ∧ value = .of (model.getType d.1) x := by
    obtain ⟨defaultValue, himage⟩ := initialImage_known translate defaults mapping htype
    rw [himage, List.map_map, ← List.map_prod_left_eq_zip, List.mem_map]
    constructor
    · rintro ⟨name, hname, heq⟩
      cases heq
      obtain ⟨rfl, -⟩ := hfit.declared type d.1 hname
      exact ⟨hname, by rw [Function.comp, hinitial]⟩
    · rintro ⟨hname, rfl⟩
      obtain ⟨rfl, -⟩ := hfit.declared type d.1 hname
      exact ⟨d.1, hname, by rw [Function.comp, hinitial]⟩
  rw [initialInputs, List.mem_flatMap]
  constructor
  · rintro ⟨type, htype, hmem⟩
    exact ((hentry htype).mp hmem).2
  · intro hvalue
    obtain ⟨type, hname⟩ := hfit.configured d hd
    have htype := (hfit.declared type d.1 hname).2
    exact ⟨type, htype, (hentry htype).mpr ⟨hname, hvalue⟩⟩

theorem startInputs_starts {context : ApplicationContext.Settled}
    (hfit : Fitting translate model context.input defaults)
    (hnodes : defaultNodes context.config = leaves defaults) (hnodup : (defaults.map (·.1)).Nodup)
    (hdots : ∀ d ∈ defaults, (46 : UInt8) ∉ d.1) : Starts translate model defaults (startInputs translate context) := by
  refine ⟨_, by rw [startInputs, defineInputs_eq hfit hnodes hdots]; rfl, fun d hd => ?_⟩
  obtain ⟨x, hx⟩ := Option.isSome_iff_exists.mp (hfit.converts d hd)
  have hmem := mem_initialInputs hfit hnodup hd hx
  exact ⟨x, hx, (hmem _).mpr rfl, fun value => (hmem value).mp⟩

end EventPredictor

namespace OneStepEventPredictor

theorem setDefaultValues_eq (config : Ptree) :
    setDefaultValues translate model config =
      (defaultNodes config).mapM fun entry => setDefaultValue translate model config entry.1 := by
  rw [setDefaultValues, defaultNodes]
  cases config.getChildOptional propDefaultInput <;> rfl

/-- Only a variable that a node is named after is set. -/
theorem setDefaultValue_name {config : Ptree} {varName : StdString} {entry : StdString × Value}
    (h : setDefaultValue translate model config varName = .ok entry) : entry.1 = varName := by
  rw [setDefaultValue] at h
  split at h
  · cases h
  · obtain ⟨value, -, h⟩ := Fallible.bind_eq_ok.mp h
    split at h
    · cases h
      rfl
    · obtain ⟨data, -, h⟩ := Fallible.bind_eq_ok.mp h
      cases h

theorem mem_nodes_of_set {config : Ptree} {set : List (StdString × Value)}
    (h : setDefaultValues translate model config = .ok set) {entry : StdString × Value} (hentry : entry ∈ set) :
    entry.1 ∈ (defaultNodes config).map (·.1) := by
  rw [setDefaultValues_eq] at h
  obtain ⟨node, hnode, hset⟩ := Fallible.mem_of_mapM_eq_ok h hentry
  rw [setDefaultValue_name hset]
  exact List.mem_map_of_mem hnode

theorem setDefaultValue_eq {config : Ptree} {mapping : ChannelMapping} (hfit : Fitting translate model mapping defaults)
    (hnodes : defaultNodes config = leaves defaults) (hnodup : (defaults.map (·.1)).Nodup)
    (hdots : ∀ d ∈ defaults, (46 : UInt8) ∉ d.1) {d : StdString × StdString} (hd : d ∈ defaults)
    {x : Carrier (model.getType d.1)} (hx : translate (model.getType d.1) d.2 = some x) :
    setDefaultValue translate model config d.1 = .ok (d.1, .of (model.getType d.1) x) := by
  obtain ⟨type, hname⟩ := hfit.configured d hd
  obtain ⟨rfl, hknown⟩ := hfit.declared type d.1 hname
  have hunknown : model.getType d.1 ≠ .fmiTypeUnknown := fun heq => absurd (heq ▸ hknown) (by decide)
  have hquery := getProperty_default (translate (model.getType d.1)) hnodes hdots (lookup_default hnodup hd) hx
  simp only [setDefaultValue, if_neg hunknown, hquery, liftArgument, Except.mapError, bind, Except.bind,
    hfit.settable _ d.1 hname x, if_true]
  rfl

/-- The entry that is made for a default value. -/
def defaultEntry (translate : Translator) (model : ModelVariables) (d : StdString × StdString) : StdString × Value :=
  (d.1, ((translate (model.getType d.1) d.2).map (Value.of (model.getType d.1))).getD .empty)

/-- Every default value is set, in the order of the configuration. -/
theorem setDefaultValues_starts {config : Ptree} {mapping : ChannelMapping}
    (hfit : Fitting translate model mapping defaults)
    (hnodes : defaultNodes config = leaves defaults) (hnodup : (defaults.map (·.1)).Nodup)
    (hdots : ∀ d ∈ defaults, (46 : UInt8) ∉ d.1) :
    Starts translate model defaults (setDefaultValues translate model config) := by
  have hentry {d : StdString × StdString} (hd : d ∈ defaults) :
      setDefaultValue translate model config d.1 = .ok (defaultEntry translate model d) := by
    obtain ⟨x, hx⟩ := Option.isSome_iff_exists.mp (hfit.converts d hd)
    rw [setDefaultValue_eq hfit hnodes hnodup hdots hd hx, defaultEntry, hx]
    rfl
  refine ⟨defaults.map (defaultEntry translate model), ?_, fun d hd => ?_⟩
  · rw [setDefaultValues_eq, hnodes, Fallible.mapM_eq_ok, leaves, List.forall₂_map_left_iff,
      List.forall₂_map_right_iff, List.forall₂_same]
    exact fun d hd => hentry hd
  · obtain ⟨x, hx⟩ := Option.isSome_iff_exists.mp (hfit.converts d hd)
    have hvalue : defaultEntry translate model d = (d.1, .of (model.getType d.1) x) := by rw [defaultEntry, hx]; rfl
    refine ⟨x, hx, List.mem_map.mpr ⟨d, hd, hvalue⟩, fun value hmem => ?_⟩
    obtain ⟨other, hother, heq⟩ := List.mem_map.mp hmem
    have hname : other.1 = d.1 := by simpa [defaultEntry] using congrArg Prod.fst heq
    have hsame : other = d := List.inj_on_of_nodup_map hnodup hother hd hname
    rw [hsame, hvalue] at heq
    exact (congrArg Prod.snd heq).symm

end OneStepEventPredictor

/-- Both predictors start with the configured values exactly if no default value is given for a
name with a dot. The values are given on the command line in any order, among other properties. -/
theorem default_inputs_alike_iff_no_dots (translate : Translator) (model : ModelVariables) (base : Ptree)
    (hbase : hasProperty base propDefaultInput = false) (options : List (StdString × StdString))
    (context : ApplicationContext.Settled) (hconfig : addProperties base options = .ok context.config)
    (hfit : Fitting translate model context.input (defaultInputs options)) :
    (Starts translate model (defaultInputs options) (EventPredictor.startInputs translate context) ∧
      Starts translate model (defaultInputs options)
        (OneStepEventPredictor.setDefaultValues translate model context.config)) ↔
      ∀ d ∈ defaultInputs options, (46 : UInt8) ∉ d.1 := by
  have hempty : defaultNodes base = [] := by
    rw [hasProperty, Option.isSome_eq_false_iff, Option.isNone_iff_eq_none] at hbase
    rw [defaultNodes, hbase]
    rfl
  constructor
  · rintro ⟨-, set, hset, hstarts⟩ d hd
    obtain ⟨x, -, hmem, -⟩ := hstarts d hd
    obtain ⟨node, hnode, hname⟩ := List.mem_map.mp (OneStepEventPredictor.mem_nodes_of_set hset hmem)
    rw [← hname]
    exact addProperties_parts hempty hconfig node hnode
  · intro hdots
    obtain ⟨hnodes, hnodup⟩ := addProperties_leaves hempty hconfig hdots
    exact ⟨EventPredictor.startInputs_starts hfit hnodes hnodup hdots,
      OneStepEventPredictor.setDefaultValues_starts hfit hnodes hnodup hdots⟩

/-- The conversions of small texts. -/
def shortTexts : Translator
  | .fmiTypeReal, text => if text = ascii "1" then some 0x3FF0000000000000#64 else none
  | .fmiTypeInteger, text => (Ptree.parseInt text).map (BitVec.ofInt 32)
  | .fmiTypeBoolean, text => if text.length = 1 then text.head? else none
  | .fmiTypeString, text => some text
  | .fmiTypeUnknown, _ => none

/-- A model with one real variable. -/
def oneVariable (name : StdString) : ModelVariables where
  getType other := if other = name then .fmiTypeReal else .fmiTypeUnknown
  setValue _ _ := true

/-- The input is mapped to one port and gets the default value 1. -/
def oneInput (name : StdString) : List (StdString × StdString) :=
  [(ascii "in.0.0", name), (ascii "in.0.0.type", ascii "0"), (defaultInputKey name, ascii "1")]

def plainConfig : Ptree := (addProperties (.node [] []) (oneInput (ascii "u"))).toOption.get (by decide +kernel)

theorem plainConfig_eq : addProperties (.node [] []) (oneInput (ascii "u")) = .ok plainConfig := Fallible.eq_ok_get _

def plainContext : ApplicationContext.Settled :=
  .ofConfig plainConfig [.input, .output] (by decide +kernel) (by decide +kernel)

theorem plainContext_fitting :
    Fitting shortTexts (oneVariable (ascii "u")) plainContext.input (defaultInputs (oneInput (ascii "u"))) := by
  have hnames : ∀ type, ∀ name ∈ plainContext.input.getVariableNames type, name = ascii "u" ∧ type = .fmiTypeReal := by
    intro type
    cases type <;> decide +kernel
  have hdefaults : defaultInputs (oneInput (ascii "u")) = [(ascii "u", ascii "1")] := by decide +kernel
  refine ⟨fun type name hname => ?_, fun _ _ _ _ => rfl, fun d hd => ?_, fun d hd => ?_⟩
  · obtain ⟨rfl, rfl⟩ := hnames type name hname
    decide
  · rw [hdefaults, List.mem_singleton] at hd
    rw [hd]
    exact ⟨.fmiTypeReal, by decide +kernel⟩
  · rw [hdefaults, List.mem_singleton] at hd
    rw [hd]
    decide

theorem default_inputs_alike_plain :
    Starts shortTexts (oneVariable (ascii "u")) (defaultInputs (oneInput (ascii "u")))
        (EventPredictor.startInputs shortTexts plainContext) ∧
      Starts shortTexts (oneVariable (ascii "u")) (defaultInputs (oneInput (ascii "u")))
        (OneStepEventPredictor.setDefaultValues shortTexts (oneVariable (ascii "u")) plainContext.config) :=
  (default_inputs_alike_iff_no_dots shortTexts (oneVariable (ascii "u")) (.node [] []) rfl (oneInput (ascii "u"))
    plainContext plainConfig_eq plainContext_fitting).mpr (by decide +kernel)

def nestedConfig : Ptree := (addProperties (.node [] []) (oneInput (ascii "a.b"))).toOption.get (by decide +kernel)

def nestedContext : ApplicationContext.Settled :=
  .ofConfig nestedConfig [.input, .output] (by decide +kernel) (by decide +kernel)

/-- The input `a.b` starts with its default value in the multistep mode, and the single step mode
refuses it because there is no variable `a`. -/
theorem nested_default_input_refused :
    nestedContext.input.getVariableNames .fmiTypeReal = [ascii "a.b"] ∧
      defaultInputs (oneInput (ascii "a.b")) = [(ascii "a.b", ascii "1")] ∧
      (EventPredictor.startInputs shortTexts nestedContext).toOption =
        some [(ascii "a.b", .real 0x3FF0000000000000#64)] ∧
      ¬Starts shortTexts (oneVariable (ascii "a.b")) (defaultInputs (oneInput (ascii "a.b")))
        (OneStepEventPredictor.setDefaultValues shortTexts (oneVariable (ascii "a.b")) nestedContext.config) := by
  refine ⟨by decide +kernel, by decide +kernel, by decide +kernel, ?_⟩
  rintro ⟨set, hset, -⟩
  have hrefused : (OneStepEventPredictor.setDefaultValues shortTexts (oneVariable (ascii "a.b"))
      nestedContext.config).toOption = none := by decide +kernel
  rw [hset] at hrefused
  cases hrefused

end FMITerminalBlock.Model
