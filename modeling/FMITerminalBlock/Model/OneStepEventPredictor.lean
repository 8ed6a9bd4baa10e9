import FMITerminalBlock.Base.ApplicationContext
import FMITerminalBlock.Timing.Variable
import Mathlib.Data.List.Forall2

/-! The predictor of the delayed single step mode: the model makes one step to the next
synchronization point and the event built there is offered until it is delivered. -/
namespace FMITerminalBlock.Model
open Base Timing

/-- A model exchange FMU as FMI++ offers it, with an arbitrary behaviour on an arbitrary state.
An undefined value reference, a time that is no number and every status but `fmiOK` are `none`
or `false`; `getValue` fills an array. -/
structure FMUModelExchange (σ : Type) where
  getValueRef : StdString → Option Nat
  getTime : σ → ℚ
  getLastStatus : σ → Bool
  integrate : σ → ℚ → ℚ → Option ℚ × σ
  handleEvents : σ → σ
  getValue : σ → (type : FMIVariableType) → List Nat → Option (Nat → Carrier type) × σ
  setValue : σ → Nat → Value → Bool × σ

/-- What ends a run: a solver exception with the format of its text and its time, an assertion on
the validity of a variable, or an integration that needs more than the given number of steps. -/
inductive Fault where
  | solver (what : String) (time : ℚ)
  | invalidVariable
  | endlessIntegration
  deriving DecidableEq

/-- The checked simulation properties. -/
structure SimulationProperties where
  lookAheadStepSize : ℚ
  integratorStepSize : ℚ
  variableStepSizeOnModelEvent : Bool
  integrator_pos : 0 < integratorStepSize
  integrator_le : integratorStepSize ≤ lookAheadStepSize

def SimulationProperties.timingPrecision (_ : SimulationProperties) : ℚ := 1 / 10000

/-- The fields that `init` sets for good. -/
structure OneStepConfiguration where
  outputMapping : ChannelMapping
  outputValueReference : FMIVariableType → List Nat
  inputValueReference : List (PortID × Nat)
  simulationProperties : SimulationProperties

/-- The fields that change in a run. The events of all synchronization points computed so far are
kept to speak about their delivery. -/
structure OneStepEventPredictor (σ : Type) where
  fmu : σ
  outputImage : (type : FMIVariableType) → List (Carrier type)
  currentPrediction : Option StaticEvent := none
  synchronizationPoints : List StaticEvent := []

namespace OneStepEventPredictor
variable {σ : Type} (M : FMUModelExchange σ)

def initOutputValueReferences (mapping : ChannelMapping) (type : FMIVariableType) :
    Except SystemConfigurationException (List Nat) :=
  (mapping.getVariableNames type).mapM fun name =>
    match M.getValueRef name with
    | some ref => .ok ref
    | none => .error { what := "The output variable %1% is undefined." }

def initOutputStructures (mapping : ChannelMapping) :
    Except SystemConfigurationException (FMIVariableType → List Nat) := do
  let real ← initOutputValueReferences M mapping .fmiTypeReal
  let integer ← initOutputValueReferences M mapping .fmiTypeInteger
  let boolean ← initOutputValueReferences M mapping .fmiTypeBoolean
  let string ← initOutputValueReferences M mapping .fmiTypeString
  if (mapping.getVariableNames .fmiTypeUnknown).length > 0 then
    throw { what := "An output variable (%1%) of unknown type was defined" }
  return fun
    | .fmiTypeReal => real
    | .fmiTypeInteger => integer
    | .fmiTypeBoolean => boolean
    | .fmiTypeString => string
    | .fmiTypeUnknown => []

/-- The body of the loop in `initInputValueReference`; a later entry replaces an earlier one of
the same identifier, so it goes to the front. -/
def addInputValueReference (references : List (PortID × Nat)) (port : StdString × PortID) :
    Except SystemConfigurationException (List (PortID × Nat)) :=
  match M.getValueRef port.1 with
  | some ref => .ok ((port.2, ref) :: references)
  | none => .error { what := "Undefined input variable: %1%" }

def initInputValueReference (mapping : ChannelMapping) :
    Except SystemConfigurationException (List (PortID × Nat)) :=
  (mapping.getAllVariableNames.zip mapping.getAllVariableIDs).foldlM (addInputValueReference M) []

/-- The first part of `init`. -/
def configure (context : ApplicationContext.Settled) (properties : SimulationProperties) :
    Except SystemConfigurationException OneStepConfiguration := do
  let outputs ← initOutputStructures M context.output
  let inputs ← initInputValueReference M context.input
  return {
    outputMapping := context.output
    outputValueReference := outputs
    inputValueReference := inputs
    simulationProperties := properties }

variable (c : OneStepConfiguration)

/-- The loop of `predictOneStep`. An FMU that does not advance keeps it running, hence the bound
on the number of turns. -/
def integrateTo (nextCompleteStep : ℚ) : Nat → σ → Except Fault σ
  | 0, _ => .error .endlessIntegration
  | turns + 1, s =>
    match M.integrate s nextCompleteStep c.simulationProperties.integratorStepSize with
    | (nextTime, s) =>
      if nextTime.isNone || !M.getLastStatus s then
        .error (.solver "Could not integrate FMU to %1% (%2%, %3%)" (M.getTime s))
      else if !c.simulationProperties.variableStepSizeOnModelEvent ∧
          M.getTime s < nextCompleteStep - c.simulationProperties.timingPrecision then
        integrateTo nextCompleteStep turns s
      else .ok s

def predictOneStep (turns : Nat) (p : OneStepEventPredictor σ) : Except Fault (OneStepEventPredictor σ) :=
  (integrateTo M c (M.getTime p.fmu + c.simulationProperties.lookAheadStepSize) turns p.fmu).map
    fun s => { p with fmu := s }

/-- The template for one type: nothing is fetched for an empty image. -/
def updateOutputImageOf (type : FMIVariableType) (p : OneStepEventPredictor σ) :
    Except Fault (Bool × OneStepEventPredictor σ) :=
  if (p.outputImage type).isEmpty then .ok (false, p)
  else match M.getValue p.fmu type (c.outputValueReference type) with
    | (none, s) => .error (.solver "Could not fetch the outputs of the model (%1%)" (M.getTime s))
    | (some val, s) =>
      let fetched := (List.range (c.outputValueReference type).length).map val
      .ok ((List.zipWith (differs type) (p.outputImage type) fetched).any id,
        { p with fmu := s, outputImage := Function.update p.outputImage type fetched })

def updateOutputImage (p : OneStepEventPredictor σ) : Except Fault (Bool × OneStepEventPredictor σ) :=
  FMIVariableType.known.foldlM (fun (changed, p) type =>
    (updateOutputImageOf M c type p).map fun (more, p) => (changed || more, p)) (false, p)

def getOutputEvent (p : OneStepEventPredictor σ) : StaticEvent :=
  { time := M.getTime p.fmu
    vars := FMIVariableType.known.flatMap fun type =>
      List.zipWith (fun id value => ⟨id, .of type value⟩) (c.outputMapping.getVariableIDs type)
        (p.outputImage type) }

def predictNext (turns : Nat) (p : OneStepEventPredictor σ) :
    Except Fault (StaticEvent × OneStepEventPredictor σ) :=
  match p.currentPrediction with
  | some ev => .ok (ev, p)
  | none => do
    let p ← predictOneStep M c turns p
    let (valuesChanged, p) ← updateOutputImage M c p
    -- An empty event stands for a step that changed nothing significantly.
    let ev : StaticEvent := if valuesChanged then getOutputEvent M c p else ⟨M.getTime p.fmu, []⟩
    return (ev, { p with
      currentPrediction := some ev
      synchronizationPoints := p.synchronizationPoints ++ [ev] })

def updateInputVariable (s : σ) (v : Variable) : Except Fault (Bool × σ) :=
  if !v.isValid then .error .invalidVariable
  else match c.inputValueReference.lookup v.id with
    | none => .ok (false, s)
    | some ref =>
      match M.setValue s ref v.value with
      | (true, s) => .ok (true, s)
      | (false, s) => .error (.solver "Unable to set input value %1% (%2%)" (M.getTime s))

def updateInputVariables : List Variable → σ → Except Fault (Bool × σ)
  | [], s => .ok (false, s)
  | v :: vars, s => do
    let (first, s) ← updateInputVariable M c s v
    let (rest, s) ← updateInputVariables vars s
    return (first || rest, s)

def eventTriggered (p : OneStepEventPredictor σ) (ev : StaticEvent) :
    Except Fault (OneStepEventPredictor σ) := do
  let (updated, s) ← updateInputVariables M c ev.vars p.fmu
  if updated then return { p with fmu := M.handleEvents s }
  else return { p with fmu := s, currentPrediction := none }

/-- The state after `init`, given the state of the initialized model. -/
def start (s : σ) : Except Fault (OneStepEventPredictor σ) :=
  (updateOutputImage M c {
    fmu := s
    outputImage := fun
      | .fmiTypeReal => (c.outputMapping.getVariableIDs .fmiTypeReal).map fun _ => 0
      | .fmiTypeInteger => (c.outputMapping.getVariableIDs .fmiTypeInteger).map fun _ => 0
      | .fmiTypeBoolean => (c.outputMapping.getVariableIDs .fmiTypeBoolean).map fun _ => fmiFalse
      | .fmiTypeString => (c.outputMapping.getVariableIDs .fmiTypeString).map fun _ => []
      | .fmiTypeUnknown => [] }).map (·.2)

end OneStepEventPredictor
end FMITerminalBlock.Model
