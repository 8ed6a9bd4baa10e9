import FMITerminalBlock.Timing.EventDispatcher
import FMITerminalBlock.Timing.Variable
import Mathlib.Algebra.Order.AbsoluteValue.Basic

/-! The predictor of the multistep mode. Its predictions are lazy: the state of the model is
settled when the variables of a delivered prediction are read for the first time. -/
namespace FMITerminalBlock.Model
open Base Timing

/-- The incremental FMU of FMI++ with an arbitrary behaviour on an arbitrary state. An invalid
time is `none`, and so is an output array that is a null pointer. -/
structure IncrementalFMU (σ : Type) where
  getTimeDiffResolution : ℚ
  predictState : σ → ℚ → Option ℚ × σ
  updateState : σ → ℚ → ℚ × σ
  updateStateFromTheRight : σ → ℚ → ℚ × σ
  syncState : σ → ℚ → ((type : FMIVariableType) → List (Carrier type)) → σ
  getOutputs : σ → (type : FMIVariableType) → Option (Nat → Carrier type)

/-- The assertions of `getOutputVariables` in the order of the source. -/
inductive OutputAssertion where
  | nonNegativeTime | currentEvent | notOutdated | timeForwarded | emptyVariables
  deriving DecidableEq

/-- What ends a run: a solver exception with its text and time, or a failed assertion. -/
inductive PredictorFault where
  | solver (what : String) (time : ℚ)
  | getOutputVariables (assertion : OutputAssertion)
  | updatedTime
  | missingOutputs
  | invalidVariable
  deriving DecidableEq

/-- The events of this mode. A lazy event refers to the predictor. -/
inductive PredictorEvent where
  | lazyEvent (time : ℚ)
  | staticEvent (ev : StaticEvent)
  deriving DecidableEq

def PredictorEvent.time : PredictorEvent → ℚ
  | .lazyEvent time => time
  | .staticEvent ev => ev.time

instance : Timed PredictorEvent := ⟨PredictorEvent.time⟩

/-- The configuration after `init`, which refuses variables of unknown type. -/
structure PredictorConfiguration where
  context : ApplicationContext.Settled
  assumeDirectDependency : Bool
  known_outputs : context.output.getVariableNames .fmiTypeUnknown = []
  known_inputs : context.input.getVariableNames .fmiTypeUnknown = []

namespace PredictorConfiguration

def outputIDs (c : PredictorConfiguration) (type : FMIVariableType) : List PortID :=
  c.context.output.getVariableIDs type

def inputIDs (c : PredictorConfiguration) (type : FMIVariableType) : List PortID :=
  c.context.input.getVariableIDs type

end PredictorConfiguration

/-- The fields that change in a run. The times passed to `updateState` and the variable lists that
the listeners of the last event have read are kept to speak about them. -/
structure EventPredictor (σ : Type) where
  solver : σ
  currentTime : ℚ
  lastPredictedEventTime : ℚ
  directOutputPending : Bool := false
  outputEventVariables : List Variable := []
  outputEventVariablesPopulated : Bool := false
  inputImage : (type : FMIVariableType) → List (Carrier type)
  updateTimes : List ℚ := []
  reads : List (List Variable) := []

namespace EventPredictor
variable {σ : Type} (M : IncrementalFMU σ) (c : PredictorConfiguration)

/-- The state after `init`, given the state of the initialized solver and the default inputs. -/
def init (solver : σ) (start : ℚ) (inputImage : (type : FMIVariableType) → List (Carrier type)) :
    EventPredictor σ :=
  { solver := solver, currentTime := start, lastPredictedEventTime := start, inputImage := inputImage }

/-- The loop of `fetchOutputs` for one type. -/
def fetchOutputsOf (s : σ) (type : FMIVariableType) : Except PredictorFault (List Variable) :=
  match M.getOutputs s type with
  | some val => .ok ((c.outputIDs type).zipIdx.map fun (id, i) => ⟨id, .of type (val i)⟩)
  | none => if (c.outputIDs type).isEmpty then .ok [] else .error .missingOutputs

def fetchOutputs (s : σ) : Except PredictorFault (List Variable) :=
  FMIVariableType.known.foldlM (fun vars type => (fetchOutputsOf M c s type).map (vars ++ ·)) []

def assertThat (holds : Bool) (a : OutputAssertion) : Except PredictorFault Unit :=
  if holds then .ok () else .error (.getOutputVariables a)

def getOutputVariables (p : EventPredictor σ) (time : ℚ) :
    Except PredictorFault (List Variable × EventPredictor σ) := do
  assertThat (0 ≤ time) .nonNegativeTime
  assertThat (|p.lastPredictedEventTime - time| < M.getTimeDiffResolution) .currentEvent
  assertThat (p.currentTime ≤ time + M.getTimeDiffResolution) .notOutdated
  assertThat (!p.outputEventVariablesPopulated || p.currentTime = p.lastPredictedEventTime) .timeForwarded
  -- Set the same time, they are nearly equal anyway.
  let time := p.lastPredictedEventTime
  if p.outputEventVariablesPopulated then return (p.outputEventVariables, p)
  else
    assertThat p.outputEventVariables.isEmpty .emptyVariables
    let (updTime, s) := M.updateStateFromTheRight p.solver time
    if |updTime - time| > 2 * M.getTimeDiffResolution then
      throw (.solver "Can't update the model's state" time)
    else
      let vars ← fetchOutputs M c s
      return (vars, { p with
        solver := s
        currentTime := time
        outputEventVariables := vars
        outputEventVariablesPopulated := true })

/-- `getVariables` of both kinds of events. -/
def getVariables (p : EventPredictor σ) :
    PredictorEvent → Except PredictorFault (List Variable × EventPredictor σ)
  | .staticEvent ev => .ok (ev.vars, p)
  | .lazyEvent time =>
    if p.currentTime > time + M.getTimeDiffResolution then
      .error (.solver "The event is outdated" time)
    else do
      let (vars, p) ← getOutputVariables M c p time
      if vars.all Variable.isValid then return (vars, p) else throw .invalidVariable

def predictNextFMIEvent (p : EventPredictor σ) :
    Except PredictorFault (PredictorEvent × EventPredictor σ) :=
  match M.predictState p.solver p.currentTime with
  | (none, _) => .error (.solver "Can't predict the next event." p.currentTime)
  | (some nextEventTime, s) => .ok (.lazyEvent nextEventTime, { p with
      solver := s
      outputEventVariables := []
      outputEventVariablesPopulated := false
      lastPredictedEventTime := nextEventTime })

def predictNextDirectDependency (p : EventPredictor σ) :
    Except PredictorFault (PredictorEvent × EventPredictor σ) :=
  (fetchOutputs M c p.solver).map fun outVars => (.staticEvent ⟨p.currentTime, outVars⟩, p)

def predictNext (p : EventPredictor σ) : Except PredictorFault (PredictorEvent × EventPredictor σ) :=
  (if !(c.assumeDirectDependency && p.directOutputPending) then predictNextFMIEvent M p
    else predictNextDirectDependency M c p).map fun (ev, p) => (ev, { p with directOutputPending := false })

/-- The inner loop of `updateInputImage`: one variable against all ports of a type. -/
def updateInput (type : FMIVariableType) (v : Variable) :
    Nat → List PortID → Bool × List (Carrier type) → Except PredictorFault (Bool × List (Carrier type))
  | _, [], r => .ok r
  | i, port :: ports, (found, image) =>
    if v.id = port then
      match v.value.anyCast type with
      | some value => updateInput type v (i + 1) ports (true, image.set i value)
      | none => .error .invalidVariable
    else updateInput type v (i + 1) ports (found, image)

def updateInputImageOf (ev : PredictorEvent) (p : EventPredictor σ) (type : FMIVariableType) :
    Except PredictorFault (Bool × EventPredictor σ) := do
  let (vars, p) ← getVariables M c p ev
  let (found, image) ← vars.foldlM (fun r v => updateInput type v 0 (c.inputIDs type) r)
    (false, p.inputImage type)
  return (found, { p with
    inputImage := Function.update p.inputImage type image
    reads := p.reads ++ [vars] })

def updateInputImage (p : EventPredictor σ) (ev : PredictorEvent) :
    Except PredictorFault (Bool × EventPredictor σ) :=
  FMIVariableType.known.foldlM (fun (found, p) type =>
    (updateInputImageOf M c ev p type).map fun (more, p) => (found || more, p)) (false, p)

/-- The time at which an external event is applied: late events are moved to the current time, and
so are those that are as good as concurrent. -/
def alignTime (p : EventPredictor σ) (eventTime : ℚ) : ℚ :=
  let eventTime := if p.currentTime - M.getTimeDiffResolution > eventTime then p.currentTime else eventTime
  if p.currentTime - M.getTimeDiffResolution ≤ eventTime ∧
      p.currentTime + M.getTimeDiffResolution ≥ eventTime then p.currentTime
  else eventTime

def eventTriggered (p : EventPredictor σ) (ev : PredictorEvent) :
    Except PredictorFault (EventPredictor σ) := do
  let (imageUpdated, p) ← updateInputImage M c p ev
  if imageUpdated then
    let eventTime := alignTime M p ev.time
    let (updTime, s) := M.updateState p.solver eventTime
    if updTime = eventTime then
      return { p with
        solver := M.syncState s eventTime p.inputImage
        currentTime := eventTime
        outputEventVariables := []
        outputEventVariablesPopulated := false
        lastPredictedEventTime := eventTime
        directOutputPending := true
        updateTimes := p.updateTimes ++ [eventTime] }
    else throw .updatedTime
  else return p

/-- The listeners registered after the predictor read the variables one after another. -/
def readAll (ev : PredictorEvent) : Nat → EventPredictor σ → Except PredictorFault (EventPredictor σ)
  | 0, p => .ok p
  | n + 1, p => do
    let (vars, p) ← getVariables M c p ev
    readAll ev n { p with reads := p.reads ++ [vars] }

/-- The distribution of an event to the predictor and to the given number of readers. -/
def distribute (readers : Nat) (p : EventPredictor σ) (ev : PredictorEvent) :
    Except PredictorFault (EventPredictor σ) := do
  let p ← eventTriggered M c { p with reads := [] } ev
  readAll M c ev readers p

def simulation (readers : Nat) : Simulation (EventPredictor σ) StaticEvent PredictorEvent PredictorFault where
  predictNext := predictNext M c
  distribute := distribute M c readers
  external := .staticEvent

end EventPredictor
end FMITerminalBlock.Model
