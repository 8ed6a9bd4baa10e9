import FMITerminalBlock.Model.SynchronizationPoints
import FMITerminalBlock.Timing.SourceOrder

/-! What the model sees on its inputs in the single step mode: at any time the values that were
delivered last, however many points it has passed since. -/
namespace FMITerminalBlock.Model
open Base Timing

namespace OneStepEventPredictor
variable {σ : Type} {M : FMUModelExchange σ} {c : OneStepConfiguration} {input : σ → FMIVariableType × Nat → Option Value}

/-! ### Inputs of the model -/

/-- The model holds its inputs: they are set one by one, and nothing else changes them. An input is
found by its type and its value reference. -/
structure HoldsInputs (M : FMUModelExchange σ) (input : σ → FMIVariableType × Nat → Option Value) : Prop where
  setValue : ∀ s ref type (x : Carrier type), (M.setValue s ref (.of type x)).1 = true →
    input (M.setValue s ref (.of type x)).2 = Function.update (input s) (type, ref) (some (.of type x))
  integrate : ∀ s target step, input (M.integrate s target step).2 = input s
  handleEvents : ∀ s, input (M.handleEvents s) = input s
  getValue : ∀ s type refs, input (M.getValue s type refs).2 = input s

/-- The input that the variables of a port are written to. -/
def slot (c : OneStepConfiguration) (id : PortID) : Option (FMIVariableType × Nat) :=
  (c.inputValueReference.lookup id).map (id.1, ·)

/-- Writes a variable to its input. A variable without an input is skipped. -/
def write (c : OneStepConfiguration) (inputs : FMIVariableType × Nat → Option Value) (v : Variable) :
    FMIVariableType × Nat → Option Value :=
  match slot c v.id with
  | none => inputs
  | some slot => Function.update inputs slot (some v.value)

/-- The variables of some entries in their order. -/
def allVariables (entries : List (EventPtr StaticEvent × Bool)) : List Variable :=
  entries.flatMap fun entry => entry.1.event.vars

/-- The value of the last variable that is written to an input. -/
def lastWritten (c : OneStepConfiguration) (target : FMIVariableType × Nat) (vars : List Variable) : Option Value :=
  (vars.reverse.find? fun v => decide (slot c v.id = some target)).map Variable.value

theorem foldl_write (inputs : FMIVariableType × Nat → Option Value) (vars : List Variable)
    (target : FMIVariableType × Nat) :
    vars.foldl (write c) inputs target = (lastWritten c target vars).or (inputs target) := by
  induction vars using List.reverseRecOn with
  | nil => rfl
  | append_singleton vars v ih =>
    rw [List.foldl_append, List.foldl_cons, List.foldl_nil, lastWritten, List.reverse_append, List.reverse_singleton,
      List.singleton_append, write]
    by_cases hv : slot c v.id = some target
    · rw [List.find?_cons_of_pos (by simpa using hv), hv]
      exact Function.update_self ..
    · rw [List.find?_cons_of_neg (by simpa using hv), ← lastWritten, ← ih]
      cases hslot : slot c v.id with
      | none => rfl
      | some other =>
        refine Function.update_of_ne ?_ ..
        rintro rfl
        exact hv hslot

theorem lastWritten_append (target : FMIVariableType × Nat) (vars more : List Variable) :
    lastWritten c target (vars ++ more) = (lastWritten c target more).or (lastWritten c target vars) := by
  rw [lastWritten, List.reverse_append, List.find?_append, Option.map_or]
  rfl

/-- Entries that do not write to an input may be left out. -/
theorem lastWritten_filter (entries : List (EventPtr StaticEvent × Bool)) (p : EventPtr StaticEvent × Bool → Bool)
    {target : FMIVariableType × Nat}
    (h : ∀ entry ∈ entries, ¬p entry → ∀ v ∈ entry.1.event.vars, slot c v.id ≠ some target) :
    lastWritten c target (allVariables (entries.filter p)) = lastWritten c target (allVariables entries) := by
  induction entries with
  | nil => rfl
  | cons entry entries ih =>
    have hrest := ih fun entry hentry => h entry (List.mem_cons_of_mem _ hentry)
    simp only [allVariables] at hrest ⊢
    rw [List.flatMap_cons, lastWritten_append, ← hrest, List.filter_cons]
    split
    · rw [List.flatMap_cons, lastWritten_append]
    · rename_i hp
      have hnone : lastWritten c target entry.1.event.vars = none := by
        refine Option.map_eq_none_iff.mpr (List.find?_eq_none.mpr fun v hv => ?_)
        simpa using h entry List.mem_cons_self hp v (List.mem_reverse.mp hv)
      rw [hnone, Option.or_none]

/-! ### Single calls -/

theorem updateInputVariable_inputs (hM : HoldsInputs M input) {s : σ} {v : Variable} {r : Bool × σ}
    (h : updateInputVariable M c s v = .ok r) : input r.2 = write c (input s) v := by
  unfold updateInputVariable at h
  split at h
  · cases h
  · rename_i hvalid
    obtain ⟨x, hx⟩ : ∃ x, v.value.anyCast v.id.1 = some x := by
      apply Option.ne_none_iff_exists'.mp
      simpa [Variable.isValid] using hvalid
    have hvalue := Value.anyCast_eq_some.mp hx
    rw [write, slot]
    split at h
    · rename_i hnone
      cases h
      rw [hnone]
      rfl
    · rename_i ref hsome
      rw [hsome]
      split at h
      · rename_i s' hset
        cases h
        have hheld := hM.setValue s ref v.id.1 x
        rw [← hvalue, hset] at hheld
        exact hheld rfl
      · cases h

theorem updateInputVariables_inputs (hM : HoldsInputs M input) {vars : List Variable} {s : σ} {r : Bool × σ}
    (h : updateInputVariables M c vars s = .ok r) : input r.2 = vars.foldl (write c) (input s) := by
  induction vars generalizing s r with
  | nil =>
    cases h
    rfl
  | cons v vars ih =>
    obtain ⟨⟨first, s₁⟩, h₁, h⟩ := Fallible.bind_eq_ok.mp h
    obtain ⟨⟨rest, s₂⟩, h₂, h⟩ := Fallible.bind_eq_ok.mp h
    cases h
    have hrest := ih h₂
    rw [updateInputVariable_inputs hM h₁] at hrest
    exact hrest

theorem eventTriggered_inputs (hM : HoldsInputs M input) {p p' : OneStepEventPredictor σ} {ev : StaticEvent}
    (h : eventTriggered M c p ev = .ok p') : input p'.fmu = ev.vars.foldl (write c) (input p.fmu) := by
  obtain ⟨⟨updated, s⟩, hupdated, h⟩ := Fallible.bind_eq_ok.mp h
  have hinputs := updateInputVariables_inputs hM hupdated
  dsimp only at h
  split at h
  · cases h
    exact (hM.handleEvents s).trans hinputs
  · cases h
    exact hinputs

theorem integrateTo_inputs (hM : HoldsInputs M input) {target : ℚ} {turns : Nat} {s s' : σ}
    (h : integrateTo M c target turns s = .ok s') : input s' = input s := by
  induction turns generalizing s with
  | zero => cases h
  | succ turns ih =>
    have hstep := hM.integrate s target c.simulationProperties.integratorStepSize
    simp only [integrateTo] at h
    split at h
    · cases h
    · split at h
      · exact (ih h).trans hstep
      · cases h
        exact hstep

theorem updateOutputImage_inputs (hM : HoldsInputs M input) {p : OneStepEventPredictor σ}
    {r : Bool × OneStepEventPredictor σ} (h : updateOutputImage M c p = .ok r) : input r.2.fmu = input p.fmu := by
  refine (Fallible.Outcome.foldlM (E := fun _ => True) (fun _ r => input r.2.fmu = input p.fmu) ?_ rfl).of_ok h
  intro _ r type hr _
  refine Fallible.Outcome.map (P := fun q => input q.2.fmu = input p.fmu) ?_ fun q hq => hq
  rw [updateOutputImageOf]
  split
  · exact .ok hr
  · have hheld := hM.getValue r.2.fmu type (c.outputValueReference type)
    split
    · exact .error trivial
    · rename_i val s hval
      rw [hval] at hheld
      exact .ok (hheld.trans hr)

theorem predictNext_inputs (hM : HoldsInputs M input) {turns : Nat} {p p' : OneStepEventPredictor σ} {ev : StaticEvent}
    (h : predictNext M c turns p = .ok (ev, p')) : input p'.fmu = input p.fmu := by
  unfold predictNext at h
  split at h
  · cases h
    rfl
  · obtain ⟨p₁, hstep, h⟩ := Fallible.bind_eq_ok.mp h
    obtain ⟨⟨changed, p₂⟩, hupdate, h⟩ := Fallible.bind_eq_ok.mp h
    cases h
    obtain ⟨s, hs, rfl⟩ := Fallible.map_eq_ok.mp hstep
    exact (updateOutputImage_inputs hM hupdate).trans (integrateTo_inputs hM hs)

/-! ### Runs -/

/-- The inputs are the initial ones, overwritten by everything delivered. A fault may leave an event
half written. -/
def InputsReplayed (c : OneStepConfiguration) (input : σ → FMIVariableType × Nat → Option Value) (initial : σ)
    (s : RunState σ) : Prop :=
  (∀ fault, s.phase ≠ .failed fault) → input s.predictor.fmu = (allVariables s.delivered).foldl (write c) (input initial)

theorem inputsReplayed_step (hM : HoldsInputs M input) {turns : Nat} {theEnd : ℚ} {initial : σ} {s t : RunState σ}
    {l : Label StaticEvent} (hs : InputsReplayed c input initial s)
    (h : EventDispatcher.Steps (simulation M c turns) theEnd s l t) : InputsReplayed c input initial t := by
  intro hrunning
  cases h with
  | pushExternal ev => exact hs hrunning
  | addExternal address ptr found => exact hs hrunning
  | predict ev predictor phase next =>
    rw [predictNext_inputs hM next]
    exact hs (by simp [phase])
  | predictFault fault phase next => exact absurd rfl (hrunning fault)
  | addPrediction p phase => exact hs (by simp [phase])
  | get now p entry rest phase front due => exact hs (by simp [phase])
  | beginDistribution p entry phase => exact hs (by simp [phase])
  | distribute p entry predictor phase done =>
    have hbefore := hs (by simp [phase])
    have hdelivered : allVariables (EventDispatcher.finish theEnd { s with predictor := predictor } entry).delivered =
        allVariables s.delivered ++ entry.1.event.vars := by
      simp [allVariables, EventDispatcher.finish]
    rw [hdelivered, List.foldl_append, ← hbefore]
    exact eventTriggered_inputs hM done
  | distributeFault p entry fault phase done => exact absurd rfl (hrunning fault)

theorem inputsReplayed_init (hM : HoldsInputs M input) {initial : σ} {p : OneStepEventPredictor σ}
    (hstart : start M c initial = .ok p) (now : Int) (startTime : ℚ) :
    InputsReplayed c input initial (EventDispatcher.init p now startTime) := by
  intro _
  obtain ⟨r, hr, rfl⟩ := Fallible.map_eq_ok.mp hstart
  exact updateOutputImage_inputs hM hr

/-- Predictions hold outputs only, those that are offered again as well. -/
structure PredictsOutputs (context : ApplicationContext.Settled) (s : RunState σ) : Prop where
  current : ∀ ev ∈ s.predictor.currentPrediction, OutputOnly context ev.vars
  predictions : ∀ ptr ∈ s.predictions, OutputOnly context ptr.event.vars

theorem predictsOutputs_step {context : ApplicationContext.Settled} (hc : Configured context c) {turns : Nat}
    {theEnd : ℚ} {s t : RunState σ} {l : Label StaticEvent} (hs : PredictsOutputs context s)
    (h : EventDispatcher.Steps (simulation M c turns) theEnd s l t) : PredictsOutputs context t := by
  cases h with
  | predict ev predictor phase next =>
    have hev : predictor.currentPrediction = some ev ∧ OutputOnly context ev.vars := by
      rcases predictNext_cases hc next with ⟨hcur, rfl⟩ | ⟨-, hcur, -, hout⟩
      · exact ⟨hcur, hs.current ev hcur⟩
      · exact ⟨hcur, hout⟩
    refine ⟨fun ev' hev' => ?_, fun ptr hptr => ?_⟩
    · rw [Option.mem_unique hev' hev.1]
      exact hev.2
    · rcases List.mem_append.mp hptr with hold | hnew
      · exact hs.predictions ptr hold
      · rw [List.mem_singleton.mp hnew]
        exact hev.2
  | distribute p entry predictor phase done =>
    obtain ⟨-, hkept, hrevoked⟩ := eventTriggered_spec hc done
    refine ⟨fun ev hev => ?_, hs.predictions⟩
    change ev ∈ predictor.currentPrediction at hev
    by_cases hcarries : entry.1.event.CarriesInput context
    · rw [hkept hcarries] at hev
      exact hs.current ev hev
    · rw [hrevoked hcarries] at hev
      cases hev
  | _ => exact ⟨hs.current, hs.predictions⟩

theorem predictsOutputs_init {context : ApplicationContext.Settled} {initial : σ} {p : OneStepEventPredictor σ}
    (hstart : start M c initial = .ok p) (now : Int) (startTime : ℚ) :
    PredictsOutputs context (EventDispatcher.init p now startTime) := by
  refine ⟨fun ev hev => ?_, fun ptr hptr => absurd hptr List.not_mem_nil⟩
  change ev ∈ p.currentPrediction at hev
  rw [(updateOutputImage_start hstart).1] at hev
  cases hev

/-- A delivered prediction writes no input. -/
theorem delivered_outputOnly {context : ApplicationContext.Settled} (hc : Configured context c) {turns : Nat}
    {theEnd : ℚ} {initial : σ} {p : OneStepEventPredictor σ} (hstart : start M c initial = .ok p) {now : Int}
    {startTime : ℚ} {labels : List (Label StaticEvent)} {s : RunState σ}
    (hrun : EventDispatcher.Reaches (simulation M c turns) theEnd (EventDispatcher.init p now startTime) labels s)
    {entry : EventPtr StaticEvent × Bool} (hentry : entry ∈ s.delivered) (hflag : entry.2 = true) :
    OutputOnly context entry.1.event.vars := by
  have hpredicts : PredictsOutputs context s :=
    hrun.invariant (predictsOutputs_init hstart now startTime) fun _ _ _ hs h => predictsOutputs_step hc hs h
  have hcreated := EventDispatcher.mem_created.mp (hrun.deliveredCreated entry hentry)
  rw [if_pos hflag] at hcreated
  exact hpredicts.predictions entry.1 hcreated

theorem slot_isSome {context : ApplicationContext.Settled} (hc : Configured context c) {id : PortID}
    {target : FMIVariableType × Nat} (h : slot c id = some target) : id ∈ context.input.getAllVariableIDs := by
  obtain ⟨ref, href, -⟩ := Option.map_eq_some_iff.mp h
  rw [← hc.input, href]
  rfl

/-- At every moment the inputs are what the delivered events that write to them have left. -/
theorem inputs_of_writers (hM : HoldsInputs M input) {context : ApplicationContext.Settled} (hc : Configured context c)
    {turns : Nat} {theEnd : ℚ} {initial : σ} {p : OneStepEventPredictor σ} (hstart : start M c initial = .ok p)
    {now : Int} {startTime : ℚ} {labels : List (Label StaticEvent)} {s : RunState σ}
    (hrun : EventDispatcher.Reaches (simulation M c turns) theEnd (EventDispatcher.init p now startTime) labels s)
    (hrunning : ∀ fault, s.phase ≠ .failed fault) (target : FMIVariableType × Nat) (writer : EventPtr StaticEvent → Bool)
    (hwriter : ∀ ptr ∈ s.externals, ¬writer ptr → ∀ v ∈ ptr.event.vars, slot c v.id ≠ some target) :
    input s.predictor.fmu target =
      (lastWritten c target (allVariables (s.delivered.filter fun entry => !entry.2 && writer entry.1))).or
        (input initial target) := by
  have hreplayed : InputsReplayed c input initial s :=
    hrun.invariant (inputsReplayed_init hM hstart now startTime) fun _ _ _ hs h => inputsReplayed_step hM hs h
  rw [hreplayed hrunning, foldl_write, lastWritten_filter]
  intro entry hentry hskipped
  cases hflag : entry.2 with
  | true =>
    intro v hv hslot
    have houtput := delivered_outputOnly hc hstart hrun hentry hflag
    exact houtput.not_mem_input hv (slot_isSome hc hslot)
  | false =>
    have hcreated := EventDispatcher.mem_created.mp (hrun.deliveredCreated entry hentry)
    simp only [hflag, Bool.false_eq_true, if_false] at hcreated
    exact hwriter entry.1 hcreated (by simpa [hflag] using hskipped)

/-- However the model advances and whatever is predicted, at every moment of every run each input of the
model holds the value that an external event wrote to it last, or its initial value if none has. -/
theorem inputs_hold_last_external_values (M : FMUModelExchange σ)
    (input : σ → FMIVariableType × Nat → Option Value) (hM : HoldsInputs M input)
    (context : ApplicationContext.Settled) (properties : SimulationProperties) (c : OneStepConfiguration)
    (hconfig : configure M context properties = .ok c) (s₀ : σ) (p : OneStepEventPredictor σ)
    (hstart : start M c s₀ = .ok p) (turns : Nat) (now : Int) (startTime theEnd : ℚ) (labels : List (Label StaticEvent))
    (s : RunState σ)
    (hrun : EventDispatcher.Reaches (simulation M c turns) theEnd (EventDispatcher.init p now startTime) labels s)
    (hrunning : ∀ fault, s.phase ≠ .failed fault) (target : FMIVariableType × Nat) :
    input s.predictor.fmu target =
      (lastWritten c target (allVariables (TimedEventQueue.externals s.delivered))).or (input s₀ target) := by
  have hinputs := inputs_of_writers hM (configure_configured hconfig) hstart hrun hrunning target
    (fun _ => true) (fun _ _ h => absurd rfl h)
  simp only [Bool.and_true] at hinputs
  exact hinputs

/-- A model that remembers the value of its only input and reads it as its output. -/
def latchModel : FMUModelExchange (ℚ × BitVec 64) where
  getValueRef _ := some 0
  getTime s := s.1
  getLastStatus _ := true
  integrate s target _ := (some target, target, s.2)
  handleEvents s := s
  getValue s
    | .fmiTypeReal, _ => (some fun _ => s.2, s)
    | .fmiTypeInteger, _ => (some fun _ => 0, s)
    | .fmiTypeBoolean, _ => (some fun _ => fmiFalse, s)
    | .fmiTypeString, _ => (some fun _ => [], s)
    | .fmiTypeUnknown, _ => (none, s)
  setValue s
    | 0, .real x => (true, s.1, x)
    | _, _ => (false, s)

def latchInput (s : ℚ × BitVec 64) (target : FMIVariableType × Nat) : Option Value :=
  if target = (.fmiTypeReal, 0) then some (.real s.2) else none

theorem latchModel_holdsInputs : HoldsInputs latchModel latchInput where
  setValue s ref type x hset := by
    funext target
    cases ref with
    | succ ref => cases hset
    | zero =>
      cases type with
      | fmiTypeReal =>
        by_cases htarget : target = (.fmiTypeReal, 0)
        · subst htarget
          rfl
        · simp [latchInput, htarget]
      | fmiTypeUnknown => exact nomatch x
      | _ => cases hset
  integrate s target step := rfl
  handleEvents s := rfl
  getValue s type refs := by cases type <;> rfl

def latchConfiguration : OneStepConfiguration :=
  (configure latchModel .feedThrough unitSteps).toOption.get (by decide +kernel)

theorem latchConfiguration_slot {id : PortID} {target : FMIVariableType × Nat}
    (h : slot latchConfiguration id = some target) : id = (.fmiTypeReal, 1) ∧ target = (.fmiTypeReal, 0) := by
  have hreferences : latchConfiguration.inputValueReference = [((.fmiTypeReal, 1), 0)] := by decide +kernel
  obtain ⟨ref, href, rfl⟩ := Option.map_eq_some_iff.mp h
  rw [hreferences, List.lookup_cons] at href
  split at href
  · rename_i hid
    cases href
    rw [eq_of_beq hid]
    exact ⟨rfl, rfl⟩
  · cases href

def latchPredictor : OneStepEventPredictor (ℚ × BitVec 64) :=
  (start latchModel latchConfiguration (0, 0)).toOption.get (by decide +kernel)

/-- The input becomes one at time 1/2, and the model advances to the points at 1 and 2. -/
def latchedRun : List (Label StaticEvent) :=
  [.predict, .addPrediction, .pushExternal ⟨1 / 2, [⟨(.fmiTypeReal, 1), .real 0x3ff0000000000000⟩]⟩, .addExternal 1,
    .get 600000, .beginDistribution, .distribute,
    .predict, .addPrediction, .get 1000000, .beginDistribution, .distribute, .predict]

theorem inputs_hold_last_external_values_latched :
    ∃ s, EventDispatcher.Reaches (simulation latchModel latchConfiguration 5) 10
        (EventDispatcher.init latchPredictor 0 0) latchedRun s ∧
      s.predictor.fmu.1 = 2 ∧ latchInput s.predictor.fmu (.fmiTypeReal, 0) = some (.real 0x3ff0000000000000) ∧
      latchInput s.predictor.fmu (.fmiTypeReal, 0) =
        (lastWritten latchConfiguration (.fmiTypeReal, 0)
          (allVariables (TimedEventQueue.externals s.delivered))).or (some (.real 0)) := by
  obtain ⟨s, hrun, hrunning, htime, hvalue⟩ := LabelledRun.exec_of_any
    (EventDispatcher.step (simulation latchModel latchConfiguration 5) 10)
    (EventDispatcher.init latchPredictor 0 0) latchedRun
    (fun s => (∃ p, p ∈ s.predictions.getLast? ∧ s.phase = .adding p) ∧ s.predictor.fmu.1 = 2 ∧
      latchInput s.predictor.fmu (.fmiTypeReal, 0) = some (.real 0x3ff0000000000000)) (by decide +kernel)
  refine ⟨s, hrun, htime, hvalue, ?_⟩
  obtain ⟨p, -, hphase⟩ := hrunning
  exact inputs_hold_last_external_values latchModel latchInput latchModel_holdsInputs .feedThrough unitSteps
    latchConfiguration (Fallible.eq_ok_get _) (0, 0) latchPredictor (Fallible.eq_ok_get _) 5 0 0 10 latchedRun s hrun
    (by simp [hphase]) (.fmiTypeReal, 0)

end OneStepEventPredictor
end FMITerminalBlock.Model
