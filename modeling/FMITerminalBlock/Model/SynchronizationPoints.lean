import FMITerminalBlock.Library.Fallible
import FMITerminalBlock.Model.OneStepEventPredictor
import FMITerminalBlock.Timing.DispatcherCycle

/-! When the synchronization points of the single step mode reach the listeners. -/
namespace FMITerminalBlock.Model
open Base Timing

namespace OneStepEventPredictor
variable {σ : Type} {M : FMUModelExchange σ} {c : OneStepConfiguration}

/-- The configuration knows the ports of the context. -/
structure Configured (context : ApplicationContext.Settled) (c : OneStepConfiguration) : Prop where
  output : c.outputMapping = context.output
  input : ∀ id, (c.inputValueReference.lookup id).isSome ↔ id ∈ context.input.getAllVariableIDs

private theorem inputValueReference_keys {ports : List (StdString × PortID)}
    {old references : List (PortID × Nat)}
    (h : ports.foldlM (addInputValueReference M) old = .ok references) (id : PortID) :
    (references.lookup id).isSome ↔ id ∈ ports.map (·.2) ∨ (old.lookup id).isSome := by
  induction ports generalizing old with
  | nil => cases h; simp
  | cons port ports ih =>
    rw [List.foldlM_cons] at h
    obtain ⟨next, hnext, hrest⟩ := Fallible.bind_eq_ok.mp h
    rw [ih hrest]
    unfold addInputValueReference at hnext
    split at hnext
    · cases hnext
      simp only [List.lookup_cons, List.map_cons, List.mem_cons]
      by_cases hid : id = port.2
      · simp [hid]
      · rw [beq_false_of_ne hid]
        simp [hid]
    · cases hnext

theorem configure_configured {context : ApplicationContext.Settled} {properties : SimulationProperties}
    (h : configure M context properties = .ok c) : Configured context c := by
  unfold configure at h
  obtain ⟨outputs, -, h⟩ := Fallible.bind_eq_ok.mp h
  obtain ⟨inputs, hinputs, h⟩ := Fallible.bind_eq_ok.mp h
  cases h
  refine ⟨rfl, fun id => ?_⟩
  obtain ⟨first, last, hmapped⟩ := context.input_mapped
  rw [inputValueReference_keys hinputs, List.map_snd_zip (hmapped.built.zip_all.1.ge)]
  simp

theorem predictOneStep_frame {turns : Nat} {p p' : OneStepEventPredictor σ}
    (h : predictOneStep M c turns p = .ok p') :
    p'.currentPrediction = p.currentPrediction ∧ p'.synchronizationPoints = p.synchronizationPoints := by
  obtain ⟨s, -, rfl⟩ := Fallible.map_eq_ok.mp h
  exact ⟨rfl, rfl⟩

theorem updateOutputImage_frame {p : OneStepEventPredictor σ} {r : Bool × OneStepEventPredictor σ}
    (h : updateOutputImage M c p = .ok r) :
    r.2.currentPrediction = p.currentPrediction ∧ r.2.synchronizationPoints = p.synchronizationPoints := by
  refine (Fallible.Outcome.foldlM (E := fun _ => True) (fun _ r => r.2.currentPrediction =
    p.currentPrediction ∧ r.2.synchronizationPoints = p.synchronizationPoints) ?_ ⟨rfl, rfl⟩).of_ok h
  intro _ r type hr _
  refine Fallible.Outcome.map (P := fun q => q.2.currentPrediction = p.currentPrediction ∧
    q.2.synchronizationPoints = p.synchronizationPoints) ?_ fun q hq => hq
  rw [updateOutputImageOf]
  split
  · exact .ok hr
  · split
    · exact .error trivial
    · exact .ok hr

theorem getOutputEvent_outputOnly {context : ApplicationContext.Settled} (hc : Configured context c)
    (p : OneStepEventPredictor σ) : OutputOnly context (getOutputEvent M c p).vars := by
  intro v hv
  obtain ⟨type, -, hv⟩ := List.mem_flatMap.mp hv
  rw [List.mem_iff_getElem?] at hv
  obtain ⟨i, hi⟩ := hv
  obtain ⟨id, value, hid, -, rfl⟩ := List.getElem?_zipWith_eq_some.mp hi
  rw [hc.output] at hid
  exact List.mem_flatMap.mpr ⟨type, FMIVariableType.mem_all type, List.mem_of_getElem? hid⟩

/-- Either the current prediction is offered again, or the model advances to a new
synchronization point. -/
theorem predictNext_cases {context : ApplicationContext.Settled} (hc : Configured context c)
    {turns : Nat} {p p' : OneStepEventPredictor σ} {ev : StaticEvent}
    (h : predictNext M c turns p = .ok (ev, p')) :
    p.currentPrediction = some ev ∧ p' = p ∨
    p.currentPrediction = none ∧ p'.currentPrediction = some ev ∧
      p'.synchronizationPoints = p.synchronizationPoints ++ [ev] ∧ OutputOnly context ev.vars := by
  unfold predictNext at h
  split at h
  · rename_i hcur
    cases h
    exact .inl ⟨hcur, rfl⟩
  · rename_i hcur
    obtain ⟨p₁, h₁, h⟩ := Fallible.bind_eq_ok.mp h
    obtain ⟨⟨valuesChanged, p₂⟩, h₂, h⟩ := Fallible.bind_eq_ok.mp h
    cases h
    have hsync := (updateOutputImage_frame h₂).2.trans (predictOneStep_frame h₁).2
    refine .inr ⟨hcur, rfl, by rw [← hsync], ?_⟩
    split
    · exact getOutputEvent_outputOnly hc p₂
    · exact fun v hv => absurd hv List.not_mem_nil

theorem updateInputVariables_eq {vars : List Variable} {s : σ} {r : Bool × σ}
    (h : updateInputVariables M c vars s = .ok r) :
    r.1 = vars.any fun v => (c.inputValueReference.lookup v.id).isSome := by
  induction vars generalizing s r with
  | nil => cases h; rfl
  | cons v vars ih =>
    obtain ⟨⟨first, s₁⟩, h₁, h⟩ := Fallible.bind_eq_ok.mp h
    obtain ⟨⟨rest, s₂⟩, h₂, h⟩ := Fallible.bind_eq_ok.mp h
    cases h
    have hfirst : first = (c.inputValueReference.lookup v.id).isSome := by
      unfold updateInputVariable at h₁
      split at h₁
      · cases h₁
      · split at h₁
        · rename_i hnone; cases h₁; rw [hnone]; rfl
        · rename_i ref hsome
          split at h₁
          · cases h₁; rw [hsome]; rfl
          · cases h₁
    rw [List.any_cons, ← hfirst, ← ih h₂]

/-- An event with an input leaves the current prediction alone, any other event revokes it. -/
theorem eventTriggered_spec {context : ApplicationContext.Settled} (hc : Configured context c)
    {p p' : OneStepEventPredictor σ} {ev : StaticEvent} (h : eventTriggered M c p ev = .ok p') :
    p'.synchronizationPoints = p.synchronizationPoints ∧
    (ev.CarriesInput context → p'.currentPrediction = p.currentPrediction) ∧
    (¬ev.CarriesInput context → p'.currentPrediction = none) := by
  obtain ⟨⟨updated, s⟩, hupdated, h⟩ := Fallible.bind_eq_ok.mp h
  have hcarries : updated = true ↔ ev.CarriesInput context := by
    have hany := updateInputVariables_eq hupdated
    dsimp only at hany
    rw [hany, List.any_eq_true]
    simp only [hc.input, StaticEvent.CarriesInput]
  dsimp only at h
  split at h
  · rename_i hu
    cases h
    exact ⟨rfl, fun _ => rfl, fun hn => absurd (hcarries.mp hu) hn⟩
  · rename_i hu
    cases h
    exact ⟨rfl, fun hy => absurd (hcarries.mpr hy) hu, fun _ => rfl⟩

/-! ### Runs -/

/-- The predictor as the dispatcher drives it. The listeners registered after it only read the
event, and external events are static. -/
def simulation (M : FMUModelExchange σ) (c : OneStepConfiguration) (turns : Nat) :
    Simulation (OneStepEventPredictor σ) StaticEvent StaticEvent Fault where
  predictNext := predictNext M c turns
  distribute := eventTriggered M c
  external := id

/-- The state of a run in the single step mode. -/
abbrev RunState (σ : Type) := EventDispatcher (OneStepEventPredictor σ) StaticEvent Fault

/-- The predictions delivered so far, in order. -/
def deliveredPredictions (s : RunState σ) : List StaticEvent :=
  (s.delivered.filter (·.2)).map (·.1.event)

/-- When the dispatcher is about to let the model advance, every synchronization point computed so
far has been delivered exactly once and in order. -/
def NoPointLost (s : RunState σ) : Prop :=
  s.phase = .predicting → s.predictor.currentPrediction = none →
    deliveredPredictions s = s.predictor.synchronizationPoints

instance (s : RunState σ) : Decidable (NoPointLost s) :=
  inferInstanceAs (Decidable (s.phase = .predicting → s.predictor.currentPrediction = none →
    deliveredPredictions s = s.predictor.synchronizationPoints))

/-- An external event that is delivered and followed by another cycle carries an input. -/
def ExternalCarriesInput (context : ApplicationContext.Settled) (s t : RunState σ) : Prop :=
  match s.phase, t.phase with
  | .distributing _ (ptr, false), .predicting => ptr.event.CarriesInput context
  | _, _ => True

instance (context : ApplicationContext.Settled) (s t : RunState σ) :
    Decidable (ExternalCarriesInput context s t) := by
  rw [ExternalCarriesInput]
  split <;> infer_instance

theorem externalCarriesInput_iff {context : ApplicationContext.Settled} {s t : RunState σ} :
    ExternalCarriesInput context s t ↔ ∀ p ptr, s.phase = .distributing p (ptr, false) →
      t.phase = .predicting → ptr.event.CarriesInput context := by
  constructor
  · intro h p ptr hs ht
    simpa only [ExternalCarriesInput, hs, ht] using h
  · intro h
    rw [ExternalCarriesInput]
    split
    · rename_i p ptr hs ht
      exact h p ptr hs ht
    · trivial

/-- How the computed and the delivered points relate at every moment of a cycle. -/
def PointsInPhase (s : RunState σ) : Phase StaticEvent Fault → Prop
  | .predicting => deliveredPredictions s ++ s.predictor.currentPrediction.toList =
      s.predictor.synchronizationPoints
  | .adding p | .getting p | .delivering p _ | .distributing p _ =>
    s.predictor.currentPrediction = some p.event ∧
      deliveredPredictions s ++ [p.event] = s.predictor.synchronizationPoints
  | .stopped | .failed _ => True

structure PointInvariant (context : ApplicationContext.Settled) (s : RunState σ) : Prop where
  cycle : EventDispatcher.CycleInvariant s
  outputOnly : ∀ ev, s.predictor.currentPrediction = some ev → OutputOnly context ev.vars
  points : PointsInPhase s s.phase

theorem PointInvariant.noPointLost {context : ApplicationContext.Settled} {s : RunState σ}
    (h : PointInvariant context s) : NoPointLost s := by
  intro hphase hcur
  have hpoints := h.points
  rw [hphase, PointsInPhase, hcur] at hpoints
  simpa using hpoints

/-- Where the invariant is kept without a condition, nothing is asked of the step. -/
private theorem PointInvariant.kept {context : ApplicationContext.Settled} {s t : RunState σ}
    (ht : PointInvariant context t) (hext : ∀ p ptr, s.phase = .distributing p (ptr, false) → t.phase = .predicting →
      ptr.event.CarriesInput context) :
    (NoPointLost t ↔ ExternalCarriesInput context s t) ∧ (NoPointLost t → PointInvariant context t) :=
  ⟨⟨fun _ => externalCarriesInput_iff.mpr hext, fun _ => ht.noPointLost⟩, fun _ => ht⟩

theorem deliveredPredictions_finish (theEnd : ℚ) (s : RunState σ) (predictor : OneStepEventPredictor σ)
    (entry : EventPtr StaticEvent × Bool) :
    deliveredPredictions (EventDispatcher.finish theEnd { s with predictor := predictor } entry) =
      deliveredPredictions s ++ if entry.2 then [entry.1.event] else [] := by
  cases hflag : entry.2 <;> simp [deliveredPredictions, EventDispatcher.finish, hflag]

/-- The end of a distribution: the prediction of the cycle is delivered and forgotten, an external
event with an input leaves it outstanding, and one without an input makes it disappear. -/
private theorem point_distribute {context : ApplicationContext.Settled} (hc : Configured context c)
    {theEnd : ℚ} {s : RunState σ} {p : EventPtr StaticEvent} {entry : EventPtr StaticEvent × Bool}
    {predictor : OneStepEventPredictor σ} (hs : PointInvariant context s)
    (phase : s.phase = .distributing p entry)
    (done : eventTriggered M c s.predictor entry.1.event = .ok predictor)
    {t : RunState σ} (ht : t = EventDispatcher.finish theEnd { s with predictor := predictor } entry)
    (hcycle : EventDispatcher.CycleInvariant t) :
    (NoPointLost t ↔ ExternalCarriesInput context s t) ∧ (NoPointLost t → PointInvariant context t) := by
  have hdeliverable := hs.cycle.1
  have hpoints := hs.points
  rw [phase] at hdeliverable hpoints
  obtain ⟨hcur, hsync⟩ := hpoints
  obtain ⟨hkeep, hyes, hno⟩ := eventTriggered_spec hc done
  have hphase : t.phase = .predicting ∨ t.phase = .stopped := ht ▸ EventDispatcher.finish_phase theEnd _ entry
  have hdelivered : deliveredPredictions t =
      deliveredPredictions s ++ if entry.2 then [entry.1.event] else [] :=
    ht ▸ deliveredPredictions_finish theEnd s predictor entry
  have hpredictor : t.predictor = predictor := ht ▸ rfl
  have hsync' : t.predictor.synchronizationPoints = deliveredPredictions s ++ [p.event] := by
    rw [hpredictor, hkeep, hsync]
  have hforgotten (hnone : t.predictor.currentPrediction = none) :
      ∀ ev, t.predictor.currentPrediction = some ev → OutputOnly context ev.vars := by simp [hnone]
  rcases hdeliverable.2.2 with rfl | ⟨hflag, -⟩
  · have hnone : t.predictor.currentPrediction = none :=
      hpredictor ▸ hno fun ⟨_, hv, hin⟩ => (hs.outputOnly p.event hcur).not_mem_input hv hin
    refine PointInvariant.kept ⟨hcycle, hforgotten hnone, ?_⟩ fun q ev hq => nomatch phase.symm.trans hq
    rcases hphase with hp | hp <;> rw [hp]
    · simpa [PointsInPhase, hnone, hdelivered] using hsync'.symm
    · trivial
  · rw [if_neg (by simp [hflag]), List.append_nil] at hdelivered
    by_cases hcarries : entry.1.event.CarriesInput context
    · have hsome : t.predictor.currentPrediction = some p.event := by
        rw [hpredictor, hyes hcarries, hcur]
      refine PointInvariant.kept ⟨hcycle, fun ev hev => ?_, ?_⟩ fun q ev hq _ => ?_
      · rw [hsome, ← hcur] at hev
        exact hs.outputOnly ev hev
      · rcases hphase with hp | hp <;> rw [hp]
        · simpa [PointsInPhase, hsome, hdelivered] using hsync'.symm
        · trivial
      · rw [phase] at hq
        cases hq
        exact hcarries
    · have hnone : t.predictor.currentPrediction = none := hpredictor ▸ hno hcarries
      have hlost : NoPointLost t ↔ t.phase ≠ .predicting := by
        refine ⟨fun hlossless hp => ?_, fun hp hp' => absurd hp' hp⟩
        have hall := hlossless hp hnone
        rw [hdelivered, hsync'] at hall
        simp at hall
      refine ⟨hlost.trans (Iff.trans ⟨fun hp _ _ _ hp' => absurd hp' hp, fun hext hp => hcarries ?_⟩
        externalCarriesInput_iff.symm), fun hlossless => ?_⟩
      · exact hext p entry.1 (by rw [phase, ← hflag]) hp
      · have hp := hphase.resolve_left (hlost.mp hlossless)
        refine ⟨hcycle, hforgotten hnone, ?_⟩
        rw [hp]
        trivial

theorem point_step {context : ApplicationContext.Settled} (hc : Configured context c) {turns : Nat}
    {theEnd : ℚ} {s t : RunState σ} {l : Label StaticEvent} (hs : PointInvariant context s)
    (h : EventDispatcher.Steps (simulation M c turns) theEnd s l t) :
    (NoPointLost t ↔ ExternalCarriesInput context s t) ∧ (NoPointLost t → PointInvariant context t) := by
  have hcycle := EventDispatcher.cycleInvariant_step hs.cycle h
  have hpoints := hs.points
  cases h with
  | pushExternal ev =>
    exact PointInvariant.kept ⟨hcycle, hs.outputOnly, hpoints⟩ fun p ev hp hp' => nomatch hp.symm.trans hp'
  | addExternal address ptr found =>
    exact PointInvariant.kept ⟨hcycle, hs.outputOnly, hpoints⟩ fun p ev hp hp' => nomatch hp.symm.trans hp'
  | predict ev predictor phase next =>
    rw [phase] at hpoints
    refine PointInvariant.kept ⟨hcycle, ?_, ?_⟩ fun _ _ _ hp => nomatch hp
    all_goals rcases predictNext_cases hc next with ⟨hcur, rfl⟩ | ⟨hcur, hcur', hsync, hout⟩
    · exact hs.outputOnly
    · intro ev' hev'
      rw [hcur'] at hev'
      cases hev'
      exact hout
    · simp only [PointsInPhase, hcur, Option.toList_some] at hpoints
      exact ⟨hcur, hpoints⟩
    · refine ⟨hcur', ?_⟩
      simp only [PointsInPhase, hcur, Option.toList_none, List.append_nil] at hpoints
      rw [hsync, ← hpoints]
      rfl
  | predictFault fault phase next =>
    exact PointInvariant.kept ⟨hcycle, hs.outputOnly, trivial⟩ fun _ _ _ hp => nomatch hp
  | addPrediction p phase =>
    rw [phase] at hpoints
    exact PointInvariant.kept ⟨hcycle, hs.outputOnly, hpoints⟩ fun _ _ _ hp => nomatch hp
  | get now p entry rest phase front due =>
    rw [phase] at hpoints
    exact PointInvariant.kept ⟨hcycle, hs.outputOnly, hpoints⟩ fun _ _ _ hp => nomatch hp
  | beginDistribution p entry phase =>
    rw [phase] at hpoints
    exact PointInvariant.kept ⟨hcycle, hs.outputOnly, hpoints⟩ fun _ _ _ hp => nomatch hp
  | distribute p entry predictor phase done =>
    exact point_distribute hc hs phase done rfl hcycle
  | distributeFault p entry fault phase done =>
    exact PointInvariant.kept ⟨hcycle, hs.outputOnly, trivial⟩ fun _ _ _ hp => nomatch hp

theorem updateOutputImage_start {s : σ} {p : OneStepEventPredictor σ} (h : start M c s = .ok p) :
    p.currentPrediction = none ∧ p.synchronizationPoints = [] := by
  obtain ⟨r, hr, rfl⟩ := Fallible.map_eq_ok.mp h
  exact updateOutputImage_frame hr

theorem pointInvariant_init {context : ApplicationContext.Settled} {s : σ} {p : OneStepEventPredictor σ}
    (h : start M c s = .ok p) (now : Int) (startTime : ℚ) :
    PointInvariant context (EventDispatcher.init p now startTime) := by
  obtain ⟨hcur, hsync⟩ := updateOutputImage_start h
  refine ⟨EventDispatcher.cycleInvariant_init p now startTime, fun ev hev => ?_, ?_⟩
  · change p.currentPrediction = some ev at hev
    rw [hcur] at hev
    cases hev
  · change [] ++ p.currentPrediction.toList = p.synchronizationPoints
    rw [hcur, hsync]
    rfl

/-- A run loses no synchronization point exactly if every external event it delivers before a
further cycle carries a configured input. -/
theorem no_point_lost_iff_externals_carry_input (M : FMUModelExchange σ)
    (context : ApplicationContext.Settled) (properties : SimulationProperties) (c : OneStepConfiguration)
    (hconfig : configure M context properties = .ok c) (s : σ) (p : OneStepEventPredictor σ)
    (hstart : start M c s = .ok p) (turns : Nat) (now : Int) (startTime theEnd : ℚ)
    (labels : List (Label StaticEvent)) :
    LabelledRun.Along (EventDispatcher.step (simulation M c turns) theEnd) (fun _ _ t => NoPointLost t)
        (EventDispatcher.init p now startTime) labels ↔
      LabelledRun.Along (EventDispatcher.step (simulation M c turns) theEnd)
        (fun s _ t => ExternalCarriesInput context s t) (EventDispatcher.init p now startTime) labels :=
  LabelledRun.along_iff (PointInvariant context)
    (fun _ _ _ hs h => point_step (configure_configured hconfig) hs (EventDispatcher.step_steps h))
    (pointInvariant_init hstart now startTime)

/-- A model that knows every variable, reads zero everywhere and integrates without trouble. Its
state is its time. -/
def idleModel : FMUModelExchange ℚ where
  getValueRef _ := some 0
  getTime s := s
  getLastStatus _ := true
  integrate _ target _ := (some target, target)
  handleEvents s := s
  getValue s
    | .fmiTypeReal, _ => (some fun _ => 0, s)
    | .fmiTypeInteger, _ => (some fun _ => 0, s)
    | .fmiTypeBoolean, _ => (some fun _ => fmiFalse, s)
    | .fmiTypeString, _ => (some fun _ => [], s)
    | .fmiTypeUnknown, _ => (none, s)
  setValue s _ _ := (true, s)

def unitSteps : SimulationProperties :=
  ⟨1, 1 / 10, false, by norm_num, by norm_num⟩

def idleConfiguration : OneStepConfiguration :=
  (configure idleModel .feedThrough unitSteps).toOption.get (by decide +kernel)

def idlePredictor : OneStepEventPredictor ℚ :=
  (start idleModel idleConfiguration 0).toOption.get (by decide +kernel)

/-- An input at time 1/2 delays the point at time 1 by one cycle. -/
def delayedRun : List (Label StaticEvent) :=
  [.predict, .addPrediction, .pushExternal ⟨1 / 2, [⟨(.fmiTypeReal, 1), .real 0⟩]⟩, .addExternal 1,
    .get 600000, .beginDistribution, .distribute,
    .predict, .addPrediction, .get 1000000, .beginDistribution, .distribute]

theorem no_point_lost_when_delayed :
    configure idleModel .feedThrough unitSteps = .ok idleConfiguration ∧
    start idleModel idleConfiguration 0 = .ok idlePredictor ∧
    LabelledRun.Along (EventDispatcher.step (simulation idleModel idleConfiguration 5) 10)
      (fun _ _ t => NoPointLost t) (EventDispatcher.init idlePredictor 0 0) delayedRun :=
  ⟨Fallible.eq_ok_get _, Fallible.eq_ok_get _,
    (no_point_lost_iff_externals_carry_input idleModel .feedThrough unitSteps idleConfiguration
      (Fallible.eq_ok_get _) 0 idlePredictor (Fallible.eq_ok_get _) 5 0 0 10 delayedRun).mpr (by decide +kernel)⟩

/-- The point at time 1 is computed and offered, an external event without variables at time 1/2
revokes it, and the predictor takes the external event for its own. -/
theorem point_lost_by_empty_external :
    ∃ s, EventDispatcher.Reaches (simulation idleModel idleConfiguration 5) 10
        (EventDispatcher.init idlePredictor 0 0)
        [.predict, .addPrediction, .pushExternal ⟨1 / 2, []⟩, .addExternal 1, .get 600000,
          .beginDistribution, .distribute] s ∧
      ¬NoPointLost s :=
  LabelledRun.exec_of_any _ _ _ _ (by decide +kernel)

end OneStepEventPredictor
end FMITerminalBlock.Model
