import FMITerminalBlock.Library.Obligation
import FMITerminalBlock.Model.PredictionTimes

/-! When the direct outputs of the multistep mode reach the listeners. -/
namespace FMITerminalBlock.Model.EventPredictor
open Base Timing Fallible Obligation
variable {σ : Type} {M : IncrementalFMU σ} {c : PredictorConfiguration} {readers : Nat} {theEnd : ℚ}

/-- The kinds of delivered entries: an event with an input, an event produced by
`predictNextDirectDependency` and one produced by `predictNextFMIEvent`. -/
def UpdatesInput (c : PredictorConfiguration) (entry : EventPtr PredictorEvent × Bool) : Prop :=
  match entry.1.event with
  | .staticEvent ev => ev.CarriesInput c.context
  | .lazyEvent _ => False

instance (c : PredictorConfiguration) (entry : EventPtr PredictorEvent × Bool) :
    Decidable (UpdatesInput c entry) := by
  rw [UpdatesInput]
  split <;> infer_instance

def DirectOutput (entry : EventPtr PredictorEvent × Bool) : Prop :=
  entry.2 = true ∧ ∃ ev, entry.1.event = .staticEvent ev

def FMIEvent (entry : EventPtr PredictorEvent × Bool) : Prop :=
  entry.2 = true ∧ ∃ time, entry.1.event = .lazyEvent time

/-- After every delivered event with an input a direct output is delivered before any prediction
of the model. -/
def DirectOutputFirst (c : PredictorConfiguration) (delivered : List (EventPtr PredictorEvent × Bool)) : Prop :=
  Honoured (UpdatesInput c) DirectOutput FMIEvent delivered

/-- An external event that is delivered in place of a direct output and followed by another cycle
carries an input itself. -/
def ReplacedByInput (c : PredictorConfiguration) (s t : RunState σ) : Prop :=
  match s.phase, t.phase with
  | .distributing ⟨_, .staticEvent _⟩ (ptr, false), .predicting => UpdatesInput c (ptr, false)
  | _, _ => True

instance (c : PredictorConfiguration) (s t : RunState σ) : Decidable (ReplacedByInput c s t) := by
  rw [ReplacedByInput]
  split <;> infer_instance

/-- What is owed is pending in the predictor or the prediction of the cycle. -/
def PendingInPhase (c : PredictorConfiguration) (s : RunState σ) : Phase PredictorEvent PredictorFault → Prop
  | .predicting => Owed (UpdatesInput c) DirectOutput s.delivered → s.predictor.directOutputPending = true
  | .adding p | .getting p | .delivering p _ | .distributing p _ =>
    Predicted c s.predictor p.event ∧
      (Owed (UpdatesInput c) DirectOutput s.delivered → ∃ ev, p.event = .staticEvent ev)
  | .stopped | .failed _ => True

structure DirectInvariant (M : IncrementalFMU σ) (c : PredictorConfiguration) (readers : Nat)
    (s : RunState σ) : Prop where
  cycle : EventDispatcher.CycleInvariant s
  origin : EventDispatcher.OriginInvariant (simulation M c readers) s
  numbering : EventDispatcher.CycleNumbering s
  first : DirectOutputFirst c s.delivered
  pending : PendingInPhase c s s.phase

/-- The prediction of the cycle is delivered: nothing is owed afterwards. -/
private theorem direct_prediction {s : RunState σ} {p : EventPtr PredictorEvent}
    (hfirst : DirectOutputFirst c s.delivered) (hpredicted : Predicted c s.predictor p.event)
    (howed : Owed (UpdatesInput c) DirectOutput s.delivered → ∃ ev, p.event = .staticEvent ev) :
    DirectOutputFirst c (s.delivered ++ [(p, true)]) ∧
      ¬Owed (UpdatesInput c) DirectOutput (s.delivered ++ [(p, true)]) := by
  have hnoInput : ¬UpdatesInput c (p, true) := by
    intro hinput
    cases hev : p.event with
    | lazyEvent time => simp only [UpdatesInput, hev] at hinput
    | staticEvent ev =>
      simp only [UpdatesInput, hev] at hinput
      rw [hev] at hpredicted
      obtain ⟨v, hv, hin⟩ := hinput
      exact hpredicted.2.not_mem_input hv hin
  constructor
  · refine Honoured.snoc hfirst fun ⟨_, time, hlazy⟩ ho => ?_
    obtain ⟨ev, hev⟩ := howed ho
    exact nomatch hlazy.symm.trans hev
  · intro ho
    rcases ho.of_snoc with hopen | ⟨hold, hclosed⟩
    · exact hnoInput hopen
    · exact hclosed ⟨rfl, howed hold⟩

private theorem direct_distribute {s : RunState σ} {p : EventPtr PredictorEvent}
    {entry : EventPtr PredictorEvent × Bool} {predictor : EventPredictor σ}
    (hs : DirectInvariant M c readers s) (phase : s.phase = .distributing p entry)
    (done : distribute M c readers s.predictor entry.1.event = .ok predictor)
    {t : RunState σ} (ht : t = EventDispatcher.finish theEnd { s with predictor := predictor } entry)
    (hreplaced : ReplacedByInput c s t) :
    DirectOutputFirst c t.delivered ∧ PendingInPhase c t t.phase := by
  have hdeliverable := hs.cycle.1
  have hexternal := hs.origin.phase
  have hpending := hs.pending
  rw [phase] at hdeliverable hexternal hpending
  obtain ⟨hpredicted, howed⟩ := hpending
  have hphase : t.phase = .predicting ∨ t.phase = .stopped := ht ▸ EventDispatcher.finish_phase theEnd _ entry
  have hdelivered : t.delivered = s.delivered ++ [entry] := ht ▸ rfl
  have hpredictor : t.predictor = predictor := ht ▸ rfl
  rw [hdelivered]
  rcases hdeliverable.2.2 with rfl | ⟨hflag, -⟩
  · obtain ⟨hfirst, hnothing⟩ := direct_prediction hs.first hpredicted howed
    refine ⟨hfirst, ?_⟩
    rcases hphase with hp | hp <;> rw [hp]
    · exact fun ho => absurd (hdelivered ▸ ho) hnothing
    · trivial
  · refine ⟨Honoured.snoc hs.first fun ⟨hpred, _⟩ => (nomatch hflag.symm.trans hpred), ?_⟩
    rcases hphase with hp | hp
    · rw [hp]
      intro ho
      rw [hdelivered] at ho
      obtain ⟨ev, hev⟩ := hexternal hflag
      have hev' : entry.1.event = .staticEvent ev := hev
      have hresult := (distribute_staticEvent ev readers).of_ok (hev' ▸ done)
      obtain ⟨image, hresult⟩ := hresult
      have hinput : UpdatesInput c entry := by
        rcases ho.of_snoc with hopen | ⟨hold, -⟩
        · exact hopen
        · obtain ⟨ptr, flag⟩ := entry
          obtain ⟨address, event⟩ := p
          obtain ⟨ev', rfl⟩ := howed hold
          cases hflag
          simpa only [ReplacedByInput, phase, hp] using hreplaced
      simp only [UpdatesInput, hev'] at hinput
      rw [if_pos hinput] at hresult
      obtain ⟨s', rfl⟩ := hresult
      rw [hpredictor]
      rfl
    · rw [hp]
      trivial

theorem direct_step (hdirect : c.assumeDirectDependency = true) {s t : RunState σ} {l : Label StaticEvent}
    (hs : DirectInvariant M c readers s) (hreplaced : ReplacedByInput c s t)
    (h : EventDispatcher.Steps (simulation M c readers) theEnd s l t) : DirectInvariant M c readers t := by
  have hcycle := EventDispatcher.cycleInvariant_step hs.cycle h
  have horigin := EventDispatcher.origin_step hs.origin h
  have hnumbering := EventDispatcher.numbering_step hs.cycle hs.numbering h
  have hpending := hs.pending
  cases h with
  | pushExternal ev => exact ⟨hcycle, horigin, hnumbering, hs.first, hpending⟩
  | addExternal address ptr found => exact ⟨hcycle, horigin, hnumbering, hs.first, hpending⟩
  | predict ev predictor phase next =>
    rw [phase] at hpending
    obtain ⟨hnew, -, -, -, -, hkind⟩ := (predictNext_spec s.predictor).of_ok next
    exact ⟨hcycle, horigin, hnumbering, hs.first, hnew, fun ho => hkind.mpr ⟨hdirect, hpending ho⟩⟩
  | predictFault fault phase next => exact ⟨hcycle, horigin, hnumbering, hs.first, trivial⟩
  | addPrediction p phase =>
    rw [phase] at hpending
    exact ⟨hcycle, horigin, hnumbering, hs.first, hpending⟩
  | get now p entry rest phase front due =>
    rw [phase] at hpending
    exact ⟨hcycle, horigin, hnumbering, hs.first, hpending⟩
  | beginDistribution p entry phase =>
    rw [phase] at hpending
    exact ⟨hcycle, horigin, hnumbering, hs.first, hpending⟩
  | distribute p entry predictor phase done =>
    obtain ⟨hfirst, hnext⟩ := direct_distribute hs phase done rfl hreplaced
    exact ⟨hcycle, horigin, hnumbering, hfirst, hnext⟩
  | distributeFault p entry fault phase done => exact ⟨hcycle, horigin, hnumbering, hs.first, trivial⟩

theorem directInvariant_init (solver : σ) (start : ℚ)
    (inputImage : (type : FMIVariableType) → List (Carrier type)) (now : Int) :
    DirectInvariant M c readers (EventDispatcher.init (init solver start inputImage) now start) :=
  ⟨EventDispatcher.cycleInvariant_init _ _ _, EventDispatcher.originInvariant_init _ _ _ _,
    EventDispatcher.numbering_init _ _ _, honoured_nil, fun h => absurd h not_owed_nil⟩

/-- In every run in which only events with an input are delivered in place of a direct output,
every delivered input is answered by a direct output before a prediction of the model is
delivered. The direct output is the prediction of its own cycle, and each cycle computes its
prediction after all earlier deliveries. -/
theorem direct_output_precedes_predictions (M : IncrementalFMU σ) (c : PredictorConfiguration)
    (hdirect : c.assumeDirectDependency = true) (readers : Nat) (solver : σ) (start : ℚ)
    (inputImage : (type : FMIVariableType) → List (Carrier type)) (now : Int) (theEnd : ℚ)
    (labels : List (Label StaticEvent)) (s : RunState σ)
    (h : EventDispatcher.Reaches (simulation M c readers) theEnd
      (EventDispatcher.init (init solver start inputImage) now start) labels s)
    (hreplaced : LabelledRun.Along (EventDispatcher.step (simulation M c readers) theEnd)
      (fun s _ t => ReplacedByInput c s t)
      (EventDispatcher.init (init solver start inputImage) now start) labels) :
    DirectOutputFirst c s.delivered ∧
    (∀ (k : Nat) (p : EventPtr PredictorEvent), s.delivered[k]? = some (p, true) → s.predictions[k]? = some p) ∧
    (s.phase = .predicting → s.predictions.length = s.delivered.length) := by
  have hinv := LabelledRun.along_invariant (DirectInvariant M c readers)
    (fun _ _ _ hs hr hstep => direct_step hdirect hs hr (EventDispatcher.step_steps hstep))
    (directInvariant_init solver start inputImage now) hreplaced h
  refine ⟨hinv.first, hinv.numbering.delivered, fun hp => ?_⟩
  have hnumbers := hinv.numbering.phase
  rwa [hp] at hnumbers

/-- An input at time 1/2 is delivered. Its direct output is revoked by an external event without
variables, which is late and delivered first, and the next event comes from the model. -/
def lossyRun : List (Label StaticEvent) :=
  [.predict, .addPrediction, .pushExternal ⟨1 / 2, [⟨(.fmiTypeReal, 1), .real 0⟩]⟩, .addExternal 1,
    .get 500000, .beginDistribution, .distribute,
    .predict, .addPrediction, .pushExternal ⟨1 / 4, []⟩, .addExternal 3,
    .get 500000, .beginDistribution, .distribute,
    .predict, .addPrediction, .get 1500000, .beginDistribution, .distribute]

theorem direct_output_lost_by_empty_external :
    ∃ s, EventDispatcher.Reaches (simulation steadyModel (feedThrough true) 0) 10
        (EventDispatcher.init (init () 0 fun _ => []) 0 0) lossyRun s ∧
      ¬DirectOutputFirst (feedThrough true) s.delivered := by
  obtain ⟨s, hs, hdelivered⟩ := LabelledRun.exec_of_any
    (EventDispatcher.step (simulation steadyModel (feedThrough true) 0) 10)
    (EventDispatcher.init (init () 0 fun _ => []) 0 0) lossyRun
    (fun s => s.delivered = [(⟨1, .staticEvent ⟨1 / 2, [⟨(.fmiTypeReal, 1), .real 0⟩]⟩⟩, false),
      (⟨3, .staticEvent ⟨1 / 4, []⟩⟩, false), (⟨4, .lazyEvent (3 / 2)⟩, true)]) (by decide +kernel)
  refine ⟨s, hs, fun hfirst => ?_⟩
  obtain ⟨d, hd, hdirect, -⟩ := hfirst [] _ [_] _ [] hdelivered (by decide +kernel) ⟨rfl, _, rfl⟩
  rw [List.mem_singleton.mp hd] at hdirect
  cases hdirect

/-- Nothing interferes: the direct output at time 1/2 follows its input. -/
def answeredRun : List (Label StaticEvent) :=
  [.predict, .addPrediction, .pushExternal ⟨1 / 2, [⟨(.fmiTypeReal, 1), .real 0⟩]⟩, .addExternal 1,
    .get 500000, .beginDistribution, .distribute,
    .predict, .addPrediction, .get 500000, .beginDistribution, .distribute]

theorem direct_output_precedes_predictions_answered :
    ∃ s, EventDispatcher.Reaches (simulation steadyModel (feedThrough true) 0) 10
        (EventDispatcher.init (init () 0 fun _ => []) 0 0) answeredRun s ∧
      DirectOutputFirst (feedThrough true) s.delivered := by
  obtain ⟨s, hs, -⟩ := LabelledRun.exec_of_any
    (EventDispatcher.step (simulation steadyModel (feedThrough true) 0) 10)
    (EventDispatcher.init (init () 0 fun _ => []) 0 0) answeredRun (fun _ => True) (by decide +kernel)
  have hfirst := direct_output_precedes_predictions steadyModel (feedThrough true) rfl 0 () 0 (fun _ => []) 0 10
    answeredRun s hs (by decide +kernel)
  exact ⟨s, hs, hfirst.1⟩

end FMITerminalBlock.Model.EventPredictor
