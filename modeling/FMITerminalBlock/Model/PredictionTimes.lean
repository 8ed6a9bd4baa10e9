import FMITerminalBlock.Model.EventDistribution
import FMITerminalBlock.Timing.DispatcherCycle

/-! The time of the model in the multistep mode, over whole runs of the dispatcher. -/
namespace FMITerminalBlock.Model.EventPredictor
open Base Timing Fallible
variable {σ : Type} {M : IncrementalFMU σ} {c : PredictorConfiguration} {readers : Nat} {theEnd : ℚ}

/-- The state of a run in the multistep mode. -/
abbrev RunState (σ : Type) := EventDispatcher (EventPredictor σ) PredictorEvent PredictorFault

/-- The prediction of the cycle is still the one the predictor made. -/
def PredictedInPhase (c : PredictorConfiguration) (p : EventPredictor σ) :
    Phase PredictorEvent PredictorFault → Prop
  | .adding q | .getting q | .delivering q _ | .distributing q _ =>
    Predicted c p q.event ∧ p.currentTime ≤ q.event.time
  | _ => True

structure TimeInvariant (M : IncrementalFMU σ) (c : PredictorConfiguration) (readers : Nat)
    (s : RunState σ) : Prop where
  cycle : EventDispatcher.CycleInvariant s
  origin : EventDispatcher.OriginInvariant (simulation M c readers) s
  nonneg : 0 ≤ s.predictor.currentTime
  predicted : PredictedInPhase c s.predictor s.phase
  faults : ∀ fault, s.phase = .failed fault → ¬fault.Misuse
  reads : s.delivered = [] ∨ ∃ vars, s.predictor.reads = readings readers vars

/-- What a step does to the time of the model. -/
structure TimeStep (s : RunState σ) (l : Label StaticEvent) (t : RunState σ) : Prop where
  monotone : s.predictor.currentTime ≤ t.predictor.currentTime
  updates : t.predictor.updateTimes = s.predictor.updateTimes ∨
    ∃ p entry time, s.phase = .distributing p entry ∧
      t.predictor.updateTimes = s.predictor.updateTimes ++ [time] ∧
      s.predictor.currentTime ≤ time ∧ time ≤ max s.predictor.currentTime (getTime p)
  delivered : t.predictor.currentTime ≠ s.predictor.currentTime →
    l = .distribute ∧ ∃ p entry, s.phase = .distributing p entry

theorem TimeStep.of_predictor_eq {s t : RunState σ} {l : Label StaticEvent}
    (h : t.predictor = s.predictor) : TimeStep s l t :=
  ⟨by rw [h], .inl (by rw [h]), fun hne => absurd (by rw [h]) hne⟩

/-- A late event does not move the model, and an early one moves it no further than its own time. -/
theorem alignTime_bounds (hM : M.Assumed) (p : EventPredictor σ) {time limit : ℚ} (h : time ≤ limit) :
    p.currentTime ≤ alignTime M p time ∧ alignTime M p time ≤ max p.currentTime limit := by
  have hres := hM.resolution_pos
  unfold alignTime
  dsimp only
  split <;> split
  · exact ⟨le_rfl, le_max_left _ _⟩
  · exact ⟨le_rfl, le_max_left _ _⟩
  · exact ⟨le_rfl, le_max_left _ _⟩
  · rename_i hlate hapart
    refine ⟨?_, h.trans (le_max_right _ _)⟩
    rw [not_and_or] at hapart
    rcases hapart with hlt | hgt
    · exact absurd (lt_of_not_ge hlt) hlate
    · linarith [lt_of_not_ge hgt]

/-- What the distribution of an event does to the time of the model, given the prediction of the
cycle. -/
structure Distributed (readers : Nat) (prediction : EventPtr PredictorEvent) (p p' : EventPredictor σ) :
    Prop where
  monotone : p.currentTime ≤ p'.currentTime
  updates : p'.updateTimes = p.updateTimes ∨ ∃ time, p'.updateTimes = p.updateTimes ++ [time] ∧
    p.currentTime ≤ time ∧ time ≤ max p.currentTime (getTime prediction)
  reads : ∃ vars, p'.reads = readings readers vars

private theorem distributed_static (hM : M.Assumed) {p : EventPredictor σ}
    {prediction : EventPtr PredictorEvent} {ev : StaticEvent} (hle : ev.time ≤ getTime prediction) :
    Outcome (distribute M c readers p (.staticEvent ev)) (Distributed readers prediction p) (¬·.Misuse) := by
  apply ((distribute_staticEvent ev readers).excuse fun _ hf => hf hM).mono
  rintro p' ⟨image, hp'⟩
  split at hp'
  · obtain ⟨s, rfl⟩ := hp'
    have hbounds := alignTime_bounds hM p hle
    exact ⟨hbounds.1, .inr ⟨_, rfl, hbounds⟩, ev.vars, rfl⟩
  · subst hp'
    exact ⟨le_rfl, .inl rfl, ev.vars, rfl⟩

private theorem distribute_distributed (hM : M.Assumed) {p : EventPredictor σ}
    {prediction : EventPtr PredictorEvent} {entry : EventPtr PredictorEvent × Bool}
    (hnonneg : 0 ≤ p.currentTime) (hpredicted : Predicted c p prediction.event)
    (hle : p.currentTime ≤ prediction.event.time)
    (hdeliverable : EventDispatcher.Deliverable prediction entry)
    (hexternal : EventDispatcher.External (simulation M c readers) entry) :
    Outcome (distribute M c readers p entry.1.event) (Distributed readers prediction p) (¬·.Misuse) := by
  have htime {ptr : EventPtr PredictorEvent} {ev : StaticEvent} (hev : ptr.event = .staticEvent ev) :
      getTime ptr = ev.time := by
    change ptr.event.time = ev.time
    rw [hev]
    rfl
  rcases hdeliverable with rfl | ⟨hflag, hlt⟩
  · dsimp only
    cases hev : prediction.event with
    | staticEvent ev => exact distributed_static hM (htime hev).ge
    | lazyEvent time =>
      rw [hev] at hpredicted hle
      apply ((distribute_lazyEvent hpredicted readers).excuse fun _ hf => hf hM hnonneg hle).mono
      rintro p' ⟨s, vars, image, rfl⟩
      exact ⟨hle, .inl rfl, vars, rfl⟩
  · obtain ⟨ev, hev⟩ := hexternal hflag
    have hev' : entry.1.event = .staticEvent ev := hev
    rw [hev']
    exact distributed_static hM (htime hev' ▸ hlt.le)

theorem time_step (hM : M.Assumed) {s t : RunState σ} {l : Label StaticEvent}
    (hs : TimeInvariant M c readers s) (h : EventDispatcher.Steps (simulation M c readers) theEnd s l t) :
    TimeInvariant M c readers t ∧ TimeStep s l t := by
  have hcycle := EventDispatcher.cycleInvariant_step hs.cycle h
  have horigin := EventDispatcher.origin_step hs.origin h
  have hpredicted := hs.predicted
  cases h with
  | pushExternal ev =>
    exact ⟨⟨hcycle, horigin, hs.nonneg, hpredicted, hs.faults, hs.reads⟩, .of_predictor_eq rfl⟩
  | addExternal address ptr found =>
    exact ⟨⟨hcycle, horigin, hs.nonneg, hpredicted, hs.faults, hs.reads⟩, .of_predictor_eq rfl⟩
  | predict ev predictor phase next =>
    obtain ⟨hnew, htime, hupdates, hreads, hle, -⟩ := (predictNext_spec s.predictor).of_ok next
    refine ⟨⟨hcycle, horigin, htime ▸ hs.nonneg, ⟨hnew, htime ▸ hle hM⟩, fun _ hf => (nomatch hf), ?_⟩,
      ⟨htime.ge, .inl hupdates, fun hne => absurd htime hne⟩⟩
    exact hs.reads.imp id fun ⟨vars, hvars⟩ => ⟨vars, hreads.trans hvars⟩
  | predictFault fault phase next =>
    have hfault := (predictNext_spec s.predictor).of_error next
    refine ⟨⟨hcycle, horigin, hs.nonneg, trivial, fun f hf => ?_, hs.reads⟩, .of_predictor_eq rfl⟩
    cases hf
    exact hfault
  | addPrediction p phase =>
    rw [phase] at hpredicted
    exact ⟨⟨hcycle, horigin, hs.nonneg, hpredicted, fun _ hf => (nomatch hf), hs.reads⟩, .of_predictor_eq rfl⟩
  | get now p entry rest phase front due =>
    rw [phase] at hpredicted
    exact ⟨⟨hcycle, horigin, hs.nonneg, hpredicted, fun _ hf => (nomatch hf), hs.reads⟩, .of_predictor_eq rfl⟩
  | beginDistribution p entry phase =>
    rw [phase] at hpredicted
    exact ⟨⟨hcycle, horigin, hs.nonneg, hpredicted, fun _ hf => (nomatch hf), hs.reads⟩, .of_predictor_eq rfl⟩
  | distribute p entry predictor phase done =>
    have hdeliverable := hs.cycle.1
    have hexternal := hs.origin.phase
    rw [phase] at hpredicted hdeliverable hexternal
    obtain ⟨hmono, hupdates, hreads⟩ :=
      (distribute_distributed hM hs.nonneg hpredicted.1 hpredicted.2 hdeliverable.2.2 hexternal).of_ok done
    have hphase := EventDispatcher.finish_phase theEnd { s with predictor := predictor } entry
    refine ⟨⟨hcycle, horigin, hs.nonneg.trans hmono, ?_, fun f hf => ?_, .inr hreads⟩, ⟨hmono, ?_, ?_⟩⟩
    · rcases hphase with hp | hp <;> rw [hp] <;> trivial
    · rcases hphase with hp | hp <;> rw [hp] at hf <;> cases hf
    · rcases hupdates with hsame | ⟨time, hnew⟩
      · exact .inl hsame
      · exact .inr ⟨p, entry, time, phase, hnew⟩
    · exact fun _ => ⟨rfl, p, entry, phase⟩
  | distributeFault p entry fault phase done =>
    have hdeliverable := hs.cycle.1
    have hexternal := hs.origin.phase
    rw [phase] at hpredicted hdeliverable hexternal
    have hfault := (distribute_distributed hM hs.nonneg hpredicted.1 hpredicted.2 hdeliverable.2.2
      hexternal).of_error done
    refine ⟨⟨hcycle, horigin, hs.nonneg, trivial, fun f hf => ?_, hs.reads⟩, .of_predictor_eq rfl⟩
    cases hf
    exact hfault

theorem timeInvariant_init (solver : σ) {start : ℚ} (hstart : 0 ≤ start)
    (inputImage : (type : FMIVariableType) → List (Carrier type)) (now : Int) :
    TimeInvariant M c readers (EventDispatcher.init (init solver start inputImage) now start) :=
  ⟨EventDispatcher.cycleInvariant_init _ _ _, EventDispatcher.originInvariant_init _ _ _ _, hstart, trivial,
    fun _ hf => (nomatch hf), .inl rfl⟩

/-- In every run the time of the model never decreases and changes only when an event is
delivered, `updateState` stays between the current time and the prediction of the cycle, no
assertion of `getOutputVariables` fails, no event is outdated when it is read, and the listeners
of an event, the predictor included, all read the same variables. -/
theorem model_time_follows_delivered_events (M : IncrementalFMU σ) (hM : M.Assumed)
    (c : PredictorConfiguration) (readers : Nat) (solver : σ) (start : ℚ) (hstart : 0 ≤ start)
    (inputImage : (type : FMIVariableType) → List (Carrier type)) (now : Int) (theEnd : ℚ)
    (labels : List (Label StaticEvent)) (s : RunState σ)
    (h : EventDispatcher.Reaches (simulation M c readers) theEnd
      (EventDispatcher.init (init solver start inputImage) now start) labels s) :
    (∀ assertion, s.phase ≠ .failed (.getOutputVariables assertion)) ∧
    (∀ time, s.phase ≠ .failed (.solver "The event is outdated" time)) ∧
    (s.delivered = [] ∨ ∃ vars, s.predictor.reads = List.replicate 4 vars ++ List.replicate readers vars) ∧
    ∀ l t, EventDispatcher.step (simulation M c readers) theEnd s l = some t →
      s.predictor.currentTime ≤ t.predictor.currentTime ∧
      (t.predictor.updateTimes = s.predictor.updateTimes ∨
        ∃ p entry time, s.phase = .distributing p entry ∧
          t.predictor.updateTimes = s.predictor.updateTimes ++ [time] ∧
          s.predictor.currentTime ≤ time ∧ time ≤ max s.predictor.currentTime (getTime p)) ∧
      (t.predictor.currentTime ≠ s.predictor.currentTime →
        l = .distribute ∧ ∃ p entry, s.phase = .distributing p entry) := by
  have hinv : TimeInvariant M c readers s := h.invariant (timeInvariant_init solver hstart inputImage now)
    fun _ _ _ hs hstep => (time_step hM hs hstep).1
  refine ⟨fun a ha => hinv.faults _ ha trivial, fun time ht => hinv.faults _ ht (.inl rfl), hinv.reads,
    fun l t hstep => ?_⟩
  have ht := (time_step hM hinv (EventDispatcher.step_steps hstep)).2
  exact ⟨ht.monotone, ht.updates, ht.delivered⟩

/-- A model that predicts an event every second and reads zero everywhere. -/
def steadyModel : IncrementalFMU Unit where
  getTimeDiffResolution := 1 / 1000
  predictState _ time := (some (time + 1), ())
  updateState _ time := (time, ())
  updateStateFromTheRight _ time := (time, ())
  syncState _ _ _ := ()
  getOutputs _
    | .fmiTypeReal => some fun _ => 0
    | .fmiTypeInteger => some fun _ => 0
    | .fmiTypeBoolean => some fun _ => fmiFalse
    | .fmiTypeString => some fun _ => []
    | .fmiTypeUnknown => none

theorem steadyModel_assumed : steadyModel.Assumed where
  resolution_pos := by norm_num [steadyModel]
  predictState _ t next h := by
    cases h
    exact le_add_of_nonneg_right zero_le_one
  updateState _ _ := rfl
  updateStateFromTheRight _ t := by norm_num [steadyModel]

/-- One real input and one real output. -/
def feedThrough (assumeDirectDependency : Bool) : PredictorConfiguration where
  context := .feedThrough
  assumeDirectDependency := assumeDirectDependency
  known_outputs := by decide +kernel
  known_inputs := by decide +kernel

/-- A prediction is delivered to two readers while a late external event waits. -/
theorem model_time_follows_delivered_events_steady :
    steadyModel.Assumed ∧ (0 : ℚ) ≤ 0 ∧
    ∃ s, EventDispatcher.Reaches (simulation steadyModel (feedThrough false) 2) 10
        (EventDispatcher.init (init () 0 fun _ => []) 0 0)
        [.predict, .addPrediction, .get 1000000, .beginDistribution,
          .pushExternal ⟨1 / 2, [⟨(.fmiTypeReal, 1), .real 0⟩]⟩, .distribute] s ∧
      s.predictor.currentTime = 1 ∧
      (s.delivered = [] ∨ ∃ vars, s.predictor.reads = List.replicate 4 vars ++ List.replicate 2 vars) := by
  obtain ⟨s, hs, htime⟩ := LabelledRun.exec_of_any
    (EventDispatcher.step (simulation steadyModel (feedThrough false) 2) 10)
    (EventDispatcher.init (init () 0 fun _ => []) 0 0)
    [.predict, .addPrediction, .get 1000000, .beginDistribution,
      .pushExternal ⟨1 / 2, [⟨(.fmiTypeReal, 1), .real 0⟩]⟩, .distribute]
    (fun s => s.predictor.currentTime = 1) (by decide +kernel)
  have htimes := model_time_follows_delivered_events steadyModel steadyModel_assumed (feedThrough false) 2 ()
    0 le_rfl (fun _ => []) 0 10 _ s hs
  exact ⟨steadyModel_assumed, le_rfl, s, hs, htime, htimes.2.2.1⟩

end FMITerminalBlock.Model.EventPredictor
