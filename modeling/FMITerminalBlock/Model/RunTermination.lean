import FMITerminalBlock.Model.PeriodicPoints
import FMITerminalBlock.Timing.RunLength

/-! The end of a run in the single step mode with a constant step size. Each step gets on by the step
size up to the timing precision, so that the stop time is reached. -/
namespace FMITerminalBlock.Model
open Base Timing

namespace OneStepEventPredictor
variable {σ : Type} {M : FMUModelExchange σ} {c : OneStepConfiguration} {context : ApplicationContext.Settled}

/-- The part of a step that is sure to be made. -/
def pace (c : OneStepConfiguration) : ℚ :=
  c.simulationProperties.lookAheadStepSize - c.simulationProperties.timingPrecision

/-- The points that are no longer offered. -/
def rank (p : OneStepEventPredictor σ) : Nat :=
  p.synchronizationPoints.length - p.currentPrediction.toList.length

/-- Every point is later than the one before it by the pace. -/
structure Paced (M : FMUModelExchange σ) (c : OneStepConfiguration) (context : ApplicationContext.Settled) (begin : ℚ)
    (p : OneStepEventPredictor σ) : Prop where
  time : begin + p.synchronizationPoints.length * pace c ≤ M.getTime p.fmu
  current : ∀ ev, p.currentPrediction = some ev → 0 < p.synchronizationPoints.length ∧
    begin + p.synchronizationPoints.length * pace c ≤ ev.time ∧ OutputOnly context ev.vars

theorem integrateTo_ge (hconstant : c.simulationProperties.variableStepSizeOnModelEvent = false) {target : ℚ}
    {turns : Nat} {s s' : σ} (h : integrateTo M c target turns s = .ok s') :
    target - c.simulationProperties.timingPrecision ≤ M.getTime s' := by
  induction turns generalizing s with
  | zero => cases h
  | succ turns ih =>
    simp only [integrateTo, hconstant, Bool.not_false, true_and] at h
    split at h
    · cases h
    · split at h
      · exact ih h
      · rename_i hclose
        cases h
        exact not_lt.mp hclose

theorem Paced.predictNext (hM : M.Advances) (hc : Configured context c)
    (hconstant : c.simulationProperties.variableStepSizeOnModelEvent = false) {begin : ℚ} {turns : Nat}
    {p p' : OneStepEventPredictor σ} {ev : StaticEvent} (hp : Paced M c context begin p)
    (h : predictNext M c turns p = .ok (ev, p')) :
    Paced M c context begin p' ∧ p'.currentPrediction = some ev ∧ rank p ≤ rank p' := by
  rcases predictNext_cases hc h with ⟨hcur, rfl⟩ | ⟨hcur, hcur', hpoints, houtput⟩
  · exact ⟨hp, hcur, le_rfl⟩
  · obtain ⟨s, hs, htime, hev, -⟩ := predictNext_point hM h hcur
    have hge := integrateTo_ge hconstant hs
    have hlater : begin + p'.synchronizationPoints.length * pace c ≤ M.getTime s := by
      have hbefore := hp.time
      rw [hpoints, List.length_append, List.length_singleton, Nat.cast_succ]
      simp only [pace] at hbefore ⊢
      linarith
    refine ⟨⟨htime ▸ hlater, fun ev' hev' => ?_⟩, hcur', ?_⟩
    · rw [hcur'] at hev'
      cases hev'
      exact ⟨by simp [hpoints], hev ▸ hlater, houtput⟩
    · simp [rank, hcur, hcur', hpoints]

theorem Paced.eventTriggered (hM : M.Advances) (hc : Configured context c) {begin : ℚ}
    {p p' : OneStepEventPredictor σ} {ev : StaticEvent} (hp : Paced M c context begin p)
    (h : eventTriggered M c p ev = .ok p') : Paced M c context begin p' ∧ rank p ≤ rank p' := by
  obtain ⟨htime, hpoints⟩ := eventTriggered_time hM h
  obtain ⟨-, hkept, hrevoked⟩ := eventTriggered_spec hc h
  by_cases hcarries : ev.CarriesInput context
  · have hcur := hkept hcarries
    refine ⟨⟨by rw [hpoints, htime]; exact hp.time, by rw [hpoints, hcur]; exact hp.current⟩, ?_⟩
    rw [rank, rank, hpoints, hcur]
  · have hcur := hrevoked hcarries
    refine ⟨⟨by rw [hpoints, htime]; exact hp.time, fun ev' hev' => ?_⟩, ?_⟩
    · rw [hcur] at hev'
      cases hev'
    · rw [rank, rank, hpoints, hcur]
      exact Nat.sub_le _ _

/-- Once its point is delivered, the predictor goes on to the next one. -/
theorem simulation_getsOn (hM : M.Advances) (hc : Configured context c)
    (hconstant : c.simulationProperties.variableStepSizeOnModelEvent = false) (begin : ℚ) (turns : Nat) :
    EventDispatcher.GetsOn (simulation M c turns) (Paced M c context begin) rank begin (pace c) where
  predictNext p ev p' hp h := by
    obtain ⟨hp', hcur, hrank⟩ := hp.predictNext hM hc hconstant h
    obtain ⟨hpos, htime, -⟩ := hp'.current ev hcur
    refine ⟨hp', hrank, ?_⟩
    have hcast : (rank p' : ℚ) + 1 = p'.synchronizationPoints.length := by
      have hlength : rank p' + 1 = p'.synchronizationPoints.length := by
        simp only [rank, hcur, Option.toList_some, List.length_singleton]
        omega
      exact_mod_cast hlength
    rw [hcast]
    exact htime
  distribute p ev p' hp h := hp.eventTriggered hM hc h
  prediction p ev p' p'' hp hnext h := by
    obtain ⟨hp', hcur, -⟩ := hp.predictNext hM hc hconstant hnext
    obtain ⟨hpos, -, houtput⟩ := hp'.current ev hcur
    obtain ⟨hpoints, -, hrevoked⟩ := eventTriggered_spec hc h
    have hnone := hrevoked fun ⟨v, hv, hin⟩ => houtput.not_mem_input hv hin
    simp only [rank, hpoints, hcur, hnone, Option.toList_some, Option.toList_none, List.length_singleton,
      List.length_nil]
    omega

theorem paced_start (hM : M.Advances) {s : σ} {p : OneStepEventPredictor σ} (h : start M c s = .ok p) :
    Paced M c context (M.getTime s) p := by
  obtain ⟨hcur, hpoints⟩ := updateOutputImage_start h
  have htime : M.getTime p.fmu = M.getTime s := by
    obtain ⟨r, hr, rfl⟩ := Fallible.map_eq_ok.mp h
    exact updateOutputImage_time hM hr
  refine ⟨by simp [hpoints, htime], fun ev hev => ?_⟩
  rw [hcur] at hev
  cases hev

/-! ### Faults -/

/-- The model interrupts no step so often that the given number of turns is not enough. -/
def CompletesSteps (M : FMUModelExchange σ) (c : OneStepConfiguration) (turns : Nat) : Prop :=
  ∀ s, integrateTo M c (M.getTime s + c.simulationProperties.lookAheadStepSize) turns s ≠ .error .endlessIntegration

theorem updateOutputImage_fault (p : OneStepEventPredictor σ) :
    Fallible.Outcome (updateOutputImage M c p) (fun _ => True) (· ≠ .endlessIntegration) := by
  refine Fallible.Outcome.foldlM (fun _ _ => True) (fun past r type _ _ => ?_) trivial
  refine Fallible.Outcome.map (P := fun _ => True) ?_ fun _ _ => trivial
  rw [updateOutputImageOf]
  split
  · trivial
  · split
    · exact Fallible.Outcome.error (by simp)
    · trivial

theorem predictNext_fault {turns : Nat} (hturns : CompletesSteps M c turns) (p : OneStepEventPredictor σ) :
    Fallible.Outcome (predictNext M c turns p) (fun _ => True) (· ≠ .endlessIntegration) := by
  unfold predictNext
  split
  · trivial
  · have hstep : Fallible.Outcome (predictOneStep M c turns p) (fun _ => True) (· ≠ .endlessIntegration) := by
      refine Fallible.Outcome.map (P := fun _ => True) ?_ fun _ _ => trivial
      cases h : integrateTo M c (M.getTime p.fmu + c.simulationProperties.lookAheadStepSize) turns p.fmu with
      | ok s => trivial
      | error fault =>
        rintro rfl
        exact hturns p.fmu h
    refine hstep.bind fun p _ => ?_
    exact (updateOutputImage_fault p).bind fun r _ => trivial

theorem updateInputVariables_fault (vars : List Variable) (s : σ) :
    Fallible.Outcome (updateInputVariables M c vars s) (fun _ => True) (· ≠ .endlessIntegration) := by
  induction vars generalizing s with
  | nil => trivial
  | cons v vars ih =>
    have hfirst : Fallible.Outcome (updateInputVariable M c s v) (fun _ => True) (· ≠ .endlessIntegration) := by
      unfold updateInputVariable
      split
      · exact Fallible.Outcome.error (by simp)
      · split
        · trivial
        · split
          · trivial
          · exact Fallible.Outcome.error (by simp)
    refine hfirst.bind fun r _ => ?_
    exact (ih r.2).bind fun _ _ => trivial

theorem eventTriggered_fault (p : OneStepEventPredictor σ) (ev : StaticEvent) :
    Fallible.Outcome (eventTriggered M c p ev) (fun _ => True) (· ≠ .endlessIntegration) := by
  refine (updateInputVariables_fault ev.vars p.fmu).bind fun r _ => ?_
  dsimp only
  split <;> trivial

theorem phase_ne_endless {turns : Nat} (hturns : CompletesSteps M c turns) {theEnd : ℚ} {s t : RunState σ}
    {l : Label StaticEvent} (hs : s.phase ≠ .failed .endlessIntegration)
    (h : EventDispatcher.Steps (simulation M c turns) theEnd s l t) : t.phase ≠ .failed .endlessIntegration := by
  cases h with
  | predictFault fault phase next =>
    have hfault := (predictNext_fault hturns s.predictor).of_error next
    simpa using hfault
  | distributeFault p entry fault phase done =>
    have hfault := (eventTriggered_fault s.predictor entry.1.event).of_error done
    simpa using hfault
  | distribute p entry predictor phase done =>
    rcases EventDispatcher.finish_phase theEnd { s with predictor := predictor } entry with hp | hp <;> simp [hp]
  | pushExternal ev => exact hs
  | addExternal address ptr found => exact hs
  | _ => simp

/-! ### Runs -/

/-- A run of the dispatcher in the single step mode ends. With a constant step size above the timing
precision it makes at most five steps for each pushed event and each point up to the stop time,
it can always go on until it stops or fails, and it never fails in a step of the model that has no end. -/
theorem dispatcher_run_ends (M : FMUModelExchange σ) (hM : M.Advances) (context : ApplicationContext.Settled)
    (properties : SimulationProperties) (c : OneStepConfiguration) (hconfig : configure M context properties = .ok c)
    (hconstant : c.simulationProperties.variableStepSizeOnModelEvent = false)
    (hprecision : c.simulationProperties.timingPrecision < c.simulationProperties.lookAheadStepSize) (turns : Nat)
    (hturns : CompletesSteps M c turns) (s₀ : σ) (p : OneStepEventPredictor σ) (hstart : start M c s₀ = .ok p)
    (now : Int) (startTime theEnd : ℚ) (labels : List (Label StaticEvent)) (s : RunState σ)
    (hrun : EventDispatcher.Reaches (simulation M c turns) theEnd (EventDispatcher.init p now startTime) labels s) :
    labels.countP Label.isRun ≤
        5 * (labels.countP Label.isPush + EventDispatcher.limit (M.getTime s₀) (pace c) theEnd) ∧
      (s.phase ≠ .stopped → (∀ fault, s.phase ≠ .failed fault) → ∃ l : Label StaticEvent, l.isRun = true ∧
        (EventDispatcher.step (simulation M c turns) theEnd s l).isSome) ∧
      s.phase ≠ .failed .endlessIntegration := by
  have hgets := simulation_getsOn hM (configure_configured hconfig) hconstant (M.getTime s₀) turns
  refine ⟨hrun.countP_isRun_le hgets (sub_pos.mpr hprecision) (paced_start hM hstart),
    hrun.cycleInvariant.exists_step, ?_⟩
  refine hrun.invariant ?_ fun _ _ _ hs h => phase_ne_endless hturns hs h
  simp [EventDispatcher.init]

/-- Half a second before the target the model stops once, and then it goes all the way. -/
theorem stoppingModel_completesSteps : CompletesSteps (stoppingModel (1 / 2)) idleConfiguration 5 := by
  intro s h
  have hstep : idleConfiguration.simulationProperties.lookAheadStepSize = 1 := by decide +kernel
  have hconstant : idleConfiguration.simulationProperties.variableStepSizeOnModelEvent = false := by decide +kernel
  have hfirst : s < s + 1 - 1 / 2 := by linarith
  have hearly : s + 1 - 1 / 2 < s + 1 - 1 / 10000 := by linarith
  have hlast : ¬s + 1 < s + 1 - 1 / 10000 := by linarith
  change integrateTo (stoppingModel (1 / 2)) idleConfiguration
    (s + idleConfiguration.simulationProperties.lookAheadStepSize) 5 s = _ at h
  rw [hstep] at h
  simp [-one_div, integrateTo, stoppingModel, idleModel, hconstant, SimulationProperties.timingPrecision, hfirst,
    hearly, hlast] at h

theorem dispatcher_run_ends_delayed :
    ∃ s, EventDispatcher.Reaches (simulation (stoppingModel (1 / 2)) idleConfiguration 5) 10
        (EventDispatcher.init idlePredictor 0 0) delayedRun s ∧
      delayedRun.countP Label.isRun ≤ 5 * (delayedRun.countP Label.isPush + EventDispatcher.limit 0 (9999 / 10000) 10) ∧
      ∃ l : Label StaticEvent, l.isRun = true ∧
        (EventDispatcher.step (simulation (stoppingModel (1 / 2)) idleConfiguration 5) 10 s l).isSome := by
  obtain ⟨s, hrun, hphase⟩ := LabelledRun.exec_of_any
    (EventDispatcher.step (simulation (stoppingModel (1 / 2)) idleConfiguration 5) 10)
    (EventDispatcher.init idlePredictor 0 0) delayedRun (fun s => s.phase = .predicting) (by decide +kernel)
  have hpace : pace idleConfiguration = 9999 / 10000 := by decide +kernel
  obtain ⟨hbound, hnext, -⟩ := dispatcher_run_ends (stoppingModel (1 / 2)) (stoppingModel_advances (1 / 2) (by norm_num))
    .feedThrough unitSteps idleConfiguration (Fallible.eq_ok_get _) (by decide +kernel) (by decide +kernel) 5
    stoppingModel_completesSteps 0 idlePredictor (Fallible.eq_ok_get _) 0 0 10 delayedRun s hrun
  rw [hpace] at hbound
  exact ⟨s, hrun, hbound, hnext (by simp [hphase]) (by simp [hphase])⟩

end OneStepEventPredictor
end FMITerminalBlock.Model
