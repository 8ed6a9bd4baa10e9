import FMITerminalBlock.Model.SynchronizationPoints
import Mathlib.Algebra.BigOperators.Group.List.Basic
import Mathlib.Algebra.Order.BigOperators.Group.List
import Mathlib.Tactic.Linarith

/-! The distance of the synchronization points with a constant step size. A step may end early by
the timing precision and the next one starts where it has ended, so the deviations add up. -/
namespace FMITerminalBlock.Model

/-- The behaviour of the model that the step control relies on: an integration succeeds and moves
the time towards the target, possibly not all the way, and nothing else moves the time. -/
structure FMUModelExchange.Advances {σ : Type} (M : FMUModelExchange σ) : Prop where
  integrate : ∀ s target step, M.getTime s < target →
    (M.integrate s target step).1.isSome ∧ M.getLastStatus (M.integrate s target step).2 = true ∧
      M.getTime s < M.getTime (M.integrate s target step).2 ∧ M.getTime (M.integrate s target step).2 ≤ target
  getValue : ∀ s type refs, M.getTime (M.getValue s type refs).2 = M.getTime s
  setValue : ∀ s ref value, M.getTime (M.setValue s ref value).2 = M.getTime s
  handleEvents : ∀ s, M.getTime (M.handleEvents s) = M.getTime s

namespace OneStepEventPredictor
open Base Timing Fallible
variable {σ : Type}

/-- The calls other code makes to the predictor. -/
inductive Call where
  | predictNext
  | eventTriggered (ev : StaticEvent)
  deriving DecidableEq

/-- One call of `integrate`: the requested time and the one at which the model has stopped. -/
structure Integration where
  target : ℚ
  reached : ℚ
  deriving DecidableEq

/-- How much too early the model has stopped in an integration that is accepted as the last one of
its step. Stops at a greater distance are only passed through. -/
def Integration.earliness (i : Integration) : ℚ :=
  if i.reached < i.target - 1 / 10000 then 0 else i.target - i.reached

def totalEarliness (log : List Integration) : ℚ := (log.map Integration.earliness).sum

section
variable (M : FMUModelExchange σ) (c : OneStepConfiguration)

/-- The integrations that the loop of `predictOneStep` makes. -/
def integrations (nextCompleteStep : ℚ) : Nat → σ → List Integration
  | 0, _ => []
  | turns + 1, s =>
    match M.integrate s nextCompleteStep c.simulationProperties.integratorStepSize with
    | (_, s) => ⟨nextCompleteStep, M.getTime s⟩ ::
      if !c.simulationProperties.variableStepSizeOnModelEvent ∧
          M.getTime s < nextCompleteStep - c.simulationProperties.timingPrecision then
        integrations nextCompleteStep turns s
      else []

/-- One call that returns. The answers of the model are logged beside the predictor. -/
def call (turns : Nat) : OneStepEventPredictor σ × List Integration → Call →
    Option (OneStepEventPredictor σ × List Integration)
  | (p, log), .predictNext => (predictNext M c turns p).toOption.map fun (_, p') =>
      (p', match p.currentPrediction with
        | some _ => log
        | none => log ++
          integrations M c (M.getTime p.fmu + c.simulationProperties.lookAheadStepSize) turns p.fmu)
  | (p, log), .eventTriggered ev => (eventTriggered M c p ev).toOption.map (·, log)

end

variable {M : FMUModelExchange σ} {c : OneStepConfiguration}

/-! ### One step -/

theorem totalEarliness_append (log more : List Integration) :
    totalEarliness (log ++ more) = totalEarliness log + totalEarliness more := by
  rw [totalEarliness, List.map_append, List.sum_append]
  rfl

theorem totalEarliness_eq_zero {log : List Integration}
    (h : ∀ i ∈ log, i.reached = i.target ∨ i.reached < i.target - 1 / 10000) : totalEarliness log = 0 := by
  apply List.sum_eq_zero
  intro e he
  obtain ⟨i, hi, rfl⟩ := List.mem_map.mp he
  rw [Integration.earliness]
  split
  · rfl
  · rename_i hlate
    rw [(h i hi).resolve_right hlate, sub_self]

/-- A step ends at most the precision before its target, and the last integration alone tells by
how much. -/
theorem integrateTo_earliness (hM : M.Advances) (hconstant : c.simulationProperties.variableStepSizeOnModelEvent = false)
    {target : ℚ} {turns : Nat} {s s' : σ} (hs : M.getTime s < target) (h : integrateTo M c target turns s = .ok s') :
    totalEarliness (integrations M c target turns s) = target - M.getTime s' ∧ M.getTime s' ≤ target := by
  induction turns generalizing s with
  | zero => cases h
  | succ turns ih =>
    obtain ⟨hsome, hstatus, -, hle⟩ := hM.integrate s target c.simulationProperties.integratorStepSize hs
    cases hintegrate : M.integrate s target c.simulationProperties.integratorStepSize with
    | mk nextTime next =>
      simp only [hintegrate] at hsome hstatus hle
      have hnone : nextTime.isNone = false := by rw [← Option.not_isSome, hsome]; rfl
      simp only [integrateTo, hintegrate, hnone, hstatus, hconstant, Bool.not_true, Bool.or_self,
        Bool.false_eq_true, if_false, Bool.not_false, true_and] at h
      simp only [integrations, hintegrate, hconstant, Bool.not_false, true_and]
      rw [totalEarliness, List.map_cons, List.sum_cons, ← totalEarliness, Integration.earliness]
      split at h
      · rename_i hearly
        have hprecision : target - c.simulationProperties.timingPrecision < target :=
          sub_lt_self target (by norm_num [SimulationProperties.timingPrecision])
        obtain ⟨hrest, hle'⟩ := ih (hearly.trans hprecision) h
        rw [if_pos (by exact hearly), if_pos hearly, hrest, zero_add]
        exact ⟨rfl, hle'⟩
      · rename_i hclose
        cases h
        rw [if_neg (by exact hclose), if_neg hclose]
        exact ⟨add_zero _, hle⟩

theorem updateOutputImage_time (hM : M.Advances) {p : OneStepEventPredictor σ} {r : Bool × OneStepEventPredictor σ}
    (h : updateOutputImage M c p = .ok r) : M.getTime r.2.fmu = M.getTime p.fmu := by
  refine (Outcome.foldlM (E := fun _ => True) (fun _ r => M.getTime r.2.fmu = M.getTime p.fmu) ?_ rfl).of_ok h
  intro _ r type hr _
  refine Outcome.map (P := fun q => M.getTime q.2.fmu = M.getTime p.fmu) ?_ fun q hq => hq
  rw [updateOutputImageOf]
  split
  · exact .ok hr
  · have hvalue := hM.getValue r.2.fmu type (c.outputValueReference type)
    split
    · exact .error trivial
    · rename_i hget
      rw [hget] at hvalue
      exact .ok (hvalue.trans hr)

theorem updateInputVariables_time (hM : M.Advances) {vars : List Variable} {s : σ} {r : Bool × σ}
    (h : updateInputVariables M c vars s = .ok r) : M.getTime r.2 = M.getTime s := by
  induction vars generalizing s r with
  | nil =>
    cases h
    rfl
  | cons v vars ih =>
    obtain ⟨⟨first, s₁⟩, h₁, h⟩ := bind_eq_ok.mp h
    obtain ⟨⟨rest, s₂⟩, h₂, h⟩ := bind_eq_ok.mp h
    cases h
    have hfirst : M.getTime s₁ = M.getTime s := by
      unfold updateInputVariable at h₁
      split at h₁
      · cases h₁
      · split at h₁
        · cases h₁
          rfl
        · rename_i ref _
          have hvalue := hM.setValue s ref v.value
          split at h₁
          · rename_i hset
            cases h₁
            rwa [hset] at hvalue
          · cases h₁
    exact (ih h₂).trans hfirst

theorem eventTriggered_time (hM : M.Advances) {p p' : OneStepEventPredictor σ} {ev : StaticEvent}
    (h : eventTriggered M c p ev = .ok p') :
    M.getTime p'.fmu = M.getTime p.fmu ∧ p'.synchronizationPoints = p.synchronizationPoints := by
  obtain ⟨⟨updated, s⟩, hupdated, h⟩ := bind_eq_ok.mp h
  have htime := updateInputVariables_time hM hupdated
  dsimp only at h
  split at h
  · cases h
    exact ⟨(hM.handleEvents s).trans htime, rfl⟩
  · cases h
    exact ⟨htime, rfl⟩

/-- A new point lies where the step has ended. -/
theorem predictNext_point (hM : M.Advances) {turns : Nat} {p p' : OneStepEventPredictor σ} {ev : StaticEvent}
    (h : predictNext M c turns p = .ok (ev, p')) (hcur : p.currentPrediction = none) :
    ∃ s, integrateTo M c (M.getTime p.fmu + c.simulationProperties.lookAheadStepSize) turns p.fmu = .ok s ∧
      M.getTime p'.fmu = M.getTime s ∧ ev.time = M.getTime s ∧
      p'.synchronizationPoints = p.synchronizationPoints ++ [ev] := by
  unfold predictNext at h
  rw [hcur] at h
  obtain ⟨p₁, h₁, h⟩ := bind_eq_ok.mp h
  obtain ⟨⟨valuesChanged, p₂⟩, h₂, h⟩ := bind_eq_ok.mp h
  cases h
  have hpoints := (updateOutputImage_frame h₂).2.trans (predictOneStep_frame h₁).2
  have htime := updateOutputImage_time hM h₂
  obtain ⟨s, hs, rfl⟩ := map_eq_ok.mp h₁
  refine ⟨s, hs, htime, ?_, by rw [← hpoints]⟩
  split
  · exact htime
  · exact htime

/-! ### Runs -/

/-- The instants of a strictly periodic sequence. -/
def periodicPoint (c : OneStepConfiguration) (begin : ℚ) (n : Nat) : ℚ :=
  begin + n * c.simulationProperties.lookAheadStepSize

theorem periodicPoint_succ (begin : ℚ) (n : Nat) :
    periodicPoint c begin (n + 1) = periodicPoint c begin n + c.simulationProperties.lookAheadStepSize := by
  rw [periodicPoint, periodicPoint, Nat.cast_succ]
  ring

/-- The points lie early by no more than what the model has stopped early so far, and the last one
by exactly this. -/
structure PeriodInvariant (M : FMUModelExchange σ) (c : OneStepConfiguration) (begin : ℚ)
    (s : OneStepEventPredictor σ × List Integration) : Prop where
  time : periodicPoint c begin s.1.synchronizationPoints.length - M.getTime s.1.fmu = totalEarliness s.2
  points : ∀ (n : Nat) ev, s.1.synchronizationPoints[n]? = some ev →
    0 ≤ periodicPoint c begin (n + 1) - ev.time ∧ periodicPoint c begin (n + 1) - ev.time ≤ totalEarliness s.2
  last : s.1.synchronizationPoints = [] ∧ totalEarliness s.2 = 0 ∨
    ∃ past ev, s.1.synchronizationPoints = past ++ [ev] ∧ ev.time = M.getTime s.1.fmu

theorem PeriodInvariant.nonneg {begin : ℚ} {s : OneStepEventPredictor σ × List Integration}
    (hs : PeriodInvariant M c begin s) : 0 ≤ totalEarliness s.2 := by
  rcases hs.last with ⟨-, hzero⟩ | ⟨past, ev, hpoints, -⟩
  · exact hzero.ge
  · have hev : s.1.synchronizationPoints[past.length]? = some ev := by simp [hpoints]
    exact (hs.points past.length ev hev).1.trans (hs.points past.length ev hev).2

/-- The next point: its step starts where the last one has ended. -/
private theorem PeriodInvariant.advance {begin : ℚ} {s t : OneStepEventPredictor σ × List Integration} {ev : StaticEvent}
    {log : List Integration} (hs : PeriodInvariant M c begin s)
    (hpoints : t.1.synchronizationPoints = s.1.synchronizationPoints ++ [ev]) (hev : ev.time = M.getTime t.1.fmu)
    (hlog : t.2 = s.2 ++ log)
    (hearly : totalEarliness log = M.getTime s.1.fmu + c.simulationProperties.lookAheadStepSize - ev.time)
    (hle : ev.time ≤ M.getTime s.1.fmu + c.simulationProperties.lookAheadStepSize) : PeriodInvariant M c begin t := by
  have htotal : totalEarliness t.2 = totalEarliness s.2 + totalEarliness log := by
    rw [hlog, totalEarliness_append]
  have htime : periodicPoint c begin (s.1.synchronizationPoints.length + 1) - ev.time = totalEarliness t.2 := by
    rw [htotal, hearly, ← hs.time, periodicPoint_succ]
    ring
  refine ⟨?_, fun n point hpoint => ?_, .inr ⟨_, ev, hpoints, hev⟩⟩
  · rw [hpoints, List.length_append, List.length_singleton, ← hev, htime]
  · rw [hpoints] at hpoint
    by_cases hn : n < s.1.synchronizationPoints.length
    · rw [List.getElem?_append_left hn] at hpoint
      obtain ⟨hnonneg, hbound⟩ := hs.points n point hpoint
      exact ⟨hnonneg, by linarith⟩
    · rw [List.getElem?_append_right (not_lt.mp hn)] at hpoint
      rw [List.getElem?_singleton] at hpoint
      split at hpoint
      · rename_i hzero
        cases hpoint
        have hlast : n = s.1.synchronizationPoints.length := by omega
        rw [hlast, htime]
        have hnew : 0 ≤ totalEarliness log := by linarith
        exact ⟨by linarith [hs.nonneg], le_rfl⟩
      · cases hpoint

theorem PeriodInvariant.call (hM : M.Advances) (hconstant : c.simulationProperties.variableStepSizeOnModelEvent = false)
    {begin : ℚ} {turns : Nat} {s t : OneStepEventPredictor σ × List Integration} {a : Call}
    (hs : PeriodInvariant M c begin s) (h : call M c turns s a = some t) : PeriodInvariant M c begin t := by
  cases a with
  | eventTriggered ev =>
    obtain ⟨p, hp, rfl⟩ := Option.map_eq_some_iff.mp h
    obtain ⟨htime, hpoints⟩ := eventTriggered_time hM (toOption_eq_some.mp hp)
    exact ⟨by rw [htime, hpoints]; exact hs.time, by rw [hpoints]; exact hs.points,
      by rw [hpoints, htime]; exact hs.last⟩
  | predictNext =>
    obtain ⟨⟨ev, p⟩, hp, rfl⟩ := Option.map_eq_some_iff.mp h
    have hnext := toOption_eq_some.mp hp
    cases hcur : s.1.currentPrediction with
    | some pending =>
      have hsame : p = s.1 := by
        unfold predictNext at hnext
        rw [hcur] at hnext
        cases hnext
        rfl
      subst hsame
      exact hs
    | none =>
      obtain ⟨last, hlast, htime, hev, hpoints⟩ := predictNext_point hM hnext hcur
      have hstep : 0 < c.simulationProperties.lookAheadStepSize :=
        c.simulationProperties.integrator_pos.trans_le c.simulationProperties.integrator_le
      obtain ⟨hearly, hle⟩ := integrateTo_earliness hM hconstant (lt_add_of_pos_right _ hstep) hlast
      rw [← hev] at hearly hle
      exact hs.advance hpoints (hev.trans htime.symm) rfl hearly hle

theorem periodInvariant_start (hM : M.Advances) {s : σ} {p : OneStepEventPredictor σ} (h : start M c s = .ok p) :
    PeriodInvariant M c (M.getTime s) (p, []) := by
  have hpoints := (updateOutputImage_start h).2
  have htime : M.getTime p.fmu = M.getTime s := by
    obtain ⟨r, hr, rfl⟩ := map_eq_ok.mp h
    exact updateOutputImage_time hM hr
  refine ⟨?_, fun n ev hev => ?_, .inl ⟨hpoints, rfl⟩⟩
  · simp [hpoints, htime, periodicPoint, totalEarliness]
  · simp [hpoints] at hev

/-- With a constant step size the points stay within the timing precision of a strictly periodic
sequence exactly if the early stops of the model that end a step add up to no more than the
precision. They are strictly periodic if the model never stops that close before a target. -/
theorem points_periodic_iff_earliness_bounded (M : FMUModelExchange σ) (hM : M.Advances) (c : OneStepConfiguration)
    (hconstant : c.simulationProperties.variableStepSizeOnModelEvent = false) (s : σ) (p₀ : OneStepEventPredictor σ)
    (hstart : start M c s = .ok p₀) (turns : Nat) (calls : List Call) (p : OneStepEventPredictor σ)
    (log : List Integration) (h : LabelledRun.exec (call M c turns) (p₀, []) calls = some (p, log)) :
    ((∀ (n : Nat) ev, p.synchronizationPoints[n]? = some ev →
        |ev.time - periodicPoint c (M.getTime s) (n + 1)| ≤ c.simulationProperties.timingPrecision) ↔
      totalEarliness log ≤ c.simulationProperties.timingPrecision) ∧
    ((∀ i ∈ log, i.reached = i.target ∨ i.reached < i.target - c.simulationProperties.timingPrecision) →
      ∀ (n : Nat) ev, p.synchronizationPoints[n]? = some ev → ev.time = periodicPoint c (M.getTime s) (n + 1)) := by
  have hinv : PeriodInvariant M c (M.getTime s) (p, log) :=
    LabelledRun.exec_invariant (fun _ _ _ hs hstep => hs.call hM hconstant hstep) (periodInvariant_start hM hstart) h
  refine ⟨⟨fun hnear => ?_, fun htotal n ev hev => ?_⟩, fun hstops n ev hev => ?_⟩
  · rcases hinv.last with ⟨-, hzero⟩ | ⟨past, ev, hpoints, hlast⟩
    · rw [hzero]
      norm_num [SimulationProperties.timingPrecision]
    · -- The last point is early by the whole sum.
      replace hpoints : p.synchronizationPoints = past ++ [ev] := hpoints
      have hev : p.synchronizationPoints[past.length]? = some ev := by simp [hpoints]
      have hlength : p.synchronizationPoints.length = past.length + 1 := by simp [hpoints]
      have htime := hinv.time
      rw [hlength, ← hlast] at htime
      rw [← htime, ← neg_sub]
      exact (neg_le_abs _).trans (hnear past.length ev hev)
  · obtain ⟨hnonneg, hbound⟩ := hinv.points n ev hev
    rw [abs_sub_comm, abs_of_nonneg hnonneg]
    exact hbound.trans htotal
  · obtain ⟨hnonneg, hbound⟩ := hinv.points n ev hev
    rw [totalEarliness_eq_zero hstops] at hbound
    linarith

/-- A model that stops for an event shortly before it reaches a target. Its state is its time. -/
def stoppingModel (distance : ℚ) : FMUModelExchange ℚ :=
  { idleModel with
    integrate := fun s target _ =>
      let stop := if s < target - distance then target - distance else target
      (some stop, stop) }

theorem stoppingModel_advances (distance : ℚ) (h : 0 ≤ distance) : (stoppingModel distance).Advances where
  integrate s target step hs := by
    have hs' : s < target := hs
    refine ⟨rfl, rfl, ?_, ?_⟩
    · change s < if s < target - distance then target - distance else target
      split
      · assumption
      · exact hs'
    · change (if s < target - distance then target - distance else target) ≤ target
      split
      · exact sub_le_self target h
      · exact le_rfl
  getValue s type refs := by cases type <;> rfl
  setValue _ _ _ := rfl
  handleEvents _ := rfl

/-- Two points with a prediction delivered between them. -/
def twoPoints : List Call := [.predictNext, .eventTriggered ⟨1, []⟩, .predictNext]

/-- The model stops half a second before each target. The stops are passed through and the points
are strictly periodic. -/
theorem points_periodic_iff_earliness_bounded_half :
    (stoppingModel (1 / 2)).Advances ∧
    ∃ p log, LabelledRun.exec (call (stoppingModel (1 / 2)) idleConfiguration 5) (idlePredictor, []) twoPoints =
        some (p, log) ∧ p.synchronizationPoints.map StaticEvent.time = [1, 2] ∧
      ∀ (n : Nat) ev, p.synchronizationPoints[n]? = some ev → ev.time = periodicPoint idleConfiguration 0 (n + 1) := by
  have hM := stoppingModel_advances (1 / 2) (by norm_num)
  obtain ⟨⟨p, log⟩, hrun, hpoints, hlog⟩ := LabelledRun.exec_of_any
    (call (stoppingModel (1 / 2)) idleConfiguration 5) (idlePredictor, []) twoPoints
    (fun t => t.1.synchronizationPoints.map StaticEvent.time = [1, 2] ∧
      ∀ i ∈ t.2, i.reached = i.target ∨ i.reached < i.target - idleConfiguration.simulationProperties.timingPrecision)
    (by decide +kernel)
  refine ⟨hM, p, log, hrun, hpoints, ?_⟩
  exact (points_periodic_iff_earliness_bounded (stoppingModel (1 / 2)) hM idleConfiguration rfl 0 idlePredictor
    (Fallible.eq_ok_get _) 5 twoPoints p log hrun).2 hlog

/-- The model stops a tenth of a millisecond before each target. Every step accepts this, and the
second point is two tenths early. -/
theorem points_drift_with_early_stops :
    (stoppingModel (1 / 10000)).Advances ∧
    idleConfiguration.simulationProperties.variableStepSizeOnModelEvent = false ∧
    1 / 1000 ≤ idleConfiguration.simulationProperties.lookAheadStepSize ∧
    ∃ p log, start (stoppingModel (1 / 10000)) idleConfiguration 0 = .ok idlePredictor ∧
      LabelledRun.exec (call (stoppingModel (1 / 10000)) idleConfiguration 5) (idlePredictor, []) twoPoints =
        some (p, log) ∧
      p.synchronizationPoints.map StaticEvent.time = [9999 / 10000, 19998 / 10000] ∧
      ¬∀ (n : Nat) ev, p.synchronizationPoints[n]? = some ev →
        |ev.time - periodicPoint idleConfiguration 0 (n + 1)| ≤ 1 / 10000 := by
  refine ⟨stoppingModel_advances (1 / 10000) (by norm_num), by decide +kernel, by decide +kernel, ?_⟩
  obtain ⟨⟨p, log⟩, hrun, hpoints⟩ := LabelledRun.exec_of_any
    (call (stoppingModel (1 / 10000)) idleConfiguration 5) (idlePredictor, []) twoPoints
    (fun t => t.1.synchronizationPoints.map StaticEvent.time = [9999 / 10000, 19998 / 10000]) (by decide +kernel)
  refine ⟨p, log, Fallible.eq_ok_get _, hrun, hpoints, fun hnear => ?_⟩
  obtain ⟨ev, hev, htime⟩ : ∃ ev, p.synchronizationPoints[1]? = some ev ∧ ev.time = 19998 / 10000 := by
    have hsecond : (p.synchronizationPoints.map StaticEvent.time)[1]? = some (19998 / 10000) := by rw [hpoints]; rfl
    rw [List.getElem?_map] at hsecond
    exact Option.map_eq_some_iff.mp hsecond
  have hclose := hnear 1 ev hev
  rw [htime] at hclose
  exact absurd hclose (by decide +kernel)

end OneStepEventPredictor
end FMITerminalBlock.Model
