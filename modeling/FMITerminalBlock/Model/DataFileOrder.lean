import FMITerminalBlock.Model.SynchronizationPoints
import FMITerminalBlock.Timing.CSVDataLogger
import FMITerminalBlock.Timing.QueueOrder

/-! The order of the lines in the data file. The logger writes an event under its own time, whenever
it is delivered. -/
namespace FMITerminalBlock.Model
open Base Timing TimedEventQueue
variable {π ξ ε φ : Type} [Timed ε]

/-- A data logger beside the other listeners, with the events it has written a line for. -/
structure DataLogging (π : Type) where
  predictor : π
  logger : CSVDataLogger
  lines : List StaticEvent := []

namespace DataLogging

/-- Registers a data logger behind the listeners of a simulation, which reads the variables of every
event like any other listener. A value of another type fails an assertion. -/
def attach (sim : Simulation π ξ ε φ) (getVariables : π → ε → Except φ (List Variable × π)) (failed : φ)
    (format : NumberFormat) : Simulation (DataLogging π) ξ ε φ where
  predictNext d := (sim.predictNext d.predictor).map fun (ev, predictor) => (ev, { d with predictor })
  distribute d ev := do
    let predictor ← sim.distribute d.predictor ev
    let (vars, predictor) ← getVariables predictor ev
    match d.logger.eventTriggered format ⟨getTime ev, vars⟩ with
    | none => throw failed
    | some logger => return { predictor, logger, lines := d.lines ++ [⟨getTime ev, vars⟩] }
  external := sim.external

/-- The state of a run with a data logger. -/
abbrev RunState (π ε φ : Type) := EventDispatcher (DataLogging π) ε φ

/-- The entries that have left the queue, in order. -/
def taken (s : RunState π ε φ) : List (EventPtr ε × Bool) :=
  s.delivered ++ match s.phase with
    | .delivering _ entry | .distributing _ entry => [entry]
    | _ => []

def NotEarlier (s : RunState π ε φ) (ptr : EventPtr ε) : Prop := ∀ entry ∈ taken s, entryTime entry ≤ getTime ptr

instance (s : RunState π ε φ) (ptr : EventPtr ε) : Decidable (NotEarlier s ptr) :=
  inferInstanceAs (Decidable (∀ entry ∈ taken s, _))

/-- The prediction that is about to be added. -/
def adding : Phase ε φ → Option (EventPtr ε)
  | .adding p => some p
  | _ => none

/-- An event is added in time if it is not earlier than an event that has already been taken from the
queue, and if it does not lie within the tolerance of a queued event on the wrong side. -/
def AddedInTime (s : RunState π ε φ) : Label ξ → Prop
  | .addExternal address => ∀ ptr ∈ s.pending.find? (·.address == address),
      NotEarlier s ptr ∧ OutsideTolerance s.queue.queue (.add ptr false)
  | .addPrediction => ∀ p ∈ adding s.phase, NotEarlier s p ∧ OutsideTolerance s.queue.queue (.add p true)
  | _ => True

instance (s : RunState π ε φ) : (l : Label ξ) → Decidable (AddedInTime s l)
  | .addExternal _ => inferInstanceAs (Decidable (∀ ptr ∈ List.find? _ _, _))
  | .addPrediction => inferInstanceAs (Decidable (∀ p ∈ adding s.phase, _))
  | .pushExternal _ | .predict | .get _ | .beginDistribution | .distribute => isTrue trivial

/-- Everything queued follows everything taken, both in the order of time. -/
structure OrderInvariant (format : NumberFormat) (logger : CSVDataLogger) (s : RunState π ε φ) : Prop where
  frontOnly : FrontOnly s.queue.queue
  sorted : TimeSorted s.queue.queue
  taken : TimeSorted (taken s)
  follows : ∀ entry ∈ s.queue.queue, NotEarlier s entry.1
  lines : s.predictor.lines.map StaticEvent.time = s.delivered.map entryTime
  written : s.predictor.lines.foldlM (CSVDataLogger.eventTriggered format) logger = some s.predictor.logger

variable {sim : Simulation π ξ ε φ} {getVariables : π → ε → Except φ (List Variable × π)} {failed : φ}
  {format : NumberFormat} {logger : CSVDataLogger} {s t : RunState π ε φ} {theEnd : ℚ}

theorem attach_predictNext {d d' : DataLogging π} {ev : ε}
    (h : (attach sim getVariables failed format).predictNext d = .ok (ev, d')) :
    d'.lines = d.lines ∧ d'.logger = d.logger := by
  obtain ⟨⟨_, predictor⟩, -, heq⟩ := Fallible.map_eq_ok.mp h
  cases heq
  exact ⟨rfl, rfl⟩

/-- One line is written for a delivered event. -/
theorem attach_distribute {d d' : DataLogging π} {ev : ε}
    (h : (attach sim getVariables failed format).distribute d ev = .ok d') :
    ∃ vars, d'.lines = d.lines ++ [⟨getTime ev, vars⟩] ∧
      d.logger.eventTriggered format ⟨getTime ev, vars⟩ = some d'.logger := by
  obtain ⟨predictor, -, h⟩ := Fallible.bind_eq_ok.mp h
  obtain ⟨⟨vars, predictor'⟩, -, h⟩ := Fallible.bind_eq_ok.mp h
  dsimp only at h
  split at h
  · cases h
  · rename_i logger' hlogger
    cases h
    exact ⟨vars, rfl, hlogger⟩

/-- Adding an event in time keeps the order. -/
theorem OrderInvariant.add (hs : OrderInvariant format logger s) {ptr : EventPtr ε} {predicted : Bool}
    (hearlier : NotEarlier s ptr) (houtside : OutsideTolerance s.queue.queue (.add ptr predicted))
    (hqueue : t.queue = s.queue.add ptr predicted) (hpredictor : t.predictor = s.predictor)
    (hdelivered : t.delivered = s.delivered) (htaken : DataLogging.taken t = DataLogging.taken s) :
    OrderInvariant format logger t := by
  refine ⟨?_, hqueue ▸ hs.sorted.add hs.frontOnly houtside, htaken ▸ hs.taken, fun entry hentry => ?_, ?_, ?_⟩
  · rw [hqueue]
    cases predicted with
    | true => exact (add_prediction_spec hs.frontOnly ptr).1
    | false => exact (add_external_spec hs.frontOnly ptr).1
  · rw [NotEarlier, htaken]
    rw [hqueue] at hentry
    obtain ⟨dropped, -, hperm⟩ := add_moves s.queue ptr predicted
    rcases List.mem_cons.mp (hperm.subset (List.mem_append_left _ hentry)) with rfl | hmem
    · exact hearlier
    · exact hs.follows entry hmem
  · rw [hpredictor, hdelivered]
    exact hs.lines
  · rw [hpredictor]
    exact hs.written

/-- The order only depends on the entries, the lines and what has been taken. -/
theorem OrderInvariant.congr (hs : OrderInvariant format logger s) (hqueue : t.queue.queue = s.queue.queue)
    (hlines : t.predictor.lines = s.predictor.lines) (hlogger : t.predictor.logger = s.predictor.logger)
    (hdelivered : t.delivered = s.delivered) (htaken : (DataLogging.taken t).Sublist (DataLogging.taken s)) :
    OrderInvariant format logger t := by
  refine ⟨hqueue ▸ hs.frontOnly, hqueue ▸ hs.sorted, hs.taken.sublist htaken, fun entry hentry => ?_, ?_, ?_⟩
  · exact fun x hx => hs.follows entry (hqueue ▸ hentry) x (htaken.subset hx)
  · rw [hlines, hdelivered]
    exact hs.lines
  · rw [hlines, hlogger]
    exact hs.written

theorem order_step {l : Label ξ} (hs : OrderInvariant format logger s) (hl : AddedInTime s l)
    (h : EventDispatcher.Steps (attach sim getVariables failed format) theEnd s l t) :
    OrderInvariant format logger t := by
  cases h with
  | pushExternal ev => exact hs.congr rfl rfl rfl rfl (.refl _)
  | addExternal address ptr found =>
    obtain ⟨hearlier, houtside⟩ := hl ptr found
    exact hs.add hearlier houtside rfl rfl rfl rfl
  | predict ev predictor phase next =>
    obtain ⟨hlines, hlogger⟩ := attach_predictNext next
    exact hs.congr rfl hlines hlogger rfl (by simp [taken, phase])
  | predictFault fault phase next => exact hs.congr rfl rfl rfl rfl (by simp [taken, phase])
  | addPrediction p phase =>
    obtain ⟨hearlier, houtside⟩ := hl p (by rw [phase]; rfl)
    exact hs.add hearlier houtside rfl rfl rfl (by simp [taken, phase])
  | get now p entry rest phase front due =>
    have hbefore : taken s = s.delivered := by simp [taken, phase]
    have hsorted := hs.sorted
    rw [TimeSorted, front] at hsorted
    obtain ⟨hentry, hrest⟩ := List.pairwise_cons.mp hsorted
    have hfollows : ∀ x ∈ s.delivered, entryTime x ≤ entryTime entry := by
      rw [← hbefore]
      exact hs.follows entry (by rw [front]; exact List.mem_cons_self)
    refine ⟨(hs.frontOnly.calm_rest front).frontOnly, hrest, ?_, fun x hx => ?_, hs.lines, hs.written⟩
    · have htaken := hs.taken
      rw [hbefore] at htaken
      refine List.pairwise_append.mpr ⟨htaken, List.pairwise_singleton _ _, fun a ha b hb => ?_⟩
      rw [List.mem_singleton.mp hb]
      exact hfollows a ha
    · intro a ha
      rcases List.mem_append.mp ha with ha | ha
      · exact hs.follows x (by rw [front]; exact List.mem_cons_of_mem _ hx) a (hbefore ▸ ha)
      · rw [List.mem_singleton.mp ha]
        exact hentry x hx
  | beginDistribution p entry phase => exact hs.congr rfl rfl rfl rfl (by simp [taken, phase])
  | distribute p entry predictor phase done =>
    obtain ⟨vars, hlines, hlogger⟩ := attach_distribute done
    have htaken : taken (EventDispatcher.finish theEnd { s with predictor } entry) = taken s := by
      have hbefore : taken s = s.delivered ++ [entry] := by rw [taken, phase]
      rw [hbefore, taken]
      rcases EventDispatcher.finish_phase theEnd { s with predictor } entry with hphase | hphase
      · rw [hphase]
        exact List.append_nil _
      · rw [hphase]
        exact List.append_nil _
    refine ⟨hs.frontOnly, hs.sorted, htaken ▸ hs.taken, fun x hx => ?_, ?_, ?_⟩
    · rw [NotEarlier, htaken]
      exact hs.follows x hx
    · change predictor.lines.map StaticEvent.time = (s.delivered ++ [entry]).map entryTime
      rw [hlines, List.map_append, List.map_append, hs.lines]
      rfl
    · change predictor.lines.foldlM _ _ = some predictor.logger
      rw [hlines, List.foldlM_append, hs.written]
      simpa using hlogger
  | distributeFault p entry fault phase done => exact hs.congr rfl rfl rfl rfl (by simp [taken, phase])

theorem order_init (format : NumberFormat) (logger : CSVDataLogger) (predictor : π) (now : Int) (start : ℚ) :
    OrderInvariant format logger
      (EventDispatcher.init { predictor, logger } now start : RunState π ε φ) :=
  ⟨fun _ h => absurd h List.not_mem_nil, List.Pairwise.nil, List.Pairwise.nil,
    fun _ h => absurd h List.not_mem_nil, rfl, rfl⟩

/-- A run that adds every event in time writes its lines in the order of time, whatever simulation
the logger listens to. -/
theorem lines_in_time_order (sim : Simulation π ξ ε φ)
    (getVariables : π → ε → Except φ (List Variable × π)) (failed : φ) (format : NumberFormat)
    (predictor : π) (logger : CSVDataLogger) (now : Int) (start theEnd : ℚ) (labels : List (Label ξ))
    (s : RunState π ε φ)
    (hrun : EventDispatcher.Reaches (attach sim getVariables failed format) theEnd
      (EventDispatcher.init { predictor, logger } now start) labels s)
    (hadded : LabelledRun.Along (EventDispatcher.step (attach sim getVariables failed format) theEnd)
      (fun s l _ => AddedInTime s l) (EventDispatcher.init { predictor, logger } now start) labels) :
    s.predictor.lines.foldlM (CSVDataLogger.eventTriggered format) logger = some s.predictor.logger ∧
      (s.predictor.lines.map StaticEvent.time).Pairwise (· ≤ ·) := by
  have hinv : OrderInvariant format logger s := by
    apply LabelledRun.along_invariant (OrderInvariant format logger) _ (order_init ..) hadded hrun
    intro u l t hu hl h
    exact order_step hu hl (EventDispatcher.step_steps h)
  refine ⟨hinv.written, ?_⟩
  rw [hinv.lines, List.pairwise_map]
  have hdelivered : s.delivered.Sublist (taken s) := List.sublist_append_left _ _
  exact hinv.taken.sublist hdelivered

/-- The single step mode with a logger for the input and the output. -/
def idleLogging : Simulation (DataLogging (OneStepEventPredictor ℚ)) StaticEvent StaticEvent Fault :=
  attach (OneStepEventPredictor.simulation OneStepEventPredictor.idleModel
    OneStepEventPredictor.idleConfiguration 5) (fun p ev => .ok (ev.vars, p)) .invalidVariable ⟨fun _ => [], fun _ => []⟩

def idleLogger : CSVDataLogger :=
  .initHeader ApplicationContext.Settled.feedThrough.input ApplicationContext.Settled.feedThrough.output

def idleRun : RunState (OneStepEventPredictor ℚ) StaticEvent Fault :=
  EventDispatcher.init ⟨OneStepEventPredictor.idlePredictor, idleLogger, []⟩ 0 0

theorem lines_in_time_order_when_delayed :
    ∃ s, EventDispatcher.Reaches idleLogging 10 idleRun OneStepEventPredictor.delayedRun s ∧
      s.predictor.lines.map StaticEvent.time = [1 / 2, 1] ∧
      (s.predictor.lines.map StaticEvent.time).Pairwise (· ≤ ·) := by
  obtain ⟨s, hrun, htimes⟩ := LabelledRun.exec_of_any (EventDispatcher.step idleLogging 10) idleRun
    OneStepEventPredictor.delayedRun (fun s => s.predictor.lines.map StaticEvent.time = [1 / 2, 1])
    (by decide +kernel)
  exact ⟨s, hrun, htimes, (lines_in_time_order _ _ _ _ _ _ 0 0 10 _ s hrun (by decide +kernel)).2⟩

/-- An input that arrives after the point at time 1 keeps its own time, 1/2. -/
theorem late_line_out_of_order :
    ∃ s, EventDispatcher.Reaches idleLogging 10 idleRun
        [.predict, .addPrediction, .get 1000000, .beginDistribution, .distribute,
          .pushExternal ⟨1 / 2, [⟨(.fmiTypeReal, 1), .real 0⟩]⟩, .addExternal 1,
          .predict, .addPrediction, .get 1100000, .beginDistribution, .distribute] s ∧
      s.predictor.lines.map StaticEvent.time = [1, 1 / 2] ∧
      ¬(s.predictor.lines.map StaticEvent.time).Pairwise (· ≤ ·) :=
  LabelledRun.exec_of_any _ _ _ _ (by decide +kernel)

end DataLogging
end FMITerminalBlock.Model
