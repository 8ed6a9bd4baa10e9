import FMITerminalBlock.Library.LabelledRun
import FMITerminalBlock.Timing.TimedEventQueue

/-! The main cycle of the dispatcher, one atomic queue operation at a time, together with the
threads that push external events. -/
namespace FMITerminalBlock.Timing

/-- An event object. The address tells two objects of the same content apart. -/
structure EventPtr (ε : Type) where
  address : Nat
  event : ε
  deriving DecidableEq

instance {ε : Type} [Timed ε] : Timed (EventPtr ε) := ⟨fun ptr => getTime ptr.event⟩

/-- What the dispatcher drives: a predictor, which is the first listener, and the listeners
registered after it, all in the state `π`. Other threads create events of the kind `ξ`, and a
fault ends the run by an exception. -/
structure Simulation (π ξ ε φ : Type) where
  predictNext : π → Except φ (ε × π)
  distribute : π → ε → Except φ π
  external : ξ → ε

/-- Where the dispatcher stands in `run`. Every phase names the prediction of its cycle, and an
entry obtained from the queue keeps its prediction flag. -/
inductive Phase (ε φ : Type) where
  | predicting
  | adding (prediction : EventPtr ε)
  | getting (prediction : EventPtr ε)
  | delivering (prediction : EventPtr ε) (entry : EventPtr ε × Bool)
  | distributing (prediction : EventPtr ε) (entry : EventPtr ε × Bool)
  | stopped
  | failed (fault : φ)
  deriving DecidableEq

/-- The dispatcher thread, the queue and the external events that are logged by
`pushExternalEvent` but not yet added. The events created so far are kept to number them, and
the entries whose distribution has ended to speak about their order. -/
structure EventDispatcher (π ε φ : Type) where
  predictor : π
  queue : TimedEventQueue (EventPtr ε) := {}
  pending : List (EventPtr ε) := []
  phase : Phase ε φ := .predicting
  externals : List (EventPtr ε) := []
  predictions : List (EventPtr ε) := []
  delivered : List (EventPtr ε × Bool) := []

/-- One atomic step: `pushExternal` and `addExternal` are the two halves of `pushExternalEvent`
in any other thread, the remaining labels advance `run`. -/
inductive Label (ξ : Type) where
  | pushExternal (ev : ξ)
  | addExternal (address : Nat)
  | predict
  | addPrediction
  | get (now : Int)
  | beginDistribution
  | distribute
  deriving DecidableEq

namespace EventDispatcher
variable {π ξ ε φ : Type}

/-- The address of the next event object. -/
def nextAddress (s : EventDispatcher π ε φ) : Nat := s.externals.length + s.predictions.length

def init (predictor : π) (now : Int) (start : ℚ) : EventDispatcher π ε φ :=
  { predictor := predictor, queue := .initStartTimeNow now start }

variable [Timed ε]

/-- The end of a cycle: the last record of `processEvent` and the loop condition of `run`. -/
def finish (theEnd : ℚ) (s : EventDispatcher π ε φ) (entry : EventPtr ε × Bool) : EventDispatcher π ε φ :=
  { s with
    queue := s.queue.logEvent entry.1 .endOfDistribution
    phase := if getTime entry.1 < theEnd then .predicting else .stopped
    delivered := s.delivered ++ [entry] }

theorem finish_phase (theEnd : ℚ) (s : EventDispatcher π ε φ) (entry : EventPtr ε × Bool) :
    (finish theEnd s entry).phase = .predicting ∨ (finish theEnd s entry).phase = .stopped := by
  simp only [finish]
  split
  · exact .inl rfl
  · exact .inr rfl

def step (sim : Simulation π ξ ε φ) (theEnd : ℚ) (s : EventDispatcher π ε φ) :
    Label ξ → Option (EventDispatcher π ε φ)
  | .pushExternal ev =>
    let ptr : EventPtr ε := ⟨s.nextAddress, sim.external ev⟩
    some { s with
      queue := s.queue.logEvent ptr .realTimeGeneration
      pending := s.pending ++ [ptr]
      externals := s.externals ++ [ptr] }
  | .addExternal address =>
    match s.pending.find? (·.address == address) with
    | none => none
    | some ptr => some { s with
        queue := s.queue.add ptr false
        pending := s.pending.eraseP (·.address == address) }
  | .predict =>
    match s.phase with
    | .predicting =>
      match sim.predictNext s.predictor with
      | .error fault => some { s with phase := .failed fault }
      | .ok (ev, predictor) =>
        let ptr : EventPtr ε := ⟨s.nextAddress, ev⟩
        some { s with
          predictor := predictor
          queue := s.queue.logEvent ptr .prediction
          phase := .adding ptr
          predictions := s.predictions ++ [ptr] }
    | _ => none
  | .addPrediction =>
    match s.phase with
    | .adding p => some { s with queue := s.queue.add p true, phase := .getting p }
    | _ => none
  | .get now =>
    match s.phase with
    | .getting p =>
      match s.queue.get now with
      | none => none
      | some (entry, queue) => some { s with queue := queue, phase := .delivering p entry }
    | _ => none
  | .beginDistribution =>
    match s.phase with
    | .delivering p entry => some { s with
        queue := s.queue.logEvent entry.1 .beginOfDistribution
        phase := .distributing p entry }
    | _ => none
  | .distribute =>
    match s.phase with
    | .distributing _ entry =>
      match sim.distribute s.predictor entry.1.event with
      | .error fault => some { s with phase := .failed fault }
      | .ok predictor => some (finish theEnd { s with predictor := predictor } entry)
    | _ => none

/-- The steps as a relation, with one case for every way a step can end. -/
inductive Steps (sim : Simulation π ξ ε φ) (theEnd : ℚ) :
    EventDispatcher π ε φ → Label ξ → EventDispatcher π ε φ → Prop where
  | pushExternal (s : EventDispatcher π ε φ) (ev : ξ) :
      Steps sim theEnd s (.pushExternal ev) { s with
        queue := s.queue.logEvent ⟨s.nextAddress, sim.external ev⟩ .realTimeGeneration
        pending := s.pending ++ [⟨s.nextAddress, sim.external ev⟩]
        externals := s.externals ++ [⟨s.nextAddress, sim.external ev⟩] }
  | addExternal (s : EventDispatcher π ε φ) (address : Nat) (ptr : EventPtr ε)
      (found : s.pending.find? (·.address == address) = some ptr) :
      Steps sim theEnd s (.addExternal address) { s with
        queue := s.queue.add ptr false
        pending := s.pending.eraseP (·.address == address) }
  | predict (s : EventDispatcher π ε φ) (ev : ε) (predictor : π) (phase : s.phase = .predicting)
      (next : sim.predictNext s.predictor = .ok (ev, predictor)) :
      Steps sim theEnd s .predict { s with
        predictor := predictor
        queue := s.queue.logEvent ⟨s.nextAddress, ev⟩ .prediction
        phase := .adding ⟨s.nextAddress, ev⟩
        predictions := s.predictions ++ [⟨s.nextAddress, ev⟩] }
  | predictFault (s : EventDispatcher π ε φ) (fault : φ) (phase : s.phase = .predicting)
      (next : sim.predictNext s.predictor = .error fault) :
      Steps sim theEnd s .predict { s with phase := .failed fault }
  | addPrediction (s : EventDispatcher π ε φ) (p : EventPtr ε) (phase : s.phase = .adding p) :
      Steps sim theEnd s .addPrediction { s with queue := s.queue.add p true, phase := .getting p }
  | get (s : EventDispatcher π ε φ) (now : Int) (p : EventPtr ε) (entry : EventPtr ε × Bool)
      (rest : List (EventPtr ε × Bool)) (phase : s.phase = .getting p)
      (front : s.queue.queue = entry :: rest) (due : s.queue.isFutureEvent now entry.1 = false) :
      Steps sim theEnd s (.get now) { s with
        queue := { s.queue with queue := rest }
        phase := .delivering p entry }
  | beginDistribution (s : EventDispatcher π ε φ) (p : EventPtr ε) (entry : EventPtr ε × Bool)
      (phase : s.phase = .delivering p entry) :
      Steps sim theEnd s .beginDistribution { s with
        queue := s.queue.logEvent entry.1 .beginOfDistribution
        phase := .distributing p entry }
  | distribute (s : EventDispatcher π ε φ) (p : EventPtr ε) (entry : EventPtr ε × Bool) (predictor : π)
      (phase : s.phase = .distributing p entry)
      (done : sim.distribute s.predictor entry.1.event = .ok predictor) :
      Steps sim theEnd s .distribute (finish theEnd { s with predictor := predictor } entry)
  | distributeFault (s : EventDispatcher π ε φ) (p : EventPtr ε) (entry : EventPtr ε × Bool) (fault : φ)
      (phase : s.phase = .distributing p entry)
      (done : sim.distribute s.predictor entry.1.event = .error fault) :
      Steps sim theEnd s .distribute { s with phase := .failed fault }

theorem step_steps {sim : Simulation π ξ ε φ} {theEnd : ℚ} {s t : EventDispatcher π ε φ} {l : Label ξ}
    (h : step sim theEnd s l = some t) : Steps sim theEnd s l t := by
  cases l with
  | pushExternal ev => cases h; exact .pushExternal s ev
  | addExternal address =>
    simp only [step] at h
    split at h
    · cases h
    · rename_i ptr found; cases h; exact .addExternal s address ptr found
  | predict =>
    simp only [step] at h
    split at h
    · rename_i phase
      split at h
      · rename_i fault next; cases h; exact .predictFault s fault phase next
      · rename_i ev predictor next; cases h; exact .predict s ev predictor phase next
    · cases h
  | addPrediction =>
    simp only [step] at h
    split at h
    · rename_i p phase; cases h; exact .addPrediction s p phase
    · cases h
  | get now =>
    simp only [step] at h
    split at h
    · rename_i p phase
      split at h
      · cases h
      · rename_i entry queue hget
        obtain ⟨rest, hq, rfl, due⟩ := TimedEventQueue.get_eq_some hget
        cases h
        exact .get s now p entry rest phase hq due
    · cases h
  | beginDistribution =>
    simp only [step] at h
    split at h
    · rename_i p entry phase; cases h; exact .beginDistribution s p entry phase
    · cases h
  | distribute =>
    simp only [step] at h
    split at h
    · rename_i p entry phase
      split at h
      · rename_i fault done; cases h; exact .distributeFault s p entry fault phase done
      · rename_i predictor done; cases h; exact .distribute s p entry predictor phase done
    · cases h

/-- The run of the labels leads from `s` to `t` under one interleaving with the other threads. -/
def Reaches (sim : Simulation π ξ ε φ) (theEnd : ℚ) (s : EventDispatcher π ε φ)
    (labels : List (Label ξ)) (t : EventDispatcher π ε φ) : Prop :=
  LabelledRun.exec (step sim theEnd) s labels = some t

theorem Reaches.invariant {sim : Simulation π ξ ε φ} {theEnd : ℚ} {s t : EventDispatcher π ε φ}
    {labels : List (Label ξ)} {Inv : EventDispatcher π ε φ → Prop} (h : Reaches sim theEnd s labels t)
    (hs : Inv s) (hstep : ∀ s l t, Inv s → Steps sim theEnd s l t → Inv t) : Inv t :=
  LabelledRun.exec_invariant (fun s l t hs h => hstep s l t hs (step_steps h)) hs h

/-- A predictor that ticks every second. An event is just its time. -/
def metronome : Simulation ℚ ℚ ℚ Empty where
  predictNext time := .ok (time + 1, time + 1)
  distribute time _ := .ok time
  external := id

instance : Timed ℚ := ⟨id⟩

end EventDispatcher
end FMITerminalBlock.Timing
