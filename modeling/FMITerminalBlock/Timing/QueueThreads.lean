import FMITerminalBlock.Timing.DispatcherCycle

/-! The dispatcher and the queue as their threads execute them. Every access to shared data is a step of
its own; `queueMut_`, `newEventCondition_` and the initialization barrier decide which steps are
possible. The runs refine those of the dispatcher whose queue operations are atomic. -/
namespace FMITerminalBlock.Timing

/-- Where a thread that holds `queueMut_` stands in `add`: before each access, before the notification
and before the mutex is released. -/
inductive AddStage where
  | removing | checking | cleaning | pushing | notifying | leaving
  deriving DecidableEq, Repr

namespace TimedEventQueue
variable {ε : Type} [Timed ε]

/-- The next access of `add`, and the stage after it. -/
def addStep (ev : ε) (predicted : Bool) (q : TimedEventQueue ε) : AddStage → TimedEventQueue ε × Option AddStage
  | .removing => (q.removeFuturPredictions (getTime ev), some .checking)
  | .checking =>
    if predicted && q.hasPriorEvents (getTime ev) then (q.deleteEvent ev, some .leaving)
    else (q, some (if predicted then .cleaning else .pushing))
  | .cleaning => (q.removeConcurrentPrediction (getTime ev), some .pushing)
  | .pushing => (q.push ev predicted, some .notifying)
  | .notifying => (q, some .leaving)
  | .leaving => (q, none)

/-- What the accesses that are still to come make of the queue. -/
def finishAdd (ev : ε) (predicted : Bool) (q : TimedEventQueue ε) : AddStage → TimedEventQueue ε
  | .removing => q.add ev predicted
  | .checking =>
    if predicted && q.hasPriorEvents (getTime ev) then q.deleteEvent ev
    else (if predicted then q.removeConcurrentPrediction (getTime ev) else q).push ev predicted
  | .cleaning => (q.removeConcurrentPrediction (getTime ev)).push ev predicted
  | .pushing => q.push ev predicted
  | .notifying | .leaving => q

/-- The accesses of `add` add up to the atomic operation. -/
theorem finishAdd_addStep {ev : ε} {predicted : Bool} {q q' : TimedEventQueue ε} {stage stage' : AddStage}
    (h : addStep ev predicted q stage = (q', some stage')) :
    finishAdd ev predicted q' stage' = finishAdd ev predicted q stage := by
  cases stage with
  | removing => cases h; rfl
  | checking =>
    simp only [addStep] at h
    split at h
    · rename_i hprior
      cases h
      simp only [finishAdd, hprior, if_true]
    · rename_i hprior
      cases h
      cases predicted with
      | false => simp [finishAdd]
      | true => simp only [finishAdd, hprior, if_true, if_false, Bool.false_eq_true]
  | cleaning => cases h; rfl
  | pushing => cases h; rfl
  | notifying => cases h; rfl
  | leaving => cases h

/-- Only the release of the mutex ends `add`. -/
theorem addStep_eq_none {ev : ε} {predicted : Bool} {q q' : TimedEventQueue ε} {stage : AddStage}
    (h : addStep ev predicted q stage = (q', none)) : stage = .leaving ∧ q' = q := by
  cases stage with
  | leaving => cases h; exact ⟨rfl, rfl⟩
  | checking =>
    simp only [addStep] at h
    split at h <;> cases h
  | _ => cases h

end TimedEventQueue

/-- Where the thread of the dispatcher stands in `run`. It holds `queueMut_` in `inAdd`, `testing` and
`taking`, and it has released it in `waiting`, where it sleeps until it is notified or the deadline is
reached. -/
inductive ThreadPhase (ε φ : Type) where
  | starting
  | predicting
  | lockingAdd (prediction : EventPtr ε)
  | inAdd (prediction : EventPtr ε) (stage : AddStage)
  | lockingGet (prediction : EventPtr ε)
  | testing (prediction : EventPtr ε)
  | waiting (prediction : EventPtr ε) (deadline : Option Int)
  | taking (prediction : EventPtr ε)
  | delivering (prediction : EventPtr ε) (entry : EventPtr ε × Bool)
  | distributing (prediction : EventPtr ε) (entry : EventPtr ε × Bool)
  | stopped
  | failed (fault : φ)
  deriving DecidableEq

def ThreadPhase.holdsMutex {ε φ : Type} : ThreadPhase ε φ → Bool
  | .inAdd .. | .testing _ | .taking _ => true
  | _ => false

/-- The threads with the data they share. A thread that pushes an external event comes to the barrier
(`arrived`), sleeps there (`blocked`), has logged its event and needs the mutex (`pending`), or holds it
(`owner`). The event of a thread stays in `pending` until the thread has made its first access. -/
structure DispatcherThreads (π ξ ε φ : Type) where
  predictor : π
  queue : TimedEventQueue (EventPtr ε) := {}
  phase : ThreadPhase ε φ := .starting
  initialized : Bool := false
  arrived : List ξ := []
  blocked : List ξ := []
  pending : List (EventPtr ε) := []
  owner : Option (EventPtr ε × AddStage) := none
  externals : List (EventPtr ε) := []
  predictions : List (EventPtr ε) := []
  delivered : List (EventPtr ε × Bool) := []

/-- The scheduler picks a thread, and the clock is read where the code reads it. -/
inductive ThreadLabel (ξ : Type) where
  | arrive (ev : ξ)
  | waitIfUninitialized (position : Nat)
  | pushExternal (position : Nat)
  | lockExternal (address : Nat)
  | addExternal
  | initStartTimeNow (now : Int)
  | predict
  | lock
  | addPrediction
  | test (now : Int)
  | take
  | wakeUp
  | beginDistribution
  | distribute
  deriving DecidableEq

namespace DispatcherThreads
variable {π ξ ε φ : Type}

def nextAddress (s : DispatcherThreads π ξ ε φ) : Nat := s.externals.length + s.predictions.length

def mutexFree (s : DispatcherThreads π ξ ε φ) : Bool := s.owner.isNone && !s.phase.holdsMutex

/-- `notify_one` on `newEventCondition_`. Only the dispatcher ever waits for it. -/
def notifyOne : ThreadPhase ε φ → ThreadPhase ε φ
  | .waiting p _ => .lockingGet p
  | phase => phase

variable [Timed ε]

/-- One turn of the loop in `get`. -/
def test (s : DispatcherThreads π ξ ε φ) (now : Int) (p : EventPtr ε) : ThreadPhase ε φ :=
  match s.queue.queue with
  | [] => .waiting p none
  | front :: _ =>
    if s.queue.isFutureEvent now front.1 then .waiting p (some (s.queue.getSystemTime front.1)) else .taking p

def finish (theEnd : ℚ) (s : DispatcherThreads π ξ ε φ) (entry : EventPtr ε × Bool) : DispatcherThreads π ξ ε φ :=
  { s with
    queue := s.queue.logEvent entry.1 .endOfDistribution
    phase := if getTime entry.1 < theEnd then .predicting else .stopped
    delivered := s.delivered ++ [entry] }

/-- The steps of the thread that runs the dispatcher. -/
def dispatcherStep (sim : Simulation π ξ ε φ) (theEnd start : ℚ) (s : DispatcherThreads π ξ ε φ) :
    ThreadLabel ξ → Option (DispatcherThreads π ξ ε φ)
  | .initStartTimeNow now =>
    match s.phase with
    | .starting => some { s with
        queue := .initStartTimeNow now start
        phase := .predicting
        initialized := true
        arrived := s.arrived ++ s.blocked -- notify_all
        blocked := [] }
    | _ => none
  | .predict =>
    match s.phase with
    | .predicting =>
      match sim.predictNext s.predictor with
      | .error fault => some { s with phase := .failed fault }
      | .ok (ev, predictor) =>
        let ptr : EventPtr ε := ⟨s.nextAddress, ev⟩
        some { s with
          predictor := predictor
          queue := s.queue.logEvent ptr .prediction
          phase := .lockingAdd ptr
          predictions := s.predictions ++ [ptr] }
    | _ => none
  | .lock =>
    if s.mutexFree then
      match s.phase with
      | .lockingAdd p => some { s with phase := .inAdd p .removing }
      | .lockingGet p => some { s with phase := .testing p }
      | _ => none
    else none
  | .addPrediction =>
    match s.phase with
    | .inAdd p stage =>
      match s.queue.addStep p true stage with
      | (queue, some stage) => some { s with queue := queue, phase := .inAdd p stage }
      | (queue, none) => some { s with queue := queue, phase := .lockingGet p }
    | _ => none
  | .test now =>
    match s.phase with
    | .testing p => some { s with phase := s.test now p }
    | _ => none
  | .take =>
    match s.phase, s.queue.queue with
    | .taking p, front :: rest =>
      some { s with queue := { s.queue with queue := rest }, phase := .delivering p front }
    | _, _ => none
  | .wakeUp => -- The deadline is reached, or the thread wakes up spuriously.
    match s.phase with
    | .waiting p _ => some { s with phase := .lockingGet p }
    | _ => none
  | .beginDistribution =>
    match s.phase with
    | .delivering p entry => some { s with
        queue := s.queue.logEvent entry.1 .beginOfDistribution
        phase := .distributing p entry }
    | _ => none
  | .distribute =>
    match s.phase with
    | .distributing _ entry =>
      match sim.distribute s.predictor entry.1.event with
      | .error fault => some { s with phase := .failed fault }
      | .ok predictor => some (finish theEnd { s with predictor := predictor } entry)
    | _ => none
  | _ => none

/-- The steps of the threads that push external events. `add` waits for the barrier a second time, which
is never closed again. -/
def externalStep (sim : Simulation π ξ ε φ) (s : DispatcherThreads π ξ ε φ) :
    ThreadLabel ξ → Option (DispatcherThreads π ξ ε φ)
  | .arrive ev => some { s with arrived := s.arrived ++ [ev] }
  | .waitIfUninitialized position =>
    match s.arrived[position]?, s.initialized with
    | some ev, false => some { s with
        arrived := s.arrived.eraseIdx position
        blocked := s.blocked ++ [ev] }
    | _, _ => none
  | .pushExternal position =>
    match s.arrived[position]?, s.initialized with
    | some ev, true =>
      let ptr : EventPtr ε := ⟨s.nextAddress, sim.external ev⟩
      some { s with
        queue := s.queue.logEvent ptr .realTimeGeneration
        arrived := s.arrived.eraseIdx position
        pending := s.pending ++ [ptr]
        externals := s.externals ++ [ptr] }
    | _, _ => none
  | .lockExternal address =>
    if s.mutexFree then
      match s.pending.find? (·.address == address) with
      | none => none
      | some ptr => some { s with owner := some (ptr, .removing) }
    else none
  | .addExternal =>
    match s.owner with
    | none => none
    | some (ptr, stage) =>
      let (queue, next) := s.queue.addStep ptr false stage
      some { s with
        queue := queue
        owner := next.map fun stage => (ptr, stage)
        pending := if stage = .removing then s.pending.eraseP (·.address == ptr.address) else s.pending
        phase := if stage = .notifying then notifyOne s.phase else s.phase }
  | _ => none

def step (sim : Simulation π ξ ε φ) (theEnd start : ℚ) (s : DispatcherThreads π ξ ε φ) (l : ThreadLabel ξ) :
    Option (DispatcherThreads π ξ ε φ) :=
  match externalStep sim s l with
  | some t => some t
  | none => dispatcherStep sim theEnd start s l

/-- The steps as a relation, with one case for every way a step can end. -/
inductive Steps (sim : Simulation π ξ ε φ) (theEnd start : ℚ) :
    DispatcherThreads π ξ ε φ → ThreadLabel ξ → DispatcherThreads π ξ ε φ → Prop where
  | arrive (s : DispatcherThreads π ξ ε φ) (ev : ξ) :
      Steps sim theEnd start s (.arrive ev) { s with arrived := s.arrived ++ [ev] }
  | waitIfUninitialized (s : DispatcherThreads π ξ ε φ) (position : Nat) (ev : ξ)
      (closed : s.initialized = false) (here : s.arrived[position]? = some ev) :
      Steps sim theEnd start s (.waitIfUninitialized position) { s with
        arrived := s.arrived.eraseIdx position
        blocked := s.blocked ++ [ev] }
  | pushExternal (s : DispatcherThreads π ξ ε φ) (position : Nat) (ev : ξ)
      (passed : s.initialized = true) (here : s.arrived[position]? = some ev) :
      Steps sim theEnd start s (.pushExternal position) { s with
        queue := s.queue.logEvent ⟨s.nextAddress, sim.external ev⟩ .realTimeGeneration
        arrived := s.arrived.eraseIdx position
        pending := s.pending ++ [⟨s.nextAddress, sim.external ev⟩]
        externals := s.externals ++ [⟨s.nextAddress, sim.external ev⟩] }
  | lockExternal (s : DispatcherThreads π ξ ε φ) (address : Nat) (ptr : EventPtr ε) (free : s.mutexFree = true)
      (found : s.pending.find? (·.address == address) = some ptr) :
      Steps sim theEnd start s (.lockExternal address) { s with owner := some (ptr, .removing) }
  | addExternal (s : DispatcherThreads π ξ ε φ) (ptr : EventPtr ε) (stage : AddStage)
      (queue : TimedEventQueue (EventPtr ε)) (next : Option AddStage) (held : s.owner = some (ptr, stage))
      (access : s.queue.addStep ptr false stage = (queue, next)) :
      Steps sim theEnd start s .addExternal { s with
        queue := queue
        owner := next.map fun stage => (ptr, stage)
        pending := if stage = .removing then s.pending.eraseP (·.address == ptr.address) else s.pending
        phase := if stage = .notifying then notifyOne s.phase else s.phase }
  | initStartTimeNow (s : DispatcherThreads π ξ ε φ) (now : Int) (phase : s.phase = .starting) :
      Steps sim theEnd start s (.initStartTimeNow now) { s with
        queue := .initStartTimeNow now start
        phase := .predicting
        initialized := true
        arrived := s.arrived ++ s.blocked
        blocked := [] }
  | predict (s : DispatcherThreads π ξ ε φ) (ev : ε) (predictor : π) (phase : s.phase = .predicting)
      (next : sim.predictNext s.predictor = .ok (ev, predictor)) :
      Steps sim theEnd start s .predict { s with
        predictor := predictor
        queue := s.queue.logEvent ⟨s.nextAddress, ev⟩ .prediction
        phase := .lockingAdd ⟨s.nextAddress, ev⟩
        predictions := s.predictions ++ [⟨s.nextAddress, ev⟩] }
  | predictFault (s : DispatcherThreads π ξ ε φ) (fault : φ) (phase : s.phase = .predicting)
      (next : sim.predictNext s.predictor = .error fault) :
      Steps sim theEnd start s .predict { s with phase := .failed fault }
  | lockAdd (s : DispatcherThreads π ξ ε φ) (p : EventPtr ε) (free : s.mutexFree = true)
      (phase : s.phase = .lockingAdd p) :
      Steps sim theEnd start s .lock { s with phase := .inAdd p .removing }
  | lockGet (s : DispatcherThreads π ξ ε φ) (p : EventPtr ε) (free : s.mutexFree = true)
      (phase : s.phase = .lockingGet p) :
      Steps sim theEnd start s .lock { s with phase := .testing p }
  | addPrediction (s : DispatcherThreads π ξ ε φ) (p : EventPtr ε) (stage next : AddStage)
      (queue : TimedEventQueue (EventPtr ε)) (phase : s.phase = .inAdd p stage)
      (access : s.queue.addStep p true stage = (queue, some next)) :
      Steps sim theEnd start s .addPrediction { s with queue := queue, phase := .inAdd p next }
  | leaveAdd (s : DispatcherThreads π ξ ε φ) (p : EventPtr ε) (phase : s.phase = .inAdd p .leaving) :
      Steps sim theEnd start s .addPrediction { s with phase := .lockingGet p }
  | test (s : DispatcherThreads π ξ ε φ) (now : Int) (p : EventPtr ε) (phase : s.phase = .testing p) :
      Steps sim theEnd start s (.test now) { s with phase := s.test now p }
  | take (s : DispatcherThreads π ξ ε φ) (p : EventPtr ε) (entry : EventPtr ε × Bool)
      (rest : List (EventPtr ε × Bool)) (phase : s.phase = .taking p) (front : s.queue.queue = entry :: rest) :
      Steps sim theEnd start s .take { s with
        queue := { s.queue with queue := rest }
        phase := .delivering p entry }
  | wakeUp (s : DispatcherThreads π ξ ε φ) (p : EventPtr ε) (deadline : Option Int)
      (phase : s.phase = .waiting p deadline) :
      Steps sim theEnd start s .wakeUp { s with phase := .lockingGet p }
  | beginDistribution (s : DispatcherThreads π ξ ε φ) (p : EventPtr ε) (entry : EventPtr ε × Bool)
      (phase : s.phase = .delivering p entry) :
      Steps sim theEnd start s .beginDistribution { s with
        queue := s.queue.logEvent entry.1 .beginOfDistribution
        phase := .distributing p entry }
  | distribute (s : DispatcherThreads π ξ ε φ) (p : EventPtr ε) (entry : EventPtr ε × Bool) (predictor : π)
      (phase : s.phase = .distributing p entry)
      (done : sim.distribute s.predictor entry.1.event = .ok predictor) :
      Steps sim theEnd start s .distribute (finish theEnd { s with predictor := predictor } entry)
  | distributeFault (s : DispatcherThreads π ξ ε φ) (p : EventPtr ε) (entry : EventPtr ε × Bool) (fault : φ)
      (phase : s.phase = .distributing p entry)
      (done : sim.distribute s.predictor entry.1.event = .error fault) :
      Steps sim theEnd start s .distribute { s with phase := .failed fault }

theorem externalStep_steps {sim : Simulation π ξ ε φ} {theEnd start : ℚ} {s t : DispatcherThreads π ξ ε φ}
    {l : ThreadLabel ξ} (h : externalStep sim s l = some t) : Steps sim theEnd start s l t := by
  cases l with
  | arrive ev => cases h; exact .arrive s ev
  | waitIfUninitialized position =>
    simp only [externalStep] at h
    split at h
    · rename_i ev here closed; cases h; exact .waitIfUninitialized s position ev closed here
    · cases h
  | pushExternal position =>
    simp only [externalStep] at h
    split at h
    · rename_i ev here passed; cases h; exact .pushExternal s position ev passed here
    · cases h
  | lockExternal address =>
    simp only [externalStep] at h
    split at h
    · rename_i free
      split at h
      · cases h
      · rename_i ptr found; cases h; exact .lockExternal s address ptr free found
    · cases h
  | addExternal =>
    simp only [externalStep] at h
    split at h
    · cases h
    · rename_i ptr stage held; cases h; exact .addExternal s ptr stage _ _ held rfl
  | _ => cases h

theorem dispatcherStep_steps {sim : Simulation π ξ ε φ} {theEnd start : ℚ} {s t : DispatcherThreads π ξ ε φ}
    {l : ThreadLabel ξ} (h : dispatcherStep sim theEnd start s l = some t) : Steps sim theEnd start s l t := by
  cases l with
  | initStartTimeNow now =>
    simp only [dispatcherStep] at h
    split at h
    · rename_i phase; cases h; exact .initStartTimeNow s now phase
    · cases h
  | predict =>
    simp only [dispatcherStep] at h
    split at h
    · rename_i phase
      split at h
      · rename_i fault next; cases h; exact .predictFault s fault phase next
      · rename_i ev predictor next; cases h; exact .predict s ev predictor phase next
    · cases h
  | lock =>
    simp only [dispatcherStep] at h
    split at h
    · rename_i free
      split at h
      · rename_i p phase; cases h; exact .lockAdd s p free phase
      · rename_i p phase; cases h; exact .lockGet s p free phase
      · cases h
    · cases h
  | addPrediction =>
    simp only [dispatcherStep] at h
    split at h
    · rename_i p stage phase
      split at h
      · rename_i queue next access; cases h; exact .addPrediction s p stage next queue phase access
      · rename_i queue access
        cases h
        obtain ⟨rfl, rfl⟩ := TimedEventQueue.addStep_eq_none access
        exact .leaveAdd s p phase
    · cases h
  | test now =>
    simp only [dispatcherStep] at h
    split at h
    · rename_i p phase; cases h; exact .test s now p phase
    · cases h
  | take =>
    simp only [dispatcherStep] at h
    split at h
    · rename_i p entry rest phase front; cases h; exact .take s p entry rest phase front
    · cases h
  | wakeUp =>
    simp only [dispatcherStep] at h
    split at h
    · rename_i p deadline phase; cases h; exact .wakeUp s p deadline phase
    · cases h
  | beginDistribution =>
    simp only [dispatcherStep] at h
    split at h
    · rename_i p entry phase; cases h; exact .beginDistribution s p entry phase
    · cases h
  | distribute =>
    simp only [dispatcherStep] at h
    split at h
    · rename_i p entry phase
      split at h
      · rename_i fault done; cases h; exact .distributeFault s p entry fault phase done
      · rename_i predictor done; cases h; exact .distribute s p entry predictor phase done
    · cases h
  | _ => cases h

theorem step_steps {sim : Simulation π ξ ε φ} {theEnd start : ℚ} {s t : DispatcherThreads π ξ ε φ}
    {l : ThreadLabel ξ} (h : step sim theEnd start s l = some t) : Steps sim theEnd start s l t := by
  rw [step] at h
  split at h
  · rename_i u hu
    cases h
    exact externalStep_steps hu
  · exact dispatcherStep_steps h

/-- The schedule `labels` leads from `s` to `t`. -/
def Reaches (sim : Simulation π ξ ε φ) (theEnd start : ℚ) (s : DispatcherThreads π ξ ε φ)
    (labels : List (ThreadLabel ξ)) (t : DispatcherThreads π ξ ε φ) : Prop :=
  LabelledRun.exec (step sim theEnd start) s labels = some t

end DispatcherThreads
end FMITerminalBlock.Timing
