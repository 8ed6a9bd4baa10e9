import FMITerminalBlock.Timing.QueueThreads

/-! The threads and the dispatcher whose queue operations are atomic: which atomic run stands behind a
schedule of the threads, and that no thread sleeps through what it waits for. -/
namespace FMITerminalBlock.Timing

/-- The phase of the atomic dispatcher. A prediction is added when its thread looks for earlier events. -/
def ThreadPhase.atomic {ε φ : Type} : ThreadPhase ε φ → Phase ε φ
  | .starting | .predicting => .predicting
  | .lockingAdd p | .inAdd p .removing | .inAdd p .checking => .adding p
  | .inAdd p _ | .lockingGet p | .testing p | .waiting p _ | .taking p => .getting p
  | .delivering p entry => .delivering p entry
  | .distributing p entry => .distributing p entry
  | .stopped => .stopped
  | .failed fault => .failed fault

namespace TimedEventQueue
variable {ε : Type} [Timed ε]

theorem push_logEvent (q : TimedEventQueue ε) (ev other : ε) (predicted : Bool) (stage : ProcessingStage) :
    (q.logEvent other stage).push ev predicted = (q.push ev predicted).logEvent other stage := by
  have hcheck (q : TimedEventQueue ε) (a : Assertion) (holds : Bool) :
      (q.logEvent other stage).check a holds = (q.check a holds).logEvent other stage := by
    cases holds <;> rfl
  simp only [push, logEvent_queue, hcheck]
  rfl

/-- Past the access that may write a record, the rest of `add` commutes with the records of other
threads. -/
theorem finishAdd_logEvent (q : TimedEventQueue ε) (ev : ε) (predicted : Bool) (reached : AddStage)
    (hremoving : reached ≠ .removing) (hchecking : reached = .checking → predicted = false)
    (hcleaning : reached = .cleaning → Calm q.queue) (other : ε) (stage : ProcessingStage) :
    finishAdd ev predicted (q.logEvent other stage) reached = (finishAdd ev predicted q reached).logEvent other stage := by
  cases reached with
  | removing => exact absurd rfl hremoving
  | checking =>
    rw [hchecking rfl]
    simp only [finishAdd, Bool.false_and, Bool.false_eq_true, if_false]
    exact push_logEvent q ev other false stage
  | cleaning =>
    have hcalm := hcleaning rfl
    have hlogged : Calm (q.logEvent other stage).queue := hcalm
    simp only [finishAdd, removeConcurrentPrediction, removePrediction_calm hcalm, removePrediction_calm hlogged]
    exact push_logEvent q ev other predicted stage
  | pushing => exact push_logEvent q ev other predicted stage
  | notifying => rfl
  | leaving => rfl

end TimedEventQueue

namespace DispatcherThreads
open TimedEventQueue
variable {π ξ ε φ : Type} [Timed ε]

/-- The queue once an external thread has finished the `add` it cannot leave any more. -/
def settleExternal (owner : Option (EventPtr ε × AddStage)) (q : TimedEventQueue (EventPtr ε)) :
    TimedEventQueue (EventPtr ε) :=
  match owner with
  | none | some (_, .removing) => q
  | some (ptr, stage) => finishAdd ptr false q stage

def settlePrediction (phase : ThreadPhase ε φ) (q : TimedEventQueue (EventPtr ε)) : TimedEventQueue (EventPtr ε) :=
  match phase with
  | .inAdd _ .removing | .inAdd _ .checking => q
  | .inAdd p stage => finishAdd p true q stage
  | _ => q

/-- At most one of the two threads has something to finish. -/
def settled (s : DispatcherThreads π ξ ε φ) : TimedEventQueue (EventPtr ε) :=
  settlePrediction s.phase (settleExternal s.owner s.queue)

/-- What holds of the thread that has the mutex. -/
structure Guarded (s : DispatcherThreads π ξ ε φ) : Prop where
  exclusive : s.owner.isSome = true → s.phase.holdsMutex = false
  notCleaning : ∀ ptr, s.owner ≠ some (ptr, .cleaning)
  found : ∀ ptr, s.owner = some (ptr, .removing) → s.pending.find? (·.address == ptr.address) = some ptr
  calm : ∀ p, s.phase = .inAdd p .cleaning → Calm s.queue.queue
  due : ∀ p, s.phase = .taking p → ∃ now entry rest,
    s.queue.queue = entry :: rest ∧ s.queue.isFutureEvent now entry.1 = false

/-- The atomic dispatcher `a` is where the threads are. -/
structure Corresponds (s : DispatcherThreads π ξ ε φ) (a : EventDispatcher π ε φ) : Prop where
  predictor : a.predictor = s.predictor
  queue : a.queue = s.settled
  phase : a.phase = s.phase.atomic
  pending : a.pending = s.pending
  externals : a.externals = s.externals
  predictions : a.predictions = s.predictions
  delivered : a.delivered = s.delivered

theorem Corresponds.nextAddress {s : DispatcherThreads π ξ ε φ} {a : EventDispatcher π ε φ}
    (h : Corresponds s a) : a.nextAddress = s.nextAddress := by
  rw [EventDispatcher.nextAddress, h.externals, h.predictions]
  rfl

theorem settlePrediction_of_not_holds {phase : ThreadPhase ε φ} (h : phase.holdsMutex = false)
    (q : TimedEventQueue (EventPtr ε)) : settlePrediction phase q = q := by
  cases phase with
  | inAdd p stage => cases h
  | _ => rfl

theorem settleExternal_logEvent {owner : Option (EventPtr ε × AddStage)} (h : ∀ ptr, owner ≠ some (ptr, .cleaning))
    (q : TimedEventQueue (EventPtr ε)) (other : EventPtr ε) (stage : ProcessingStage) :
    settleExternal owner (q.logEvent other stage) = (settleExternal owner q).logEvent other stage := by
  match owner with
  | none => rfl
  | some (_, .removing) => rfl
  | some (ptr, .checking) => exact finishAdd_logEvent q ptr false .checking nofun (fun _ => rfl) nofun other stage
  | some (ptr, .cleaning) => exact absurd rfl (h ptr)
  | some (ptr, .pushing) => exact finishAdd_logEvent q ptr false .pushing nofun nofun nofun other stage
  | some (ptr, .notifying) => rfl
  | some (ptr, .leaving) => rfl

theorem settlePrediction_logEvent {phase : ThreadPhase ε φ} {q : TimedEventQueue (EventPtr ε)}
    (h : ∀ p, phase = .inAdd p .cleaning → Calm q.queue) (other : EventPtr ε) (stage : ProcessingStage) :
    settlePrediction phase (q.logEvent other stage) = (settlePrediction phase q).logEvent other stage := by
  cases phase with
  | inAdd p reached =>
    cases reached with
    | removing => rfl
    | checking => rfl
    | cleaning => exact finishAdd_logEvent q p true .cleaning nofun nofun (fun _ => h p rfl) other stage
    | pushing => exact finishAdd_logEvent q p true .pushing nofun nofun nofun other stage
    | notifying => rfl
    | leaving => rfl
  | _ => rfl

section Steps
variable {sim : Simulation π ξ ε φ} {theEnd start : ℚ} {s t : DispatcherThreads π ξ ε φ}
  {a : EventDispatcher π ε φ} {l : ThreadLabel ξ}

theorem Guarded.owner_eq_none (h : Guarded s) (hphase : s.phase.holdsMutex = true) : s.owner = none := by
  by_contra hne
  have hexclusive := h.exclusive (Option.isSome_iff_ne_none.mpr hne)
  rw [hphase] at hexclusive
  cases hexclusive

/-- Whichever thread writes a record, it may as well write it after the holder of the mutex is done. -/
theorem Guarded.settled_logEvent (h : Guarded s) (other : EventPtr ε) (stage : ProcessingStage) :
    settlePrediction s.phase (settleExternal s.owner (s.queue.logEvent other stage)) =
      s.settled.logEvent other stage := by
  rw [settleExternal_logEvent h.notCleaning, settled]
  apply settlePrediction_logEvent
  intro p hp
  have hnone : s.owner = none := h.owner_eq_none (by rw [hp]; rfl)
  rw [hnone]
  exact h.calm p hp

/-- What the holder of the mutex still has to do writes no record. -/
theorem Guarded.settled_records (h : Guarded s) : s.settled.records = s.queue.records := by
  have hexternal : (settleExternal s.owner s.queue).records = s.queue.records := by
    match howner : s.owner with
    | none => rfl
    | some (_, .removing) => rfl
    | some (ptr, .checking) => simp [settleExternal, finishAdd, push]
    | some (ptr, .cleaning) => exact absurd howner (h.notCleaning ptr)
    | some (ptr, .pushing) => simp [settleExternal, finishAdd, push]
    | some (ptr, .notifying) => rfl
    | some (ptr, .leaving) => rfl
  rw [settled]
  cases hphase : s.phase with
  | inAdd p stage =>
    rw [h.owner_eq_none (by rw [hphase]; rfl)]
    cases stage with
    | removing => rfl
    | checking => rfl
    | cleaning =>
      simp only [settlePrediction, settleExternal, finishAdd, removeConcurrentPrediction,
        removePrediction_calm (h.calm p hphase)]
      simp [push]
    | pushing => simp [settlePrediction, settleExternal, finishAdd, push]
    | notifying => rfl
    | leaving => rfl
  | _ => exact hexternal

theorem settled_of_mutexFree (h : s.mutexFree = true) : s.settled = s.queue := by
  simp only [mutexFree, Bool.and_eq_true, Option.isNone_iff_eq_none, Bool.not_eq_true'] at h
  rw [settled, h.1, settlePrediction_of_not_holds h.2]
  rfl

/-- Where a thread holds the mutex without being in `add`, the queue is what it is. -/
theorem Guarded.settled_eq (h : Guarded s) (hphase : s.phase.holdsMutex = true)
    (hadd : ∀ p stage, s.phase = .inAdd p stage → stage = .removing ∨ stage = .checking) : s.settled = s.queue := by
  rw [settled, h.owner_eq_none hphase]
  cases hp : s.phase with
  | inAdd p stage => rcases hadd p stage hp with rfl | rfl <;> rfl
  | _ => rfl

/-- Before its prediction is added there is none in the queue. -/
theorem Corresponds.calm (h : Corresponds s a) (hg : Guarded s) (ha : EventDispatcher.CycleInvariant a)
    {p : EventPtr ε} {stage : AddStage} (hphase : s.phase = .inAdd p stage)
    (hstage : stage = .removing ∨ stage = .checking) : Calm s.queue.queue := by
  have hsettled : s.settled = s.queue := by
    apply hg.settled_eq
    · rw [hphase]
      rfl
    · intro p' stage' hp
      rw [hphase] at hp
      cases hp
      exact hstage
  have hadding : a.phase = .adding p := by
    rw [h.phase, hphase]
    rcases hstage with rfl | rfl <;> rfl
  have hqueue := ha.1
  rw [hadding, h.queue, hsettled] at hqueue
  exact hqueue.1

/-- A thread that does not hold the mutex keeps the guards of the others. -/
theorem Guarded.move (hs : Guarded s) (howner : t.owner = s.owner) (hpending : t.pending = s.pending)
    (hphase : t.phase.holdsMutex = false) : Guarded t := by
  refine ⟨fun _ => hphase, ?_, ?_, fun p hp => ?_, fun p hp => ?_⟩
  · rw [howner]
    exact hs.notCleaning
  · rw [howner, hpending]
    exact hs.found
  · rw [hp] at hphase
    cases hphase
  · rw [hp] at hphase
    cases hphase

omit [Timed ε] in
theorem holdsMutex_notifyOne {phase : ThreadPhase ε φ} (h : phase.holdsMutex = false) :
    (notifyOne phase).holdsMutex = false := by
  cases phase with
  | waiting p deadline => rfl
  | _ => exact h

theorem addStep_external_next {q q' : TimedEventQueue (EventPtr ε)} {ptr : EventPtr ε} {stage next : AddStage}
    (h : q.addStep ptr false stage = (q', some next)) : next ≠ .removing ∧ next ≠ .cleaning := by
  cases stage <;> cases h <;> exact ⟨nofun, nofun⟩

theorem Guarded.addExternal (hs : Guarded s) {ptr : EventPtr ε} {stage : AddStage} {next : Option AddStage}
    {queue : TimedEventQueue (EventPtr ε)} (held : s.owner = some (ptr, stage))
    (access : s.queue.addStep ptr false stage = (queue, next)) (pending : List (EventPtr ε)) :
    Guarded { s with
      queue := queue
      owner := next.map fun stage => (ptr, stage)
      pending := pending
      phase := if stage = .notifying then notifyOne s.phase else s.phase } := by
  have hphase : s.phase.holdsMutex = false := hs.exclusive (by rw [held]; rfl)
  have hphase' : (if stage = .notifying then notifyOne s.phase else s.phase).holdsMutex = false := by
    split
    · exact holdsMutex_notifyOne hphase
    · exact hphase
  refine ⟨fun _ => hphase', fun ptr' howner => ?_, fun ptr' howner => ?_, fun p hp => ?_, fun p hp => ?_⟩
  · obtain ⟨next', rfl, hnext⟩ := Option.map_eq_some_iff.mp howner
    cases hnext
    exact (addStep_external_next access).2 rfl
  · obtain ⟨next', rfl, hnext⟩ := Option.map_eq_some_iff.mp howner
    cases hnext
    exact absurd rfl (addStep_external_next access).1
  · dsimp only at hp
    rw [hp] at hphase'
    cases hphase'
  · dsimp only at hp
    rw [hp] at hphase'
    cases hphase'

theorem Guarded.addPrediction (hs : Guarded s) {p : EventPtr ε} {stage next : AddStage}
    {queue : TimedEventQueue (EventPtr ε)} (hphase : s.phase = .inAdd p stage)
    (access : s.queue.addStep p true stage = (queue, some next))
    (hcalm : stage = .checking → Calm s.queue.queue) :
    Guarded ({ s with queue := queue, phase := .inAdd p next } : DispatcherThreads π ξ ε φ) := by
  have hnone : s.owner = none := hs.owner_eq_none (by rw [hphase]; rfl)
  refine ⟨fun howner => ?_, hs.notCleaning, hs.found, fun p' hp => ?_, nofun⟩
  · dsimp only at howner
    rw [hnone] at howner
    cases howner
  · cases hp
    cases stage with
    | checking =>
      simp only [addStep] at access
      split at access
      · cases access
      · cases access
        exact hcalm rfl
    | _ => cases access

theorem guarded_step (hs : Guarded s) (hc : Corresponds s a) (ha : EventDispatcher.CycleInvariant a)
    (h : Steps sim theEnd start s l t) : Guarded t := by
  cases h with
  | arrive ev => exact ⟨hs.exclusive, hs.notCleaning, hs.found, hs.calm, hs.due⟩
  | waitIfUninitialized position ev closed here =>
    exact ⟨hs.exclusive, hs.notCleaning, hs.found, hs.calm, hs.due⟩
  | pushExternal position ev passed here =>
    refine ⟨hs.exclusive, hs.notCleaning, fun ptr howner => ?_, hs.calm, hs.due⟩
    dsimp only
    rw [List.find?_append, hs.found ptr howner, Option.some_or]
  | lockExternal address ptr free found =>
    simp only [mutexFree, Bool.and_eq_true, Bool.not_eq_true'] at free
    have haddress : ptr.address = address := by simpa using List.find?_some found
    refine ⟨fun _ => free.2, nofun, fun ptr' howner => ?_, hs.calm, hs.due⟩
    cases howner
    rw [haddress]
    exact found
  | addExternal ptr stage queue next held access => exact hs.addExternal held access _
  | initStartTimeNow now phase => exact hs.move rfl rfl rfl
  | predict ev predictor phase next => exact hs.move rfl rfl rfl
  | predictFault fault phase next => exact hs.move rfl rfl rfl
  | lockAdd p free phase =>
    simp only [mutexFree, Bool.and_eq_true, Option.isNone_iff_eq_none] at free
    refine ⟨fun howner => ?_, hs.notCleaning, hs.found, nofun, nofun⟩
    dsimp only at howner
    rw [free.1] at howner
    cases howner
  | lockGet p free phase =>
    simp only [mutexFree, Bool.and_eq_true, Option.isNone_iff_eq_none] at free
    refine ⟨fun howner => ?_, hs.notCleaning, hs.found, nofun, nofun⟩
    dsimp only at howner
    rw [free.1] at howner
    cases howner
  | addPrediction p stage next queue phase access =>
    exact hs.addPrediction phase access fun hstage => hc.calm hs ha phase (.inr hstage)
  | leaveAdd p phase => exact hs.move rfl rfl rfl
  | test now p phase =>
    have hnone : s.owner = none := hs.owner_eq_none (by rw [phase]; rfl)
    refine ⟨fun howner => ?_, hs.notCleaning, hs.found, fun p' hp => ?_, fun p' hp => ?_⟩
    · dsimp only at howner
      rw [hnone] at howner
      cases howner
    · simp only [DispatcherThreads.test] at hp
      split at hp
      · cases hp
      · split at hp <;> cases hp
    · simp only [DispatcherThreads.test] at hp
      split at hp
      · cases hp
      · rename_i front rest hfront
        split at hp
        · cases hp
        · rename_i hdue
          exact ⟨now, front, rest, hfront, by simpa using hdue⟩
  | take p entry rest phase front => exact hs.move rfl rfl rfl
  | wakeUp p deadline phase => exact hs.move rfl rfl rfl
  | beginDistribution p entry phase => exact hs.move rfl rfl rfl
  | distribute p entry predictor phase done =>
    refine hs.move rfl rfl ?_
    simp only [finish]
    split <;> rfl
  | distributeFault p entry fault phase done => exact hs.move rfl rfl rfl

/-- The atomic dispatcher has an answer: no step or one step. -/
def Matched (sim : Simulation π ξ ε φ) (theEnd : ℚ) (a : EventDispatcher π ε φ) (t : DispatcherThreads π ξ ε φ) :
    Prop :=
  Corresponds t a ∨ ∃ l a', EventDispatcher.step sim theEnd a l = some a' ∧ Corresponds t a'

omit [Timed ε] in
theorem atomic_notifyOne (phase : ThreadPhase ε φ) : (notifyOne phase).atomic = phase.atomic := by
  cases phase <;> rfl

/-- The first access of an external thread stands for the whole `add`, and the later ones for nothing. -/
theorem Corresponds.addExternal (hc : Corresponds s a) (hs : Guarded s) {ptr : EventPtr ε} {stage : AddStage}
    {next : Option AddStage} {queue : TimedEventQueue (EventPtr ε)} (held : s.owner = some (ptr, stage))
    (access : s.queue.addStep ptr false stage = (queue, next)) :
    Matched sim theEnd a { s with
      queue := queue
      owner := next.map fun stage => (ptr, stage)
      pending := if stage = .removing then s.pending.eraseP (·.address == ptr.address) else s.pending
      phase := if stage = .notifying then notifyOne s.phase else s.phase } := by
  have hphase : s.phase.holdsMutex = false := hs.exclusive (by rw [held]; rfl)
  have hsettled : s.settled = settleExternal (some (ptr, stage)) s.queue := by
    rw [settled, held, settlePrediction_of_not_holds hphase]
  have hphase' : (if stage = .notifying then notifyOne s.phase else s.phase).holdsMutex = false := by
    split
    · exact holdsMutex_notifyOne hphase
    · exact hphase
  have hatomic : (if stage = .notifying then notifyOne s.phase else s.phase).atomic = s.phase.atomic := by
    split
    · exact atomic_notifyOne s.phase
    · rfl
  by_cases hstage : stage = .removing
  · subst hstage
    cases access
    have hfound : a.pending.find? (·.address == ptr.address) = some ptr := by
      rw [hc.pending]
      exact hs.found ptr held
    refine .inr ⟨.addExternal ptr.address, _, by rw [EventDispatcher.step, hfound], ?_⟩
    refine ⟨hc.predictor, ?_, hc.phase.trans hatomic.symm, ?_, hc.externals, hc.predictions, hc.delivered⟩
    · rw [settled, settlePrediction_of_not_holds hphase', hc.queue, hsettled]
      rfl
    · rw [if_pos rfl, hc.pending]
  · refine .inl ⟨hc.predictor, ?_, hc.phase.trans hatomic.symm, ?_, hc.externals, hc.predictions, hc.delivered⟩
    · rw [hc.queue, hsettled, settled, settlePrediction_of_not_holds hphase']
      cases next with
      | none =>
        obtain ⟨rfl, rfl⟩ := addStep_eq_none access
        rfl
      | some next =>
        have hfinish := finishAdd_addStep access
        obtain ⟨hnext, -⟩ := addStep_external_next access
        cases stage <;> cases next <;> first | exact hfinish.symm | exact absurd rfl hstage | exact absurd rfl hnext
    · rw [if_neg hstage, hc.pending]

/-- A prediction is added when its thread looks for earlier events; until then there is nothing to remove. -/
theorem Corresponds.addPrediction (hc : Corresponds s a) (hs : Guarded s) (ha : EventDispatcher.CycleInvariant a)
    {p : EventPtr ε} {stage next : AddStage} {queue : TimedEventQueue (EventPtr ε)}
    (hphase : s.phase = .inAdd p stage) (access : s.queue.addStep p true stage = (queue, some next)) :
    Matched sim theEnd a { s with queue := queue, phase := .inAdd p next } := by
  have hnone : s.owner = none := hs.owner_eq_none (by rw [hphase]; rfl)
  have hsettled : a.queue = settlePrediction (.inAdd p stage : ThreadPhase ε φ) s.queue := by
    rw [hc.queue, settled, hnone, hphase]
    rfl
  have hatomic : a.phase = (.inAdd p stage : ThreadPhase ε φ).atomic := by rw [hc.phase, hphase]
  have hfinish := finishAdd_addStep access
  have hsettled' (queue : TimedEventQueue (EventPtr ε)) (phase : ThreadPhase ε φ) :
      settled { s with queue := queue, phase := phase } = settlePrediction phase queue := by
    rw [settled, hnone]
    rfl
  have hstay (hqueue : a.queue = settlePrediction (.inAdd p next : ThreadPhase ε φ) queue)
      (hsame : a.phase = (.inAdd p next : ThreadPhase ε φ).atomic) :
      Matched sim theEnd a { s with queue := queue, phase := .inAdd p next } :=
    .inl ⟨hc.predictor, hqueue.trans (hsettled' _ _).symm, hsame, hc.pending, hc.externals, hc.predictions,
      hc.delivered⟩
  cases stage with
  | removing =>
    have hcalm := hc.calm hs ha hphase (.inl rfl)
    cases access
    refine hstay ?_ hatomic
    rw [hsettled, removeFuturPredictions, removePrediction_calm hcalm]
    rfl
  | checking =>
    have hcalm := hc.calm hs ha hphase (.inr rfl)
    have hqueue : a.queue = s.queue := hsettled
    have hadd : a.queue.add p true = finishAdd p true queue next := by
      rw [hfinish, hqueue, add_prediction_calm hcalm]
      simp only [finishAdd, Bool.true_and, if_true, removeConcurrentPrediction, removePrediction_calm hcalm,
        push_prediction_calm hcalm]
    have hnext : next = .leaving ∨ next = .cleaning := by
      simp only [addStep] at access
      split at access
      · cases access
        exact .inl rfl
      · cases access
        exact .inr rfl
    refine .inr ⟨.addPrediction, _, by rw [EventDispatcher.step, hatomic]; rfl, ?_⟩
    refine ⟨hc.predictor, ?_, ?_, hc.pending, hc.externals, hc.predictions, hc.delivered⟩
    · rw [hsettled', hadd]
      rcases hnext with rfl | rfl <;> rfl
    · rcases hnext with rfl | rfl <;> rfl
  | cleaning => cases access; exact hstay (hsettled.trans hfinish.symm) hatomic
  | pushing => cases access; exact hstay (hsettled.trans hfinish.symm) hatomic
  | notifying => cases access; exact hstay (hsettled.trans hfinish.symm) hatomic
  | leaving => cases access

/-- Steps of the dispatcher between two of its phases that mean the same to the atomic one. -/
theorem Corresponds.wait (hc : Corresponds s a) {phase : ThreadPhase ε φ} (hatomic : phase.atomic = s.phase.atomic)
    (hsettle : ∀ q, settlePrediction phase q = settlePrediction s.phase q) : Corresponds { s with phase := phase } a :=
  ⟨hc.predictor, hc.queue.trans (hsettle _).symm, hc.phase.trans hatomic.symm, hc.pending, hc.externals,
    hc.predictions, hc.delivered⟩

/-- A record of the dispatcher. -/
theorem Corresponds.logEvent (hc : Corresponds s a) (hs : Guarded s) (hphase : s.phase.holdsMutex = false)
    (other : EventPtr ε) (stage : ProcessingStage) :
    settleExternal s.owner (s.queue.logEvent other stage) = a.queue.logEvent other stage := by
  rw [hc.queue, settled, settlePrediction_of_not_holds hphase, settleExternal_logEvent hs.notCleaning]

theorem corresponds_step (hs : Guarded s) (hc : Corresponds s a) (ha : EventDispatcher.CycleInvariant a)
    (hstarted : s.phase ≠ .starting) (h : Steps sim theEnd start s l t) : Matched sim theEnd a t := by
  have hatomic := hc.phase
  cases h with
  | arrive ev =>
    exact .inl ⟨hc.predictor, hc.queue, hc.phase, hc.pending, hc.externals, hc.predictions, hc.delivered⟩
  | waitIfUninitialized position ev closed here =>
    exact .inl ⟨hc.predictor, hc.queue, hc.phase, hc.pending, hc.externals, hc.predictions, hc.delivered⟩
  | pushExternal position ev passed here =>
    refine .inr ⟨.pushExternal ev, _, rfl, ?_⟩
    rw [hc.nextAddress]
    refine ⟨hc.predictor, ?_, hc.phase, ?_, ?_, hc.predictions, hc.delivered⟩
    · dsimp only
      rw [hc.queue, ← hs.settled_logEvent]
      rfl
    · dsimp only
      rw [hc.pending]
    · dsimp only
      rw [hc.externals]
  | lockExternal address ptr free found =>
    refine .inl ⟨hc.predictor, ?_, hc.phase, hc.pending, hc.externals, hc.predictions, hc.delivered⟩
    simp only [mutexFree, Bool.and_eq_true, Option.isNone_iff_eq_none, Bool.not_eq_true'] at free
    rw [hc.queue, settled, free.1]
    rfl
  | addExternal ptr stage queue next held access => exact hc.addExternal hs held access
  | initStartTimeNow now phase => exact absurd phase hstarted
  | predict ev predictor phase next =>
    rw [phase] at hatomic
    have hstep : EventDispatcher.step sim theEnd a .predict = some { a with
        predictor := predictor
        queue := a.queue.logEvent ⟨a.nextAddress, ev⟩ .prediction
        phase := .adding ⟨a.nextAddress, ev⟩
        predictions := a.predictions ++ [⟨a.nextAddress, ev⟩] } := by
      rw [EventDispatcher.step, hatomic, hc.predictor]
      simp only [ThreadPhase.atomic, next]
    refine .inr ⟨_, _, hstep, ?_⟩
    rw [hc.nextAddress]
    refine ⟨rfl, ?_, rfl, hc.pending, hc.externals, ?_, hc.delivered⟩
    · exact (hc.logEvent hs (by rw [phase]; rfl) _ _).symm
    · dsimp only
      rw [hc.predictions]
  | predictFault fault phase next =>
    rw [phase] at hatomic
    have hstep : EventDispatcher.step sim theEnd a .predict = some { a with phase := .failed fault } := by
      rw [EventDispatcher.step, hatomic, hc.predictor]
      simp only [ThreadPhase.atomic, next]
    refine .inr ⟨_, _, hstep, hc.predictor, ?_, rfl, hc.pending, hc.externals, hc.predictions, hc.delivered⟩
    rw [hc.queue, settled, phase]
    rfl
  | lockAdd p free phase => exact .inl (hc.wait (by rw [phase]; rfl) fun q => by rw [phase]; rfl)
  | lockGet p free phase => exact .inl (hc.wait (by rw [phase]; rfl) fun q => by rw [phase]; rfl)
  | addPrediction p stage next queue phase access => exact hc.addPrediction hs ha phase access
  | leaveAdd p phase => exact .inl (hc.wait (by rw [phase]; rfl) fun q => by rw [phase]; rfl)
  | test now p phase =>
    refine .inl (hc.wait ?_ fun q => ?_)
    · rw [phase, DispatcherThreads.test]
      split
      · rfl
      · split <;> rfl
    · rw [phase, DispatcherThreads.test]
      split
      · rfl
      · split <;> rfl
  | take p entry rest phase front =>
    have hqueue : a.queue = s.queue := by
      rw [hc.queue]
      apply hs.settled_eq
      · rw [phase]
        rfl
      · intro p' stage hp
        rw [phase] at hp
        cases hp
    obtain ⟨now, entry', rest', hfront, hdue⟩ := hs.due p phase
    rw [front] at hfront
    cases hfront
    rw [phase] at hatomic
    have hstep : EventDispatcher.step sim theEnd a (.get now) = some { a with
        queue := { a.queue with queue := rest }
        phase := .delivering p entry } := by
      rw [EventDispatcher.step, hatomic]
      simp only [ThreadPhase.atomic, TimedEventQueue.get, hqueue, front, hdue, Bool.false_eq_true, if_false]
    refine .inr ⟨_, _, hstep, hc.predictor, ?_, rfl, hc.pending, hc.externals, hc.predictions, hc.delivered⟩
    have hnone : s.owner = none := hs.owner_eq_none (by rw [phase]; rfl)
    rw [settled, hnone, hqueue]
    rfl
  | wakeUp p deadline phase => exact .inl (hc.wait (by rw [phase]; rfl) fun q => by rw [phase]; rfl)
  | beginDistribution p entry phase =>
    rw [phase] at hatomic
    have hstep : EventDispatcher.step sim theEnd a .beginDistribution = some { a with
        queue := a.queue.logEvent entry.1 .beginOfDistribution
        phase := .distributing p entry } := by
      rw [EventDispatcher.step, hatomic]
      rfl
    refine .inr ⟨_, _, hstep, hc.predictor, ?_, rfl, hc.pending, hc.externals, hc.predictions, hc.delivered⟩
    exact (hc.logEvent hs (by rw [phase]; rfl) _ _).symm
  | distribute p entry predictor phase done =>
    rw [phase] at hatomic
    have hstep : EventDispatcher.step sim theEnd a .distribute =
        some (EventDispatcher.finish theEnd { a with predictor := predictor } entry) := by
      rw [EventDispatcher.step, hatomic, hc.predictor]
      simp only [ThreadPhase.atomic, done]
    refine .inr ⟨_, _, hstep, rfl, ?_, ?_, hc.pending, hc.externals, hc.predictions, ?_⟩
    · rw [settled, settlePrediction_of_not_holds]
      · exact (hc.logEvent hs (by rw [phase]; rfl) _ _).symm
      · simp only [finish]
        split <;> rfl
    · simp only [EventDispatcher.finish, finish]
      split <;> rfl
    · simp only [EventDispatcher.finish, finish, hc.delivered]
  | distributeFault p entry fault phase done =>
    rw [phase] at hatomic
    have hstep : EventDispatcher.step sim theEnd a .distribute = some { a with phase := .failed fault } := by
      rw [EventDispatcher.step, hatomic, hc.predictor]
      simp only [ThreadPhase.atomic, done]
    refine .inr ⟨_, _, hstep, hc.predictor, ?_, rfl, hc.pending, hc.externals, hc.predictions, hc.delivered⟩
    rw [hc.queue, settled, phase]
    rfl

end Steps

/-! ### Whole runs -/

/-- Before `initStartTimeNow` no thread gets past the barrier. -/
structure Unstarted (predictor : π) (s : DispatcherThreads π ξ ε φ) : Prop where
  predictor : s.predictor = predictor
  queue : s.queue = {}
  phase : s.phase = .starting
  initialized : s.initialized = false
  pending : s.pending = []
  owner : s.owner = none
  externals : s.externals = []
  predictions : s.predictions = []
  delivered : s.delivered = []

/-- Afterwards no thread is left there, and an atomic run stands behind the schedule. -/
structure Started (sim : Simulation π ξ ε φ) (theEnd start : ℚ) (predictor : π) (s : DispatcherThreads π ξ ε φ) :
    Prop where
  initialized : s.initialized = true
  phase : s.phase ≠ .starting
  blocked : s.blocked = []
  guarded : Guarded s
  behind : ∃ now labels a, EventDispatcher.Reaches sim theEnd (.init predictor now start) labels a ∧ Corresponds s a

section Runs
variable {sim : Simulation π ξ ε φ} {theEnd start : ℚ} {predictor : π} {s t : DispatcherThreads π ξ ε φ}
  {l : ThreadLabel ξ} {labels : List (ThreadLabel ξ)}

theorem Unstarted.guarded (hs : Unstarted predictor s) : Guarded s := by
  refine ⟨fun _ => by rw [hs.phase]; rfl, ?_, ?_, ?_, ?_⟩
  · rw [hs.owner]
    exact nofun
  · rw [hs.owner]
    exact nofun
  · rw [hs.phase]
    exact nofun
  · rw [hs.phase]
    exact nofun

theorem Unstarted.step (hs : Unstarted predictor s) (h : Steps sim theEnd start s l t) :
    Unstarted predictor t ∨ Started sim theEnd start predictor t := by
  have hphase := hs.phase
  cases h with
  | arrive ev =>
    exact .inl ⟨hs.predictor, hs.queue, hs.phase, hs.initialized, hs.pending, hs.owner, hs.externals, hs.predictions,
      hs.delivered⟩
  | waitIfUninitialized position ev closed here =>
    exact .inl ⟨hs.predictor, hs.queue, hs.phase, hs.initialized, hs.pending, hs.owner, hs.externals, hs.predictions,
      hs.delivered⟩
  | pushExternal position ev passed here => rw [hs.initialized] at passed; cases passed
  | lockExternal address ptr free found => rw [hs.pending] at found; cases found
  | addExternal ptr stage queue next held access => rw [hs.owner] at held; cases held
  | initStartTimeNow now phase =>
    refine .inr ⟨rfl, nofun, rfl, hs.guarded.move rfl rfl rfl, now, [], _, rfl, ?_⟩
    refine ⟨hs.predictor.symm, ?_, rfl, hs.pending.symm, hs.externals.symm, hs.predictions.symm, hs.delivered.symm⟩
    rw [settled, hs.owner]
    rfl
  | predict ev predictor' phase next => rw [hphase] at phase; cases phase
  | predictFault fault phase next => rw [hphase] at phase; cases phase
  | lockAdd p free phase => rw [hphase] at phase; cases phase
  | lockGet p free phase => rw [hphase] at phase; cases phase
  | addPrediction p stage next queue phase access => rw [hphase] at phase; cases phase
  | leaveAdd p phase => rw [hphase] at phase; cases phase
  | test now p phase => rw [hphase] at phase; cases phase
  | take p entry rest phase front => rw [hphase] at phase; cases phase
  | wakeUp p deadline phase => rw [hphase] at phase; cases phase
  | beginDistribution p entry phase => rw [hphase] at phase; cases phase
  | distribute p entry predictor' phase done => rw [hphase] at phase; cases phase
  | distributeFault p entry fault phase done => rw [hphase] at phase; cases phase

/-- The barrier stays open, and nobody goes back to the start. -/
theorem barrier_step (hinitialized : s.initialized = true) (hphase : s.phase ≠ .starting) (hblocked : s.blocked = [])
    (h : Steps sim theEnd start s l t) : t.initialized = true ∧ t.phase ≠ .starting ∧ t.blocked = [] := by
  cases h with
  | waitIfUninitialized position ev closed here => rw [hinitialized] at closed; cases closed
  | addExternal ptr stage queue next held access =>
    refine ⟨hinitialized, ?_, hblocked⟩
    dsimp only
    split
    · cases hs : s.phase with
      | starting => exact absurd hs hphase
      | _ => exact nofun
    · exact hphase
  | initStartTimeNow now phase => exact absurd phase hphase
  | test now p phase =>
    refine ⟨hinitialized, ?_, hblocked⟩
    simp only [DispatcherThreads.test]
    split
    · exact nofun
    · split <;> exact nofun
  | distribute p entry predictor phase done =>
    refine ⟨hinitialized, ?_, hblocked⟩
    simp only [finish]
    split <;> exact nofun
  | arrive ev => exact ⟨hinitialized, hphase, hblocked⟩
  | pushExternal position ev passed here => exact ⟨hinitialized, hphase, hblocked⟩
  | lockExternal address ptr free found => exact ⟨hinitialized, hphase, hblocked⟩
  | _ => exact ⟨hinitialized, nofun, hblocked⟩

theorem Started.step (hs : Started sim theEnd start predictor s) (h : Steps sim theEnd start s l t) :
    Started sim theEnd start predictor t := by
  obtain ⟨now, labels, a, hreach, hc⟩ := hs.behind
  have ha := hreach.cycleInvariant
  obtain ⟨hinitialized, hphase, hblocked⟩ := barrier_step hs.initialized hs.phase hs.blocked h
  refine ⟨hinitialized, hphase, hblocked, guarded_step hs.guarded hc ha h, ?_⟩
  rcases corresponds_step hs.guarded hc ha hs.phase h with hc' | ⟨atomic, a', hstep, hc'⟩
  · exact ⟨now, labels, a, hreach, hc'⟩
  · refine ⟨now, labels ++ [atomic], a', ?_, hc'⟩
    exact LabelledRun.exec_append_of_eq_some hreach (LabelledRun.exec_cons_eq_some.mpr ⟨a', hstep, rfl⟩)

theorem Reaches.started (h : Reaches sim theEnd start { predictor := predictor } labels s) :
    Unstarted predictor s ∨ Started sim theEnd start predictor s := by
  have hstep : ∀ s l t, Unstarted predictor s ∨ Started sim theEnd start predictor s →
      step sim theEnd start s l = some t → Unstarted predictor t ∨ Started sim theEnd start predictor t := by
    rintro s l t (hs | hs) hstep
    · exact hs.step (step_steps hstep)
    · exact .inr (hs.step (step_steps hstep))
  exact LabelledRun.exec_invariant hstep (.inl ⟨rfl, rfl, rfl, rfl, rfl, rfl, rfl, rfl, rfl⟩) h

end Runs

/-- Whatever the scheduler does, an atomic run stands behind the threads: it has handed out, distributed and
logged the same, its dispatcher is at the same point, and its queue is the one the threads share as soon as
nobody holds the mutex. Two threads never hold it at once, and none passes the barrier too early or stays
behind it. -/
theorem threads_refine_atomic_dispatcher (sim : Simulation π ξ ε φ) (theEnd start : ℚ) (predictor : π)
    (labels : List (ThreadLabel ξ)) (s : DispatcherThreads π ξ ε φ)
    (h : Reaches sim theEnd start { predictor := predictor } labels s) :
    (s.initialized = false → s.queue = {} ∧ s.pending = [] ∧ s.owner = none ∧ s.phase = .starting) ∧
    (s.initialized = true → s.blocked = [] ∧ (s.owner.isSome = true → s.phase.holdsMutex = false) ∧
      ∃ now atomicLabels a, EventDispatcher.Reaches sim theEnd (.init predictor now start) atomicLabels a ∧
        a.predictor = s.predictor ∧ a.pending = s.pending ∧ a.phase = s.phase.atomic ∧
        a.externals = s.externals ∧ a.predictions = s.predictions ∧ a.delivered = s.delivered ∧
        a.queue.records = s.queue.records ∧ (s.mutexFree = true → a.queue = s.queue)) := by
  rcases h.started with hs | hs
  · refine ⟨fun _ => ⟨hs.queue, hs.pending, hs.owner, hs.phase⟩, fun hinitialized => ?_⟩
    rw [hs.initialized] at hinitialized
    cases hinitialized
  · refine ⟨fun hinitialized => ?_, fun _ => ⟨hs.blocked, hs.guarded.exclusive, ?_⟩⟩
    · rw [hs.initialized] at hinitialized
      cases hinitialized
    · obtain ⟨now, atomicLabels, a, hreach, hc⟩ := hs.behind
      refine ⟨now, atomicLabels, a, hreach, hc.predictor, hc.pending, hc.phase, hc.externals, hc.predictions,
        hc.delivered, ?_, fun hfree => ?_⟩
      · rw [hc.queue]
        exact hs.guarded.settled_records
      · rw [hc.queue]
        exact settled_of_mutexFree hfree

/-- An external event is logged while the dispatcher adds its prediction and takes the place of the
prediction while the dispatcher sleeps. -/
def overtaking : List (ThreadLabel ℚ) :=
  [.arrive (1 / 2), .waitIfUninitialized 0, .initStartTimeNow 0, .predict, .lock, .addPrediction, .pushExternal 0,
    .addPrediction, .addPrediction, .addPrediction, .addPrediction, .addPrediction, .lock, .test 0, .lockExternal 1,
    .addExternal, .addExternal, .addExternal, .addExternal, .addExternal]

theorem threads_refine_atomic_dispatcher_overtaking :
    ∃ s : DispatcherThreads ℚ ℚ ℚ Empty,
      Reaches EventDispatcher.metronome 10 0 { predictor := 0 } overtaking s ∧
      ∃ now labels a, EventDispatcher.Reaches EventDispatcher.metronome 10 (.init 0 now 0) labels a ∧
        a.queue = s.queue ∧ a.phase = .getting ⟨0, 1⟩ ∧ s.queue.queue = [(⟨1, 1 / 2⟩, false)] := by
  obtain ⟨s, hs, hinitialized, hfree, hphase, hqueue⟩ := LabelledRun.exec_of_any
    (step EventDispatcher.metronome 10 0) { predictor := 0 } overtaking
    (fun s => s.initialized = true ∧ s.mutexFree = true ∧ s.phase = .lockingGet ⟨0, 1⟩ ∧
      s.queue.queue = [(⟨1, 1 / 2⟩, false)]) (by decide +kernel)
  obtain ⟨-, now, labels, a, hreach, -, -, ha, -, -, -, -, hsame⟩ :=
    (threads_refine_atomic_dispatcher EventDispatcher.metronome 10 0 0 overtaking s hs).2 hinitialized |>.imp_right
      fun h => h.2
  rw [hphase] at ha
  exact ⟨s, hs, now, labels, a, hreach, hsame hfree, ha, hqueue⟩

/-! ### Waking up -/

/-- Why the dispatcher sleeps until `deadline`. -/
def SleepsFor (q : TimedEventQueue (EventPtr ε)) : Option Int → Prop
  | none => q.queue = []
  | some deadline => ∃ front ∈ q.queue.head?, deadline = q.getSystemTime front.1

/-- A sleeping dispatcher has a reason, or the thread that took it away has not notified it yet. -/
structure Attentive (s : DispatcherThreads π ξ ε φ) : Prop where
  reason : ∀ p deadline, s.phase = .waiting p deadline →
    (∀ ptr stage, s.owner = some (ptr, stage) → stage = .removing) → SleepsFor s.queue deadline
  notified : ∀ p deadline ptr, s.phase = .waiting p deadline → s.owner ≠ some (ptr, .leaving)

section Sleep
variable {sim : Simulation π ξ ε φ} {theEnd start : ℚ} {predictor : π} {s t : DispatcherThreads π ξ ε φ}
  {l : ThreadLabel ξ} {labels : List (ThreadLabel ξ)}

theorem attentive_of_awake (h : ∀ p deadline, t.phase ≠ .waiting p deadline) : Attentive t :=
  ⟨fun p deadline hp => absurd hp (h p deadline), fun p deadline _ hp => absurd hp (h p deadline)⟩

theorem Attentive.addExternal (hs : Attentive s) {ptr : EventPtr ε} {stage : AddStage} {next : Option AddStage}
    {queue : TimedEventQueue (EventPtr ε)} (held : s.owner = some (ptr, stage))
    (access : s.queue.addStep ptr false stage = (queue, next)) (pending : List (EventPtr ε)) :
    Attentive { s with
      queue := queue
      owner := next.map fun stage => (ptr, stage)
      pending := pending
      phase := if stage = .notifying then notifyOne s.phase else s.phase } := by
  by_cases hstage : stage = .notifying
  · apply attentive_of_awake
    intro p deadline
    dsimp only
    rw [if_pos hstage]
    cases s.phase <;> exact nofun
  · refine ⟨fun p deadline hp howner => ?_, fun p deadline ptr' hp howner => ?_⟩
    all_goals
      dsimp only at hp howner
      rw [if_neg hstage] at hp
    · cases next with
      | none =>
        obtain ⟨rfl, -⟩ := addStep_eq_none access
        exact absurd held (hs.notified p deadline ptr hp)
      | some next => exact absurd (howner ptr next rfl) (addStep_external_next access).1
    · obtain ⟨next', rfl, hnext⟩ := Option.map_eq_some_iff.mp howner
      cases hnext
      cases stage <;> cases access
      exact hstage rfl

theorem attentive_step (hg : Guarded s) (hs : Attentive s) (h : Steps sim theEnd start s l t) : Attentive t := by
  cases h with
  | arrive ev => exact ⟨hs.reason, hs.notified⟩
  | waitIfUninitialized position ev closed here => exact ⟨hs.reason, hs.notified⟩
  | pushExternal position ev passed here => exact ⟨hs.reason, hs.notified⟩
  | lockExternal address ptr free found =>
    simp only [mutexFree, Bool.and_eq_true, Option.isNone_iff_eq_none] at free
    refine ⟨fun p deadline hp _ => hs.reason p deadline hp fun ptr' stage howner => ?_,
      fun _ _ _ _ howner => nomatch howner⟩
    rw [free.1] at howner
    cases howner
  | addExternal ptr stage queue next held access => exact hs.addExternal held access _
  | test now p phase =>
    have hnone : s.owner = none := hg.owner_eq_none (by rw [phase]; rfl)
    refine ⟨fun p' deadline hp _ => ?_, fun p' deadline ptr hp howner => ?_⟩
    · simp only [DispatcherThreads.test] at hp
      split at hp
      · rename_i hempty
        cases hp
        exact hempty
      · rename_i front rest hfront
        split at hp
        · cases hp
          exact ⟨front, by rw [hfront]; rfl, rfl⟩
        · cases hp
    · dsimp only at howner
      rw [hnone] at howner
      cases howner
  | distribute p entry predictor phase done =>
    apply attentive_of_awake
    intro p' deadline
    simp only [finish]
    split <;> exact nofun
  | _ => exact attentive_of_awake nofun

theorem Reaches.attentive (h : Reaches sim theEnd start { predictor := predictor } labels s) : Attentive s := by
  have hstep : ∀ s l t, ((Unstarted predictor s ∨ Started sim theEnd start predictor s) ∧ Attentive s) →
      step sim theEnd start s l = some t →
      (Unstarted predictor t ∨ Started sim theEnd start predictor t) ∧ Attentive t := by
    rintro s l t ⟨hs | hs, hattentive⟩ hstep
    · exact ⟨hs.step (step_steps hstep), attentive_step hs.guarded hattentive (step_steps hstep)⟩
    · exact ⟨.inr (hs.step (step_steps hstep)), attentive_step hs.guarded hattentive (step_steps hstep)⟩
  have hinit : Attentive ({ predictor := predictor } : DispatcherThreads π ξ ε φ) := attentive_of_awake nofun
  exact (LabelledRun.exec_invariant hstep ⟨.inl ⟨rfl, rfl, rfl, rfl, rfl, rfl, rfl, rfl, rfl⟩, hinit⟩ h).2

/-- The steps of the thread that holds the mutex in `add`, and of the dispatcher in `get`. -/
def OwnStep (now : Int) : ThreadLabel ξ → Prop
  | .addExternal | .lock | .take | .wakeUp => True
  | .test clock => clock = now
  | _ => False

def AddStage.remaining : AddStage → Nat
  | .removing => 5
  | .checking => 4
  | .cleaning => 3
  | .pushing => 2
  | .notifying => 1
  | .leaving => 0

theorem addStep_remaining {q q' : TimedEventQueue (EventPtr ε)} {ev : EventPtr ε} {predicted : Bool}
    {stage next : AddStage} (h : q.addStep ev predicted stage = (q', some next)) :
    AddStage.remaining next < AddStage.remaining stage := by
  cases stage with
  | checking =>
    simp only [addStep] at h
    split at h
    · cases h
      decide
    · cases h
      cases predicted <;> decide
  | leaving => cases h
  | _ => cases h; decide

/-- An external thread that holds the mutex gives it back without anyone else. -/
theorem owner_leaves (sim : Simulation π ξ ε φ) (theEnd start : ℚ) (n : Nat) (s : DispatcherThreads π ξ ε φ)
    (ptr : EventPtr ε) (stage : AddStage) (held : s.owner = some (ptr, stage)) (hn : AddStage.remaining stage = n) :
    ∃ k t, LabelledRun.exec (step sim theEnd start) s (List.replicate k .addExternal) = some t ∧ t.owner = none ∧
      (t.phase = s.phase ∨ t.phase = notifyOne s.phase) := by
  induction n using Nat.strong_induction_on generalizing s stage with
  | _ n ih =>
    obtain ⟨queue, next, access⟩ : ∃ queue next, s.queue.addStep ptr false stage = (queue, next) := ⟨_, _, rfl⟩
    obtain ⟨u, hstep, howner, hphase⟩ : ∃ u, step sim theEnd start s .addExternal = some u ∧
        u.owner = next.map (fun stage => (ptr, stage)) ∧
        u.phase = if stage = .notifying then notifyOne s.phase else s.phase := by
      refine ⟨{ s with
        queue := queue
        owner := next.map fun stage => (ptr, stage)
        pending := if stage = .removing then s.pending.eraseP (·.address == ptr.address) else s.pending
        phase := if stage = .notifying then notifyOne s.phase else s.phase }, ?_, rfl, rfl⟩
      simp only [step, externalStep, held, access]
    cases next with
    | none =>
      obtain ⟨rfl, -⟩ := addStep_eq_none access
      exact ⟨1, u, LabelledRun.exec_cons_eq_some.mpr ⟨u, hstep, rfl⟩, howner, .inl hphase⟩
    | some next =>
      obtain ⟨k, t, hrun, hnone, hphase'⟩ := ih _ (hn ▸ addStep_remaining access) u next howner rfl
      refine ⟨k + 1, t, LabelledRun.exec_cons_eq_some.mpr ⟨u, hstep, hrun⟩, hnone, ?_⟩
      rw [hphase] at hphase'
      split at hphase'
      · right
        rcases hphase' with hphase' | hphase'
        · exact hphase'
        · rw [hphase']
          cases s.phase <;> rfl
      · exact hphase'

/-- The dispatcher in `get`, for the prediction `p`. -/
def InGet (p : EventPtr ε) (phase : ThreadPhase ε φ) : Prop :=
  phase = .lockingGet p ∨ phase = .testing p ∨ (∃ deadline, phase = .waiting p deadline) ∨ phase = .taking p

/-- The dispatcher gets to deliver the entry by its own steps, when the clock shows `now`. -/
def Obtains (sim : Simulation π ξ ε φ) (theEnd start : ℚ) (now : Int) (p : EventPtr ε) (entry : EventPtr ε × Bool)
    (s : DispatcherThreads π ξ ε φ) : Prop :=
  ∃ own t, (∀ l ∈ own, OwnStep now l) ∧ Reaches sim theEnd start s own t ∧ t.phase = .delivering p entry

theorem Obtains.cons {now : Int} {p : EventPtr ε} {entry : EventPtr ε × Bool} {l : ThreadLabel ξ}
    {u : DispatcherThreads π ξ ε φ} (hl : OwnStep now l) (hstep : step sim theEnd start s l = some u)
    (h : Obtains sim theEnd start now p entry u) : Obtains sim theEnd start now p entry s := by
  obtain ⟨own, t, hown, hrun, ht⟩ := h
  exact ⟨l :: own, t, List.forall_mem_cons.mpr ⟨hl, hown⟩, LabelledRun.exec_cons_eq_some.mpr ⟨u, hstep, hrun⟩, ht⟩

/-- Once the first event is due, the dispatcher gets it. -/
theorem get_returns {p : EventPtr ε} {entry : EventPtr ε × Bool} {rest : List (EventPtr ε × Bool)}
    (hphase : InGet p s.phase) (howner : s.owner = none) (hfront : s.queue.queue = entry :: rest) {now : Int}
    (hdue : s.queue.getSystemTime entry.1 ≤ now) :
    Obtains sim theEnd start now p entry s := by
  -- The phases from the last one backwards: each of them is one step before the next.
  have htaking (u : DispatcherThreads π ξ ε φ) (hu : u.phase = .taking p) (hqueue : u.queue = s.queue) :
      Obtains sim theEnd start now p entry u := by
    apply Obtains.cons (u := { u with queue := { u.queue with queue := rest }, phase := .delivering p entry })
      (l := .take) trivial
    · simp only [step, externalStep, dispatcherStep, hu, hqueue, hfront]
    · exact ⟨[], _, List.forall_mem_nil _, rfl, rfl⟩
  have htesting (u : DispatcherThreads π ξ ε φ) (hu : u.phase = .testing p) (hqueue : u.queue = s.queue) :
      Obtains sim theEnd start now p entry u := by
    have htest : u.test now p = .taking p := by
      have hnow : s.queue.isFutureEvent now entry.1 = false := decide_eq_false (not_lt.mpr hdue)
      simp only [DispatcherThreads.test, hqueue, hfront, hnow, Bool.false_eq_true, if_false]
    apply Obtains.cons (u := { u with phase := u.test now p }) (l := .test now) rfl
    · simp only [step, externalStep, dispatcherStep, hu]
    · exact htaking _ htest hqueue
  have hlocking (u : DispatcherThreads π ξ ε φ) (hu : u.phase = .lockingGet p) (hqueue : u.queue = s.queue)
      (hnone : u.owner = none) :
      Obtains sim theEnd start now p entry u := by
    have hfree : u.mutexFree = true := by rw [mutexFree, hnone, hu]; rfl
    apply Obtains.cons (u := { u with phase := .testing p }) (l := .lock) trivial
    · simp only [step, externalStep, dispatcherStep, hu, hfree, if_true]
    · exact htesting _ rfl hqueue
  rcases hphase with hphase | hphase | ⟨deadline, hphase⟩ | hphase
  · exact hlocking s hphase rfl howner
  · exact htesting s hphase rfl
  · apply Obtains.cons (u := { s with phase := .lockingGet p }) (l := .wakeUp) trivial
    · simp only [step, externalStep, dispatcherStep, hphase]
    · exact hlocking _ rfl rfl howner
  · exact htaking s hphase rfl

/-- The first entry of the queue the dispatcher waits for. -/
theorem Started.front (hs : Started sim theEnd start predictor s) {p : EventPtr ε} (hphase : InGet p s.phase)
    (howner : s.owner = none) : ∃ entry rest, s.queue.queue = entry :: rest := by
  obtain ⟨now, labels, a, hreach, hc⟩ := hs.behind
  have hatomic : a.phase = .getting p := by
    rw [hc.phase]
    rcases hphase with hphase | hphase | ⟨deadline, hphase⟩ | hphase <;> rw [hphase] <;> rfl
  have hqueue : a.queue = s.queue := by
    rw [hc.queue, settled, howner]
    rcases hphase with hphase | hphase | ⟨deadline, hphase⟩ | hphase <;> rw [hphase] <;> rfl
  have hawaiting := hreach.cycleInvariant.1
  rw [hatomic, hqueue] at hawaiting
  rcases hawaiting with ⟨rest, hq, -⟩ | ⟨-, -, front, hfront, -⟩
  · exact ⟨_, rest, hq⟩
  · obtain ⟨rest, hq⟩ := List.head?_eq_some_iff.mp hfront
    exact ⟨front, rest, hq⟩

end Sleep

/-- No wake-up is lost. While the dispatcher sleeps and nobody holds the mutex, it sleeps exactly until the first
event of the queue is due; it never sleeps without a deadline. And wherever it is in `get`, after the thread
that holds the mutex has left it, the first event of the queue is delivered as soon as it is due, by steps of
the dispatcher alone. -/
theorem dispatcher_wakes_up_in_time (sim : Simulation π ξ ε φ) (theEnd start : ℚ) (predictor : π)
    (labels : List (ThreadLabel ξ)) (s : DispatcherThreads π ξ ε φ)
    (h : Reaches sim theEnd start { predictor := predictor } labels s) (p : EventPtr ε) :
    (∀ deadline, s.phase = .waiting p deadline → s.mutexFree = true →
      ∃ front ∈ s.queue.queue.head?, deadline = some (s.queue.getSystemTime front.1)) ∧
    (InGet p s.phase → ∃ k t entry, Reaches sim theEnd start s (List.replicate k .addExternal) t ∧
      entry ∈ t.queue.queue.head? ∧
      ∀ now, t.queue.getSystemTime entry.1 ≤ now → Obtains sim theEnd start now p entry t) := by
  constructor
  · intro deadline hphase hfree
    have hreason := h.attentive.reason p deadline hphase
    simp only [mutexFree, Bool.and_eq_true, Option.isNone_iff_eq_none] at hfree
    rw [hfree.1] at hreason
    have hsleeps := hreason nofun
    cases deadline with
    | some deadline =>
      obtain ⟨front, hfront, rfl⟩ := hsleeps
      exact ⟨front, hfront, rfl⟩
    | none =>
      rcases h.started with hs | hs
      · rw [hs.phase] at hphase
        cases hphase
      · obtain ⟨entry, rest, hq⟩ := hs.front (.inr (.inr (.inl ⟨_, hphase⟩))) hfree.1
        rw [hsleeps] at hq
        cases hq
  · intro hphase
    obtain ⟨k, t, hrun, howner, hphase'⟩ : ∃ k t, Reaches sim theEnd start s (List.replicate k .addExternal) t ∧
        t.owner = none ∧ InGet p t.phase := by
      cases howner : s.owner with
      | none => exact ⟨0, s, rfl, howner, hphase⟩
      | some held =>
        obtain ⟨k, t, hrun, hnone, ht⟩ := owner_leaves sim theEnd start _ s held.1 held.2 howner rfl
        refine ⟨k, t, hrun, hnone, ?_⟩
        rcases ht with ht | ht
        · rw [ht]
          exact hphase
        · rw [ht]
          rcases hphase with hphase | hphase | ⟨deadline, hphase⟩ | hphase <;> rw [hphase]
          · exact .inl rfl
          · exact .inr (.inl rfl)
          · exact .inl rfl
          · exact .inr (.inr (.inr rfl))
    have hreach : Reaches sim theEnd start { predictor := predictor } (labels ++ List.replicate k .addExternal) t :=
      LabelledRun.exec_append_of_eq_some h hrun
    rcases hreach.started with hs | hs
    · have := hs.phase
      rcases hphase' with hphase' | hphase' | ⟨deadline, hphase'⟩ | hphase' <;> rw [hphase'] at this <;> cases this
    · obtain ⟨entry, rest, hq⟩ := hs.front hphase' howner
      exact ⟨k, t, entry, hrun, by rw [hq]; rfl, fun now hdue => get_returns hphase' howner hq hdue⟩

/-- The dispatcher falls asleep before the external event is added. -/
theorem dispatcher_wakes_up_in_time_asleep :
    ∃ s : DispatcherThreads ℚ ℚ ℚ Empty,
      Reaches EventDispatcher.metronome 10 0 { predictor := 0 } (overtaking.take 14) s ∧
      s.phase = .waiting ⟨0, 1⟩ (some 1000000) ∧
      (∃ front ∈ s.queue.queue.head?, some 1000000 = some (s.queue.getSystemTime front.1)) ∧
      ∃ k t entry, Reaches EventDispatcher.metronome 10 0 s (List.replicate k .addExternal) t ∧
        entry ∈ t.queue.queue.head? ∧
        ∀ now, t.queue.getSystemTime entry.1 ≤ now → Obtains EventDispatcher.metronome 10 0 now ⟨0, 1⟩ entry t := by
  obtain ⟨s, hs, hphase, hfree⟩ := LabelledRun.exec_of_any
    (step EventDispatcher.metronome 10 0) { predictor := 0 } (overtaking.take 14)
    (fun s => s.phase = .waiting ⟨0, 1⟩ (some 1000000) ∧ s.mutexFree = true) (by decide +kernel)
  have hwakes := dispatcher_wakes_up_in_time EventDispatcher.metronome 10 0 0 _ s hs ⟨0, 1⟩
  exact ⟨s, hs, hphase, hwakes.1 _ hphase hfree, hwakes.2 (.inr (.inr (.inl ⟨_, hphase⟩)))⟩

end DispatcherThreads
end FMITerminalBlock.Timing
