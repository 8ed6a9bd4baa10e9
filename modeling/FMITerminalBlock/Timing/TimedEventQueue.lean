import FMITerminalBlock.Library.NearlySorted
import Mathlib.Data.Rat.Floor
import Mathlib.Order.WithBot

/-! The event queue of the dispatcher. Every operation runs under `queueMut_`, so each of them
is one function on the queue; times are exact rationals. -/
namespace FMITerminalBlock.Timing

/-- Whatever carries a time stamp can be queued. -/
class Timed (ε : Type) where
  getTime : ε → ℚ

export Timed (getTime)

/-- The processing stages of a timing record, with the numbers of the timing file. -/
inductive ProcessingStage where
  | realTimeGeneration | prediction | endOfDistribution | beginOfDistribution | outdated
  deriving DecidableEq, Repr

def ProcessingStage.code : ProcessingStage → Nat
  | .realTimeGeneration => 0
  | .prediction => 1
  | .endOfDistribution => 2
  | .beginOfDistribution => 3
  | .outdated => 4

/-- The assertions of the queue that depend on its content. -/
inductive Assertion where
  | predictionConsistent | pushedOverPrediction | visitedInOrder
  deriving DecidableEq, Repr

/-- `queue_` with its prediction flags and the epoch. All logger instances write to one sink, so
the timing records are kept in a single list. A failed assertion is remembered in `failed`; the
operation goes on as it does in a build without assertions. -/
structure TimedEventQueue (ε : Type) where
  queue : List (ε × Bool) := []
  localEpoch : Int := 0
  records : List (ε × ProcessingStage) := []
  failed : List Assertion := []
  deriving DecidableEq

/-- The tolerance `eps_` used to compare instants of time. -/
def eps : ℚ := 1 / 1000

theorem eps_nonneg : 0 ≤ eps := by norm_num [eps]

namespace TimedEventQueue
variable {ε : Type}

def logEvent (q : TimedEventQueue ε) (ev : ε) (stage : ProcessingStage) : TimedEventQueue ε :=
  { q with records := q.records ++ [(ev, stage)] }

def check (q : TimedEventQueue ε) (a : Assertion) (holds : Bool) : TimedEventQueue ε :=
  if holds then q else { q with failed := q.failed ++ [a] }

/-- Logs the event as outdated and destroys it. -/
def deleteEvent (q : TimedEventQueue ε) (ev : ε) : TimedEventQueue ε :=
  q.logEvent ev .outdated

def isQueuePredictionConsistent (queue : List (ε × Bool)) : Bool :=
  queue.tail.all fun entry => !entry.2

/-- The duration from the epoch in microseconds: whole seconds and the truncated fraction. -/
def getRelativeTime (time : ℚ) : Int :=
  ⌊time⌋ * 1000000 + ⌊(time - ⌊time⌋) * 1000 * 1000⌋

def initStartTimeNow (now : Int) (start : ℚ) : TimedEventQueue ε :=
  { localEpoch := now - getRelativeTime start }

variable [Timed ε]

def entryTime (entry : ε × Bool) : ℚ := getTime entry.1

/-- Both removals test the first entry only: a prediction that is outdated is destroyed. -/
def removePrediction (q : TimedEventQueue ε) (isOutdated : ε → Bool) : TimedEventQueue ε :=
  let q := q.check .predictionConsistent (isQueuePredictionConsistent q.queue)
  match q.queue with
  | (front, true) :: rest =>
    if isOutdated front then { q.deleteEvent front with queue := rest } else q
  | _ => q

def removeFuturPredictions (q : TimedEventQueue ε) (time : ℚ) : TimedEventQueue ε :=
  q.removePrediction fun front => decide (getTime front > time + eps)

def removeConcurrentPrediction (q : TimedEventQueue ε) (time : ℚ) : TimedEventQueue ε :=
  q.removePrediction fun front => decide (|getTime front - time| ≤ eps)

/-- The scan loop of `push` with the assertion it makes on every visited element. The least time
`-1*DBL_MAX` the loop starts from is `⊥`, since nothing lies below it. -/
def scan (ev : ε) (predicted : Bool) : WithBot ℚ → List (ε × Bool) → List (ε × Bool) × Bool
  | _, [] => ([(ev, predicted)], true)
  | invariantOldTime, entry :: rest =>
    if entryTime entry ≤ getTime ev + eps ∧ !predicted then
      let (tail, ok) := scan ev predicted (entryTime entry : ℚ) rest
      (entry :: tail, decide (invariantOldTime ≤ ((entryTime entry + eps : ℚ) : WithBot ℚ)) && ok)
    else ((ev, predicted) :: entry :: rest, true)

def push (q : TimedEventQueue ε) (ev : ε) (predicted : Bool) : TimedEventQueue ε :=
  let q := q.check .pushedOverPrediction
    (q.queue.isEmpty || !(q.queue.head?.any (·.2)) || !predicted)
  let (queue, inOrder) := scan ev predicted ⊥ q.queue
  { q.check .visitedInOrder inOrder with queue := queue }

def hasPriorEvents (q : TimedEventQueue ε) (maxTime : ℚ) : Bool :=
  match q.queue with
  | [] => false
  | front :: _ => decide (entryTime front < maxTime - eps)

def add (q : TimedEventQueue ε) (ev : ε) (predicted : Bool) : TimedEventQueue ε :=
  let q := q.removeFuturPredictions (getTime ev)
  if predicted && q.hasPriorEvents (getTime ev) then
    q.deleteEvent ev -- The event is already outdated
  else
    let q := if predicted then q.removeConcurrentPrediction (getTime ev) else q
    q.push ev predicted

def getSystemTime (q : TimedEventQueue ε) (ev : ε) : Int :=
  q.localEpoch + getRelativeTime (getTime ev)

def isFutureEvent (q : TimedEventQueue ε) (now : Int) (ev : ε) : Bool :=
  decide (q.getSystemTime ev > now)

/-- One turn of the loop in `get` at clock value `now`. The result is `none` while the caller has
to wait, because the queue is empty or because its first event lies in the future. The source
returns the event alone; its flag stays beside it to tell a prediction from an external event. -/
def get (q : TimedEventQueue ε) (now : Int) : Option ((ε × Bool) × TimedEventQueue ε) :=
  match q.queue with
  | [] => none
  | front :: rest =>
    if q.isFutureEvent now front.1 then none else some (front, { q with queue := rest })

theorem get_eq_some {q q' : TimedEventQueue ε} {now : Int} {entry : ε × Bool}
    (h : q.get now = some (entry, q')) :
    ∃ rest, q.queue = entry :: rest ∧ q' = { q with queue := rest } ∧
      q.isFutureEvent now entry.1 = false := by
  unfold get at h
  split at h
  · cases h
  · rename_i front rest hq
    split at h
    · cases h
    · rename_i hfut
      cases h
      exact ⟨rest, hq, rfl, by simpa using hfut⟩

end TimedEventQueue
end FMITerminalBlock.Timing
