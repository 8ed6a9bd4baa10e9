import FMITerminalBlock.Timing.TimedEventQueue
import Mathlib.Data.List.Chain

/-! What the operations of the queue do: which entries they move or destroy, and when their
assertions hold. The later results use these facts and never the code of the operations. -/
namespace FMITerminalBlock.Timing.TimedEventQueue
variable {ε : Type}

@[simp] theorem logEvent_queue (q : TimedEventQueue ε) (ev : ε) (stage : ProcessingStage) :
    (q.logEvent ev stage).queue = q.queue := rfl
@[simp] theorem logEvent_failed (q : TimedEventQueue ε) (ev : ε) (stage : ProcessingStage) :
    (q.logEvent ev stage).failed = q.failed := rfl
@[simp] theorem logEvent_records (q : TimedEventQueue ε) (ev : ε) (stage : ProcessingStage) :
    (q.logEvent ev stage).records = q.records ++ [(ev, stage)] := rfl
@[simp] theorem check_queue (q : TimedEventQueue ε) (a : Assertion) (b : Bool) :
    (q.check a b).queue = q.queue := by unfold check; split <;> rfl
@[simp] theorem check_records (q : TimedEventQueue ε) (a : Assertion) (b : Bool) :
    (q.check a b).records = q.records := by unfold check; split <;> rfl
@[simp] theorem check_true (q : TimedEventQueue ε) (a : Assertion) : q.check a true = q := rfl

/-- No entry of the queue is a prediction. -/
def Calm (queue : List (ε × Bool)) : Prop := ∀ entry ∈ queue, entry.2 = false

theorem Calm.tail {entry : ε × Bool} {rest : List (ε × Bool)} (h : Calm (entry :: rest)) : Calm rest :=
  fun x hx => h x (List.mem_cons_of_mem entry hx)

theorem consistent_cons (entry : ε × Bool) (rest : List (ε × Bool)) :
    isQueuePredictionConsistent (entry :: rest) = true ↔ Calm rest := by
  simp [isQueuePredictionConsistent, Calm]

theorem Calm.consistent {queue : List (ε × Bool)} (h : Calm queue) :
    isQueuePredictionConsistent queue = true := by
  cases queue with
  | nil => rfl
  | cons entry rest => exact (consistent_cons entry rest).mpr h.tail

/-! ### Removals -/

theorem removePrediction_calm {q : TimedEventQueue ε} (h : Calm q.queue) (isOutdated : ε → Bool) :
    q.removePrediction isOutdated = q := by
  rw [removePrediction]
  rw [h.consistent, check_true]
  dsimp only
  split
  · rename_i front rest heq
    have hfront := h (front, true) (by rw [heq]; exact List.mem_cons_self)
    cases hfront
  · rfl

theorem removePrediction_cons {q : TimedEventQueue ε} {p : ε} {rest : List (ε × Bool)}
    (hq : q.queue = (p, true) :: rest) (hrest : Calm rest) (isOutdated : ε → Bool) :
    q.removePrediction isOutdated =
      if isOutdated p then { q.deleteEvent p with queue := rest } else q := by
  have hc : isQueuePredictionConsistent q.queue = true := by
    rw [hq]; exact (consistent_cons _ _).mpr hrest
  rw [removePrediction]
  rw [hc, check_true]
  dsimp only
  rw [hq]

/-- Nothing gets lost between two queues: what was queued or is added is queued afterwards, or it
was a prediction that is destroyed with a record. -/
def Moves (added : List (ε × Bool)) (q q' : TimedEventQueue ε) : Prop :=
  ∃ dropped : List ε, q'.records = q.records ++ dropped.map (·, .outdated) ∧
    (q'.queue ++ dropped.map (·, true)).Perm (added ++ q.queue)

theorem Moves.trans {a b : List (ε × Bool)} {q q' q'' : TimedEventQueue ε}
    (h : Moves a q q') (h' : Moves b q' q'') : Moves (b ++ a) q q'' := by
  obtain ⟨d, hr, hp⟩ := h
  obtain ⟨d', hr', hp'⟩ := h'
  refine ⟨d ++ d', by rw [hr', hr, List.map_append, List.append_assoc], ?_⟩
  have hswap : (q''.queue ++ (d ++ d').map (·, true)).Perm
      (q''.queue ++ d'.map (·, true) ++ d.map (·, true)) := by
    rw [List.map_append, List.append_assoc]
    exact List.perm_append_comm.append_left _
  have hlast := hp'.append_right (d.map (·, true))
  rw [List.append_assoc b] at hlast
  have hfirst := hp.append_left b
  rw [← List.append_assoc b a] at hfirst
  exact hswap.trans (hlast.trans hfirst)

theorem deleteEvent_moves (q : TimedEventQueue ε) (ev : ε) :
    Moves [(ev, true)] q (q.deleteEvent ev) :=
  ⟨[ev], rfl, List.perm_append_comm⟩

theorem removePrediction_moves (q : TimedEventQueue ε) (isOutdated : ε → Bool) :
    Moves [] q (q.removePrediction isOutdated) := by
  rw [removePrediction]
  dsimp only
  split
  · rename_i front rest heq
    split
    · refine ⟨[front], by simp [deleteEvent], ?_⟩
      rw [check_queue] at heq
      rw [heq]
      exact List.perm_append_comm
    · exact ⟨[], by simp, by simp⟩
  · exact ⟨[], by simp, by simp⟩

variable [Timed ε]

/-- The entries stand in order up to the tolerance. -/
abbrev Ordered (queue : List (ε × Bool)) : Prop := NearlySorted.Sorted eps entryTime queue

/-! ### The scan of `push` -/

theorem scan_prediction (ev : ε) (old : WithBot ℚ) (queue : List (ε × Bool)) :
    scan ev true old queue = ((ev, true) :: queue, true) := by
  cases queue <;> simp [scan]

theorem scan_external (ev : ε) (old : WithBot ℚ) (queue : List (ε × Bool)) :
    (scan ev false old queue).1 = NearlySorted.insert eps entryTime (ev, false) queue := by
  induction queue generalizing old with
  | nil => rfl
  | cons entry rest ih =>
    rcases le_or_gt (entryTime entry) (getTime ev + eps) with h | h
    · rw [NearlySorted.insert_cons_of_le (by exact h)]
      simp [scan, h, ih]
    · rw [NearlySorted.insert_cons_of_lt (by exact h)]
      simp [scan, not_le.mpr h]

/-- The scan compares neighbours only, so it accepts every list whose neighbours are in order. -/
theorem scan_in_order (ev : ε) (old : WithBot ℚ) (queue : List (ε × Bool))
    (hold : ∀ entry ∈ queue.head?, old ≤ ((entryTime entry + eps : ℚ) : WithBot ℚ))
    (hchain : queue.IsChain fun a b => entryTime a ≤ entryTime b + eps) :
    (scan ev false old queue).2 = true := by
  induction queue generalizing old with
  | nil => rfl
  | cons entry rest ih =>
    rw [scan]
    split
    · have hrest : (scan ev false (entryTime entry : ℚ) rest).2 = true := by
        apply ih _ _ hchain.tail
        intro next hnext
        obtain ⟨rest', rfl⟩ := List.head?_eq_some_iff.mp hnext
        exact WithBot.coe_le_coe.mpr (List.isChain_cons_cons.mp hchain).1
      simp only [hrest, Bool.and_true, decide_eq_true_eq]
      exact hold entry rfl
    · rfl

/-! ### Adding -/

theorem push_prediction_calm {q : TimedEventQueue ε} (h : Calm q.queue) (ev : ε) :
    q.push ev true = { q with queue := (ev, true) :: q.queue } := by
  rw [push]
  have hfront : (q.queue.head?.any (·.2)) = false := by
    cases hq : q.queue with
    | nil => rfl
    | cons entry rest => simpa using h entry (by rw [hq]; exact List.mem_cons_self)
  simp [hfront, scan_prediction, check]

/-- An external event is inserted by its time; no assertion fails where neighbours are in order. -/
theorem push_external (q : TimedEventQueue ε) (ev : ε)
    (hchain : q.queue.IsChain fun a b => entryTime a ≤ entryTime b + eps) :
    q.push ev false = { q with queue := NearlySorted.insert eps entryTime (ev, false) q.queue } := by
  rw [push]
  have hscan : (scan ev false ⊥ q.queue).2 = true := scan_in_order ev ⊥ _ (by simp) hchain
  simp [scan_external, hscan]

theorem Ordered.isChain {queue : List (ε × Bool)} (h : Ordered queue) :
    queue.IsChain fun a b => entryTime a ≤ entryTime b + eps := List.Pairwise.isChain h

theorem add_external_calm {q : TimedEventQueue ε} (hcalm : Calm q.queue) (hord : Ordered q.queue) (ev : ε) :
    q.add ev false = { q with queue := NearlySorted.insert eps entryTime (ev, false) q.queue } := by
  rw [add]
  rw [removeFuturPredictions, removePrediction_calm hcalm]
  simp [push_external q ev hord.isChain]

theorem add_prediction_calm {q : TimedEventQueue ε} (hcalm : Calm q.queue) (ev : ε) :
    q.add ev true = if q.hasPriorEvents (getTime ev) then q.deleteEvent ev
      else { q with queue := (ev, true) :: q.queue } := by
  rw [add]
  rw [removeFuturPredictions, removePrediction_calm hcalm]
  simp only [Bool.true_and, if_true, removeConcurrentPrediction, removePrediction_calm hcalm,
    push_prediction_calm hcalm]

theorem push_moves (q : TimedEventQueue ε) (ev : ε) (predicted : Bool) :
    Moves [(ev, predicted)] q (q.push ev predicted) := by
  refine ⟨[], by simp [push], ?_⟩
  cases predicted with
  | true => simp [push, scan_prediction]
  | false => simpa [push, scan_external] using NearlySorted.insert_perm

/-- This holds of every queue, whether its predictions are consistent or not. -/
theorem add_moves (q : TimedEventQueue ε) (ev : ε) (predicted : Bool) :
    Moves [(ev, predicted)] q (q.add ev predicted) := by
  have hfutur := removePrediction_moves q fun front => decide (getTime front > getTime ev + eps)
  unfold add removeFuturPredictions
  dsimp only
  split
  · rename_i hrefused
    have hp : predicted = true := by simp_all
    subst hp
    exact hfutur.trans (deleteEvent_moves _ ev)
  · cases predicted with
    | false => exact hfutur.trans (push_moves _ ev false)
    | true =>
      have hconc := removePrediction_moves
        (q.removePrediction fun front => decide (getTime front > getTime ev + eps))
        fun front => decide (|getTime front - getTime ev| ≤ eps)
      exact (hfutur.trans hconc).trans (push_moves _ ev true)

end FMITerminalBlock.Timing.TimedEventQueue
