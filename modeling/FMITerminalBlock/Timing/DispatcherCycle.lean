import FMITerminalBlock.Timing.EventDispatcher
import FMITerminalBlock.Timing.QueueOperations
import Mathlib.Tactic.Linarith

/-! What one cycle of the dispatcher delivers, under every interleaving with the threads that push
external events. -/
namespace FMITerminalBlock.Timing
namespace TimedEventQueue
variable {ε : Type} [Timed ε]

/-- The queue while the dispatcher waits in `get` after adding the prediction `p`: either `p` is
still the first entry, at most `eps` later than the entry behind it, or it is gone and the first
entry is an external event earlier than `p`. -/
def Awaiting (p : ε) (queue : List (ε × Bool)) : Prop :=
  (∃ rest, queue = (p, true) :: rest ∧ Calm rest ∧ Ordered rest ∧
    ∀ next ∈ rest.head?, getTime p ≤ entryTime next + eps) ∨
  (Calm queue ∧ Ordered queue ∧ ∃ front ∈ queue.head?, entryTime front < getTime p)

theorem calm_insert {queue : List (ε × Bool)} (h : Calm queue) (ev : ε) :
    Calm (NearlySorted.insert eps entryTime (ev, false) queue) := by
  intro entry hentry
  rcases NearlySorted.mem_insert.mp hentry with rfl | hmem
  · rfl
  · exact h entry hmem

theorem ordered_insert {queue : List (ε × Bool)} (h : Ordered queue) (ev : ε) :
    Ordered (NearlySorted.insert eps entryTime (ev, false) queue) :=
  NearlySorted.insert_sorted eps_nonneg h

/-- After inserting an external event the front is the event itself or at most `eps` later. -/
theorem front_insert_le (queue : List (ε × Bool)) (ev : ε) :
    ∃ front ∈ (NearlySorted.insert eps entryTime (ev, false) queue).head?,
      entryTime front ≤ getTime ev + eps := by
  obtain ⟨front, hfront⟩ := NearlySorted.exists_head?_insert eps entryTime (ev, false) queue
  refine ⟨front, hfront, ?_⟩
  rcases NearlySorted.head?_insert hfront with ⟨rfl, -⟩ | ⟨-, hle⟩
  · exact le_add_of_nonneg_right eps_nonneg
  · exact hle

/-- The front never gets later by inserting an event. -/
theorem front_insert_mono {queue : List (ε × Bool)} {front : ε × Bool} (hfront : front ∈ queue.head?)
    (ev : ε) : ∃ front' ∈ (NearlySorted.insert eps entryTime (ev, false) queue).head?,
      entryTime front' ≤ entryTime front := by
  obtain ⟨front', h⟩ := NearlySorted.exists_head?_insert eps entryTime (ev, false) queue
  refine ⟨front', h, ?_⟩
  rcases NearlySorted.head?_insert h with ⟨rfl, hlt⟩ | ⟨hmem, -⟩
  · have := hlt front hfront
    exact (le_add_of_nonneg_right eps_nonneg).trans this.le
  · rw [Option.mem_unique hmem hfront]

theorem add_prediction_awaiting {q : TimedEventQueue ε} (hcalm : Calm q.queue)
    (hord : Ordered q.queue) (p : ε) :
    Awaiting p (q.add p true).queue ∧ (q.add p true).failed = q.failed := by
  rw [add_prediction_calm hcalm]
  cases hq : q.queue with
  | nil =>
    simp only [hasPriorEvents, hq, Bool.false_eq_true, if_false, and_true]
    exact .inl ⟨[], rfl, by simp [Calm], List.Pairwise.nil, by simp⟩
  | cons front rest =>
    by_cases hprior : entryTime front < getTime p - eps
    · simp only [hasPriorEvents, hq, hprior, decide_true, if_true]
      refine ⟨.inr ⟨hcalm, hord, front, by simp [deleteEvent, hq], ?_⟩, rfl⟩
      have := eps_nonneg
      linarith
    · simp only [hasPriorEvents, hq, hprior, decide_false, Bool.false_eq_true, if_false, and_true]
      refine .inl ⟨front :: rest, rfl, hq ▸ hcalm, hq ▸ hord, fun next hnext => ?_⟩
      cases hnext
      linarith

theorem add_external_awaiting {q : TimedEventQueue ε} {p : ε} (h : Awaiting p q.queue) (ev : ε) :
    Awaiting p (q.add ev false).queue ∧ (q.add ev false).failed = q.failed := by
  rcases h with ⟨rest, hq, hcalm, hord, hnext⟩ | ⟨hcalm, hord, front, hfront, hlt⟩
  · have hadd : q.add ev false = (if decide (getTime p > getTime ev + eps) = true then
        { q.deleteEvent p with queue := rest } else q).push ev false := by
      simp only [add, removeFuturPredictions, removePrediction_cons hq hcalm, Bool.false_and,
        Bool.false_eq_true, if_false]
    rw [hadd]
    by_cases hfut : getTime p > getTime ev + eps
    · rw [if_pos (by simpa using hfut), push_external _ _ hord.isChain]
      obtain ⟨front, hfront, hle⟩ := front_insert_le rest ev
      exact ⟨.inr ⟨calm_insert hcalm ev, ordered_insert hord ev, front, hfront, hle.trans_lt hfut⟩, rfl⟩
    · have hle : entryTime (p, true) ≤ entryTime (ev, false) + eps := not_lt.mp hfut
      have hchain : q.queue.IsChain fun a b => entryTime a ≤ entryTime b + eps := by
        rw [hq]
        cases rest with
        | nil => exact .singleton _
        | cons next rest => exact List.isChain_cons_cons.mpr ⟨hnext next rfl, hord.isChain⟩
      rw [if_neg (by simpa using hfut), push_external _ _ hchain]
      refine ⟨.inl ⟨NearlySorted.insert eps entryTime (ev, false) rest, ?_, calm_insert hcalm ev,
        ordered_insert hord ev, fun next hn => ?_⟩, rfl⟩
      · simp only [hq]
        exact NearlySorted.insert_cons_of_le hle
      · rcases NearlySorted.head?_insert hn with ⟨rfl, -⟩ | ⟨hmem, -⟩
        · exact hle
        · exact hnext next hmem
  · rw [add_external_calm hcalm hord]
    obtain ⟨front', hfront', hle⟩ := front_insert_mono hfront ev
    exact ⟨.inr ⟨calm_insert hcalm ev, ordered_insert hord ev, front', hfront', hle.trans_lt hlt⟩, rfl⟩

/-- The only entry an external event can destroy is the prediction the dispatcher waits for. -/
theorem add_external_awaiting_records {q : TimedEventQueue ε} {p : ε} (h : Awaiting p q.queue) (ev : ε) :
    (q.add ev false).records = q.records ∨ (q.add ev false).records = q.records ++ [(p, .outdated)] := by
  rcases h with ⟨rest, hq, hcalm, -, -⟩ | ⟨hcalm, hord, -⟩
  · simp only [add, removeFuturPredictions, removePrediction_cons hq hcalm, Bool.false_and, Bool.false_eq_true,
      if_false]
    split
    · exact .inr (by simp [push, deleteEvent])
    · exact .inl (by simp [push])
  · exact .inl (by rw [add_external_calm hcalm hord])

end TimedEventQueue

namespace EventDispatcher
open TimedEventQueue
variable {π ξ ε φ : Type} [Timed ε]

/-- What a cycle may deliver: its own prediction or an external event that is earlier. -/
def Deliverable (p : EventPtr ε) (entry : EventPtr ε × Bool) : Prop :=
  entry = (p, true) ∨ entry.2 = false ∧ getTime entry.1 < getTime p

/-- The queue at every point of a cycle. -/
def QueueInvariant (queue : List (EventPtr ε × Bool)) : Phase ε φ → Prop
  | .getting p => Awaiting p queue
  | .delivering p entry => Calm queue ∧ Ordered queue ∧ Deliverable p entry
  | .distributing p entry => Calm queue ∧ Ordered queue ∧ Deliverable p entry
  | _ => Calm queue ∧ Ordered queue

def CycleInvariant (s : EventDispatcher π ε φ) : Prop :=
  QueueInvariant s.queue.queue s.phase ∧ s.queue.failed = []

theorem queueInvariant_addExternal {q : TimedEventQueue (EventPtr ε)} {phase : Phase ε φ}
    (h : QueueInvariant q.queue phase) (ev : EventPtr ε) :
    QueueInvariant (q.add ev false).queue phase ∧ (q.add ev false).failed = q.failed := by
  have hcalm (hc : Calm q.queue) (ho : Ordered q.queue) :
      Calm (q.add ev false).queue ∧ Ordered (q.add ev false).queue ∧
        (q.add ev false).failed = q.failed := by
    rw [add_external_calm hc ho]
    exact ⟨calm_insert hc ev, ordered_insert ho ev, rfl⟩
  cases phase with
  | getting p => exact add_external_awaiting h ev
  | delivering p entry =>
    obtain ⟨hc, ho, hf⟩ := hcalm h.1 h.2.1
    exact ⟨⟨hc, ho, h.2.2⟩, hf⟩
  | distributing p entry =>
    obtain ⟨hc, ho, hf⟩ := hcalm h.1 h.2.1
    exact ⟨⟨hc, ho, h.2.2⟩, hf⟩
  | _ =>
    obtain ⟨hc, ho, hf⟩ := hcalm h.1 h.2
    exact ⟨⟨hc, ho⟩, hf⟩

theorem queueInvariant_records {q : TimedEventQueue (EventPtr ε)} {phase : Phase ε φ}
    (h : QueueInvariant q.queue phase) (ev : EventPtr ε) :
    (q.add ev false).records = q.records ∨
      ∃ p, phase = .getting p ∧ (q.add ev false).records = q.records ++ [(p, .outdated)] := by
  cases phase with
  | getting p =>
    rcases add_external_awaiting_records h ev with hrecords | hrecords
    · exact .inl hrecords
    · exact .inr ⟨p, rfl, hrecords⟩
  | delivering p entry => exact .inl (by rw [add_external_calm h.1 h.2.1])
  | distributing p entry => exact .inl (by rw [add_external_calm h.1 h.2.1])
  | _ => exact .inl (by rw [add_external_calm h.1 h.2])

/-- The entry `get` takes from a waiting queue leaves no prediction behind. -/
theorem Awaiting.front {p : EventPtr ε} {entry : EventPtr ε × Bool} {rest : List (EventPtr ε × Bool)}
    (h : Awaiting p (entry :: rest)) : Calm rest ∧ Ordered rest ∧ Deliverable p entry := by
  rcases h with ⟨rest', hq, hcalm, hord, -⟩ | ⟨hcalm, hord, front, hfront, hlt⟩
  · cases hq
    exact ⟨hcalm, hord, .inl rfl⟩
  · cases hfront
    exact ⟨hcalm.tail, hord.tail, .inr ⟨hcalm entry List.mem_cons_self, hlt⟩⟩

theorem cycleInvariant_step {sim : Simulation π ξ ε φ} {theEnd : ℚ} {s t : EventDispatcher π ε φ}
    {l : Label ξ} (hs : CycleInvariant s) (h : Steps sim theEnd s l t) : CycleInvariant t := by
  obtain ⟨hq, hf⟩ := hs
  cases h with
  | pushExternal ev => exact ⟨hq, hf⟩
  | addExternal address ptr found =>
    obtain ⟨hq', hf'⟩ := queueInvariant_addExternal hq ptr
    exact ⟨hq', hf'.trans hf⟩
  | predict ev predictor phase next => rw [phase] at hq; exact ⟨hq, hf⟩
  | predictFault fault phase next => rw [phase] at hq; exact ⟨hq, hf⟩
  | addPrediction p phase =>
    rw [phase] at hq
    obtain ⟨hawait, hf'⟩ := add_prediction_awaiting hq.1 hq.2 p
    exact ⟨hawait, hf'.trans hf⟩
  | get now p entry rest phase front due =>
    rw [phase, front] at hq
    exact ⟨Awaiting.front hq, hf⟩
  | beginDistribution p entry phase => rw [phase] at hq; exact ⟨hq, hf⟩
  | distribute p entry predictor phase done =>
    rw [phase] at hq
    refine ⟨?_, hf⟩
    rcases finish_phase theEnd { s with predictor := predictor } entry with hp | hp <;> rw [hp] <;>
      exact ⟨hq.1, hq.2.1⟩
  | distributeFault p entry fault phase done => rw [phase] at hq; exact ⟨⟨hq.1, hq.2.1⟩, hf⟩

theorem cycleInvariant_init (predictor : π) (now : Int) (start : ℚ) :
    CycleInvariant (init predictor now start : EventDispatcher π ε φ) :=
  ⟨⟨by simp [Calm, init, initStartTimeNow], List.Pairwise.nil⟩, rfl⟩

theorem Reaches.cycleInvariant {sim : Simulation π ξ ε φ} {theEnd : ℚ} {predictor : π} {now : Int}
    {start : ℚ} {labels : List (Label ξ)} {s : EventDispatcher π ε φ}
    (h : Reaches sim theEnd (init predictor now start) labels s) : CycleInvariant s :=
  h.invariant (cycleInvariant_init predictor now start) fun _ _ _ hs hstep => cycleInvariant_step hs hstep

/-! ### Origin of the external entries -/

/-- Whatever is not a prediction was created by another thread. -/
def External (sim : Simulation π ξ ε φ) (entry : EventPtr ε × Bool) : Prop :=
  entry.2 = false → ∃ x, entry.1.event = sim.external x

def OriginInPhase (sim : Simulation π ξ ε φ) : Phase ε φ → Prop
  | .delivering _ entry | .distributing _ entry => External sim entry
  | _ => True

structure OriginInvariant (sim : Simulation π ξ ε φ) (s : EventDispatcher π ε φ) : Prop where
  pending : ∀ ptr ∈ s.pending, External sim (ptr, false)
  queue : ∀ entry ∈ s.queue.queue, External sim entry
  phase : OriginInPhase sim s.phase

private theorem origin_add {sim : Simulation π ξ ε φ} {q : TimedEventQueue (EventPtr ε)}
    (h : ∀ entry ∈ q.queue, External sim entry) {ev : EventPtr ε} {predicted : Bool}
    (hev : External sim (ev, predicted)) : ∀ entry ∈ (q.add ev predicted).queue, External sim entry := by
  intro entry hentry
  obtain ⟨dropped, -, hperm⟩ := add_moves q ev predicted
  have hmem := hperm.subset (List.mem_append_left _ hentry)
  rcases List.mem_append.mp hmem with hnew | hold
  · rw [List.mem_singleton.mp hnew]
    exact hev
  · exact h entry hold

theorem origin_step {sim : Simulation π ξ ε φ} {theEnd : ℚ} {s t : EventDispatcher π ε φ} {l : Label ξ}
    (hs : OriginInvariant sim s) (h : Steps sim theEnd s l t) : OriginInvariant sim t := by
  cases h with
  | pushExternal ev =>
    refine ⟨fun ptr hptr => ?_, hs.queue, hs.phase⟩
    rcases List.mem_append.mp hptr with hold | hnew
    · exact hs.pending ptr hold
    · rw [List.mem_singleton.mp hnew]
      exact fun _ => ⟨ev, rfl⟩
  | addExternal address ptr found =>
    refine ⟨fun ptr hptr => hs.pending ptr (List.mem_of_mem_eraseP hptr),
      origin_add hs.queue (hs.pending ptr (List.mem_of_find?_eq_some found)), hs.phase⟩
  | predict ev predictor phase next => exact ⟨hs.pending, hs.queue, trivial⟩
  | predictFault fault phase next => exact ⟨hs.pending, hs.queue, trivial⟩
  | addPrediction p phase => exact ⟨hs.pending, origin_add hs.queue (fun h => nomatch h), trivial⟩
  | get now p entry rest phase front due =>
    have hqueue := hs.queue
    rw [front] at hqueue
    exact ⟨hs.pending, fun x hx => hqueue x (List.mem_cons_of_mem entry hx), hqueue entry List.mem_cons_self⟩
  | beginDistribution p entry phase =>
    have horigin := hs.phase
    rw [phase] at horigin
    exact ⟨hs.pending, hs.queue, horigin⟩
  | distribute p entry predictor phase done =>
    refine ⟨hs.pending, hs.queue, ?_⟩
    rcases finish_phase theEnd { s with predictor := predictor } entry with hp | hp <;> rw [hp] <;> trivial
  | distributeFault p entry fault phase done => exact ⟨hs.pending, hs.queue, trivial⟩

omit [Timed ε] in
theorem originInvariant_init (sim : Simulation π ξ ε φ) (predictor : π) (now : Int) (start : ℚ) :
    OriginInvariant sim (init predictor now start) :=
  ⟨fun _ h => absurd h List.not_mem_nil, fun _ h => absurd h List.not_mem_nil, trivial⟩

/-! ### Numbering of the cycles -/

def NumberedInPhase (s : EventDispatcher π ε φ) : Phase ε φ → Prop
  | .predicting | .stopped => s.predictions.length = s.delivered.length
  | .adding p | .getting p | .delivering p _ | .distributing p _ =>
    ∃ earlier, s.predictions = earlier ++ [p] ∧ earlier.length = s.delivered.length
  | .failed _ => True

/-- Every cycle computes one prediction and delivers one event. A prediction that is delivered was
computed in the same cycle. -/
structure CycleNumbering (s : EventDispatcher π ε φ) : Prop where
  phase : NumberedInPhase s s.phase
  delivered : ∀ (k : Nat) (p : EventPtr ε), s.delivered[k]? = some (p, true) → s.predictions[k]? = some p

theorem numbering_step {sim : Simulation π ξ ε φ} {theEnd : ℚ} {s t : EventDispatcher π ε φ} {l : Label ξ}
    (hcycle : CycleInvariant s) (hs : CycleNumbering s) (h : Steps sim theEnd s l t) : CycleNumbering t := by
  have hphase := hs.phase
  cases h with
  | pushExternal ev => exact ⟨hphase, hs.delivered⟩
  | addExternal address ptr found => exact ⟨hphase, hs.delivered⟩
  | predict ev predictor phase next =>
    rw [phase] at hphase
    refine ⟨⟨s.predictions, rfl, hphase⟩, fun k p hk => ?_⟩
    have hold := hs.delivered k p hk
    have hlt := (List.getElem?_eq_some_iff.mp hold).1
    rw [List.getElem?_append_left hlt, hold]
  | predictFault fault phase next => exact ⟨trivial, hs.delivered⟩
  | addPrediction p phase => rw [phase] at hphase; exact ⟨hphase, hs.delivered⟩
  | get now p entry rest phase front due => rw [phase] at hphase; exact ⟨hphase, hs.delivered⟩
  | beginDistribution p entry phase => rw [phase] at hphase; exact ⟨hphase, hs.delivered⟩
  | distribute p entry predictor phase done =>
    have hdeliverable := hcycle.1
    rw [phase] at hphase hdeliverable
    obtain ⟨earlier, hpredictions, hlength⟩ := hphase
    refine ⟨?_, fun k q hk => ?_⟩
    · have hcount : s.predictions.length = (s.delivered ++ [entry]).length := by simp [hpredictions, hlength]
      rcases finish_phase theEnd { s with predictor := predictor } entry with hp | hp <;> rw [hp] <;>
        exact hcount
    · change (s.delivered ++ [entry])[k]? = some (q, true) at hk
      change s.predictions[k]? = some q
      rw [List.getElem?_append] at hk
      split at hk
      · exact hs.delivered k q hk
      · -- The last entry is a prediction, so it is the one of this cycle.
        obtain ⟨hindex, hentry⟩ : k = s.delivered.length ∧ entry = (q, true) := by
          have hsub := (List.getElem?_eq_some_iff.mp hk).1
          rw [List.length_singleton] at hsub
          have hindex : k = s.delivered.length := by omega
          rw [hindex, Nat.sub_self] at hk
          exact ⟨hindex, Option.some.inj hk⟩
        rcases hdeliverable.2.2 with hprediction | ⟨hflag, -⟩
        · rw [hentry] at hprediction
          cases hprediction
          rw [hpredictions, hindex, ← hlength]
          simp
        · rw [hentry] at hflag
          cases hflag
  | distributeFault p entry fault phase done => exact ⟨trivial, hs.delivered⟩

omit [Timed ε] in
theorem numbering_init (predictor : π) (now : Int) (start : ℚ) :
    CycleNumbering (init predictor now start : EventDispatcher π ε φ) :=
  ⟨rfl, fun k p hk => by simp [init] at hk⟩

/-- In every state of every run: no prediction is queued when `predictNext` is called, the removal
of a concurrent prediction finds nothing to remove, a cycle delivers its own prediction or an
external event strictly earlier than it, and no assertion of the queue has failed. -/
theorem cycle_delivers_prediction_or_earlier_external (sim : Simulation π ξ ε φ) (theEnd : ℚ)
    (predictor : π) (now : Int) (start : ℚ) (labels : List (Label ξ)) (s : EventDispatcher π ε φ)
    (h : Reaches sim theEnd (init predictor now start) labels s) :
    (s.phase = .predicting → ∀ entry ∈ s.queue.queue, entry.2 = false) ∧
    (∀ p, s.phase = .adding p →
      ((s.queue.removeFuturPredictions (getTime p)).removeConcurrentPrediction (getTime p)).queue =
        (s.queue.removeFuturPredictions (getTime p)).queue) ∧
    (∀ p entry, s.phase = .delivering p entry →
      entry = (p, true) ∨ entry.2 = false ∧ getTime entry.1 < getTime p) ∧
    s.queue.failed = [] := by
  obtain ⟨hq, hf⟩ := h.cycleInvariant
  refine ⟨fun phase => ?_, fun p phase => ?_, fun p entry phase => ?_, hf⟩
  · rw [phase] at hq
    exact hq.1
  · rw [phase] at hq
    rw [removeFuturPredictions, removePrediction_calm hq.1, removeConcurrentPrediction,
      removePrediction_calm hq.1]
  · rw [phase] at hq
    exact hq.2.2

/-- An external event that arrives while the dispatcher waits takes the place of the prediction. -/
theorem cycle_delivers_external_of_metronome :
    ∃ s : EventDispatcher ℚ ℚ Empty, Reaches metronome 10 (init 0 0 0)
        [.predict, .addPrediction, .pushExternal (1 / 2), .addExternal 1, .get 600000] s ∧
      (∀ p entry, s.phase = .delivering p entry →
        entry = (p, true) ∨ entry.2 = false ∧ getTime entry.1 < getTime p) ∧
      s.phase = .delivering ⟨0, 1⟩ (⟨1, 1 / 2⟩, false) := by
  obtain ⟨s, hs, hphase⟩ := LabelledRun.exec_of_any (step metronome 10) (init 0 0 0)
    [.predict, .addPrediction, .pushExternal (1 / 2), .addExternal 1, .get 600000]
    (fun s => s.phase = .delivering ⟨0, 1⟩ (⟨1, 1 / 2⟩, false)) (by decide +kernel)
  have hcycle := cycle_delivers_prediction_or_earlier_external metronome 10 0 0 0 _ s hs
  exact ⟨s, hs, hcycle.2.2.1, hphase⟩

end EventDispatcher
end FMITerminalBlock.Timing
