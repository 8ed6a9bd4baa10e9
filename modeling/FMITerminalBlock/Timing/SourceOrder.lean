import FMITerminalBlock.Timing.QueueOrder

/-! The events of one subscription thread. It pushes them one after the other with time stamps that do not
decrease, and whatever other threads do, they are delivered in this order. -/
namespace FMITerminalBlock.Timing
open TimedEventQueue
namespace EventDispatcher
variable {π ξ ε φ : Type}

/-- The external events among some entries that belong to the thread. The thread is given by the
addresses of its events. -/
def own (mine : Nat → Bool) (entries : List (EventPtr ε × Bool)) : List (EventPtr ε) :=
  ((TimedEventQueue.externals entries).filter fun entry => mine entry.1.address).map Prod.fst

def ownEvents (mine : Nat → Bool) (events : List (EventPtr ε)) : List (EventPtr ε) :=
  events.filter fun ptr => mine ptr.address

/-- The event of the thread that is on its way from the queue to the listeners. A fault leaves it there. -/
def Carried (mine : Nat → Bool) : Phase ε φ → List (EventPtr ε) → Prop
  | .delivering _ entry, hand | .distributing _ entry, hand => hand = own mine [entry]
  | .failed _, hand => hand.length ≤ 1
  | _, hand => hand = []

def pushedEvent : Label ξ → Option ξ
  | .pushExternal ev => some ev
  | _ => none

/-- The thread has added its last event when it pushes the next one, which is not earlier. -/
def PushedInTurn [Timed ε] (sim : Simulation π ξ ε φ) (mine : Nat → Bool) (s : EventDispatcher π ε φ) (l : Label ξ) :
    Prop :=
  ∀ ev ∈ pushedEvent l, mine s.nextAddress → ownEvents mine s.pending = [] ∧
    ∀ ptr ∈ ownEvents mine s.externals, getTime ptr ≤ getTime (sim.external ev)

/-! ### Parts of the line -/

variable {mine : Nat → Bool}

theorem own_append (first second : List (EventPtr ε × Bool)) :
    own mine (first ++ second) = own mine first ++ own mine second := by
  simp [own, TimedEventQueue.externals]

theorem ownEvents_append (first second : List (EventPtr ε)) :
    ownEvents mine (first ++ second) = ownEvents mine first ++ ownEvents mine second := List.filter_append ..

theorem own_cons (entry : EventPtr ε × Bool) (rest : List (EventPtr ε × Bool)) :
    own mine (entry :: rest) = own mine [entry] ++ own mine rest := own_append [entry] rest

theorem length_own_singleton (entry : EventPtr ε × Bool) : (own mine [entry]).length ≤ 1 := by
  rw [own, List.length_map]
  exact (List.length_filter_le _ _).trans (List.length_filter_le _ _)

theorem own_congr {first second : List (EventPtr ε × Bool)}
    (h : TimedEventQueue.externals first = TimedEventQueue.externals second) : own mine first = own mine second := by
  rw [own, own, h]

theorem ownEvents_singleton {ptr : EventPtr ε} (h : mine ptr.address) : ownEvents mine [ptr] = [ptr] := by
  simp [ownEvents, h]

theorem ownEvents_foreign {ptr : EventPtr ε} (h : ¬mine ptr.address) : ownEvents mine [ptr] = [] := by
  simp [ownEvents, h]

/-- Of at most one event that still has to be added, the one that is added comes first. -/
theorem ownEvents_eraseP {pending : List (EventPtr ε)} {address : Nat} {ptr : EventPtr ε}
    (found : pending.find? (·.address == address) = some ptr) (hsingle : (ownEvents mine pending).length ≤ 1) :
    ownEvents mine pending = ownEvents mine [ptr] ++ ownEvents mine (pending.eraseP (·.address == address)) := by
  obtain ⟨hptr, before, after, rfl, hbefore⟩ := List.find?_eq_some_iff_append.mp found
  have herase : (ptr :: after).eraseP (·.address == address) = after := by
    simp [hptr]
  rw [List.eraseP_append_right _ (fun b hb => by simpa using hbefore b hb), herase, List.append_cons]
  simp only [ownEvents_append]
  by_cases hmine : mine ptr.address
  · rw [← List.singleton_append, ownEvents_append, ownEvents_append, ownEvents_singleton hmine] at hsingle
    simp only [List.length_append, List.length_singleton] at hsingle
    have hfirst : ownEvents mine before = [] := List.length_eq_zero_iff.mp (by omega)
    rw [hfirst, List.nil_append, List.nil_append]
  · rw [ownEvents_foreign hmine, List.append_nil, List.nil_append]

variable [Timed ε]

theorem frontOnly_of_queueInvariant {queue : List (EventPtr ε × Bool)} {phase : Phase ε φ}
    (h : QueueInvariant queue phase) : FrontOnly queue ∧ Ordered (TimedEventQueue.externals queue) := by
  have hcalm (hq : Calm queue ∧ Ordered queue) : FrontOnly queue ∧ Ordered (TimedEventQueue.externals queue) :=
    ⟨hq.1.frontOnly, (externals_calm hq.1).symm ▸ hq.2⟩
  cases phase with
  | getting p =>
    rcases h with ⟨rest, rfl, hrest, hord, -⟩ | ⟨hq, hord, -⟩
    · exact ⟨hrest, (externals_cons_prediction p hrest).symm ▸ hord⟩
    · exact hcalm ⟨hq, hord⟩
  | delivering p entry => exact hcalm ⟨h.1, h.2.1⟩
  | distributing p entry => exact hcalm ⟨h.1, h.2.1⟩
  | _ => exact hcalm h

/-! ### Origin of the delivered entries -/

omit [Timed ε] in
theorem mem_created {s : EventDispatcher π ε φ} {entry : EventPtr ε × Bool} :
    entry ∈ s.created ↔ if entry.2 then entry.1 ∈ s.predictions else entry.1 ∈ s.externals := by
  obtain ⟨ptr, predicted⟩ := entry
  cases predicted <;> simp [created]

theorem deliveredCreated_step {sim : Simulation π ξ ε φ} {theEnd : ℚ} {s t : EventDispatcher π ε φ} {l : Label ξ}
    (hledger : Ledger s) (hs : ∀ entry ∈ s.delivered, entry ∈ s.created) (h : Steps sim theEnd s l t) :
    ∀ entry ∈ t.delivered, entry ∈ t.created := by
  intro entry hentry
  cases h with
  | pushExternal ev =>
    have hold := mem_created.mp (hs entry hentry)
    rw [mem_created]
    split
    · rwa [if_pos ‹_›] at hold
    · rw [if_neg ‹_›] at hold
      exact List.mem_append_left _ hold
  | predict ev predictor phase next =>
    have hold := mem_created.mp (hs entry hentry)
    rw [mem_created]
    split
    · rw [if_pos ‹_›] at hold
      exact List.mem_append_left _ hold
    · rwa [if_neg ‹_›] at hold
  | distribute p last predictor phase done =>
    rcases List.mem_append.mp hentry with hold | hnew
    · exact hs entry hold
    · rw [List.mem_singleton.mp hnew]
      exact hledger.mem_created last (List.mem_append_right _ (by rw [phase]; exact List.mem_cons_self))
  | _ => exact hs entry hentry

/-- Whatever is delivered was created in the run. -/
theorem Reaches.deliveredCreated {sim : Simulation π ξ ε φ} {theEnd : ℚ} {predictor : π} {now : Int} {start : ℚ}
    {labels : List (Label ξ)} {s : EventDispatcher π ε φ} (h : Reaches sim theEnd (init predictor now start) labels s) :
    ∀ entry ∈ s.delivered, entry ∈ s.created := by
  have hstep (s : EventDispatcher π ε φ) (l : Label ξ) (t : EventDispatcher π ε φ)
      (hs : Ledger s ∧ ∀ entry ∈ s.delivered, entry ∈ s.created) (h : Steps sim theEnd s l t) :
      Ledger t ∧ ∀ entry ∈ t.delivered, entry ∈ t.created :=
    ⟨ledger_step hs.1 h, deliveredCreated_step hs.1 hs.2 h⟩
  exact (h.invariant ⟨ledger_init predictor now start, fun entry hentry => absurd hentry List.not_mem_nil⟩ hstep).2

/-! ### The line -/

/-- The events of the thread stand in one line: delivered, in the hand of the dispatcher, queued and
still to be added. The line is what the thread has pushed. -/
structure InTurn (mine : Nat → Bool) (s : EventDispatcher π ε φ) : Prop where
  line : ∃ hand, Carried mine s.phase hand ∧
    own mine s.delivered ++ hand ++ own mine s.queue.queue ++ ownEvents mine s.pending = ownEvents mine s.externals
  sorted : (ownEvents mine s.externals).Pairwise fun a b => getTime a ≤ getTime b
  single : (ownEvents mine s.pending).length ≤ 1

/-- An event that is not earlier than the others of the thread is queued behind them. -/
theorem own_add_external {q : TimedEventQueue (EventPtr ε)} {ptr : EventPtr ε} (hfront : FrontOnly q.queue)
    (hordered : Ordered (TimedEventQueue.externals q.queue))
    (hlast : mine ptr.address → ∀ a ∈ own mine q.queue, getTime a ≤ getTime ptr) :
    own mine (q.add ptr false).queue = own mine q.queue ++ ownEvents mine [ptr] := by
  rw [own, (add_external_spec hfront ptr).2, own]
  by_cases hmine : mine ptr.address
  · rw [NearlySorted.filter_insert_of_le (x := (ptr, false)) eps_nonneg hordered (by exact hmine), List.map_append,
      ownEvents_singleton hmine]
    · rfl
    · intro entry hentry hown
      exact hlast hmine entry.1 (List.mem_map_of_mem (List.mem_filter.mpr ⟨hentry, hown⟩))
  · rw [NearlySorted.filter_insert_of_neg (x := (ptr, false)) (by exact hmine), ownEvents_foreign hmine, List.append_nil]

theorem inTurn_step {sim : Simulation π ξ ε φ} {theEnd : ℚ} {s t : EventDispatcher π ε φ} {l : Label ξ}
    (hcycle : CycleInvariant s) (hs : InTurn mine s) (hturn : PushedInTurn sim mine s l)
    (h : Steps sim theEnd s l t) : InTurn mine t := by
  obtain ⟨hand, hcarried, hline⟩ := hs.line
  obtain ⟨hfront, hordered⟩ := frontOnly_of_queueInvariant hcycle.1
  cases h with
  | pushExternal ev =>
    by_cases hmine : mine s.nextAddress
    · obtain ⟨hpending, hlast⟩ := hturn ev rfl hmine
      have hnew : ownEvents mine [⟨s.nextAddress, sim.external ev⟩] = [⟨s.nextAddress, sim.external ev⟩] :=
        ownEvents_singleton hmine
      refine ⟨⟨hand, hcarried, ?_⟩, ?_, ?_⟩
      · simp only [logEvent_queue, ownEvents_append, ← List.append_assoc, hline]
      · simp only [ownEvents_append, hnew]
        refine List.pairwise_append.mpr ⟨hs.sorted, List.pairwise_singleton _ _, fun a ha b hb => ?_⟩
        rw [List.mem_singleton.mp hb]
        exact hlast a ha
      · simp only [ownEvents_append, hpending, hnew]
        exact le_rfl
    · have hnew : ownEvents mine [⟨s.nextAddress, sim.external ev⟩] = [] := ownEvents_foreign hmine
      refine ⟨⟨hand, hcarried, ?_⟩, ?_, ?_⟩
      · simp only [logEvent_queue, ownEvents_append, hnew, List.append_nil, hline]
      · simp only [ownEvents_append, hnew, List.append_nil, hs.sorted]
      · simp only [ownEvents_append, hnew, List.append_nil, hs.single]
  | addExternal address ptr found =>
    have herase := ownEvents_eraseP found hs.single
    have hadd : own mine (s.queue.add ptr false).queue = own mine s.queue.queue ++ ownEvents mine [ptr] := by
      apply own_add_external hfront hordered
      intro hmine a ha
      have hsorted := hs.sorted
      rw [← hline, herase, ownEvents_singleton hmine, ← List.append_assoc] at hsorted
      have hbefore := (List.pairwise_append.mp (List.pairwise_append.mp hsorted).1).2.2
      exact hbefore a (List.mem_append_right _ ha) ptr List.mem_cons_self
    refine ⟨⟨hand, hcarried, ?_⟩, hs.sorted, ?_⟩
    · rw [hadd, ← hline, herase]
      simp only [List.append_assoc]
    · have hlength := hs.single
      rw [herase, List.length_append] at hlength
      change (ownEvents mine (s.pending.eraseP (·.address == address))).length ≤ 1
      omega
  | predict ev predictor phase next =>
    rw [phase] at hcarried
    exact ⟨⟨hand, hcarried, hline⟩, hs.sorted, hs.single⟩
  | predictFault fault phase next =>
    rw [phase] at hcarried
    exact ⟨⟨hand, by rw [hcarried]; exact Nat.zero_le 1, hline⟩, hs.sorted, hs.single⟩
  | addPrediction p phase =>
    rw [phase] at hcarried
    refine ⟨⟨hand, hcarried, ?_⟩, hs.sorted, hs.single⟩
    rw [own_congr (add_prediction_spec hfront p).2]
    exact hline
  | get now p entry rest phase front due =>
    rw [phase] at hcarried
    refine ⟨⟨own mine [entry], rfl, ?_⟩, hs.sorted, hs.single⟩
    rw [hcarried, front, own_cons, List.append_nil, ← List.append_assoc] at hline
    exact hline
  | beginDistribution p entry phase =>
    rw [phase] at hcarried
    exact ⟨⟨hand, hcarried, hline⟩, hs.sorted, hs.single⟩
  | distribute p entry predictor phase done =>
    rw [phase] at hcarried
    refine ⟨⟨[], ?_, ?_⟩, hs.sorted, hs.single⟩
    · rcases finish_phase theEnd { s with predictor := predictor } entry with hp | hp <;> rw [hp] <;> rfl
    · rw [hcarried] at hline
      simp only [finish, logEvent_queue, own_append, List.append_nil]
      exact hline
  | distributeFault p entry fault phase done =>
    rw [phase] at hcarried
    exact ⟨⟨hand, by rw [hcarried]; exact length_own_singleton entry, hline⟩, hs.sorted, hs.single⟩

theorem inTurn_init (predictor : π) (now : Int) (start : ℚ) :
    InTurn mine (init predictor now start : EventDispatcher π ε φ) :=
  ⟨⟨[], rfl, rfl⟩, List.Pairwise.nil, Nat.zero_le 1⟩

/-- A run in which the thread pushes in turn keeps its events in line. -/
theorem inTurn_run {sim : Simulation π ξ ε φ} {theEnd : ℚ} {s t : EventDispatcher π ε φ} {labels : List (Label ξ)}
    (hcycle : CycleInvariant s) (hs : InTurn mine s)
    (hturn : LabelledRun.Along (step sim theEnd) (fun s l _ => PushedInTurn sim mine s l) s labels)
    (h : Reaches sim theEnd s labels t) : InTurn mine t := by
  have hstep (s : EventDispatcher π ε φ) (l : Label ξ) (t : EventDispatcher π ε φ)
      (hs : CycleInvariant s ∧ InTurn mine s) (hl : PushedInTurn sim mine s l) (h : step sim theEnd s l = some t) :
      CycleInvariant t ∧ InTurn mine t :=
    ⟨cycleInvariant_step hs.1 (step_steps h), inTurn_step hs.1 hs.2 hl (step_steps h)⟩
  exact (LabelledRun.along_invariant _ hstep ⟨hcycle, hs⟩ hturn h).2

/-- The listeners see the events of a thread that pushes in turn in the order in which it pushed
them, none left out and none twice, whatever the other threads push and whatever is predicted: what
is delivered, at most one event in the hand of the dispatcher, what is queued and what is still to be
added make up the pushed events. -/
theorem delivered_in_push_order (sim : Simulation π ξ ε φ) (theEnd : ℚ) (predictor : π) (now : Int) (start : ℚ)
    (labels : List (Label ξ)) (s : EventDispatcher π ε φ) (mine : Nat → Bool)
    (h : Reaches sim theEnd (init predictor now start) labels s)
    (hturn : LabelledRun.Along (step sim theEnd) (fun s l _ => PushedInTurn sim mine s l) (init predictor now start)
      labels) :
    ∃ hand, Carried mine s.phase hand ∧
      own mine s.delivered ++ hand ++ own mine s.queue.queue ++ ownEvents mine s.pending =
        ownEvents mine s.externals :=
  (inTurn_run (cycleInvariant_init predictor now start) (inTurn_init predictor now start) hturn h).line

instance [DecidableEq ε] (sim : Simulation π ξ ε φ) (s : EventDispatcher π ε φ) (l : Label ξ) :
    Decidable (PushedInTurn sim mine s l) :=
  inferInstanceAs (Decidable (∀ ev ∈ pushedEvent l, _))

/-- The events at 2 and 2.0005 seconds belong to one thread. An event of another thread at 1 second is
pushed between them and overtakes both. -/
theorem delivered_in_push_order_of_metronome :
    ∃ s : EventDispatcher ℚ ℚ Empty, Reaches metronome 10 (init 5 0 0)
        [.pushExternal 2, .addExternal 0, .pushExternal 1, .pushExternal (2 + 1 / 2000), .addExternal 2,
          .addExternal 1, .predict, .addPrediction, .get 10000000, .beginDistribution, .distribute, .predict,
          .addPrediction, .get 10000000, .beginDistribution, .distribute] s ∧
      s.delivered = [(⟨1, 1⟩, false), (⟨0, 2⟩, false)] ∧
      ∃ hand, Carried (fun address => address % 2 == 0) s.phase hand ∧
        own (fun address => address % 2 == 0) s.delivered ++ hand ++
          own (fun address => address % 2 == 0) s.queue.queue ++
          ownEvents (fun address => address % 2 == 0) s.pending =
            ownEvents (fun address => address % 2 == 0) s.externals := by
  obtain ⟨s, hs, hdelivered⟩ := LabelledRun.exec_of_any (step metronome 10) (init 5 0 0)
    [.pushExternal 2, .addExternal 0, .pushExternal 1, .pushExternal (2 + 1 / 2000), .addExternal 2,
      .addExternal 1, .predict, .addPrediction, .get 10000000, .beginDistribution, .distribute, .predict,
      .addPrediction, .get 10000000, .beginDistribution, .distribute]
    (fun s => s.delivered = [(⟨1, 1⟩, false), (⟨0, 2⟩, false)]) (by decide +kernel)
  refine ⟨s, hs, hdelivered, delivered_in_push_order metronome 10 5 0 0 _ s _ hs ?_⟩
  decide +kernel

end EventDispatcher
end FMITerminalBlock.Timing
