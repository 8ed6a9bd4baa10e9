import FMITerminalBlock.Timing.SourceOrder
import Mathlib.Algebra.Order.Floor.Semiring
import Mathlib.Data.Rat.Floor

/-! How long the main cycle goes on. Each of its turns delivers an external event, of which there are
only as many as were pushed, or a prediction, and a predictor that gets on reaches the end. -/
namespace FMITerminalBlock.Timing
open TimedEventQueue

/-- The steps of the dispatcher thread. -/
def Label.isRun {ξ : Type} : Label ξ → Bool
  | .pushExternal _ | .addExternal _ => false
  | _ => true

def Label.isPush {ξ : Type} : Label ξ → Bool
  | .pushExternal _ => true
  | _ => false

namespace EventDispatcher
variable {π ξ ε φ : Type}

/-! ### Counting -/

/-- The number of steps in the current turn of the cycle. -/
def turn : Phase ε φ → Nat
  | .predicting | .stopped => 0
  | .adding _ => 1
  | .getting _ => 2
  | .delivering _ _ => 3
  | .distributing _ _ => 4
  | .failed _ => 5

/-- Every turn has five steps, and of the pushed events each one is in at most one place. -/
structure Counted (past : List (Label ξ)) (s : EventDispatcher π ε φ) : Prop where
  steps : past.countP Label.isRun ≤ 5 * s.delivered.length + turn s.phase
  pushes : s.externals.length = past.countP Label.isPush
  places : (TimedEventQueue.externals s.delivered).length +
    (TimedEventQueue.externals (held s.phase ++ inDistribution s.phase)).length +
    (TimedEventQueue.externals s.queue.queue).length + s.pending.length ≤ s.externals.length

theorem externals_append (first second : List (ε × Bool)) :
    TimedEventQueue.externals (first ++ second) = TimedEventQueue.externals first ++ TimedEventQueue.externals second :=
  List.filter_append ..

variable [Timed ε]

theorem counted_step {sim : Simulation π ξ ε φ} {theEnd : ℚ} {past : List (Label ξ)} {s t : EventDispatcher π ε φ}
    {l : Label ξ} (hcycle : CycleInvariant s) (hs : Counted past s) (h : Steps sim theEnd s l t) :
    Counted (past ++ [l]) t := by
  obtain ⟨hsteps, hpushes, hplaces⟩ := hs
  have hfront := (frontOnly_of_queueInvariant hcycle.1).1
  have hcount (p : Label ξ → Bool) : (past ++ [l]).countP p = past.countP p + if p l then 1 else 0 := by
    rw [List.countP_append, List.countP_singleton]
  cases h with
  | pushExternal ev =>
    refine ⟨by rw [hcount]; exact hsteps, ?_, ?_⟩
    · rw [hcount, List.length_append, hpushes]
      rfl
    · simp only [logEvent_queue, List.length_append, List.length_singleton]
      omega
  | addExternal address ptr found =>
    refine ⟨by rw [hcount]; exact hsteps, by rw [hcount]; exact hpushes, ?_⟩
    have hpending := (List.length_eraseP_of_mem (List.mem_of_find?_eq_some found) (List.find?_some found))
    have hpos := List.length_pos_of_mem (List.mem_of_find?_eq_some found)
    have hqueue : (TimedEventQueue.externals (s.queue.add ptr false).queue).length =
        (TimedEventQueue.externals s.queue.queue).length + 1 := by
      rw [(add_external_spec hfront ptr).2, NearlySorted.insert_perm.length_eq, List.length_cons]
    dsimp only
    omega
  | predict ev predictor phase next =>
    rw [phase] at hsteps hplaces
    exact ⟨by rw [hcount]; exact Nat.add_le_add_right hsteps 1, by rw [hcount]; exact hpushes, hplaces⟩
  | predictFault fault phase next =>
    rw [phase] at hsteps hplaces
    refine ⟨?_, by rw [hcount]; exact hpushes, hplaces⟩
    rw [hcount]
    exact (Nat.add_le_add_right hsteps 1).trans (Nat.add_le_add_left (by decide : 0 + 1 ≤ 5) _)
  | addPrediction p phase =>
    rw [phase] at hsteps hplaces
    refine ⟨by rw [hcount]; exact Nat.add_le_add_right hsteps 1, by rw [hcount]; exact hpushes, ?_⟩
    rw [(add_prediction_spec hfront p).2]
    exact hplaces
  | get now p entry rest phase front due =>
    rw [phase] at hsteps hplaces
    refine ⟨by rw [hcount]; exact Nat.add_le_add_right hsteps 1, by rw [hcount]; exact hpushes, ?_⟩
    have hsplit : (TimedEventQueue.externals s.queue.queue).length =
        (TimedEventQueue.externals [entry]).length + (TimedEventQueue.externals rest).length := by
      rw [front, ← List.length_append, ← externals_append, List.singleton_append]
    simp only [held, inDistribution, List.append_nil] at hplaces ⊢
    change _ + 0 + _ + _ ≤ _ at hplaces
    omega
  | beginDistribution p entry phase =>
    rw [phase] at hsteps hplaces
    exact ⟨by rw [hcount]; exact Nat.add_le_add_right hsteps 1, by rw [hcount]; exact hpushes, hplaces⟩
  | distribute p entry predictor phase done =>
    rw [phase] at hsteps hplaces
    have hdelivered : (finish theEnd { s with predictor := predictor } entry).delivered = s.delivered ++ [entry] := rfl
    have hphase := finish_phase theEnd { s with predictor := predictor } entry
    refine ⟨?_, by rw [hcount]; exact hpushes, ?_⟩
    · rw [hcount, hdelivered, List.length_append, List.length_singleton]
      change _ + 1 ≤ _
      rcases hphase with hp | hp <;> rw [hp] <;> simp only [turn] at hsteps ⊢ <;> omega
    · have hnone : held (finish theEnd { s with predictor := predictor } entry).phase ++
          inDistribution (finish theEnd { s with predictor := predictor } entry).phase = [] := by
        rcases hphase with hp | hp <;> rw [hp] <;> rfl
      rw [hnone, hdelivered, externals_append, List.length_append]
      exact hplaces
  | distributeFault p entry fault phase done =>
    rw [phase] at hsteps hplaces
    refine ⟨by rw [hcount]; exact Nat.add_le_add_right hsteps 1, by rw [hcount]; exact hpushes, ?_⟩
    refine le_trans ?_ hplaces
    simp only [held, inDistribution, List.append_nil]
    change _ + 0 + _ + _ ≤ _
    omega

omit [Timed ε] in
theorem counted_init (predictor : π) (now : Int) (start : ℚ) :
    Counted ([] : List (Label ξ)) (init predictor now start : EventDispatcher π ε φ) :=
  ⟨Nat.zero_le _, rfl, Nat.zero_le _⟩

/-! ### Predictors that get on -/

/-- The predictor gets on: from a state of a rank it predicts an event that is later by a pace for each
rank, and once its own prediction is delivered its rank is greater. -/
structure GetsOn (sim : Simulation π ξ ε φ) (Inv : π → Prop) (rank : π → Nat) (begin pace : ℚ) : Prop where
  predictNext : ∀ p ev p', Inv p → sim.predictNext p = .ok (ev, p') →
    Inv p' ∧ rank p ≤ rank p' ∧ begin + (rank p' + 1) * pace ≤ getTime ev
  distribute : ∀ p ev p', Inv p → sim.distribute p ev = .ok p' → Inv p' ∧ rank p ≤ rank p'
  prediction : ∀ p ev p' p'', Inv p → sim.predictNext p = .ok (ev, p') → sim.distribute p' ev = .ok p'' →
    rank p' + 1 ≤ rank p''

/-- The predictions that can be delivered up to the end. The first one is delivered in any case. -/
def limit (begin pace theEnd : ℚ) : Nat := max 1 ⌈(theEnd - begin) / pace⌉₊

theorem lt_limit {begin pace theEnd : ℚ} (hpace : 0 < pace) {n : Nat} (h : begin + n * pace < theEnd) :
    n < limit begin pace theEnd := by
  have hlt : (n : ℚ) < (theEnd - begin) / pace := by
    rw [lt_div_iff₀ hpace]
    linarith
  exact lt_max_of_lt_right (Nat.lt_ceil.mpr hlt)

/-- What is delivered so far and the state of the predictor at every point of a cycle. -/
def PacedInPhase (sim : Simulation π ξ ε φ) (Inv : π → Prop) (rank : π → Nat) (bound : Nat)
    (s : EventDispatcher π ε φ) : Phase ε φ → Prop
  | .predicting => Inv s.predictor ∧ s.delivered.countP (·.2) ≤ rank s.predictor ∧ s.delivered.countP (·.2) < bound
  | .adding p | .getting p | .delivering p _ | .distributing p _ =>
    (∃ before, Inv before ∧ sim.predictNext before = .ok (p.event, s.predictor)) ∧
      s.delivered.countP (·.2) ≤ rank s.predictor ∧ s.delivered.countP (·.2) < bound
  | .stopped => s.delivered.countP (·.2) ≤ bound
  | .failed _ => s.delivered.countP (·.2) < bound

theorem paced_step {sim : Simulation π ξ ε φ} {Inv : π → Prop} {rank : π → Nat} {begin pace theEnd : ℚ}
    (hsim : GetsOn sim Inv rank begin pace) (hpace : 0 < pace) {s t : EventDispatcher π ε φ} {l : Label ξ}
    (hcycle : CycleInvariant s) (hs : PacedInPhase sim Inv rank (limit begin pace theEnd) s s.phase)
    (h : Steps sim theEnd s l t) : PacedInPhase sim Inv rank (limit begin pace theEnd) t t.phase := by
  cases h with
  | pushExternal ev =>
    cases hphase : s.phase <;> rw [hphase] at hs <;> exact hs
  | addExternal address ptr found =>
    cases hphase : s.phase <;> rw [hphase] at hs <;> exact hs
  | predict ev predictor phase next =>
    rw [phase] at hs
    obtain ⟨hinv, hrank, hbound⟩ := hs
    obtain ⟨-, hmono, -⟩ := hsim.predictNext _ _ _ hinv next
    exact ⟨⟨s.predictor, hinv, next⟩, hrank.trans hmono, hbound⟩
  | predictFault fault phase next =>
    rw [phase] at hs
    exact hs.2.2
  | addPrediction p phase =>
    rw [phase] at hs
    exact hs
  | get now p entry rest phase front due =>
    rw [phase] at hs
    exact hs
  | beginDistribution p entry phase =>
    rw [phase] at hs
    exact hs
  | distribute p entry predictor phase done =>
    have hdeliverable := hcycle.1
    rw [phase] at hs hdeliverable
    obtain ⟨⟨before, hbefore, hnext⟩, hrank, hbound⟩ := hs
    obtain ⟨hinv, -, htime⟩ := hsim.predictNext _ _ _ hbefore hnext
    obtain ⟨hinv', hmono⟩ := hsim.distribute _ _ _ hinv done
    have hcount : (s.delivered ++ [entry]).countP (·.2) = s.delivered.countP (·.2) + if entry.2 then 1 else 0 := by
      rw [List.countP_append, List.countP_singleton]
    have hafter : (s.delivered ++ [entry]).countP (·.2) ≤ rank predictor ∧
        (s.delivered ++ [entry]).countP (·.2) ≤ limit begin pace theEnd ∧
        (getTime entry.1 < theEnd → (s.delivered ++ [entry]).countP (·.2) < limit begin pace theEnd) := by
      rw [hcount]
      rcases hdeliverable.2.2 with rfl | ⟨hflag, -⟩
      · have hown := hsim.prediction _ _ _ _ hbefore hnext done
        refine ⟨(Nat.add_le_add_right hrank 1).trans hown, hbound, fun hearly => lt_limit hpace ?_⟩
        have hcast : ((s.delivered.countP (·.2) + 1 : Nat) : ℚ) ≤ rank s.predictor + 1 := by
          exact_mod_cast Nat.add_le_add_right hrank 1
        calc begin + ((s.delivered.countP (·.2) + 1 : Nat) : ℚ) * pace
            ≤ begin + (rank s.predictor + 1) * pace := by gcongr
          _ ≤ getTime p.event := htime
          _ < theEnd := hearly
      · rw [if_neg (by simp [hflag]), Nat.add_zero]
        exact ⟨hrank.trans hmono, hbound.le, fun _ => hbound⟩
    by_cases hearly : getTime entry.1 < theEnd
    · have hphase : (finish theEnd { s with predictor := predictor } entry).phase = .predicting := if_pos hearly
      rw [hphase]
      exact ⟨hinv', hafter.1, hafter.2.2 hearly⟩
    · have hphase : (finish theEnd { s with predictor := predictor } entry).phase = .stopped := if_neg hearly
      rw [hphase]
      exact hafter.2.1
  | distributeFault p entry fault phase done =>
    rw [phase] at hs
    exact hs.2.2

/-! ### Runs -/

/-- The number of turns is bounded by the events that were pushed and the predictions up to the end. -/
theorem Reaches.countP_isRun_le {sim : Simulation π ξ ε φ} {Inv : π → Prop} {rank : π → Nat} {begin pace theEnd : ℚ}
    (hsim : GetsOn sim Inv rank begin pace) (hpace : 0 < pace) {predictor : π} (hpredictor : Inv predictor) {now : Int}
    {start : ℚ} {labels : List (Label ξ)} {s : EventDispatcher π ε φ}
    (h : Reaches sim theEnd (init predictor now start) labels s) :
    labels.countP Label.isRun ≤ 5 * (labels.countP Label.isPush + limit begin pace theEnd) := by
  have hstep (past : List (Label ξ)) (s : EventDispatcher π ε φ) (l : Label ξ) (t : EventDispatcher π ε φ)
      (hs : CycleInvariant s ∧ Counted past s ∧ PacedInPhase sim Inv rank (limit begin pace theEnd) s s.phase)
      (h : step sim theEnd s l = some t) :
      CycleInvariant t ∧ Counted (past ++ [l]) t ∧ PacedInPhase sim Inv rank (limit begin pace theEnd) t t.phase :=
    ⟨cycleInvariant_step hs.1 (step_steps h), counted_step hs.1 hs.2.1 (step_steps h),
      paced_step hsim hpace hs.1 hs.2.2 (step_steps h)⟩
  have hlimit : 0 < limit begin pace theEnd := lt_max_of_lt_left Nat.one_pos
  obtain ⟨-, hcounted, hpaced⟩ := LabelledRun.exec_history
    (fun past s => CycleInvariant s ∧ Counted past s ∧
      PacedInPhase sim Inv rank (limit begin pace theEnd) s s.phase) hstep
    ⟨cycleInvariant_init predictor now start, counted_init predictor now start, hpredictor, Nat.zero_le _, hlimit⟩ h
  have hsplit := List.length_eq_countP_add_countP (fun entry : EventPtr ε × Bool => entry.2) (l := s.delivered)
  have hexternals : s.delivered.countP (fun entry => decide ¬entry.2 = true) =
      (TimedEventQueue.externals s.delivered).length := by
    rw [TimedEventQueue.externals, ← List.countP_eq_length_filter]
    apply List.countP_congr
    simp
  have hsteps := hcounted.steps
  have hpushes := hcounted.pushes
  have hplaces := hcounted.places
  cases hphase : s.phase <;> rw [hphase] at hsteps hpaced <;> simp only [PacedInPhase, turn] at hsteps hpaced <;> omega

/-- The dispatcher never gets stuck before it stops: in every phase there is a step that it can make as
soon as it is late enough. -/
theorem CycleInvariant.exists_step {sim : Simulation π ξ ε φ} {theEnd : ℚ} {s : EventDispatcher π ε φ}
    (h : CycleInvariant s) (hstopped : s.phase ≠ .stopped) (hfailed : ∀ fault, s.phase ≠ .failed fault) :
    ∃ l : Label ξ, l.isRun = true ∧ (step sim theEnd s l).isSome := by
  have hqueue := h.1
  cases hphase : s.phase with
  | predicting =>
    refine ⟨.predict, rfl, ?_⟩
    simp only [step, hphase]
    split <;> rfl
  | adding p => exact ⟨.addPrediction, rfl, by simp only [step, hphase, Option.isSome_some]⟩
  | getting p =>
    rw [hphase] at hqueue
    obtain ⟨front, rest, hfront⟩ : ∃ front rest, s.queue.queue = front :: rest := by
      rcases hqueue with ⟨rest, hq, -⟩ | ⟨-, -, front, hfront, -⟩
      · exact ⟨_, rest, hq⟩
      · exact ⟨front, s.queue.queue.tail, List.eq_cons_of_mem_head? hfront⟩
    refine ⟨.get (s.queue.getSystemTime front.1), rfl, ?_⟩
    have hdue : s.queue.isFutureEvent (s.queue.getSystemTime front.1) front.1 = false := by
      simp [isFutureEvent]
    simp only [step, hphase, TimedEventQueue.get, hfront, hdue, Bool.false_eq_true, if_false, Option.isSome_some]
  | delivering p entry => exact ⟨.beginDistribution, rfl, by simp only [step, hphase, Option.isSome_some]⟩
  | distributing p entry =>
    refine ⟨.distribute, rfl, ?_⟩
    simp only [step, hphase]
    split <;> rfl
  | stopped => exact absurd hphase hstopped
  | failed fault => exact absurd hphase (hfailed fault)

end EventDispatcher
end FMITerminalBlock.Timing
