import FMITerminalBlock.Model.HeldInputs
import FMITerminalBlock.Model.OutputReplay
import FMITerminalBlock.Model.PredictionTimes

/-! What the model sees on its inputs in the multistep mode, and that it sees the same in both modes. -/
namespace FMITerminalBlock.Model
open Base Timing Fallible
open OneStepEventPredictor (remember replay replay_concat)

/-- The solver holds the image that it was synchronized with last. -/
structure IncrementalFMU.HoldsInputs {σ : Type} (M : IncrementalFMU σ)
    (inputs : σ → (type : FMIVariableType) → List (Carrier type)) : Prop where
  predictState : ∀ s time, inputs (M.predictState s time).2 = inputs s
  updateState : ∀ s time, inputs (M.updateState s time).2 = inputs s
  updateStateFromTheRight : ∀ s time, inputs (M.updateStateFromTheRight s time).2 = inputs s
  syncState : ∀ s time image, inputs (M.syncState s time image) = image

namespace EventPredictor
variable {σ : Type} {M : IncrementalFMU σ} {c : PredictorConfiguration} {p : EventPredictor σ}
  {inputs : σ → (type : FMIVariableType) → List (Carrier type)} {store : PortID → Option Value}

/-- The port has the value of the image. -/
def HasValue (store : PortID → Option Value) (type : FMIVariableType) (id : PortID) (x : Carrier type) : Prop :=
  store id = some (.of type x)

/-- The image has the values of all inputs. -/
def Depicts (c : PredictorConfiguration) (store : PortID → Option Value)
    (image : (type : FMIVariableType) → List (Carrier type)) : Prop :=
  ∀ type, List.Forall₂ (HasValue store type) (c.inputIDs type) (image type)

/-! ### Updating the image -/

def assign (store : PortID → Option Value) (v : Variable) : PortID → Option Value :=
  Function.update store v.id (some v.value)

/-- One variable is written to every place of its port. -/
theorem updateInput_hasValue {type : FMIVariableType} {v : Variable} {ports : List PortID} {i : Nat} {found : Bool}
    {before after : List (Carrier type)} (hi : before.length = i)
    (h : List.Forall₂ (HasValue store type) ports after) {r : Bool × List (Carrier type)}
    (hok : updateInput type v i ports (found, before ++ after) = .ok r) :
    ∃ after', r.2 = before ++ after' ∧
      List.Forall₂ (HasValue (assign store v) type) ports after' := by
  induction ports generalizing i found before after with
  | nil =>
    cases h
    cases hok
    exact ⟨[], rfl, .nil⟩
  | cons port ports ih =>
    cases h with
    | @cons _ x _ after hx hrest =>
    rw [updateInput] at hok
    split at hok
    · rename_i hport
      split at hok
      · rename_i value hvalue
        have hset : (before ++ x :: after).set i value = (before ++ [value]) ++ after := by
          rw [List.set_append_right _ _ hi.le, hi, Nat.sub_self, List.set_cons_zero, List.append_assoc]
          rfl
        rw [hset] at hok
        obtain ⟨after', hr, hafter⟩ := ih (by rw [List.length_append, hi]; rfl) hrest hok
        refine ⟨value :: after', by rw [hr, List.append_assoc]; rfl, .cons ?_ hafter⟩
        rw [HasValue, ← hport, assign, Function.update_self, Value.anyCast_eq_some.mp hvalue]
      · cases hok
    · rename_i hport
      rw [List.append_cons] at hok
      obtain ⟨after', hr, hafter⟩ := ih (by rw [List.length_append, hi]; rfl) hrest hok
      refine ⟨x :: after', by rw [hr, List.append_assoc]; rfl, .cons ?_ hafter⟩
      rw [HasValue, assign, Function.update_of_ne (Ne.symm hport)]
      exact hx

/-- Writing variables one after the other leaves the last one of each identifier. -/
theorem foldl_assign (vars : List Variable) (time : ℚ) (store : PortID → Option Value) :
    vars.foldl assign store = remember store ⟨time, vars⟩ := by
  induction vars using List.reverseRecOn with
  | nil => rfl
  | append_singleton vars v ih =>
    funext id
    rw [List.foldl_append, List.foldl_cons, List.foldl_nil, ih, assign, remember]
    dsimp only
    rw [lastVariable_append]
    by_cases hid : v.id = id
    · subst hid
      rw [Function.update_self, lastVariable_cons_of_eq rfl]
      rfl
    · rw [Function.update_of_ne (Ne.symm hid), lastVariable_cons_of_ne hid]
      rfl

/-- The loop over the variables for one type. -/
theorem foldlM_updateInput {type : FMIVariableType} {image : List (Carrier type)} (vars : List Variable)
    (h : List.Forall₂ (HasValue store type) (c.inputIDs type) image) {r : Bool × List (Carrier type)}
    (hok : vars.foldlM (fun r v => updateInput type v 0 (c.inputIDs type) r) (false, image) = .ok r) :
    List.Forall₂ (HasValue (vars.foldl assign store) type) (c.inputIDs type) r.2 := by
  have hstep (past : List Variable) (r : Bool × List (Carrier type)) (v : Variable)
      (hr : List.Forall₂ (HasValue (past.foldl assign store) type) (c.inputIDs type) r.2) (_ : v ∈ vars) :
      Outcome (updateInput type v 0 (c.inputIDs type) r)
        (fun r' => List.Forall₂ (HasValue ((past ++ [v]).foldl assign store) type) (c.inputIDs type) r'.2)
        (fun _ => True) := by
    cases hv : updateInput type v 0 (c.inputIDs type) r with
    | error fault => trivial
    | ok r' =>
      have hnil : updateInput type v 0 (c.inputIDs type) (r.1, [] ++ r.2) = .ok r' := hv
      obtain ⟨image', hr', himage'⟩ := updateInput_hasValue List.length_nil hr hnil
      change List.Forall₂ _ _ r'.2
      rw [hr', List.foldl_append]
      exact himage'
  exact (Outcome.foldlM _ hstep (a := (false, image)) h).of_ok hok

/-- The pass for one type changes the image of this type only. -/
theorem updateInputImageOf_depicts {ev : PredictorEvent} {vars : List Variable} (hopened : Opened M p ev vars)
    {type : FMIVariableType} (hp : List.Forall₂ (HasValue store type) (c.inputIDs type) (p.inputImage type))
    {r : Bool × EventPredictor σ} (hok : updateInputImageOf M c ev p type = .ok r) :
    Opened M r.2 ev vars ∧ r.2.solver = p.solver ∧ (∀ other ≠ type, r.2.inputImage other = p.inputImage other) ∧
      List.Forall₂ (HasValue (vars.foldl assign store) type) (c.inputIDs type) (r.2.inputImage type) := by
  obtain ⟨read, hread, hok⟩ := bind_eq_ok.mp hok
  rw [hopened.getVariables] at hread
  cases hread
  obtain ⟨⟨found, image⟩, hloop, hok⟩ := bind_eq_ok.mp hok
  cases hok
  refine ⟨hopened.observed _ _, rfl, fun other hother => Function.update_of_ne hother .., ?_⟩
  dsimp only
  rw [Function.update_self]
  exact foldlM_updateInput vars hp hloop

theorem foldlM_updateInputImageOf {ev : PredictorEvent} {vars : List Variable} {types : List FMIVariableType}
    (hnodup : types.Nodup) {found : Bool} (hopened : Opened M p ev vars)
    (hp : ∀ type ∈ types, List.Forall₂ (HasValue store type) (c.inputIDs type) (p.inputImage type))
    {r : Bool × EventPredictor σ} (hok : types.foldlM (fun ((found, p) : Bool × EventPredictor σ) type =>
      (updateInputImageOf M c ev p type).map fun ((more, p) : Bool × EventPredictor σ) => (found || more, p))
      (found, p) = .ok r) :
    r.2.solver = p.solver ∧ (∀ type ∉ types, r.2.inputImage type = p.inputImage type) ∧
      ∀ type ∈ types,
        List.Forall₂ (HasValue (vars.foldl assign store) type) (c.inputIDs type) (r.2.inputImage type) := by
  induction types generalizing found p with
  | nil =>
    cases hok
    exact ⟨rfl, fun _ _ => rfl, fun type htype => absurd htype List.not_mem_nil⟩
  | cons type types ih =>
    obtain ⟨hnew, hrest⟩ := List.nodup_cons.mp hnodup
    rw [List.foldlM_cons] at hok
    obtain ⟨q, hq, hok⟩ := bind_eq_ok.mp hok
    obtain ⟨⟨more, p'⟩, hp', rfl⟩ := map_eq_ok.mp hq
    obtain ⟨hopened', hsolver, hothers, himage⟩ := updateInputImageOf_depicts hopened (hp type List.mem_cons_self) hp'
    obtain ⟨hsolver', hkept, himages⟩ := ih hrest hopened' (fun other hother => by
      rw [hothers other (ne_of_mem_of_not_mem hother hnew)]
      exact hp other (List.mem_cons_of_mem type hother)) hok
    refine ⟨hsolver'.trans hsolver, fun other hother => ?_, fun other hother => ?_⟩
    · rw [List.mem_cons, not_or] at hother
      rw [hkept other hother.2, hothers other hother.1]
    · rcases List.mem_cons.mp hother with rfl | hother
      · rw [hkept other hnew]
        exact himage
      · exact himages other hother

/-- After the four passes the image has the values of the event. -/
theorem updateInputImage_depicts {ev : PredictorEvent} {vars : List Variable} (hopened : Opened M p ev vars)
    (hp : Depicts c store p.inputImage) {r : Bool × EventPredictor σ} (hok : updateInputImage M c p ev = .ok r) :
    r.2.solver = p.solver ∧ Depicts c (vars.foldl assign store) r.2.inputImage := by
  obtain ⟨hsolver, hkept, himages⟩ := foldlM_updateInputImageOf
    (by decide : FMIVariableType.known.Nodup) hopened (fun type _ => hp type) hok
  refine ⟨hsolver, fun type => ?_⟩
  by_cases htype : type ∈ FMIVariableType.known
  · exact himages type htype
  · have hunknown : type = .fmiTypeUnknown := by
      cases type with
      | fmiTypeUnknown => rfl
      | _ => exact absurd (by decide) htype
    subst hunknown
    have hempty := hp .fmiTypeUnknown
    rw [hkept _ htype]
    rw [inputIDs_unknown] at hempty ⊢
    generalize p.inputImage .fmiTypeUnknown = image at hempty ⊢
    cases hempty
    exact .nil

/-! ### Distribution -/

theorem Depicts.congr {store store' : PortID → Option Value} {image : (type : FMIVariableType) → List (Carrier type)}
    (h : Depicts c store image) (hsame : ∀ id ∈ c.context.input.getAllVariableIDs, store' id = store id) :
    Depicts c store' image := by
  intro type
  have htype := h type
  refine List.forall₂_iff_get.mpr ⟨htype.length_eq, fun i h₁ h₂ => ?_⟩
  have hvalue := htype.get h₁ h₂
  have hid : (c.inputIDs type).get ⟨i, h₁⟩ ∈ c.context.input.getAllVariableIDs :=
    List.mem_flatMap.mpr ⟨type, FMIVariableType.mem_all type, List.get_mem ..⟩
  rw [HasValue, hsame _ hid]
  exact hvalue

theorem foldl_assign_of_not_mem {vars : List Variable} {id : PortID} (h : id ∉ vars.map Variable.id) :
    vars.foldl assign store id = store id := by
  have hnone : lastVariable id vars = none := by
    rw [← Option.not_isSome_iff_eq_none, lastVariable_isSome]
    exact h
  rw [foldl_assign vars 0, remember, hnone]
  rfl

/-- The image and the solver have the values of all inputs. -/
structure Holding (c : PredictorConfiguration) (inputs : σ → (type : FMIVariableType) → List (Carrier type))
    (store : PortID → Option Value) (p : EventPredictor σ) : Prop where
  image : Depicts c store p.inputImage
  solver : Depicts c store (inputs p.solver)

theorem Holding.congr {store store' : PortID → Option Value} (h : Holding c inputs store p)
    (hsame : ∀ id ∈ c.context.input.getAllVariableIDs, store' id = store id) : Holding c inputs store' p :=
  ⟨h.image.congr hsame, h.solver.congr hsame⟩

/-- Reading an event may move the solver but leaves its inputs alone. -/
theorem getVariables_inputs (hM : M.HoldsInputs inputs) (ev : PredictorEvent) :
    Outcome (getVariables M c p ev) (fun r => inputs r.2.solver = inputs p.solver) (fun _ => True) := by
  cases ev with
  | staticEvent ev => exact .ok rfl
  | lazyEvent time =>
    simp only [getVariables]
    split
    · exact .error trivial
    · have hread : Outcome (getOutputVariables M c p time) (fun r => inputs r.2.solver = inputs p.solver)
          (fun _ => True) := by
        rw [getOutputVariables]
        iterate 4 refine (assertThat_outcome fun _ => trivial).bind fun _ _ => ?_
        dsimp only
        split
        · exact .ok rfl
        · refine (assertThat_outcome fun _ => trivial).bind fun _ _ => ?_
          split
          · exact .error trivial
          · refine Outcome.bind (P := fun _ => True) ?_ fun vars _ => ?_
            · exact ((fetchOutputs_outputOnly _).mono fun _ _ => trivial).excuse fun _ _ => trivial
            · exact .ok (hM.updateStateFromTheRight ..)
      refine hread.bind ?_
      rintro ⟨vars, q⟩ hq
      dsimp only
      split
      · exact .ok hq
      · exact .error trivial

theorem Holding.getVariables (hM : M.HoldsInputs inputs) (hp : Holding c inputs store p) {ev : PredictorEvent}
    {r : List Variable × EventPredictor σ} (h : getVariables M c p ev = .ok r) : Holding c inputs store r.2 := by
  have himage := ((getVariables_opened ev).of_ok h).2
  have hsolver := (getVariables_inputs hM ev).of_ok h
  exact ⟨himage ▸ hp.image, hsolver ▸ hp.solver⟩

theorem Holding.readAll (hM : M.HoldsInputs inputs) {ev : PredictorEvent} {n : Nat} (hp : Holding c inputs store p)
    {p' : EventPredictor σ} (h : readAll M c ev n p = .ok p') : Holding c inputs store p' := by
  induction n generalizing p with
  | zero =>
    cases h
    exact hp
  | succ n ih =>
    obtain ⟨⟨vars, q⟩, hq, h⟩ := bind_eq_ok.mp h
    have hread := hp.getVariables hM hq
    have hnext : Holding c inputs store (q.observed q.inputImage (q.reads ++ [vars])) := ⟨hread.image, hread.solver⟩
    exact ih hnext h

/-- The event brings the image up to date, and the solver is synchronized if it holds an input. -/
theorem Holding.eventTriggered (hM : M.HoldsInputs inputs) {ev : PredictorEvent} {vars : List Variable}
    (hopened : Opened M p ev vars) (hp : Holding c inputs store p) {p' : EventPredictor σ}
    (h : eventTriggered M c p ev = .ok p') : Holding c inputs (vars.foldl assign store) p' := by
  obtain ⟨⟨updated, q⟩, hupdate, h⟩ := bind_eq_ok.mp h
  obtain ⟨hsolver, himage⟩ := updateInputImage_depicts hopened hp.image hupdate
  have hfound := ((updateInputImage_opened hopened).of_ok hupdate).2
  dsimp only at hsolver himage hfound h
  split at h
  · split at h
    · cases h
      exact ⟨himage, by rw [hM.syncState]; exact himage⟩
    · cases h
  · rename_i hnot
    cases h
    refine ⟨himage, ?_⟩
    rw [hsolver]
    refine hp.solver.congr fun id hid => foldl_assign_of_not_mem fun hmem => hnot (hfound.mpr ?_)
    obtain ⟨v, hv, rfl⟩ := List.mem_map.mp hmem
    exact ⟨v, hv, hid⟩

theorem Holding.distribute (hM : M.HoldsInputs inputs) {ev : PredictorEvent} {vars : List Variable} {n : Nat}
    (hopened : Opened M p ev vars) (hp : Holding c inputs store p) {p' : EventPredictor σ}
    (h : distribute M c n p ev = .ok p') : Holding c inputs (vars.foldl assign store) p' := by
  obtain ⟨q, hq, h⟩ := bind_eq_ok.mp h
  have hstart : Holding c inputs store (p.observed p.inputImage []) := ⟨hp.image, hp.solver⟩
  exact (hstart.eventTriggered hM (hopened.observed _ _) hq).readAll hM h

/-- A prediction that is delivered changes no input. -/
theorem Holding.distribute_predicted (hM : M.HoldsInputs inputs) {ev : PredictorEvent} {n : Nat}
    (hpredicted : Predicted c p ev) (hp : Holding c inputs store p) {p' : EventPredictor σ}
    (h : EventPredictor.distribute M c n p ev = .ok p') : Holding c inputs store p' := by
  have hkept {vars : List Variable} (houtput : OutputOnly c.context vars) :
      ∀ id ∈ c.context.input.getAllVariableIDs, store id = vars.foldl assign store id := by
    intro id hid
    rw [foldl_assign_of_not_mem]
    rintro hmem
    obtain ⟨v, hv, rfl⟩ := List.mem_map.mp hmem
    exact houtput.not_mem_input hv hid
  cases ev with
  | staticEvent ev =>
    have hopened : Opened M p (.staticEvent ev) ev.vars := rfl
    exact (hp.distribute hM hopened h).congr (hkept hpredicted.2)
  | lazyEvent time =>
    have hunread : Unread (p.observed p.inputImage []) time :=
      ⟨hpredicted.last, hpredicted.notPopulated, hpredicted.empty⟩
    obtain ⟨q, hq, hread⟩ := bind_eq_ok.mp h
    change EventPredictor.eventTriggered M c (p.observed p.inputImage []) (.lazyEvent time) = .ok q at hq
    -- The first of the four passes opens the event, and from then on it can be read without effect.
    cases hget : EventPredictor.getVariables M c (p.observed p.inputImage []) (.lazyEvent time) with
    | error fault =>
      rw [EventPredictor.eventTriggered, updateInputImage_of_error hget] at hq
      cases hq
    | ok r =>
      obtain ⟨hopened, houtput, -⟩ := hunread.getVariables.of_ok hget
      rw [EventPredictor.eventTriggered, updateInputImage_of_getVariables hget hopened] at hq
      have hstart : Holding c inputs store (p.observed p.inputImage []) := ⟨hp.image, hp.solver⟩
      have htriggered := (hstart.getVariables hM hget).eventTriggered hM hopened hq
      exact (htriggered.readAll hM hread).congr (hkept houtput)

theorem Holding.predictNext (hM : M.HoldsInputs inputs) (hp : Holding c inputs store p)
    {r : PredictorEvent × EventPredictor σ} (h : predictNext M c p = .ok r) : Holding c inputs store r.2 := by
  obtain ⟨⟨ev, q⟩, hq, rfl⟩ := map_eq_ok.mp h
  suffices hkept : q.inputImage = p.inputImage ∧ inputs q.solver = inputs p.solver from
    ⟨hkept.1 ▸ hp.image, hkept.2 ▸ hp.solver⟩
  split at hq
  · have hsolver := hM.predictState p.solver p.currentTime
    rw [predictNextFMIEvent] at hq
    split at hq
    · cases hq
    · rename_i hpredict
      cases hq
      rw [hpredict] at hsolver
      exact ⟨rfl, hsolver⟩
  · obtain ⟨vars, -, hq⟩ := map_eq_ok.mp hq
    cases hq
    exact ⟨rfl, rfl⟩

/-! ### Runs -/

/-- The external events among some entries. They are all static. -/
def staticEvents (entries : List (EventPtr PredictorEvent × Bool)) : List StaticEvent :=
  (TimedEventQueue.externals entries).filterMap fun entry =>
    match entry.1.event with
    | .staticEvent ev => some ev
    | .lazyEvent _ => none

theorem staticEvents_prediction (entries : List (EventPtr PredictorEvent × Bool)) (p : EventPtr PredictorEvent) :
    staticEvents (entries ++ [(p, true)]) = staticEvents entries := by
  simp [staticEvents, TimedEventQueue.externals]

theorem staticEvents_external (entries : List (EventPtr PredictorEvent × Bool)) {entry : EventPtr PredictorEvent × Bool}
    {ev : StaticEvent} (hflag : entry.2 = false) (hev : entry.1.event = .staticEvent ev) :
    staticEvents (entries ++ [entry]) = staticEvents entries ++ [ev] := by
  simp [staticEvents, TimedEventQueue.externals, hflag, hev]

/-- As long as nothing has failed, the image and the solver have the values delivered last. -/
def InputsReplayed (c : PredictorConfiguration) (inputs : σ → (type : FMIVariableType) → List (Carrier type))
    (initial : PortID → Option Value) (s : RunState σ) : Prop :=
  (∀ fault, s.phase ≠ .failed fault) → Holding c inputs (replay initial (staticEvents s.delivered)) s.predictor

theorem inputsReplayed_step (hM : M.HoldsInputs inputs) {readers : Nat} {theEnd : ℚ} {initial : PortID → Option Value}
    {s t : RunState σ} {l : Label StaticEvent} (htime : TimeInvariant M c readers s)
    (hs : InputsReplayed c inputs initial s) (h : EventDispatcher.Steps (simulation M c readers) theEnd s l t) :
    InputsReplayed c inputs initial t := by
  intro hrunning
  cases h with
  | pushExternal ev => exact hs hrunning
  | addExternal address ptr found => exact hs hrunning
  | predict ev predictor phase next => exact (hs (by simp [phase])).predictNext hM next
  | predictFault fault phase next => exact absurd rfl (hrunning fault)
  | addPrediction p phase => exact hs (by simp [phase])
  | get now p entry rest phase front due => exact hs (by simp [phase])
  | beginDistribution p entry phase => exact hs (by simp [phase])
  | distribute p entry predictor phase done =>
    have hbefore := hs (by simp [phase])
    have hdeliverable := htime.cycle.1
    have horigin := htime.origin.phase
    have hpredicted := htime.predicted
    rw [phase] at hdeliverable horigin hpredicted
    change Holding c inputs (replay initial (staticEvents (s.delivered ++ [entry]))) predictor
    rcases hdeliverable.2.2 with rfl | ⟨hflag, -⟩
    · rw [staticEvents_prediction]
      exact hbefore.distribute_predicted hM hpredicted.1 done
    · obtain ⟨ev, hev⟩ := horigin hflag
      replace hev : entry.1.event = .staticEvent ev := hev
      rw [staticEvents_external _ hflag hev, replay_concat, ← foldl_assign ev.vars ev.time]
      have hopened : Opened M s.predictor (.staticEvent ev) ev.vars := rfl
      rw [hev] at done
      exact hbefore.distribute hM hopened done
  | distributeFault p entry fault phase done => exact absurd rfl (hrunning fault)

theorem Reaches.inputsReplayed (hA : M.Assumed) (hM : M.HoldsInputs inputs) {readers : Nat} {solver : σ} {start : ℚ}
    (hstart : 0 ≤ start) {image : (type : FMIVariableType) → List (Carrier type)} {initial : PortID → Option Value}
    (himage : Depicts c initial image) (hsolver : inputs solver = image) {now : Int} {theEnd : ℚ}
    {labels : List (Label StaticEvent)} {s : RunState σ}
    (h : EventDispatcher.Reaches (simulation M c readers) theEnd
      (EventDispatcher.init (init solver start image) now start) labels s) : InputsReplayed c inputs initial s := by
  have hstep (s : RunState σ) (l : Label StaticEvent) (t : RunState σ)
      (hs : TimeInvariant M c readers s ∧ InputsReplayed c inputs initial s)
      (h : EventDispatcher.Steps (simulation M c readers) theEnd s l t) :
      TimeInvariant M c readers t ∧ InputsReplayed c inputs initial t :=
    ⟨(time_step hA hs.1 h).1, inputsReplayed_step hM hs.1 hs.2 h⟩
  refine (h.invariant ⟨timeInvariant_init solver hstart image now, fun _ => ?_⟩ hstep).2
  exact ⟨himage, by rw [← hsolver] at himage; exact himage⟩

/-- In the multistep mode too, each input of the model holds the value that an external event brought
last, or its initial value: whatever is predicted and read, the solver has been synchronized with
exactly these values. -/
theorem solver_inputs_hold_last_external_values (M : IncrementalFMU σ) (hA : M.Assumed)
    (inputs : σ → (type : FMIVariableType) → List (Carrier type)) (hM : M.HoldsInputs inputs)
    (c : PredictorConfiguration) (readers : Nat) (solver : σ) (start : ℚ) (hstart : 0 ≤ start)
    (image : (type : FMIVariableType) → List (Carrier type)) (initial : PortID → Option Value)
    (himage : Depicts c initial image) (hsolver : inputs solver = image) (now : Int) (theEnd : ℚ)
    (labels : List (Label StaticEvent)) (s : RunState σ)
    (hrun : EventDispatcher.Reaches (simulation M c readers) theEnd
      (EventDispatcher.init (init solver start image) now start) labels s)
    (hrunning : ∀ fault, s.phase ≠ .failed fault) :
    Depicts c (replay initial (staticEvents s.delivered)) (inputs s.predictor.solver) :=
  (Reaches.inputsReplayed hA hM hstart himage hsolver hrun hrunning).solver

/-- A model that keeps the inputs it was synchronized with and predicts an event every second. -/
def mirrorModel : IncrementalFMU ((type : FMIVariableType) → List (Carrier type)) where
  getTimeDiffResolution := 1 / 1000
  predictState s time := (some (time + 1), s)
  updateState s time := (time, s)
  updateStateFromTheRight s time := (time, s)
  syncState _ _ image := image
  getOutputs _
    | .fmiTypeReal => some fun _ => 0
    | .fmiTypeInteger => some fun _ => 0
    | .fmiTypeBoolean => some fun _ => fmiFalse
    | .fmiTypeString => some fun _ => []
    | .fmiTypeUnknown => none

theorem mirrorModel_assumed : mirrorModel.Assumed where
  resolution_pos := by norm_num [mirrorModel]
  predictState _ t next h := by
    cases h
    exact le_add_of_nonneg_right zero_le_one
  updateState _ _ := rfl
  updateStateFromTheRight _ t := by norm_num [mirrorModel]

theorem mirrorModel_holdsInputs : mirrorModel.HoldsInputs id where
  predictState _ _ := rfl
  updateState _ _ := rfl
  updateStateFromTheRight _ _ := rfl
  syncState _ _ _ := rfl

/-- The only input is zero. -/
def zeroImage : (type : FMIVariableType) → List (Carrier type)
  | .fmiTypeReal => [0]
  | .fmiTypeInteger | .fmiTypeBoolean | .fmiTypeString | .fmiTypeUnknown => []

def zeroStore (id : PortID) : Option Value := if id = (.fmiTypeReal, 1) then some (.real 0) else none

theorem depicts_zero : Depicts (feedThrough false) zeroStore zeroImage := by
  intro type
  have hids : (feedThrough false).inputIDs .fmiTypeReal = [(.fmiTypeReal, 1)] ∧
      (feedThrough false).inputIDs .fmiTypeInteger = [] ∧ (feedThrough false).inputIDs .fmiTypeBoolean = [] ∧
      (feedThrough false).inputIDs .fmiTypeString = [] ∧ (feedThrough false).inputIDs .fmiTypeUnknown = [] := by
    decide +kernel
  cases type with
  | fmiTypeReal =>
    rw [hids.1]
    exact .cons rfl .nil
  | fmiTypeInteger =>
    rw [hids.2.1]
    exact .nil
  | fmiTypeBoolean =>
    rw [hids.2.2.1]
    exact .nil
  | fmiTypeString =>
    rw [hids.2.2.2.1]
    exact .nil
  | fmiTypeUnknown =>
    rw [hids.2.2.2.2]
    exact .nil

/-- The input becomes one at time 1/2, and a second later a prediction is delivered. -/
def mirroredRun : List (Label StaticEvent) :=
  [.predict, .addPrediction, .pushExternal ⟨1 / 2, [⟨(.fmiTypeReal, 1), .real 0x3ff0000000000000⟩]⟩, .addExternal 1,
    .get 600000, .beginDistribution, .distribute,
    .predict, .addPrediction, .get 1500000, .beginDistribution, .distribute, .predict]

theorem solver_inputs_hold_last_external_values_mirrored :
    ∃ s, EventDispatcher.Reaches (simulation mirrorModel (feedThrough false) 1) 10
        (EventDispatcher.init (init zeroImage 0 zeroImage) 0 0) mirroredRun s ∧
      s.predictor.solver .fmiTypeReal = [0x3ff0000000000000] ∧
      Depicts (feedThrough false) (replay zeroStore (staticEvents s.delivered)) s.predictor.solver := by
  obtain ⟨s, hrun, ⟨p, -, hphase⟩, hvalue⟩ := LabelledRun.exec_of_any
    (EventDispatcher.step (simulation mirrorModel (feedThrough false) 1) 10)
    (EventDispatcher.init (init zeroImage 0 zeroImage) 0 0) mirroredRun
    (fun s => (∃ p, p ∈ s.predictions.getLast? ∧ s.phase = .adding p) ∧
      s.predictor.solver .fmiTypeReal = [0x3ff0000000000000]) (by decide +kernel)
  exact ⟨s, hrun, hvalue, solver_inputs_hold_last_external_values mirrorModel mirrorModel_assumed id
    mirrorModel_holdsInputs (feedThrough false) 1 zeroImage 0 le_rfl zeroImage zeroStore depicts_zero rfl 0 10 _ s hrun
    (by simp [hphase])⟩

end EventPredictor

/-! ### Both modes -/

open OneStepEventPredictor (slot lastWritten allVariables HoldsInputs)

theorem replay_eq (initial : PortID → Option Value) (events : List StaticEvent) (id : PortID) :
    replay initial events id =
      ((lastVariable id (events.flatMap StaticEvent.vars)).map Variable.value).or (initial id) := by
  induction events using List.reverseRecOn with
  | nil => rfl
  | append_singleton events ev ih =>
    rw [replay_concat, remember, ih, List.flatMap_append, lastVariable_append, List.flatMap_singleton, Option.map_or,
      Option.or_assoc]

theorem lastWritten_eq {c : OneStepConfiguration} {id : PortID} {target : FMIVariableType × Nat}
    (hid : slot c id = some target) (hown : ∀ other, slot c other = some target → other = id) (vars : List Variable) :
    lastWritten c target vars = (lastVariable id vars).map Variable.value := by
  have hpredicate : (fun v : Variable => decide (slot c v.id = some target)) = fun v => decide (v.id = id) := by
    funext v
    rw [decide_eq_decide]
    exact ⟨hown v.id, fun h => h ▸ hid⟩
  rw [lastWritten, lastVariable, hpredicate]

/-- The inputs of the model do not depend on the mode. If runs of both modes with the same context
have delivered the same external events, started with the same inputs, and the model has an input of
its own for each port, then every port shows the same value in both. -/
theorem modes_feed_model_alike {σ₁ σ₂ : Type} (M₁ : FMUModelExchange σ₁)
    (input : σ₁ → FMIVariableType × Nat → Option Value) (hM₁ : HoldsInputs M₁ input) (M₂ : IncrementalFMU σ₂)
    (hA : M₂.Assumed) (inputs : σ₂ → (type : FMIVariableType) → List (Carrier type)) (hM₂ : M₂.HoldsInputs inputs)
    (c : PredictorConfiguration) (properties : SimulationProperties) (c₁ : OneStepConfiguration)
    (hconfig : OneStepEventPredictor.configure M₁ c.context properties = .ok c₁)
    (hown : ∀ id other target, slot c₁ id = some target → slot c₁ other = some target → other = id)
    (initial : PortID → Option Value) (begin₁ : σ₁)
    (hinitial : ∀ id target, slot c₁ id = some target → input begin₁ target = initial id)
    (p : OneStepEventPredictor σ₁) (hstart₁ : OneStepEventPredictor.start M₁ c₁ begin₁ = .ok p) (turns : Nat)
    (now₁ : Int) (start₁ end₁ : ℚ) (labels₁ : List (Label StaticEvent)) (s₁ : OneStepEventPredictor.RunState σ₁)
    (hrun₁ : EventDispatcher.Reaches (OneStepEventPredictor.simulation M₁ c₁ turns) end₁
      (EventDispatcher.init p now₁ start₁) labels₁ s₁)
    (readers : Nat) (begin₂ : σ₂) (start₂ : ℚ) (hstart₂ : 0 ≤ start₂)
    (image : (type : FMIVariableType) → List (Carrier type)) (himage : EventPredictor.Depicts c initial image)
    (hsolver : inputs begin₂ = image) (now₂ : Int) (end₂ : ℚ) (labels₂ : List (Label StaticEvent))
    (s₂ : EventPredictor.RunState σ₂)
    (hrun₂ : EventDispatcher.Reaches (EventPredictor.simulation M₂ c readers) end₂
      (EventDispatcher.init (EventPredictor.init begin₂ start₂ image) now₂ start₂) labels₂ s₂)
    (hrunning₁ : ∀ fault, s₁.phase ≠ .failed fault) (hrunning₂ : ∀ fault, s₂.phase ≠ .failed fault)
    (hsame : (TimedEventQueue.externals s₁.delivered).map (fun entry => entry.1.event) =
      EventPredictor.staticEvents s₂.delivered)
    (type : FMIVariableType) (i : Nat) (id : PortID) (hid : (c.inputIDs type)[i]? = some id)
    (target : FMIVariableType × Nat) (htarget : slot c₁ id = some target) :
    ∃ x, (inputs s₂.predictor.solver type)[i]? = some x ∧ input s₁.predictor.fmu target = some (.of type x) := by
  have hdepicts := (EventPredictor.Reaches.inputsReplayed hA hM₂ hstart₂ himage hsolver hrun₂ hrunning₂).solver type
  have hinputs := OneStepEventPredictor.inputs_of_writers hM₁ (OneStepEventPredictor.configure_configured hconfig)
    hstart₁ hrun₁ hrunning₁ target (fun _ => true) (fun _ _ h => absurd rfl h)
  simp only [Bool.and_true] at hinputs
  obtain ⟨hi, hget⟩ := List.getElem?_eq_some_iff.mp hid
  have hi' : i < (inputs s₂.predictor.solver type).length := hdepicts.length_eq ▸ hi
  have hvalue := hdepicts.get hi hi'
  rw [List.get_eq_getElem, List.get_eq_getElem, hget, EventPredictor.HasValue, ← hsame, replay_eq] at hvalue
  refine ⟨_, List.getElem?_eq_getElem hi', ?_⟩
  rw [hinputs, lastWritten_eq htarget (hown id · target htarget), hinitial id target htarget, ← hvalue,
    List.flatMap_map]
  rfl

open OneStepEventPredictor in
theorem modes_feed_model_alike_latched :
    ∃ s₁ s₂, EventDispatcher.Reaches (simulation latchModel latchConfiguration 5) 10
        (EventDispatcher.init latchPredictor 0 0) latchedRun s₁ ∧
      EventDispatcher.Reaches (EventPredictor.simulation EventPredictor.mirrorModel (EventPredictor.feedThrough false) 1) 10
        (EventDispatcher.init (.init EventPredictor.zeroImage 0 EventPredictor.zeroImage) 0 0)
        EventPredictor.mirroredRun s₂ ∧
      ∃ x, (s₂.predictor.solver .fmiTypeReal)[0]? = some x ∧
        latchInput s₁.predictor.fmu (.fmiTypeReal, 0) = some (.of .fmiTypeReal x) := by
  obtain ⟨s₁, hrun₁, ⟨q₁, -, hphase₁⟩, hdelivered₁⟩ := LabelledRun.exec_of_any
    (EventDispatcher.step (simulation latchModel latchConfiguration 5) 10)
    (EventDispatcher.init latchPredictor 0 0) latchedRun
    (fun s => (∃ p, p ∈ s.predictions.getLast? ∧ s.phase = .adding p) ∧
      (TimedEventQueue.externals s.delivered).map (fun entry => entry.1.event) =
        [⟨1 / 2, [⟨(.fmiTypeReal, 1), .real 0x3ff0000000000000⟩]⟩]) (by decide +kernel)
  obtain ⟨s₂, hrun₂, ⟨q₂, -, hphase₂⟩, hdelivered₂⟩ := LabelledRun.exec_of_any
    (EventDispatcher.step (EventPredictor.simulation EventPredictor.mirrorModel (EventPredictor.feedThrough false) 1) 10)
    (EventDispatcher.init (.init EventPredictor.zeroImage 0 EventPredictor.zeroImage) 0 0) EventPredictor.mirroredRun
    (fun s => (∃ p, p ∈ s.predictions.getLast? ∧ s.phase = .adding p) ∧
      EventPredictor.staticEvents s.delivered =
        [⟨1 / 2, [⟨(.fmiTypeReal, 1), .real 0x3ff0000000000000⟩]⟩]) (by decide +kernel)
  refine ⟨s₁, s₂, hrun₁, hrun₂, ?_⟩
  refine modes_feed_model_alike latchModel latchInput latchModel_holdsInputs EventPredictor.mirrorModel
    EventPredictor.mirrorModel_assumed id EventPredictor.mirrorModel_holdsInputs (EventPredictor.feedThrough false) unitSteps
    latchConfiguration (Fallible.eq_ok_get _) (fun id other target hid hother => ?_) EventPredictor.zeroStore (0, 0)
    (fun id target hid => ?_) latchPredictor (Fallible.eq_ok_get _) 5 0 0 10 latchedRun s₁ hrun₁ 1
    EventPredictor.zeroImage 0 le_rfl EventPredictor.zeroImage EventPredictor.depicts_zero rfl 0 10 _ s₂ hrun₂
    (by simp [hphase₁]) (by simp [hphase₂]) (hdelivered₁.trans hdelivered₂.symm) .fmiTypeReal 0 (.fmiTypeReal, 1)
    (by decide +kernel) (.fmiTypeReal, 0) (by decide +kernel)
  · rw [(latchConfiguration_slot hid).1, (latchConfiguration_slot hother).1]
  · obtain ⟨rfl, rfl⟩ := latchConfiguration_slot hid
    rfl

end FMITerminalBlock.Model
