import FMITerminalBlock.Library.Fallible
import FMITerminalBlock.Model.EventPredictor
import Mathlib.Tactic.Linarith

/-! What the operations of the multistep predictor do to its fields. The results about runs use
these facts and never the code of the operations. -/
namespace FMITerminalBlock.Model
open Base Timing Fallible

/-- What the predictor relies on in FMI++. -/
structure IncrementalFMU.Assumed {σ : Type} (M : IncrementalFMU σ) : Prop where
  resolution_pos : 0 < M.getTimeDiffResolution
  predictState : ∀ s t next, (M.predictState s t).1 = some next → t ≤ next
  updateState : ∀ s t, (M.updateState s t).1 = t
  updateStateFromTheRight : ∀ s t, |(M.updateStateFromTheRight s t).1 - t| ≤ 2 * M.getTimeDiffResolution

/-- The faults that a correct use of the predictor excludes. -/
def PredictorFault.Misuse : PredictorFault → Prop
  | .solver what _ => what = "The event is outdated" ∨ what = "Can't update the model's state"
  | .getOutputVariables _ => True
  | .updatedTime => True
  | .missingOutputs => False
  | .invalidVariable => False

namespace EventPredictor
variable {σ : Type} {M : IncrementalFMU σ} {c : PredictorConfiguration} {p : EventPredictor σ}

theorem fetchOutputs_outputOnly (s : σ) :
    Outcome (fetchOutputs M c s) (OutputOnly c.context) (¬·.Misuse) := by
  refine Outcome.foldlM (fun _ vars => OutputOnly c.context vars) ?_ fun v hv => absurd hv List.not_mem_nil
  intro _ vars type hvars _
  refine Outcome.map (P := OutputOnly c.context) ?_ fun more hmore v hv => ?_
  · rw [fetchOutputsOf]
    split
    · refine .ok fun v hv => ?_
      obtain ⟨⟨id, i⟩, hid, rfl⟩ := List.mem_map.mp hv
      exact List.mem_flatMap.mpr ⟨type, FMIVariableType.mem_all type, List.fst_mem_of_mem_zipIdx hid⟩
    · split
      · exact .ok fun v hv => absurd hv List.not_mem_nil
      · exact .error id
  · rcases List.mem_append.mp hv with hv | hv
    · exact hvars v hv
    · exact hmore v hv

/-! ### Reading the variables of an event -/

/-- The event can be read without any effect, and it yields these variables. -/
def Opened (M : IncrementalFMU σ) (p : EventPredictor σ) : PredictorEvent → List Variable → Prop
  | .staticEvent ev, vars => vars = ev.vars
  | .lazyEvent time, vars => |p.lastPredictedEventTime - time| < M.getTimeDiffResolution ∧
      p.currentTime = p.lastPredictedEventTime ∧ 0 ≤ time ∧ p.outputEventVariablesPopulated = true ∧
      p.outputEventVariables = vars ∧ vars.all Variable.isValid

/-- A prediction that is current but was not read yet. -/
structure Unread (p : EventPredictor σ) (time : ℚ) : Prop where
  last : p.lastPredictedEventTime = time
  notPopulated : p.outputEventVariablesPopulated = false
  empty : p.outputEventVariables = []

/-- The predictor after the first read of a prediction. -/
def settle (p : EventPredictor σ) (s : σ) (time : ℚ) (vars : List Variable) : EventPredictor σ :=
  { p with
    solver := s
    currentTime := time
    outputEventVariables := vars
    outputEventVariablesPopulated := true }

/-- Reading a prediction that does not lie in the past is no misuse. -/
def Excused (M : IncrementalFMU σ) (p : EventPredictor σ) (time : ℚ) (fault : PredictorFault) : Prop :=
  M.Assumed → 0 ≤ p.currentTime → p.currentTime ≤ time → ¬fault.Misuse

theorem Opened.getVariables {ev : PredictorEvent} {vars : List Variable} (h : Opened M p ev vars) :
    getVariables M c p ev = .ok (vars, p) := by
  cases ev with
  | staticEvent ev => cases h; rfl
  | lazyEvent time =>
    obtain ⟨hlast, hcur, hnonneg, hpop, rfl, hvalid⟩ := h
    have hcurrent : p.lastPredictedEventTime ≤ time + M.getTimeDiffResolution := by linarith [(abs_lt.mp hlast).2]
    simp [EventPredictor.getVariables, getOutputVariables, assertThat, hlast, hcur, hnonneg, hpop, hcurrent,
      hcurrent.not_gt, hvalid, bind, Except.bind, pure, Except.pure]

theorem assertThat_outcome {holds : Bool} {a : OutputAssertion} {E : PredictorFault → Prop}
    (h : holds = false → E (.getOutputVariables a)) : Outcome (assertThat holds a) (fun _ => holds = true) E := by
  cases holds with
  | false => exact .error (h rfl)
  | true => exact .ok rfl

/-- The variables are those of an earlier read, or the model is settled at the time of the prediction. -/
private theorem getOutputVariables_spec (time : ℚ) :
    Outcome (getOutputVariables M c p time)
      (fun r => 0 ≤ time ∧ |p.lastPredictedEventTime - time| < M.getTimeDiffResolution ∧
        (p.outputEventVariablesPopulated = true ∧ p.currentTime = p.lastPredictedEventTime ∧
            r = (p.outputEventVariables, p) ∨
          OutputOnly c.context r.1 ∧ ∃ s, r.2 = p.settle s p.lastPredictedEventTime r.1))
      (fun fault => Unread p time → Excused M p time fault) := by
  rw [getOutputVariables]
  refine (assertThat_outcome fun hf hp hM hnonneg hle => ?_).bind fun _ htime => ?_
  · exact absurd (hnonneg.trans hle) (of_decide_eq_false hf)
  refine (assertThat_outcome fun hf hp hM hnonneg hle => ?_).bind fun _ hlast => ?_
  · exact absurd (by simpa [hp.last] using hM.resolution_pos) (of_decide_eq_false hf)
  refine (assertThat_outcome fun hf hp hM hnonneg hle => ?_).bind fun _ _ => ?_
  · exact absurd (by linarith [hM.resolution_pos]) (of_decide_eq_false hf)
  refine (assertThat_outcome fun hf hp => ?_).bind fun _ hforwarded => ?_
  · rw [hp.notPopulated] at hf
    cases hf
  rw [decide_eq_true_eq] at htime hlast
  dsimp only
  split
  · rename_i hpopulated
    have hcurrent : p.currentTime = p.lastPredictedEventTime := by simpa [hpopulated] using hforwarded
    exact .ok ⟨htime, hlast, .inl ⟨hpopulated, hcurrent, rfl⟩⟩
  · refine (assertThat_outcome fun hf hp => ?_).bind fun _ _ => ?_
    · rw [hp.empty] at hf
      cases hf
    split
    · rename_i hfar
      exact .error fun _ hM _ _ => absurd (hM.updateStateFromTheRight p.solver _) (not_le.mpr hfar)
    · apply ((fetchOutputs_outputOnly _).excuse fun _ hf _ _ _ _ => hf).bind
      intro vars hvars
      exact .ok ⟨htime, hlast, .inr ⟨hvars, _, rfl⟩⟩

/-- Once an event has been read, it can be read again without any effect. -/
theorem getVariables_opened (ev : PredictorEvent) :
    Outcome (getVariables M c p ev) (fun r => Opened M r.2 ev r.1 ∧ r.2.inputImage = p.inputImage)
      (fun _ => True) := by
  cases ev with
  | staticEvent ev => exact .ok ⟨rfl, rfl⟩
  | lazyEvent time =>
    simp only [EventPredictor.getVariables]
    split
    · exact .error trivial
    apply ((getOutputVariables_spec time).excuse fun _ _ => trivial).bind
    rintro ⟨vars, q⟩ ⟨htime, hlast, hread⟩
    dsimp only at hread ⊢
    split
    · rename_i hvalid
      obtain ⟨hpopulated, hcurrent, hr⟩ | ⟨-, s, rfl⟩ := hread
      · cases hr
        exact .ok ⟨⟨hlast, hcurrent, htime, hpopulated, rfl, hvalid⟩, rfl⟩
      · exact .ok ⟨⟨hlast, rfl, htime, rfl, rfl, hvalid⟩, rfl⟩
    · exact .error trivial

/-- The first read of a prediction settles the state of the model at its time. -/
theorem Unread.getVariables {time : ℚ} (h : Unread p time) :
    Outcome (getVariables M c p (.lazyEvent time))
      (fun r => Opened M r.2 (.lazyEvent time) r.1 ∧ OutputOnly c.context r.1 ∧
        ∃ s, r.2 = p.settle s time r.1) (Excused M p time) := by
  simp only [EventPredictor.getVariables]
  split
  · rename_i hlate
    exact .error fun hM _ hle => absurd hlate (by linarith [hM.resolution_pos])
  · apply ((getOutputVariables_spec time).excuse fun _ hf => hf h).bind
    rintro ⟨vars, q⟩ ⟨htime, hlast, ⟨hpopulated, -⟩ | ⟨houtput, s, hq⟩⟩
    · rw [h.notPopulated] at hpopulated
      cases hpopulated
    dsimp only at houtput hq ⊢
    subst hq
    split
    · rename_i hvalid
      exact .ok ⟨⟨hlast, rfl, htime, rfl, rfl, hvalid⟩, houtput, s, by rw [h.last]⟩
    · exact .error fun _ _ _ => id

/-- The predictor after an event that changes no field but the input image and the reads. -/
def observed (p : EventPredictor σ) (image : (type : FMIVariableType) → List (Carrier type))
    (reads : List (List Variable)) : EventPredictor σ :=
  { p with inputImage := image, reads := reads }

theorem Opened.observed {ev : PredictorEvent} {vars : List Variable} (h : Opened M p ev vars)
    (image : (type : FMIVariableType) → List (Carrier type)) (reads : List (List Variable)) :
    Opened M (p.observed image reads) ev vars := by
  cases ev <;> exact h

theorem readAll_opened {ev : PredictorEvent} {vars : List Variable}
    (h : Opened M p ev vars) (n : Nat) :
    readAll M c ev n p = .ok (p.observed p.inputImage (p.reads ++ List.replicate n vars)) := by
  induction n generalizing p with
  | zero => simp [readAll, EventPredictor.observed]
  | succ n ih =>
    have hrest := ih (h.observed p.inputImage (p.reads ++ [vars]))
    simp only [readAll, h.getVariables, bind, Except.bind]
    apply hrest.trans
    simp only [EventPredictor.observed]
    rw [List.append_assoc, List.singleton_append, ← List.replicate_succ]

/-! ### Updating the inputs -/

theorem updateInput_found {type : FMIVariableType} (v : Variable) (i : Nat) (ports : List PortID)
    (r : Bool × List (Carrier type)) :
    Outcome (updateInput type v i ports r) (fun r' => r'.1 = true ↔ r.1 = true ∨ v.id ∈ ports)
      (¬·.Misuse) := by
  induction ports generalizing i r with
  | nil => exact .ok (by simp)
  | cons port ports ih =>
    rw [updateInput]
    split
    · rename_i hid
      split
      · exact (ih _ _).mono fun r' hr' => by simp [hr', hid]
      · exact .error id
    · rename_i hid
      exact (ih _ _).mono fun r' hr' => by simp [hr', hid]

theorem updateInputImageOf_opened {ev : PredictorEvent} {vars : List Variable}
    (h : Opened M p ev vars) (type : FMIVariableType) :
    Outcome (updateInputImageOf M c ev p type)
      (fun r => (∃ image, r.2 = p.observed image (p.reads ++ [vars])) ∧
        (r.1 = true ↔ ∃ v ∈ vars, v.id ∈ c.inputIDs type)) (¬·.Misuse) := by
  have hloop : Outcome (vars.foldlM (fun r v => updateInput type v 0 (c.inputIDs type) r)
      (false, p.inputImage type)) (fun r => r.1 = true ↔ ∃ v ∈ vars, v.id ∈ c.inputIDs type)
      (¬·.Misuse) := by
    refine Outcome.foldlM (fun (past : List Variable) (r : Bool × List (Carrier type)) =>
      r.1 = true ↔ ∃ v ∈ past, v.id ∈ c.inputIDs type) ?_ (by simp)
    intro past r v hr _
    apply (updateInput_found v 0 (c.inputIDs type) r).mono
    intro r' hr'
    rw [hr', hr]
    simp [or_and_right, exists_or]
  rw [updateInputImageOf]
  rw [h.getVariables]
  exact hloop.bind fun r hr => .ok ⟨⟨_, rfl⟩, hr⟩

/-- Ports of unknown type are refused. -/
theorem inputIDs_unknown (c : PredictorConfiguration) : c.inputIDs .fmiTypeUnknown = [] := by
  obtain ⟨first, last, hmapped⟩ := c.context.input_mapped
  have hlen := hmapped.built.length_ids .fmiTypeUnknown
  rw [show c.context.input.variableNames .fmiTypeUnknown = [] from c.known_inputs] at hlen
  exact List.length_eq_zero_iff.mp hlen

/-- So the four known types cover all inputs. -/
theorem mem_inputs (c : PredictorConfiguration) (id : PortID) :
    id ∈ c.context.input.getAllVariableIDs ↔ ∃ type ∈ FMIVariableType.known, id ∈ c.inputIDs type := by
  constructor
  · intro hid
    obtain ⟨type, -, hid⟩ := List.mem_flatMap.mp hid
    cases type with
    | fmiTypeUnknown => exact absurd (inputIDs_unknown c ▸ hid : id ∈ []) List.not_mem_nil
    | _ => exact ⟨_, by decide, hid⟩
  · rintro ⟨type, -, hid⟩
    exact List.mem_flatMap.mpr ⟨type, FMIVariableType.mem_all type, hid⟩

/-- The predictor reads the event once for each of the four types. -/
theorem updateInputImage_opened {ev : PredictorEvent} {vars : List Variable}
    (h : Opened M p ev vars) :
    Outcome (updateInputImage M c p ev)
      (fun r => (∃ image, r.2 = p.observed image (p.reads ++ List.replicate 4 vars)) ∧
        (r.1 = true ↔ ∃ v ∈ vars, v.id ∈ c.context.input.getAllVariableIDs)) (¬·.Misuse) := by
  have hstart : p = p.observed p.inputImage (p.reads ++ List.replicate 0 vars) := by
    simp [EventPredictor.observed]
  refine (Outcome.foldlM (fun past r =>
    (∃ image, r.2 = p.observed image (p.reads ++ List.replicate past.length vars)) ∧
    (r.1 = true ↔ ∃ type ∈ past, ∃ v ∈ vars, v.id ∈ c.inputIDs type)) ?_ ⟨⟨_, hstart⟩, by simp⟩).mono ?_
  · rintro past ⟨found, q⟩ type ⟨⟨image, hq⟩, hfound⟩ _
    dsimp only at hq hfound
    subst hq
    apply (updateInputImageOf_opened (h.observed image _) type).map
    rintro ⟨more, q⟩ ⟨⟨image', rfl⟩, hmore⟩
    refine ⟨⟨image', ?_⟩, ?_⟩
    · simp [EventPredictor.observed, List.replicate_succ']
    · dsimp only at hmore ⊢
      rw [Bool.or_eq_true, hfound, hmore]
      simp [or_and_right, exists_or]
  · rintro r ⟨himage, hfound⟩
    refine ⟨himage, hfound.trans ?_⟩
    simp only [mem_inputs]
    exact ⟨fun ⟨type, ht, v, hv, hid⟩ => ⟨v, hv, type, ht, hid⟩,
      fun ⟨v, hv, type, ht, hid⟩ => ⟨type, ht, v, hv, hid⟩⟩

/-- Only the first of the four loops over the variables may have to open the event. -/
theorem updateInputImage_of_getVariables {ev : PredictorEvent} {vars : List Variable}
    {q : EventPredictor σ} (hget : getVariables M c p ev = .ok (vars, q)) (hopened : Opened M q ev vars) :
    updateInputImage M c p ev = updateInputImage M c q ev := by
  have hfirst : updateInputImageOf M c ev p .fmiTypeReal = updateInputImageOf M c ev q .fmiTypeReal := by
    unfold updateInputImageOf
    rw [hget, hopened.getVariables]
  simp only [updateInputImage, FMIVariableType.known, List.foldlM_cons, hfirst]

theorem updateInputImage_of_error {ev : PredictorEvent} {fault : PredictorFault}
    (hget : getVariables M c p ev = .error fault) : updateInputImage M c p ev = .error fault := by
  have hfirst : updateInputImageOf M c ev p .fmiTypeReal = .error fault := by
    rw [updateInputImageOf]
    rw [hget]
    rfl
  simp only [updateInputImage, FMIVariableType.known, List.foldlM_cons, hfirst]
  rfl

/-! ### Distribution of an event -/

/-- The predictor after an external event with inputs took effect at the given time. -/
def advance (p : EventPredictor σ) (s : σ) (time : ℚ)
    (image : (type : FMIVariableType) → List (Carrier type)) : EventPredictor σ :=
  { p with
    solver := s
    currentTime := time
    outputEventVariables := []
    outputEventVariablesPopulated := false
    lastPredictedEventTime := time
    directOutputPending := true
    inputImage := image
    updateTimes := p.updateTimes ++ [time] }

/-- The lists read by the predictor itself and by the readers after it. -/
def readings (n : Nat) (vars : List Variable) : List (List Variable) :=
  List.replicate 4 vars ++ List.replicate n vars

/-- An event read without effect that holds no input leaves the predictor as it is. -/
private theorem distribute_observed {ev : PredictorEvent} {vars : List Variable}
    (h : Opened M p ev vars) (hvars : ∀ v ∈ vars, v.id ∉ c.context.input.getAllVariableIDs) (n : Nat) :
    Outcome (distribute M c n p ev) (fun p' => ∃ image, p' = p.observed image (readings n vars))
      (¬·.Misuse) := by
  have hopened : Opened M (p.observed p.inputImage []) ev vars := h.observed _ _
  apply Outcome.bind (P := fun q => ∃ image, q = p.observed image (List.replicate 4 vars))
  · apply (updateInputImage_opened hopened).bind
    rintro ⟨found, q⟩ ⟨⟨image, rfl⟩, hfound⟩
    have hnot : found = false := by
      rw [← Bool.not_eq_true]
      intro hf
      obtain ⟨v, hv, hin⟩ := hfound.mp hf
      exact hvars v hv hin
    subst hnot
    exact .ok ⟨image, rfl⟩
  · rintro q ⟨image, rfl⟩
    rw [readAll_opened (h.observed _ _)]
    exact .ok ⟨image, rfl⟩

theorem distribute_lazyEvent {time : ℚ} (h : Unread p time) (n : Nat) :
    Outcome (distribute M c n p (.lazyEvent time))
      (fun p' => ∃ s vars image, p' = (p.settle s time vars).observed image (readings n vars))
      (Excused M p time) := by
  have hunread : Unread (p.observed p.inputImage []) time := ⟨h.last, h.notPopulated, h.empty⟩
  cases hget : getVariables M c (p.observed p.inputImage []) (.lazyEvent time) with
  | error fault =>
    have herror : distribute M c n p (.lazyEvent time) = .error fault := by
      have himage := updateInputImage_of_error hget
      simp only [EventPredictor.observed] at himage
      simp only [distribute, eventTriggered, himage]
      rfl
    rw [herror]
    exact .error (hunread.getVariables.of_error hget)
  | ok r =>
    obtain ⟨hopened, houtput, s, hs⟩ := hunread.getVariables.of_ok hget
    have hsame : distribute M c n p (.lazyEvent time) = distribute M c n r.2 (.lazyEvent time) := by
      have himage := updateInputImage_of_getVariables hget hopened
      simp only [EventPredictor.observed] at himage
      simp only [distribute, eventTriggered, himage, hs]
      rfl
    rw [hsame]
    refine ((distribute_observed hopened (fun v hv => houtput.not_mem_input hv) n).mono ?_).excuse
      fun _ hf _ _ _ => hf
    rintro p' ⟨image, rfl⟩
    exact ⟨s, r.1, image, by rw [hs]; rfl⟩

theorem distribute_staticEvent (ev : StaticEvent) (n : Nat) :
    Outcome (distribute M c n p (.staticEvent ev))
      (fun p' => ∃ image, if ev.CarriesInput c.context then
          ∃ s, p' = (p.advance s (alignTime M p ev.time) image).observed image (readings n ev.vars)
        else p' = p.observed image (readings n ev.vars))
      (fun fault => M.Assumed → ¬fault.Misuse) := by
  have hopened (q : EventPredictor σ) : Opened M q (.staticEvent ev) ev.vars := rfl
  by_cases hcarries : ev.CarriesInput c.context
  · simp only [hcarries, if_true]
    refine Outcome.bind (P := fun q => ∃ image s, q =
      (p.advance s (alignTime M p ev.time) image).observed image (List.replicate 4 ev.vars)) ?_ ?_
    · apply ((updateInputImage_opened (hopened _)).excuse fun _ hf _ => hf).bind
      rintro ⟨found, q⟩ ⟨⟨image, rfl⟩, hfound⟩
      have hyes : found = true := hfound.mpr hcarries
      subst hyes
      dsimp only
      rw [if_pos rfl]
      split
      · exact .ok ⟨image, _, rfl⟩
      · rename_i hne
        exact .error fun hM => absurd (hM.updateState _ _) hne
    · rintro q ⟨image, s, rfl⟩
      rw [readAll_opened (hopened _)]
      exact .ok ⟨image, s, rfl⟩
  · simp only [hcarries, if_false]
    exact (distribute_observed (hopened p) (fun v hv hin => hcarries ⟨v, hv, hin⟩) n).excuse fun _ hf _ => hf

/-! ### Prediction -/

/-- What a prediction leaves behind: a lazy event that is current and not read, or the direct
outputs at the current time. -/
def Predicted (c : PredictorConfiguration) (p : EventPredictor σ) : PredictorEvent → Prop
  | .lazyEvent time => Unread p time
  | .staticEvent ev => ev.time = p.currentTime ∧ OutputOnly c.context ev.vars

/-- The kind of prediction depends on the pending flag, which is cleared. The current time is left
alone, and a model that behaves predicts no event before it. -/
theorem predictNext_spec (p : EventPredictor σ) :
    Outcome (predictNext M c p)
      (fun r => Predicted c r.2 r.1 ∧ r.2.currentTime = p.currentTime ∧ r.2.updateTimes = p.updateTimes ∧
        r.2.reads = p.reads ∧ (M.Assumed → p.currentTime ≤ r.1.time) ∧
        ((∃ ev, r.1 = .staticEvent ev) ↔ c.assumeDirectDependency = true ∧ p.directOutputPending = true))
      (¬·.Misuse) := by
  rw [predictNext]
  split
  · rename_i hfmi
    rw [predictNextFMIEvent]
    split
    · exact .error (by simp [PredictorFault.Misuse])
    · rename_i next s hpredict
      refine .ok ⟨⟨rfl, rfl, rfl⟩, rfl, rfl, rfl, fun hM => ?_, fun ⟨ev, hev⟩ => (nomatch hev),
        fun ⟨hdep, hpending⟩ => ?_⟩
      · exact hM.predictState p.solver p.currentTime next (by rw [hpredict])
      · simp [hdep, hpending] at hfmi
  · rename_i hdirect
    refine ((fetchOutputs_outputOnly p.solver).map (Q := fun r => ∃ outVars, OutputOnly c.context outVars ∧
      r = (.staticEvent ⟨p.currentTime, outVars⟩, p)) fun vars hvars => ⟨vars, hvars, rfl⟩).map ?_
    rintro r ⟨outVars, houtput, rfl⟩
    exact ⟨⟨rfl, houtput⟩, rfl, rfl, rfl, fun _ => le_rfl, by simpa using hdirect⟩

end EventPredictor
end FMITerminalBlock.Model
