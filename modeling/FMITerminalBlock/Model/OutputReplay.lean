import FMITerminalBlock.Model.SynchronizationPoints

/-! What a listener knows about the outputs of the single step mode. Points without a significant
change are empty, and the others hold all outputs. -/
namespace FMITerminalBlock.Model
open Base Timing

namespace OneStepEventPredictor
variable {σ : Type} {M : FMUModelExchange σ} {c : OneStepConfiguration}

/-! ### Values that do not differ significantly -/

/-- The same bits, or values that the operator `!=` does not tell apart. -/
def Same (type : FMIVariableType) (x y : Carrier type) : Prop := x = y ∨ differs type x y = false

private theorem equal_trans {x y z : BitVec 64} (hxy : Ieee754.equal x y = true) (hyz : Ieee754.equal y z = true) :
    Ieee754.equal x z = true := by
  simp only [Ieee754.equal, Bool.and_eq_true, Bool.not_eq_true', Bool.or_eq_true, beq_iff_eq] at hxy hyz ⊢
  obtain ⟨⟨hx, -⟩, hxy⟩ := hxy
  obtain ⟨⟨-, hz⟩, hyz⟩ := hyz
  refine ⟨⟨hx, hz⟩, ?_⟩
  rcases hxy with rfl | ⟨hzero, hzero'⟩
  · exact hyz
  · rcases hyz with rfl | ⟨-, hzero''⟩
    · exact .inr ⟨hzero, hzero'⟩
    · exact .inr ⟨hzero, hzero''⟩

theorem Same.trans {type : FMIVariableType} {x y z : Carrier type} (hxy : Same type x y) (hyz : Same type y z) :
    Same type x z := by
  rcases hxy with rfl | hxy
  · exact hyz
  rcases hyz with rfl | hyz
  · exact .inr hxy
  refine .inr ?_
  cases type with
  | fmiTypeReal =>
    simp only [differs, Bool.not_eq_false'] at hxy hyz ⊢
    exact equal_trans hxy hyz
  | fmiTypeInteger | fmiTypeBoolean | fmiTypeString =>
    simp only [differs, bne_eq_false_iff_eq] at hxy hyz ⊢
    exact hxy.trans hyz
  | fmiTypeUnknown => exact nomatch x

abbrev OutputImage := (type : FMIVariableType) → List (Carrier type)

/-- The images agree value by value. -/
def ImagesAgree (a b : OutputImage) : Prop := ∀ type, List.Forall₂ (Same type) (a type) (b type)

theorem ImagesAgree.refl (a : OutputImage) : ImagesAgree a a :=
  fun _ => List.forall₂_same.mpr fun _ _ => .inl rfl

theorem ImagesAgree.trans {a b d : OutputImage} (hab : ImagesAgree a b) (hbd : ImagesAgree b d) : ImagesAgree a d := by
  intro type
  have hleft := hab type
  have hright := hbd type
  generalize a type = xs, b type = ys, d type = zs at hleft hright
  induction hleft generalizing zs with
  | nil => exact hright
  | cons hxy _ ih =>
    cases hright with
    | cons hyz hrest => exact .cons (hxy.trans hyz) (ih _ hrest)

/-! ### What a listener knows -/

/-- The last value of every variable, brought up to date by an event. -/
def remember (known : PortID → Option Value) (ev : StaticEvent) (id : PortID) : Option Value :=
  ((lastVariable id ev.vars).map Variable.value).or (known id)

def replay (known : PortID → Option Value) (events : List StaticEvent) : PortID → Option Value :=
  events.foldl remember known

/-- The variables of an image in the order of an output event. -/
def imageVariables (c : OneStepConfiguration) (image : OutputImage) : List Variable :=
  FMIVariableType.known.flatMap fun type =>
    List.zipWith (fun id value => ⟨id, .of type value⟩) (c.outputMapping.getVariableIDs type) (image type)

def imageValue (c : OneStepConfiguration) (image : OutputImage) (id : PortID) : Option Value :=
  (lastVariable id (imageVariables c image)).map Variable.value

/-- There is no value on both sides, or the values do not differ significantly. -/
def ValuesAgree (v w : Option Value) : Prop :=
  v = none ∧ w = none ∨ ∃ type x y, v = some (.of type x) ∧ w = some (.of type y) ∧ Same type x y

/-- The image has one value for each output. -/
def Shaped (c : OneStepConfiguration) (image : OutputImage) : Prop :=
  ∀ type, (image type).length = (c.outputMapping.getVariableIDs type).length

theorem Shaped.ids {image : OutputImage} (h : Shaped c image) :
    (imageVariables c image).map Variable.id =
      FMIVariableType.known.flatMap fun type => c.outputMapping.getVariableIDs type := by
  rw [imageVariables, List.map_flatMap]
  congr 1
  funext type
  have hlength := h type
  generalize image type = values, c.outputMapping.getVariableIDs type = ids at hlength
  induction ids generalizing values with
  | nil => rfl
  | cons id ids ih =>
    cases values with
    | nil => cases hlength
    | cons value values =>
      rw [List.zipWith_cons_cons, List.map_cons]
      exact congrArg _ (ih values (Nat.succ.inj hlength))

theorem imageValue_isSome {image : OutputImage} (h : Shaped c image) (id : PortID) :
    (imageValue c image id).isSome ↔
      id ∈ FMIVariableType.known.flatMap fun type => c.outputMapping.getVariableIDs type := by
  rw [imageValue, Option.isSome_map, lastVariable_isSome, h.ids]

/-- Lists of variables with the same identifiers and values that agree. -/
private theorem valuesAgree_lastVariable {vars vars' : List Variable} (id : PortID)
    (h : List.Forall₂ (fun v w => v.id = w.id ∧ ValuesAgree (some v.value) (some w.value)) vars vars') :
    ValuesAgree ((lastVariable id vars).map Variable.value) ((lastVariable id vars').map Variable.value) := by
  have hreverse := List.forall₂_reverse_iff.mpr h
  rw [lastVariable, lastVariable]
  generalize vars.reverse = later, vars'.reverse = later' at hreverse
  induction hreverse with
  | nil => exact .inl ⟨rfl, rfl⟩
  | @cons v w later later' hvalue _ ih =>
    by_cases hv : v.id = id
    · rw [List.find?_cons_of_pos (by simpa using hv), List.find?_cons_of_pos (by simpa using hvalue.1 ▸ hv)]
      exact hvalue.2
    · rw [List.find?_cons_of_neg (by simpa using hv), List.find?_cons_of_neg (by simpa using hvalue.1 ▸ hv)]
      exact ih

theorem ImagesAgree.value {a b : OutputImage} (h : ImagesAgree a b) (id : PortID) :
    ValuesAgree (imageValue c a id) (imageValue c b id) := by
  apply valuesAgree_lastVariable
  rw [imageVariables, imageVariables]
  induction FMIVariableType.known with
  | nil => exact .nil
  | cons type types ih =>
    rw [List.flatMap_cons, List.flatMap_cons]
    refine List.rel_append ?_ ih
    have hvalues := h type
    generalize a type = xs, b type = ys, c.outputMapping.getVariableIDs type = ids at hvalues
    induction hvalues generalizing ids with
    | nil => simp
    | @cons x y xs ys hxy _ ih =>
      cases ids with
      | nil => exact .nil
      | cons id ids => exact .cons ⟨rfl, .inr ⟨type, x, y, rfl, rfl, hxy⟩⟩ (ih ids)

/-! ### The images of a run -/

/-- The configuration has a value reference for each output, and no output of unknown type. -/
structure References (c : OneStepConfiguration) : Prop where
  length : ∀ type, (c.outputValueReference type).length = (c.outputMapping.getVariableIDs type).length
  unknown : c.outputMapping.getVariableIDs .fmiTypeUnknown = []

theorem configure_references {context : ApplicationContext.Settled} {properties : SimulationProperties}
    (h : configure M context properties = .ok c) : References c := by
  obtain ⟨outputs, houtputs, h⟩ := Fallible.bind_eq_ok.mp h
  obtain ⟨inputs, -, h⟩ := Fallible.bind_eq_ok.mp h
  cases h
  obtain ⟨first, last, hmapped⟩ := context.output_mapped
  have hids (type : FMIVariableType) : (context.output.getVariableIDs type).length =
      (context.output.getVariableNames type).length := hmapped.built.length_ids type
  have hlength {type : FMIVariableType} {references : List Nat}
      (hreferences : initOutputValueReferences M context.output type = .ok references) :
      references.length = (context.output.getVariableIDs type).length := by
    rw [hids, ← (Fallible.mapM_eq_ok.mp hreferences).length_eq]
  obtain ⟨real, hreal, houtputs⟩ := Fallible.bind_eq_ok.mp houtputs
  obtain ⟨integer, hinteger, houtputs⟩ := Fallible.bind_eq_ok.mp houtputs
  obtain ⟨boolean, hboolean, houtputs⟩ := Fallible.bind_eq_ok.mp houtputs
  obtain ⟨string, hstring, houtputs⟩ := Fallible.bind_eq_ok.mp houtputs
  dsimp only at houtputs
  split at houtputs
  · cases houtputs
  · rename_i hunknown
    cases houtputs
    have hnone : context.output.getVariableIDs .fmiTypeUnknown = [] := by
      rw [← List.length_eq_zero_iff, hids]
      exact Nat.eq_zero_of_not_pos hunknown
    refine ⟨fun type => ?_, hnone⟩
    cases type with
    | fmiTypeReal => exact hlength hreal
    | fmiTypeInteger => exact hlength hinteger
    | fmiTypeBoolean => exact hlength hboolean
    | fmiTypeString => exact hlength hstring
    | fmiTypeUnknown =>
      rw [hnone]
      rfl

/-- Fetching the outputs keeps the shape of the image, and without a significant change the image
agrees with the one before. -/
structure Fetched (c : OneStepConfiguration) (before : OutputImage) (changed : Bool) (after : OutputImage) : Prop where
  shaped : Shaped c after
  unchanged : changed = false → ImagesAgree before after

private theorem forall₂_of_any_differs {type : FMIVariableType} {xs ys : List (Carrier type)}
    (hlength : xs.length = ys.length) (h : (List.zipWith (differs type) xs ys).any id = false) :
    List.Forall₂ (Same type) xs ys := by
  induction xs generalizing ys with
  | nil =>
    rw [List.length_eq_zero_iff.mp hlength.symm]
    exact .nil
  | cons x xs ih =>
    cases ys with
    | nil => cases hlength
    | cons y ys =>
      rw [List.zipWith_cons_cons, List.any_cons, Bool.or_eq_false_iff] at h
      exact .cons (.inr h.1) (ih (Nat.succ.inj hlength) h.2)

theorem updateOutputImageOf_fetched (hc : References c) {type : FMIVariableType} {p : OneStepEventPredictor σ}
    (hp : Shaped c p.outputImage) {r : Bool × OneStepEventPredictor σ} (h : updateOutputImageOf M c type p = .ok r) :
    Fetched c p.outputImage r.1 r.2.outputImage := by
  rw [updateOutputImageOf] at h
  split at h
  · cases h
    exact ⟨hp, fun _ => ImagesAgree.refl _⟩
  · split at h
    · cases h
    · rename_i val s hval
      cases h
      have hlength : ((List.range (c.outputValueReference type).length).map val).length =
          (c.outputMapping.getVariableIDs type).length := by
        rw [List.length_map, List.length_range, hc.length]
      constructor
      · intro other
        dsimp only
        by_cases hother : other = type
        · subst hother
          rw [Function.update_self, hlength]
        · rw [Function.update_of_ne hother, hp]
      · intro hunchanged other
        dsimp only at hunchanged ⊢
        by_cases hother : other = type
        · subst hother
          rw [Function.update_self]
          exact forall₂_of_any_differs (by rw [hp, hlength]) hunchanged
        · rw [Function.update_of_ne hother]
          exact ImagesAgree.refl p.outputImage other

theorem updateOutputImage_fetched (hc : References c) {p : OneStepEventPredictor σ} (hp : Shaped c p.outputImage)
    {r : Bool × OneStepEventPredictor σ} (h : updateOutputImage M c p = .ok r) :
    Fetched c p.outputImage r.1 r.2.outputImage := by
  refine (Fallible.Outcome.foldlM (E := fun _ => True)
    (fun _ r => Fetched c p.outputImage r.1 r.2.outputImage) ?_ ⟨hp, fun _ => ImagesAgree.refl _⟩).of_ok h
  rintro _ ⟨changed, q⟩ type hq _
  refine Fallible.Outcome.map (P := fun r => Fetched c q.outputImage r.1 r.2.outputImage) ?_ fun r hr => ?_
  · cases hof : updateOutputImageOf M c type q with
    | ok r => exact updateOutputImageOf_fetched hc hq.shaped hof
    | error fault => trivial
  · refine ⟨hr.shaped, fun hunchanged => ?_⟩
    rw [Bool.or_eq_false_iff] at hunchanged
    exact (hq.unchanged hunchanged.1).trans (hr.unchanged hunchanged.2)

/-- What a listener with all points knows: the values of an image that agrees with the current one. -/
structure Announced (c : OneStepConfiguration) (initial : OutputImage) (p : OneStepEventPredictor σ) : Prop where
  shaped : Shaped c p.outputImage
  known : ∃ image, Shaped c image ∧ ImagesAgree image p.outputImage ∧
    replay (imageValue c initial) p.synchronizationPoints = imageValue c image

theorem replay_concat (known : PortID → Option Value) (events : List StaticEvent) (ev : StaticEvent) :
    replay known (events ++ [ev]) = remember (replay known events) ev := by
  rw [replay, List.foldl_append]
  rfl

/-- An event with all outputs replaces everything that is known. -/
theorem remember_image {image image' : OutputImage} (h : Shaped c image) (h' : Shaped c image') (time : ℚ) :
    remember (imageValue c image) ⟨time, imageVariables c image'⟩ = imageValue c image' := by
  funext id
  rw [remember]
  change (imageValue c image' id).or (imageValue c image id) = imageValue c image' id
  cases hvalue : imageValue c image' id with
  | some value => rfl
  | none =>
    rw [Option.none_or, ← Option.not_isSome_iff_eq_none, imageValue_isSome h, ← imageValue_isSome h', hvalue]
    exact Bool.false_ne_true

theorem Announced.predictNext (hc : References c) {initial : OutputImage} {p p' : OneStepEventPredictor σ}
    (hp : Announced c initial p) {turns : Nat} {ev : StaticEvent} (h : predictNext M c turns p = .ok (ev, p')) :
    Announced c initial p' := by
  unfold OneStepEventPredictor.predictNext at h
  split at h
  · cases h
    exact hp
  · obtain ⟨p₁, hstep, h⟩ := Fallible.bind_eq_ok.mp h
    obtain ⟨⟨changed, p₂⟩, hupdate, h⟩ := Fallible.bind_eq_ok.mp h
    cases h
    obtain ⟨s, -, rfl⟩ := Fallible.map_eq_ok.mp hstep
    obtain ⟨image, himage, hagree, hreplay⟩ := hp.known
    have hshaped : Shaped c ({ p with fmu := s } : OneStepEventPredictor σ).outputImage := hp.shaped
    have hfetched := updateOutputImage_fetched hc hshaped hupdate
    have hpoints := (updateOutputImage_frame hupdate).2
    refine ⟨hfetched.shaped, ?_⟩
    dsimp only at hpoints ⊢
    rw [hpoints, replay_concat, hreplay]
    cases changed with
    | true => exact ⟨p₂.outputImage, hfetched.shaped, ImagesAgree.refl _, remember_image himage hfetched.shaped _⟩
    | false => exact ⟨image, himage, hagree.trans (hfetched.unchanged rfl), rfl⟩

theorem Announced.eventTriggered {initial : OutputImage} {p p' : OneStepEventPredictor σ}
    (hp : Announced c initial p) {ev : StaticEvent} (h : eventTriggered M c p ev = .ok p') :
    Announced c initial p' := by
  obtain ⟨⟨updated, s⟩, -, h⟩ := Fallible.bind_eq_ok.mp h
  dsimp only at h
  split at h
  · cases h
    exact ⟨hp.shaped, hp.known⟩
  · cases h
    exact ⟨hp.shaped, hp.known⟩

theorem announced_start (hc : References c) {s : σ} {p : OneStepEventPredictor σ} (h : start M c s = .ok p) :
    Announced c p.outputImage p := by
  have hpoints := (updateOutputImage_start h).2
  obtain ⟨r, hr, rfl⟩ := Fallible.map_eq_ok.mp h
  have hshaped : Shaped c r.2.outputImage := by
    refine (updateOutputImage_fetched hc ?_ hr).shaped
    intro type
    cases type with
    | fmiTypeUnknown =>
      rw [hc.unknown]
      rfl
    | _ => rw [List.length_map]
  refine ⟨hshaped, r.2.outputImage, hshaped, ImagesAgree.refl _, ?_⟩
  rw [hpoints]
  rfl

/-! ### Runs -/

theorem announced_step (hc : References c) {turns : Nat} {theEnd : ℚ} {initial : OutputImage} {s t : RunState σ}
    {l : Label StaticEvent} (hs : Announced c initial s.predictor)
    (h : EventDispatcher.Steps (simulation M c turns) theEnd s l t) : Announced c initial t.predictor := by
  cases h with
  | predict ev predictor phase next => exact hs.predictNext hc next
  | distribute p entry predictor phase done => exact hs.eventTriggered done
  | _ => exact hs

/-- As long as external events carry inputs, the delivered predictions let a listener follow the outputs
of the model from their initial values: whenever the model is about to advance, the last values
received do not differ significantly from the outputs that were fetched at the last point. -/
theorem delivered_points_replay_outputs (M : FMUModelExchange σ) (context : ApplicationContext.Settled)
    (properties : SimulationProperties) (c : OneStepConfiguration) (hconfig : configure M context properties = .ok c)
    (s₀ : σ) (p : OneStepEventPredictor σ) (hstart : start M c s₀ = .ok p) (turns : Nat) (now : Int)
    (startTime theEnd : ℚ) (labels : List (Label StaticEvent)) (s : RunState σ)
    (hrun : EventDispatcher.Reaches (simulation M c turns) theEnd (EventDispatcher.init p now startTime) labels s)
    (hcarry : LabelledRun.Along (EventDispatcher.step (simulation M c turns) theEnd)
      (fun s _ t => ExternalCarriesInput context s t) (EventDispatcher.init p now startTime) labels)
    (hphase : s.phase = .predicting) (hidle : s.predictor.currentPrediction = none) (id : PortID) :
    ValuesAgree (replay (imageValue c p.outputImage) (deliveredPredictions s) id)
        (imageValue c s.predictor.outputImage id) ∧
      ((imageValue c s.predictor.outputImage id).isSome ↔ id ∈ context.output.getAllVariableIDs) := by
  have hc := configure_references hconfig
  have hannounced : Announced c p.outputImage s.predictor :=
    LabelledRun.exec_invariant (fun _ _ _ hs h => announced_step hc hs (EventDispatcher.step_steps h))
      (announced_start hc hstart) hrun
  have hpoints : PointInvariant context s := by
    refine LabelledRun.along_invariant (PointInvariant context) (fun s l t hs hcarries h => ?_)
      (pointInvariant_init hstart now startTime) hcarry hrun
    obtain ⟨hiff, hkept⟩ := point_step (configure_configured hconfig) hs (EventDispatcher.step_steps h)
    exact hkept (hiff.mpr hcarries)
  obtain ⟨image, -, hagree, hreplay⟩ := hannounced.known
  constructor
  · rw [hpoints.noPointLost hphase hidle, hreplay]
    exact hagree.value id
  · have houtput := (configure_configured hconfig).output
    have hall : context.output.getAllVariableIDs =
        (FMIVariableType.known ++ [FMIVariableType.fmiTypeUnknown]).flatMap fun type =>
          c.outputMapping.getVariableIDs type := by
      rw [houtput]
      rfl
    rw [imageValue_isSome hannounced.shaped, hall, List.flatMap_append, List.flatMap_singleton, hc.unknown,
      List.append_nil]

/-- A model whose output is one as soon as it has left its start. -/
def leavingModel : FMUModelExchange ℚ :=
  { idleModel with
    getValue := fun s type _ =>
      match type with
      | .fmiTypeReal => (some fun _ => if s = 0 then 0 else 0x3ff0000000000000, s)
      | .fmiTypeInteger => (some fun _ => 0, s)
      | .fmiTypeBoolean => (some fun _ => fmiFalse, s)
      | .fmiTypeString => (some fun _ => [], s)
      | .fmiTypeUnknown => (none, s) }

def leavingConfiguration : OneStepConfiguration :=
  (configure leavingModel .feedThrough unitSteps).toOption.get (by decide +kernel)

def leavingPredictor : OneStepEventPredictor ℚ :=
  (start leavingModel leavingConfiguration 0).toOption.get (by decide +kernel)

theorem delivered_points_replay_outputs_leaving :
    ∃ s, EventDispatcher.Reaches (simulation leavingModel leavingConfiguration 5) 10
        (EventDispatcher.init leavingPredictor 0 0) delayedRun s ∧
      imageValue leavingConfiguration leavingPredictor.outputImage (.fmiTypeReal, 0) = some (.real 0) ∧
      imageValue leavingConfiguration s.predictor.outputImage (.fmiTypeReal, 0) = some (.real 0x3ff0000000000000) ∧
      ValuesAgree (replay (imageValue leavingConfiguration leavingPredictor.outputImage) (deliveredPredictions s)
        (.fmiTypeReal, 0)) (imageValue leavingConfiguration s.predictor.outputImage (.fmiTypeReal, 0)) := by
  obtain ⟨s, hrun, hphase, hidle, hvalue⟩ := LabelledRun.exec_of_any
    (EventDispatcher.step (simulation leavingModel leavingConfiguration 5) 10)
    (EventDispatcher.init leavingPredictor 0 0) delayedRun
    (fun s => s.phase = .predicting ∧ s.predictor.currentPrediction = none ∧
      imageValue leavingConfiguration s.predictor.outputImage (.fmiTypeReal, 0) = some (.real 0x3ff0000000000000))
    (by decide +kernel)
  refine ⟨s, hrun, by decide +kernel, hvalue, ?_⟩
  exact (delivered_points_replay_outputs leavingModel .feedThrough unitSteps leavingConfiguration
    (Fallible.eq_ok_get _) 0 leavingPredictor (Fallible.eq_ok_get _) 5 0 0 10 delayedRun s hrun (by decide +kernel)
    hphase hidle (.fmiTypeReal, 0)).1

end OneStepEventPredictor
end FMITerminalBlock.Model
