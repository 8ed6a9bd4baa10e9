import FMITerminalBlock.Model.DefaultInputs
import FMITerminalBlock.Model.PredictionTimes
import FMITerminalBlock.Network.CompactASN1Subscriber
import FMITerminalBlock.Network.PublishedMessages
import FMITerminalBlock.Timing.CSVDataLogger

/-! What the listeners make of an event that holds an identifier more than once. The data logger
writes the first value, all others keep the last one. -/
namespace FMITerminalBlock
open Base Timing Model Network Fallible

/-- The variable that is written into the column of an identifier. -/
def Timing.CSVDataLogger.column (l : CSVDataLogger) (vars : List Variable) (id : PortID) : Option Variable :=
  if id ∈ l.header then CSVDataLogger.findVariable id vars else none

/-- The logged values are the ones another listener has stored. -/
def Agrees (l : CSVDataLogger) (vars : List Variable) (stored : PortID → Value → Prop) : Prop :=
  ∀ id ∈ vars.map Variable.id, ∀ v, l.column vars id = some v → ∀ x, stored id x → v.value = x

/-- The first and the last variable with the identifier have the same value. -/
def SameEnds (vars : List Variable) (id : PortID) : Prop :=
  (vars.find? fun v => v.id = id).map Variable.value = (vars.reverse.find? fun v => v.id = id).map Variable.value

instance (vars : List Variable) (id : PortID) : Decidable (SameEnds vars id) :=
  inferInstanceAs (Decidable ((vars.find? fun v => v.id = id).map Variable.value = _))

theorem sameEnds_iff {vars : List Variable} {id : PortID} {first last : Variable}
    (hfirst : CSVDataLogger.findVariable id vars = some first) (hlast : lastVariable id vars = some last) :
    SameEnds vars id ↔ first.value = last.value := by
  rw [CSVDataLogger.findVariable] at hfirst
  rw [lastVariable] at hlast
  rw [SameEnds, hfirst, hlast, Option.map_some, Option.map_some, Option.some.injEq]

/-- The listener stores the last value of every identifier that is one of its ports. -/
def StoresLast (vars : List Variable) (ports : PortID → Prop) (stored : PortID → Value → Prop) : Prop :=
  ∀ id x, id ∈ vars.map Variable.id →
    (stored id x ↔ ports id ∧ (lastVariable id vars).map Variable.value = some x)

theorem StoresLast.agrees_iff {l : CSVDataLogger} {vars : List Variable} {ports : PortID → Prop}
    {stored : PortID → Value → Prop} (h : StoresLast vars ports stored) (hcolumns : ∀ id, ports id → id ∈ l.header) :
    Agrees l vars stored ↔ ∀ id ∈ vars.map Variable.id, ports id → SameEnds vars id := by
  refine forall₂_congr fun id hid => ?_
  obtain ⟨last, hlast⟩ := Option.isSome_iff_exists.mp (lastVariable_isSome.mpr hid)
  have hfirst : (CSVDataLogger.findVariable id vars).isSome := by
    simpa [CSVDataLogger.findVariable, List.find?_isSome] using hid
  obtain ⟨first, hfirst⟩ := Option.isSome_iff_exists.mp hfirst
  rw [sameEnds_iff hfirst hlast]
  constructor
  · intro hagree hport
    apply hagree first
    · rw [CSVDataLogger.column, if_pos (hcolumns id hport), hfirst]
    · exact (h id last.value hid).mpr ⟨hport, by rw [hlast]; rfl⟩
  · intro hsame v hv x hx
    obtain ⟨hport, hvalue⟩ := (h id x hid).mp hx
    rw [CSVDataLogger.column, if_pos (hcolumns id hport), hfirst, Option.some.injEq] at hv
    rw [hlast, Option.map_some, Option.some.injEq] at hvalue
    rw [← hv, ← hvalue]
    exact hsame hport

/-! ### Publishers -/

namespace Network.CompactASN1Publisher

/-- The value some publisher holds for an identifier. -/
def Published (publishers : List CompactASN1Publisher) (id : PortID) (x : Value) : Prop :=
  ∃ p ∈ publishers, ∃ out ∈ p.outputVariables, out.id = id ∧ out.value = x

theorem updateOutputVariables_image {vars : List Variable} {p p' : CompactASN1Publisher} {updated : Bool}
    (h : updateOutputVariables vars p = some (updated, p')) :
    p'.outputVariables = p.outputVariables.map (overwrite vars) := by
  induction vars generalizing p updated with
  | nil =>
    cases h
    exact (List.map_id _).symm
  | cons v vars ih =>
    obtain ⟨⟨first, outs⟩, hfirst, h⟩ := Option.bind_eq_some_iff.mp h
    obtain ⟨⟨rest, q⟩, hrest, h⟩ := Option.bind_eq_some_iff.mp h
    cases h
    obtain ⟨-, houts⟩ := updateOutput_eq_some.mp hfirst
    cases houts
    rw [ih hrest]
    exact map_overwrite_cons v vars p.outputVariables

theorem published_storesLast {vars : List Variable} {publishers publishers' : List CompactASN1Publisher}
    (h : List.Forall₂ (fun p p' => ∃ updated, updateOutputVariables vars p = some (updated, p'))
      publishers publishers') :
    StoresLast vars (fun id => ∃ p ∈ publishers, id ∈ p.outputVariables.map Variable.id)
      (Published publishers') := by
  have himages : publishers'.map outputVariables =
      publishers.map fun p => p.outputVariables.map (overwrite vars) := by
    induction h with
    | nil => rfl
    | cons hp _ ih =>
      obtain ⟨updated, hp⟩ := hp
      rw [List.map_cons, List.map_cons, ih, updateOutputVariables_image hp]
  intro id x hid
  obtain ⟨last, hlast⟩ := Option.isSome_iff_exists.mp (lastVariable_isSome.mpr hid)
  have hstored : Published publishers' id x ↔ ∃ outs ∈ publishers'.map outputVariables, ∃ out ∈ outs,
      out.id = id ∧ out.value = x := by simp [Published]
  have hvalue (out : Variable) (hout : out.id = id) : (overwrite vars out).value = last.value := by
    rw [overwrite, hout, hlast]
    rfl
  rw [hstored, himages, hlast, Option.map_some, Option.some.injEq]
  constructor
  · rintro ⟨outs, houts, out', hout', hid', rfl⟩
    obtain ⟨p, hp, rfl⟩ := List.mem_map.mp houts
    obtain ⟨out, hout, rfl⟩ := List.mem_map.mp hout'
    exact ⟨⟨p, hp, List.mem_map.mpr ⟨out, hout, hid'⟩⟩, (hvalue out hid').symm⟩
  · rintro ⟨⟨p, hp, hmem⟩, rfl⟩
    obtain ⟨out, hout, hid'⟩ := List.mem_map.mp hmem
    exact ⟨_, List.mem_map.mpr ⟨p, hp, rfl⟩, overwrite vars out, List.mem_map.mpr ⟨out, hout, rfl⟩, hid',
      hvalue out hid'⟩

end Network.CompactASN1Publisher

/-! ### Predictors -/

namespace Model.EventPredictor
variable {σ : Type} {M : IncrementalFMU σ} {c : PredictorConfiguration} {p : EventPredictor σ}

/-- The image has one value for each input. -/
def Fits (c : PredictorConfiguration) (p : EventPredictor σ) : Prop :=
  ∀ type, (p.inputImage type).length = (c.inputIDs type).length

/-- The image that `init` makes fits. -/
theorem fits_init {translate : Translator} {image : (type : FMIVariableType) → List (Carrier type)}
    (h : defineInputs translate c.context.config c.context.input = .ok image) (solver : σ) (start : ℚ) :
    Fits c (init solver start image) := by
  have hlength {type : FMIVariableType} {defaultValue : Carrier type} {values : List (Carrier type)}
      (hvalues : defineInputsOf translate c.context.config c.context.input type defaultValue = .ok values) :
      values.length = (c.inputIDs type).length := by
    obtain ⟨first, last, hmapped⟩ := c.context.input_mapped
    rw [defineInputsOf, mapM_eq_ok] at hvalues
    exact hvalues.length_eq.symm.trans (hmapped.built.length_ids type).symm
  obtain ⟨real, hreal, h⟩ := bind_eq_ok.mp h
  obtain ⟨integer, hinteger, h⟩ := bind_eq_ok.mp h
  obtain ⟨boolean, hboolean, h⟩ := bind_eq_ok.mp h
  obtain ⟨string, hstring, h⟩ := bind_eq_ok.mp h
  split at h
  · cases h
  · cases h
    intro type
    cases type with
    | fmiTypeReal => exact hlength hreal
    | fmiTypeInteger => exact hlength hinteger
    | fmiTypeBoolean => exact hlength hboolean
    | fmiTypeString => exact hlength hstring
    | fmiTypeUnknown => rw [inputIDs_unknown]; rfl

/-- The value the image holds for an identifier. -/
def Stored (c : PredictorConfiguration) (p : EventPredictor σ) (id : PortID) (x : Value) : Prop :=
  ∃ type, ∃ i : Nat, ∃ y, (c.inputIDs type)[i]? = some id ∧ (p.inputImage type)[i]? = some y ∧ x = .of type y

/-- The positions of an image of the ports hold the last values. -/
def ImageOf (type : FMIVariableType) (ports : List PortID) (vars : List Variable)
    (image : List (Carrier type)) : Prop :=
  ∀ (k : Nat) id y v, ports[k]? = some id → image[k]? = some y → lastVariable id vars = some v → v.value = .of type y

/-- The loop over the ports, started at the port with the number `i`, has this port at position `j`. -/
def PortAt (ports : List PortID) (i j : Nat) (id : PortID) : Prop := i ≤ j ∧ ports[j - i]? = some id

theorem portAt_cons {port : PortID} {ports : List PortID} {i j : Nat} {id : PortID} :
    PortAt (port :: ports) i j id ↔ i = j ∧ port = id ∨ PortAt ports (i + 1) j id := by
  rcases lt_trichotomy i j with hlt | rfl | hlt
  · have hnext : j - i = j - (i + 1) + 1 := by omega
    rw [PortAt, PortAt, hnext, List.getElem?_cons_succ]
    simp [hlt.ne, hlt.le, Nat.succ_le_of_lt hlt]
  · simp [PortAt]
  · simp [PortAt, hlt.ne', Nat.not_le_of_lt hlt, Nat.not_le_of_lt (Nat.lt_succ_of_lt hlt)]

/-- The loop writes the value to the positions of the identifier and to no others. -/
theorem updateInput_image {type : FMIVariableType} {v : Variable} {i : Nat} {ports : List PortID}
    {r r' : Bool × List (Carrier type)} (h : updateInput type v i ports r = .ok r') :
    r'.2.length = r.2.length ∧ ∀ j : Nat,
      (PortAt ports i j v.id → ∃ y, v.value = .of type y ∧ r'.2[j]? = r.2[j]?.map fun _ => y) ∧
      (¬PortAt ports i j v.id → r'.2[j]? = r.2[j]?) := by
  induction ports generalizing i r with
  | nil =>
    cases h
    exact ⟨rfl, fun j => ⟨fun hport => by simp [PortAt] at hport, fun _ => rfl⟩⟩
  | cons port ports ih =>
    obtain ⟨found, image⟩ := r
    rw [updateInput] at h
    simp only [portAt_cons]
    split at h
    · rename_i hid
      split at h
      · rename_i y hy
        obtain ⟨hlength, hpositions⟩ := ih h
        refine ⟨hlength.trans List.length_set, fun j => ⟨fun hport => ?_, fun hport => ?_⟩⟩
        · by_cases hlater : PortAt ports (i + 1) j v.id
          · obtain ⟨z, hz, hj⟩ := (hpositions j).1 hlater
            have hij : i ≠ j := (Nat.lt_of_succ_le hlater.1).ne
            refine ⟨z, hz, ?_⟩
            rw [hj, List.getElem?_set_ne hij]
          · obtain ⟨rfl, -⟩ := hport.resolve_right hlater
            refine ⟨y, Value.anyCast_eq_some.mp hy, ?_⟩
            rw [(hpositions i).2 hlater]
            exact List.getElem?_set_self'
        · rw [not_or] at hport
          have hij : i ≠ j := fun hij => hport.1 ⟨hij, hid.symm⟩
          rw [(hpositions j).2 hport.2]
          exact List.getElem?_set_ne hij
      · cases h
    · rename_i hid
      obtain ⟨hlength, hpositions⟩ := ih h
      refine ⟨hlength, fun j => ⟨fun hport => ?_, fun hport => ?_⟩⟩
      · exact (hpositions j).1 (hport.resolve_left fun hhead => hid hhead.2.symm)
      · exact (hpositions j).2 fun hlater => hport (.inr hlater)

/-- All variables of an event, one after the other. -/
theorem updateInputs_image {type : FMIVariableType} {ports : List PortID} (vars : List Variable)
    (start : Bool × List (Carrier type)) :
    Outcome (vars.foldlM (fun r v => updateInput type v 0 ports r) start)
      (fun r => r.2.length = start.2.length ∧ ImageOf type ports vars r.2) (fun _ => True) := by
  refine Outcome.foldlM (fun (past : List Variable) (r : Bool × List (Carrier type)) =>
    r.2.length = start.2.length ∧ ImageOf type ports past r.2) ?_ ⟨rfl, fun _ _ _ _ _ _ hlast => nomatch hlast⟩
  rintro past r v ⟨hlength, himage⟩ _
  cases hupdate : updateInput type v 0 ports r with
  | error fault => exact .error trivial
  | ok r' =>
    obtain ⟨hlength', hpositions⟩ := updateInput_image hupdate
    refine .ok ⟨hlength'.trans hlength, fun k id y w hid hy hlast => ?_⟩
    rw [lastVariable_append] at hlast
    by_cases hv : v.id = id
    · rw [lastVariable_cons_of_eq hv, lastVariable] at hlast
      cases hlast
      obtain ⟨z, hz, hk⟩ := (hpositions k).1 ⟨Nat.zero_le k, hv ▸ hid⟩
      rw [hk] at hy
      obtain ⟨_, -, rfl⟩ := Option.map_eq_some_iff.mp hy
      exact hz
    · rw [lastVariable_cons_of_ne hv, lastVariable] at hlast
      rw [(hpositions k).2 fun hport => hv (Option.some.inj (hport.2.symm.trans hid))] at hy
      exact himage k id y w hid hy hlast

theorem updateInputImageOf_image {ev : PredictorEvent} {vars : List Variable} (hopened : Opened M p ev vars)
    (type : FMIVariableType) :
    Outcome (updateInputImageOf M c ev p type)
      (fun r => ∃ image reads, r.2 = p.observed (Function.update p.inputImage type image) reads ∧
        image.length = (p.inputImage type).length ∧ ImageOf type (c.inputIDs type) vars image)
      (fun _ => True) := by
  rw [updateInputImageOf, hopened.getVariables]
  apply (updateInputs_image vars _).bind
  intro r hr
  exact .ok ⟨r.2, _, rfl, hr⟩

/-- The images of some types have been brought up to date with the event. -/
structure UpToDate (M : IncrementalFMU σ) (c : PredictorConfiguration) (ev : PredictorEvent) (vars : List Variable)
    (types : List FMIVariableType) (p : EventPredictor σ) : Prop where
  opened : Opened M p ev vars
  fits : Fits c p
  images : ∀ type ∈ types, ImageOf type (c.inputIDs type) vars (p.inputImage type)

/-- Every type is handled by a loop of its own, which leaves the other images alone. -/
theorem UpToDate.updateInputImageOf {ev : PredictorEvent} {vars : List Variable} {types : List FMIVariableType}
    (h : UpToDate M c ev vars types p) (type : FMIVariableType) :
    Outcome (updateInputImageOf M c ev p type) (fun r => UpToDate M c ev vars (types ++ [type]) r.2)
      (fun _ => True) := by
  apply (updateInputImageOf_image h.opened type).mono
  rintro ⟨found, q⟩ ⟨image, reads, hq, hlength, himage⟩
  dsimp only at hq ⊢
  have hinputs : q.inputImage = Function.update p.inputImage type image := by rw [hq]; rfl
  refine ⟨hq ▸ h.opened.observed _ _, fun type' => ?_, fun type' htype' => ?_⟩
  · by_cases heq : type' = type
    · subst heq
      rw [hinputs, Function.update_self]
      exact hlength.trans (h.fits type')
    · rw [hinputs, Function.update_of_ne heq]
      exact h.fits type'
  · by_cases heq : type' = type
    · subst heq
      rw [hinputs, Function.update_self]
      exact himage
    · rw [hinputs, Function.update_of_ne heq]
      exact h.images type' ((List.mem_append.mp htype').resolve_right fun h => heq (List.mem_singleton.mp h))

theorem updateInputImage_upToDate {ev : PredictorEvent} {vars : List Variable} (hopened : Opened M p ev vars)
    (hfits : Fits c p) :
    Outcome (updateInputImage M c p ev) (fun r => UpToDate M c ev vars FMIVariableType.known r.2)
      (fun _ => True) := by
  have hstart : UpToDate M c ev vars [] p := ⟨hopened, hfits, fun type htype => absurd htype List.not_mem_nil⟩
  apply Outcome.foldlM (fun types (r : Bool × EventPredictor σ) => UpToDate M c ev vars types r.2) _ hstart
  intro past r type hr _
  exact (hr.updateInputImageOf type).map fun next hnext => hnext

theorem Fits.of_image {p' : EventPredictor σ} (h : Fits c p) (himage : p'.inputImage = p.inputImage) : Fits c p' :=
  fun type => himage ▸ h type

theorem fits_updateInputImage (h : Fits c p) (ev : PredictorEvent) :
    Outcome (updateInputImage M c p ev) (fun r => Fits c r.2) (fun _ => True) := by
  cases hget : getVariables M c p ev with
  | error fault =>
    rw [updateInputImage_of_error hget]
    exact .error trivial
  | ok r =>
    obtain ⟨hopened, hkept⟩ := (getVariables_opened ev).of_ok hget
    rw [updateInputImage_of_getVariables hget hopened]
    exact (updateInputImage_upToDate hopened (h.of_image hkept)).mono fun _ hr => hr.fits

theorem fits_readAll (h : Fits c p) (ev : PredictorEvent) (n : Nat) :
    Outcome (readAll M c ev n p) (Fits c) (fun _ => True) := by
  induction n generalizing p with
  | zero => exact .ok h
  | succ n ih =>
    have hread : Outcome (getVariables M c p ev) (fun r => r.2.inputImage = p.inputImage) (fun _ => True) :=
      ((getVariables_opened ev).mono fun _ hr => hr.2).excuse fun _ _ => trivial
    apply hread.bind
    rintro ⟨vars, q⟩ hq
    exact ih (h.of_image hq)

theorem fits_eventTriggered (h : Fits c p) (ev : PredictorEvent) :
    Outcome (eventTriggered M c p ev) (Fits c) (fun _ => True) := by
  apply (fits_updateInputImage h ev).bind
  rintro ⟨imageUpdated, q⟩ hq
  dsimp only
  split_ifs
  · exact .ok hq
  · exact .error trivial
  · exact .ok hq

theorem fits_distribute (h : Fits c p) (readers : Nat) (ev : PredictorEvent) :
    Outcome (distribute M c readers p ev) (Fits c) (fun _ => True) :=
  (fits_eventTriggered (p := { p with reads := [] }) h ev).bind fun _ hq => fits_readAll hq ev readers

theorem fits_predictNext (h : Fits c p) : Outcome (predictNext M c p) (fun r => Fits c r.2) (fun _ => True) := by
  have hkept : Outcome (if !(c.assumeDirectDependency && p.directOutputPending) then predictNextFMIEvent M p
      else predictNextDirectDependency M c p) (fun r => Fits c r.2) (fun _ => True) := by
    split
    · rw [predictNextFMIEvent]
      split
      · exact .error trivial
      · exact .ok h
    · rw [predictNextDirectDependency]
      cases fetchOutputs M c p.solver with
      | error fault => exact .error trivial
      | ok vars => exact .ok h
  exact hkept.map fun _ hr => hr

/-- In every state of a run the image has one value for each input. -/
theorem fits_reachable {translate : Translator} {image : (type : FMIVariableType) → List (Carrier type)}
    (hinit : defineInputs translate c.context.config c.context.input = .ok image) {readers : Nat} {theEnd start : ℚ}
    {solver : σ} {now : Int} {labels : List (Label StaticEvent)}
    {s : EventDispatcher (EventPredictor σ) PredictorEvent PredictorFault}
    (h : EventDispatcher.Reaches (simulation M c readers) theEnd
      (EventDispatcher.init (init solver start image) now start) labels s) : Fits c s.predictor := by
  apply h.invariant
  · exact fits_init hinit solver start
  intro s l t hs hstep
  cases hstep with
  | predict ev predictor phase next => exact (fits_predictNext hs).of_ok next
  | distribute p entry predictor phase done => exact (fits_distribute hs readers _).of_ok done
  | _ => exact hs

theorem stored_storesLast {ev : PredictorEvent} {vars : List Variable} {q p' : EventPredictor σ} {found : Bool}
    (hfits : Fits c p) (hget : getVariables M c p ev = .ok (vars, q))
    (h : updateInputImage M c p ev = .ok (found, p')) :
    StoresLast vars (· ∈ c.context.input.getAllVariableIDs) (Stored c p') := by
  obtain ⟨hopened, hkept⟩ := (getVariables_opened ev).of_ok hget
  rw [updateInputImage_of_getVariables hget hopened] at h
  have hfits' : Fits c q := fun type => hkept ▸ hfits type
  obtain ⟨-, hfits'', himages⟩ := (updateInputImage_upToDate hopened hfits').of_ok h
  intro id x hid
  obtain ⟨last, hlast⟩ := Option.isSome_iff_exists.mp (lastVariable_isSome.mpr hid)
  rw [hlast, Option.map_some, Option.some.injEq]
  constructor
  · rintro ⟨type, i, y, hi, hy, rfl⟩
    have hmem : id ∈ c.context.input.getAllVariableIDs :=
      List.mem_flatMap.mpr ⟨type, FMIVariableType.mem_all type, List.mem_of_getElem? hi⟩
    refine ⟨hmem, ?_⟩
    cases type with
    | fmiTypeUnknown => exact nomatch y
    | _ => exact himages _ (by decide) i id y last hi hy hlast
  · rintro ⟨hmem, rfl⟩
    obtain ⟨type, htype, hid⟩ := (mem_inputs c id).mp hmem
    obtain ⟨i, hi⟩ := List.mem_iff_getElem?.mp hid
    obtain ⟨y, hy⟩ : ∃ y, (p'.inputImage type)[i]? = some y :=
      ⟨_, List.getElem?_eq_getElem (hfits'' type ▸ (List.getElem?_eq_some_iff.mp hi).1)⟩
    exact ⟨type, i, y, hi, hy, himages type htype i id y last hi hy hlast⟩

end Model.EventPredictor

namespace Model.OneStepEventPredictor
variable {σ : Type} {M : FMUModelExchange σ} {c : OneStepConfiguration}

/-- The last value that is set for an identifier: the variables before it lead to the state in which
the model is called, and no later variable has the identifier. -/
def SetsLast (M : FMUModelExchange σ) (c : OneStepConfiguration) (vars : List Variable) (s : σ) (id : PortID)
    (x : Value) : Prop :=
  ∃ before v after ref updated s₁ s₂, vars = before ++ v :: after ∧ v.id = id ∧ v.value = x ∧
    (∀ w ∈ after, w.id ≠ id) ∧ c.inputValueReference.lookup id = some ref ∧
    updateInputVariables M c before s = .ok (updated, s₁) ∧ M.setValue s₁ ref x = (true, s₂)

theorem updateInputVariables_append {before after : List Variable} {s : σ} {r : Bool × σ}
    (h : updateInputVariables M c (before ++ after) s = .ok r) :
    ∃ r₁ r₂, updateInputVariables M c before s = .ok r₁ ∧ updateInputVariables M c after r₁.2 = .ok r₂ := by
  induction before generalizing s r with
  | nil => exact ⟨(false, s), r, rfl, h⟩
  | cons v before ih =>
    obtain ⟨⟨first, s₁⟩, h₁, h⟩ := Fallible.bind_eq_ok.mp h
    obtain ⟨rest, hrest, -⟩ := Fallible.bind_eq_ok.mp h
    obtain ⟨r₁, r₂, hbefore, hafter⟩ := ih hrest
    refine ⟨(first || r₁.1, r₁.2), r₂, ?_, hafter⟩
    simp only [updateInputVariables, h₁, bind, Except.bind, hbefore, pure, Except.pure]

theorem updateInputVariable_sets {v : Variable} {s : σ} {r : Bool × σ} {ref : Nat}
    (h : updateInputVariable M c s v = .ok r) (href : c.inputValueReference.lookup v.id = some ref) :
    M.setValue s ref v.value = (true, r.2) := by
  rw [updateInputVariable, href] at h
  split at h
  · cases h
  · dsimp only at h
    split at h
    · rename_i heq
      cases h
      exact heq
    · cases h

theorem setsLast_storesLast {context : ApplicationContext.Settled} (hc : Configured context c)
    {vars : List Variable} {s : σ} {r : Bool × σ} (h : updateInputVariables M c vars s = .ok r) :
    StoresLast vars (· ∈ context.input.getAllVariableIDs) (SetsLast M c vars s) := by
  intro id x hid
  obtain ⟨last, hlast⟩ := Option.isSome_iff_exists.mp (lastVariable_isSome.mpr hid)
  constructor
  · rintro ⟨before, v, after, ref, updated, s₁, s₂, rfl, hv, hx, hafter, href, -, -⟩
    refine ⟨(hc.input id).mp (by rw [href]; rfl), ?_⟩
    have hnone : lastVariable id after = none := by
      rw [← Option.not_isSome_iff_eq_none, lastVariable_isSome, List.mem_map]
      rintro ⟨w, hw, hwid⟩
      exact hafter w hw hwid
    rw [lastVariable_append, lastVariable_cons_of_eq hv, hnone, Option.none_or, Option.some_or, Option.map_some, hx]
  · rintro ⟨hmem, hx⟩
    rw [hlast, Option.map_some, Option.some.injEq] at hx
    obtain ⟨ref, href⟩ := Option.isSome_iff_exists.mp ((hc.input id).mpr hmem)
    obtain ⟨hpred, after, before, hsplit, hafter⟩ := List.find?_eq_some_iff_append.mp hlast
    have hlastid : last.id = id := of_decide_eq_true hpred
    have hvars : vars = before.reverse ++ last :: after.reverse := by
      rw [← List.reverse_reverse vars, hsplit]
      simp
    obtain ⟨r₁, r₂, hbefore, hrest⟩ := updateInputVariables_append (hvars ▸ h)
    obtain ⟨next, hnext, -⟩ := Fallible.bind_eq_ok.mp hrest
    have hset := updateInputVariable_sets hnext (hlastid ▸ href)
    refine ⟨before.reverse, last, after.reverse, ref, r₁.1, r₁.2, next.2, hvars, hlastid, hx, fun w hw => ?_, href,
      hbefore, hx ▸ hset⟩
    simpa using hafter w (List.mem_reverse.mp hw)

end Model.OneStepEventPredictor

/-! ### All listeners -/

/-- The identifier belongs to an input or to a port of one of the publishers. -/
def Listened (context : ApplicationContext.Settled) (publishers : List CompactASN1Publisher) (id : PortID) : Prop :=
  id ∈ context.input.getAllVariableIDs ∨ ∃ p ∈ publishers, id ∈ p.outputVariables.map Variable.id

/-- Whichever predictor is used, all listeners agree on an event exactly if the first and the last
value of every identifier that is listened to are the same. -/
theorem listeners_agree_iff_same_ends (context : ApplicationContext.Settled) (vars : List Variable)
    (publishers publishers' : List CompactASN1Publisher)
    (hserve : ∀ p ∈ publishers, ∃ channel ∈ context.output.channels, CompactASN1Publisher.Serves channel p)
    (hpublish : List.Forall₂ (fun p p' => ∃ updated,
      CompactASN1Publisher.updateOutputVariables vars p = some (updated, p')) publishers publishers') :
    (∀ (σ : Type) (M : IncrementalFMU σ) (c : PredictorConfiguration) (p q p' : EventPredictor σ) ev found,
      c.context = context → EventPredictor.Fits c p → EventPredictor.getVariables M c p ev = .ok (vars, q) →
      EventPredictor.updateInputImage M c p ev = .ok (found, p') →
      (Agrees (.initHeader context.input context.output) vars (EventPredictor.Stored c p') ∧
        Agrees (.initHeader context.input context.output) vars (CompactASN1Publisher.Published publishers') ↔
        ∀ id ∈ vars.map Variable.id, Listened context publishers id → SameEnds vars id)) ∧
    (∀ (σ : Type) (M : FMUModelExchange σ) (properties : SimulationProperties) (c : OneStepConfiguration) s r,
      OneStepEventPredictor.configure M context properties = .ok c →
      OneStepEventPredictor.updateInputVariables M c vars s = .ok r →
      (Agrees (.initHeader context.input context.output) vars (OneStepEventPredictor.SetsLast M c vars s) ∧
        Agrees (.initHeader context.input context.output) vars (CompactASN1Publisher.Published publishers') ↔
        ∀ id ∈ vars.map Variable.id, Listened context publishers id → SameEnds vars id)) := by
  have hinputs : ∀ id ∈ context.input.getAllVariableIDs,
      id ∈ (CSVDataLogger.initHeader context.input context.output).header :=
    fun id hid => List.mem_append_left _ hid
  have houtputs : ∀ id, (∃ p ∈ publishers, id ∈ p.outputVariables.map Variable.id) →
      id ∈ (CSVDataLogger.initHeader context.input context.output).header := by
    rintro id ⟨p, hp, hid⟩
    obtain ⟨channel, hchannel, hserves⟩ := hserve p hp
    exact List.mem_append_right _ (context.channel_port_mem hchannel (hserves ▸ hid))
  have hpublished := (CompactASN1Publisher.published_storesLast hpublish).agrees_iff houtputs
  have hboth (stored : PortID → Value → Prop)
      (hstored : StoresLast vars (· ∈ context.input.getAllVariableIDs) stored) :
      Agrees (.initHeader context.input context.output) vars stored ∧
        Agrees (.initHeader context.input context.output) vars (CompactASN1Publisher.Published publishers') ↔
        ∀ id ∈ vars.map Variable.id, Listened context publishers id → SameEnds vars id := by
    rw [hstored.agrees_iff hinputs, hpublished, ← forall₂_and]
    exact forall₂_congr fun id _ => or_imp.symm
  refine ⟨?_, ?_⟩
  · rintro σ M c p q p' ev found rfl hfits hget h
    exact hboth _ (EventPredictor.stored_storesLast hfits hget h)
  · intro σ M properties c s r hconfigure h
    exact hboth _ (OneStepEventPredictor.setsLast_storesLast
      (OneStepEventPredictor.configure_configured hconfigure) h)

/-- The input `u` on two ports of one channel, and the output `y` on two ports of another one. -/
def twiceMapped : ApplicationContext.Settled :=
  .ofConfig (.node [] [
      (ApplicationContext.propIn, .node [] [(ascii "0", .node [] [
        (ascii "0", .node (ascii "u") [(ascii "type", .node (ascii "0") [])]),
        (ascii "1", .node (ascii "u") [(ascii "type", .node (ascii "0") [])])])]),
      (ApplicationContext.propOut, .node [] [(ascii "0", .node [] [
        (ascii "0", .node (ascii "y") [(ascii "type", .node (ascii "0") [])]),
        (ascii "1", .node (ascii "y") [(ascii "type", .node (ascii "0") [])])])])])
    [.output, .input] (by decide +kernel) (by decide +kernel)

def twiceConfiguration : OneStepConfiguration :=
  (OneStepEventPredictor.configure OneStepEventPredictor.idleModel twiceMapped
    OneStepEventPredictor.unitSteps).toOption.get (by decide +kernel)

/-- An event with two values for `u`. -/
def twice (first last : BitVec 64) : List Variable :=
  [⟨(.fmiTypeReal, 1), .real first⟩, ⟨(.fmiTypeReal, 1), .real last⟩]

/-- An event with two equal values for `u` and two for `y`. -/
def equalValues : List Variable := twice 1 1 ++ [⟨(.fmiTypeReal, 0), .real 2⟩, ⟨(.fmiTypeReal, 0), .real 2⟩]

def twiceChannel : TransmissionChannel := twiceMapped.output.channels.head (by decide +kernel)

def twicePublisher : CompactASN1Publisher := (CompactASN1Publisher.init {} twiceChannel).1

def twicePublished : Bool × CompactASN1Publisher :=
  (CompactASN1Publisher.updateOutputVariables equalValues twicePublisher).get (by decide +kernel)

def twicePredictorConfiguration : PredictorConfiguration where
  context := twiceMapped
  assumeDirectDependency := true
  known_outputs := by decide +kernel
  known_inputs := by decide +kernel

/-- The image has the one value of `u`. -/
def twicePredictor : EventPredictor Unit := EventPredictor.init () 0 fun
  | .fmiTypeReal => [0]
  | _ => []

def twiceUpdated : Bool × EventPredictor Unit :=
  (EventPredictor.updateInputImage EventPredictor.steadyModel twicePredictorConfiguration twicePredictor
    (.staticEvent ⟨0, equalValues⟩)).toOption.get (by decide +kernel)

theorem listeners_agree_on_equal_values :
    Agrees (.initHeader twiceMapped.input twiceMapped.output) equalValues
        (EventPredictor.Stored twicePredictorConfiguration twiceUpdated.2) ∧
      Agrees (.initHeader twiceMapped.input twiceMapped.output) equalValues
        (OneStepEventPredictor.SetsLast OneStepEventPredictor.idleModel twiceConfiguration equalValues 0) ∧
      Agrees (.initHeader twiceMapped.input twiceMapped.output) equalValues
        (CompactASN1Publisher.Published [twicePublished.2]) := by
  have hserve : ∀ p ∈ [twicePublisher], ∃ channel ∈ twiceMapped.output.channels,
      CompactASN1Publisher.Serves channel p :=
    List.forall_mem_singleton.mpr ⟨twiceChannel, List.head_mem _, by rw [CompactASN1Publisher.Serves]; decide +kernel⟩
  have hpublish : CompactASN1Publisher.updateOutputVariables equalValues twicePublisher = some twicePublished :=
    (Option.some_get _).symm
  obtain ⟨hmultistep, hsinglestep⟩ := listeners_agree_iff_same_ends twiceMapped equalValues [twicePublisher]
    [twicePublished.2] hserve (.cons ⟨twicePublished.1, hpublish⟩ .nil)
  have hfits : EventPredictor.Fits twicePredictorConfiguration twicePredictor := by
    intro type
    cases type <;> decide +kernel
  have hsame : ∀ id ∈ equalValues.map Variable.id, Listened twiceMapped [twicePublisher] id →
      SameEnds equalValues id := by
    rintro id hid -
    have hid : id = (.fmiTypeReal, 1) ∨ id = (.fmiTypeReal, 0) := by simpa [equalValues, twice] using hid
    rcases hid with rfl | rfl <;> decide
  have hupdated : EventPredictor.updateInputImage EventPredictor.steadyModel twicePredictorConfiguration twicePredictor
      (.staticEvent ⟨0, equalValues⟩) = .ok twiceUpdated := eq_ok_get _
  obtain ⟨hstored, hpublished⟩ := (hmultistep Unit EventPredictor.steadyModel twicePredictorConfiguration
    twicePredictor twicePredictor twiceUpdated.2 (.staticEvent ⟨0, equalValues⟩) twiceUpdated.1 rfl hfits rfl
    hupdated).mpr hsame
  refine ⟨hstored, ?_, hpublished⟩
  exact ((hsinglestep ℚ OneStepEventPredictor.idleModel OneStepEventPredictor.unitSteps twiceConfiguration 0
    (true, 0) (eq_ok_get _) (by decide +kernel)).mpr hsame).1

/-- The subscriber of the channel makes such an event of two different values that it receives. The
first one is logged, the second one is set last. -/
theorem listeners_disagree_on_repeated_port :
    ((CompactASN1Subscriber.commitAll .exact { portIDs := twiceMapped.input.channels.flatMap (·.portIDs) }
      [CompactASN1Publisher.encodeLREALValue 1 ++ CompactASN1Publisher.encodeLREALValue 2]).map
        fun s => s.pushed.map (·.event.var)) = some [twice 1 2] ∧
    OneStepEventPredictor.configure OneStepEventPredictor.idleModel twiceMapped OneStepEventPredictor.unitSteps =
      .ok twiceConfiguration ∧
    OneStepEventPredictor.updateInputVariables OneStepEventPredictor.idleModel twiceConfiguration (twice 1 2) 0 =
      .ok (true, 0) ∧
    ¬Agrees (.initHeader twiceMapped.input twiceMapped.output) (twice 1 2)
      (OneStepEventPredictor.SetsLast OneStepEventPredictor.idleModel twiceConfiguration (twice 1 2) 0) := by
  refine ⟨by decide +kernel, eq_ok_get _, by decide +kernel, fun hagree => ?_⟩
  have hset : OneStepEventPredictor.SetsLast OneStepEventPredictor.idleModel twiceConfiguration (twice 1 2) 0
      (.fmiTypeReal, 1) (.real 2) :=
    ⟨[⟨(.fmiTypeReal, 1), .real 1⟩], ⟨(.fmiTypeReal, 1), .real 2⟩, [], 0, true, 0, 0, rfl, rfl, rfl,
      fun _ h => absurd h List.not_mem_nil, by decide +kernel, by decide +kernel, by decide +kernel⟩
  have hcolumn : CSVDataLogger.column (.initHeader twiceMapped.input twiceMapped.output) (twice 1 2)
      (.fmiTypeReal, 1) = some ⟨(.fmiTypeReal, 1), .real 1⟩ := by decide +kernel
  have hvalue := hagree (.fmiTypeReal, 1) (by decide) _ hcolumn _ hset
  exact absurd hvalue (by decide)

end FMITerminalBlock
