import FMITerminalBlock.Network.PortSeparation

/-! The messages of a publisher over a whole run. The image of a channel holds the last value of
every port, whichever event brought it. -/
namespace FMITerminalBlock.Network.CompactASN1Publisher
open Base Timing ASN1Commons

/-- The messages sent for the events of a run, one entry for each event. -/
def publish (toFloat : BitVec 64 → BitVec 32) : CompactASN1Publisher → List (List Variable) →
    Option (List (Option (List UInt8)))
  | _, [] => some []
  | p, vars :: events => do
    let (message, p) ← p.eventTriggered toFloat vars
    let messages ← publish toFloat p events
    some (message :: messages)

/-- The value of a port after all variables of a history: the last one, or the initial value. -/
def portValue (history : List Variable) (id : PortID) : Option Value :=
  match lastVariable id history with
  | some v => some v.value
  | none => initialValue id.1

/-- The value of a port in the encoding that is configured for it. -/
def encodePort (toFloat : BitVec 64 → BitVec 32) (history : List Variable) (port : PortID × Ptree) :
    Option (List UInt8) := do
  let type ← (outputType port.1 port.2).toOption
  let value ← portValue history port.1
  encodeValue toFloat type value

/-- What is to be sent after a history, port by port in the order of the configuration. -/
def expectedMessage (toFloat : BitVec 64 → BitVec 32) (channel : TransmissionChannel) (history : List Variable) :
    Option (List UInt8) :=
  ((channel.portIDs.zip channel.portConfig).mapM (encodePort toFloat history)).map List.flatten

/-- No event makes the publisher fail. A message is sent exactly for the events with a variable of the
channel, and it holds the last value of every port. -/
def HoldsLastValues (toFloat : BitVec 64 → BitVec 32) (channel : TransmissionChannel) (p : CompactASN1Publisher)
    (events : List (List Variable)) : Prop :=
  ∃ messages, publish toFloat p events = some messages ∧ messages.length = events.length ∧
    ∀ k vars, events[k]? = some vars →
      ∃ message, messages[k]? = some message ∧ (message.isSome ↔ ∃ v ∈ vars, v.id ∈ channel.portIDs) ∧
        ∀ bytes, message = some bytes →
          expectedMessage toFloat channel (events.take (k + 1)).flatten = some bytes

/-- The configuration of a port asks for a 32 bit number. -/
def RequestsREAL (portConfig : Ptree) : Prop :=
  (portConfig.getChildOptional propEncodeType).map Ptree.data = some (ascii "REAL")

def UsesREAL (channel : TransmissionChannel) : Prop := ∃ portConfig ∈ channel.portConfig, RequestsREAL portConfig

instance : DecidablePred RequestsREAL := fun portConfig => inferInstanceAs
  (Decidable ((portConfig.getChildOptional propEncodeType).map Ptree.data = some (ascii "REAL")))

instance : DecidablePred UsesREAL := fun channel => inferInstanceAs
  (Decidable (∃ portConfig ∈ channel.portConfig, RequestsREAL portConfig))

/-! ### The image -/

/-- The output with the last value an event holds for it. -/
def overwrite (vars : List Variable) (out : Variable) : Variable :=
  { out with value := ((lastVariable out.id vars).map Variable.value).getD out.value }

/-- A later variable wins over an earlier one. -/
theorem overwrite_cons (v : Variable) (vars : List Variable) (out : Variable) :
    overwrite vars (store v out) = overwrite (v :: vars) out := by
  rw [store]
  by_cases hid : v.id = out.id
  · rw [if_pos hid, overwrite, overwrite, lastVariable_cons_of_eq hid]
    cases lastVariable out.id vars <;> rfl
  · rw [if_neg hid, overwrite, overwrite, lastVariable_cons_of_ne hid]

theorem map_overwrite_cons (v : Variable) (vars outs : List Variable) :
    (outs.map (store v)).map (overwrite vars) = outs.map (overwrite (v :: vars)) := by
  rw [List.map_map]
  exact List.map_congr_left fun out _ => overwrite_cons v vars out

theorem updateOutputVariables_eq {vars : List Variable} (hvalid : ∀ v ∈ vars, v.isValid = true)
    (p : CompactASN1Publisher) :
    updateOutputVariables vars p =
      some (decide (∃ v ∈ vars, v.id ∈ p.outputVariables.map Variable.id),
        { p with outputVariables := p.outputVariables.map (overwrite vars) }) := by
  induction vars generalizing p with
  | nil =>
    have hkept : overwrite [] = id := rfl
    simp [updateOutputVariables, hkept]
  | cons v vars ih =>
    have hrest := ih fun w hw => hvalid w (List.mem_cons_of_mem _ hw)
    have hfirst : updateOutput v p.outputVariables = some (decide (v.id ∈ p.outputVariables.map Variable.id),
        p.outputVariables.map (store v)) := updateOutput_eq_some.mpr ⟨fun _ => hvalid v List.mem_cons_self, rfl⟩
    simp only [updateOutputVariables, hfirst, Option.bind_eq_bind, Option.bind_some, hrest,
      updateOutput_ids hfirst, map_overwrite_cons, List.exists_mem_cons_iff, Bool.decide_or]

/-! ### The encoding -/

theorem outputType_castable {id : PortID} {portConfig : Ptree} {type : DataType}
    (h : outputType id portConfig = .ok type) : castable id.1 type = true := by
  obtain ⟨fmiType, number⟩ := id
  rw [outputType] at h
  split at h
  · cases h
  · rename_i default hdefault _
    cases h
    cases fmiType <;> cases hdefault <;> rfl
  · split at h
    · cases h
    · split at h
      · rename_i hcastable
        cases h
        exact hcastable
      · cases h

theorem lookup_eq_real_iff {name : StdString} : dataTypeNames.lookup name = some .real ↔ name = ascii "REAL" := by
  constructor
  · intro h
    simp only [dataTypeNames, List.lookup_cons, List.lookup_nil] at h
    split at h
    · exact beq_iff_eq.mp ‹_›
    · repeat' split at h
      all_goals cases h
  · rintro rfl
    rfl

/-- No default is a 32 bit number. -/
theorem outputType_eq_real_iff {id : PortID} {portConfig : Ptree} {type : DataType}
    (h : outputType id portConfig = .ok type) : type = .real ↔ RequestsREAL portConfig := by
  rw [RequestsREAL]
  rw [outputType] at h
  split at h
  · cases h
  · rename_i default hdefault hnone
    cases h
    rw [hnone]
    obtain ⟨fmiType, number⟩ := id
    refine iff_of_false ?_ nofun
    rintro rfl
    cases fmiType <;> cases hdefault
  · rename_i encodeType hencode
    rw [hencode, Option.map_some, Option.some.injEq]
    split at h
    · cases h
    · rename_i named hnamed
      have htype : named = type := by
        split at h
        · cases h
          rfl
        · cases h
      rw [← htype, ← lookup_eq_real_iff, hnamed, Option.some.injEq]

theorem encodeREALValue_eq_none (toFloat : BitVec 64 → BitVec 32) (bits : BitVec 64) :
    encodeREALValue toFloat bits = none := by
  rw [encodeREALValue, memcpy, if_neg (by decide), Option.map_none]

theorem encodeValue_real (toFloat : BitVec 64 → BitVec 32) (value : Value) :
    encodeValue toFloat .real value = none := by
  cases value with
  | real bits => exact encodeREALValue_eq_none toFloat bits
  | _ => rfl

theorem encodeValue_castable (toFloat : BitVec 64 → BitVec 32) {v : Variable} (hvalid : v.isValid = true)
    {type : DataType} (h : castable v.id.1 type = true) (hreal : type ≠ .real) :
    ∃ bytes, encodeValue toFloat type v.value = some bytes := by
  obtain ⟨x, hx⟩ := Option.isSome_iff_exists.mp hvalid
  rw [Value.anyCast_eq_some] at hx
  obtain ⟨⟨fmiType, number⟩, value⟩ := v
  dsimp only at h x hx ⊢
  subst hx
  cases fmiType <;> cases type <;> first | exact absurd rfl hreal | exact ⟨_, rfl⟩ | cases h

theorem initOutputTypes_types {ports : List (PortID × Ptree)} {p₀ p : CompactASN1Publisher}
    (h : initOutputTypes ports p₀ = (p, .ok ())) :
    ∃ types, p.outputTypes = p₀.outputTypes ++ types ∧
      List.Forall₂ (fun port type => outputType port.1 port.2 = .ok type) ports types := by
  induction ports generalizing p₀ with
  | nil =>
    cases h
    exact ⟨[], (List.append_nil _).symm, .nil⟩
  | cons port ports ih =>
    obtain ⟨id, portConfig⟩ := port
    rw [initOutputTypes] at h
    split at h
    · cases h
    · rename_i type htype
      obtain ⟨types, htypes, hrest⟩ := ih h
      refine ⟨type :: types, ?_, .cons htype hrest⟩
      rw [htypes, List.append_assoc, List.singleton_append]

/-! ### Runs -/

/-- The image holds the value of every port after the history, and every port has the encoding of its
configuration. -/
structure Follows (ports : List (PortID × Ptree)) (history : List Variable) (p : CompactASN1Publisher) : Prop where
  image : List.Forall₂ (fun port out => out.id = port.1 ∧ out.isValid = true ∧
    portValue history port.1 = some out.value) ports p.outputVariables
  types : List.Forall₂ (fun port type => outputType port.1 port.2 = .ok type) ports p.outputTypes

variable {ports : List (PortID × Ptree)} {history vars : List Variable} {p : CompactASN1Publisher}

theorem Follows.ids (h : Follows ports history p) : p.outputVariables.map Variable.id = ports.map Prod.fst := by
  have hids : List.Forall₂ (fun port out => out.id = port.1) ports p.outputVariables :=
    h.image.imp fun _ _ hout => hout.1
  rw [← List.forall₂_eq_eq_eq, List.forall₂_map_left_iff, List.forall₂_map_right_iff]
  exact hids.flip

theorem initOutputVariables_image {ports : List (PortID × Ptree)} {outs : List Variable}
    (h : initOutputVariables (ports.map Prod.fst) = some outs) :
    List.Forall₂ (fun port out => out.id = port.1 ∧ out.isValid = true ∧ portValue [] port.1 = some out.value)
      ports outs := by
  induction ports generalizing outs with
  | nil =>
    cases h
    exact .nil
  | cons port ports ih =>
    simp only [initOutputVariables, List.map_cons, List.mapM_cons, Option.bind_eq_bind, Option.bind_eq_some_iff,
      Option.map_eq_some_iff, Option.pure_def, Option.some.injEq] at h
    obtain ⟨v, ⟨value, hvalue, rfl⟩, rest, hrest, rfl⟩ := h
    refine .cons ⟨rfl, ?_, hvalue⟩ (ih hrest)
    obtain ⟨⟨fmiType, number⟩, portConfig⟩ := port
    cases fmiType <;> cases hvalue <;> rfl

theorem follows_init {channel : TransmissionChannel} (hsizes : channel.portIDs.length = channel.portConfig.length)
    (h : init {} channel = (p, .ok ())) : Follows (channel.portIDs.zip channel.portConfig) [] p := by
  rw [init] at h
  split at h
  · cases h
  · rename_i outs houts
    obtain ⟨types, htypes, hconfigured⟩ := initOutputTypes_types h
    have himage := initOutputTypes_outputVariables (channel.portIDs.zip channel.portConfig)
      { outputVariables := outs }
    rw [h] at himage
    rw [← List.map_fst_zip hsizes.le] at houts
    exact ⟨himage ▸ initOutputVariables_image houts, htypes ▸ hconfigured⟩

/-- An event moves the image on. -/
theorem Follows.update (h : Follows ports history p) (hvalid : ∀ v ∈ vars, v.isValid = true) :
    Follows ports (history ++ vars) { p with outputVariables := p.outputVariables.map (overwrite vars) } := by
  refine ⟨List.forall₂_map_right_iff.mpr (h.image.imp ?_), h.types⟩
  rintro port out ⟨hid, hout, hvalue⟩
  refine ⟨hid, ?_⟩
  rw [overwrite, portValue, lastVariable_append, ← hid]
  cases hlast : lastVariable out.id vars with
  | none =>
    rw [portValue, ← hid] at hvalue
    exact ⟨hout, hvalue⟩
  | some v =>
    obtain ⟨hmem, hv⟩ := lastVariable_mem hlast
    have hcast := hvalid v hmem
    rw [Variable.isValid, hv] at hcast
    exact ⟨hcast, rfl⟩

/-- The message of the image can be encoded, and it is the expected one. -/
theorem Follows.encode (toFloat : BitVec 64 → BitVec 32) {channel : TransmissionChannel}
    (h : Follows (channel.portIDs.zip channel.portConfig) history p) (hreal : ¬UsesREAL channel) :
    ∃ bytes, expectedMessage toFloat channel history = some bytes ∧
      p.encodeASN1OutputVariables toFloat = some bytes := by
  have hplain : ∀ port ∈ channel.portIDs.zip channel.portConfig, ¬RequestsREAL port.2 := fun port hport hrequests =>
    hreal ⟨port.2, (List.of_mem_zip hport).2, hrequests⟩
  obtain ⟨outs, types⟩ := p
  obtain ⟨himage, htypes⟩ := h
  rw [expectedMessage, encodeASN1OutputVariables, if_pos (himage.length_eq.symm.trans htypes.length_eq)]
  dsimp only at himage htypes ⊢
  generalize channel.portIDs.zip channel.portConfig = ports at himage htypes hplain ⊢
  suffices hvalues : ∃ values, ports.mapM (encodePort toFloat history) = some values ∧
      ((types.zip outs).mapM fun port => encodeValue toFloat port.1 port.2.value) = some values by
    obtain ⟨values, hexpected, hencoded⟩ := hvalues
    exact ⟨values.flatten, by rw [hexpected]; rfl, by rw [hencoded]; rfl⟩
  induction ports generalizing types outs with
  | nil =>
    cases himage
    cases htypes
    exact ⟨[], rfl, rfl⟩
  | cons port ports ih =>
    obtain ⟨id, portConfig⟩ := port
    cases himage with
    | cons hout himage =>
      cases htypes with
      | cons htype htypes =>
        obtain ⟨values, hexpected, hencoded⟩ := ih _ _ himage htypes (List.forall_mem_cons.mp hplain).2
        obtain ⟨hid, hvalid, hvalue⟩ := hout
        obtain ⟨bytes, hbytes⟩ := encodeValue_castable toFloat hvalid (by rw [hid]; exact outputType_castable htype)
          (mt (outputType_eq_real_iff htype).mp (hplain _ List.mem_cons_self))
        refine ⟨bytes :: values, ?_, ?_⟩
        · have hport : encodePort toFloat history (id, portConfig) = some bytes := by
            simp only [encodePort, htype, Except.toOption, hvalue, Option.bind_eq_bind, Option.bind_some, hbytes]
          simp [List.mapM_cons, hport, hexpected]
        · simp [List.mapM_cons, hbytes, hencoded]

/-- A message is sent exactly for an event with a variable of the channel, and it is the expected one. -/
theorem Follows.eventTriggered (toFloat : BitVec 64 → BitVec 32) {channel : TransmissionChannel}
    (h : Follows (channel.portIDs.zip channel.portConfig) history p) (hreal : ¬UsesREAL channel)
    (hsizes : channel.portIDs.length = channel.portConfig.length) (hvalid : ∀ v ∈ vars, v.isValid = true) :
    ∃ message p', p.eventTriggered toFloat vars = some (message, p') ∧
      Follows (channel.portIDs.zip channel.portConfig) (history ++ vars) p' ∧
      ((∃ v ∈ vars, v.id ∈ channel.portIDs) → ∃ bytes, message = some bytes ∧
        expectedMessage toFloat channel (history ++ vars) = some bytes) ∧
      ((∀ v ∈ vars, v.id ∉ channel.portIDs) → message = none) := by
  have hnext := h.update hvalid
  have hids : p.outputVariables.map Variable.id = channel.portIDs := by
    rw [h.ids, List.map_fst_zip hsizes.le]
  rw [CompactASN1Publisher.eventTriggered, updateOutputVariables_eq hvalid, hids]
  dsimp only [Option.bind_eq_bind, Option.bind_some]
  by_cases hsends : ∃ v ∈ vars, v.id ∈ channel.portIDs
  · obtain ⟨bytes, hexpected, hencoded⟩ := hnext.encode toFloat hreal
    rw [if_pos (decide_eq_true hsends), hencoded]
    refine ⟨some bytes, _, rfl, hnext, fun _ => ⟨bytes, rfl, hexpected⟩, fun hforeign => ?_⟩
    obtain ⟨v, hv, hid⟩ := hsends
    exact absurd hid (hforeign v hv)
  · rw [if_neg (by simpa using hsends)]
    exact ⟨none, _, rfl, hnext, fun hmem => absurd hmem hsends, fun _ => rfl⟩

/-- A history that is extended by the events of a run, up to and including the one with the index. -/
def historyAt (history : List Variable) (events : List (List Variable)) (k : Nat) : List Variable :=
  history ++ (events.take (k + 1)).flatten

theorem historyAt_succ (history vars : List Variable) (events : List (List Variable)) (k : Nat) :
    historyAt history (vars :: events) (k + 1) = historyAt (history ++ vars) events k := by
  rw [historyAt, historyAt, List.take_succ_cons, List.flatten_cons, List.append_assoc]

/-- The entry of the run for one event. -/
def Sends (toFloat : BitVec 64 → BitVec 32) (channel : TransmissionChannel) (history vars : List Variable)
    (message : Option (List UInt8)) : Prop :=
  ((∃ v ∈ vars, v.id ∈ channel.portIDs) → ∃ bytes, message = some bytes ∧
    expectedMessage toFloat channel history = some bytes) ∧
  ((∀ v ∈ vars, v.id ∉ channel.portIDs) → message = none)

theorem Follows.publish (toFloat : BitVec 64 → BitVec 32) {channel : TransmissionChannel}
    (hreal : ¬UsesREAL channel) (hsizes : channel.portIDs.length = channel.portConfig.length)
    {events : List (List Variable)}
    (hvalid : ∀ vars ∈ events, ∀ v ∈ vars, v.isValid = true)
    (h : Follows (channel.portIDs.zip channel.portConfig) history p) :
    ∃ messages, publish toFloat p events = some messages ∧ messages.length = events.length ∧
      ∀ k vars, events[k]? = some vars →
        ∃ message, messages[k]? = some message ∧
          Sends toFloat channel (historyAt history events k) vars message := by
  induction events generalizing history p with
  | nil => exact ⟨[], rfl, rfl, fun k vars hk => nomatch hk⟩
  | cons vars events ih =>
    obtain ⟨message, q, hevent, hq, hsends⟩ := h.eventTriggered toFloat hreal hsizes
      (hvalid vars List.mem_cons_self)
    obtain ⟨messages, hmessages, hlength, hentries⟩ := ih (fun w hw => hvalid w (List.mem_cons_of_mem _ hw)) hq
    refine ⟨message :: messages, ?_, by rw [List.length_cons, List.length_cons, hlength], fun k other hk => ?_⟩
    · simp only [CompactASN1Publisher.publish, hevent, Option.bind_eq_bind, Option.bind_some, hmessages]
    · cases k with
      | zero =>
        cases hk
        refine ⟨message, rfl, ?_⟩
        rw [historyAt, List.take_succ_cons, List.take_zero, List.flatten_cons, List.flatten_nil, List.append_nil]
        exact hsends
      | succ k =>
        rw [historyAt_succ]
        exact hentries k other hk

theorem holdsLastValues_of_not_usesREAL (toFloat : BitVec 64 → BitVec 32) {channel : TransmissionChannel}
    (hreal : ¬UsesREAL channel) (hsizes : channel.portIDs.length = channel.portConfig.length)
    {p : CompactASN1Publisher} (hinit : init {} channel = (p, .ok ())) {events : List (List Variable)}
    (hvalid : ∀ vars ∈ events, ∀ v ∈ vars, v.isValid = true) : HoldsLastValues toFloat channel p events := by
  obtain ⟨messages, hmessages, hlength, hentries⟩ :=
    (follows_init hsizes hinit).publish toFloat hreal hsizes hvalid
  refine ⟨messages, hmessages, hlength, fun k vars hk => ?_⟩
  obtain ⟨message, hmessage, hsends, hsilent⟩ := hentries k vars hk
  refine ⟨message, hmessage, ⟨fun hsome => ?_, fun hmem => ?_⟩, fun bytes hbytes => ?_⟩
  · by_contra hforeign
    rw [hsilent fun v hv hid => hforeign ⟨v, hv, hid⟩] at hsome
    cases hsome
  · obtain ⟨bytes, rfl, -⟩ := hsends hmem
    rfl
  · by_cases hmem : ∃ v ∈ vars, v.id ∈ channel.portIDs
    · obtain ⟨expected, hexpected, hhistory⟩ := hsends hmem
      rw [hbytes, Option.some.injEq] at hexpected
      rw [hexpected]
      exact hhistory
    · rw [hsilent fun v hv hid => hmem ⟨v, hv, hid⟩] at hbytes
      cases hbytes

/-! ### 32 bit numbers -/

theorem Follows.usesREAL {channel : TransmissionChannel}
    (h : Follows (channel.portIDs.zip channel.portConfig) history p)
    (hsizes : channel.portIDs.length = channel.portConfig.length) (hreal : UsesREAL channel) :
    .real ∈ p.outputTypes := by
  obtain ⟨portConfig, hmem, hrequests⟩ := hreal
  rw [← List.map_snd_zip hsizes.ge, List.mem_map] at hmem
  obtain ⟨port, hport, rfl⟩ := hmem
  obtain ⟨i, hi, rfl⟩ := List.mem_iff_getElem.mp hport
  have hi' : i < p.outputTypes.length := h.types.length_eq ▸ hi
  have htype := h.types.get hi hi'
  have hreal : p.outputTypes[i] = .real := (outputType_eq_real_iff htype).mpr hrequests
  exact hreal ▸ List.getElem_mem hi'

theorem mapM_eq_none {α β : Type*} {f : α → Option β} {l : List α} {a : α} (ha : a ∈ l) (hf : f a = none) :
    l.mapM f = none := by
  induction l with
  | nil => cases ha
  | cons b l ih =>
    rw [List.mapM_cons]
    rcases List.mem_cons.mp ha with rfl | ha
    · rw [hf]
      rfl
    · rw [ih ha]
      cases f b <;> rfl

/-- One such port is enough to make every message fail. -/
theorem encodeASN1OutputVariables_eq_none (toFloat : BitVec 64 → BitVec 32)
    (hreal : .real ∈ p.outputTypes) : p.encodeASN1OutputVariables toFloat = none := by
  rw [encodeASN1OutputVariables]
  split
  · rename_i hlength
    obtain ⟨i, hi, htype⟩ := List.mem_iff_getElem.mp hreal
    have hi' : i < (p.outputTypes.zip p.outputVariables).length := by
      rw [List.length_zip]
      omega
    rw [mapM_eq_none (List.getElem_mem hi') (by rw [List.getElem_zip, htype, encodeValue_real])]
    rfl
  · rfl

/-- The publisher fails at the first event that it serves. -/
theorem publish_eq_none (toFloat : BitVec 64 → BitVec 32)
    (hfails : ∀ vars, encodeASN1OutputVariables toFloat
      { p with outputVariables := p.outputVariables.map (overwrite vars) } = none)
    {events : List (List Variable)} (hvalid : ∀ vars ∈ events, ∀ v ∈ vars, v.isValid = true)
    (hserved : ∃ vars ∈ events, ∃ v ∈ vars, v.id ∈ p.outputVariables.map Variable.id) :
    publish toFloat p events = none := by
  induction events with
  | nil =>
    obtain ⟨vars, hvars, -⟩ := hserved
    cases hvars
  | cons vars events ih =>
    rw [publish]
    by_cases hfirst : ∃ v ∈ vars, v.id ∈ p.outputVariables.map Variable.id
    · have hupdate := updateOutputVariables_eq (hvalid vars List.mem_cons_self) p
      rw [decide_eq_true hfirst] at hupdate
      have hevent : p.eventTriggered toFloat vars = none := by
        rw [CompactASN1Publisher.eventTriggered, hupdate]
        dsimp only [Option.bind_eq_bind, Option.bind_some]
        rw [if_pos rfl, hfails, Option.bind_none]
      rw [hevent]
      rfl
    · have hforeign : ∀ v ∈ vars, v.id ∉ p.outputVariables.map Variable.id := fun v hv hid => hfirst ⟨v, hv, hid⟩
      have hrest : ∃ vars ∈ events, ∃ v ∈ vars, v.id ∈ p.outputVariables.map Variable.id := by
        obtain ⟨other, hother, hv⟩ := hserved
        rcases List.mem_cons.mp hother with rfl | hother
        · exact absurd hv hfirst
        · exact ⟨other, hother, hv⟩
      rw [eventTriggered_foreign toFloat hforeign, Option.bind_eq_bind, Option.bind_some]
      dsimp only
      rw [ih (fun w hw => hvalid w (List.mem_cons_of_mem _ hw)) hrest]
      rfl

theorem publish_foreign (toFloat : BitVec 64 → BitVec 32) {events : List (List Variable)}
    (hforeign : ∀ vars ∈ events, ∀ v ∈ vars, v.id ∉ p.outputVariables.map Variable.id) :
    publish toFloat p events = some (events.map fun _ => none) := by
  induction events with
  | nil => rfl
  | cons vars events ih =>
    have hevent := eventTriggered_foreign toFloat (hforeign vars List.mem_cons_self)
    have hrest := ih fun w hw => hforeign w (List.mem_cons_of_mem _ hw)
    simp only [publish, hevent, Option.bind_eq_bind, Option.bind_some, hrest, List.map_cons]

/-- A publisher that has been initialized for a channel sends the last value of every port, exactly for
the events with a variable of the channel, and never fails, if and only if no port is sent as a 32 bit
number or no event has a variable of the channel. -/
theorem messages_hold_last_values_iff (toFloat : BitVec 64 → BitVec 32) (channel : TransmissionChannel)
    (hsizes : channel.portIDs.length = channel.portConfig.length) (p : CompactASN1Publisher)
    (hinit : init {} channel = (p, .ok ())) (events : List (List Variable))
    (hvalid : ∀ vars ∈ events, ∀ v ∈ vars, v.isValid = true) :
    HoldsLastValues toFloat channel p events ↔
      ¬UsesREAL channel ∨ ∀ vars ∈ events, ∀ v ∈ vars, v.id ∉ channel.portIDs := by
  have hids : p.outputVariables.map Variable.id = channel.portIDs := serves_init hinit
  constructor
  · rintro ⟨messages, hmessages, -⟩
    by_contra hneither
    obtain ⟨hreal, hserved⟩ := not_or.mp hneither
    push Not at hserved
    have hmem := (follows_init hsizes hinit).usesREAL hsizes (not_not.mp hreal)
    rw [publish_eq_none toFloat (fun _ => encodeASN1OutputVariables_eq_none toFloat hmem) hvalid (hids ▸ hserved)]
      at hmessages
    cases hmessages
  · rintro (hreal | hforeign)
    · exact holdsLastValues_of_not_usesREAL toFloat hreal hsizes hinit hvalid
    · refine ⟨_, publish_foreign toFloat (hids ▸ hforeign), List.length_map _, fun k vars hk => ?_⟩
      refine ⟨none, by rw [List.getElem?_map, hk]; rfl, iff_of_false nofun ?_, nofun⟩
      rintro ⟨v, hv, hid⟩
      exact hforeign vars (List.mem_of_getElem? hk) v hv hid

/-- One real variable on two ports, the second time with its encoding named, and one integer. -/
def repeatedChannel : TransmissionChannel where
  channelConfig := .node [] []
  portIDs := [(.fmiTypeReal, 0), (.fmiTypeInteger, 0), (.fmiTypeReal, 0)]
  portConfig := [.node [] [], .node [] [], .node [] [(propEncodeType, .node (ascii "LREAL") [])]]

/-- The first event is foreign to the channel, the second one holds two values for the real. -/
def repeatedEvents : List (List Variable) :=
  [[⟨(.fmiTypeString, 7), .string []⟩], [⟨(.fmiTypeReal, 0), .real 0⟩, ⟨(.fmiTypeReal, 0), .real 1⟩]]

theorem messages_hold_last_values_repeated :
    HoldsLastValues (fun _ => 0) repeatedChannel (init {} repeatedChannel).1 repeatedEvents :=
  (messages_hold_last_values_iff (fun _ => 0) repeatedChannel rfl _ rfl repeatedEvents (by decide)).mpr
    (.inl (by decide))

/-- A real that is sent as a 32 bit number. -/
def realChannel : TransmissionChannel where
  channelConfig := .node [] []
  portIDs := [(.fmiTypeReal, 0)]
  portConfig := [.node [] [(propEncodeType, .node (ascii "REAL") [])]]

/-- The configuration is accepted, but the first event with the variable overruns the stack. -/
theorem real_number_overruns :
    init {} realChannel = ((init {} realChannel).1, .ok ()) ∧
    (∀ v ∈ [(⟨(.fmiTypeReal, 0), .real 0x3FF0000000000000#64⟩ : Variable)], v.isValid = true) ∧
    ¬HoldsLastValues (fun _ => 0x3F800000#32) realChannel (init {} realChannel).1
      [[⟨(.fmiTypeReal, 0), .real 0x3FF0000000000000#64⟩]] := by
  refine ⟨rfl, by decide, ?_⟩
  rintro ⟨messages, hmessages, -⟩
  cases hmessages

end FMITerminalBlock.Network.CompactASN1Publisher
