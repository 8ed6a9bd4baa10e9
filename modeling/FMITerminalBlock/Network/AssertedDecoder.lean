import FMITerminalBlock.Library.Fallible
import FMITerminalBlock.Library.WhileLoop
import FMITerminalBlock.Network.DecoderInvariant

/-! The decoder with its assertions and with loops that nothing bounds. Only assertions on pointers to
local variables are left out. -/
namespace FMITerminalBlock.Network.Asserted
open Base Timing ASN1Commons WhileLoop

/-- The assertions of the functions that `commitData` calls. -/
inductive Assertion where
  | timerCreated | eventUnderConstruction | sinkConnected
  | dataAvailable | expectedTag
  | knownPortType | portRemaining | roomForVariable
  deriving DecidableEq

def require (assertion : Assertion) (holds : Bool) : Except Assertion Unit :=
  if holds then .ok () else .error assertion

/-! ### The event -/

def getNextPortType (ev : PartialEvent) : Except Assertion FMIVariableType := do
  require .portRemaining ev.hasRemainingElements
  return ev.getNextPortType

def pushNextValue (ev : PartialEvent) (value : Value) : Except Assertion PartialEvent := do
  require .portRemaining ev.hasRemainingElements
  require .roomForVariable (ev.var.length < ev.portTemplate.length)
  return ev.pushNextValue value

def ignoreNextValue (ev : PartialEvent) : Except Assertion PartialEvent := do
  require .portRemaining ev.hasRemainingElements
  return ev.ignoreNextValue

/-! ### Reading one value -/

abbrev ReadResult := Except ParsingStatus (Received × List UInt8)

def getFirstRawDataByte (buffer : List UInt8) : Except Assertion UInt8 :=
  match buffer with
  | [] => .error .dataAvailable
  | byte :: _ => .ok byte

def readSTRINGVariable (buffer : List UInt8) : Except Assertion ReadResult := do
  if buffer.length < 3 then return Network.readSTRINGVariable buffer
  else
    let byte ← getFirstRawDataByte buffer
    require .expectedTag (byte = (classApplication ||| stringTagNr))
    return Network.readSTRINGVariable buffer

def readBOOL0Variable (buffer : List UInt8) : Except Assertion ReadResult := do
  let byte ← getFirstRawDataByte buffer
  require .expectedTag (byte = (classApplication ||| bool0TagNr))
  return Network.readBOOL0Variable buffer

def readBOOL1Variable (buffer : List UInt8) : Except Assertion ReadResult := do
  let byte ← getFirstRawDataByte buffer
  require .expectedTag (byte = (classApplication ||| bool1TagNr))
  return Network.readBOOL1Variable buffer

/-- The `switch` over the tags. -/
def readTag (tag : UInt8) (buffer : List UInt8) : Except Assertion ReadResult :=
  if tag = classApplication ||| lrealTagNr then return readXREALVariable 8 .lreal buffer
  else if tag = classApplication ||| realTagNr then return readXREALVariable 4 .real buffer
  else if tag = classApplication ||| stringTagNr then readSTRINGVariable buffer
  else if tag = classApplication ||| bool0TagNr then readBOOL0Variable buffer
  else if tag = classApplication ||| bool1TagNr then readBOOL1Variable buffer
  else if tag = classApplication ||| dintTagNr then return readXINTVariable 4 .dint buffer
  else return .error ⟨.invalidBufferContent, 0⟩

def readNextVariable (env : Surroundings) (type : FMIVariableType) (buffer : List UInt8) :
    Except Assertion (ParsingStatus × Option Value × List UInt8) := do
  require .dataAvailable (0 < buffer.length)
  let tag ← getFirstRawDataByte buffer
  match ← readTag tag buffer with
  | .error status => return (status, none, buffer)
  | .ok (value, rest) =>
    match env.convert type value with
    | some converted => return (⟨.ok, 0⟩, some (.of type converted), rest)
    | none => return (⟨.typeConversionError, 0⟩, none, rest)

/-! ### The inner loop -/

/-- The status of the last turn, the event and the buffer. -/
abbrev Processing := ParsingStatus × PartialEvent × List UInt8

/-- The body of the loop in `processRawDataToEvent`. The variable `value` is empty before a value is read. -/
def processTurn (env : Surroundings) : Processing → Except Assertion Processing
  | (_, ev, buffer) => do
    let type ← getNextPortType ev
    require .knownPortType (type ≠ .fmiTypeUnknown)
    let (status, value, buffer) ← readNextVariable env type buffer
    match status.state with
    | .ok => return (status, ← pushNextValue ev (value.getD .empty), buffer)
    | .typeConversionError => return (status, ← ignoreNextValue ev, buffer)
    | _ => return (status, ev, buffer)

def processLoop (env : Surroundings) : Loop Processing Assertion where
  condition | (status, ev, buffer) => 0 < buffer.length ∧ ev.hasRemainingElements = true ∧ status.Proceeds
  body s o := o = .ofExcept (processTurn env s)

/-! ### The outer loop -/

/-- The pointers of the subscriber that assertions look at, besides the event. -/
structure Pointers where
  eventSink : Bool := false
  packetTimeoutTimer : Bool := false
  deriving DecidableEq

/-- The pointers after `init` with a valid event sink, which is stored first. The timer is created after
an empty port list has been rejected. -/
def Pointers.init (settings : TransmissionChannel) : Pointers where
  eventSink := true
  packetTimeoutTimer := decide (0 < settings.portIDs.length)

def pushPartialEvent (pointers : Pointers) (s : CompactASN1Subscriber) : Except Assertion CompactASN1Subscriber := do
  require .sinkConnected pointers.eventSink
  require .eventUnderConstruction s.partialData.isSome
  return s.pushPartialEvent

/-- The results of `processRawDataToEvent`. -/
def ProcessRawDataToEvent (env : Surroundings) (s : CompactASN1Subscriber)
    (r : Except Assertion (ParsingStatus × CompactASN1Subscriber)) : Prop :=
  match s.partialData with
  | none => r = .error .eventUnderConstruction
  | some ev => ∃ processed, (processLoop env).Runs (⟨.ok, 0⟩, ev, s.remainingRawData) processed ∧
      r = processed.map fun (status, ev, rest) => (status, s.progress ev rest)

/-- The rest of the turn after `processRawDataToEvent`. -/
def evaluate (pointers : Pointers) (status : ParsingStatus) (s : CompactASN1Subscriber) :
    Turn CompactASN1Subscriber Assertion :=
  match status.state with
  | .invalidBufferContent => .ofExcept ((pushPartialEvent pointers s).map fun s => s.clearUnprocessedData)
  | .incomplete => .leave s
  | _ =>
    if s.partialData.any fun ev => !ev.hasRemainingElements then .ofExcept (pushPartialEvent pointers s)
    else .next s

def commitLoop (env : Surroundings) (pointers : Pointers) : Loop CompactASN1Subscriber Assertion where
  condition s := 0 < s.remainingRawData.length
  body s o := ∃ r, ProcessRawDataToEvent env (s.startEvent env) r ∧
    match r with
    | .error assertion => o = .fail assertion
    | .ok (status, s) => o = evaluate pointers status s

/-- The results of `commitData`, which restarts the timer first. -/
def CommitData (env : Surroundings) (pointers : Pointers) (s : CompactASN1Subscriber) (data : List UInt8)
    (r : Except Assertion CompactASN1Subscriber) : Prop :=
  if pointers.packetTimeoutTimer then
    (commitLoop env pointers).Runs { s with remainingRawData := s.remainingRawData ++ data } r
  else r = .error .timerCreated

/-! ### One turn of the inner loop -/

variable {env : Surroundings} {ports : List PortID}

@[simp] theorem require_true (assertion : Assertion) : require assertion true = .ok () := rfl
@[simp] theorem require_false (assertion : Assertion) : require assertion false = .error assertion := rfl

/-- Every read function finds the tag for which it was chosen. -/
theorem readTag_head (tag : UInt8) (rest : List UInt8) :
    readTag tag (tag :: rest) = .ok (readValue (tag :: rest)) := by
  have hstring : readSTRINGVariable ((classApplication ||| stringTagNr) :: rest) =
      .ok (Network.readSTRINGVariable ((classApplication ||| stringTagNr) :: rest)) := by
    rw [readSTRINGVariable]
    split
    · rfl
    · rfl
  unfold readTag
  split_ifs with hlreal hreal htext hbool0 hbool1 hdint
  · rw [hlreal]
    rfl
  · rw [hreal]
    rfl
  · rw [htext]
    exact hstring
  · rw [hbool0]
    rfl
  · rw [hbool1]
    rfl
  · rw [hdint]
    rfl
  · rw [readValue_unsupported (by simp [supportedTags, hlreal, hreal, htext, hbool0, hbool1, hdint])]
    rfl

theorem readNextVariable_eq {buffer : List UInt8} (h : 0 < buffer.length) (type : FMIVariableType) :
    readNextVariable env type buffer = .ok (Network.readNextVariable env type buffer) := by
  obtain ⟨tag, rest, rfl⟩ := List.exists_cons_of_ne_nil (List.length_pos_iff.mp h)
  have hread := readTag_head tag rest
  simp only [readNextVariable, Network.readNextVariable, getFirstRawDataByte]
  rw [decide_eq_true h, require_true]
  cases hvalue : readValue (tag :: rest) with
  | error status =>
    rw [hvalue] at hread
    simp only [bind, Except.bind, hread]
    rfl
  | ok r =>
    rw [hvalue] at hread
    simp only [bind, Except.bind, hread]
    cases env.convert type r.1 with
    | none => rfl
    | some converted => rfl

/-- A turn on a port of a known type: it stops where no value can be read, or it takes one value from the
buffer. -/
theorem processTurn_eq {status : ParsingStatus} {ev : PartialEvent} {buffer : List UInt8}
    (hcond : (processLoop env).condition (status, ev, buffer)) (htype : ev.getNextPortType ≠ .fmiTypeUnknown) :
    processTurn env (status, ev, buffer) =
      match readValue buffer with
      | .error error => .ok (error, ev, buffer)
      | .ok (value, rest) =>
        match env.convert ev.getNextPortType value with
        | some converted => (pushNextValue ev (.of _ converted)).map fun ev => (⟨.ok, 0⟩, ev, rest)
        | none => .ok (⟨.typeConversionError, 0⟩, ev.ignoreNextValue, rest) := by
  obtain ⟨hbuffer, hremaining, -⟩ := hcond
  simp only [processTurn, getNextPortType, hremaining, require_true, htype, ne_eq, not_false_eq_true, decide_true,
    bind, Except.bind, pure, Except.pure, readNextVariable_eq hbuffer, Network.readNextVariable]
  cases hread : readValue buffer with
  | error error =>
    have herror := readValue_error hread
    obtain ⟨state, missing⟩ := error
    rcases herror with rfl | rfl
    · rfl
    · rfl
  | ok r =>
    obtain ⟨value, rest⟩ := r
    dsimp only
    cases env.convert ev.getNextPortType value with
    | none =>
      simp only [ignoreNextValue, hremaining, require_true]
      rfl
    | some converted => rfl

theorem processTurn_unknown {status : ParsingStatus} {ev : PartialEvent} {buffer : List UInt8}
    (hcond : (processLoop env).condition (status, ev, buffer)) (htype : ev.getNextPortType = .fmiTypeUnknown) :
    processTurn env (status, ev, buffer) = .error .knownPortType := by
  simp only [processTurn, getNextPortType, hcond.2.1, require_true, htype, bind, Except.bind, pure, Except.pure]
  rfl

theorem not_proceeds_of_error {buffer : List UInt8} {status : ParsingStatus} (h : readValue buffer = .error status) :
    ¬status.Proceeds := by
  rintro (hstate | hstate)
  · rcases readValue_error h with herror | herror <;> rw [hstate] at herror <;> cases herror
  · rcases readValue_error h with herror | herror <;> rw [hstate] at herror <;> cases herror

/-- Everything a turn can do that fails no assertion. -/
theorem processTurn_cases {status : ParsingStatus} {ev : PartialEvent} {buffer : List UInt8} {t : Processing}
    (hcond : (processLoop env).condition (status, ev, buffer))
    (hturn : processTurn env (status, ev, buffer) = .ok t) :
    (∃ error, readValue buffer = .error error ∧ t = (error, ev, buffer)) ∨
    ∃ value rest, readValue buffer = .ok (value, rest) ∧
      ((∃ converted, env.convert ev.getNextPortType value = some converted ∧
          t = (⟨.ok, 0⟩, ev.pushNextValue (.of _ converted), rest)) ∨
        (env.convert ev.getNextPortType value = none ∧ t = (⟨.typeConversionError, 0⟩, ev.ignoreNextValue, rest))) := by
  by_cases htype : ev.getNextPortType = .fmiTypeUnknown
  · rw [processTurn_unknown hcond htype] at hturn
    cases hturn
  rw [processTurn_eq hcond htype] at hturn
  cases hread : readValue buffer with
  | error error =>
    rw [hread] at hturn
    cases hturn
    exact .inl ⟨error, rfl, rfl⟩
  | ok r =>
    obtain ⟨value, rest⟩ := r
    rw [hread] at hturn
    dsimp only at hturn
    refine .inr ⟨value, rest, rfl, ?_⟩
    cases hconvert : env.convert ev.getNextPortType value with
    | none =>
      rw [hconvert] at hturn
      cases hturn
      exact .inr ⟨rfl, rfl⟩
    | some converted =>
      rw [hconvert] at hturn
      obtain ⟨ev', hpush, rfl⟩ := Fallible.map_eq_ok.mp hturn
      obtain ⟨-, -, hpush⟩ := Fallible.bind_eq_ok.mp hpush
      obtain ⟨-, -, hpush⟩ := Fallible.bind_eq_ok.mp hpush
      cases hpush
      exact .inl ⟨converted, rfl, rfl⟩

/-- Every turn of the inner loop consumes at least one byte or is the last one. -/
theorem processTurn_progress {s t : Processing} (hcond : (processLoop env).condition s)
    (hturn : (processLoop env).body s (.next t)) :
    t.2.2.length < s.2.2.length ∨ ¬(processLoop env).condition t := by
  rcases processTurn_cases hcond (Turn.next_eq_ofExcept.mp hturn) with
    ⟨error, hread, rfl⟩ | ⟨value, rest, hread, ⟨_, -, rfl⟩ | ⟨-, rfl⟩⟩
  · exact .inr fun h => not_proceeds_of_error hread h.2.2
  · exact .inl (readValue_suffix hread).2
  · exact .inl (readValue_suffix hread).2

/-! ### The inner loop as a whole -/

/-- The types of all ports are among the four known ones. -/
def KnownPorts (ports : List PortID) : Prop := ∀ id ∈ ports, id.1 ∈ FMIVariableType.known

theorem getNextPortType_known {ev : PartialEvent} (hknown : KnownPorts ports) (hev : ev.WellFormed ports)
    (hremaining : ev.hasRemainingElements = true) : ev.getNextPortType ≠ .fmiTypeUnknown := by
  obtain ⟨rfl, -⟩ := hev
  have hindex : ev.nextTemplateIndex < ev.portTemplate.length := by
    simpa [PartialEvent.hasRemainingElements] using hremaining
  have hmem : ev.nextPort ∈ ev.portTemplate := by
    rw [PartialEvent.nextPort, List.getD_eq_getElem?_getD, List.getElem?_eq_getElem hindex, Option.getD_some]
    exact List.getElem_mem hindex
  intro hunknown
  have htype := hknown _ hmem
  rw [show ev.nextPort.1 = FMIVariableType.fmiTypeUnknown from hunknown] at htype
  exact absurd htype (by decide)

/-- Ports may be left out, so there are never more variables than ports passed. -/
theorem pushNextValue_eq {ev : PartialEvent} (hev : ev.WellFormed ports) (hremaining : ev.hasRemainingElements = true)
    (value : Value) : pushNextValue ev value = .ok (ev.pushNextValue value) := by
  have hindex : ev.nextTemplateIndex < ev.portTemplate.length := by
    simpa [PartialEvent.hasRemainingElements] using hremaining
  have hlength : ev.var.length ≤ ev.nextTemplateIndex := by
    have hle := hev.filled.ids.length_le
    rw [List.length_map, List.length_take] at hle
    exact hle.trans (min_le_left _ _)
  have hroom : ev.var.length < ev.portTemplate.length := hlength.trans_lt hindex
  simp only [pushNextValue, hremaining, hroom, decide_true, require_true]
  rfl

/-- A turn on a well-formed event: the value is accepted, or the turn is the last one. -/
theorem processTurn_wellFormed (hknown : KnownPorts ports) {status : ParsingStatus} {ev : PartialEvent}
    {buffer : List UInt8} (hev : ev.WellFormed ports) (hcond : (processLoop env).condition (status, ev, buffer)) :
    (∃ value rest status', readValue buffer = .ok (value, rest) ∧ status'.Proceeds ∧
        processTurn env (status, ev, buffer) = .ok (status', ev.accept env value, rest)) ∨
      ∃ error, readValue buffer = .error error ∧ processTurn env (status, ev, buffer) = .ok (error, ev, buffer) := by
  have hremaining := hcond.2.1
  rw [processTurn_eq hcond (getNextPortType_known hknown hev hremaining)]
  cases hread : readValue buffer with
  | error error => exact .inr ⟨error, rfl, rfl⟩
  | ok r =>
    obtain ⟨value, rest⟩ := r
    dsimp only
    cases hconvert : env.convert ev.getNextPortType value with
    | none =>
      have haccept : ev.accept env value = ev.ignoreNextValue := by rw [PartialEvent.accept, hconvert]
      exact .inl ⟨value, rest, ⟨.typeConversionError, 0⟩, rfl, .inr rfl, by rw [haccept]⟩
    | some converted =>
      have haccept : ev.accept env value = ev.pushNextValue (.of _ converted) := by
        rw [PartialEvent.accept, hconvert]
      refine .inl ⟨value, rest, ⟨.ok, 0⟩, rfl, .inl rfl, ?_⟩
      dsimp only
      rw [pushNextValue_eq hev hremaining, haccept]
      rfl

/-- The inner loop ends without a failed assertion. It has consumed data or stopped at what it could not
read. -/
theorem exists_processed (hknown : KnownPorts ports) {ev : PartialEvent} {buffer : List UInt8}
    (hev : ev.WellFormed ports) (hremaining : ev.hasRemainingElements = true) (hbuffer : 0 < buffer.length) :
    ∃ status ev' rest, (processLoop env).Runs (⟨.ok, 0⟩, ev, buffer) (.ok (status, ev', rest)) ∧
      ev'.WellFormed ports ∧ (rest.length < buffer.length ∨ ¬status.Proceeds) := by
  have hrun := Loop.exists_run (processLoop env)
    (fun s => s.2.1.WellFormed ports ∧ s.2.2.length ≤ buffer.length ∧
      (s.2.2.length < buffer.length ∨ (processLoop env).condition s ∨ ¬s.1.Proceeds))
    (fun s => s.2.1.WellFormed ports ∧ (s.2.2.length < buffer.length ∨ ¬s.1.Proceeds))
    (fun s => s.2.2.length) ?_ ?_ (⟨.ok, 0⟩, ev, buffer)
    ⟨hev, le_rfl, .inr (.inl ⟨hbuffer, hremaining, .inl rfl⟩)⟩
  · obtain ⟨⟨status, ev', rest⟩, hrun, hpost⟩ := hrun
    exact ⟨status, ev', rest, hrun, hpost⟩
  · rintro s ⟨hs, -, hprogress⟩ hdone
    exact ⟨hs, hprogress.imp_right fun h => h.resolve_left hdone⟩
  · rintro ⟨status, ev, rest⟩ ⟨hs, hle, -⟩ hcond
    refine ⟨_, rfl, ?_⟩
    rcases processTurn_wellFormed hknown hs hcond with
      ⟨value, rest', status', hread, hproceeds, hturn⟩ | ⟨error, hread, hturn⟩
    · have hless := (readValue_suffix hread).2
      rw [hturn]
      exact .next ⟨hs.accept env hcond.2.1 value, hless.le.trans hle, .inl (hless.trans_le hle)⟩ (.inl hless)
    · have hstop := not_proceeds_of_error hread
      rw [hturn]
      exact .next ⟨hs, hle, .inr (.inr hstop)⟩ (.inr fun h => hstop h.2.2)

/-! ### The outer loop as a whole -/

variable {pointers : Pointers}

open CompactASN1Subscriber in
/-- A turn of the outer loop fails no assertion. It leaves the loop, consumes data or empties the buffer. -/
theorem commitTurn_sound (hknown : KnownPorts ports) (hsink : pointers.eventSink = true)
    {s : CompactASN1Subscriber} (hs : s.Sound ports) (hcond : (commitLoop env pointers).condition s) :
    ∃ o, (commitLoop env pointers).body s o ∧ (commitLoop env pointers).Proceeds (Sound ports)
      (fun _ => True) (fun s => s.remainingRawData.length) s o := by
  have hstart : (s.startEvent env).Sound ports := hs.startEvent
  obtain ⟨ev, hev, hremaining⟩ := hs.ready.exists_event env
  have hdata : 0 < (s.startEvent env).remainingRawData.length := by rwa [startEvent_remainingRawData]
  obtain ⟨status, ev', rest, hrun, hwf, hprogress⟩ := exists_processed hknown (hstart.event ev hev) hremaining hdata
  rw [startEvent_remainingRawData] at hprogress
  have hprocess : ProcessRawDataToEvent env (s.startEvent env) (.ok (status, (s.startEvent env).progress ev' rest)) := by
    rw [ProcessRawDataToEvent, hev]
    exact ⟨_, hrun, rfl⟩
  have hevent : ∀ next ∈ ((s.startEvent env).progress ev' rest).partialData, next.WellFormed ports := by
    rintro _ ⟨⟩
    exact hwf
  have hpushed : ((s.startEvent env).progress ev' rest).pushPartialEvent.Sound ports :=
    sound_pushPartialEvent hstart.portIDs hs.ne_nil hevent hstart.pushed
  have hpush : pushPartialEvent pointers ((s.startEvent env).progress ev' rest) =
      .ok ((s.startEvent env).progress ev' rest).pushPartialEvent := by
    rw [pushPartialEvent, hsink]
    rfl
  refine ⟨_, ⟨_, hprocess, rfl⟩, ?_⟩
  rw [evaluate]
  obtain ⟨state, missing⟩ := status
  have hfinish (hless : rest.length < s.remainingRawData.length) : (commitLoop env pointers).Proceeds (Sound ports)
      (fun _ => True) (fun s => s.remainingRawData.length) s
      (if ((s.startEvent env).progress ev' rest).partialData.any fun ev => !ev.hasRemainingElements then
        .ofExcept (pushPartialEvent pointers ((s.startEvent env).progress ev' rest))
      else .next ((s.startEvent env).progress ev' rest)) := by
    split
    · rw [hpush]
      refine .next hpushed (.inl ?_)
      rw [pushPartialEvent_remainingRawData]
      exact hless
    · rename_i hopen
      refine .next ⟨hstart.portIDs, ⟨hstart.ready.1, ?_⟩, hevent, hstart.pushed⟩ (.inl hless)
      rintro _ ⟨⟩
      simpa [progress, consumeTo] using hopen
  cases state with
  | ok => exact hfinish (hprogress.resolve_right fun h => h (.inl rfl))
  | typeConversionError => exact hfinish (hprogress.resolve_right fun h => h (.inr rfl))
  | invalidBufferContent =>
    dsimp only
    rw [hpush]
    exact .next hpushed.clearUnprocessedData (.inr fun h => absurd h (lt_irrefl 0))
  | incomplete => exact .leave trivial

theorem processLoop_deterministic (s : Processing) (o o' : Turn Processing Assertion)
    (h : (processLoop env).body s o) (h' : (processLoop env).body s o') : o = o' := h.trans h'.symm

theorem processRawDataToEvent_unique {s : CompactASN1Subscriber}
    {r r' : Except Assertion (ParsingStatus × CompactASN1Subscriber)} (h : ProcessRawDataToEvent env s r)
    (h' : ProcessRawDataToEvent env s r') : r = r' := by
  unfold ProcessRawDataToEvent at h h'
  cases hev : s.partialData with
  | none =>
    rw [hev] at h h'
    exact h.trans h'.symm
  | some ev =>
    rw [hev] at h h'
    obtain ⟨processed, hrun, rfl⟩ := h
    obtain ⟨processed', hrun', rfl⟩ := h'
    rw [hrun.unique processLoop_deterministic hrun']

theorem commitLoop_deterministic (s : CompactASN1Subscriber) (o o' : Turn CompactASN1Subscriber Assertion)
    (h : (commitLoop env pointers).body s o) (h' : (commitLoop env pointers).body s o') : o = o' := by
  obtain ⟨r, hr, ho⟩ := h
  obtain ⟨r', hr', ho'⟩ := h'
  cases processRawDataToEvent_unique hr hr'
  cases r with
  | error assertion => exact ho.trans ho'.symm
  | ok result => exact ho.trans ho'.symm

/-! ### The bounded loops -/

/-- The loop that is bounded by the number of ports takes the same turns, and a port is passed in each of
them but the last. -/
theorem processLoop_turn {s t : Processing} (hcond : (processLoop env).condition s)
    (hturn : processTurn env s = .ok t) (turns : Nat) :
    Network.processLoop env (turns + 1) s.1 s.2.1 s.2.2 = Network.processLoop env turns t.1 t.2.1 t.2.2 ∧
      (t.2.1.remaining = s.2.1.remaining - 1 ∨ ¬(processLoop env).condition t) := by
  obtain ⟨status, ev, buffer⟩ := s
  have hne : buffer ≠ [] := List.length_pos_iff.mp hcond.1
  rcases processTurn_cases hcond hturn with ⟨error, hread, rfl⟩ | ⟨value, rest, hread, hvalue⟩
  · have hstop := not_proceeds_of_error hread
    rw [processLoop_error hcond.2.2 hcond.2.1 hne hread, processLoop_done fun h => hstop h.2.2]
    exact ⟨rfl, .inr fun h => hstop h.2.2⟩
  · rw [Network.processLoop, if_pos ⟨hne, hcond.2.1, hcond.2.2⟩]
    rcases hvalue with ⟨converted, hconvert, rfl⟩ | ⟨hconvert, rfl⟩
    · simp only [Network.readNextVariable, hread, hconvert]
      exact ⟨trivial, .inl (Nat.sub_add_eq _ _ 1)⟩
    · simp only [Network.readNextVariable, hread, hconvert]
      exact ⟨trivial, .inl (Nat.sub_add_eq _ _ 1)⟩

theorem processLoop_of_runs {s : Processing} {x : Except Assertion Processing} {r : Processing}
    (h : (processLoop env).Runs s x) (hx : x = .ok r) {turns : Nat}
    (hturns : s.2.1.remaining ≤ turns ∨ ¬(processLoop env).condition s) :
    Network.processLoop env turns s.1 s.2.1 s.2.2 = r := by
  induction h generalizing turns with
  | done hdone =>
    cases hx
    exact processLoop_done fun h => hdone ⟨List.length_pos_iff.mpr h.1, h.2.1, h.2.2⟩
  | leave hcond hturn => exact absurd hturn (Turn.leave_ne_ofExcept _ _)
  | fail => cases hx
  | @next s t x hcond hturn hrest ih =>
    have hremaining : 0 < s.2.1.remaining := (PartialEvent.hasRemainingElements_iff _).mp hcond.2.1
    have hle : s.2.1.remaining ≤ turns := hturns.resolve_right fun h => h hcond
    obtain ⟨k, rfl⟩ : ∃ k, turns = k + 1 := ⟨turns - 1, by omega⟩
    obtain ⟨hsame, hnext⟩ := processLoop_turn hcond (Turn.next_eq_ofExcept.mp hturn) k
    rw [hsame]
    exact ih hx (hnext.imp_left fun h => by omega)

theorem evaluate_eq_leave {s t : CompactASN1Subscriber} {status : ParsingStatus}
    (h : .leave t = evaluate pointers status s) : status.state = .incomplete ∧ t = s := by
  unfold evaluate at h
  split at h
  · exact absurd h (Turn.leave_ne_ofExcept _ _)
  · rename_i hstate
    cases h
    exact ⟨hstate, rfl⟩
  · split at h
    · exact absurd h (Turn.leave_ne_ofExcept _ _)
    · cases h

theorem pushPartialEvent_eq_ok {s t : CompactASN1Subscriber} (h : pushPartialEvent pointers s = .ok t) :
    t = s.pushPartialEvent := by
  obtain ⟨-, -, h⟩ := Fallible.bind_eq_ok.mp h
  obtain ⟨-, -, h⟩ := Fallible.bind_eq_ok.mp h
  cases h
  rfl

theorem evaluate_eq_next {s t : CompactASN1Subscriber} {status : ParsingStatus}
    (h : .next t = evaluate pointers status s) :
    status.state = .invalidBufferContent ∧ t = s.pushPartialEvent.clearUnprocessedData ∨
      status.Proceeds ∧
        t = if s.partialData.any fun ev => !ev.hasRemainingElements then s.pushPartialEvent else s := by
  unfold evaluate at h
  split at h
  · rename_i hstate
    obtain ⟨s', hs', rfl⟩ := Fallible.map_eq_ok.mp (Turn.next_eq_ofExcept.mp h)
    rw [pushPartialEvent_eq_ok hs']
    exact .inl ⟨hstate, rfl⟩
  · cases h
  · rename_i hinvalid hincomplete
    have hproceeds : status.Proceeds := by
      obtain ⟨state, missing⟩ := status
      cases state with
      | ok => exact .inl rfl
      | typeConversionError => exact .inr rfl
      | invalidBufferContent => exact absurd rfl hinvalid
      | incomplete => exact absurd rfl hincomplete
    refine .inr ⟨hproceeds, ?_⟩
    split at h
    · rename_i hfull
      rw [if_pos hfull]
      exact pushPartialEvent_eq_ok (Turn.next_eq_ofExcept.mp h)
    · rename_i hopen
      rw [if_neg hopen]
      cases h
      rfl

theorem processed_eq {s s' : CompactASN1Subscriber} {status : ParsingStatus}
    (h : ProcessRawDataToEvent env (s.startEvent env) (.ok (status, s'))) :
    ∃ ev ev' rest, (s.startEvent env).partialData = some ev ∧
      processRawDataToEvent env ev s.remainingRawData = (status, ev', rest) ∧
      s' = (s.startEvent env).progress ev' rest := by
  obtain ⟨ev, hev, -⟩ := CompactASN1Subscriber.startEvent_spec env s
  rw [ProcessRawDataToEvent, hev] at h
  obtain ⟨processed, hrun, heq⟩ := h
  obtain ⟨⟨status', ev', rest⟩, rfl, hs'⟩ := Fallible.map_eq_ok.mp heq.symm
  cases hs'
  have hloop := processLoop_of_runs hrun rfl (.inl le_rfl)
  rw [CompactASN1Subscriber.startEvent_remainingRawData] at hloop
  exact ⟨ev, ev', rest, hev, hloop, rfl⟩

/-- A turn in which no assertion fails. -/
theorem commitTurn_processed {s : CompactASN1Subscriber} {o : Turn CompactASN1Subscriber Assertion}
    (hturn : (commitLoop env pointers).body s o) (hholds : ∀ assertion, o ≠ .fail assertion) :
    ∃ status ev ev' rest, (s.startEvent env).partialData = some ev ∧
      processRawDataToEvent env ev s.remainingRawData = (status, ev', rest) ∧
      o = evaluate pointers status ((s.startEvent env).progress ev' rest) := by
  obtain ⟨result, hprocess, hturn⟩ := hturn
  cases result with
  | error assertion => exact absurd hturn (hholds assertion)
  | ok result =>
    obtain ⟨status, s'⟩ := result
    obtain ⟨ev, ev', rest, hev, hloop, rfl⟩ := processed_eq hprocess
    exact ⟨status, ev, ev', rest, hev, hloop, hturn⟩

theorem push_if_complete (s : CompactASN1Subscriber) (ev : PartialEvent) (rest : List UInt8) :
    (if (s.progress ev rest).partialData.any fun ev => !ev.hasRemainingElements then
        (s.progress ev rest).pushPartialEvent else s.progress ev rest) =
      if ev.hasRemainingElements then s.progress ev rest else (s.progress ev rest).pushPartialEvent := by
  cases hopen : ev.hasRemainingElements <;> simp [CompactASN1Subscriber.progress, hopen]

open CompactASN1Subscriber in
/-- What the loops return is also returned by the loops that are bounded by a sufficient number of turns. -/
theorem commitLoop_of_runs {s r : CompactASN1Subscriber} {x : Except Assertion CompactASN1Subscriber}
    (h : (commitLoop env pointers).Runs s x) (hx : x = .ok r) :
    ∃ turns, CompactASN1Subscriber.commitLoop env turns s = some r := by
  induction h with
  | done hdone =>
    cases hx
    have hempty : r.remainingRawData = [] := List.length_eq_zero_iff.mp (Nat.eq_zero_of_not_pos hdone)
    exact ⟨1, by rw [CompactASN1Subscriber.commitLoop, if_pos hempty]⟩
  | leave hcond hturn =>
    cases hx
    obtain ⟨⟨state, missing⟩, ev, ev', rest, hev, hloop, hturn⟩ := commitTurn_processed hturn fun _ h => by cases h
    obtain ⟨rfl, rfl⟩ := evaluate_eq_leave hturn
    exact ⟨1, commitLoop_started (List.length_pos_iff.mp hcond) hev hloop 0⟩
  | fail => cases hx
  | next hcond hturn _ ih =>
    obtain ⟨turns, hturns⟩ := ih hx
    obtain ⟨⟨state, missing⟩, ev, ev', rest, hev, hloop, hturn⟩ := commitTurn_processed hturn fun _ h => by cases h
    refine ⟨turns + 1, ?_⟩
    rw [commitLoop_started (List.length_pos_iff.mp hcond) hev hloop]
    rcases evaluate_eq_next hturn with ⟨rfl, rfl⟩ | ⟨hproceeds, rfl⟩
    · exact hturns
    · rw [push_if_complete] at hturns
      rcases hproceeds with rfl | rfl
      · exact hturns
      · exact hturns

/-! ### Termination -/

open CompactASN1Subscriber in
/-- `commitData` returns for every data and fails no assertion. -/
theorem exists_commitData (hknown : KnownPorts ports) (hsink : pointers.eventSink = true)
    (htimer : pointers.packetTimeoutTimer = true) {s : CompactASN1Subscriber} (hs : s.Sound ports)
    (data : List UInt8) :
    ∃ r, CommitData env pointers s data (.ok r) ∧ s.commitData env data = some r ∧
      ∀ r', CommitData env pointers s data r' → r' = .ok r := by
  have hsound : { s with remainingRawData := s.remainingRawData ++ data }.Sound ports :=
    ⟨hs.portIDs, hs.ready, hs.event, hs.pushed⟩
  obtain ⟨r, hrun, -⟩ := Loop.exists_run (commitLoop env pointers) (Sound ports) (fun _ => True)
    (fun s => s.remainingRawData.length) (fun _ _ _ => trivial) (fun s hs hcond => commitTurn_sound hknown hsink hs hcond)
    _ hsound
  obtain ⟨turns, hturns⟩ := commitLoop_of_runs hrun rfl
  obtain ⟨r', hr', -⟩ := commitData_spec env hs.ready data
  have hsame : r' = r := by
    have hmore := commitLoop_mono (le_max_left turns ((s.remainingRawData ++ data).length + 1)) hturns
    have hmore' := commitLoop_mono (le_max_right turns ((s.remainingRawData ++ data).length + 1)) hr'
    exact Option.some.inj (hmore'.symm.trans hmore)
  simp only [CommitData, htimer, if_true]
  exact ⟨r, hrun, hsame ▸ hr', fun x hx => hx.unique commitLoop_deterministic hrun⟩

open CompactASN1Subscriber in
/-- The same for every subscriber that `init` has connected and that has received something. -/
theorem exists_commitData_received {settings : TransmissionChannel} {s₀ s : CompactASN1Subscriber}
    (hinit : init { portIDs := [] } settings = .ok s₀) (hknown : KnownPorts settings.portIDs)
    {inputs : List Input} (hs : LabelledRun.exec (receive env) s₀ inputs = some s) (data : List UInt8) :
    ∃ r, CommitData env (.init settings) s data (.ok r) ∧ s.commitData env data = some r ∧
      ∀ r', CommitData env (.init settings) s data r' → r' = .ok r := by
  obtain ⟨r, hr, hinv⟩ := exists_received hinit env inputs
  cases hs.symm.trans hr
  have hpositive : 0 < settings.portIDs.length := List.length_pos_iff.mpr hinv.ne_nil
  have htimer : (Pointers.init settings).packetTimeoutTimer = true := decide_eq_true hpositive
  exact exists_commitData hknown rfl htimer hinv.toSound data

open CompactASN1Subscriber in
/-- After any earlier data and timeouts, `commitData` returns for every data and no assertion fails,
because every turn of the outer loop leaves the loop, consumes a byte or empties the buffer, and every turn
of an inner loop consumes a byte or is the last one. -/
theorem commitData_terminates {settings : TransmissionChannel} {s₀ s : CompactASN1Subscriber}
    (hinit : init { portIDs := [] } settings = .ok s₀) (hknown : KnownPorts settings.portIDs) (env : Surroundings)
    {inputs : List Input} (hs : LabelledRun.exec (receive env) s₀ inputs = some s) (data : List UInt8) :
    (∃ r, CommitData env (.init settings) s data (.ok r) ∧ s.commitData env data = some r ∧
      ∀ r', CommitData env (.init settings) s data r' → r' = .ok r) ∧
    (∀ t, (commitLoop env (.init settings)).Visits { s with remainingRawData := s.remainingRawData ++ data } t →
      (commitLoop env (.init settings)).condition t → ∀ o, (commitLoop env (.init settings)).body t o →
        (∃ t', o = .leave t') ∨ ∃ t', o = .next t' ∧
          (t'.remainingRawData.length < t.remainingRawData.length ∨ t'.remainingRawData = [])) ∧
    ∀ p p', (processLoop env).condition p → (processLoop env).body p (.next p') →
      p'.2.2.length < p.2.2.length ∨ ¬(processLoop env).condition p' := by
  refine ⟨exists_commitData_received hinit hknown hs data, ?_, fun p p' => processTurn_progress⟩
  obtain ⟨r, hr, hinv⟩ := exists_received hinit env inputs
  cases hs.symm.trans hr
  have hturn (t : CompactASN1Subscriber) (ht : t.Sound settings.portIDs)
      (hcond : (commitLoop env (.init settings)).condition t) (o : Turn CompactASN1Subscriber Assertion)
      (ho : (commitLoop env (.init settings)).body t o) : (commitLoop env (.init settings)).Proceeds
        (Sound settings.portIDs) (fun _ => True) (fun s => s.remainingRawData.length) t o := by
    obtain ⟨o', ho', hproceeds⟩ := commitTurn_sound hknown rfl ht hcond
    rwa [commitLoop_deterministic t o o' ho ho']
  intro t hvisits hcond o ho
  have hstart : { s with remainingRawData := s.remainingRawData ++ data }.Sound settings.portIDs :=
    ⟨hinv.portIDs, hinv.ready, hinv.event, hinv.pushed⟩
  have hsound : t.Sound settings.portIDs := by
    refine hvisits.invariant (Sound settings.portIDs) ?_ hstart
    intro s t hs hcond hnext
    cases hturn s hs hcond _ hnext with
    | next ht => exact ht
  cases hturn t hsound hcond o ho with
  | @leave t' => exact .inl ⟨t', rfl⟩
  | @next t' _ hprogress =>
    refine .inr ⟨t', rfl, hprogress.imp_right fun hlast => ?_⟩
    exact List.length_eq_zero_iff.mp (Nat.eq_zero_of_not_pos hlast)

/-- Data with an unsupported tag after half a message. -/
theorem commitData_terminates_pair :
    ∃ s, LabelledRun.exec (CompactASN1Subscriber.receive .exact) { portIDs := pairChannel.portIDs }
        [.commitData [0x41]] = some s ∧
      ∃ r, CommitData .exact (.init pairChannel) s [0x44, 0, 0, 0, 5, 0xFF] (.ok r) ∧
        s.commitData .exact [0x44, 0, 0, 0, 5, 0xFF] = some r ∧
        ∀ r', CommitData .exact (.init pairChannel) s [0x44, 0, 0, 0, 5, 0xFF] r' → r' = .ok r := by
  have hinit : CompactASN1Subscriber.init { portIDs := [] } pairChannel = .ok { portIDs := pairChannel.portIDs } := rfl
  obtain ⟨s, hs, -⟩ := CompactASN1Subscriber.exists_received hinit .exact [.commitData [0x41]]
  exact ⟨s, hs, (commitData_terminates hinit (by unfold KnownPorts; decide) .exact hs _).1⟩

/-- The first byte for a port of unknown type fails the assertion of the inner loop. -/
theorem commitData_unknown {settings : TransmissionChannel} {number : Int} {ids : List PortID}
    (hports : settings.portIDs = (.fmiTypeUnknown, number) :: ids) (env : Surroundings) (byte : UInt8)
    (data : List UInt8) :
    CommitData env (.init settings) { portIDs := settings.portIDs } (byte :: data) (.error .knownPortType) := by
  have htimer : (Pointers.init settings).packetTimeoutTimer = true := by
    rw [Pointers.init, hports]
    rfl
  rw [CommitData, if_pos htimer]
  refine .fail (Nat.succ_pos _) ⟨.error .knownPortType, ?_, rfl⟩
  refine ⟨.error .knownPortType, ?_, rfl⟩
  have hcond : (processLoop env).condition
      (⟨.ok, 0⟩, { time := env.getTimeStampNow 0, portTemplate := settings.portIDs }, byte :: data) := by
    refine ⟨Nat.succ_pos _, ?_, .inl rfl⟩
    rw [PartialEvent.hasRemainingElements, hports]
    rfl
  refine .fail hcond ?_
  have htype : PartialEvent.getNextPortType { time := env.getTimeStampNow 0, portTemplate := settings.portIDs } =
      .fmiTypeUnknown := by
    rw [PartialEvent.getNextPortType, PartialEvent.nextPort, hports]
    rfl
  have hturn := processTurn_unknown hcond htype
  exact (congrArg Turn.ofExcept hturn).symm

end FMITerminalBlock.Network.Asserted
