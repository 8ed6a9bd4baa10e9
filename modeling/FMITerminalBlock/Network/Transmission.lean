import FMITerminalBlock.Network.Decoding

/-! Publisher and subscriber together: what is sent in the default encoding of its type arrives,
however the data is cut on its way. -/
namespace FMITerminalBlock.Network
open Base Timing ASN1Commons

/-! ### Single values -/

/-- The size of a string has to fit its length field, and other truth values than `fmiTrue` are
not kept apart. -/
def Transmissible : Value → Prop
  | .boolean value => value = fmiTrue ∨ value = fmiFalse
  | .string value => value.length < 2 ^ 16
  | _ => True

/-- A value of an FMI type as it is found in its default encoding. -/
def Received.ofType : (type : FMIVariableType) → Carrier type → Received
  | .fmiTypeReal, bits => .lreal bits
  | .fmiTypeInteger, value => .dint value
  | .fmiTypeBoolean, value => .bool value
  | .fmiTypeString, value => .string value
  | .fmiTypeUnknown, value => nomatch value

/-- Converting between identical types changes nothing. -/
def Surroundings.KeepsIdenticalTypes (env : Surroundings) : Prop :=
  ∀ type value, env.convert type (.ofType type value) = some value

/-- The bytes sent for a value, and the value read from them. -/
def transmit : Value → List UInt8 × Received
  | .real bits => (CompactASN1Publisher.encodeLREALValue bits, .lreal bits)
  | .integer value => (CompactASN1Publisher.encodeInteger value, .dint value)
  | .boolean value => (CompactASN1Publisher.encodeBoolean value, .bool value)
  | .string value => (CompactASN1Publisher.encodeString value, .string value)
  | .empty => ([], .string [])

theorem framed_bitVec {tag : UInt8} (size : Nat) {make : BitVec (8 * size) → Received}
    (htag : readFunction tag = some (readNumber size fun bits => make (BitVec.ofNat _ bits)))
    (value : BitVec (8 * size)) : Framed (tag :: BigEndian.encode size value.toNat) (make value) := by
  have hframed := framed_number htag (BigEndian.length_encode size value.toNat)
  have hwidth : value.toNat < 256 ^ size := by
    calc value.toNat < 2 ^ (8 * size) := value.isLt
      _ = 256 ^ size := by rw [pow_mul]; norm_num
  rwa [BigEndian.decode_encode, Nat.mod_eq_of_lt hwidth, BitVec.ofNat_toNat, BitVec.setWidth_eq] at hframed

theorem framed_transmit {v : Variable} (hvalid : v.isValid = true) (h : Transmissible v.value) :
    Framed (transmit v.value).1 (transmit v.value).2 := by
  obtain ⟨id, value⟩ := v
  cases value with
  | real bits => exact framed_bitVec 8 rfl bits
  | integer value => exact framed_bitVec 4 rfl value
  | boolean value =>
    rcases h with rfl | rfl
    · exact framed_boolean rfl
    · exact framed_boolean rfl
  | string value =>
    have hsize : value.length % 2 ^ 16 = value.length := Nat.mod_eq_of_lt h
    simp only [transmit, CompactASN1Publisher.encodeString, hsize, List.take_length]
    apply framed_string (BigEndian.length_encode 2 _)
    rw [BigEndian.decode_encode]
    exact hsize
  | empty =>
    obtain ⟨type, number⟩ := id
    cases type <;> cases hvalid

theorem encodeValue_default (toFloat : BitVec 64 → BitVec 32) {v : Variable} (hvalid : v.isValid = true)
    {type : DataType} (htype : CompactASN1Publisher.getDefaultType v.id.1 = some type) :
    CompactASN1Publisher.encodeValue toFloat type v.value = some (transmit v.value).1 := by
  obtain ⟨⟨fmiType, number⟩, value⟩ := v
  cases fmiType <;> cases htype <;> cases value <;> first | rfl | cases hvalid

/-- The variable that a port makes of a value, unless the value is not convertible. -/
def convertFor (env : Surroundings) (id : PortID) (value : Received) : Option Variable :=
  (env.convert id.1 value).map fun converted => ⟨id, .of id.1 converted⟩

theorem PartialEvent.accept_var (env : Surroundings) (ev : PartialEvent) (value : Received) :
    (ev.accept env value).var = ev.var ++ (convertFor env ev.nextPort value).toList := by
  rw [accept, convertFor, ← getNextPortType]
  cases env.convert ev.getNextPortType value with
  | none => exact (List.append_nil _).symm
  | some converted => rfl

/-- The value arrives at every port of its type. -/
theorem convertFor_transmit {env : Surroundings} (henv : env.KeepsIdenticalTypes) {id : PortID} {v : Variable}
    (hvalid : v.isValid = true) (htype : id.1 = v.id.1) :
    convertFor env id (transmit v.value).2 = some ⟨id, v.value⟩ := by
  obtain ⟨type, number⟩ := id
  obtain rfl : type = v.id.1 := htype
  obtain ⟨x, hx⟩ := Option.isSome_iff_exists.mp hvalid
  rw [Value.anyCast_eq_some] at hx
  have hreceived : (transmit v.value).2 = .ofType v.id.1 x := by
    rw [hx]
    obtain ⟨⟨fmiType, number⟩, value⟩ := v
    cases fmiType <;> first | rfl | exact nomatch x
  rw [convertFor, hreceived, henv, Option.map_some, hx]

/-! ### Cutting the data -/

namespace CompactASN1Subscriber

/-- The subscriber with other data in its buffer. -/
def withData (s : CompactASN1Subscriber) (data : List UInt8) : CompactASN1Subscriber :=
  { s with remainingRawData := data }

/-- The subscriber after one complete value that is followed by nothing. -/
def absorbBlock (env : Surroundings) (s : CompactASN1Subscriber) (block : List UInt8 × Received) :
    CompactASN1Subscriber :=
  (s.withData block.1).absorb env block.2 []

/-- The subscriber while the beginning of a value waits for the rest. -/
def hold (env : Surroundings) (s : CompactASN1Subscriber) (tail : List UInt8) : CompactASN1Subscriber :=
  if tail = [] then s.withData [] else (s.startEvent env).withData tail

variable {env : Surroundings}

@[simp] theorem withData_remainingRawData (s : CompactASN1Subscriber) (data : List UInt8) :
    (s.withData data).remainingRawData = data := rfl

@[simp] theorem withData_withData (s : CompactASN1Subscriber) (data data' : List UInt8) :
    (s.withData data).withData data' = s.withData data' := rfl

@[simp] theorem startEvent_withData (s : CompactASN1Subscriber) (data : List UInt8) :
    (s.withData data).startEvent env = (s.startEvent env).withData data := by
  obtain ⟨portIDs, partialData, _⟩ := s
  cases partialData <;> rfl

@[simp] theorem startEvent_startEvent (s : CompactASN1Subscriber) :
    (s.startEvent env).startEvent env = s.startEvent env := by
  obtain ⟨ev, hev, -⟩ := startEvent_spec env s
  exact startEvent_of_some hev

theorem absorb_withData (s : CompactASN1Subscriber) (bytes rest : List UInt8) (value : Received) :
    (s.withData (bytes ++ rest)).absorb env value rest = (s.absorbBlock env (bytes, value)).withData rest := by
  obtain ⟨ev, hev, -⟩ := startEvent_spec env s
  have hstart (data : List UInt8) : ((s.withData data).startEvent env).partialData = some ev := by
    rw [startEvent_withData]
    exact hev
  have hprogress (next : PartialEvent) : ((s.startEvent env).withData (bytes ++ rest)).progress next rest =
      (((s.startEvent env).withData bytes).progress next []).withData rest := by
    simp [progress, consumeTo, withData]
  rw [absorbBlock, absorb_of_some (hstart _), absorb_of_some (hstart _), startEvent_withData, startEvent_withData,
    hprogress]
  split
  · rfl
  · rfl

theorem absorbBlock_startEvent (s : CompactASN1Subscriber) (block : List UInt8 × Received) :
    (s.startEvent env).absorbBlock env block = s.absorbBlock env block := by
  simp only [absorbBlock, absorb, startEvent_withData, startEvent_startEvent]

theorem hold_startEvent (s : CompactASN1Subscriber) {tail : List UInt8} (h : tail ≠ []) :
    (s.startEvent env).hold env tail = s.hold env tail := by
  rw [hold, hold, if_neg h, if_neg h, startEvent_startEvent]

theorem decodes_blocks (env : Surroundings) {past future : List (List UInt8 × Received)} {tail : List UInt8}
    (hvalid : ∀ block ∈ past ++ future, Framed block.1 block.2)
    (htail : Segmentation.Beginning Prod.fst future tail) (s : CompactASN1Subscriber) :
    Decodes env (s.withData (past.flatMap Prod.fst ++ tail)) ((past.foldl (absorbBlock env) s).hold env tail) := by
  induction past generalizing s with
  | nil =>
    rcases htail with rfl | ⟨block, rest, back, rfl, hblock, hne, hback⟩
    · exact .finished rfl
    · obtain ⟨missing, hread⟩ := (hvalid block List.mem_cons_self).truncated tail back hblock hne hback
      have hdecodes : Decodes env (s.withData tail) _ := .incomplete hne hread
      rw [startEvent_withData] at hdecodes
      rwa [List.foldl_nil, hold, if_neg hne]
  | cons block past ih =>
    have hread := (hvalid block List.mem_cons_self).whole (past.flatMap Prod.fst ++ tail)
    rw [List.flatMap_cons, List.append_assoc]
    apply Decodes.value hread
    rw [absorb_withData]
    exact ih (fun b hb => hvalid b (List.mem_cons_of_mem _ hb)) _

theorem Ready.absorbBlock {s : CompactASN1Subscriber} (h : s.Ready) (block : List UInt8 × Received) :
    (s.absorbBlock env block).Ready := by
  have hready : (s.withData block.1).Ready := h
  exact (hready.absorb env block.2 []).1

/-- One call takes the subscriber from any position in the stream to any later one. -/
theorem commitData_blocks {s : CompactASN1Subscriber} (hs : s.Ready)
    {past future : List (List UInt8 × Received)} {tail tail' data : List UInt8}
    (hvalid : ∀ block ∈ past ++ future, Framed block.1 block.2)
    (hdata : tail ++ data = past.flatMap Prod.fst ++ tail')
    (htail' : Segmentation.Beginning Prod.fst future tail') :
    commitData env (s.hold env tail) data =
      some ((past.foldl (CompactASN1Subscriber.absorbBlock env) s).hold env tail') := by
  by_cases htail : tail = []
  · rw [hold, if_pos htail]
    rw [htail, List.nil_append] at hdata
    rw [hdata]
    exact commitLoop_of_decodes hs (decodes_blocks env hvalid htail' s)
  · -- The event has been started for the beginning of the value already.
    have hcommit : commitData env (s.hold env tail) data =
        some ((past.foldl (CompactASN1Subscriber.absorbBlock env) (s.startEvent env)).hold env tail') := by
      have hdecodes := decodes_blocks env hvalid htail' (s.startEvent env)
      rw [← hdata] at hdecodes
      rw [hold, if_neg htail]
      exact commitLoop_of_decodes hs.startEvent hdecodes
    rw [hcommit]
    cases past with
    | nil =>
      rw [List.flatMap_nil, List.nil_append] at hdata
      have htail'ne : tail' ≠ [] := by
        rw [← hdata]
        exact List.append_ne_nil_of_left_ne_nil htail _
      exact congrArg some (hold_startEvent s htail'ne)
    | cons block past => rw [List.foldl_cons, List.foldl_cons, absorbBlock_startEvent]

/-- Any cutting of complete values, and possibly the beginning of another one, leads to the state after
one value after the other. -/
theorem commitAll_beginning (env : Surroundings) {s : CompactASN1Subscriber} (hs : s.Ready)
    (hdata : s.remainingRawData = []) {blocks future : List (List UInt8 × Received)} {last : List UInt8}
    (hvalid : ∀ block ∈ blocks ++ future, Framed block.1 block.2)
    (hlast : Segmentation.Beginning Prod.fst future last)
    {chunks : List (List UInt8)} (hchunks : chunks.flatten = blocks.flatMap Prod.fst ++ last) :
    commitAll env s chunks = some ((blocks.foldl (CompactASN1Subscriber.absorbBlock env) s).hold env last) := by
  have hstart : s.hold env [] = s := by
    rw [hold, if_pos rfl, withData, ← hdata]
  have hall := Segmentation.foldlM_chunks (hold env) (fun _ h => h.ne_nil)
    (fun s block h => h.absorbBlock block)
    (fun s past future tail tail' data h hv hd _ ht => commitData_blocks h hv hd ht) hs hvalid (.inl rfl) hlast
    (hchunks.symm)
  rw [hstart] at hall
  exact hall

theorem commitAll_blocks (env : Surroundings) {s : CompactASN1Subscriber} (hs : s.Ready)
    (hdata : s.remainingRawData = [])
    {blocks : List (List UInt8 × Received)} (hvalid : ∀ block ∈ blocks, Framed block.1 block.2)
    {chunks : List (List UInt8)} (hchunks : chunks.flatten = blocks.flatMap Prod.fst) :
    commitAll env s chunks = some ((blocks.foldl (CompactASN1Subscriber.absorbBlock env) s).withData []) := by
  have hnone : Segmentation.Beginning Prod.fst ([] : List (List UInt8 × Received)) [] := .inl rfl
  have hvalid' : ∀ block ∈ blocks ++ [], Framed block.1 block.2 := by rwa [List.append_nil]
  have hall := commitAll_beginning env hs hdata hvalid' hnone (by rw [hchunks, List.append_nil])
  rwa [hold, if_pos rfl] at hall

/-! ### Whole messages -/

/-- The ports of an event that are still to be filled. -/
def openPorts (ev : PartialEvent) : List PortID := ev.portTemplate.drop ev.nextTemplateIndex

theorem hasRemainingElements_openPorts (ev : PartialEvent) :
    ev.hasRemainingElements = true ↔ openPorts ev ≠ [] := by
  simp [PartialEvent.hasRemainingElements, openPorts]

theorem openPorts_cons (env : Surroundings) {ev : PartialEvent} {id : PortID} {ids : List PortID}
    (h : openPorts ev = id :: ids) (value : Received) : ev.nextPort = id ∧ openPorts (ev.accept env value) = ids := by
  constructor
  · have hget : ev.portTemplate[ev.nextTemplateIndex]? = some id := by
      rw [← List.head?_drop, ← openPorts, h, List.head?_cons]
    rw [PartialEvent.nextPort, List.getD_eq_getElem?_getD, hget, Option.getD_some]
  · have htail : (openPorts ev).tail = ids := by rw [h, List.tail_cons]
    rw [openPorts, List.tail_drop] at htail
    rw [PartialEvent.accept]
    split
    · exact htail
    · exact htail

@[simp] theorem startEvent_pushed (s : CompactASN1Subscriber) : (s.startEvent env).pushed = s.pushed := by
  rw [startEvent]
  split <;> rfl

/-- The value of one port extends the event, and that of the last port completes it. -/
theorem absorbBlock_open {s : CompactASN1Subscriber} {ev : PartialEvent}
    (hev : (s.startEvent env).partialData = some ev) {id : PortID} {ids : List PortID}
    (hopen : openPorts ev = id :: ids) (block : List UInt8 × Received) :
    (s.absorbBlock env block).portIDs = s.portIDs ∧
      if ids = [] then
        (s.absorbBlock env block).partialData = none ∧
        ∃ first last, (s.absorbBlock env block).pushed = s.pushed ++ [⟨ev.accept env block.2, first, last⟩]
      else
        (s.absorbBlock env block).partialData = some (ev.accept env block.2) ∧
        (s.absorbBlock env block).pushed = s.pushed := by
  have hstart : ((s.withData block.1).startEvent env).partialData = some ev := by
    rw [startEvent_withData]
    exact hev
  have hremaining := hasRemainingElements_openPorts (ev.accept env block.2)
  rw [(openPorts_cons env hopen block.2).2] at hremaining
  rw [absorbBlock, absorb_of_some hstart, startEvent_withData]
  by_cases hids : ids = []
  · rw [if_pos hids, if_neg fun h => hremaining.mp h hids]
    refine ⟨by simp [progress, consumeTo, withData], by simp, ?_⟩
    rw [pushPartialEvent_of_some rfl]
    exact ⟨_, _, congrArg (· ++ [_]) (startEvent_pushed s)⟩
  · rw [if_neg hids, if_pos (hremaining.mpr hids)]
    simp [progress, consumeTo, withData]

/-- The variables that ports make of the values they are given. -/
def convertAll (env : Surroundings) (ids : List PortID) (values : List Received) : List Variable :=
  (ids.zip values).flatMap fun port => (convertFor env port.1 port.2).toList

theorem convertAll_cons (env : Surroundings) (id : PortID) (ids : List PortID) (value : Received)
    (values : List Received) :
    convertAll env (id :: ids) (value :: values) = (convertFor env id value).toList ++ convertAll env ids values :=
  List.flatMap_cons

@[simp] theorem convertAll_nil (env : Surroundings) (ids : List PortID) : convertAll env ids [] = [] := by
  rw [convertAll, List.zip_nil_right, List.flatMap_nil]

/-- Values for some of the open ports leave the event open. -/
theorem absorb_some {ids : List PortID} {blocks : List (List UInt8 × Received)} (hlength : blocks.length < ids.length)
    (hne : blocks ≠ []) {s : CompactASN1Subscriber} {ev : PartialEvent} (hev : (s.startEvent env).partialData = some ev)
    (hopen : openPorts ev = ids) :
    ∃ next, (blocks.foldl (absorbBlock env) s).partialData = some next ∧
      (blocks.foldl (absorbBlock env) s).pushed = s.pushed ∧
      next.var = ev.var ++ convertAll env ids (blocks.map Prod.snd) := by
  induction blocks generalizing s ev ids with
  | nil => exact absurd rfl hne
  | cons block blocks ih =>
    obtain ⟨id, ids, rfl⟩ := List.exists_cons_of_length_pos (Nat.zero_lt_of_lt hlength)
    obtain ⟨hnext, hrest⟩ := openPorts_cons env hopen block.2
    obtain ⟨-, hstep⟩ := absorbBlock_open hev hopen block
    have hshorter : blocks.length < ids.length := Nat.lt_of_succ_lt_succ hlength
    have hids : ids ≠ [] := List.length_pos_iff.mp (Nat.zero_lt_of_lt hshorter)
    obtain ⟨hsome, hpushed⟩ := if_neg hids ▸ hstep
    have hvar := ev.accept_var env block.2
    rw [hnext] at hvar
    rw [List.foldl_cons]
    by_cases hblocks : blocks = []
    · subst hblocks
      refine ⟨_, hsome, hpushed, ?_⟩
      rw [hvar, List.map_cons, convertAll_cons, List.map_nil, convertAll_nil, List.append_nil]
    · obtain ⟨next, hnext', hpushed', hvar'⟩ := ih hshorter hblocks (by rw [startEvent_of_some hsome, hsome]) hrest
      refine ⟨next, hnext', hpushed'.trans hpushed, ?_⟩
      rw [hvar', hvar, List.append_assoc, List.map_cons, convertAll_cons]

/-- A value for every open port completes the event. -/
theorem absorb_all {ids : List PortID} {blocks : List (List UInt8 × Received)} (hlength : blocks.length = ids.length)
    (hne : ids ≠ []) {s : CompactASN1Subscriber} {ev : PartialEvent} (hev : (s.startEvent env).partialData = some ev)
    (hopen : openPorts ev = ids) :
    ∃ s' pushed, blocks.foldl (absorbBlock env) s = s' ∧
      s'.portIDs = s.portIDs ∧ s'.partialData = none ∧ s'.pushed = s.pushed ++ [pushed] ∧
      pushed.event.var = ev.var ++ convertAll env ids (blocks.map Prod.snd) := by
  induction ids generalizing s ev blocks with
  | nil => exact absurd rfl hne
  | cons id ids ih =>
    obtain ⟨block, blocks, rfl⟩ := List.exists_cons_of_length_pos (by rw [hlength]; exact Nat.succ_pos _)
    obtain ⟨hnext, hrest⟩ := openPorts_cons env hopen block.2
    obtain ⟨hports, hstep⟩ := absorbBlock_open hev hopen block
    have hvar := ev.accept_var env block.2
    rw [hnext] at hvar
    have hlength' : blocks.length = ids.length := Nat.succ.inj hlength
    rw [List.foldl_cons]
    by_cases hids : ids = []
    · obtain ⟨hnone, first, last, hpushed⟩ := if_pos hids ▸ hstep
      subst hids
      rw [List.length_nil, List.length_eq_zero_iff] at hlength'
      subst hlength'
      refine ⟨_, _, rfl, hports, hnone, hpushed, ?_⟩
      rw [hvar, List.map_cons, convertAll_cons, List.map_nil, convertAll_nil, List.append_nil]
    · obtain ⟨hsome, hpushed⟩ := if_neg hids ▸ hstep
      obtain ⟨s', pushed, hs', hports', hnone, hpushed', hvar'⟩ :=
        ih hlength' hids (by rw [startEvent_of_some hsome, hsome]) hrest
      refine ⟨s', pushed, hs', hports'.trans hports, hnone, hpushed ▸ hpushed', ?_⟩
      rw [hvar', hvar, List.append_assoc, List.map_cons, convertAll_cons]

/-- An event that is not started yet has all ports of the subscriber before it. -/
theorem startEvent_new (env : Surroundings) {s : CompactASN1Subscriber} (hnone : s.partialData = none) :
    ∃ ev, (s.startEvent env).partialData = some ev ∧ ev.var = [] ∧ openPorts ev = s.portIDs := by
  rw [startEvent, hnone]
  exact ⟨_, rfl, rfl, List.drop_zero⟩

/-- The events decoded from a sequence of messages, each with a value for every port. -/
theorem absorb_messages (env : Surroundings) {s : CompactASN1Subscriber} (hnone : s.partialData = none)
    (hne : s.portIDs ≠ []) {messages : List (List (List UInt8 × Received))}
    (hlength : ∀ message ∈ messages, message.length = s.portIDs.length) :
    ∃ s' events, messages.flatten.foldl (absorbBlock env) s = s' ∧
      s'.portIDs = s.portIDs ∧ s'.partialData = none ∧ s'.pushed = s.pushed ++ events ∧
      events.map (fun pushed => pushed.event.var) =
        messages.map fun message => convertAll env s.portIDs (message.map Prod.snd) := by
  induction messages generalizing s with
  | nil => exact ⟨s, [], rfl, rfl, hnone, (List.append_nil _).symm, rfl⟩
  | cons message messages ih =>
    obtain ⟨ev, hev, hvar, hopen⟩ := startEvent_new env hnone
    obtain ⟨s₁, pushed, hs₁, hports, hnone₁, hpushed, hvar₁⟩ :=
      absorb_all (hlength message List.mem_cons_self) hne hev hopen
    obtain ⟨s', events, hs', hports', hnone', hpushed', hvars⟩ := ih hnone₁ (hports ▸ hne)
      fun next hnext => hports ▸ hlength next (List.mem_cons_of_mem _ hnext)
    refine ⟨s', pushed :: events, ?_, hports'.trans hports, hnone', ?_, ?_⟩
    · rw [List.flatten_cons, List.foldl_append, hs₁, hs']
    · rw [hpushed', hpushed, List.append_assoc, List.singleton_append]
    · rw [List.map_cons, List.map_cons, hvars, hports, hvar₁, hvar, List.nil_append]

theorem convertAll_transmit (henv : env.KeepsIdenticalTypes) {ids : List PortID} {image : List Variable}
    (hmatch : List.Forall₂ (fun id v => id.1 = v.id.1 ∧ v.isValid = true) ids image) :
    convertAll env ids ((image.map fun v => transmit v.value).map Prod.snd) =
      List.zipWith (fun id v => ⟨id, v.value⟩) ids image := by
  induction hmatch with
  | nil => rfl
  | @cons id v ids image hv hmatch ih =>
    rw [List.map_cons, List.map_cons, convertAll_cons, convertFor_transmit henv hv.2 hv.1, ih, Option.toList_some,
      List.singleton_append, List.zipWith_cons_cons]

end CompactASN1Subscriber
/-! ### The channel -/

namespace CompactASN1Publisher

theorem defaults_known {type : FMIVariableType} (h : type ∈ FMIVariableType.known) :
    (∃ value, initialValue type = some value) ∧ ∃ encoding, getDefaultType type = some encoding := by
  cases type with
  | fmiTypeUnknown => exact absurd h (by decide)
  | _ => exact ⟨⟨_, rfl⟩, _, rfl⟩

theorem initOutputVariables_known {ports : List PortID}
    (hknown : ∀ id ∈ ports, id.1 ∈ FMIVariableType.known) : ∃ vars, initOutputVariables ports = some vars := by
  induction ports with
  | nil => exact ⟨[], rfl⟩
  | cons id ports ih =>
    obtain ⟨vars, hvars⟩ := ih fun other hother => hknown other (List.mem_cons_of_mem _ hother)
    obtain ⟨⟨value, hvalue⟩, -⟩ := defaults_known (hknown id List.mem_cons_self)
    refine ⟨⟨id, value⟩ :: vars, ?_⟩
    rw [initOutputVariables] at hvars ⊢
    simp [List.mapM_cons, hvalue, hvars]

/-- No encoding is configured, or just the default one. -/
def DefaultEncoding (id : PortID) (portConfig : Ptree) : Prop :=
  ∀ encodeType, portConfig.getChildOptional propEncodeType = some encodeType →
    dataTypeNames.lookup encodeType.data = getDefaultType id.1

theorem DefaultEncoding.outputType {id : PortID} {portConfig : Ptree} (h : DefaultEncoding id portConfig)
    {type : DataType} (htype : getDefaultType id.1 = some type) : outputType id portConfig = .ok type := by
  cases hconfig : portConfig.getChildOptional propEncodeType with
  | none => simp only [CompactASN1Publisher.outputType, htype, hconfig]
  | some encodeType =>
    have hlookup := (h encodeType hconfig).trans htype
    have hcastable : castable id.1 type = true := by
      obtain ⟨fmiType, number⟩ := id
      cases fmiType <;> cases htype <;> rfl
    simp only [CompactASN1Publisher.outputType, htype, hconfig, hlookup, if_pos hcastable]

theorem initOutputTypes_default {ports : List PortID} {configs : List Ptree}
    (hknown : ∀ id ∈ ports, id.1 ∈ FMIVariableType.known)
    (hconfigs : List.Forall₂ DefaultEncoding ports configs) (p : CompactASN1Publisher) :
    ∃ types, List.Forall₂ (fun id type => getDefaultType id.1 = some type) ports types ∧
      initOutputTypes (ports.zip configs) p = ({ p with outputTypes := p.outputTypes ++ types }, .ok ()) := by
  induction hconfigs generalizing p with
  | nil => exact ⟨[], .nil, by simp [initOutputTypes]⟩
  | @cons id config ports configs hconfig _ ih =>
    obtain ⟨-, type, htype⟩ := defaults_known (hknown id List.mem_cons_self)
    obtain ⟨types, htypes, hinit⟩ := ih (fun other hother => hknown other (List.mem_cons_of_mem _ hother))
      { p with outputTypes := p.outputTypes ++ [type] }
    refine ⟨type :: types, .cons htype htypes, ?_⟩
    rw [List.zip_cons_cons, initOutputTypes, hconfig.outputType htype]
    dsimp only
    rw [hinit, List.append_assoc, List.singleton_append]

/-- The message of an image is made of its values one after the other. -/
theorem encode_image (toFloat : BitVec 64 → BitVec 32) {p : CompactASN1Publisher}
    (h : List.Forall₂ (fun type v => getDefaultType v.id.1 = some type ∧ v.isValid = true) p.outputTypes
      p.outputVariables) :
    p.encodeASN1OutputVariables toFloat =
      some ((p.outputVariables.map fun v => transmit v.value).flatMap Prod.fst) := by
  obtain ⟨variables', types⟩ := p
  rw [encodeASN1OutputVariables, if_pos h.length_eq.symm]
  dsimp only at h ⊢
  have hvalues : ((types.zip variables').mapM fun port => encodeValue toFloat port.1 port.2.value) =
      some (variables'.map fun v => (transmit v.value).1) := by
    induction h with
    | nil => rfl
    | cons hv _ ih => simp [List.mapM_cons, encodeValue_default toFloat hv.2 hv.1, ih]
  rw [hvalues, Option.map_some, List.flatMap_map]
  rfl

end CompactASN1Publisher

/-- An image of the ports with values that can be transmitted. -/
structure IsImage (ports : List PortID) (image : List Variable) : Prop where
  ids : image.map Variable.id = ports
  valid : ∀ v ∈ image, v.isValid = true
  transmissible : ∀ v ∈ image, Transmissible v.value

theorem IsImage.forall₂ {ports : List PortID} {image : List Variable} (h : IsImage ports image) {α : Type*}
    {others : List α} {R : α → PortID → Prop} (hothers : List.Forall₂ R others ports) :
    List.Forall₂ (fun a v => R a v.id ∧ v.isValid = true) others image := by
  obtain ⟨rfl, hvalid, -⟩ := h
  rw [List.forall₂_map_right_iff] at hothers
  refine List.forall₂_iff_get.mpr ⟨hothers.length_eq, fun i h₁ h₂ => ⟨hothers.get h₁ h₂, hvalid _ (List.get_mem _ _)⟩⟩

theorem IsImage.framed {ports : List PortID} {image : List Variable} (h : IsImage ports image) :
    ∀ block ∈ image.map fun v => transmit v.value, Framed block.1 block.2 := by
  intro block hblock
  obtain ⟨v, hv, rfl⟩ := List.mem_map.mp hblock
  exact framed_transmit (h.valid v hv) (h.transmissible v hv)

private theorem flatten_messages (images : List (List Variable)) :
    (images.map fun image => (image.map fun v => transmit v.value).flatMap Prod.fst).flatten =
      (images.flatten.map fun v => transmit v.value).flatMap Prod.fst := by
  induction images with
  | nil => rfl
  | cons image images ih => simp [List.flatMap_append, ih]

private theorem mapM_eq_some_map {α β : Type*} {f : α → Option β} {g : α → β} {l : List α}
    (h : ∀ a ∈ l, f a = some (g a)) : l.mapM f = some (l.map g) := by
  induction l with
  | nil => rfl
  | cons a l ih =>
    have hl := ih fun b hb => h b (List.mem_cons_of_mem _ hb)
    simp [List.mapM_cons, h a List.mem_cons_self, hl]

/-- Both ends of a channel with default encodings can be initialized. -/
theorem exists_connected {sender receiver : TransmissionChannel}
    (hknown : ∀ id ∈ sender.portIDs, id.1 ∈ FMIVariableType.known) (hne : sender.portIDs ≠ [])
    (hdefault : List.Forall₂ CompactASN1Publisher.DefaultEncoding sender.portIDs sender.portConfig)
    (htypes : receiver.portIDs.map Prod.fst = sender.portIDs.map Prod.fst) :
    ∃ vars types, CompactASN1Publisher.init {} sender = (⟨vars, types⟩, .ok ()) ∧
      CompactASN1Subscriber.init { portIDs := [] } receiver = .ok { portIDs := receiver.portIDs } ∧
      receiver.portIDs ≠ [] ∧
      List.Forall₂ (fun id type => CompactASN1Publisher.getDefaultType id.1 = some type) sender.portIDs types ∧
      List.Forall₂ (fun id port : PortID => id.1 = port.1) receiver.portIDs sender.portIDs := by
  obtain ⟨vars, hvars⟩ := CompactASN1Publisher.initOutputVariables_known hknown
  obtain ⟨types, hencodings, hinit⟩ := CompactASN1Publisher.initOutputTypes_default hknown hdefault
    { outputVariables := vars }
  have hlength : receiver.portIDs.length = sender.portIDs.length := by
    simpa using congrArg List.length htypes
  have hne' : receiver.portIDs ≠ [] := fun h => hne (List.length_eq_zero_iff.mp (by rw [← hlength, h]; rfl))
  have hports : List.Forall₂ (fun id port : PortID => id.1 = port.1) receiver.portIDs sender.portIDs := by
    have hequal : List.Forall₂ Eq (receiver.portIDs.map Prod.fst) (sender.portIDs.map Prod.fst) :=
      List.forall₂_eq_eq_eq ▸ htypes
    rwa [List.forall₂_map_left_iff, List.forall₂_map_right_iff] at hequal
  refine ⟨vars, types, ?_, ?_, hne', hencodings, hports⟩
  · simp only [CompactASN1Publisher.init, hvars, hinit, List.nil_append]
  · rw [CompactASN1Subscriber.init, if_neg (by simpa using hne')]
    rfl

/-- Publisher and subscriber agree on the format: whatever images the publisher encodes and however
their messages are cut, the subscriber pushes one event for every message with all of its values
and keeps nothing back. -/
theorem messages_received_however_cut {env : Surroundings} (henv : env.KeepsIdenticalTypes)
    (toFloat : BitVec 64 → BitVec 32) {sender receiver : TransmissionChannel}
    (hknown : ∀ id ∈ sender.portIDs, id.1 ∈ FMIVariableType.known) (hne : sender.portIDs ≠ [])
    (hdefault : List.Forall₂ CompactASN1Publisher.DefaultEncoding sender.portIDs sender.portConfig)
    (htypes : receiver.portIDs.map Prod.fst = sender.portIDs.map Prod.fst) :
    ∃ p s, CompactASN1Publisher.init {} sender = (p, .ok ()) ∧
      CompactASN1Subscriber.init { portIDs := [] } receiver = .ok s ∧
      ∀ images : List (List Variable), (∀ image ∈ images, IsImage sender.portIDs image) →
        ∃ messages, images.mapM (fun image =>
            { p with outputVariables := image }.encodeASN1OutputVariables toFloat) = some messages ∧
          ∀ chunks : List (List UInt8), chunks.flatten = messages.flatten →
            ∃ s', s.commitAll env chunks = some s' ∧
              s'.pushed.map (fun pushed => pushed.event.var) =
                images.map (List.zipWith (fun id v => ⟨id, v.value⟩) receiver.portIDs) ∧
              s'.partialData = none ∧ s'.remainingRawData = [] := by
  obtain ⟨vars, types, hsender, hreceiver, hne', hencodings, hports⟩ := exists_connected hknown hne hdefault htypes
  refine ⟨{ outputVariables := vars, outputTypes := types }, { portIDs := receiver.portIDs }, hsender, hreceiver, ?_⟩
  intro images himages
  have hmessages : ∀ image ∈ images, CompactASN1Publisher.encodeASN1OutputVariables toFloat
      { outputVariables := image, outputTypes := types } =
        some ((image.map fun v => transmit v.value).flatMap Prod.fst) := by
    intro image himage
    exact CompactASN1Publisher.encode_image toFloat ((himages image himage).forall₂ hencodings.flip)
  refine ⟨_, mapM_eq_some_map hmessages, ?_⟩
  intro chunks hchunks
  have hready := CompactASN1Subscriber.ready_new hne'
  have hframed : ∀ block ∈ images.flatten.map (fun v => transmit v.value), Framed block.1 block.2 := by
    intro block hblock
    obtain ⟨v, hv, rfl⟩ := List.mem_map.mp hblock
    obtain ⟨image, himage, hv⟩ := List.mem_flatten.mp hv
    exact (himages image himage).framed _ (List.mem_map.mpr ⟨v, hv, rfl⟩)
  have hcommit := CompactASN1Subscriber.commitAll_blocks env hready rfl hframed
    (hchunks.trans (flatten_messages images))
  have hlength : ∀ message ∈ images.map fun image => image.map fun v => transmit v.value,
      message.length = receiver.portIDs.length := by
    intro message hmessage
    obtain ⟨image, himage, rfl⟩ := List.mem_map.mp hmessage
    rw [List.length_map, ((himages image himage).forall₂ hports).length_eq]
  obtain ⟨s', events, hs', -, hnone, hpushed, hevents⟩ := CompactASN1Subscriber.absorb_messages env
    (s := { portIDs := receiver.portIDs }) rfl hne' hlength
  rw [List.map_flatten, hs'] at hcommit
  refine ⟨_, hcommit, ?_, hnone, rfl⟩
  have hvars : events.map (fun pushed => pushed.event.var) =
      images.map (List.zipWith (fun id v => ⟨id, v.value⟩) receiver.portIDs) := by
    rw [hevents, List.map_map]
    refine List.map_congr_left fun image himage => ?_
    exact CompactASN1Subscriber.convertAll_transmit henv ((himages image himage).forall₂ hports)
  rw [← hvars]
  exact congrArg _ hpushed

theorem Surroundings.exact_keepsIdenticalTypes : Surroundings.exact.KeepsIdenticalTypes := by
  intro type value
  cases type <;> first | rfl | exact nomatch value

def mixedChannel : TransmissionChannel where
  channelConfig := .node [] []
  portIDs := [(.fmiTypeReal, 0), (.fmiTypeString, 0), (.fmiTypeBoolean, 0), (.fmiTypeInteger, 0)]
  portConfig := List.replicate 4 (.node [] [])

theorem mixedChannel_defaultEncoding :
    List.Forall₂ CompactASN1Publisher.DefaultEncoding mixedChannel.portIDs mixedChannel.portConfig := by
  have hnone (id : PortID) : CompactASN1Publisher.DefaultEncoding id (.node [] []) := by
    intro encodeType h
    cases h
  exact .cons (hnone _) (.cons (hnone _) (.cons (hnone _) (.cons (hnone _) .nil)))

theorem messages_received_mixed_channel :
    IsImage mixedChannel.portIDs [⟨(.fmiTypeReal, 0), .real 0x3FF0000000000000#64⟩,
      ⟨(.fmiTypeString, 0), .string (ascii "a;b")⟩, ⟨(.fmiTypeBoolean, 0), .boolean fmiTrue⟩,
      ⟨(.fmiTypeInteger, 0), .integer (-1)⟩] ∧
    ∃ p s, CompactASN1Publisher.init {} mixedChannel = (p, .ok ()) ∧
      CompactASN1Subscriber.init { portIDs := [] } mixedChannel = .ok s ∧
      ∀ images : List (List Variable), (∀ image ∈ images, IsImage mixedChannel.portIDs image) →
        ∃ messages, images.mapM (fun image =>
            { p with outputVariables := image }.encodeASN1OutputVariables fun _ => 0) = some messages ∧
          ∀ chunks : List (List UInt8), chunks.flatten = messages.flatten →
            ∃ s', s.commitAll .exact chunks = some s' ∧
              s'.pushed.map (fun pushed => pushed.event.var) =
                images.map (List.zipWith (fun id v => ⟨id, v.value⟩) mixedChannel.portIDs) ∧
              s'.partialData = none ∧ s'.remainingRawData = [] :=
  ⟨⟨rfl, by decide, by simp [Transmissible, ascii]⟩,
    messages_received_however_cut Surroundings.exact_keepsIdenticalTypes _ (by decide) (by decide)
      mixedChannel_defaultEncoding rfl⟩

end FMITerminalBlock.Network
