import FMITerminalBlock.Library.LabelledRun
import FMITerminalBlock.Network.StreamDecoding

/-! What holds of the decoder after any data and any timeouts: its buffer and the event under
construction fit together, and all events are well formed. -/
namespace FMITerminalBlock.Network
open Base Timing ASN1Commons

variable {env : Surroundings} {ports : List PortID}

/-! ### Events -/

/-- The variables belong to some of the ports, in their order, and have the types of these ports. -/
structure Fits (ports : List PortID) (vars : List Variable) : Prop where
  ids : (vars.map Variable.id).Sublist ports
  valid : ∀ v ∈ vars, v.isValid = true

/-- The event is made for the ports, and the ports filled so far lie before the next one. -/
structure PartialEvent.WellFormed (ports : List PortID) (ev : PartialEvent) : Prop where
  template : ev.portTemplate = ports
  filled : Fits (ports.take ev.nextTemplateIndex) ev.var

theorem Fits.mono {ports' : List PortID} {vars : List Variable} (h : Fits ports vars) (hsub : ports.Sublist ports') :
    Fits ports' vars := ⟨h.ids.trans hsub, h.valid⟩

theorem isValid_of (id : PortID) (x : Carrier id.1) : (Variable.mk id (.of id.1 x)).isValid = true := by
  rw [Variable.isValid, Value.anyCast_eq_some.mpr rfl]
  rfl

namespace PartialEvent

theorem WellFormed.fits {ev : PartialEvent} (h : ev.WellFormed ports) : Fits ports ev.var :=
  h.filled.mono (List.take_sublist _ _)

/-- A value is pushed for the next port, so the identifiers stay in order, whether or not ports are
left out. -/
theorem WellFormed.accept (env : Surroundings) {ev : PartialEvent} (h : ev.WellFormed ports)
    (hremaining : ev.hasRemainingElements = true) (value : Received) : (ev.accept env value).WellFormed ports := by
  obtain ⟨rfl, hfilled⟩ := h
  have hindex : ev.nextTemplateIndex < ev.portTemplate.length := by
    simpa [hasRemainingElements] using hremaining
  have hnext : ev.portTemplate.take (ev.nextTemplateIndex + 1) =
      ev.portTemplate.take ev.nextTemplateIndex ++ [ev.nextPort] := by
    rw [List.take_add_one, List.getElem?_eq_getElem hindex, nextPort, List.getD_eq_getElem?_getD,
      List.getElem?_eq_getElem hindex]
    rfl
  rw [PartialEvent.accept]
  split
  · rename_i converted _
    refine ⟨rfl, ?_⟩
    rw [pushNextValue]
    dsimp only
    rw [hnext]
    constructor
    · rw [List.map_append]
      exact hfilled.ids.append (List.Sublist.refl _)
    · intro v hv
      rcases List.mem_append.mp hv with hold | hnew
      · exact hfilled.valid v hold
      · rw [List.mem_singleton.mp hnew]
        exact isValid_of ev.nextPort converted
  · refine ⟨rfl, hfilled.mono ?_⟩
    rw [ignoreNextValue]
    dsimp only
    rw [hnext]
    exact List.sublist_append_left _ _

end PartialEvent

namespace CompactASN1Subscriber

/-- What every step of the decoding keeps, whatever is in the buffer. -/
structure Sound (ports : List PortID) (s : CompactASN1Subscriber) : Prop where
  portIDs : s.portIDs = ports
  ready : s.Ready
  event : ∀ ev ∈ s.partialData, ev.WellFormed ports
  pushed : ∀ pushed ∈ s.pushed, Fits ports pushed.event.var

theorem Sound.startEvent {s : CompactASN1Subscriber} (h : s.Sound ports) : (s.startEvent env).Sound ports := by
  refine ⟨by rw [startEvent_portIDs, h.portIDs], h.ready.startEvent, ?_, by rw [startEvent_pushed]; exact h.pushed⟩
  rw [CompactASN1Subscriber.startEvent]
  split
  · exact h.event
  · rintro _ ⟨⟩
    exact ⟨h.portIDs, List.nil_sublist _, List.forall_mem_nil _⟩

/-- The pushed event may be complete or not. -/
theorem sound_pushPartialEvent {s : CompactASN1Subscriber} (hports : s.portIDs = ports) (hne : ports ≠ [])
    (hevent : ∀ ev ∈ s.partialData, ev.WellFormed ports) (hpushed : ∀ pushed ∈ s.pushed, Fits ports pushed.event.var) :
    s.pushPartialEvent.Sound ports := by
  have hnone (P : PartialEvent → Prop) : ∀ ev ∈ s.pushPartialEvent.partialData, P ev := by
    rw [pushPartialEvent_partialData]
    intro ev hev
    cases hev
  refine ⟨by rw [pushPartialEvent_portIDs, hports], ⟨?_, hnone _⟩, hnone _, ?_⟩
  · rw [pushPartialEvent_portIDs, hports]
    exact hne
  · rw [pushPartialEvent]
    split
    · exact hpushed
    · rename_i ev hev
      intro pushed hmem
      rcases List.mem_append.mp hmem with hold | hnew
      · exact hpushed pushed hold
      · rw [List.mem_singleton.mp hnew]
        exact (hevent ev hev).fits

theorem Sound.ne_nil {s : CompactASN1Subscriber} (h : s.Sound ports) : ports ≠ [] := h.portIDs ▸ h.ready.1

theorem Sound.pushPartialEvent {s : CompactASN1Subscriber} (h : s.Sound ports) : s.pushPartialEvent.Sound ports :=
  sound_pushPartialEvent h.portIDs h.ne_nil h.event h.pushed

theorem Sound.clearUnprocessedData {s : CompactASN1Subscriber} (h : s.Sound ports) :
    s.clearUnprocessedData.Sound ports := ⟨h.portIDs, h.ready, h.event, h.pushed⟩

theorem Sound.absorb {s : CompactASN1Subscriber} (h : s.Sound ports) (value : Received) (rest : List UInt8) :
    (s.absorb env value rest).Sound ports := by
  have hstart : (s.startEvent env).Sound ports := h.startEvent
  obtain ⟨ev, hev, hremaining⟩ := h.ready.exists_event env
  have haccept := (hstart.event ev hev).accept env hremaining value
  have hevent (rest : List UInt8) :
      ∀ next ∈ ((s.startEvent env).progress (ev.accept env value) rest).partialData, next.WellFormed ports := by
    rintro _ ⟨⟩
    exact haccept
  have hready := (h.ready.absorb env value rest).1
  rw [absorb_of_some hev] at hready ⊢
  split
  · rename_i hopen
    rw [if_pos hopen] at hready
    exact ⟨hstart.portIDs, hready, hevent rest, hstart.pushed⟩
  · exact sound_pushPartialEvent hstart.portIDs h.ne_nil (hevent rest) hstart.pushed

/-! ### Any data and any timeouts -/

/-- The state between two calls: what is buffered is the beginning of one value, which an event waits for. -/
structure Invariant (ports : List PortID) (s : CompactASN1Subscriber) : Prop extends Sound ports s where
  waiting : s.remainingRawData ≠ [] → s.partialData.isSome = true
  beginning : ProperBeginning s.remainingRawData

theorem properBeginning_nil : ProperBeginning [] := ⟨_, .bool0, List.cons_ne_nil _ _⟩

theorem Sound.invariant {s : CompactASN1Subscriber} (h : s.Sound ports) (hempty : s.remainingRawData = []) :
    s.Invariant ports := by
  refine ⟨h, fun hne => absurd hempty hne, ?_⟩
  rw [hempty]
  exact properBeginning_nil

theorem Sound.decodes {s r : CompactASN1Subscriber} (h : s.Sound ports) (hr : Decodes env s r) :
    r.Invariant ports := by
  induction hr with
  | finished hdata => exact h.invariant hdata
  | value hread hdecodes ih => exact ih (h.absorb _ _)
  | @incomplete s missing hdata hread =>
    refine ⟨h.startEvent, fun _ => ?_, ?_⟩
    · obtain ⟨ev, hev, -⟩ := startEvent_spec env s
      rw [hev]
      rfl
    · rw [startEvent_remainingRawData]
      exact properBeginning_of_incomplete hdata hread
  | invalid hdata hread => exact h.startEvent.pushPartialEvent.clearUnprocessedData.invariant rfl

/-- What a subscriber receives: data, or nothing until the timer expires. -/
inductive Input where
  | commitData (data : List UInt8)
  | handlePacketTimeout
  deriving DecidableEq

def receive (env : Surroundings) (s : CompactASN1Subscriber) : Input → Option CompactASN1Subscriber
  | .commitData data => s.commitData env data
  | .handlePacketTimeout => some s.handlePacketTimeout

theorem Invariant.commitData {s : CompactASN1Subscriber} (h : s.Invariant ports) (env : Surroundings)
    (data : List UInt8) : ∃ r, s.commitData env data = some r ∧ r.Invariant ports := by
  obtain ⟨r, hr, -, hdecodes⟩ := commitData_spec env h.ready data
  have hsound : { s with remainingRawData := s.remainingRawData ++ data }.Sound ports :=
    ⟨h.portIDs, h.ready, h.event, h.pushed⟩
  exact ⟨r, hr, hsound.decodes hdecodes⟩

theorem Invariant.handlePacketTimeout {s : CompactASN1Subscriber} (h : s.Invariant ports) :
    s.handlePacketTimeout.Invariant ports := by
  rw [CompactASN1Subscriber.handlePacketTimeout]
  split
  · exact h.toSound.pushPartialEvent.clearUnprocessedData.invariant rfl
  · exact h

theorem Invariant.receive {s : CompactASN1Subscriber} (h : s.Invariant ports) (env : Surroundings) (input : Input) :
    ∃ r, s.receive env input = some r ∧ r.Invariant ports := by
  cases input with
  | commitData data => exact h.commitData env data
  | handlePacketTimeout => exact ⟨_, rfl, h.handlePacketTimeout⟩

theorem invariant_init {settings : TransmissionChannel} {s : CompactASN1Subscriber}
    (h : init { portIDs := [] } settings = .ok s) : s.Invariant settings.portIDs := by
  obtain ⟨rfl, hready⟩ := init_eq h
  have hsound : Sound settings.portIDs { portIDs := settings.portIDs } :=
    ⟨rfl, hready, fun ev hev => (by cases hev), List.forall_mem_nil _⟩
  exact hsound.invariant rfl

/-- All inputs are processed, and the invariant holds afterwards. -/
theorem exists_received {settings : TransmissionChannel} {s : CompactASN1Subscriber}
    (h : init { portIDs := [] } settings = .ok s) (env : Surroundings) (inputs : List Input) :
    ∃ r, LabelledRun.exec (receive env) s inputs = some r ∧ r.Invariant settings.portIDs := by
  have hs := invariant_init h
  clear h
  induction inputs generalizing s with
  | nil => exact ⟨s, rfl, hs⟩
  | cons input inputs ih =>
    obtain ⟨t, ht, htinv⟩ := hs.receive env input
    obtain ⟨r, hr, hrinv⟩ := ih htinv
    exact ⟨r, LabelledRun.exec_cons_eq_some.mpr ⟨t, ht, hr⟩, hrinv⟩

/-- No event is under construction and nothing is buffered, as after `init`. -/
def Initial (settings : TransmissionChannel) (s : CompactASN1Subscriber) : Prop :=
  s.portIDs = settings.portIDs ∧ s.partialData = none ∧ s.remainingRawData = []

/-- Complete values, and then a byte that is no supported tag. -/
def ReachesUnsupportedTag (bytes : List UInt8) : Prop :=
  ∃ (values : List (List UInt8)) (tag : UInt8) (rest : List UInt8), (∀ value ∈ values, WireValue value) ∧
    tag ∉ supportedTags ∧ bytes = values.flatten ++ tag :: rest

theorem decodes_unsupported (env : Surroundings) {blocks : List (List UInt8 × Received)}
    (hblocks : ∀ block ∈ blocks, Framed block.1 block.2) {tag : UInt8} (htag : tag ∉ supportedTags)
    (rest : List UInt8) (s : CompactASN1Subscriber) :
    ∃ r, Decodes env (s.withData (blocks.flatMap Prod.fst ++ tag :: rest)) r ∧
      r.partialData = none ∧ r.remainingRawData = [] := by
  induction blocks generalizing s with
  | nil =>
    refine ⟨_, .invalid (List.cons_ne_nil tag rest) (readValue_unsupported htag rest), ?_, rfl⟩
    rw [clearUnprocessedData_partialData, pushPartialEvent_partialData]
  | cons block blocks ih =>
    obtain ⟨hblock, hblocks⟩ := List.forall_mem_cons.mp hblocks
    obtain ⟨r, hr, hnone, hempty⟩ := ih hblocks (s.absorbBlock env block)
    refine ⟨r, ?_, hnone, hempty⟩
    rw [List.flatMap_cons, List.append_assoc]
    apply Decodes.value (hblock.whole _)
    rw [absorb_withData]
    exact hr

/-- An unsupported tag behind any number of complete values ends the event and empties the buffer. -/
theorem Invariant.commitData_unsupported {settings : TransmissionChannel} {s : CompactASN1Subscriber}
    (h : s.Invariant settings.portIDs) (env : Surroundings) {data : List UInt8}
    (hdata : ReachesUnsupportedTag (s.remainingRawData ++ data)) :
    ∃ t, s.commitData env data = some t ∧ t.Initial settings := by
  obtain ⟨values, tag, rest, hvalues, htag, hdata⟩ := hdata
  obtain ⟨blocks, hflat, hframed⟩ := exists_blocks hvalues
  obtain ⟨r, hr, hnone, hempty⟩ := decodes_unsupported env hframed htag rest s
  rw [hflat, ← hdata] at hr
  obtain ⟨t, ht, htinv⟩ := h.commitData env data
  have hsame : t = r := Option.some.inj (ht.symm.trans (commitLoop_of_decodes h.ready hr))
  exact ⟨t, ht, htinv.portIDs, by rw [hsame, hnone], by rw [hsame, hempty]⟩

theorem Invariant.timeout_initial {settings : TransmissionChannel} {s : CompactASN1Subscriber}
    (h : s.Invariant settings.portIDs) (hpending : s.partialData.isSome = true) :
    s.handlePacketTimeout.Initial settings := by
  refine ⟨h.handlePacketTimeout.portIDs, ?_⟩
  rw [CompactASN1Subscriber.handlePacketTimeout, if_pos hpending]
  exact ⟨pushPartialEvent_partialData s, rfl⟩

/-- Whatever bytes arrive and whenever the timer expires: the buffer holds the beginning of one value at
most, an event with open ports waits for it, and all pushed events fit the ports. An unsupported tag and
an effective timeout lead back to the initial state. -/
theorem decoder_invariant {settings : TransmissionChannel} {s : CompactASN1Subscriber}
    (hinit : init { portIDs := [] } settings = .ok s) (env : Surroundings) (inputs : List Input) :
    ∃ r, LabelledRun.exec (receive env) s inputs = some r ∧
      (r.remainingRawData ≠ [] → r.partialData.isSome = true) ∧
      (∀ ev ∈ r.partialData, ev.hasRemainingElements = true) ∧
      ProperBeginning r.remainingRawData ∧
      (∀ pushed ∈ r.pushed, Fits settings.portIDs pushed.event.var) ∧
      (∀ data, ReachesUnsupportedTag (r.remainingRawData ++ data) →
        ∃ t, r.receive env (.commitData data) = some t ∧ t.Initial settings) ∧
      (r.partialData.isSome = true →
        ∃ t, r.receive env .handlePacketTimeout = some t ∧ t.Initial settings) := by
  obtain ⟨r, hr, hinv⟩ := exists_received hinit env inputs
  refine ⟨r, hr, hinv.waiting, hinv.ready.2, hinv.beginning, hinv.pushed, ?_, ?_⟩
  · intro data hdata
    exact hinv.commitData_unsupported env hdata
  · intro hpending
    exact ⟨_, rfl, hinv.timeout_initial hpending⟩

/-- Half a message, a timeout, and then an unsupported tag. -/
theorem decoder_invariant_pair :
    ∃ r, LabelledRun.exec (receive .exact) { portIDs := pairChannel.portIDs }
        [.commitData [0x41, 0x44], .handlePacketTimeout, .commitData [0x40, 0xFF, 0x41]] = some r ∧
      (r.remainingRawData ≠ [] → r.partialData.isSome = true) ∧
      (∀ ev ∈ r.partialData, ev.hasRemainingElements = true) ∧
      ProperBeginning r.remainingRawData ∧
      (∀ pushed ∈ r.pushed, Fits pairChannel.portIDs pushed.event.var) ∧
      (∀ data, ReachesUnsupportedTag (r.remainingRawData ++ data) →
        ∃ t, r.receive .exact (.commitData data) = some t ∧ t.Initial pairChannel) ∧
      (r.partialData.isSome = true →
        ∃ t, r.receive .exact .handlePacketTimeout = some t ∧ t.Initial pairChannel) :=
  decoder_invariant rfl .exact _

end CompactASN1Subscriber
end FMITerminalBlock.Network
