import FMITerminalBlock.Library.DecimalText
import FMITerminalBlock.Network.Transmission

/-! Truth values and whole numbers that meet ports of the other type. The conversion goes over the text
of a value, and a truth value is a single character to it. -/
namespace FMITerminalBlock.Network
open Base Timing ASN1Commons

/-! ### The conversion -/

/-- `lexical_cast<char>` of a text. -/
def singleCharacter : StdString → Option UInt8
  | [c] => some c
  | _ => none

/-- `lexical_cast<int>` of a character. -/
def decimalDigit (c : UInt8) : Option (BitVec 32) :=
  if DecimalText.isDigit c then some (BitVec.ofNat 32 (DecimalText.value [c])) else none

/-- How `boost::lexical_cast` converts between the types of truth values and whole numbers. -/
structure Surroundings.ConvertsAsText (env : Surroundings) : Prop where
  booleanOfBool : ∀ value, env.convert .fmiTypeBoolean (.bool value) = some value
  booleanOfDint : ∀ value, env.convert .fmiTypeBoolean (.dint value) =
    singleCharacter (DecimalText.signed value.toInt)
  integerOfDint : ∀ value, env.convert .fmiTypeInteger (.dint value) = some value
  integerOfBool : ∀ value, env.convert .fmiTypeInteger (.bool value) = decimalDigit value

/-- Conversions between identical types and those over the text of a number. -/
def Surroundings.lexicalCast : Surroundings where
  convert
    | .fmiTypeBoolean, .dint value => singleCharacter (DecimalText.signed value.toInt)
    | .fmiTypeInteger, .bool value => decimalDigit value
    | type, value => Surroundings.exact.convert type value
  getTimeStampNow _ := 0

theorem Surroundings.lexicalCast_convertsAsText : Surroundings.lexicalCast.ConvertsAsText :=
  ⟨fun _ => rfl, fun _ => rfl, fun _ => rfl, fun _ => rfl⟩

/-! ### Messages of truth values and numbers -/

inductive TruthOrNumber where
  | dint (value : BitVec 32)
  | bool0
  | bool1
  deriving DecidableEq

namespace TruthOrNumber

/-- The bytes of the value, and what is read from them. -/
def block : TruthOrNumber → List UInt8 × Received
  | .dint value => ((classApplication ||| dintTagNr) :: BigEndian.encode 4 value.toNat, .dint value)
  | .bool0 => ([classApplication ||| bool0TagNr], .bool fmiFalse)
  | .bool1 => ([classApplication ||| bool1TagNr], .bool fmiTrue)

def IsTrue : TruthOrNumber → Prop
  | .dint value => value ≠ 0
  | .bool0 => False
  | .bool1 => True

def number : TruthOrNumber → BitVec 32
  | .dint value => value
  | .bool0 => 0
  | .bool1 => 1

/-- The variable of a port has the meaning of the received value. -/
def Survives (received : TruthOrNumber) (v : Variable) : Prop :=
  match v.id.1 with
  | .fmiTypeBoolean => ∃ value, v.value = .boolean value ∧ (value ≠ 0 ↔ received.IsTrue)
  | .fmiTypeInteger => v.value = .integer received.number
  | _ => False

theorem framed_block (received : TruthOrNumber) : Framed received.block.1 received.block.2 := by
  cases received with
  | dint value => exact framed_bitVec 4 rfl value
  | bool0 => exact framed_boolean rfl
  | bool1 => exact framed_boolean rfl

end TruthOrNumber

/-- The variables are those of the values that convert, in the order of the ports, and every one of them
has the meaning of its value. -/
inductive Carries (env : Surroundings) : List PortID → List TruthOrNumber → List Variable → Prop where
  | finished {ids} : Carries env ids [] []
  | dropped {id ids received message vars} : env.convert id.1 received.block.2 = none →
      Carries env ids message vars → Carries env (id :: ids) (received :: message) vars
  | kept {id ids received message value vars} : env.convert id.1 received.block.2 ≠ none →
      received.Survives ⟨id, value⟩ → Carries env ids message vars →
      Carries env (id :: ids) (received :: message) (⟨id, value⟩ :: vars)

/-- The number zero meets a port for truth values. -/
def ZeroForTruth (port : PortID × TruthOrNumber) : Prop :=
  port.1.1 = .fmiTypeBoolean ∧ port.2 = .dint 0

/-! ### Single values -/

/-- A text of one character is a digit: the minus sign is never alone. -/
theorem singleCharacter_signed {n : Int} {c : UInt8} (h : singleCharacter (DecimalText.signed n) = some c) :
    c ≠ 0 := by
  have hdigit : DecimalText.isDigit c = true := by
    unfold DecimalText.signed at h
    split at h
    · obtain ⟨d, ds, hdecimal⟩ := List.exists_cons_of_ne_nil (DecimalText.decimal_ne_nil n.natAbs)
      rw [hdecimal] at h
      cases h
    · apply DecimalText.isDigit_of_mem_decimal (n := n.natAbs)
      cases hdecimal : DecimalText.decimal n.natAbs with
      | nil => exact absurd hdecimal (DecimalText.decimal_ne_nil _)
      | cons d ds =>
        rw [hdecimal] at h
        cases ds with
        | nil =>
          cases h
          exact List.mem_singleton_self _
        | cons _ _ => cases h
  rintro rfl
  cases hdigit

theorem survives_iff {env : Surroundings} (henv : env.ConvertsAsText) {id : PortID}
    (hid : id.1 = .fmiTypeBoolean ∨ id.1 = .fmiTypeInteger) {received : TruthOrNumber} {v : Variable}
    (hv : convertFor env id received.block.2 = some v) :
    received.Survives v ↔ ¬ZeroForTruth (id, received) := by
  obtain ⟨type, number⟩ := id
  obtain ⟨x, hx, rfl⟩ := Option.map_eq_some_iff.mp hv
  rcases hid with rfl | rfl
  · have hboolean : received.Survives ⟨(.fmiTypeBoolean, number), .boolean x⟩ ↔ (x ≠ 0 ↔ received.IsTrue) :=
      ⟨fun ⟨_, hvalue, hmeaning⟩ => Value.boolean.inj hvalue ▸ hmeaning, fun hmeaning => ⟨x, rfl, hmeaning⟩⟩
    apply hboolean.trans
    cases received with
    | dint value =>
      have hne : x ≠ 0 := singleCharacter_signed ((henv.booleanOfDint value).symm.trans hx)
      simp [hne, TruthOrNumber.IsTrue, ZeroForTruth]
    | bool0 =>
      obtain rfl := Option.some.inj ((henv.booleanOfBool fmiFalse).symm.trans hx)
      simp [TruthOrNumber.IsTrue, ZeroForTruth, fmiFalse]
    | bool1 =>
      obtain rfl := Option.some.inj ((henv.booleanOfBool fmiTrue).symm.trans hx)
      simp [TruthOrNumber.IsTrue, ZeroForTruth, fmiTrue]
  · refine iff_of_true ?_ fun hzero => by cases hzero.1
    cases received with
    | dint value => exact congrArg Value.integer (Option.some.inj ((henv.integerOfDint value).symm.trans hx)).symm
    | bool0 => cases (henv.integerOfBool fmiFalse).symm.trans hx
    | bool1 => cases (henv.integerOfBool fmiTrue).symm.trans hx

theorem convertFor_zero {env : Surroundings} (henv : env.ConvertsAsText) {id : PortID} {received : TruthOrNumber}
    (h : ZeroForTruth (id, received)) : ∃ v, convertFor env id received.block.2 = some v := by
  obtain ⟨type, number⟩ := id
  obtain ⟨rfl, rfl⟩ := h
  refine ⟨⟨(.fmiTypeBoolean, number), .boolean 48⟩, ?_⟩
  have hconvert : env.convert .fmiTypeBoolean (TruthOrNumber.dint 0).block.2 = some 48 := henv.booleanOfDint 0
  rw [convertFor, hconvert]
  rfl

theorem carries_iff {env : Surroundings} (henv : env.ConvertsAsText) {ids : List PortID}
    (hids : ∀ id ∈ ids, id.1 = .fmiTypeBoolean ∨ id.1 = .fmiTypeInteger) {message : List TruthOrNumber}
    (hlength : message.length ≤ ids.length) :
    Carries env ids message (CompactASN1Subscriber.convertAll env ids (message.map fun received => received.block.2)) ↔
      ∀ port ∈ ids.zip message, ¬ZeroForTruth port := by
  induction message generalizing ids with
  | nil =>
    rw [List.map_nil, CompactASN1Subscriber.convertAll_nil, List.zip_nil_right]
    exact iff_of_true .finished (List.forall_mem_nil _)
  | cons received message ih =>
    obtain ⟨id, ids, rfl⟩ := List.exists_cons_of_length_pos (Nat.zero_lt_of_lt hlength)
    obtain ⟨hid, hids⟩ := List.forall_mem_cons.mp hids
    have hrest := ih hids (Nat.le_of_succ_le_succ hlength)
    rw [List.zip_cons_cons, List.forall_mem_cons, ← hrest, List.map_cons, CompactASN1Subscriber.convertAll_cons]
    generalize CompactASN1Subscriber.convertAll env ids (message.map fun received => received.block.2) = vars
    cases hconvert : convertFor env id received.block.2 with
    | none =>
      have hdropped : env.convert id.1 received.block.2 = none := Option.map_eq_none_iff.mp hconvert
      have hno : ¬ZeroForTruth (id, received) := by
        intro hzero
        obtain ⟨v, hv⟩ := convertFor_zero henv hzero
        rw [hconvert] at hv
        cases hv
      rw [Option.toList_none, List.nil_append, and_iff_right hno]
      refine ⟨fun hcarries => ?_, .dropped hdropped⟩
      cases hcarries with
      | dropped _ htail => exact htail
      | kept hkept _ _ => exact absurd hdropped hkept
    | some v =>
      obtain ⟨x, hx, hv⟩ := Option.map_eq_some_iff.mp hconvert
      have hkept : env.convert id.1 received.block.2 ≠ none := by
        rw [hx]
        exact Option.some_ne_none x
      rw [Option.toList_some, List.singleton_append, ← survives_iff henv hid hconvert]
      subst hv
      refine ⟨fun hcarries => ?_, fun h => .kept hkept h.1 h.2⟩
      cases hcarries with
      | dropped hdropped _ => exact absurd hdropped hkept
      | kept _ hsurvives htail => exact ⟨hsurvives, htail⟩

/-! ### Streams of messages -/

/-- The messages of which an event is made: those with a value for every port, and the last one if it is
not empty. -/
def startedMessages (messages : List (List TruthOrNumber)) (last : List TruthOrNumber) : List (List TruthOrNumber) :=
  if last = [] then messages else messages ++ [last]

theorem framed_blocks (message : List TruthOrNumber) :
    ∀ block ∈ message.map TruthOrNumber.block, Framed block.1 block.2 := by
  intro block hblock
  obtain ⟨received, -, rfl⟩ := List.mem_map.mp hblock
  exact received.framed_block

theorem timeout_vars (s : CompactASN1Subscriber) :
    s.handlePacketTimeout.pushed.map (fun pushed => pushed.event.var) =
      s.pushed.map (fun pushed => pushed.event.var) ++ (s.partialData.map PartialEvent.var).toList := by
  rw [CompactASN1Subscriber.handlePacketTimeout]
  cases hpending : s.partialData with
  | none => exact (List.append_nil _).symm
  | some ev =>
    rw [Option.isSome_some, if_pos rfl, CompactASN1Subscriber.pushPartialEvent_of_some hpending]
    exact List.map_append

/-- The events of a stream of messages, when the timer expires after it. -/
theorem events_of_messages (env : Surroundings) {ports : List PortID} (hne : ports ≠ [])
    {messages : List (List TruthOrNumber)} (hfull : ∀ message ∈ messages, message.length = ports.length)
    {last : List TruthOrNumber} (hlast : last.length < ports.length) {chunks : List (List UInt8)}
    (hchunks : chunks.flatten = (messages.flatten ++ last).flatMap fun received => received.block.1) :
    ∃ r, CompactASN1Subscriber.commitAll env { portIDs := ports } chunks = some r ∧
      r.handlePacketTimeout.pushed.map (fun pushed => pushed.event.var) =
        (startedMessages messages last).map fun message =>
          CompactASN1Subscriber.convertAll env ports (message.map fun received => received.block.2) := by
  have hready := CompactASN1Subscriber.ready_new hne
  have hframed := framed_blocks (messages.flatten ++ last)
  have hlength : ∀ message ∈ messages.map (List.map TruthOrNumber.block), message.length = ports.length := by
    intro message hmessage
    obtain ⟨message, hmem, rfl⟩ := List.mem_map.mp hmessage
    rw [List.length_map, hfull message hmem]
  obtain ⟨s, events, hs, hports, hnone, hpushed, hevents⟩ :=
    CompactASN1Subscriber.absorb_messages env (s := { portIDs := ports }) rfl hne hlength
  rw [List.nil_append] at hpushed
  have hcommit := CompactASN1Subscriber.commitAll_blocks env hready rfl hframed (by rw [hchunks, List.flatMap_map])
  rw [List.map_append, List.map_flatten, List.foldl_append, hs] at hcommit
  refine ⟨_, hcommit, ?_⟩
  have hfinished : s.pushed.map (fun pushed => pushed.event.var) = messages.map fun message =>
      CompactASN1Subscriber.convertAll env ports (message.map fun received => received.block.2) := by
    rw [hpushed, hevents, List.map_map]
    simp only [Function.comp_def, List.map_map]
  rw [timeout_vars, startedMessages]
  split
  · rename_i hempty
    subst hempty
    have hidle : (s.withData []).partialData = none := hnone
    rw [List.map_nil, List.foldl_nil, hidle]
    exact (List.append_nil _).trans hfinished
  · rename_i hstarted
    have hshort : (last.map TruthOrNumber.block).length < s.portIDs.length := by rwa [List.length_map, hports]
    obtain ⟨ev, hev, hvar, hopen⟩ := CompactASN1Subscriber.startEvent_new env hnone
    obtain ⟨next, hnext, hsame, hvars⟩ := CompactASN1Subscriber.absorb_some hshort
      (fun hnil => hstarted (List.map_eq_nil_iff.mp hnil)) hev hopen
    rw [hvar, List.nil_append, hports, List.map_map] at hvars
    rw [CompactASN1Subscriber.withData, hnext, hsame, hfinished, List.map_append, Option.map_some, hvars]
    rfl

/-- Whatever ports for truth values and numbers there are and whatever such values arrive for them: every
event carries the meaning of its message if and only if no zero arrives as a number for a truth value. -/
theorem truth_values_survive_iff {env : Surroundings} (henv : env.ConvertsAsText) {settings : TransmissionChannel}
    {s : CompactASN1Subscriber} (hinit : CompactASN1Subscriber.init { portIDs := [] } settings = .ok s)
    (hports : ∀ id ∈ settings.portIDs, id.1 = .fmiTypeBoolean ∨ id.1 = .fmiTypeInteger)
    {messages : List (List TruthOrNumber)} (hfull : ∀ message ∈ messages, message.length = settings.portIDs.length)
    {last : List TruthOrNumber} (hlast : last.length < settings.portIDs.length) {chunks : List (List UInt8)}
    (hchunks : chunks.flatten = (messages.flatten ++ last).flatMap fun received => received.block.1) :
    ∃ r, s.commitAll env chunks = some r ∧
      (List.Forall₂ (Carries env settings.portIDs) (startedMessages messages last)
          (r.handlePacketTimeout.pushed.map fun pushed => pushed.event.var) ↔
        ∀ message ∈ startedMessages messages last, ∀ port ∈ settings.portIDs.zip message, ¬ZeroForTruth port) := by
  obtain ⟨rfl, hready⟩ := CompactASN1Subscriber.init_eq hinit
  obtain ⟨r, hr, hevents⟩ := events_of_messages env hready.1 hfull hlast hchunks
  refine ⟨r, hr, ?_⟩
  rw [hevents, List.forall₂_map_right_iff, List.forall₂_same]
  refine forall₂_congr fun message hmessage => carries_iff henv hports ?_
  unfold startedMessages at hmessage
  split at hmessage
  · exact (hfull message hmessage).le
  · rcases List.mem_append.mp hmessage with hmem | hmem
    · exact (hfull message hmem).le
    · rw [List.mem_singleton.mp hmem]
      exact hlast.le

def truthAndNumberChannel : TransmissionChannel where
  channelConfig := .node [] []
  portIDs := [(.fmiTypeBoolean, 0), (.fmiTypeInteger, 0)]
  portConfig := [.node [] [], .node [] []]

/-- A digit for the truth value, a truth value that the number drops, a number that the truth value
drops, and half a message. -/
theorem truth_values_survive_mixed :
    ∃ r, CompactASN1Subscriber.commitAll .lexicalCast { portIDs := truthAndNumberChannel.portIDs }
        [[0x44, 0, 0], [0, 7, 0x41, 0x44, 0, 0, 0, 10, 0x44], [0, 0, 0, 0, 0x40]] = some r ∧
      (List.Forall₂ (Carries .lexicalCast truthAndNumberChannel.portIDs)
          (startedMessages [[.dint 7, .bool1], [.dint 10, .dint 0]] [.bool0])
          (r.handlePacketTimeout.pushed.map fun pushed => pushed.event.var) ↔
        ∀ message ∈ startedMessages [[.dint 7, .bool1], [.dint 10, .dint 0]] [.bool0],
          ∀ port ∈ truthAndNumberChannel.portIDs.zip message, ¬ZeroForTruth port) := by
  have hinit : CompactASN1Subscriber.init { portIDs := [] } truthAndNumberChannel =
      .ok { portIDs := truthAndNumberChannel.portIDs } := rfl
  exact truth_values_survive_iff Surroundings.lexicalCast_convertsAsText hinit (by decide) (by decide) (by decide)
    (by decide)

/-- The number zero becomes the character of its digit, which is not false. -/
theorem zero_received_as_true :
    ∃ r, CompactASN1Subscriber.commitAll .lexicalCast { portIDs := truthAndNumberChannel.portIDs }
        [[0x44, 0, 0, 0, 0, 0x44, 0, 0, 0, 0]] = some r ∧
      r.pushed.map (fun pushed => pushed.event.var) =
        [[⟨(.fmiTypeBoolean, 0), .boolean 48⟩, ⟨(.fmiTypeInteger, 0), .integer 0⟩]] ∧
      ¬List.Forall₂ (Carries .lexicalCast truthAndNumberChannel.portIDs) [[.dint 0, .dint 0]]
        (r.pushed.map fun pushed => pushed.event.var) := by
  refine ⟨_, rfl, rfl, ?_⟩
  intro hcarries
  cases hcarries with
  | cons hcarries _ =>
    cases hcarries with
    | dropped hdropped _ => cases hdropped
    | kept _ hsurvives _ =>
      obtain ⟨value, hvalue, hmeaning⟩ := hsurvives
      cases hvalue
      exact absurd rfl (hmeaning.mp (by decide))

end FMITerminalBlock.Network
