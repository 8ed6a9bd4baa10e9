import FMITerminalBlock.Library.BigEndian
import FMITerminalBlock.Network.CompactASN1Publisher

/-! The reading side of the compact ASN.1 format. Data arrives in chunks of any size, so the
subscriber keeps the bytes it could not decode yet and the event that is not complete yet. -/
namespace FMITerminalBlock.Network
open Base Timing ASN1Commons

/-- An event that is filled port by port. -/
structure PartialEvent where
  time : ℚ
  portTemplate : List PortID
  var : List Variable := []
  nextTemplateIndex : Nat := 0
  deriving DecidableEq

namespace PartialEvent

def hasRemainingElements (ev : PartialEvent) : Bool := decide (ev.nextTemplateIndex < ev.portTemplate.length)

/-- The number of ports that are still to be filled. -/
def remaining (ev : PartialEvent) : Nat := ev.portTemplate.length - ev.nextTemplateIndex

/-- The next port, which exists while there are remaining elements. -/
def nextPort (ev : PartialEvent) : PortID := ev.portTemplate.getD ev.nextTemplateIndex (.fmiTypeUnknown, -1)

def getNextPortType (ev : PartialEvent) : FMIVariableType := ev.nextPort.1

def pushNextValue (ev : PartialEvent) (value : Value) : PartialEvent :=
  { ev with var := ev.var ++ [⟨ev.nextPort, value⟩], nextTemplateIndex := ev.nextTemplateIndex + 1 }

def ignoreNextValue (ev : PartialEvent) : PartialEvent :=
  { ev with nextTemplateIndex := ev.nextTemplateIndex + 1 }

end PartialEvent

inductive ParsingStatusCode where
  | ok | typeConversionError | invalidBufferContent | incomplete
  deriving DecidableEq

structure ParsingStatus where
  state : ParsingStatusCode
  missingData : Nat := 0
  deriving DecidableEq

/-- A value as it is found in the data, before it is converted to the type of its port. -/
inductive Received where
  | lreal (bits : BitVec 64)
  | real (bits : BitVec 32)
  | dint (value : BitVec 32)
  | bool (value : UInt8)
  | string (value : StdString)
  deriving DecidableEq

/-- What the subscriber takes from elsewhere: the conversion of `boost::convert` and the time
stamps of the event sink, one for every event it starts. -/
structure Surroundings where
  convert : (type : FMIVariableType) → Received → Option (Carrier type)
  getTimeStampNow : Nat → ℚ

/-- Conversions between identical types only, and a clock that stands still. -/
def Surroundings.exact : Surroundings where
  convert
    | .fmiTypeReal, .lreal bits => some bits
    | .fmiTypeInteger, .dint value => some value
    | .fmiTypeBoolean, .bool value => some value
    | .fmiTypeString, .string value => some value
    | _, _ => none
  getTimeStampNow _ := 0

/-! ### Reading one value

The read functions return the value and the rest of the buffer. Where data is missing they
consume nothing. -/

/-- Numbers of a fixed size after the tag. -/
def readNumber (size : Nat) (value : Nat → Received) (buffer : List UInt8) :
    Except ParsingStatus (Received × List UInt8) :=
  if buffer.length < size + 1 then .error ⟨.incomplete, size + 1 - buffer.length⟩
  else .ok (value (BigEndian.decode ((buffer.drop 1).take size)), (buffer.drop 1).drop size)

/-- The bytes of the number are taken as an IEEE-754 pattern of the same size. -/
def readXREALVariable (size : Nat) (value : BitVec (8 * size) → Received) :
    List UInt8 → Except ParsingStatus (Received × List UInt8) :=
  readNumber size fun bits => value (BitVec.ofNat _ bits)

def readXINTVariable (size : Nat) (value : BitVec (8 * size) → Received) :
    List UInt8 → Except ParsingStatus (Received × List UInt8) :=
  readNumber size fun bits => value (BitVec.ofNat _ bits)

def readSTRINGVariable (buffer : List UInt8) : Except ParsingStatus (Received × List UInt8) :=
  if buffer.length < 3 then .error ⟨.incomplete, 3 - buffer.length⟩
  else
    let length := BigEndian.decode ((buffer.drop 1).take 2)
    if buffer.length < 3 + length then .error ⟨.incomplete, 3 + length - buffer.length⟩
    else .ok (.string ((buffer.drop 3).take length), buffer.drop (3 + length))

def readBOOL0Variable (buffer : List UInt8) : Except ParsingStatus (Received × List UInt8) :=
  .ok (.bool fmiFalse, buffer.drop 1)

def readBOOL1Variable (buffer : List UInt8) : Except ParsingStatus (Received × List UInt8) :=
  .ok (.bool fmiTrue, buffer.drop 1)

/-- The read function of a tag. -/
def readFunction (tag : UInt8) : Option (List UInt8 → Except ParsingStatus (Received × List UInt8)) :=
  if tag = classApplication ||| lrealTagNr then some (readXREALVariable 8 .lreal)
  else if tag = classApplication ||| realTagNr then some (readXREALVariable 4 .real)
  else if tag = classApplication ||| stringTagNr then some readSTRINGVariable
  else if tag = classApplication ||| bool0TagNr then some readBOOL0Variable
  else if tag = classApplication ||| bool1TagNr then some readBOOL1Variable
  else if tag = classApplication ||| dintTagNr then some (readXINTVariable 4 .dint)
  else none

/-- Reads the value at the front of a buffer that is not empty. -/
def readValue (buffer : List UInt8) : Except ParsingStatus (Received × List UInt8) :=
  match buffer with
  | [] => .error ⟨.incomplete, 1⟩
  | tag :: _ =>
    match readFunction tag with
    | some read => read buffer
    | none => .error ⟨.invalidBufferContent, 0⟩

/-- The next value in the type of its port. A value that does not convert is consumed. -/
def readNextVariable (env : Surroundings) (type : FMIVariableType) (buffer : List UInt8) :
    ParsingStatus × Option Value × List UInt8 :=
  match readValue buffer with
  | .error status => (status, none, buffer)
  | .ok (value, rest) =>
    match env.convert type value with
    | some converted => (⟨.ok, 0⟩, some (.of type converted), rest)
    | none => (⟨.typeConversionError, 0⟩, none, rest)

/-- The loop of `processRawDataToEvent`. Every turn but the last fills one port, so the number of
remaining ports bounds the turns. -/
def processLoop (env : Surroundings) : Nat → ParsingStatus → PartialEvent → List UInt8 →
    ParsingStatus × PartialEvent × List UInt8
  | 0, status, ev, buffer => (status, ev, buffer)
  | turns + 1, status, ev, buffer =>
    if buffer ≠ [] ∧ ev.hasRemainingElements ∧
        (status.state = .ok ∨ status.state = .typeConversionError) then
      match readNextVariable env ev.getNextPortType buffer with
      | (⟨.ok, missing⟩, some value, buffer) => processLoop env turns ⟨.ok, missing⟩ (ev.pushNextValue value) buffer
      | (⟨.typeConversionError, missing⟩, _, buffer) =>
        processLoop env turns ⟨.typeConversionError, missing⟩ ev.ignoreNextValue buffer
      | (status, _, buffer) => (status, ev, buffer)
    else (status, ev, buffer)

def processRawDataToEvent (env : Surroundings) (ev : PartialEvent) (buffer : List UInt8) :
    ParsingStatus × PartialEvent × List UInt8 :=
  processLoop env ev.remaining ⟨.ok, 0⟩ ev buffer

/-! ### The subscriber -/

/-- An event handed to the sink, with the positions in the received data between which its values
were read. -/
structure PushedEvent where
  event : PartialEvent
  first : Nat
  last : Nat
  deriving DecidableEq

/-- The decoding state. The bytes consumed so far and the position at which the current event was
started are counted to speak about the origin of an event. -/
structure CompactASN1Subscriber where
  portIDs : List PortID
  partialData : Option PartialEvent := none
  remainingRawData : List UInt8 := []
  pushed : List PushedEvent := []
  created : Nat := 0
  consumed : Nat := 0
  eventStart : Nat := 0
  deriving DecidableEq

namespace CompactASN1Subscriber

/-- Drops bytes from the front of the buffer until the given rest is left. -/
def consumeTo (s : CompactASN1Subscriber) (rest : List UInt8) : CompactASN1Subscriber :=
  { s with
    remainingRawData := rest
    consumed := s.consumed + (s.remainingRawData.length - rest.length) }

def clearUnprocessedData (s : CompactASN1Subscriber) : CompactASN1Subscriber := s.consumeTo []

def pushPartialEvent (s : CompactASN1Subscriber) : CompactASN1Subscriber :=
  match s.partialData with
  | none => s
  | some ev => { s with partialData := none, pushed := s.pushed ++ [⟨ev, s.eventStart, s.consumed⟩] }

/-- The event under construction, which is started when there is none. -/
def startEvent (env : Surroundings) (s : CompactASN1Subscriber) : CompactASN1Subscriber :=
  match s.partialData with
  | some _ => s
  | none => { s with
      partialData := some { time := env.getTimeStampNow s.created, portTemplate := s.portIDs }
      created := s.created + 1
      eventStart := s.consumed }

/-- The event and the buffer as `processRawDataToEvent` leaves them. -/
def progress (s : CompactASN1Subscriber) (ev : PartialEvent) (rest : List UInt8) : CompactASN1Subscriber :=
  { s.consumeTo rest with partialData := some ev }

/-- The loop of `commitData`; `none` stands for a loop that needs more turns. -/
def commitLoop (env : Surroundings) : Nat → CompactASN1Subscriber → Option CompactASN1Subscriber
  | 0, _ => none
  | turns + 1, s =>
    if s.remainingRawData = [] then some s
    else
      let s := s.startEvent env
      match s.partialData with
      | none => none
      | some ev =>
        match processRawDataToEvent env ev s.remainingRawData with
        | (status, ev, rest) =>
          let s := s.progress ev rest
          match status.state with
          | .invalidBufferContent => commitLoop env turns s.pushPartialEvent.clearUnprocessedData
          | .incomplete => some s
          | _ => commitLoop env turns (if ev.hasRemainingElements then s else s.pushPartialEvent)

/-- Every turn but the last consumes at least one byte. -/
def commitData (env : Surroundings) (s : CompactASN1Subscriber) (data : List UInt8) :
    Option CompactASN1Subscriber :=
  let s := { s with remainingRawData := s.remainingRawData ++ data }
  commitLoop env (s.remainingRawData.length + 1) s

def commitAll (env : Surroundings) (s : CompactASN1Subscriber) (chunks : List (List UInt8)) :
    Option CompactASN1Subscriber :=
  chunks.foldlM (commitData env) s

/-- The part of `handlePacketTimeout` that follows an expired timer. -/
def handlePacketTimeout (s : CompactASN1Subscriber) : CompactASN1Subscriber :=
  if s.partialData.isSome then s.pushPartialEvent.clearUnprocessedData else s

def init (s : CompactASN1Subscriber) (settings : TransmissionChannel) :
    Except SystemConfigurationException CompactASN1Subscriber :=
  if settings.portIDs.length ≤ 0 then
    .error { what := "Compact ASN.1 channel has no associated ports" }
  else .ok { s with portIDs := settings.portIDs }.clearUnprocessedData

end CompactASN1Subscriber

/-- A channel with two truth values. -/
def pairChannel : TransmissionChannel where
  channelConfig := .node [] []
  portIDs := [(.fmiTypeBoolean, 0), (.fmiTypeBoolean, 1)]
  portConfig := [.node [] [], .node [] []]

end FMITerminalBlock.Network
