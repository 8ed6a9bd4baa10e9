import FMITerminalBlock.Library.BigEndian
import FMITerminalBlock.Timing.Variable

/-! The writing side of the compact ASN.1 format: every port of a channel is sent as a tag
followed by its value, in the order of the ports. -/
namespace FMITerminalBlock.Network
open Base Timing

namespace ASN1Commons

def classApplication : UInt8 := 0x40
def bool0TagNr : UInt8 := 0
def bool1TagNr : UInt8 := 1
def dintTagNr : UInt8 := 4
def realTagNr : UInt8 := 10
def lrealTagNr : UInt8 := 11
def stringTagNr : UInt8 := 16

inductive DataType where
  | real | lreal | dint | bool | string
  deriving DecidableEq

def dataTypeNames : List (StdString × DataType) :=
  [(ascii "REAL", .real), (ascii "LREAL", .lreal), (ascii "DINT", .dint), (ascii "BOOL", .bool),
    (ascii "STRING", .string)]

end ASN1Commons

open ASN1Commons

/-- The output image and the encoding of every port. -/
structure CompactASN1Publisher where
  outputVariables : List Variable := []
  outputTypes : List DataType := []

/-- What makes `init` fail: an exception or an assertion on the type of a port. -/
inductive PublisherFault where
  | configuration (ex : SystemConfigurationException)
  | unknownType

namespace CompactASN1Publisher

def propEncodeType : StdString := ascii "encoding"

def castable : FMIVariableType → DataType → Bool
  | .fmiTypeReal, .real | .fmiTypeReal, .lreal => true
  | .fmiTypeInteger, .dint => true
  | .fmiTypeBoolean, .bool => true
  | .fmiTypeString, .string => true
  | _, _ => false

/-- The initial value of a port. A port of unknown type fails an assertion, here and below. -/
def initialValue : FMIVariableType → Option Value
  | .fmiTypeReal => some (.real 0)
  | .fmiTypeInteger => some (.integer 0)
  | .fmiTypeBoolean => some (.boolean fmiFalse)
  | .fmiTypeString => some (.string [])
  | .fmiTypeUnknown => none

def getDefaultType : FMIVariableType → Option DataType
  | .fmiTypeReal => some .lreal
  | .fmiTypeInteger => some .dint
  | .fmiTypeBoolean => some .bool
  | .fmiTypeString => some .string
  | .fmiTypeUnknown => none

def initOutputVariables (ports : List PortID) : Option (List Variable) :=
  ports.mapM fun id => (initialValue id.1).map fun value => ⟨id, value⟩

/-- The encoding of one port: the default of its type unless the configuration names another. -/
def outputType (id : PortID) (portConfig : Ptree) : Except PublisherFault DataType :=
  match getDefaultType id.1, portConfig.getChildOptional propEncodeType with
  | none, _ => .error .unknownType
  | some type, none => .ok type
  | some _, some encodeType =>
    match dataTypeNames.lookup encodeType.data with
    | none => .error (.configuration {
        what := "The given encoding type is not supported."
        config := some (propEncodeType, encodeType.data) })
    | some type =>
      if castable id.1 type then .ok type
      else .error (.configuration {
        what := "Can't convert the fmiType (%1%) to the IEC 61499/ASN.1 type %2%. The operation is not " ++
          "supported but configured at the ASN.1 publisher port %3%" })

/-- The types are appended to those of an earlier call, also when a later port is refused. -/
def initOutputTypes : List (PortID × Ptree) → CompactASN1Publisher →
    CompactASN1Publisher × Except PublisherFault Unit
  | [], p => (p, .ok ())
  | (id, portConfig) :: ports, p =>
    match outputType id portConfig with
    | .error fault => (p, .error fault)
    | .ok type => initOutputTypes ports { p with outputTypes := p.outputTypes ++ [type] }

def init (p : CompactASN1Publisher) (channel : TransmissionChannel) :
    CompactASN1Publisher × Except PublisherFault Unit :=
  match initOutputVariables channel.portIDs with
  | none => (p, .error .unknownType)
  | some vars => initOutputTypes (channel.portIDs.zip channel.portConfig) { p with outputVariables := vars }

/-- The inner loop of `updateOutputVariables`. Only valid values may be queried. -/
def updateOutput (v : Variable) : List Variable → Option (Bool × List Variable)
  | [] => some (false, [])
  | out :: outs => do
    let (updated, outs) ← updateOutput v outs
    if v.id = out.id then
      if v.isValid then some (true, { out with value := v.value } :: outs) else none
    else some (updated, out :: outs)

def updateOutputVariables : List Variable → CompactASN1Publisher → Option (Bool × CompactASN1Publisher)
  | [], p => some (false, p)
  | v :: vars, p => do
    let (first, outs) ← updateOutput v p.outputVariables
    let (rest, p) ← updateOutputVariables vars { p with outputVariables := outs }
    some (first || rest, p)

/-- All bytes of the value are copied here. -/
def encodeLREALValue (bits : BitVec 64) : List UInt8 :=
  (classApplication ||| lrealTagNr) :: BigEndian.encode 8 bits.toNat

/-- Overwrites the first bytes of a variable, which are the lowest ones in memory. A copy that runs
over the end of either variable is undefined, which counts as a failure. -/
def memcpy {m n : Nat} (destination : BitVec m) (source : BitVec n) (size : Nat) : Option (BitVec m) :=
  if 8 * size ≤ m ∧ 8 * size ≤ n then
    some (destination >>> (8 * size) <<< (8 * size) ||| (source.setWidth (8 * size)).setWidth m)
  else none

/-- The size of the copy is the one of the 64 bit value, although both variables have 32 bits. The
conversion to a 32 bit number is left to the machine. -/
def encodeREALValue (toFloat : BitVec 64 → BitVec 32) (bits : BitVec 64) : Option (List UInt8) :=
  (memcpy 0#32 (toFloat bits) 8).map fun val => (classApplication ||| realTagNr) :: BigEndian.encode 4 val.toNat

def encodeInteger (value : BitVec 32) : List UInt8 :=
  (classApplication ||| dintTagNr) :: BigEndian.encode 4 value.toNat

def encodeBoolean (value : UInt8) : List UInt8 :=
  if value ≠ 0 then [classApplication ||| bool1TagNr] else [classApplication ||| bool0TagNr]

/-- The size is cut to 16 bits, and only as many characters are sent. -/
def encodeString (value : StdString) : List UInt8 :=
  let size := value.length % 2 ^ 16
  (classApplication ||| stringTagNr) :: BigEndian.encode 2 size ++ value.take size

/-- Querying a value of another type fails an assertion. -/
def encodeValue (toFloat : BitVec 64 → BitVec 32) : DataType → Value → Option (List UInt8)
  | .lreal, .real bits => some (encodeLREALValue bits)
  | .real, .real bits => encodeREALValue toFloat bits
  | .dint, .integer value => some (encodeInteger value)
  | .bool, .boolean value => some (encodeBoolean value)
  | .string, .string value => some (encodeString value)
  | _, _ => none

def encodeASN1OutputVariables (toFloat : BitVec 64 → BitVec 32) (p : CompactASN1Publisher) :
    Option (List UInt8) :=
  if p.outputVariables.length = p.outputTypes.length then
    ((p.outputTypes.zip p.outputVariables).mapM fun port => encodeValue toFloat port.1 port.2.value).map
      List.flatten
  else none

/-- The message sent for an event, if any. -/
def eventTriggered (toFloat : BitVec 64 → BitVec 32) (p : CompactASN1Publisher) (vars : List Variable) :
    Option (Option (List UInt8) × CompactASN1Publisher) := do
  let (updated, p) ← updateOutputVariables vars p
  if updated then
    let buffer ← p.encodeASN1OutputVariables toFloat
    some (some buffer, p)
  else some (none, p)

end CompactASN1Publisher
end FMITerminalBlock.Network
