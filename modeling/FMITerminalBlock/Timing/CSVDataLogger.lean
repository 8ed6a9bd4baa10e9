import FMITerminalBlock.Library.QuotedFields
import FMITerminalBlock.Timing.Variable

/-! The data file: two header lines with the names and types of all variables, and one line for
every event. -/
namespace FMITerminalBlock.Timing
open Base

/-- The text a stream prints for a real number and for the time of an event. -/
structure NumberFormat where
  real : BitVec 64 → StdString
  time : ℚ → StdString

/-- The variables in the order of the columns and the destination, if there is one, with everything
written so far. -/
structure CSVDataLogger where
  header : List PortID := []
  outputStream : Option StdString := none

namespace CSVDataLogger

def separator : UInt8 := 59
def quotationMark : UInt8 := 34

def fmiTypeNames : FMIVariableType → StdString
  | .fmiTypeReal => ascii "fmiReal"
  | .fmiTypeInteger => ascii "fmiInteger"
  | .fmiTypeBoolean => ascii "fmiBoolean"
  | .fmiTypeString => ascii "fmiString"
  | .fmiTypeUnknown => ascii "fmiUnknown"

/-- Fields with a separator between each two of them. -/
def separated (fields : List StdString) : StdString := [separator].intercalate fields

def appendString (value : StdString) : StdString := QuotedFields.quote quotationMark value

def appendTypes (ports : List PortID) : StdString := separated (ports.map fun id => appendString (fmiTypeNames id.1))

def appendHeader (allNames : List StdString) (allIDs : List PortID) : StdString :=
  appendString (ascii "time") ++ [separator] ++ separated (allNames.map appendString) ++ [10] ++
    appendString (fmiTypeNames .fmiTypeReal) ++ [separator] ++ appendTypes allIDs ++ [10]

/-- A `char` as an unsigned number; it has a sign before the conversion. -/
def toUnsigned (value : UInt8) : Nat := if value < 128 then value.toNat else 2 ^ 32 - 256 + value.toNat

/-- Nothing is written for a variable that is missing. Querying a value of another type fails an
assertion. -/
def appendVariable (format : NumberFormat) : Option Variable → Option StdString
  | none => some []
  | some v =>
    match v.id.1, v.value with
    | .fmiTypeReal, .real bits => some (format.real bits)
    | .fmiTypeInteger, .integer value => some (DecimalText.signed value.toInt)
    | .fmiTypeBoolean, .boolean value => some (DecimalText.decimal (toUnsigned value))
    | .fmiTypeString, .string value => some (appendString value)
    | .fmiTypeUnknown, _ => some (appendString (ascii "unknown-type"))
    | _, _ => none

def findVariable (id : PortID) (vars : List Variable) : Option Variable := vars.find? fun v => v.id = id

/-- The line of an event without its end. -/
def eventLine (format : NumberFormat) (header : List PortID) (ev : StaticEvent) : Option StdString :=
  (header.mapM fun id => appendVariable format (findVariable id ev.vars)).map fun fields =>
    format.time ev.time ++ [separator] ++ separated fields

def eventTriggered (format : NumberFormat) (l : CSVDataLogger) (ev : StaticEvent) : Option CSVDataLogger :=
  match l.outputStream with
  | none => some l
  | some out => (eventLine format l.header ev).map fun line =>
      { l with outputStream := some (out ++ line ++ [10]) }

/-- Every event adds its line. -/
theorem foldlM_eventTriggered (format : NumberFormat) (header : List PortID) (events : List StaticEvent)
    (out : StdString) :
    events.foldlM (eventTriggered format) { header, outputStream := some out } =
      (events.mapM (eventLine format header)).map fun lines =>
        { header, outputStream := some (out ++ lines.flatMap (· ++ [10])) } := by
  induction events generalizing out with
  | nil => simp
  | cons ev events ih =>
    rw [List.foldlM_cons, List.mapM_cons, eventTriggered]
    cases eventLine format header ev with
    | none => rfl
    | some line =>
      simp only [Option.map_some, Option.bind_eq_bind, Option.bind_some, ih]
      cases events.mapM (eventLine format header) with
      | none => rfl
      | some lines => simp

/-- A logger for these columns that writes to an empty destination. -/
def writeHeader (allNames : List StdString) (allIDs : List PortID) : CSVDataLogger where
  header := allIDs
  outputStream := some (appendHeader allNames allIDs)

/-- The inputs come first. -/
def initHeader (inChannelMapping outChannelMapping : ChannelMapping) : CSVDataLogger :=
  writeHeader (inChannelMapping.getAllVariableNames ++ outChannelMapping.getAllVariableNames)
    (inChannelMapping.getAllVariableIDs ++ outChannelMapping.getAllVariableIDs)

end CSVDataLogger
end FMITerminalBlock.Timing
