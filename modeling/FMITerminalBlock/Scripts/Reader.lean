import FMITerminalBlock.Base.PropertyTree
import FMITerminalBlock.Library.DecimalText
import FMITerminalBlock.Library.QuotedFields
import FMITerminalBlock.Library.Utf8

/-! The script that reads data files. Quotes are handled by hand so that empty strings and missing
values stay different. -/
namespace FMITerminalBlock.Scripts
open Base

inductive ReaderError where
  | valueError (what : String)
  | assertionError
  | keyError
  | csvError
  deriving DecidableEq

/-! ### Rows of the file -/

/-- What an iterator yields: its items and, unless it just ends behind them, an exception. -/
structure Iteration (α : Type) where
  items : List α
  failure : Option ReaderError := none

/-- The lines of a file that is opened with `newline=''`, without their ends. -/
def textLines : StdString → List StdString
  | [] => []
  | 10 :: rest => [] :: textLines rest
  | 13 :: 10 :: rest => [] :: textLines rest
  | 13 :: rest => [] :: textLines rest
  | b :: rest =>
    match textLines rest with
    | [] => [[b]]
    | line :: lines => (b :: line) :: lines

/-- An opened file, which is decoded block by block. It depends on the blocks how many lines are
handed out before bytes are met that cannot be decoded. -/
def openFile (handedOut : Nat) (text : StdString) : Iteration StdString :=
  if Utf8.WellFormed text then { items := textLines text }
  else {
    items := ((textLines text).takeWhile (Utf8.WellFormed ·)).take handedOut
    failure := some (.valueError "'utf-8' codec can't decode byte") }

/-- A line is split at every semicolon, as there is no quoting. An empty line has no field at all. NUL
is a character like any other since Python 3.11. -/
def csvRow (line : StdString) : List StdString := if line = [] then [] else line.splitOn 59

/-- All rows of a text. This is what `csv.reader` yields from an opened file if the text can be decoded
and its fields do not exceed the limit. -/
def csvRows (text : StdString) : List (List StdString) := (textLines text).map csvRow

/-- `csv.field_size_limit()`, in characters. -/
def fieldSizeLimit : Nat := 131072

def WithinLimit (line : StdString) : Prop := ∀ field ∈ csvRow line, Utf8.length field ≤ fieldSizeLimit

instance : DecidablePred WithinLimit := fun line =>
  inferInstanceAs (Decidable (∀ field ∈ csvRow line, Utf8.length field ≤ fieldSizeLimit))

/-- `csv.reader` without any quoting. The first line with a field beyond the limit ends it. -/
def csvReader (csvSource : Iteration StdString) : Iteration (List StdString) where
  items := (csvSource.items.takeWhile (WithinLimit ·)).map csvRow
  failure := if ∀ line ∈ csvSource.items, WithinLimit line then csvSource.failure else some .csvError

/-! ### Types and values -/

inductive SimulationDataType where
  | real | integer | boolean | string
  deriving DecidableEq

def SimulationDataType.value : SimulationDataType → StdString
  | .real => ascii "fmiReal"
  | .integer => ascii "fmiInteger"
  | .boolean => ascii "fmiBoolean"
  | .string => ascii "fmiString"

/-- The constructor call of the enumeration. -/
def SimulationDataType.ofValue (name : StdString) : Except ReaderError SimulationDataType :=
  match [SimulationDataType.real, .integer, .boolean, .string].find? fun type => type.value = name with
  | some type => .ok type
  | none => .error (.valueError "is not a valid SimulationDataType")

def generateSimulationDataTypes (names : List StdString) : Except ReaderError (List SimulationDataType) :=
  names.mapM SimulationDataType.ofValue

/-- The values of an event. A number that is handed to `float` is known by its text. -/
inductive FieldValue where
  | real (text : StdString)
  | integer (value : Int)
  | boolean (value : Bool)
  | string (value : StdString)
  deriving DecidableEq

/-! ### Numbers -/

def isSpace (b : UInt8) : Bool := b == 32 || (9 ≤ b && b ≤ 13)

/-- The spaces beyond ASCII. -/
def unicodeSpaces : List Nat :=
  [0x85, 0xa0, 0x1680, 0x2000, 0x2001, 0x2002, 0x2003, 0x2004, 0x2005, 0x2006, 0x2007, 0x2008, 0x2009, 0x200a,
    0x2028, 0x2029, 0x202f, 0x205f, 0x3000]

/-- The zeros beyond ASCII in Unicode 14. Each of them is followed by the other digits of its script. -/
def unicodeZeros : List Nat :=
  [0x660, 0x6f0, 0x7c0, 0x966, 0x9e6, 0xa66, 0xae6, 0xb66, 0xbe6, 0xc66, 0xce6, 0xd66, 0xde6, 0xe50, 0xed0, 0xf20,
    0x1040, 0x1090, 0x17e0, 0x1810, 0x1946, 0x19d0, 0x1a80, 0x1a90, 0x1b50, 0x1bb0, 0x1c40, 0x1c50, 0xa620, 0xa8d0,
    0xa900, 0xa9d0, 0xa9f0, 0xaa50, 0xabf0, 0xff10, 0x104a0, 0x10d30, 0x11066, 0x110f0, 0x11136, 0x111d0, 0x112f0,
    0x11450, 0x114d0, 0x11650, 0x116c0, 0x11730, 0x118e0, 0x11950, 0x11c50, 0x11d50, 0x11da0, 0x16a60, 0x16ac0,
    0x16b50, 0x1d7ce, 0x1d7d8, 0x1d7e2, 0x1d7ec, 0x1d7f6, 0x1e140, 0x1e2f0, 0x1e950, 0x1fbf0]

/-- The digit or space of ASCII that is meant by a character. Any other one becomes a question mark,
which no number contains. -/
def asciiCharacter (c : Nat) : UInt8 :=
  if c < 127 then UInt8.ofNat c
  else if c ∈ unicodeSpaces then 32
  else match unicodeZeros.find? fun digit => digit ≤ c ∧ c < digit + 10 with
    | some digit => DecimalText.digit (c - digit)
    | none => 63

/-- What both `int` and `float` do first. -/
def transformDecimalAndSpaceToASCII (text : StdString) : StdString :=
  if text.all (· < 0x80) then text
  else match Utf8.decode text with
    | some characters => characters.map asciiCharacter
    | none => [63]

/-- Digits of a literal, which may be grouped by single underscores. -/
def intDigits : StdString → Option StdString
  | [] => none
  | [b] => if DecimalText.isDigit b then some [b] else none
  | b :: c :: rest =>
    if !DecimalText.isDigit b then none
    else if c = 95 then (intDigits rest).map (b :: ·)
    else (intDigits (c :: rest)).map (b :: ·)

/-- The sign and the digits of a literal. -/
def intLiteral : StdString → Bool × Option StdString
  | 45 :: rest => (true, intDigits rest)
  | 43 :: rest => (false, intDigits rest)
  | rest => (false, intDigits rest)

def strip (text : StdString) : StdString := ((text.dropWhile isSpace).reverse.dropWhile isSpace).reverse

/-- `sys.get_int_max_str_digits()` -/
def maxStrDigits : Nat := 4300

/-- The call `int(text)`. -/
def int (text : StdString) : Except ReaderError Int :=
  match intLiteral (strip (transformDecimalAndSpaceToASCII text)) with
  | (negative, some digits) =>
    if maxStrDigits < digits.length then
      .error (.valueError "Exceeds the limit (\x7b\x7d digits) for integer string conversion")
    else .ok (if negative then -(DecimalText.value digits : Int) else DecimalText.value digits)
  | (_, none) => .error (.valueError "invalid literal for int() with base 10")

/-! ### Dictionaries -/

/-- A `dict` keeps its keys in the order of their insertion. -/
def setItem {β : Type} (dict : List (StdString × β)) (key : StdString) (value : β) : List (StdString × β) :=
  if dict.any fun item => item.1 = key then dict.map fun item => if item.1 = key then (key, value) else item
  else dict ++ [(key, value)]

structure Event where
  eventTime : StdString
  eventDict : List (StdString × FieldValue) := []
  deriving DecidableEq

/-! ### The reader -/

structure Reader where
  header : List (StdString × SimulationDataType) := []
  nameList : List StdString := []
  deriving DecidableEq

namespace Reader

def mergeColumns (row : List StdString) : List StdString := QuotedFields.regroup 34 59 row

def unpackString (value : StdString) : Except ReaderError StdString :=
  match QuotedFields.unquote 34 value with
  | some text => .ok text
  | none => .error (.valueError "The string '\x7b\x7d' is not properly escaped")

def unpackAll (values : List StdString) : Except ReaderError (List StdString) := values.mapM unpackString

def readRawHeader : List (List StdString) → Except ReaderError (List StdString × List StdString × List (List StdString))
  | variableRow :: typeRow :: rows => .ok (mergeColumns variableRow, mergeColumns typeRow, rows)
  | _ => .error (.valueError "The given CSV data source does not contain two header lines")

def extractVariableHeader (vars types : List StdString) : Except ReaderError (List StdString × List StdString) :=
  if vars.length ≠ types.length then
    .error (.valueError ("The number of fields of the first header lines (\x7b\x7d) does not match the " ++
      "number of fields of the second header line (\x7b\x7d). "))
  else if vars.length ≤ 0 then .error (.valueError "Empty CSV header found")
  else if vars.head? ≠ some (ascii "\"time\"") ∨ types.head? ≠ some (ascii "\"fmiReal\"") then
    .error (.valueError ("The first column is not a valid time reference. " ++
      "(variable is '\x7b\x7d', type is '\x7b\x7d')"))
  else if vars.length = 2 ∧ vars[1]? = some [] then do
    -- Without any variable there is still a delimiter, but no field behind it.
    return (← unpackAll (vars.take 1), ← unpackAll (types.take 1))
  else do return (← unpackAll vars, ← unpackAll types)

/-- The reader after both header lines and the rows that are left. -/
def addHeader (rows : List (List StdString)) : Except ReaderError (Reader × List (List StdString)) := do
  let (vars, types, rows) ← readRawHeader rows
  let (vars, types) ← extractVariableHeader vars types
  let simTypes ← generateSimulationDataTypes (types.drop 1)
  return ({
    header := ((vars.drop 1).zip simTypes).foldl (fun dict item => setItem dict item.1 item.2) []
    nameList := vars.drop 1 }, rows)

/-- The content of a field in the type of its column. -/
def fieldValue (field : StdString) : SimulationDataType → Except ReaderError FieldValue
  | .real => .ok (.real field)
  | .integer => (int field).map .integer
  | .boolean => (int field).map fun n => .boolean (n ≠ 0)
  | .string => (unpackString field).map .string

/-- A field without content stands for a variable that is not set. -/
def parseField (field variableName : StdString) (variableType : SimulationDataType) (event : Event) :
    Except ReaderError Event :=
  if field = [] then .ok event
  else (fieldValue field variableType).map fun value =>
    { event with eventDict := setItem event.eventDict variableName value }

/-- The fields behind the time belong to the names in their order. -/
def parseRow (r : Reader) (row : List StdString) : Except ReaderError Event :=
  if r.nameList.length ≠ r.header.length then .error .assertionError
  else match row with
    | [] => .error (.valueError "Invalid number of fields in \x7b\x7d")
    | time :: fields =>
      if fields.length ≠ r.header.length then .error (.valueError "Invalid number of fields in \x7b\x7d")
      else (r.nameList.zip fields).foldlM (fun event item =>
        match r.header.lookup item.1 with
        | some type => parseField item.2 item.1 type event
        | none => .error .keyError) { eventTime := time }

/-- The header and all events of rows. -/
def readRows (rows : List (List StdString)) : Except ReaderError (List (StdString × SimulationDataType) × List Event) := do
  let (r, rows) ← addHeader rows
  let events ← rows.mapM fun row => r.parseRow (mergeColumns row)
  return (r.header, events)

/-- The header of a text and all of its events, where the rows are taken as given. -/
def readAll (text : StdString) : Except ReaderError (List (StdString × SimulationDataType) × List Event) :=
  readRows (csvRows text)

/-- The first two rows, unless there is an exception in their place. -/
def openHeader (csvSource : Iteration (List StdString)) : Except ReaderError (Reader × List (List StdString)) :=
  match csvSource.items, csvSource.failure with
  | [], some e => .error e
  | [_], some e => .error e
  | rows, _ => addHeader rows

end Reader
end FMITerminalBlock.Scripts
