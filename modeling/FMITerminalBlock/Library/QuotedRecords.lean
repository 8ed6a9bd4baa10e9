import FMITerminalBlock.Library.QuotedFields

/-! Records of fields that are all put in quotes. A reader that looks at one character at a time gets
back every sequence of records, whatever characters the fields contain. -/
namespace QuotedRecords
variable {α : Type*}

/-- The special characters of the format, which are different from each other. -/
structure Dialect (α : Type*) where
  quotechar : α
  delimiter : α
  terminator : α
  delimiter_ne : delimiter ≠ quotechar
  terminator_ne : terminator ≠ quotechar
  terminator_ne_delimiter : terminator ≠ delimiter

variable [DecidableEq α] (d : Dialect α)

def writeRecord (fields : List (List α)) : List α :=
  [d.delimiter].intercalate (fields.map (QuotedFields.quote d.quotechar)) ++ [d.terminator]

def writeRecords (records : List (List (List α))) : List α := records.flatMap (writeRecord d)

/-! ### The reader -/

inductive State where
  | startRecord | startField | inField | inQuotedField | quoteInQuotedField
  deriving DecidableEq

/-- Everything that is known about the characters seen so far. -/
structure Parser (α : Type*) where
  state : State := .startRecord
  field : List α := []
  fields : List (List α) := []
  records : List (List (List α)) := []

namespace Parser

def saveField (p : Parser α) : Parser α := { p with state := .startField, field := [], fields := p.fields ++ [p.field] }

def saveRecord (p : Parser α) : Parser α :=
  { state := .startRecord, field := [], fields := [], records := p.records ++ [p.fields] }

def addChar (p : Parser α) (state : State) (c : α) : Parser α := { p with state, field := p.field ++ [c] }

/-- What a delimiter or a terminator does outside of quotes, and where any other character belongs. -/
def endField (p : Parser α) (c : α) : Parser α :=
  if c = d.terminator then p.saveField.saveRecord
  else if c = d.delimiter then p.saveField
  else p.addChar .inField c

/-- Quotes have a meaning at the beginning of a field and within quotes only. -/
def processChar (p : Parser α) (c : α) : Parser α :=
  match p.state with
  | .startRecord =>
    if c = d.terminator then p.saveRecord
    else if c = d.quotechar then { p with state := .inQuotedField }
    else p.endField d c
  | .startField => if c = d.quotechar then { p with state := .inQuotedField } else p.endField d c
  | .inField => p.endField d c
  | .inQuotedField => if c = d.quotechar then { p with state := .quoteInQuotedField } else p.addChar .inQuotedField c
  | .quoteInQuotedField => if c = d.quotechar then p.addChar .inQuotedField c else p.endField d c

/-- The end of the text ends a record that has been begun. -/
def finish (p : Parser α) : List (List (List α)) :=
  if p.state = .startRecord then p.records else p.saveField.saveRecord.records

end Parser

def readRecords (text : List α) : List (List (List α)) := (text.foldl (Parser.processChar d) {}).finish

/-! ### Reading what has been written -/

variable {d} {p : Parser α}

/-- Within quotes, escaped text is added to the field. -/
theorem foldl_escape (h : p.state = .inQuotedField) (text : List α) :
    (QuotedFields.escape d.quotechar text).foldl (Parser.processChar d) p = { p with field := p.field ++ text } := by
  induction text generalizing p with
  | nil => simp [QuotedFields.escape]
  | cons c text ih =>
    rw [QuotedFields.escape_cons, List.foldl_append]
    have hchar : (if c = d.quotechar then [d.quotechar, d.quotechar] else [c]).foldl (Parser.processChar d) p =
        p.addChar .inQuotedField c := by
      split
      · rename_i hc
        simp [Parser.processChar, Parser.addChar, h, hc]
      · rename_i hc
        simp [Parser.processChar, h, hc]
    rw [hchar, ih rfl]
    simp [Parser.addChar, h]

/-- A quoted field is complete up to the character that follows it. -/
theorem foldl_quote (h : p.state = .startRecord ∨ p.state = .startField) (hfield : p.field = []) (text : List α) :
    (QuotedFields.quote d.quotechar text).foldl (Parser.processChar d) p =
      { p with state := .quoteInQuotedField, field := text } := by
  have hopen : p.processChar d d.quotechar = { p with state := .inQuotedField } := by
    rcases h with h | h
    · simp [Parser.processChar, h, Ne.symm d.terminator_ne]
    · simp [Parser.processChar, h]
  rw [QuotedFields.quote, List.cons_append, List.foldl_cons, hopen, List.foldl_append, foldl_escape rfl, hfield]
  simp [Parser.processChar]

/-- The fields of a record, with the last one not saved yet. -/
theorem foldl_fields (h : p.state = .startRecord ∨ p.state = .startField) (hfield : p.field = [])
    (fields : List (List α)) (last : List α) :
    ([d.delimiter].intercalate ((fields ++ [last]).map (QuotedFields.quote d.quotechar))).foldl
        (Parser.processChar d) p =
      { p with state := .quoteInQuotedField, field := last, fields := p.fields ++ fields } := by
  induction fields generalizing p with
  | nil =>
    rw [List.nil_append, List.map_singleton, List.intercalate_singleton, foldl_quote h hfield, List.append_nil]
  | cons field fields ih =>
    obtain ⟨next, others, hothers⟩ := List.exists_cons_of_ne_nil (List.concat_ne_nil last fields)
    have hdelimiter : Parser.processChar d { p with state := .quoteInQuotedField, field } d.delimiter =
        { p with state := .startField, field := [], fields := p.fields ++ [field] } := by
      simp [Parser.processChar, Parser.endField, Parser.saveField, d.delimiter_ne, Ne.symm d.terminator_ne_delimiter]
    rw [List.cons_append, hothers, List.map_cons, List.map_cons, List.intercalate_cons_cons, ← List.map_cons, ← hothers,
      List.append_assoc, List.foldl_append, foldl_quote h hfield, List.singleton_append, List.foldl_cons, hdelimiter,
      ih (.inr rfl) rfl]
    simp

theorem foldl_writeRecord {records : List (List (List α))} {fields : List (List α)} (hne : fields ≠ []) :
    (writeRecord d fields).foldl (Parser.processChar d) { records } = { records := records ++ [fields] } := by
  obtain ⟨front, last, rfl⟩ : ∃ front last, fields = front ++ [last] :=
    ⟨fields.dropLast, fields.getLast hne, (List.dropLast_append_getLast hne).symm⟩
  rw [writeRecord, List.foldl_append, foldl_fields (.inl rfl) rfl, List.foldl_cons, List.foldl_nil]
  simp [Parser.processChar, Parser.endField, Parser.saveField, Parser.saveRecord, d.terminator_ne]

/-- Records that have any field are read as they have been written. -/
theorem readRecords_writeRecords {records : List (List (List α))} (h : ∀ fields ∈ records, fields ≠ []) :
    readRecords d (writeRecords d records) = records := by
  suffices hrun : ∀ past : List (List (List α)),
      (writeRecords d records).foldl (Parser.processChar d) { records := past } = { records := past ++ records } by
    rw [readRecords, hrun []]
    rfl
  induction records with
  | nil =>
    intro past
    rw [List.append_nil]
    rfl
  | cons fields records ih =>
    intro past
    rw [writeRecords, List.flatMap_cons, List.foldl_append, foldl_writeRecord (h fields List.mem_cons_self)]
    have hrest := ih (fun other hother => h other (List.mem_cons_of_mem _ hother)) (past ++ [fields])
    rw [List.append_assoc, List.singleton_append] at hrest
    exact hrest

end QuotedRecords
