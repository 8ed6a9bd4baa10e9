import FMITerminalBlock.Library.Fallible
import FMITerminalBlock.Scripts.Reader
import FMITerminalBlock.Timing.CSVDataLogger

/-! The reader undoes the logger: what is read from a data file is what was logged. -/
namespace FMITerminalBlock.Scripts
open Base Timing CSVDataLogger

/-- The text stays within its line. -/
def NoLineBreak (text : StdString) : Prop := 10 ∉ text ∧ 13 ∉ text

instance (text : StdString) : Decidable (NoLineBreak text) := inferInstanceAs (Decidable (_ ∧ _))

/-- Printed numbers can stand in a field without quotes. -/
structure PlainNumber (text : StdString) : Prop where
  ne_nil : text ≠ []
  noSeparator : separator ∉ text
  noQuote : quotationMark ∉ text
  noBreak : NoLineBreak text

/-! ### Lines -/

/-- Text without a break belongs to the first line of what follows it. -/
theorem textLines_append {line : StdString} (h : NoLineBreak line) {rest first : StdString} {lines : List StdString}
    (hrest : textLines rest = first :: lines) : textLines (line ++ rest) = (line ++ first) :: lines := by
  induction line with
  | nil => exact hrest
  | cons b line ih =>
    have hline := ih ⟨fun hb => h.1 (List.mem_cons_of_mem _ hb), fun hb => h.2 (List.mem_cons_of_mem _ hb)⟩
    have hb : b ≠ 10 := fun hb => h.1 (hb ▸ List.mem_cons_self)
    have hb' : b ≠ 13 := fun hb => h.2 (hb ▸ List.mem_cons_self)
    rw [List.cons_append, textLines, hline]
    · rfl
    · exact hb
    · exact fun rest' hb _ => hb' hb
    · exact hb'

theorem textLines_cons {line : StdString} (h : NoLineBreak line) (rest : StdString) :
    textLines (line ++ 10 :: rest) = line :: textLines rest := by
  have hbreak : textLines (10 :: rest) = [] :: textLines rest := by rw [textLines]
  rw [textLines_append h hbreak, List.append_nil]

theorem textLines_lines_append {lines : List StdString} (h : ∀ line ∈ lines, NoLineBreak line) (rest : StdString) :
    textLines (lines.flatMap (· ++ [10]) ++ rest) = lines ++ textLines rest := by
  induction lines with
  | nil => rfl
  | cons line lines ih =>
    rw [List.flatMap_cons, List.append_assoc, List.append_assoc, List.singleton_append,
      textLines_cons (h line List.mem_cons_self), ih fun l hl => h l (List.mem_cons_of_mem _ hl), List.cons_append]

theorem textLines_lines {lines : List StdString} (h : ∀ line ∈ lines, NoLineBreak line) :
    textLines (lines.flatMap (· ++ [10])) = lines := by
  have hlines := textLines_lines_append h []
  rwa [List.append_nil, textLines, List.append_nil] at hlines

/-! ### Numbers -/

theorem intDigits_of_digits {text : StdString} (hne : text ≠ []) (h : ∀ b ∈ text, DecimalText.isDigit b = true) :
    intDigits text = some text := by
  induction text with
  | nil => exact absurd rfl hne
  | cons b text ih =>
    have hb := h b List.mem_cons_self
    cases text with
    | nil => simp [intDigits, hb]
    | cons c text =>
      have hc := h c (List.mem_cons_of_mem _ List.mem_cons_self)
      have hunderscore : c ≠ 95 := by
        rintro rfl
        cases hc
      have hrest := ih (List.cons_ne_nil _ _) fun d hd => h d (List.mem_cons_of_mem _ hd)
      simp [intDigits, hb, hunderscore, hrest]

theorem strip_eq {text : StdString} (h : ∀ b ∈ text, isSpace b = false) : strip text = text := by
  have hkeep {l : StdString} (hl : ∀ b ∈ l, isSpace b = false) : l.dropWhile isSpace = l := by
    cases l with
    | nil => rfl
    | cons b l => rw [List.dropWhile_cons, if_neg (by rw [hl b List.mem_cons_self]; exact Bool.false_ne_true)]
  rw [strip, hkeep h, hkeep fun b hb => h b (List.mem_reverse.mp hb), List.reverse_reverse]

/-- Digits and signs are taken as they are. -/
def NumeralByte (b : UInt8) : Prop := b < 0x80 ∧ isSpace b = false

theorem numeralByte_of_isDigit {b : UInt8} (h : DecimalText.isDigit b = true) : NumeralByte b := by
  simp only [DecimalText.isDigit, Bool.and_eq_true, decide_eq_true_eq] at h
  obtain ⟨hlow, hhigh⟩ := h
  have hne : b ≠ 32 := by
    rintro rfl
    exact absurd hlow (by decide)
  refine ⟨UInt8.lt_of_le_of_lt hhigh (by decide), ?_⟩
  simp only [isSpace, Bool.or_eq_false_iff, Bool.and_eq_false_iff, decide_eq_false_iff_not, beq_eq_false_iff_ne]
  exact ⟨hne, .inr fun hle => absurd (UInt8.le_trans hlow hle) (by decide)⟩

theorem transformDecimalAndSpaceToASCII_eq {text : StdString} (h : ∀ b ∈ text, b < 0x80) :
    transformDecimalAndSpaceToASCII text = text := by
  rw [transformDecimalAndSpaceToASCII, if_pos (List.all_eq_true.mpr fun b hb => decide_eq_true (h b hb))]

theorem strip_transform {text : StdString} (h : ∀ b ∈ text, NumeralByte b) :
    strip (transformDecimalAndSpaceToASCII text) = text := by
  rw [transformDecimalAndSpaceToASCII_eq fun b hb => (h b hb).1, strip_eq fun b hb => (h b hb).2]

private theorem digits_decimal (n : Nat) : ∀ b ∈ DecimalText.decimal n, DecimalText.isDigit b = true :=
  fun _ hb => DecimalText.isDigit_of_mem_decimal hb

private theorem intDigits_decimal (n : Nat) : intDigits (DecimalText.decimal n) = some (DecimalText.decimal n) :=
  intDigits_of_digits (DecimalText.decimal_ne_nil n) (digits_decimal n)

/-- Numbers of the size of a machine word are far from the limit of `int`. -/
theorem length_decimal_word {n : Nat} (hn : n < 2 ^ 64) : (DecimalText.decimal n).length ≤ 20 :=
  DecimalText.length_decimal_le (hn.trans (by norm_num))

private theorem not_maxStrDigits_lt {n : Nat} (hn : n < 2 ^ 64) :
    ¬ maxStrDigits < (DecimalText.decimal n).length :=
  not_lt.mpr ((length_decimal_word hn).trans (by decide))

theorem intLiteral_signed (n : Int) :
    intLiteral (DecimalText.signed n) = (decide (n < 0), some (DecimalText.decimal n.natAbs)) := by
  rw [DecimalText.signed]
  split
  · rename_i hn
    rw [intLiteral, intDigits_decimal, decide_eq_true hn]
  · rename_i hn
    obtain ⟨b, rest, htext⟩ := List.exists_cons_of_ne_nil (DecimalText.decimal_ne_nil n.natAbs)
    have hb : DecimalText.isDigit b = true := digits_decimal _ b (htext ▸ List.mem_cons_self)
    rw [← intDigits_decimal, decide_eq_false hn, htext]
    unfold intLiteral
    split
    · rename_i heq
      cases heq
      cases hb
    · rename_i heq
      cases heq
      cases hb
    · rfl

theorem numeralByte_of_mem_signed {n : Int} {b : UInt8} (h : b ∈ DecimalText.signed n) : NumeralByte b := by
  rw [DecimalText.signed] at h
  split at h
  · rcases List.mem_cons.mp h with rfl | h
    · exact ⟨by decide, rfl⟩
    · exact numeralByte_of_isDigit (digits_decimal _ b h)
  · exact numeralByte_of_isDigit (digits_decimal _ b h)

theorem int_signed {n : Int} (hn : n.natAbs < 2 ^ 64) : int (DecimalText.signed n) = .ok n := by
  have hstrip : strip (transformDecimalAndSpaceToASCII (DecimalText.signed n)) = DecimalText.signed n :=
    strip_transform fun _ => numeralByte_of_mem_signed
  simp only [int, hstrip, intLiteral_signed, if_neg (not_maxStrDigits_lt hn), DecimalText.value_decimal,
    decide_eq_true_eq]
  congr 1
  omega

theorem int_decimal {n : Nat} (hn : n < 2 ^ 64) : int (DecimalText.decimal n) = .ok (n : Int) := by
  have hsigned : DecimalText.signed n = DecimalText.decimal n := if_neg (Int.not_lt.mpr (Int.natCast_nonneg n))
  rw [← hsigned]
  exact int_signed hn

private theorem not_mem_decimal {n : Nat} {b : UInt8} (hb : DecimalText.isDigit b = false) :
    b ∉ DecimalText.decimal n := by
  intro hmem
  rw [DecimalText.isDigit_of_mem_decimal hmem] at hb
  cases hb

theorem plainNumber_decimal (n : Nat) : PlainNumber (DecimalText.decimal n) :=
  ⟨DecimalText.decimal_ne_nil n, not_mem_decimal rfl, not_mem_decimal rfl, not_mem_decimal rfl, not_mem_decimal rfl⟩

theorem plainNumber_signed (n : Int) : PlainNumber (DecimalText.signed n) := by
  have hplain := plainNumber_decimal n.natAbs
  rw [DecimalText.signed]
  split
  · have hcons {b : UInt8} (hb : b ≠ 45) (hmem : b ∉ DecimalText.decimal n.natAbs) :
        b ∉ 45 :: DecimalText.decimal n.natAbs := List.not_mem_cons_of_ne_of_not_mem hb hmem
    exact ⟨List.cons_ne_nil _ _, hcons (by decide) hplain.noSeparator, hcons (by decide) hplain.noQuote,
      hcons (by decide) hplain.noBreak.1, hcons (by decide) hplain.noBreak.2⟩
  · exact hplain

/-! ### Fields -/

/-- The value that is expected from a logged variable. -/
def reading (format : NumberFormat) (v : Variable) : Option FieldValue :=
  match v.value with
  | .real bits => some (.real (format.real bits))
  | .integer value => some (.integer value.toInt)
  | .boolean value => some (.boolean (value ≠ 0))
  | .string value => some (.string value)
  | .empty => none

/-- The type that is expected for a column. -/
def simulationDataType : FMIVariableType → Option SimulationDataType
  | .fmiTypeReal => some .real
  | .fmiTypeInteger => some .integer
  | .fmiTypeBoolean => some .boolean
  | .fmiTypeString => some .string
  | .fmiTypeUnknown => none

theorem simulationDataType_known {fmiType : FMIVariableType} (h : fmiType ∈ FMIVariableType.known) :
    ∃ type, simulationDataType fmiType = some type := by
  cases fmiType with
  | fmiTypeUnknown => exact absurd h (by decide)
  | _ => exact ⟨_, rfl⟩

/-- A field that can be joined with others and taken apart again. -/
structure IsField (text : StdString) : Prop where
  delimited : QuotedFields.Delimited quotationMark separator text
  noBreak : NoLineBreak text

theorem PlainNumber.isField {text : StdString} (h : PlainNumber text) : IsField text :=
  ⟨QuotedFields.delimited_plain h.noQuote h.noSeparator, h.noBreak⟩

private theorem noLineBreak_quote {text : StdString} (h : NoLineBreak text) :
    NoLineBreak (QuotedFields.quote quotationMark text) := by
  have hquote {b : UInt8} (hb : b ≠ quotationMark) (hmem : b ∉ text) :
      b ∉ QuotedFields.quote quotationMark text := by
    intro h
    simp only [QuotedFields.quote, QuotedFields.escape, List.cons_append, List.mem_cons, List.mem_append,
      List.mem_flatMap, List.not_mem_nil, or_false] at h
    rcases h with h | ⟨c, hc, h⟩ | h
    · exact hb h
    · split at h
      · simp [hb] at h
      · rw [List.mem_singleton.mp h] at hmem
        exact hmem hc
    · exact hb h
  exact ⟨hquote (by decide) h.1, hquote (by decide) h.2⟩

theorem isField_appendString {text : StdString} (h : NoLineBreak text) : IsField (appendString text) :=
  ⟨QuotedFields.delimited_quote (by decide) text, noLineBreak_quote h⟩

/-- What is assumed of the texts that a stream prints for numbers. -/
structure PlainFormat (format : NumberFormat) : Prop where
  real : ∀ bits, PlainNumber (format.real bits)
  time : ∀ time, PlainNumber (format.time time)

/-- A string stays within its line. -/
def WithinLine : Value → Prop
  | .string text => NoLineBreak text
  | _ => True

instance : DecidablePred WithinLine := fun v =>
  match v with
  | .string text => inferInstanceAs (Decidable (NoLineBreak text))
  | .real _ | .integer _ | .boolean _ | .empty => .isTrue trivial

/-- The variables are valid, and strings stay within a line. -/
def Loggable (ev : StaticEvent) : Prop := ∀ v ∈ ev.vars, v.isValid = true ∧ WithinLine v.value

instance (ev : StaticEvent) : Decidable (Loggable ev) := inferInstanceAs (Decidable (∀ v ∈ ev.vars, _))

/-- The variable that is written for a column is valid and stays within its line. -/
def LoggableAt (ev : StaticEvent) (id : PortID) : Prop :=
  ∀ v ∈ findVariable id ev.vars, v.isValid = true ∧ WithinLine v.value

theorem Loggable.column {ev : StaticEvent} (h : Loggable ev) (id : PortID) : LoggableAt ev id :=
  fun v hv => h v (List.mem_of_find?_eq_some hv)

theorem toUnsigned_lt (value : UInt8) : toUnsigned value < 2 ^ 32 := by
  have hvalue := value.toNat_lt
  rw [toUnsigned]
  split <;> omega

private theorem toUnsigned_eq_zero (value : UInt8) : toUnsigned value = 0 ↔ value = 0 := by
  rw [toUnsigned]
  split
  · rw [← UInt8.toNat_inj]
    rfl
  · rename_i hbig
    constructor
    · intro h
      omega
    · rintro rfl
      exact absurd (by decide) hbig

theorem unpackString_appendString (text : StdString) : Reader.unpackString (appendString text) = .ok text := by
  have hunquote : QuotedFields.unquote 34 (appendString text) = some text := QuotedFields.unquote_quote 34 text
  rw [Reader.unpackString, hunquote]

/-- The field of a variable holds its value. -/
theorem fieldValue_appendVariable {format : NumberFormat} (hformat : PlainFormat format) {v : Variable}
    (hvalid : v.isValid = true) (hbreak : WithinLine v.value)
    {type : SimulationDataType} (htype : simulationDataType v.id.1 = some type) :
    ∃ field value, appendVariable format (some v) = some field ∧ reading format v = some value ∧ IsField field ∧
      field ≠ [] ∧ Reader.fieldValue field type = .ok value := by
  obtain ⟨⟨fmiType, number⟩, content⟩ := v
  cases fmiType with
  | fmiTypeUnknown => cases htype
  | fmiTypeReal =>
    cases htype
    cases content with
    | real bits => exact ⟨_, _, rfl, rfl, (hformat.real bits).isField, (hformat.real bits).ne_nil, rfl⟩
    | _ => cases hvalid
  | fmiTypeInteger =>
    cases htype
    cases content with
    | integer value =>
      have hplain := plainNumber_signed value.toInt
      refine ⟨_, _, rfl, rfl, hplain.isField, hplain.ne_nil, ?_⟩
      have hvalue : value.toInt.natAbs < 2 ^ 64 := by
        have hlow := value.le_toInt
        have hhigh := value.toInt_lt
        omega
      rw [Reader.fieldValue, int_signed hvalue]
      rfl
    | _ => cases hvalid
  | fmiTypeBoolean =>
    cases htype
    cases content with
    | boolean value =>
      have hplain := plainNumber_decimal (toUnsigned value)
      refine ⟨_, _, rfl, rfl, hplain.isField, hplain.ne_nil, ?_⟩
      rw [Reader.fieldValue, int_decimal ((toUnsigned_lt value).trans (by decide))]
      simp [Except.map, toUnsigned_eq_zero]
    | _ => cases hvalid
  | fmiTypeString =>
    cases htype
    cases content with
    | string text =>
      refine ⟨_, _, rfl, rfl, isField_appendString hbreak, List.cons_ne_nil _ _, ?_⟩
      rw [Reader.fieldValue, unpackString_appendString]
      rfl
    | _ => cases hvalid

/-- The value expected in a column. -/
def columnValue (format : NumberFormat) (ev : StaticEvent) (id : PortID) : Option FieldValue :=
  (findVariable id ev.vars).bind (reading format)

/-- A field is read back, whether the variable is present or not. -/
theorem parseField_appendVariable {format : NumberFormat} (hformat : PlainFormat format) {ev : StaticEvent}
    {id : PortID} (hev : LoggableAt ev id) {type : SimulationDataType} (htype : simulationDataType id.1 = some type) :
    ∃ field, appendVariable format (findVariable id ev.vars) = some field ∧ IsField field ∧
      ∀ name event, Reader.parseField field name type event = .ok { event with
        eventDict := match columnValue format ev id with
          | some value => setItem event.eventDict name value
          | none => event.eventDict } := by
  rw [columnValue]
  cases hfind : findVariable id ev.vars with
  | none => exact ⟨[], rfl, ⟨QuotedFields.delimited_plain List.not_mem_nil List.not_mem_nil,
      List.not_mem_nil, List.not_mem_nil⟩, fun _ _ => rfl⟩
  | some v =>
    have hid : v.id = id := by simpa using List.find?_some hfind
    obtain ⟨hvalid, hbreak⟩ := hev v hfind
    obtain ⟨field, value, hfield, hvalue, hisField, hne, hread⟩ :=
      fieldValue_appendVariable hformat hvalid hbreak (hid ▸ htype)
    refine ⟨field, hfield, hisField, fun name event => ?_⟩
    rw [Reader.parseField, if_neg hne, hread, Option.bind_some, hvalue]
    rfl

/-! ### Rows -/

theorem mergeColumns_separated {fields : List StdString} (h : ∀ field ∈ fields, IsField field)
    (hne : separated fields ≠ []) : Reader.mergeColumns (csvRow (separated fields)) = fields := by
  have hfields : fields ≠ [] := by
    rintro rfl
    exact hne rfl
  rw [csvRow, if_neg hne]
  exact QuotedFields.regroup_splitOn (by decide) hfields fun field hfield => (h field hfield).delimited

theorem separated_cons {fields : List StdString} (h : fields ≠ []) (first : StdString) :
    separated (first :: fields) = first ++ [separator] ++ separated fields := by
  cases fields with
  | nil => exact absurd rfl h
  | cons second fields => rw [separated, List.intercalate_cons_cons, List.append_assoc, separated, List.append_assoc]

theorem noLineBreak_separated {fields : List StdString} (h : ∀ field ∈ fields, NoLineBreak field) :
    NoLineBreak (separated fields) := by
  induction fields with
  | nil => exact ⟨List.not_mem_nil, List.not_mem_nil⟩
  | cons field fields ih =>
    have hfield := h field List.mem_cons_self
    have hfields := ih fun f hf => h f (List.mem_cons_of_mem _ hf)
    by_cases hnil : fields = []
    · rw [hnil, separated, List.intercalate_singleton]
      exact hfield
    · rw [separated_cons hnil]
      constructor
      · simpa [separator] using ⟨hfield.1, hfields.1⟩
      · simpa [separator] using ⟨hfield.2, hfields.2⟩

theorem setItem_new {β : Type} {dict : List (StdString × β)} {key : StdString} (h : key ∉ dict.map Prod.fst)
    (value : β) : setItem dict key value = dict ++ [(key, value)] := by
  rw [setItem, if_neg]
  simpa using h

/-- The variables of a column list that an event holds, with their values. -/
def loggedValues (format : NumberFormat) (ev : StaticEvent) (columns : List (StdString × PortID)) :
    List (StdString × FieldValue) :=
  columns.filterMap fun column => (columnValue format ev column.2).map fun value => (column.1, value)

theorem loggedValues_keys (format : NumberFormat) (ev : StaticEvent) (columns : List (StdString × PortID)) :
    ((loggedValues format ev columns).map Prod.fst).Sublist (columns.map Prod.fst) := by
  induction columns with
  | nil => exact List.Sublist.slnil
  | cons column columns ih =>
    rw [loggedValues, List.filterMap_cons]
    cases columnValue format ev column.2 with
    | none => exact ih.cons _
    | some value => exact ih.cons_cons _

/-- The event that is expected from the line of an event. -/
def loggedEvent (format : NumberFormat) (columns : List (StdString × PortID)) (ev : StaticEvent) : Event where
  eventTime := format.time ev.time
  eventDict := loggedValues format ev columns

/-- The field of a column in the line of an event. -/
structure FieldOf (format : NumberFormat) (ev : StaticEvent) (id : PortID) (field : StdString) : Prop where
  isField : IsField field
  parsed : ∀ type, simulationDataType id.1 = some type → ∀ name event,
    Reader.parseField field name type event = .ok { event with
      eventDict := match columnValue format ev id with
        | some value => setItem event.eventDict name value
        | none => event.eventDict }

theorem exists_fields {format : NumberFormat} (hformat : PlainFormat format) {ev : StaticEvent}
    {ids : List PortID} (hev : ∀ id ∈ ids, LoggableAt ev id) (hknown : ∀ id ∈ ids, id.1 ∈ FMIVariableType.known) :
    ∃ fields, List.Forall₂ (FieldOf format ev) ids fields ∧
      ids.mapM (fun id => appendVariable format (findVariable id ev.vars)) = some fields := by
  induction ids with
  | nil => exact ⟨[], .nil, rfl⟩
  | cons id ids ih =>
    obtain ⟨fields, hfields, hmap⟩ := ih (fun other hother => hev other (List.mem_cons_of_mem _ hother))
      fun other hother => hknown other (List.mem_cons_of_mem _ hother)
    obtain ⟨type, htype⟩ := simulationDataType_known (hknown id List.mem_cons_self)
    obtain ⟨field, hfield, hisField, hparsed⟩ := parseField_appendVariable hformat (hev id List.mem_cons_self) htype
    refine ⟨field :: fields, .cons ⟨hisField, fun type' htype' => ?_⟩ hfields, ?_⟩
    · rw [htype, Option.some.injEq] at htype'
      exact htype' ▸ hparsed
    · simp [List.mapM_cons, hfield, hmap]

theorem eventLine_fields {format : NumberFormat} (hformat : PlainFormat format) {ev : StaticEvent}
    {ids : List PortID} (hev : ∀ id ∈ ids, LoggableAt ev id) (hknown : ∀ id ∈ ids, id.1 ∈ FMIVariableType.known) :
    ∃ fields, List.Forall₂ (FieldOf format ev) ids fields ∧
      eventLine format ids ev = some (format.time ev.time ++ [separator] ++ separated fields) := by
  obtain ⟨fields, hfields, hmap⟩ := exists_fields hformat hev hknown
  exact ⟨fields, hfields, by rw [eventLine, hmap, Option.map_some]⟩

/-- The reader knows the columns. -/
structure Describes (columns : List (StdString × PortID)) (r : Reader) : Prop where
  nameList : r.nameList = columns.map Prod.fst
  length : r.header.length = columns.length
  lookup : ∀ column ∈ columns, ∃ type, simulationDataType column.2.1 = some type ∧
    r.header.lookup column.1 = some type

private theorem foldlM_fields {format : NumberFormat} {ev : StaticEvent}
    {header : List (StdString × SimulationDataType)} {columns : List (StdString × PortID)} {fields : List StdString}
    (hnodup : (columns.map Prod.fst).Nodup)
    (hlookup : ∀ column ∈ columns, ∃ type, simulationDataType column.2.1 = some type ∧
      header.lookup column.1 = some type)
    (hfields : List.Forall₂ (FieldOf format ev) (columns.map Prod.snd) fields) (event : Event)
    (hdisjoint : ∀ key ∈ event.eventDict.map Prod.fst, key ∉ columns.map Prod.fst) :
    ((columns.map Prod.fst).zip fields).foldlM (fun event item =>
        match header.lookup item.1 with
        | some type => Reader.parseField item.2 item.1 type event
        | none => .error .keyError) event =
      .ok { event with eventDict := event.eventDict ++ loggedValues format ev columns } := by
  induction columns generalizing fields event with
  | nil => simp [loggedValues, pure, Except.pure]
  | cons column columns ih =>
    obtain ⟨name, id⟩ := column
    rw [List.map_cons] at hfields
    obtain _ | ⟨hfield, hrest⟩ := hfields
    rw [List.map_cons, List.nodup_cons] at hnodup
    obtain ⟨type, htype, hheader⟩ := hlookup (name, id) List.mem_cons_self
    rw [List.map_cons, List.zip_cons_cons, List.foldlM_cons]
    simp only [hheader, hfield.parsed type htype, bind, Except.bind]
    have hnext := ih hnodup.2 (fun column hcolumn => hlookup column (List.mem_cons_of_mem _ hcolumn)) hrest
    have hold : ∀ key ∈ event.eventDict.map Prod.fst, key ≠ name ∧ key ∉ columns.map Prod.fst := by
      intro key hkey
      have hnot := hdisjoint key hkey
      rw [List.map_cons, List.mem_cons, not_or] at hnot
      exact hnot
    rw [loggedValues, List.filterMap_cons]
    cases columnValue format ev id with
    | none => exact hnext event fun key hkey => (hold key hkey).2
    | some value =>
      have hnew : name ∉ event.eventDict.map Prod.fst := fun hkey => (hold name hkey).1 rfl
      dsimp only
      rw [setItem_new hnew, Option.map_some]
      refine (hnext _ ?_).trans ?_
      · intro key hkey
        rw [List.map_append, List.mem_append] at hkey
        rcases hkey with hkey | hkey
        · exact (hold key hkey).2
        · rw [List.mem_singleton.mp hkey]
          exact hnodup.1
      · rw [List.append_assoc]
        rfl

theorem isField_of_mem {format : NumberFormat} {ev : StaticEvent} {ids : List PortID}
    {fields : List StdString} (h : List.Forall₂ (FieldOf format ev) ids fields) {field : StdString}
    (hfield : field ∈ fields) : IsField field := by
  induction h with
  | nil => cases hfield
  | cons hfirst _ ih =>
    rcases List.mem_cons.mp hfield with rfl | hfield
    · exact hfirst.isField
    · exact ih hfield

/-- The line of an event is read as the variables it was written for. -/
theorem parseRow_line {format : NumberFormat} (hformat : PlainFormat format) {ev : StaticEvent}
    {columns : List (StdString × PortID)} (hne : columns ≠ []) (hnodup : (columns.map Prod.fst).Nodup) {r : Reader}
    (hr : Describes columns r) {fields : List StdString}
    (hfields : List.Forall₂ (FieldOf format ev) (columns.map Prod.snd) fields) :
    r.parseRow (Reader.mergeColumns (csvRow (format.time ev.time ++ [separator] ++ separated fields))) =
      .ok (loggedEvent format columns ev) := by
  have hlength : fields.length = columns.length := by
    rw [← hfields.length_eq, List.length_map]
  have hfieldsne : fields ≠ [] := fun hnil => hne (List.length_eq_zero_iff.mp (by rw [← hlength, hnil]; rfl))
  have htime := hformat.time ev.time
  have hrow : Reader.mergeColumns (csvRow (separated (format.time ev.time :: fields))) =
      format.time ev.time :: fields := by
    apply mergeColumns_separated
    · intro field hfield
      rcases List.mem_cons.mp hfield with rfl | hfield
      · exact htime.isField
      · exact isField_of_mem hfields hfield
    · rw [separated_cons hfieldsne, List.append_assoc]
      exact List.append_ne_nil_of_left_ne_nil htime.ne_nil _
  rw [← separated_cons hfieldsne, hrow, Reader.parseRow, if_neg (by rw [hr.nameList, hr.length]; simp),
    if_neg (by rw [hr.length, hlength]; simp), hr.nameList]
  exact foldlM_fields hnodup hr.lookup hfields _ nofun

/-! ### The header -/

theorem unpackAll_appendString (texts : List StdString) : Reader.unpackAll (texts.map appendString) = .ok texts := by
  induction texts with
  | nil => rfl
  | cons text texts ih =>
    rw [Reader.unpackAll] at ih ⊢
    simp only [List.map_cons, List.mapM_cons, unpackString_appendString, ih, bind, Except.bind]
    rfl

theorem ofValue_fmiTypeNames {fmiType : FMIVariableType} {type : SimulationDataType}
    (h : simulationDataType fmiType = some type) :
    SimulationDataType.ofValue (fmiTypeNames fmiType) = .ok type := by
  cases fmiType <;> cases h <;> rfl

theorem foldl_setItem {β : Type} {items dict : List (StdString × β)} (h : ((dict ++ items).map Prod.fst).Nodup) :
    items.foldl (fun dict item => setItem dict item.1 item.2) dict = dict ++ items := by
  induction items generalizing dict with
  | nil => simp
  | cons item items ih =>
    have hnew : item.1 ∉ dict.map Prod.fst := by
      rw [List.map_append, List.nodup_append] at h
      exact fun hmem => h.2.2 item.1 hmem item.1 List.mem_cons_self rfl
    rw [List.append_cons] at h
    rw [List.foldl_cons, setItem_new hnew, ih h, ← List.append_cons]

/-- The header lists the columns in order, each with its type. -/
def IsHeader (columns : List (StdString × PortID)) (header : List (StdString × SimulationDataType)) : Prop :=
  List.Forall₂ (fun column item => item.1 = column.1 ∧ simulationDataType column.2.1 = some item.2) columns header

theorem exists_header {columns : List (StdString × PortID)}
    (hknown : ∀ column ∈ columns, column.2.1 ∈ FMIVariableType.known) : ∃ header, IsHeader columns header := by
  induction columns with
  | nil => exact ⟨[], .nil⟩
  | cons column columns ih =>
    obtain ⟨header, hheader⟩ := ih fun c hc => hknown c (List.mem_cons_of_mem _ hc)
    obtain ⟨type, htype⟩ := simulationDataType_known (hknown column List.mem_cons_self)
    exact ⟨(column.1, type) :: header, .cons ⟨rfl, htype⟩ hheader⟩

theorem IsHeader.names {columns : List (StdString × PortID)} {header : List (StdString × SimulationDataType)}
    (h : IsHeader columns header) : header.map Prod.fst = columns.map Prod.fst := by
  induction h with
  | nil => rfl
  | cons hitem _ ih => rw [List.map_cons, List.map_cons, hitem.1, ih]

theorem IsHeader.types {columns : List (StdString × PortID)} {header : List (StdString × SimulationDataType)}
    (h : IsHeader columns header) :
    generateSimulationDataTypes (columns.map fun column => fmiTypeNames column.2.1) = .ok (header.map Prod.snd) := by
  induction h with
  | nil => rfl
  | cons hitem _ ih =>
    rw [generateSimulationDataTypes] at ih ⊢
    simp only [List.map_cons, List.mapM_cons, ofValue_fmiTypeNames hitem.2, ih, bind, Except.bind]
    rfl

theorem IsHeader.describes {columns : List (StdString × PortID)} {header : List (StdString × SimulationDataType)}
    (h : IsHeader columns header) (hnodup : (columns.map Prod.fst).Nodup) :
    Describes columns { header, nameList := columns.map Prod.fst } := by
  refine ⟨rfl, h.length_eq.symm, ?_⟩
  induction h with
  | nil => nofun
  | @cons column item columns header hitem _ ih =>
    rw [List.map_cons, List.nodup_cons] at hnodup
    intro other hother
    rcases List.mem_cons.mp hother with rfl | hother
    · exact ⟨item.2, hitem.2, by rw [List.lookup_cons, hitem.1, beq_self_eq_true]⟩
    · obtain ⟨type, htype, hlookup⟩ := ih hnodup.2 other hother
      have hdiffers : other.1 ≠ item.1 := by
        rw [hitem.1]
        exact fun heq => hnodup.1 (heq ▸ List.mem_map_of_mem hother)
      refine ⟨type, htype, ?_⟩
      rw [List.lookup_cons, beq_eq_false_iff_ne.mpr hdiffers]
      exact hlookup

/-- The two header lines, without their ends. -/
def nameLine (columns : List (StdString × PortID)) : StdString :=
  separated ((ascii "time" :: columns.map Prod.fst).map appendString)

def typeLine (columns : List (StdString × PortID)) : StdString :=
  separated ((fmiTypeNames .fmiTypeReal :: columns.map fun column => fmiTypeNames column.2.1).map appendString)

theorem mergeColumns_strings {texts : List StdString} (hne : texts ≠ []) (h : ∀ text ∈ texts, NoLineBreak text) :
    Reader.mergeColumns (csvRow (separated (texts.map appendString))) = texts.map appendString := by
  apply mergeColumns_separated
  · intro field hfield
    obtain ⟨text, htext, rfl⟩ := List.mem_map.mp hfield
    exact isField_appendString (h text htext)
  · obtain ⟨first, rest, rfl⟩ := List.exists_cons_of_ne_nil hne
    cases rest with
    | nil => simp [separated, appendString, QuotedFields.quote]
    | cons second rest => simp [separated, List.intercalate_cons_cons, appendString, QuotedFields.quote]

private theorem noLineBreak_fmiTypeNames (type : FMIVariableType) : NoLineBreak (fmiTypeNames type) := by
  cases type <;> decide +kernel

theorem noLineBreak_names {columns : List (StdString × PortID)}
    (hbreak : ∀ column ∈ columns, NoLineBreak column.1) :
    ∀ text ∈ ascii "time" :: columns.map Prod.fst, NoLineBreak text := by
  intro text htext
  rcases List.mem_cons.mp htext with rfl | htext
  · decide +kernel
  · obtain ⟨column, hcolumn, rfl⟩ := List.mem_map.mp htext
    exact hbreak column hcolumn

private theorem noLineBreak_types (columns : List (StdString × PortID)) :
    ∀ text ∈ fmiTypeNames .fmiTypeReal :: columns.map fun column => fmiTypeNames column.2.1, NoLineBreak text := by
  intro text htext
  rcases List.mem_cons.mp htext with rfl | htext
  · exact noLineBreak_fmiTypeNames _
  · obtain ⟨column, -, rfl⟩ := List.mem_map.mp htext
    exact noLineBreak_fmiTypeNames _

theorem extractVariableHeader_strings (names types : List StdString) (hlength : names.length = types.length) :
    Reader.extractVariableHeader ((ascii "time" :: names).map appendString)
      ((fmiTypeNames .fmiTypeReal :: types).map appendString) =
        .ok (ascii "time" :: names, fmiTypeNames .fmiTypeReal :: types) := by
  have hfirst : ((ascii "time" :: names).map appendString).head? = some (ascii "\"time\"") := rfl
  have hfirst' : ((fmiTypeNames .fmiTypeReal :: types).map appendString).head? = some (ascii "\"fmiReal\"") := rfl
  have hsecond : ((ascii "time" :: names).map appendString)[1]? ≠ some [] := by
    cases names with
    | nil => simp
    | cons name names => simp [appendString, QuotedFields.quote]
  rw [Reader.extractVariableHeader, if_neg (by simp [hlength]), if_neg (by simp), hfirst, hfirst', if_neg (by simp),
    if_neg fun h => hsecond h.2, unpackAll_appendString, unpackAll_appendString]
  rfl

/-- The reader behind the header. A name that is repeated has one entry in the dictionary. -/
def readerOf (columns : List (StdString × PortID)) (header : List (StdString × SimulationDataType)) : Reader where
  header := header.foldl (fun dict item => setItem dict item.1 item.2) []
  nameList := columns.map Prod.fst

theorem IsHeader.readerOf_eq {columns : List (StdString × PortID)} {header : List (StdString × SimulationDataType)}
    (h : IsHeader columns header) (hnodup : (columns.map Prod.fst).Nodup) :
    readerOf columns header = { header, nameList := columns.map Prod.fst } := by
  have hdict := foldl_setItem (by rwa [List.nil_append, h.names] : (([] ++ header).map Prod.fst).Nodup)
  rw [readerOf, hdict, List.nil_append]

theorem addHeader_columns {columns : List (StdString × PortID)} (hbreak : ∀ column ∈ columns, NoLineBreak column.1)
    {header : List (StdString × SimulationDataType)} (hheader : IsHeader columns header)
    (rows : List (List StdString)) :
    Reader.addHeader (csvRow (nameLine columns) :: csvRow (typeLine columns) :: rows) =
      .ok (readerOf columns header, rows) := by
  have hnames : Reader.mergeColumns (csvRow (nameLine columns)) =
      (ascii "time" :: columns.map Prod.fst).map appendString :=
    mergeColumns_strings (List.cons_ne_nil _ _) (noLineBreak_names hbreak)
  have htypes : Reader.mergeColumns (csvRow (typeLine columns)) =
      (fmiTypeNames .fmiTypeReal :: columns.map fun column => fmiTypeNames column.2.1).map appendString :=
    mergeColumns_strings (List.cons_ne_nil _ _) (noLineBreak_types columns)
  have hextract := extractVariableHeader_strings (columns.map Prod.fst)
    (columns.map fun column => fmiTypeNames column.2.1) (by simp)
  have hitems : (columns.map Prod.fst).zip (header.map Prod.snd) = header := by
    have hzip := List.zip_unzip header
    rw [List.unzip_eq_map] at hzip
    rw [← hheader.names, hzip]
  rw [Reader.addHeader, Reader.readRawHeader, hnames, htypes]
  simp only [bind, Except.bind, hextract, List.drop_one, List.tail_cons, hheader.types, hitems]
  rfl

/-! ### The whole file -/

theorem findVariable_eq_some {vars : List Variable} (h : (vars.map Variable.id).Nodup) {id : PortID} {v : Variable} :
    findVariable id vars = some v ↔ v ∈ vars ∧ v.id = id := by
  constructor
  · intro hfind
    exact ⟨List.mem_of_find?_eq_some hfind, by simpa using List.find?_some hfind⟩
  · rintro ⟨hmem, rfl⟩
    cases hfind : findVariable v.id vars with
    | none => exact absurd (List.find?_eq_none.mp hfind v hmem) (by simp)
    | some w =>
      have hid : w.id = v.id := by simpa using List.find?_some hfind
      rw [List.inj_on_of_nodup_map h (List.mem_of_find?_eq_some hfind) hmem hid]

/-- The event that is read holds the values of the columns in the logged event and nothing else. -/
structure Recovers (format : NumberFormat) (columns : List (StdString × PortID)) (ev : StaticEvent) (r : Event) :
    Prop where
  time : r.eventTime = format.time ev.time
  keys : (r.eventDict.map Prod.fst).Nodup
  values : ∀ name value, (name, value) ∈ r.eventDict ↔
    ∃ id, (name, id) ∈ columns ∧ ∃ v ∈ ev.vars, v.id = id ∧ reading format v = some value

theorem recovers_loggedEvent {format : NumberFormat} {columns : List (StdString × PortID)} {ev : StaticEvent}
    (hnodup : (columns.map Prod.fst).Nodup) (hids : (ev.vars.map Variable.id).Nodup) :
    Recovers format columns ev (loggedEvent format columns ev) := by
  refine ⟨rfl, hnodup.sublist (loggedValues_keys format ev columns), fun name value => ?_⟩
  simp only [loggedEvent, loggedValues, List.mem_filterMap, Option.map_eq_some_iff, columnValue,
    Option.bind_eq_some_iff, findVariable_eq_some hids]
  constructor
  · rintro ⟨⟨name', id⟩, hcolumn, value', ⟨v, ⟨hv, hid⟩, hvalue⟩, heq⟩
    cases heq
    exact ⟨id, hcolumn, v, hv, hid, hvalue⟩
  · rintro ⟨id, hcolumn, v, hv, hid, hvalue⟩
    exact ⟨(name, id), hcolumn, value, ⟨v, ⟨hv, hid⟩, hvalue⟩, rfl⟩

/-- One line of the file, from the event to the event. -/
theorem exists_line {format : NumberFormat} (hformat : PlainFormat format) {columns : List (StdString × PortID)}
    (hne : columns ≠ []) (hnodup : (columns.map Prod.fst).Nodup)
    (hknown : ∀ column ∈ columns, column.2.1 ∈ FMIVariableType.known) {r : Reader} (hr : Describes columns r)
    {ev : StaticEvent} (hev : ∀ column ∈ columns, LoggableAt ev column.2) :
    ∃ line, eventLine format (columns.map Prod.snd) ev = some line ∧ NoLineBreak line ∧
      r.parseRow (Reader.mergeColumns (csvRow line)) =
        .ok (loggedEvent format columns ev) := by
  have hids : ∀ id ∈ columns.map Prod.snd, id.1 ∈ FMIVariableType.known := by
    intro id hid
    obtain ⟨column, hcolumn, rfl⟩ := List.mem_map.mp hid
    exact hknown column hcolumn
  have hev' : ∀ id ∈ columns.map Prod.snd, LoggableAt ev id := by
    intro id hid
    obtain ⟨column, hcolumn, rfl⟩ := List.mem_map.mp hid
    exact hev column hcolumn
  obtain ⟨fields, hfields, hline⟩ := eventLine_fields hformat hev' hids
  refine ⟨_, hline, ?_, parseRow_line hformat hne hnodup hr hfields⟩
  have htime := (hformat.time ev.time).noBreak
  have hrest := noLineBreak_separated fun field hfield => (isField_of_mem hfields hfield).noBreak
  constructor
  · simpa [separator] using ⟨htime.1, hrest.1⟩
  · simpa [separator] using ⟨htime.2, hrest.2⟩

/-- All lines of the file behind the header. -/
theorem exists_lines {format : NumberFormat} (hformat : PlainFormat format) {columns : List (StdString × PortID)}
    (hne : columns ≠ []) (hnodup : (columns.map Prod.fst).Nodup)
    (hknown : ∀ column ∈ columns, column.2.1 ∈ FMIVariableType.known) {r : Reader} (hr : Describes columns r)
    {events : List StaticEvent} (hevents : ∀ ev ∈ events, ∀ column ∈ columns, LoggableAt ev column.2) :
    ∃ lines : List StdString, events.mapM (eventLine format (columns.map Prod.snd)) = some lines ∧
      (∀ line ∈ lines, NoLineBreak line) ∧
      (lines.map csvRow).mapM (fun row => r.parseRow (Reader.mergeColumns row)) =
        .ok (events.map (loggedEvent format columns)) := by
  induction events with
  | nil => exact ⟨[], rfl, nofun, rfl⟩
  | cons ev events ih =>
    obtain ⟨line, hline, hbreak, hread⟩ := exists_line hformat hne hnodup hknown hr (hevents ev List.mem_cons_self)
    obtain ⟨lines, hlines, hbreaks, hreads⟩ := ih fun e he => hevents e (List.mem_cons_of_mem _ he)
    refine ⟨line :: lines, ?_, ?_, ?_⟩
    · rw [List.mapM_cons, hline, hlines]
      rfl
    · exact List.forall_mem_cons.mpr ⟨hbreak, hbreaks⟩
    · simp only [List.map_cons, List.mapM_cons, hread, hreads, bind, Except.bind]
      rfl

theorem appendHeader_lines {columns : List (StdString × PortID)} (hne : columns ≠ []) :
    appendHeader (columns.map Prod.fst) (columns.map Prod.snd) =
      [nameLine columns, typeLine columns].flatMap (· ++ [10]) := by
  have hfields (f : StdString × PortID → StdString) : columns.map f ≠ [] := by
    rw [Ne, List.map_eq_nil_iff]
    exact hne
  have hnames : nameLine columns =
      appendString (ascii "time") ++ [separator] ++ separated ((columns.map Prod.fst).map appendString) := by
    rw [nameLine, List.map_cons, separated_cons]
    rw [List.map_map]
    exact hfields _
  have htypes : typeLine columns =
      appendString (fmiTypeNames .fmiTypeReal) ++ [separator] ++ appendTypes (columns.map Prod.snd) := by
    rw [typeLine, List.map_cons, List.map_map, separated_cons (hfields _), appendTypes, List.map_map]
    rfl
  rw [appendHeader, hnames, htypes]
  simp

theorem noLineBreak_headerLines {columns : List (StdString × PortID)}
    (hbreak : ∀ column ∈ columns, NoLineBreak column.1) :
    ∀ line ∈ [nameLine columns, typeLine columns], NoLineBreak line := by
  have hstrings {texts : List StdString} (htexts : ∀ text ∈ texts, NoLineBreak text) :
      NoLineBreak (separated (texts.map appendString)) := by
    apply noLineBreak_separated
    intro field hfield
    obtain ⟨text, htext, rfl⟩ := List.mem_map.mp hfield
    exact (isField_appendString (htexts text htext)).noBreak
  intro line hline
  rw [List.mem_pair] at hline
  rcases hline with rfl | rfl
  · exact hstrings (noLineBreak_names hbreak)
  · exact hstrings (noLineBreak_types columns)

/-- The header is understood whatever stands behind it, also without any column. -/
theorem addHeader_file {columns : List (StdString × PortID)} (hbreak : ∀ column ∈ columns, NoLineBreak column.1)
    {header : List (StdString × SimulationDataType)} (hheader : IsHeader columns header) (rest : StdString) :
    Reader.addHeader (csvRows (appendHeader (columns.map Prod.fst) (columns.map Prod.snd) ++ rest)) =
      .ok (readerOf columns header, csvRows rest) := by
  by_cases hne : columns = []
  · subst hne
    cases hheader
    have hlines : appendHeader [] [] = [ascii "\"time\";", ascii "\"fmiReal\";"].flatMap (· ++ [10]) := by
      decide +kernel
    rw [List.map_nil, List.map_nil, hlines, csvRows, textLines_lines_append (by decide +kernel)]
    rfl
  · rw [appendHeader_lines hne, csvRows, textLines_lines_append (noLineBreak_headerLines hbreak)]
    exact addHeader_columns hbreak hheader (csvRows rest)

/-- A file is read line by line if neither names nor strings contain a line break. -/
theorem readAll_file {format : NumberFormat} (hformat : PlainFormat format) {columns : List (StdString × PortID)}
    (hne : columns ≠ []) (hnodup : (columns.map Prod.fst).Nodup) (hbreak : ∀ column ∈ columns, NoLineBreak column.1)
    (hknown : ∀ column ∈ columns, column.2.1 ∈ FMIVariableType.known) {events : List StaticEvent}
    (hevents : ∀ ev ∈ events, ∀ column ∈ columns, LoggableAt ev column.2) :
    ∃ lines header, events.mapM (eventLine format (columns.map Prod.snd)) = some lines ∧ IsHeader columns header ∧
      Reader.readAll (appendHeader (columns.map Prod.fst) (columns.map Prod.snd) ++ lines.flatMap (· ++ [10])) =
        .ok (header, events.map (loggedEvent format columns)) := by
  obtain ⟨header, hheader⟩ := exists_header hknown
  obtain ⟨lines, hwritten, hlines, hread⟩ :=
    exists_lines hformat hne hnodup hknown (hheader.describes hnodup) hevents
  refine ⟨lines, header, hwritten, hheader, ?_⟩
  rw [Reader.readAll, Reader.readRows, addHeader_file hbreak hheader, hheader.readerOf_eq hnodup, csvRows,
    textLines_lines hlines]
  simp only [bind, Except.bind, hread]
  rfl

/-- Reading a data file gives the columns and, event by event, what has been logged. -/
theorem reader_undoes_logger {format : NumberFormat} (hformat : PlainFormat format)
    {columns : List (StdString × PortID)} (hne : columns ≠ []) (hnodup : (columns.map Prod.fst).Nodup)
    (hbreak : ∀ column ∈ columns, NoLineBreak column.1)
    (hknown : ∀ column ∈ columns, column.2.1 ∈ FMIVariableType.known) {events : List StaticEvent}
    (hevents : ∀ ev ∈ events, Loggable ev) (hids : ∀ ev ∈ events, (ev.vars.map Variable.id).Nodup) :
    ∃ text header readEvents,
      events.foldlM (eventTriggered format) (writeHeader (columns.map Prod.fst) (columns.map Prod.snd)) =
        some { header := columns.map Prod.snd, outputStream := some text } ∧
      Reader.readAll text = .ok (header, readEvents) ∧ IsHeader columns header ∧
      List.Forall₂ (Recovers format columns) events readEvents := by
  obtain ⟨lines, header, hwritten, hheader, hread⟩ := readAll_file hformat hne hnodup hbreak hknown
    fun ev hev column _ => (hevents ev hev).column column.2
  have htext := foldlM_eventTriggered format (columns.map Prod.snd) events
    (appendHeader (columns.map Prod.fst) (columns.map Prod.snd))
  rw [hwritten, Option.map_some] at htext
  refine ⟨_, header, events.map (loggedEvent format columns), htext, hread, hheader, ?_⟩
  rw [List.forall₂_map_right_iff, List.forall₂_same]
  exact fun ev hev => recovers_loggedEvent hnodup (hids ev hev)

/-- Two columns, one of them with both special characters in its name. -/
def quotedColumns : List (StdString × PortID) := [(ascii "x", (.fmiTypeReal, 0)), (ascii "\";", (.fmiTypeString, 1))]

/-- Both variables, and then an empty string alone. -/
def quotedEvents : List StaticEvent :=
  [⟨1 / 2, [⟨(.fmiTypeReal, 0), .real 0x3fe0000000000000⟩, ⟨(.fmiTypeString, 1), .string (ascii ";\"")⟩]⟩,
    ⟨1 / 2, [⟨(.fmiTypeString, 1), .string []⟩]⟩]

def halfFormat : NumberFormat := ⟨fun _ => ascii "0.5", fun _ => ascii "0.5"⟩

theorem plainFormat_half : PlainFormat halfFormat := by
  have hhalf : PlainNumber (ascii "0.5") := by
    constructor <;> decide +kernel
  exact ⟨fun _ => hhalf, fun _ => hhalf⟩

theorem reader_undoes_logger_quoted :
    ∃ text header readEvents,
      quotedEvents.foldlM (eventTriggered halfFormat)
          (writeHeader (quotedColumns.map Prod.fst) (quotedColumns.map Prod.snd)) =
        some { header := quotedColumns.map Prod.snd, outputStream := some text } ∧
      Reader.readAll text = .ok (header, readEvents) ∧ IsHeader quotedColumns header ∧
      List.Forall₂ (Recovers halfFormat quotedColumns) quotedEvents readEvents := by
  have hne : quotedColumns ≠ [] := List.cons_ne_nil _ _
  have hevents : ∀ ev ∈ quotedEvents, Loggable ev := by decide +kernel
  exact reader_undoes_logger plainFormat_half hne (by decide +kernel) (by decide +kernel) (by decide +kernel) hevents
    (by decide +kernel)

end FMITerminalBlock.Scripts
