import FMITerminalBlock.Base.ApplicationContext
import FMITerminalBlock.Scripts.DataFile
import Mathlib.Data.List.TakeWhile

/-! Which data files can be read at all. The file is decoded and read line by line, `csv.reader` has a
limit on the size of a field, and the types of the columns are kept under their names. -/
namespace FMITerminalBlock.Scripts
open Base Timing CSVDataLogger
variable {format : NumberFormat} {columns : List (StdString × PortID)} {events : List StaticEvent}

/-! ### Lines that end too early -/

/-- What stands in front of the first line break of a quoted text. -/
structure CutAt (field opened : StdString) : Prop where
  cut : ∃ b rest, field = opened ++ b :: rest ∧ (b = 10 ∨ b = 13)
  inside : QuotedFields.Inside quotationMark separator opened
  odd : Odd (opened.count quotationMark)
  noBreak : NoLineBreak opened

theorem CutAt.ne_nil {field opened : StdString} (h : CutAt field opened) : opened ≠ [] := by
  rintro rfl
  exact absurd h.odd (by decide)

theorem length_setItem_le {β : Type} (dict : List (StdString × β)) (key : StdString) (value : β) :
    (setItem dict key value).length ≤ dict.length + 1 := by
  rw [setItem]
  split <;> simp

theorem length_foldl_setItem_le {β : Type} (items dict : List (StdString × β)) :
    (items.foldl (fun dict item => setItem dict item.1 item.2) dict).length ≤ dict.length + items.length := by
  induction items generalizing dict with
  | nil => exact le_refl _
  | cons item items ih =>
    have hitem := length_setItem_le dict item.1 item.2
    have hitems := ih (setItem dict item.1 item.2)
    rw [List.foldl_cons, List.length_cons]
    omega

/-- A dictionary that has grown with every item has got a new key every time. -/
theorem nodup_of_length_foldl_setItem {β : Type} {items dict : List (StdString × β)}
    (hdict : (dict.map Prod.fst).Nodup)
    (h : (items.foldl (fun dict item => setItem dict item.1 item.2) dict).length = dict.length + items.length) :
    ((dict ++ items).map Prod.fst).Nodup := by
  induction items generalizing dict with
  | nil => rwa [List.append_nil]
  | cons item items ih =>
    rw [List.foldl_cons, List.length_cons] at h
    by_cases hnew : item.1 ∈ dict.map Prod.fst
    · have hsame : (setItem dict item.1 item.2).length = dict.length := by
        rw [setItem, if_pos (by simpa using hnew), List.length_map]
      have hitems := length_foldl_setItem_le items (setItem dict item.1 item.2)
      omega
    · rw [setItem_new hnew] at h
      rw [List.append_cons]
      apply ih
      · rw [List.map_append, List.nodup_append_comm]
        exact List.nodup_cons.mpr ⟨hnew, hdict⟩
      · rw [h, List.length_append, List.length_singleton]
        omega

/-! ### The lines of events -/

instance (ev : StaticEvent) : DecidablePred (LoggableAt ev) := fun id =>
  match h : findVariable id ev.vars with
  | none => isTrue fun v hv => absurd (h.symm.trans hv) nofun
  | some v => decidable_of_iff (v.isValid = true ∧ WithinLine v.value) (by simp [LoggableAt, h])

/-- The field can be decoded, and none of the parts that are seen of it is beyond the limit. -/
structure Portable (field : StdString) : Prop where
  decoded : Utf8.WellFormed field
  short : ∀ part ∈ field.splitOn separator, Utf8.length part ≤ fieldSizeLimit

instance : DecidablePred Portable := fun _ =>
  decidable_of_iff (_ ∧ _) ⟨fun h => ⟨h.1, h.2⟩, fun h => ⟨h.decoded, h.short⟩⟩

theorem portable_of_ascii {field : StdString} (h : ∀ b ∈ field, b < 0x80) (hsep : separator ∉ field)
    (hlength : field.length ≤ fieldSizeLimit) : Portable field := by
  refine ⟨Utf8.wellFormed_of_ascii h, ?_⟩
  rw [List.splitOn_eq_singleton hsep, List.forall_mem_singleton]
  exact (Utf8.length_le field).trans hlength

/-- A line can be decoded and is not refused by `csv.reader` if this holds of its fields. -/
theorem portable_separated {fields : List StdString} (h : fields ≠ []) :
    Utf8.WellFormed (separated fields) ∧ WithinLimit (separated fields) ↔ ∀ field ∈ fields, Portable field := by
  have hdecoded : Utf8.WellFormed (separated fields) ↔ ∀ field ∈ fields, Utf8.WellFormed field :=
    Utf8.wellFormed_intercalate (by decide)
  have hlimit : WithinLimit (separated fields) ↔
      ∀ field ∈ fields, ∀ part ∈ field.splitOn separator, Utf8.length part ≤ fieldSizeLimit := by
    have hpieces : (separated fields).splitOn separator = fields.flatMap (·.splitOn separator) :=
      QuotedFields.splitOn_intercalate h
    rw [← List.forall_mem_flatMap, ← hpieces, WithinLimit, csvRow]
    split
    · rename_i hempty
      have hnone : Utf8.length [] ≤ fieldSizeLimit := (Utf8.length_le []).trans (Nat.zero_le _)
      simp [hempty, hnone]
    · rfl
  rw [hdecoded, hlimit]
  constructor
  · rintro ⟨hd, hs⟩ field hfield
    exact ⟨hd field hfield, hs field hfield⟩
  · intro hall
    exact ⟨fun field hfield => (hall field hfield).decoded, fun field hfield => (hall field hfield).short⟩

theorem wellFormed_escape (text : StdString) :
    Utf8.WellFormed (QuotedFields.escape quotationMark text) ↔ Utf8.WellFormed text := by
  induction hlength : text.length using Nat.strong_induction_on generalizing text with
  | _ n ih =>
    have hplain {front : StdString} (hfront : quotationMark ∉ front) : QuotedFields.escape quotationMark front = front := by
      have hsame : ∀ b ∈ front, (if b = quotationMark then [quotationMark, quotationMark] else [b]) = [b] := by
        intro b hb
        rw [if_neg]
        rintro rfl
        exact hfront hb
      rw [QuotedFields.escape, List.flatMap_congr hsame]
      exact List.flatMap_singleton' front
    by_cases hmem : quotationMark ∈ text
    · obtain ⟨front, back, rfl, hfront⟩ := List.eq_append_cons_of_mem hmem
      have hback := ih back.length (by rw [← hlength]; simp; omega) back rfl
      rw [QuotedFields.escape, List.flatMap_append, List.flatMap_cons, if_pos rfl, ← QuotedFields.escape,
        ← QuotedFields.escape, hplain hfront, List.cons_append, List.singleton_append,
        Utf8.wellFormed_append_cons (by decide), Utf8.wellFormed_append_cons (by decide),
        Utf8.wellFormed_cons (by decide), hback]
    · rw [hplain hmem]

/-- Quotes do not matter for the encoding. -/
theorem wellFormed_appendString (text : StdString) : Utf8.WellFormed (appendString text) ↔ Utf8.WellFormed text := by
  rw [appendString, QuotedFields.quote, List.cons_append, Utf8.wellFormed_cons (by decide),
    Utf8.wellFormed_append_cons (by decide), wellFormed_escape]
  exact and_iff_left Utf8.wellFormed_nil

/-- A string can be decoded, and no part of it in quotes is beyond the limit. -/
def PortableValue : Value → Prop
  | .string text => Portable (appendString text)
  | _ => True

/-- Printed numbers are short and need no special encoding. -/
structure PortableFormat (format : NumberFormat) : Prop extends PlainFormat format where
  portableReal : ∀ bits, Portable (format.real bits)
  portableTime : ∀ time, Portable (format.time time)

theorem portable_signed {n : Int} (hn : n.natAbs < 2 ^ 64) : Portable (DecimalText.signed n) := by
  apply portable_of_ascii
  · exact fun b hb => (numeralByte_of_mem_signed hb).1
  · exact (plainNumber_signed n).noSeparator
  · have hlength := length_decimal_word hn
    have hlimit : 21 ≤ fieldSizeLimit := by decide
    rw [DecimalText.signed]
    split
    · rw [List.length_cons]
      omega
    · omega

/-- Numbers are always portable, and strings are written in quotes. -/
theorem portable_appendValue (hformat : PortableFormat format) {v : Variable} (hknown : v.id.1 ∈ FMIVariableType.known)
    {field : StdString} (h : appendVariable format (some v) = some field) : Portable field ↔ PortableValue v.value := by
  obtain ⟨⟨fmiType, number⟩, content⟩ := v
  cases fmiType with
  | fmiTypeUnknown =>
    have hunknown : FMIVariableType.fmiTypeUnknown ∉ FMIVariableType.known := by decide
    exact absurd hknown hunknown
  | fmiTypeReal =>
    cases content with
    | real bits =>
      cases h
      exact iff_of_true (hformat.portableReal bits) trivial
    | _ => cases h
  | fmiTypeInteger =>
    cases content with
    | integer value =>
      cases h
      refine iff_of_true (portable_signed ?_) trivial
      have hlow := value.le_toInt
      have hhigh := value.toInt_lt
      omega
    | _ => cases h
  | fmiTypeBoolean =>
    cases content with
    | boolean value =>
      cases h
      have hsigned : DecimalText.signed (toUnsigned value) = DecimalText.decimal (toUnsigned value) :=
        if_neg (Int.not_lt.mpr (Int.natCast_nonneg _))
      have hportable : Portable (DecimalText.signed (toUnsigned value)) :=
        portable_signed ((toUnsigned_lt value).trans (by decide))
      rw [hsigned] at hportable
      exact iff_of_true hportable trivial
    | _ => cases h
  | fmiTypeString =>
    cases content with
    | string text =>
      cases h
      rfl
    | _ => cases h

/-- The field of a column is portable if its variable is missing or holds a portable value. -/
theorem portable_appendVariable (hformat : PortableFormat format) {id : PortID} (hknown : id.1 ∈ FMIVariableType.known)
    {vars : List Variable} {field : StdString} (h : appendVariable format (findVariable id vars) = some field) :
    Portable field ↔ ∀ v ∈ findVariable id vars, PortableValue v.value := by
  cases hfind : findVariable id vars with
  | none =>
    rw [hfind] at h
    cases h
    exact iff_of_true (by decide) nofun
  | some v =>
    have hid : v.id = id := by simpa using List.find?_some hfind
    rw [hfind] at h
    rw [portable_appendValue hformat (hid ▸ hknown) h]
    exact ⟨fun hv w hw => Option.some.inj hw ▸ hv, fun hall => hall v rfl⟩

/-! ### The whole file -/

/-- The text stays within its line, can be decoded and is not too long for `csv.reader` in quotes. -/
structure ReadableText (text : StdString) : Prop where
  line : NoLineBreak text
  decoded : Utf8.WellFormed text
  short : ∀ part ∈ (appendString text).splitOn separator, Utf8.length part ≤ fieldSizeLimit

instance : DecidablePred ReadableText := fun _ =>
  decidable_of_iff (_ ∧ _ ∧ _) ⟨fun h => ⟨h.1, h.2.1, h.2.2⟩, fun h => ⟨h.line, h.decoded, h.short⟩⟩

def ReadableValue : Value → Prop
  | .string text => ReadableText text
  | _ => True

instance : DecidablePred ReadableValue := fun v =>
  match v with
  | .string text => inferInstanceAs (Decidable (ReadableText text))
  | .real _ | .integer _ | .boolean _ | .empty => .isTrue trivial

/-- Names and logged strings are readable, and as soon as there is an event, there is a column and no
name is used twice. -/
structure Readable (columns : List (StdString × PortID)) (events : List StaticEvent) : Prop where
  names : ∀ column ∈ columns, ReadableText column.1
  distinct : events ≠ [] → columns ≠ [] ∧ (columns.map Prod.fst).Nodup
  strings : ∀ ev ∈ events, ∀ column ∈ columns, ∀ v ∈ findVariable column.2 ev.vars, ReadableValue v.value

theorem readableText_iff {text : StdString} : ReadableText text ↔ NoLineBreak text ∧ Portable (appendString text) := by
  constructor
  · rintro ⟨hline, hdecoded, hshort⟩
    exact ⟨hline, (wellFormed_appendString text).mpr hdecoded, hshort⟩
  · rintro ⟨hline, hdecoded, hshort⟩
    exact ⟨hline, (wellFormed_appendString text).mp hdecoded, hshort⟩

theorem readableValue_iff {value : Value} : ReadableValue value ↔ WithinLine value ∧ PortableValue value := by
  cases value with
  | string text => exact readableText_iff
  | _ => exact iff_of_true trivial ⟨trivial, trivial⟩

theorem openHeader_eq {csvSource : Iteration (List StdString)} (h : csvSource.failure = none) :
    Reader.openHeader csvSource = Reader.addHeader csvSource.items := by
  unfold Reader.openHeader
  split
  · rename_i hfailure
    cases h.symm.trans hfailure
  · rename_i hfailure
    cases h.symm.trans hfailure
  · rfl

/-- The whole text can be decoded, and no line of it is refused by `csv.reader`. -/
def Openable (text : StdString) : Prop := Utf8.WellFormed text ∧ ∀ line ∈ textLines text, WithinLimit line

theorem csvReader_openFile {text : StdString} (h : Openable text) (handedOut : Nat) :
    csvReader (openFile handedOut text) = { items := csvRows text } := by
  obtain ⟨hdecoded, hlimit⟩ := h
  have hall : (textLines text).takeWhile (WithinLimit ·) = textLines text := by
    rw [List.takeWhile_eq_self_iff]
    simpa using hlimit
  rw [openFile, if_pos hdecoded, csvReader, if_pos hlimit, hall]
  rfl

theorem openable_lines {lines : List StdString} (h : ∀ line ∈ lines, NoLineBreak line) :
    Openable (lines.flatMap (· ++ [10])) ↔ ∀ line ∈ lines, Utf8.WellFormed line ∧ WithinLimit line := by
  rw [Openable, textLines_lines h, Utf8.wellFormed_flatMap (by decide)]
  exact ⟨fun ⟨hdecoded, hlimit⟩ line hline => ⟨hdecoded line hline, hlimit line hline⟩,
    fun hall => ⟨fun line hline => (hall line hline).1, fun line hline => (hall line hline).2⟩⟩

private theorem portable_types (columns : List (StdString × PortID)) :
    ∀ field ∈ (fmiTypeNames .fmiTypeReal :: columns.map fun column => fmiTypeNames column.2.1).map appendString,
      Portable field := by
  have hname (type : FMIVariableType) : Portable (appendString (fmiTypeNames type)) := by
    cases type <;> decide +kernel
  simp only [List.forall_mem_map, List.forall_mem_cons, hname, implies_true, and_self]

/-- The header lines, which depend on the names in what can be read of them. -/
theorem exists_headerLines (columns : List (StdString × PortID)) : ∃ headerLines : List StdString,
    appendHeader (columns.map Prod.fst) (columns.map Prod.snd) = headerLines.flatMap (· ++ [10]) ∧
      ((∀ column ∈ columns, NoLineBreak column.1) → ∀ line ∈ headerLines, NoLineBreak line) ∧
      ((∀ line ∈ headerLines, Utf8.WellFormed line ∧ WithinLimit line) ↔
        ∀ column ∈ columns, Portable (appendString column.1)) := by
  by_cases hne : columns = []
  · subst hne
    refine ⟨[ascii "\"time\";", ascii "\"fmiReal\";"], by decide +kernel, fun _ => by decide +kernel, ?_⟩
    exact iff_of_true (by decide +kernel) nofun
  · refine ⟨[nameLine columns, typeLine columns], appendHeader_lines hne, noLineBreak_headerLines, ?_⟩
    have htime : Portable (appendString (ascii "time")) := by decide +kernel
    rw [List.forall_mem_cons, List.forall_mem_singleton, typeLine,
      portable_separated (List.map_eq_nil_iff.not.mpr (List.cons_ne_nil _ _)), and_iff_left (portable_types columns),
      nameLine, portable_separated (List.map_eq_nil_iff.not.mpr (List.cons_ne_nil _ _)), List.map_cons,
      List.forall_mem_cons, and_iff_right htime]
    simp only [List.forall_mem_map]

private theorem portable_fields (hformat : PortableFormat format) {vars : List Variable} {ids : List PortID}
    (hknown : ∀ id ∈ ids, id.1 ∈ FMIVariableType.known) {fields : List StdString}
    (h : ids.mapM (fun id => appendVariable format (findVariable id vars)) = some fields) :
    fields.length = ids.length ∧ ((∀ field ∈ fields, Portable field) ↔
      ∀ id ∈ ids, ∀ v ∈ findVariable id vars, PortableValue v.value) := by
  induction ids generalizing fields with
  | nil =>
    cases h
    exact ⟨rfl, iff_of_true nofun nofun⟩
  | cons id ids ih =>
    rw [List.mapM_cons] at h
    obtain ⟨field, hfield, h⟩ := Option.bind_eq_some_iff.mp h
    obtain ⟨rest, hrest, h⟩ := Option.bind_eq_some_iff.mp h
    cases h
    rw [List.forall_mem_cons] at hknown
    obtain ⟨hlength, hall⟩ := ih hknown.2 hrest
    refine ⟨by rw [List.length_cons, List.length_cons, hlength], ?_⟩
    rw [List.forall_mem_cons, List.forall_mem_cons, portable_appendVariable hformat hknown.1 hfield, hall]

theorem portable_eventLine (hformat : PortableFormat format) (hne : columns ≠ [])
    (hknown : ∀ column ∈ columns, column.2.1 ∈ FMIVariableType.known) {ev : StaticEvent} {line : StdString}
    (h : eventLine format (columns.map Prod.snd) ev = some line) : Utf8.WellFormed line ∧ WithinLimit line ↔
      ∀ column ∈ columns, ∀ v ∈ findVariable column.2 ev.vars, PortableValue v.value := by
  obtain ⟨fields, hfields, rfl⟩ := Option.map_eq_some_iff.mp h
  obtain ⟨hlength, hportable⟩ := portable_fields hformat (List.forall_mem_map.mpr hknown) hfields
  have hfieldsne : fields ≠ [] := by
    rintro rfl
    rw [List.length_nil, List.length_map, eq_comm, List.length_eq_zero_iff] at hlength
    exact hne hlength
  rw [← separated_cons hfieldsne, portable_separated (List.cons_ne_nil _ _), List.forall_mem_cons, hportable,
    and_iff_right (hformat.portableTime ev.time), List.forall_mem_map]

/-- A file without line breaks in names and strings can be opened if these are portable. -/
theorem openable_file (hformat : PortableFormat format) (hne : events ≠ [] → columns ≠ [])
    (hknown : ∀ column ∈ columns, column.2.1 ∈ FMIVariableType.known)
    (hnames : ∀ column ∈ columns, NoLineBreak column.1) {lines : List StdString}
    (hlines : events.mapM (eventLine format (columns.map Prod.snd)) = some lines)
    (hbreaks : ∀ line ∈ lines, NoLineBreak line) :
    Openable (appendHeader (columns.map Prod.fst) (columns.map Prod.snd) ++ lines.flatMap (· ++ [10])) ↔
      (∀ column ∈ columns, Portable (appendString column.1)) ∧
        ∀ ev ∈ events, ∀ column ∈ columns, ∀ v ∈ findVariable column.2 ev.vars, PortableValue v.value := by
  obtain ⟨headerLines, hheader, hheaderBreaks, hheaderPortable⟩ := exists_headerLines columns
  have hall : ∀ line ∈ headerLines ++ lines, NoLineBreak line := by
    rw [List.forall_mem_append]
    exact ⟨hheaderBreaks hnames, hbreaks⟩
  have hevents : (∀ line ∈ lines, Utf8.WellFormed line ∧ WithinLimit line) ↔
      ∀ ev ∈ events, ∀ column ∈ columns, ∀ v ∈ findVariable column.2 ev.vars, PortableValue v.value := by
    clear hall hbreaks
    induction events generalizing lines with
    | nil =>
      cases hlines
      exact iff_of_true nofun nofun
    | cons ev events ih =>
      rw [List.mapM_cons] at hlines
      obtain ⟨line, hline, hlines⟩ := Option.bind_eq_some_iff.mp hlines
      obtain ⟨rest, hrest, hlines⟩ := Option.bind_eq_some_iff.mp hlines
      cases hlines
      have hcolumns := hne (List.cons_ne_nil _ _)
      rw [List.forall_mem_cons, List.forall_mem_cons, portable_eventLine hformat hcolumns hknown hline,
        ih (fun _ => hcolumns) hrest]
  rw [hheader, ← List.flatMap_append, openable_lines hall, List.forall_mem_append, hheaderPortable, hevents]

theorem portableFormat_half : PortableFormat halfFormat := by
  have hhalf : Portable (ascii "0.5") := by decide +kernel
  exact { plainFormat_half with portableReal := fun _ => hhalf, portableTime := fun _ => hhalf }

end FMITerminalBlock.Scripts
