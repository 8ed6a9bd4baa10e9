import FMITerminalBlock.Scripts.Conversion

/-! From the events of a simulation to the converted table: the data file of the logger, its reader,
the filters and the writer together. -/
namespace FMITerminalBlock.Scripts
open Base QuotedRecords Timing CSVDataLogger
variable {format : NumberFormat} {columns : List (StdString × PortID)} {events : List StaticEvent}

/-! ### Rows of well-formed files -/

theorem time_parseRow {r : Reader} {row : List StdString} {event : Event} (h : r.parseRow row = .ok event) :
    row.head? = some event.eventTime := by
  unfold Reader.parseRow at h
  split at h
  · cases h
  split at h
  · cases h
  split at h
  · cases h
  rename_i time fields _
  refine Fallible.Outcome.of_ok (P := fun event : Event => (time :: fields).head? = some event.eventTime)
    (E := fun _ => True) ?_ h
  apply Fallible.Outcome.foldlM fun _ (event : Event) => (time :: fields).head? = some event.eventTime
  · intro _ event item hevent _
    cases r.header.lookup item.1 with
    | none => trivial
    | some type =>
      dsimp only
      rw [Reader.parseField]
      split
      · exact hevent
      · cases Reader.fieldValue item.2 type with
        | ok value => exact hevent
        | error e => trivial
  · rfl

/-- The numbers of a row are accepted if those of its event are. -/
theorem numbersAccepted_of_event {rows rest : List (List StdString)} {r : Reader}
    (hreader : Reader.addHeader rows = .ok (r, rest)) {row : List StdString} {event : Event}
    (hrow : r.parseRow row = .ok event) (htime : ∃ value, float event.eventTime = .ok value)
    (hreal : ∀ name text, event.eventDict.lookup name = some (.real text) → ∃ value, float text = .ok value) :
    NumbersAccepted r row := by
  constructor
  · intro time hmem
    rw [time_parseRow hrow] at hmem
    cases hmem
    exact htime
  · rintro ⟨name, text⟩ hitem htype hne
    obtain ⟨i, hi⟩ := List.mem_iff_getElem?.mp hitem
    rw [List.getElem?_zip_eq_some, List.getElem?_tail] at hi
    obtain ⟨-, value, hvalue, hassigned⟩ :=
      (parseRow_assigns hreader hrow hi.1 hi.2 htype).resolve_left fun hempty => hne hempty.1
    cases hvalue
    exact hreal name text hassigned

/-- The line of some texts can be encoded if the texts can. -/
theorem wellFormed_writeRecord {texts : List StdString} (h : ∀ text ∈ texts, Utf8.WellFormed text) :
    Utf8.WellFormed (writeRecord unixDialect texts) := by
  have hfields : Utf8.WellFormed ([unixDialect.delimiter].intercalate (texts.map appendString)) := by
    rw [Utf8.wellFormed_intercalate (by decide), List.forall_mem_map]
    exact fun text htext => (wellFormed_appendString text).mpr (h text htext)
  rw [writeRecord, Utf8.wellFormed_append_cons (by decide)]
  exact ⟨hfields, Utf8.wellFormed_nil⟩

/-- Without a malformed row and with events that can be encoded, everything is written and nothing is
raised. -/
theorem convertRows_of_read (strFloat : StdString → StdString) {args : Arguments} {r : Reader} {image : VariableImage}
    (hcovers : args.sparse = false → Covers (r.header.map Prod.fst) image) {rows : List (List StdString)}
    {read : List Event} (hread : (rows.mapM fun row => r.readRow (Reader.mergeColumns row)) = .ok read)
    (hencoded : ∀ front, front <+: read → ∀ written, connectedEvents args (r.header.map Prod.fst) image front = .ok written →
      ∀ event ∈ written, ∀ text ∈ rowTexts strFloat r.header event, Utf8.WellFormed text) :
    ∃ written, connectedEvents args (r.header.map Prod.fst) image read = .ok written ∧
      convertRows strFloat args r none image rows =
        (writeRecords unixDialect (written.map (rowTexts strFloat r.header)), none) := by
  obtain ⟨good, rest, events, written, rfl, hstream⟩ := convertRows_spec strFloat args r none image hcovers rows
  rcases hstream.stops with ⟨rfl, hraised⟩ | ⟨bad, more, e, rfl, -, hmalformed | ⟨event, delivered, hevent, hlast, he⟩⟩
  · rw [List.append_nil] at hread hraised ⊢
    cases hread.symm.trans hstream.read
    refine ⟨written, hstream.connected, Prod.ext ?_ hraised⟩
    rw [← hstream.output, List.append_nil]
  · obtain ⟨event, -, hevent⟩ := Fallible.exists_of_mapM_eq_ok hread
      (List.mem_append_right good (List.mem_cons_self : bad ∈ bad :: more))
    cases hmalformed.symm.trans hevent
  · -- The event belongs to the first ones that have been read.
    rw [List.mapM_append] at hread
    obtain ⟨front, hfront, hread⟩ := Fallible.bind_eq_ok.mp hread
    obtain ⟨back, hback, hread⟩ := Fallible.bind_eq_ok.mp hread
    cases hread
    cases hfront.symm.trans hstream.read
    rw [List.mapM_cons] at hback
    obtain ⟨first, hfirst, hback⟩ := Fallible.bind_eq_ok.mp hback
    obtain ⟨others, -, hback⟩ := Fallible.bind_eq_ok.mp hback
    cases hback
    cases hfirst.symm.trans hevent
    have hfront : events ++ [event] <+: events ++ event :: others := ⟨others, by rw [List.append_assoc]; rfl⟩
    have htexts := hencoded _ hfront _ hlast delivered (List.mem_append_right _ (List.mem_singleton_self delivered))
    rw [encode, if_pos (wellFormed_writeRecord htexts)] at he
    cases he

/-! ### What has been logged -/

/-- Printed numbers are plain texts, and `float` reads them. -/
structure NumericFormat (format : NumberFormat) : Prop extends PortableFormat format where
  floatReal : ∀ bits, ∃ value, float (format.real bits) = .ok value
  floatTime : ∀ time, ∃ value, float (format.time time) = .ok value

/-- The events that have a row: all of them, or those that set a column. -/
def keptLogged (args : Arguments) (format : NumberFormat) (columns : List (StdString × PortID))
    (events : List StaticEvent) : List StaticEvent :=
  if args.empty then events
  else events.filter fun ev => columns.any fun column => (columnValue format ev column.2).isSome

/-- The value that has been logged last for a variable. -/
def lastLogged (format : NumberFormat) (past : List StaticEvent) (id : PortID) : Option FieldValue :=
  past.reverse.findSome? fun ev => columnValue format ev id

theorem lookup_loggedValues (hnodup : (columns.map Prod.fst).Nodup) {name : StdString} {id : PortID}
    (hcolumn : (name, id) ∈ columns) (ev : StaticEvent) :
    (loggedValues format ev columns).lookup name = columnValue format ev id := by
  induction columns with
  | nil => cases hcolumn
  | cons column columns ih =>
    rw [List.map_cons, List.nodup_cons] at hnodup
    rw [loggedValues, List.filterMap_cons]
    rcases List.mem_cons.mp hcolumn with rfl | hcolumn
    · have hrest : (loggedValues format ev columns).lookup name = none :=
        lookup_eq_none.mpr fun hmem => hnodup.1 ((loggedValues_keys format ev columns).subset hmem)
      rw [loggedValues] at hrest
      cases hvalue : columnValue format ev id with
      | none => simpa [hvalue] using hrest
      | some value => simp
    · have hdiffers : name ≠ column.1 := fun heq => hnodup.1 (heq ▸ List.mem_map_of_mem hcolumn)
      have hrest := ih hnodup.2 hcolumn
      rw [loggedValues] at hrest
      cases hvalue : columnValue format ev column.2 with
      | none => exact hrest
      | some value =>
        dsimp only [Option.map_some]
        rw [List.lookup_cons, beq_eq_false_iff_ne.mpr hdiffers]
        exact hrest

theorem latest_loggedEvent (hnodup : (columns.map Prod.fst).Nodup) {name : StdString} {id : PortID}
    (hcolumn : (name, id) ∈ columns) (past : List StaticEvent) :
    latest (past.map (loggedEvent format columns)) name = lastLogged format past id := by
  rw [latest, lastLogged, ← List.map_reverse, List.findSome?_map]
  congr 1
  funext ev
  exact lookup_loggedValues hnodup hcolumn ev

theorem keptEvents_logged (args : Arguments) (format : NumberFormat) (columns : List (StdString × PortID))
    (events : List StaticEvent) :
    keptEvents args (events.map (loggedEvent format columns)) =
      (keptLogged args format columns events).map (loggedEvent format columns) := by
  rw [keptEvents, keptLogged]
  split
  · rfl
  · rw [filterEvents, List.filter_map]
    congr 2
    funext ev
    rw [Function.comp_apply, Bool.eq_iff_iff, decide_eq_true_eq, gt_iff_lt, List.length_pos_iff, List.any_eq_true,
      loggedEvent, loggedValues, ne_eq, List.filterMap_eq_nil_iff, not_forall]
    simp [Option.isSome_iff_ne_none]

/-! ### The table -/

/-- The text of a number or a string can be encoded. -/
def EncodedValue : FieldValue → Prop
  | .real text => Utf8.WellFormed text
  | .string text => Utf8.WellFormed text
  | .integer _ => True
  | .boolean _ => True

/-- The initial values of all columns, which are given on the command line or belong to the types. Their
texts can be encoded. -/
structure InitialValues (args : Arguments) (columns : List (StdString × PortID))
    (initial : StdString × PortID → FieldValue) : Prop where
  known : ∀ given ∈ getDefaultVariableDict args, given.1 ∈ columns.map Prod.fst
  value : ∀ column ∈ columns, ∀ type, simulationDataType column.2.1 = some type →
    initialValue getTypedValue (getDefaultVariableDict args) (column.1, type) = .ok (initial column)
  encoded : ∀ column ∈ columns, EncodedValue (initial column)

/-- The value of a column in the row of the last one of these events. -/
def tableValue (args : Arguments) (format : NumberFormat) (initial : StdString × PortID → FieldValue)
    (past : List StaticEvent) (ev : StaticEvent) (column : StdString × PortID) : Option FieldValue :=
  if args.sparse then columnValue format ev column.2
  else some ((lastLogged format (past ++ [ev]) column.2).getD (initial column))

/-- The texts of a row. A column that is called like the time shows the time. -/
def tableRow (strFloat : StdString → StdString) (args : Arguments) (format : NumberFormat)
    (columns : List (StdString × PortID)) (initial : StdString × PortID → FieldValue) (past : List StaticEvent)
    (ev : StaticEvent) : List StdString :=
  strFloat (format.time ev.time) :: columns.map fun column =>
    if column.1 = ascii "time" then strFloat (format.time ev.time)
    else ((tableValue args format initial past ev column).map (str strFloat)).getD []

theorem float_loggedEvent (hformat : NumericFormat format) (ev : StaticEvent) {name text : StdString}
    (h : (loggedEvent format columns ev).eventDict.lookup name = some (.real text)) :
    ∃ value, float text = .ok value := by
  obtain ⟨before, after, hdict, -⟩ := List.lookup_eq_some_iff.mp h
  have hmem : (name, FieldValue.real text) ∈ (loggedEvent format columns ev).eventDict := by
    rw [hdict]
    exact List.mem_append_right before List.mem_cons_self
  obtain ⟨column, -, hcolumn⟩ := List.mem_filterMap.mp hmem
  obtain ⟨value, hvalue, heq⟩ := Option.map_eq_some_iff.mp hcolumn
  cases heq
  obtain ⟨v, -, hreading⟩ := Option.bind_eq_some_iff.mp hvalue
  rw [reading] at hreading
  split at hreading <;> cases hreading
  exact hformat.floatReal _

/-- The rows of a data file pass the checks of their numbers. -/
theorem readRows_logged (hformat : NumericFormat format) {rows rest data : List (List StdString)} {r : Reader}
    (hreader : Reader.addHeader rows = .ok (r, rest))
    (hparsed : (data.mapM fun row => r.parseRow (Reader.mergeColumns row)) =
      .ok (events.map (loggedEvent format columns))) :
    (data.mapM fun row => r.readRow (Reader.mergeColumns row)) = .ok (events.map (loggedEvent format columns)) := by
  rw [Fallible.mapM_eq_ok, List.forall₂_map_right_iff] at hparsed ⊢
  refine hparsed.imp fun row ev hrow => readRow_eq_ok.mpr ⟨hrow, ?_⟩
  exact numbersAccepted_of_event hreader hrow (hformat.floatTime ev.time) fun _ _ => float_loggedEvent hformat ev

theorem exists_initialImage {args : Arguments} {initial : StdString × PortID → FieldValue}
    (hinitial : args.sparse = false → InitialValues args columns initial) (hnodup : (columns.map Prod.fst).Nodup)
    {header : List (StdString × SimulationDataType)} (hheader : IsHeader columns header) :
    ∃ image, initialImage args header = .ok image := by
  rw [initialImage]
  cases hsparse : args.sparse with
  | true => exact ⟨[], rfl⟩
  | false =>
    obtain ⟨hknown, hvalue⟩ := hinitial hsparse
    have hkeys : (header.map Prod.fst).Nodup := by rwa [hheader.names]
    have hentries : ∀ item ∈ header, ∃ entry,
        initialEntry getTypedValue (getDefaultVariableDict args) item = .ok entry := by
      intro item hitem
      obtain ⟨column, hcolumn, hname, htype⟩ := Fallible.exists_of_mem_right hheader hitem
      have hitemValue := hvalue column hcolumn item.2 htype
      rw [← hname] at hitemValue
      exact ⟨_, Fallible.map_eq_ok.mpr ⟨_, hitemValue, rfl⟩⟩
    obtain ⟨image, himage⟩ := Fallible.exists_mapM_eq_ok hentries
    exact ⟨image, (getInitialVariableImage_eq_ok hkeys).mpr ⟨by rwa [hheader.names], himage⟩⟩

theorem rowTexts_eq_tableRow (strFloat : StdString → StdString) {args : Arguments}
    {initial : StdString × PortID → FieldValue} {past : List StaticEvent} {ev : StaticEvent}
    {header : List (StdString × SimulationDataType)} (hheader : IsHeader columns header) {event : Event}
    (htime : event.eventTime = format.time ev.time)
    (hvalue : ∀ column ∈ columns, event.eventDict.lookup column.1 = tableValue args format initial past ev column) :
    rowTexts strFloat header event = tableRow strFloat args format columns initial past ev := by
  rw [rowTexts, fieldNames, hheader.names, tableRow, List.map_cons, fieldText, if_pos rfl, htime, List.map_map]
  congr 1
  apply List.map_congr_left
  intro column hcolumn
  rw [Function.comp_apply, fieldText, htime, hvalue column hcolumn]

/-- The value that has been logged last can be encoded if every logged string can. -/
theorem encodedValue_columnValue (hformat : PortableFormat format) {ev : StaticEvent} {id : PortID}
    (hev : ∀ v ∈ findVariable id ev.vars, ReadableValue v.value) {value : FieldValue}
    (h : columnValue format ev id = some value) : EncodedValue value := by
  obtain ⟨v, hfind, hreading⟩ := Option.bind_eq_some_iff.mp h
  have hv := hev v hfind
  rw [reading] at hreading
  split at hreading <;> cases hreading
  · exact (hformat.portableReal _).decoded
  · trivial
  · trivial
  · rename_i hstring
    rw [hstring] at hv
    exact hv.decoded

theorem encodedValue_tableValue (hformat : PortableFormat format) {args : Arguments}
    {initial : StdString × PortID → FieldValue} {past : List StaticEvent} {ev : StaticEvent} {column : StdString × PortID}
    (hinitial : args.sparse = false → EncodedValue (initial column))
    (hevents : ∀ other ∈ past ++ [ev], ∀ v ∈ findVariable column.2 other.vars, ReadableValue v.value)
    {value : FieldValue} (h : tableValue args format initial past ev column = some value) : EncodedValue value := by
  rw [tableValue] at h
  split at h
  · exact encodedValue_columnValue hformat (hevents ev (List.mem_append_right _ (List.mem_singleton_self ev))) h
  · rename_i hsparse
    cases h
    cases hlast : lastLogged format (past ++ [ev]) column.2 with
    | none => exact hinitial (Bool.eq_false_iff.mpr hsparse)
    | some value =>
      obtain ⟨other, hother, hvalue⟩ := List.exists_of_findSome?_eq_some hlast
      exact encodedValue_columnValue hformat (hevents other (List.mem_reverse.mp hother)) hvalue

theorem wellFormed_str {strFloat : StdString → StdString}
    (hstr : ∀ text, Utf8.WellFormed text → Utf8.WellFormed (strFloat text)) {value : FieldValue}
    (h : EncodedValue value) : Utf8.WellFormed (str strFloat value) := by
  cases value with
  | real text => exact hstr text h
  | integer value => exact Utf8.wellFormed_of_ascii fun b hb => (numeralByte_of_mem_signed hb).1
  | boolean value =>
    have hboth : Utf8.WellFormed (ascii "True") ∧ Utf8.WellFormed (ascii "False") := by decide +kernel
    cases value with
    | true => exact hboth.1
    | false => exact hboth.2
  | string text => exact h

/-- All texts of the table can be encoded. -/
theorem wellFormed_tableRow {strFloat : StdString → StdString}
    (hstr : ∀ text, Utf8.WellFormed text → Utf8.WellFormed (strFloat text)) (hformat : PortableFormat format)
    {args : Arguments} {initial : StdString × PortID → FieldValue} {past : List StaticEvent} {ev : StaticEvent}
    (hinitial : ∀ column ∈ columns, args.sparse = false → EncodedValue (initial column))
    (hevents : ∀ other ∈ past ++ [ev], ∀ column ∈ columns, ∀ v ∈ findVariable column.2 other.vars,
      ReadableValue v.value) :
    ∀ text ∈ tableRow strFloat args format columns initial past ev, Utf8.WellFormed text := by
  have htime : Utf8.WellFormed (strFloat (format.time ev.time)) := hstr _ (hformat.portableTime ev.time).decoded
  rw [tableRow, List.forall_mem_cons, List.forall_mem_map]
  refine ⟨htime, fun column hcolumn => ?_⟩
  split
  · exact htime
  · cases hvalue : tableValue args format initial past ev column with
    | none => exact Utf8.wellFormed_nil
    | some value =>
      apply wellFormed_str hstr
      exact encodedValue_tableValue hformat (hinitial column hcolumn)
        (fun other hother => hevents other hother column hcolumn)
        hvalue

/-- The events behind all filters have the values of the table. -/
theorem connectedEvents_logged {args : Arguments} {initial : StdString × PortID → FieldValue}
    (hinitial : args.sparse = false → InitialValues args columns initial) (hnodup : (columns.map Prod.fst).Nodup)
    {header : List (StdString × SimulationDataType)} (hheader : IsHeader columns header) {image : VariableImage}
    (himage : initialImage args header = .ok image) {written : List Event}
    (hwritten : connectedEvents args (header.map Prod.fst) image (events.map (loggedEvent format columns)) =
      .ok written) :
    written.length = (keptLogged args format columns events).length ∧
      ∀ (i : Nat) (ev : StaticEvent) (event : Event), (keptLogged args format columns events)[i]? = some ev →
        written[i]? = some event → event.eventTime = format.time ev.time ∧ ∀ column ∈ columns,
          event.eventDict.lookup column.1 =
            tableValue args format initial ((keptLogged args format columns events).take i) ev column := by
  have hkeys : (header.map Prod.fst).Nodup := by rwa [hheader.names]
  rw [connectedEvents, keptEvents_logged] at hwritten
  rw [initialImage] at himage
  cases hsparse : args.sparse with
  | true =>
    rw [hsparse, if_pos rfl] at hwritten
    cases hwritten
    refine ⟨List.length_map _, fun i ev event hev hevent => ?_⟩
    rw [List.getElem?_map, hev] at hevent
    cases hevent
    refine ⟨rfl, fun column hcolumn => ?_⟩
    rw [tableValue, hsparse, if_pos rfl]
    exact lookup_loggedValues hnodup hcolumn ev
  | false =>
    rw [hsparse, if_neg (by decide)] at hwritten himage
    let source : AbstractReader :=
      ⟨header, hkeys, (keptLogged args format columns events).map (loggedEvent format columns)⟩
    have hsourceImage : getInitialVariableImage getTypedValue (getDefaultVariableDict args) source.header = .ok image :=
      himage
    obtain ⟨rows, image', hrun, hdense⟩ := interpolateVariables_dense hsourceImage
    obtain ⟨⟨_, _⟩, hrun', rfl⟩ := Fallible.map_eq_ok.mp hwritten
    cases hrun.symm.trans hrun'
    refine ⟨hdense.length.trans (List.length_map _), fun i ev event hev hevent => ?_⟩
    have hsource : source.events[i]? = some (loggedEvent format columns ev) := by
      rw [List.getElem?_map, hev]
      rfl
    refine ⟨hdense.time i _ event hsource hevent, fun column hcolumn => ?_⟩
    obtain ⟨item, hitem, hname, htype⟩ := Fallible.exists_of_mem_left hheader hcolumn
    obtain ⟨value, hvalue, hlookup⟩ := hdense.value i event hevent item hitem
    have hcolumnValue := (hinitial hsparse).value column hcolumn item.2 htype
    rw [← hname] at hcolumnValue
    cases hvalue.symm.trans hcolumnValue
    have hpast : source.events.take (i + 1) =
        ((keptLogged args format columns events).take i ++ [ev]).map (loggedEvent format columns) := by
      rw [← List.map_take, List.take_add_one, hev, Option.toList_some]
    rw [tableValue, hsparse, if_neg (by decide), ← hname, hlookup, hpast, hname,
      latest_loggedEvent hnodup hcolumn]

theorem mem_keptLogged {args : Arguments} {ev : StaticEvent} (h : ev ∈ keptLogged args format columns events) :
    ev ∈ events := by
  rw [keptLogged] at h
  split at h
  · exact h
  · exact List.mem_of_mem_filter h

/-- Everything that is written for the first ones of the logged events can be encoded. -/
theorem wellFormed_rowTexts {strFloat : StdString → StdString}
    (hstr : ∀ text, Utf8.WellFormed text → Utf8.WellFormed (strFloat text)) (hformat : PortableFormat format)
    {args : Arguments} {initial : StdString × PortID → FieldValue}
    (hinitial : args.sparse = false → InitialValues args columns initial) (hnodup : (columns.map Prod.fst).Nodup)
    (hreadable : Readable columns events) {header : List (StdString × SimulationDataType)}
    (hheader : IsHeader columns header) {image : VariableImage} (himage : initialImage args header = .ok image)
    {front : List Event} (hfront : front <+: events.map (loggedEvent format columns)) {written : List Event}
    (hwritten : connectedEvents args (header.map Prod.fst) image front = .ok written) :
    ∀ event ∈ written, ∀ text ∈ rowTexts strFloat header event, Utf8.WellFormed text := by
  rw [List.prefix_iff_eq_take, ← List.map_take] at hfront
  rw [hfront] at hwritten
  obtain ⟨hlength, hrows⟩ := connectedEvents_logged hinitial hnodup hheader himage hwritten
  intro event hevent
  obtain ⟨i, hi⟩ := List.mem_iff_getElem?.mp hevent
  obtain ⟨ev, hev⟩ : ∃ ev, (keptLogged args format columns (events.take front.length))[i]? = some ev :=
    ⟨_, List.getElem?_eq_getElem (hlength ▸ (List.getElem?_eq_some_iff.mp hi).1)⟩
  obtain ⟨htime, hvalue⟩ := hrows i ev event hev hi
  rw [rowTexts_eq_tableRow strFloat hheader htime hvalue]
  apply wellFormed_tableRow hstr hformat
  · exact fun column hcolumn hsparse => (hinitial hsparse).encoded column hcolumn
  · intro other hother
    have hkept : other ∈ keptLogged args format columns (events.take front.length) := by
      rcases List.mem_append.mp hother with hother | hother
      · exact List.mem_of_mem_take hother
      · rw [List.mem_singleton.mp hother]
        exact List.mem_of_getElem? hev
    exact hreadable.strings other (List.mem_of_mem_take (mem_keptLogged hkept))

theorem encode_fieldNames {header : List (StdString × SimulationDataType)} (hheader : IsHeader columns header)
    (hreadable : Readable columns events) :
    encode (writeRecord unixDialect (fieldNames header)) = .ok (writeRecord unixDialect (fieldNames header)) := by
  rw [encode, if_pos]
  apply wellFormed_writeRecord
  rw [fieldNames, hheader.names, List.forall_mem_cons, List.forall_mem_map]
  exact ⟨by decide +kernel, fun column hcolumn => (hreadable.names column hcolumn).decoded⟩

/-- The table has the columns of the logger behind the time. It has a row for every logged event that sets
a column, or for every event on demand, with the last logged or the initial value of each column. -/
theorem converted_table_shows_logged_values (strFloat : StdString → StdString)
    (hstr : ∀ text, Utf8.WellFormed text → Utf8.WellFormed (strFloat text)) (hformat : NumericFormat format)
    (hne : columns ≠ []) (hnodup : (columns.map Prod.fst).Nodup)
    (hknown : ∀ column ∈ columns, column.2.1 ∈ FMIVariableType.known)
    (hvalid : ∀ ev ∈ events, ∀ v ∈ ev.vars, v.isValid = true) (hreadable : Readable columns events)
    (args : Arguments) (initial : StdString × PortID → FieldValue)
    (hinitial : args.sparse = false → InitialValues args columns initial) :
    ∃ text output rows,
      events.foldlM (eventTriggered format) (writeHeader (columns.map Prod.fst) (columns.map Prod.snd)) =
        some { header := columns.map Prod.snd, outputStream := some text } ∧
      (∀ handedOut, convert strFloat args (csvReader (openFile handedOut text)) = (output, none)) ∧
      readRecords unixDialect output = (ascii "time" :: columns.map Prod.fst) :: rows ∧
      rows.length = (keptLogged args format columns events).length ∧
      ∀ (i : Nat) (ev : StaticEvent), (keptLogged args format columns events)[i]? = some ev →
        rows[i]? = some (tableRow strFloat args format columns initial
          ((keptLogged args format columns events).take i) ev) := by
  have hbreak : ∀ column ∈ columns, NoLineBreak column.1 := fun column hcolumn => (hreadable.names column hcolumn).line
  have hevents : ∀ ev ∈ events, ∀ column ∈ columns, LoggableAt ev column.2 := fun ev hev column hcolumn v hv =>
    ⟨hvalid ev hev v (List.mem_of_find?_eq_some hv),
      (readableValue_iff.mp (hreadable.strings ev hev column hcolumn v hv)).1⟩
  obtain ⟨header, hheader⟩ := exists_header hknown
  obtain ⟨lines, hwritten, hlines, hparsed⟩ := exists_lines hformat.toPlainFormat hne hnodup hknown
    (hheader.describes hnodup) hevents
  have htext := foldlM_eventTriggered format (columns.map Prod.snd) events
    (appendHeader (columns.map Prod.fst) (columns.map Prod.snd))
  rw [hwritten, Option.map_some] at htext
  -- The file is read without an exception of its own.
  have hfile := (openable_file hformat.toPortableFormat (fun _ => hne) hknown hbreak hwritten hlines).mpr
    ⟨fun column hcolumn => (readableText_iff.mp (hreadable.names column hcolumn)).2,
      fun ev hev column hcolumn v hv => (readableValue_iff.mp (hreadable.strings ev hev column hcolumn v hv)).2⟩
  have hopened := addHeader_file hbreak hheader (lines.flatMap (· ++ [10]))
  rw [hheader.readerOf_eq hnodup, csvRows.eq_1 (lines.flatMap _), textLines_lines hlines] at hopened
  obtain ⟨image, himage⟩ := exists_initialImage hinitial hnodup hheader
  have hkeys : (header.map Prod.fst).Nodup := by rwa [hheader.names]
  have hread := readRows_logged hformat hopened hparsed
  obtain ⟨written, hconnected, hconverted⟩ := convertRows_of_read strFloat
    (covers_initialImage hkeys himage) hread fun front hfront written hwritten =>
      wellFormed_rowTexts hstr hformat.toPortableFormat hinitial hnodup hreadable hheader himage hfront hwritten
  obtain ⟨hlength, hrows⟩ := connectedEvents_logged hinitial hnodup hheader himage hconnected
  have hnames := encode_fieldNames hheader hreadable
  refine ⟨_, writeRecord unixDialect (fieldNames header) ++
    writeRecords unixDialect (written.map (rowTexts strFloat header)), written.map (rowTexts strFloat header), htext,
    fun handedOut => ?_, ?_, ?_, ?_⟩
  · have hopen : Reader.openHeader { items := csvRows _ } = .ok (_, _) := (openHeader_eq rfl).trans hopened
    have hstart := startConversion_eq_ok.mpr ⟨hopen, himage, hnames⟩
    rw [csvReader_openFile hfile, convert, hstart]
    simp only [hconverted]
  · rw [readRecords_rows, fieldNames, hheader.names]
  · rw [List.length_map, hlength]
  · intro i ev hev
    obtain ⟨event, hevent⟩ : ∃ event, written[i]? = some event :=
      ⟨_, List.getElem?_eq_getElem (hlength ▸ (List.getElem?_eq_some_iff.mp hev).1)⟩
    obtain ⟨htime, hvalue⟩ := hrows i ev event hev hevent
    rw [List.getElem?_map, hevent, Option.map_some, rowTexts_eq_tableRow strFloat hheader htime hvalue]

theorem numericFormat_half : NumericFormat halfFormat := by
  have hdigit {b : UInt8} (hb : DecimalText.isDigit b = true) : FloatText.Digits [b] := by
    intro c hc
    rwa [List.mem_singleton.mp hc]
  have hwrites : FloatText.Writes { whole := [48], fraction := [53] } (ascii "0.5") :=
    .fixed (List.cons_ne_nil _ _) (hdigit rfl) (hdigit rfl)
  have hhalf : ∃ value, float (ascii "0.5") = .ok value := ⟨_, float_writes hwrites⟩
  exact { portableFormat_half with floatReal := fun _ => hhalf, floatTime := fun _ => hhalf }

theorem initialValues_quoted : InitialValues {} quotedColumns fun column =>
    if column.2.1 = .fmiTypeReal then .real (ascii "0.0") else .string [] := by
  refine ⟨nofun, fun column hcolumn type htype => ?_, fun column hcolumn => ?_⟩
  · rcases List.mem_pair.mp hcolumn with rfl | rfl <;> cases htype <;> rfl
  · have hzero : Utf8.WellFormed (ascii "0.0") := by decide +kernel
    rcases List.mem_pair.mp hcolumn with rfl | rfl
    · exact hzero
    · exact Utf8.wellFormed_nil

theorem converted_table_shows_logged_values_quoted :
    ∃ text output rows,
      quotedEvents.foldlM (eventTriggered halfFormat)
          (writeHeader (quotedColumns.map Prod.fst) (quotedColumns.map Prod.snd)) =
        some { header := quotedColumns.map Prod.snd, outputStream := some text } ∧
      (∀ handedOut, convert id {} (csvReader (openFile handedOut text)) = (output, none)) ∧
      readRecords unixDialect output = (ascii "time" :: quotedColumns.map Prod.fst) :: rows ∧
      rows = [[ascii "0.5", ascii "0.5", ascii ";\""], [ascii "0.5", ascii "0.5", []]] := by
  have hne : quotedColumns ≠ [] := List.cons_ne_nil _ _
  have hnodup : (quotedColumns.map Prod.fst).Nodup := by decide +kernel
  have hreadable : Readable quotedColumns quotedEvents :=
    ⟨by decide +kernel, fun _ => ⟨hne, hnodup⟩, by decide +kernel⟩
  obtain ⟨text, output, rows, htext, hconvert, hread, hlength, hrows⟩ :=
    converted_table_shows_logged_values id (fun _ h => h) numericFormat_half hne hnodup (by decide +kernel)
      (by decide +kernel) hreadable {} _ fun _ => initialValues_quoted
  refine ⟨text, output, rows, htext, hconvert, hread, ?_⟩
  have hkept : keptLogged {} halfFormat quotedColumns quotedEvents = quotedEvents := by decide +kernel
  rw [hkept] at hlength hrows
  apply List.ext_getElem?
  intro i
  match i with
  | 0 => exact (hrows 0 _ rfl).trans (by decide +kernel)
  | 1 => exact (hrows 1 _ rfl).trans (by decide +kernel)
  | i + 2 =>
    rw [List.getElem?_eq_none (by rw [hlength]; exact Nat.le_add_left 2 i)]
    rfl

end FMITerminalBlock.Scripts
