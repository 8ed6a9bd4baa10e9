import FMITerminalBlock.Scripts.FilteredReader

/-! The script that converts data files, and the initial values that are given on its command line. -/
namespace FMITerminalBlock.Scripts
open Base

/-! ### The conversion -/

/-- The options. The parser refuses `--sparse` together with `--default`. -/
structure Arguments where
  sparse : Bool := false
  default : List (StdString × StdString) := []
  empty : Bool := false

def getDefaultVariableDict (args : Arguments) : List (StdString × StdString) :=
  args.default.foldl (fun dict item => setItem dict item.1 item.2) []

/-- The source of the interpolation. -/
def connectedSource (args : Arguments) (inreader : AbstractReader) : AbstractReader :=
  if args.empty then inreader else inreader.emptyEventFilter

/-- Everything that the reader at the end of the pipe yields. -/
def getConnectedReader (args : Arguments) (inreader : AbstractReader) : Except ReaderError (List Event) :=
  if args.sparse then .ok (connectedSource args inreader).events
  else do
    let filter ← ConstantInterpolationEventFilter.init getTypedValue (connectedSource args inreader)
      (getDefaultVariableDict args)
    let (events, _) ← filter.iter
    return events

theorem nodup_keys_foldl_setItem {β : Type} {items dict : List (StdString × β)} (h : (dict.map Prod.fst).Nodup) :
    ((items.foldl (fun dict item => setItem dict item.1 item.2) dict).map Prod.fst).Nodup := by
  induction items generalizing dict with
  | nil => exact h
  | cons item items ih => exact ih (nodup_keys_setItem h item.1 item.2)

theorem addHeader_eq_ok {rows rest : List (List StdString)} {r : Reader} (h : Reader.addHeader rows = .ok (r, rest)) :
    ∃ types, r.header = (r.nameList.zip types).foldl (fun dict item => setItem dict item.1 item.2) [] := by
  obtain ⟨⟨vars, types, rows⟩, -, h⟩ := Fallible.bind_eq_ok.mp h
  obtain ⟨⟨vars, types⟩, -, h⟩ := Fallible.bind_eq_ok.mp h
  obtain ⟨simTypes, -, h⟩ := Fallible.bind_eq_ok.mp h
  cases h
  exact ⟨simTypes, rfl⟩

theorem nodup_keys_addHeader {rows rest : List (List StdString)} {r : Reader}
    (h : Reader.addHeader rows = .ok (r, rest)) : (r.header.map Prod.fst).Nodup := by
  obtain ⟨types, hheader⟩ := addHeader_eq_ok h
  rw [hheader]
  exact nodup_keys_foldl_setItem List.nodup_nil

/-- The reader of a file whose lines are split into fields already. -/
def openReader (rows : List (List StdString)) : Except ReaderError AbstractReader :=
  match h : Reader.addHeader rows with
  | .error e => .error e
  | .ok (r, data) => (data.mapM fun row => r.parseRow (Reader.mergeColumns row)).map fun events =>
      { header := r.header, keys := nodup_keys_addHeader h, events }

/-- The events that are written to the destination. -/
def processRequest (args : Arguments) (rows : List (List StdString)) : Except ReaderError (List Event) := do
  let inreader ← openReader rows
  getConnectedReader args inreader

/-- The header does not depend on the rows behind it. -/
theorem addHeader_data {variableRow typeRow : List StdString} {data : List (List StdString)} {r : Reader}
    (h : Reader.addHeader (variableRow :: typeRow :: data) = .ok (r, data)) (others : List (List StdString)) :
    Reader.addHeader (variableRow :: typeRow :: others) = .ok (r, others) := by
  obtain ⟨⟨vars, types, rest⟩, hraw, h⟩ := Fallible.bind_eq_ok.mp h
  cases hraw
  obtain ⟨names, hnames, h⟩ := Fallible.bind_eq_ok.mp h
  obtain ⟨simTypes, htypes, h⟩ := Fallible.bind_eq_ok.mp h
  cases h
  exact Fallible.bind_eq_ok.mpr ⟨_, rfl, Fallible.bind_eq_ok.mpr ⟨_, hnames, Fallible.bind_eq_ok.mpr ⟨_, htypes, rfl⟩⟩⟩

theorem openReader_eq_ok {rows data : List (List StdString)} {r : Reader} {source : AbstractReader}
    (h : Reader.addHeader rows = .ok (r, data)) :
    openReader rows = .ok source ↔ source.header = r.header ∧
      (data.mapM fun row => r.parseRow (Reader.mergeColumns row)) = .ok source.events := by
  unfold openReader
  split
  · rename_i herror
    rw [h] at herror
    cases herror
  · rename_i hok
    rw [h] at hok
    cases hok
    rw [Fallible.map_eq_ok]
    constructor
    · rintro ⟨events, hevents, rfl⟩
      exact ⟨rfl, hevents⟩
    · rintro ⟨hheader, hevents⟩
      obtain ⟨header, keys, events⟩ := source
      cases hheader
      exact ⟨events, hevents, rfl⟩

theorem header_connectedSource (args : Arguments) (source : AbstractReader) :
    (connectedSource args source).header = source.header := by
  rw [connectedSource]
  split <;> rfl

/-- With an initial image the conversion yields dense events. -/
theorem getConnectedReader_dense {args : Arguments} (hsparse : args.sparse = false) {source : AbstractReader}
    {image : VariableImage}
    (himage : getInitialVariableImage getTypedValue (getDefaultVariableDict args) source.header = .ok image) :
    ∃ rows, getConnectedReader args source = .ok rows ∧
      Dense getTypedValue (getDefaultVariableDict args) (connectedSource args source) rows := by
  rw [← header_connectedSource args source] at himage
  obtain ⟨rows, image', hrun, hdense⟩ := interpolateVariables_dense himage
  refine ⟨rows, ?_, hdense⟩
  rw [getConnectedReader, if_neg (by rw [hsparse]; decide)]
  exact Fallible.bind_eq_ok.mpr ⟨_, Fallible.bind_eq_ok.mpr ⟨_, himage, rfl⟩, Fallible.bind_eq_ok.mpr
    ⟨_, Fallible.bind_eq_ok.mpr ⟨_, hrun, rfl⟩, rfl⟩⟩

theorem exists_image_of_getConnectedReader {args : Arguments} (hsparse : args.sparse = false) {source : AbstractReader}
    {rows : List Event} (h : getConnectedReader args source = .ok rows) :
    ∃ image, getInitialVariableImage getTypedValue (getDefaultVariableDict args) source.header = .ok image := by
  rw [getConnectedReader, if_neg (by rw [hsparse]; decide)] at h
  obtain ⟨filter, hinit, -⟩ := Fallible.bind_eq_ok.mp h
  obtain ⟨image, himage, -⟩ := Fallible.bind_eq_ok.mp hinit
  rw [header_connectedSource] at himage
  exact ⟨image, himage⟩

/-! ### The initial values -/

def Arguments.withoutDefault (args : Arguments) (name : StdString) : Arguments :=
  { args with default := delItem args.default name }

/-- The last one of several options for a variable counts. -/
theorem lookup_foldl_setItem {β : Type} (items dict : List (StdString × β)) (name : StdString) :
    (items.foldl (fun dict item => setItem dict item.1 item.2) dict).lookup name =
      (items.reverse.lookup name).or (dict.lookup name) := by
  induction items generalizing dict with
  | nil => rfl
  | cons item items ih =>
    obtain ⟨key, value⟩ := item
    rw [List.foldl_cons, ih, lookup_setItem, List.reverse_cons, List.lookup_append, Option.or_assoc]
    congr 1
    by_cases hname : name = key
    · simp [hname]
    · simp [hname, beq_eq_false_iff_ne.mpr hname, List.lookup_cons]

theorem lookup_withoutDefault (args : Arguments) (name other : StdString) :
    (getDefaultVariableDict (args.withoutDefault name)).lookup other =
      if other = name then none else (getDefaultVariableDict args).lookup other := by
  have hreverse : (delItem args.default name).reverse = delItem args.default.reverse name :=
    (List.filter_reverse ..).symm
  rw [getDefaultVariableDict, getDefaultVariableDict, lookup_foldl_setItem, lookup_foldl_setItem,
    Arguments.withoutDefault, hreverse, lookup_delItem]
  split
  · rfl
  · rfl

/-- With one more initial value, the image exists if this value can be converted. -/
theorem getInitialVariableImage_given {args : Arguments} {header : List (StdString × SimulationDataType)}
    (hnodup : (header.map Prod.fst).Nodup) {name text : StdString} {type : SimulationDataType}
    (htype : (name, type) ∈ header) (hgiven : (getDefaultVariableDict args).lookup name = some text)
    {image : VariableImage} (himage : getInitialVariableImage getTypedValue
      (getDefaultVariableDict (args.withoutDefault name)) header = .ok image) :
    (∃ image, getInitialVariableImage getTypedValue (getDefaultVariableDict args) header = .ok image) ↔
      ∃ value, getTypedValue type text = .ok value := by
  obtain ⟨hknown, hentries⟩ := (getInitialVariableImage_eq_ok hnodup).mp himage
  constructor
  · rintro ⟨image, himage⟩
    obtain ⟨value, hvalue, -⟩ := lookup_initialImage hnodup ((getInitialVariableImage_eq_ok hnodup).mp himage).2 htype
    rw [initialValue, hgiven] at hvalue
    exact ⟨value, hvalue⟩
  · rintro ⟨value, hvalue⟩
    have hall : ∀ item ∈ header, ∃ entry, initialEntry getTypedValue (getDefaultVariableDict args) item = .ok entry := by
      intro item hitem
      by_cases hitemName : item.1 = name
      · have hitem : item = (name, type) := List.inj_on_of_nodup_map hnodup hitem htype hitemName
        rw [hitem, initialEntry, initialValue, hgiven]
        exact ⟨(name, value), Fallible.map_eq_ok.mpr ⟨value, hvalue, rfl⟩⟩
      · obtain ⟨entry, -, hentry⟩ := Fallible.exists_of_mapM_eq_ok hentries hitem
        refine ⟨entry, ?_⟩
        rwa [initialEntry, initialValue, lookup_withoutDefault, if_neg hitemName] at hentry
    obtain ⟨image, himage⟩ := Fallible.exists_mapM_eq_ok hall
    refine ⟨image, (getInitialVariableImage_eq_ok hnodup).mpr ⟨?_, himage⟩⟩
    intro given hmem
    by_cases hgivenName : given.1 = name
    · rw [hgivenName]
      exact List.mem_map_of_mem htype
    · have hother : given.1 ∈ (getDefaultVariableDict (args.withoutDefault name)).map Prod.fst := by
        by_contra hmissing
        rw [← lookup_eq_none, lookup_withoutDefault, if_neg hgivenName, lookup_eq_none] at hmissing
        exact hmissing (List.mem_map_of_mem hmem)
      obtain ⟨same, hsame, hkey⟩ := List.mem_map.mp hother
      rw [← hkey]
      exact hknown same hsame

/-! ### The fields of a row -/

/-- What a field leaves in an event: nothing if it is empty, and its value otherwise. -/
def Assigns (text : StdString) (type : SimulationDataType) (assigned : Option FieldValue) : Prop :=
  text = [] ∧ assigned = none ∨ text ≠ [] ∧ ∃ value, Reader.fieldValue text type = .ok value ∧ assigned = some value

theorem parseField_lookup {field name : StdString} {type : SimulationDataType} {event event' : Event}
    (h : Reader.parseField field name type event = .ok event') :
    (∀ other, other ≠ name → event'.eventDict.lookup other = event.eventDict.lookup other) ∧
      (event.eventDict.lookup name = none → Assigns field type (event'.eventDict.lookup name)) := by
  unfold Reader.parseField at h
  split at h
  · rename_i hempty
    cases h
    exact ⟨fun _ _ => rfl, fun hnone => .inl ⟨hempty, hnone⟩⟩
  · rename_i hfilled
    obtain ⟨value, hvalue, rfl⟩ := Fallible.map_eq_ok.mp h
    constructor
    · intro other hother
      rw [lookup_setItem, if_neg hother]
    · intro _
      exact .inr ⟨hfilled, value, hvalue, by rw [lookup_setItem, if_pos rfl]⟩

/-- Each name is assigned by its own field only. -/
theorem foldlM_parseField {header : List (StdString × SimulationDataType)} {items : List (StdString × StdString)}
    (hnodup : (items.map Prod.fst).Nodup) {event event' : Event}
    (h : items.foldlM (fun event item =>
      match header.lookup item.1 with
      | some type => Reader.parseField item.2 item.1 type event
      | none => .error .keyError) event = .ok event') :
    (∀ other ∉ items.map Prod.fst, event'.eventDict.lookup other = event.eventDict.lookup other) ∧
      ∀ item ∈ items, ∀ type, header.lookup item.1 = some type → event.eventDict.lookup item.1 = none →
        Assigns item.2 type (event'.eventDict.lookup item.1) := by
  induction items generalizing event with
  | nil =>
    cases h
    exact ⟨fun _ _ => rfl, fun item hitem => by cases hitem⟩
  | cons first items ih =>
    rw [List.map_cons, List.nodup_cons] at hnodup
    rw [List.foldlM_cons] at h
    obtain ⟨event₁, hfirst, hrest⟩ := Fallible.bind_eq_ok.mp h
    cases htype : header.lookup first.1 with
    | none =>
      rw [htype] at hfirst
      cases hfirst
    | some firstType =>
      rw [htype] at hfirst
      obtain ⟨hkeep, hassigns⟩ := parseField_lookup hfirst
      obtain ⟨hkeepRest, hassignsRest⟩ := ih hnodup.2 hrest
      constructor
      · intro other hother
        rw [List.map_cons, List.mem_cons, not_or] at hother
        rw [hkeepRest other hother.2, hkeep other hother.1]
      · intro item hitem type hitemType hnone
        rcases List.mem_cons.mp hitem with rfl | hitem
        · rw [htype] at hitemType
          cases hitemType
          rw [hkeepRest _ hnodup.1]
          exact hassigns hnone
        · have hdiffers : item.1 ≠ first.1 := fun heq => hnodup.1 (heq ▸ List.mem_map_of_mem hitem)
          exact hassignsRest item hitem type hitemType (by rw [hkeep _ hdiffers, hnone])

/-- A reader that has parsed a row has different names for its columns. -/
theorem nodup_nameList {rows rest : List (List StdString)} {r : Reader} (hreader : Reader.addHeader rows = .ok (r, rest))
    (hlength : r.nameList.length = r.header.length) : r.nameList.Nodup := by
  obtain ⟨types, hheader⟩ := addHeader_eq_ok hreader
  have hle := length_foldl_setItem_le (r.nameList.zip types) []
  rw [← hheader, ← hlength, List.length_nil, Nat.zero_add, List.length_zip] at hle
  have hnodup : (([] ++ r.nameList.zip types).map Prod.fst).Nodup := by
    apply nodup_of_length_foldl_setItem
    · exact List.nodup_nil
    · rw [← hheader, ← hlength, List.length_nil, Nat.zero_add, List.length_zip]
      omega
  rwa [List.nil_append, List.map_fst_zip (by omega)] at hnodup

/-- The column of a row that has been parsed. -/
theorem parseRow_assigns {rows rest : List (List StdString)} {r : Reader} (hreader : Reader.addHeader rows = .ok (r, rest))
    {row : List StdString} {event : Event} (hrow : r.parseRow row = .ok event) {i : Nat} {name text : StdString}
    (hname : r.nameList[i]? = some name) (htext : row[i + 1]? = some text) {type : SimulationDataType}
    (htype : r.header.lookup name = some type) : Assigns text type (event.eventDict.lookup name) := by
  unfold Reader.parseRow at hrow
  split at hrow
  · cases hrow
  · rename_i hlength
    rw [not_not] at hlength
    split at hrow
    · cases hrow
    · rename_i time fields
      split at hrow
      · cases hrow
      · rename_i hfields
        rw [not_not] at hfields
        have hkeys : (r.nameList.zip fields).map Prod.fst = r.nameList := List.map_fst_zip (by omega)
        have hnodup : ((r.nameList.zip fields).map Prod.fst).Nodup := by
          rw [hkeys]
          exact nodup_nameList hreader hlength
        have hitem : (name, text) ∈ r.nameList.zip fields := by
          apply List.mem_of_getElem? (i := i)
          rw [List.getElem?_zip_eq_some]
          exact ⟨hname, htext⟩
        exact (foldlM_parseField hnodup hrow).2 _ hitem type htype rfl

/-! ### An option and a row -/

/-- The texts that are accepted as a field of a column, which includes the empty one. A real number is
accepted by `float`. -/
def Accepted (type : SimulationDataType) (text : StdString) : Prop :=
  text = [] ∨ (type = .real → ∃ value, float text = .ok value) ∧ ∃ value, Reader.fieldValue text type = .ok value

/-- A text is given as the initial value of a column. The same file with the text in a row before all
others is converted without this option. -/
structure Comparison where
  args : Arguments
  dense : args.sparse = false
  variableRow : List StdString
  typeRow : List StdString
  data : List (List StdString)
  reader : Reader
  header : Reader.addHeader (variableRow :: typeRow :: data) = .ok (reader, data)
  source : AbstractReader
  opened : openReader (variableRow :: typeRow :: data) = .ok source
  column : Nat
  name : StdString
  named : reader.nameList[column]? = some name
  type : SimulationDataType
  typed : reader.header.lookup name = some type
  notString : type ≠ .string
  text : StdString
  accepted : Accepted type text
  given : (getDefaultVariableDict args).lookup name = some text
  row : List StdString
  field : (Reader.mergeColumns row)[column + 1]? = some text
  rows : List Event
  converted : processRequest (args.withoutDefault name) (variableRow :: typeRow :: row :: data) = .ok rows

/-- The value of a variable in a row. -/
def valueAt (rows : List Event) (i : Nat) (name : StdString) : Option FieldValue :=
  rows[i]?.bind fun row => row.eventDict.lookup name

theorem Dense.valueAt {initialValues : List (StdString × StdString)} {source : AbstractReader} {rows : List Event}
    (h : Dense getTypedValue initialValues source rows) {i : Nat} (hi : i < source.events.length)
    {item : StdString × SimulationDataType} (hitem : item ∈ source.header) :
    ∃ initial, initialValue getTypedValue initialValues item = .ok initial ∧
      valueAt rows i item.1 = some ((latest (source.events.take (i + 1)) item.1).getD initial) := by
  have hrow : rows[i]? = some (rows.get ⟨i, h.length ▸ hi⟩) := List.getElem?_eq_getElem _
  obtain ⟨initial, hinitial, hvalue⟩ := h.value i _ hrow item hitem
  exact ⟨initial, hinitial, by rw [Scripts.valueAt, hrow, Option.bind_some, hvalue]⟩

/-- An empty text is no number. -/
theorem getTypedValue_empty {type : SimulationDataType} (hnumber : type = .real ∨ type = .integer) (value : FieldValue) :
    getTypedValue type [] ≠ .ok value := by
  intro hvalue
  rcases hnumber with rfl | rfl <;> cases hvalue

/-- Both ways to convert the text of a number agree. -/
theorem getTypedValue_number {type : SimulationDataType} (hnumber : type = .real ∨ type = .integer) {text : StdString}
    (hne : text ≠ []) (haccepted : Accepted type text) {assigned : Option FieldValue}
    (hassigns : Assigns text type assigned) :
    getTypedValue type text = .ok (assigned.getD (defaultValues type)) := by
  obtain ⟨-, read, hread, rfl⟩ := hassigns.resolve_left fun hempty => hne hempty.1
  rcases hnumber with rfl | rfl
  · obtain ⟨number, hnumber⟩ := (haccepted.resolve_left hne).1 rfl
    cases hread
    rw [getTypedValue, hnumber]
    rfl
  · exact hread

/-- The truth value of a text is not the one of its number. -/
theorem getTypedValue_boolean {text : StdString} {assigned : Option FieldValue}
    (hassigns : Assigns text .boolean assigned) :
    getTypedValue .boolean text = .ok (assigned.getD (defaultValues .boolean)) ↔ text = [] ∨ int text ≠ .ok 0 := by
  rcases hassigns with ⟨rfl, rfl⟩ | ⟨hne, value, hvalue, rfl⟩
  · exact ⟨fun _ => .inl rfl, fun _ => rfl⟩
  · obtain ⟨n, hn, rfl⟩ := Fallible.map_eq_ok.mp hvalue
    rw [getTypedValue, hn]
    simp [hne]

namespace Comparison
variable (c : Comparison)

/-- The events of the file that are kept. -/
def kept : List Event := (connectedSource c.args c.source).events

/-- The row stands before the first assignment of the column. -/
def Unassigned (i : Nat) : Prop := i < c.kept.length ∧ ∀ ev ∈ c.kept.take (i + 1), ev.eventDict.lookup c.name = none

/-- The conversion with the option succeeds, and up to the first assignment it has the values that the
rows of the same events have behind the additional row. -/
def SameValues : Prop :=
  ∃ rows, processRequest c.args (c.variableRow :: c.typeRow :: c.data) = .ok rows ∧
    ∀ i, c.Unassigned i → ∃ value, valueAt rows i c.name = some value ∧
      valueAt (c.rows.drop (c.rows.length - rows.length)) i c.name = some value

/-- The first event that is kept assigns the column, if there is an event at all. -/
def AssignedAtOnce : Prop := ∀ ev ∈ c.kept.head?, ev.eventDict.lookup c.name ≠ none

theorem assignedAtOnce_iff : c.AssignedAtOnce ↔ ∀ i, ¬ c.Unassigned i := by
  rw [AssignedAtOnce]
  constructor
  · intro h i hi
    cases hkept : c.kept with
    | nil =>
      rw [Unassigned, hkept] at hi
      cases hi.1
    | cons ev events =>
      rw [hkept] at h
      exact h ev rfl (hi.2 ev (by rw [hkept, List.take_succ_cons]; exact List.mem_cons_self))
  · intro h ev hev hnone
    cases hkept : c.kept with
    | nil =>
      rw [hkept] at hev
      cases hev
    | cons first events =>
      rw [hkept] at hev
      cases hev
      refine h 0 ⟨by rw [hkept]; exact Nat.succ_pos _, ?_⟩
      intro other hother
      rw [hkept, List.take_succ_cons, List.take_zero] at hother
      cases List.mem_singleton.mp hother
      exact hnone

theorem latest_unassigned {i : Nat} (h : c.Unassigned i) : latest (c.kept.take (i + 1)) c.name = none := by
  rw [latest, List.findSome?_eq_none_iff]
  intro ev hev
  exact h.2 ev (List.mem_reverse.mp hev)

theorem dense_without : (c.args.withoutDefault c.name).sparse = false := c.dense

theorem mem_header : (c.name, c.type) ∈ c.source.header := by
  rw [((openReader_eq_ok c.header).mp c.opened).1]
  obtain ⟨before, after, hheader, -⟩ := List.lookup_eq_some_iff.mp c.typed
  rw [hheader]
  exact List.mem_append_right before List.mem_cons_self

/-- The file with the additional row has one more event, which assigns the column as its field says. -/
theorem exists_additional : ∃ (ev : Event) (source : AbstractReader), source.header = c.source.header ∧
    source.events = ev :: c.source.events ∧ Assigns c.text c.type (ev.eventDict.lookup c.name) ∧
    getConnectedReader (c.args.withoutDefault c.name) source = .ok c.rows := by
  obtain ⟨source, hsource, hrows⟩ := Fallible.bind_eq_ok.mp c.converted
  obtain ⟨hheader, hevents⟩ := (openReader_eq_ok (addHeader_data c.header _)).mp hsource
  obtain ⟨hheader', hevents'⟩ := (openReader_eq_ok c.header).mp c.opened
  rw [List.mapM_cons] at hevents
  obtain ⟨ev, hev, hevents⟩ := Fallible.bind_eq_ok.mp hevents
  obtain ⟨events, hrest, hevents⟩ := Fallible.bind_eq_ok.mp hevents
  rw [hevents'] at hrest
  cases hrest
  refine ⟨ev, source, hheader.trans hheader'.symm, ?_, ?_, hrows⟩
  · exact (Except.ok.inj hevents).symm
  · exact parseRow_assigns c.header hev c.named c.field c.typed

/-- The option needs a text that can be converted; the other options do without it. -/
theorem image_iff : (∃ image, getInitialVariableImage getTypedValue (getDefaultVariableDict c.args) c.source.header =
    .ok image) ↔ ∃ value, getTypedValue c.type c.text = .ok value := by
  obtain ⟨ev, source, hheader, -, -, hrows⟩ := c.exists_additional
  obtain ⟨image, himage⟩ := exists_image_of_getConnectedReader c.dense_without hrows
  rw [hheader] at himage
  exact getInitialVariableImage_given c.source.keys c.mem_header c.given himage

/-- The additional event is dropped only if it assigns nothing at all. -/
theorem kept_additional {source : AbstractReader} {ev : Event} (hevents : source.events = ev :: c.source.events) :
    ∃ before, (connectedSource (c.args.withoutDefault c.name) source).events = before ++ c.kept ∧
      latest before c.name = ev.eventDict.lookup c.name := by
  have hempty : (c.args.withoutDefault c.name).empty = c.args.empty := rfl
  rw [kept, connectedSource, connectedSource, hempty]
  split
  · exact ⟨[ev], hevents, latest_singleton ev c.name⟩
  · by_cases hdict : ev.eventDict = []
    · refine ⟨[], ?_, ?_⟩
      · simp [AbstractReader.emptyEventFilter, filterEvents, hevents, hdict]
      · rw [hdict]
        rfl
    · refine ⟨[ev], ?_, latest_singleton ev c.name⟩
      simp [AbstractReader.emptyEventFilter, filterEvents, hevents, List.length_pos_iff.mpr hdict]

/-- The rows behind the additional one show what its field has assigned, or the default of the type. -/
theorem additional_values : ∃ assigned, Assigns c.text c.type assigned ∧ ∀ i, c.Unassigned i →
    valueAt (c.rows.drop (c.rows.length - c.kept.length)) i c.name =
      some (assigned.getD (defaultValues c.type)) := by
  obtain ⟨ev, source, hheader, hevents, hassigns, hrows⟩ := c.exists_additional
  refine ⟨_, hassigns, fun i hi => ?_⟩
  obtain ⟨image, himage⟩ := exists_image_of_getConnectedReader c.dense_without hrows
  obtain ⟨rows, hrows', hdense⟩ := getConnectedReader_dense c.dense_without himage
  rw [hrows] at hrows'
  cases hrows'
  obtain ⟨before, hkept, hbefore⟩ := c.kept_additional hevents
  have hlength : c.rows.length = before.length + c.kept.length := by
    rw [hdense.length, hkept, List.length_append]
  have hitem : (c.name, c.type) ∈ (connectedSource (c.args.withoutDefault c.name) source).header := by
    rw [header_connectedSource, hheader]
    exact c.mem_header
  have hlt : before.length + i < (connectedSource (c.args.withoutDefault c.name) source).events.length := by
    rw [hkept, List.length_append]
    exact Nat.add_lt_add_left hi.1 _
  obtain ⟨initial, hinitial, hvalue⟩ := hdense.valueAt hlt hitem
  have hdefault : initial = defaultValues c.type := by
    rw [initialValue, lookup_withoutDefault, if_pos rfl] at hinitial
    exact (Except.ok.inj hinitial).symm
  have hlatest : latest ((before ++ c.kept).take (before.length + i + 1)) c.name = ev.eventDict.lookup c.name := by
    rw [Nat.add_assoc, List.take_length_add_append, latest_append, c.latest_unassigned hi, Option.none_or, hbefore]
  rw [hlength, Nat.add_sub_cancel, valueAt, List.getElem?_drop, ← valueAt, hvalue, hkept, hlatest, hdefault]

/-- The conversion with the option exists if the text can be converted, and shows its value. -/
theorem given_values {value : FieldValue} (hvalue : getTypedValue c.type c.text = .ok value) :
    ∃ rows, processRequest c.args (c.variableRow :: c.typeRow :: c.data) = .ok rows ∧
      rows.length = c.kept.length ∧ ∀ i, c.Unassigned i → valueAt rows i c.name = some value := by
  obtain ⟨image, himage⟩ := c.image_iff.mpr ⟨value, hvalue⟩
  obtain ⟨rows, hrows, hdense⟩ := getConnectedReader_dense c.dense himage
  refine ⟨rows, Fallible.bind_eq_ok.mpr ⟨_, c.opened, hrows⟩, hdense.length, fun i hi => ?_⟩
  obtain ⟨initial, hinitial, hshown⟩ := hdense.valueAt hi.1 (by rw [header_connectedSource]; exact c.mem_header)
  rw [initialValue, c.given] at hinitial
  have hsame : initial = value := Except.ok.inj (hinitial.symm.trans hvalue)
  rw [hshown, ← hsame]
  change some ((latest (c.kept.take (i + 1)) c.name).getD initial) = _
  rw [c.latest_unassigned hi]
  rfl

/-- What the option shows is compared with what the row shows, unless nothing is shown. -/
theorem sameValues_iff : ∃ assigned, Assigns c.text c.type assigned ∧
    (c.SameValues ↔ ∃ value, getTypedValue c.type c.text = .ok value ∧
      (c.AssignedAtOnce ∨ value = assigned.getD (defaultValues c.type))) := by
  obtain ⟨assigned, hassigns, hadditional⟩ := c.additional_values
  refine ⟨assigned, hassigns, ?_⟩
  rw [assignedAtOnce_iff]
  constructor
  · rintro ⟨rows, hrows, hsame⟩
    obtain ⟨source, hsource, hconverted⟩ := Fallible.bind_eq_ok.mp hrows
    rw [c.opened] at hsource
    cases hsource
    obtain ⟨value, hvalue⟩ := c.image_iff.mp (exists_image_of_getConnectedReader c.dense hconverted)
    obtain ⟨rows', hrows', hlength, hgiven⟩ := c.given_values hvalue
    rw [hrows] at hrows'
    cases hrows'
    refine ⟨value, hvalue, ?_⟩
    by_cases hshown : ∀ i, ¬ c.Unassigned i
    · exact .inl hshown
    · obtain ⟨i, hi⟩ := not_forall_not.mp hshown
      obtain ⟨shown, hfirst, hsecond⟩ := hsame i hi
      rw [hgiven i hi] at hfirst
      rw [hlength, hadditional i hi] at hsecond
      exact .inr (Option.some.inj (hfirst.trans hsecond.symm))
  · rintro ⟨value, hvalue, hagree⟩
    obtain ⟨rows, hrows, hlength, hgiven⟩ := c.given_values hvalue
    refine ⟨rows, hrows, fun i hi => ⟨value, hgiven i hi, ?_⟩⟩
    rw [hlength, hadditional i hi]
    exact congrArg some (hagree.resolve_left fun hnone => hnone i hi).symm

/-- A number is not given by an empty text. For a truth value, the text is empty or the number in it
is not zero, or no row shows the initial value. -/
def Convertible : Prop :=
  if c.type = .boolean then c.text = [] ∨ int c.text ≠ .ok 0 ∨ c.AssignedAtOnce else c.text ≠ []

theorem default_means_row_iff : c.SameValues ↔ c.Convertible := by
  obtain ⟨assigned, hassigns, hsame⟩ := c.sameValues_iff
  rw [hsame, Convertible]
  split
  · rename_i hboolean
    rw [hboolean] at hassigns ⊢
    have hagree := getTypedValue_boolean hassigns
    constructor
    · rintro ⟨value, hvalue, hshown | rfl⟩
      · exact .inr (.inr hshown)
      · rw [← or_assoc]
        exact .inl (hagree.mp hvalue)
    · intro h
      rw [← or_assoc] at h
      rcases h with h | h
      · exact ⟨_, hagree.mpr h, .inr rfl⟩
      · exact ⟨_, rfl, .inl h⟩
  · rename_i hboolean
    have hnumber : c.type = .real ∨ c.type = .integer := by
      cases htype : c.type with
      | real => exact .inl rfl
      | integer => exact .inr rfl
      | boolean => exact absurd htype hboolean
      | string => exact absurd htype c.notString
    constructor
    · rintro ⟨value, hvalue, -⟩ hempty
      rw [hempty] at hvalue
      exact getTypedValue_empty hnumber value hvalue
    · intro hne
      exact ⟨_, getTypedValue_number hnumber hne c.accepted hassigns, .inr rfl⟩

/-- A file with a single truth value, which is missing in its only row. -/
def singleTruthValue (text : StdString) (value : Bool)
    (hconverted : processRequest { empty := true } [[ascii "\"time\"", ascii "\"b\""],
      [ascii "\"fmiReal\"", ascii "\"fmiBoolean\""], [ascii "0", text], [ascii "1", []]] =
        .ok [⟨ascii "0", [(ascii "b", .boolean value)]⟩, ⟨ascii "1", [(ascii "b", .boolean value)]⟩])
    (haccepted : Accepted .boolean text) : Comparison where
  args := { default := [(ascii "b", text)], empty := true }
  dense := rfl
  variableRow := [ascii "\"time\"", ascii "\"b\""]
  typeRow := [ascii "\"fmiReal\"", ascii "\"fmiBoolean\""]
  data := [[ascii "1", []]]
  reader := ⟨[(ascii "b", .boolean)], [ascii "b"]⟩
  header := by rfl
  source := ⟨[(ascii "b", .boolean)], by decide, [⟨ascii "1", []⟩]⟩
  opened := by rfl
  column := 0
  name := ascii "b"
  named := rfl
  type := .boolean
  typed := rfl
  notString := by decide
  text := text
  accepted := haccepted
  given := rfl
  row := [ascii "0", text]
  field := rfl
  rows := _
  converted := hconverted

theorem default_means_row_iff_two :
    (singleTruthValue (ascii "2") true rfl (.inr ⟨fun h => (by cases h), _, rfl⟩)).SameValues := by
  apply (default_means_row_iff _).mpr
  exact .inr (.inl (by decide))

/-- The text `0` is false in a row and true in an option. -/
theorem default_zero_is_true :
    ¬ (singleTruthValue (ascii "0") false rfl (.inr ⟨fun h => (by cases h), _, rfl⟩)).SameValues := by
  rintro ⟨rows, hrows, hsame⟩
  cases hrows
  obtain ⟨value, hgiven, hrow⟩ := hsame 0 ⟨by decide, by decide⟩
  cases hgiven
  cases hrow

end Comparison

end FMITerminalBlock.Scripts
