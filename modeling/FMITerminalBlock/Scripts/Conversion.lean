import FMITerminalBlock.Library.QuotedRecords
import FMITerminalBlock.Scripts.DefaultOptions

/-! The conversion of a data file as a stream. Every row is read, filtered and written before the next
one is looked at, so that an exception leaves the rows before it in the destination. -/
namespace FMITerminalBlock.Scripts
open Base QuotedRecords

/-! ### Rows with their numbers checked -/

/-- The content of a field in the type of its column, where a real number is handed to `float`. -/
def Reader.typedField (field : StdString) (type : SimulationDataType) : Except ReaderError FieldValue :=
  match type with
  | .real => (float field).map fun _ => .real field
  | type => Reader.fieldValue field type

def Reader.readField (field variableName : StdString) (variableType : SimulationDataType) (event : Event) :
    Except ReaderError Event :=
  if field = [] then .ok event
  else (typedField field variableType).map fun value =>
    { event with eventDict := setItem event.eventDict variableName value }

/-- The event of a row. The time is converted before any other field. -/
def Reader.readRow (r : Reader) (row : List StdString) : Except ReaderError Event :=
  if r.nameList.length ≠ r.header.length then .error .assertionError
  else match row with
    | [] => .error (.valueError "Invalid number of fields in \x7b\x7d")
    | time :: fields =>
      if fields.length ≠ r.header.length then .error (.valueError "Invalid number of fields in \x7b\x7d")
      else do
        let _ ← float time
        (r.nameList.zip fields).foldlM (fun event item =>
          match r.header.lookup item.1 with
          | some type => readField item.2 item.1 type event
          | none => .error .keyError) { eventTime := time }

/-! ### The writer -/

def unixDialect : Dialect UInt8 where
  quotechar := 34
  delimiter := 44
  terminator := 10
  delimiter_ne := by decide
  terminator_ne := by decide
  terminator_ne_delimiter := by decide

def fieldNames (header : List (StdString × SimulationDataType)) : List StdString := ascii "time" :: header.map Prod.fst

section
-- The text of the number that `float` makes of a text.
variable (strFloat : StdString → StdString)

/-- The call `str(value)`. -/
def str : FieldValue → StdString
  | .real text => strFloat text
  | .integer value => DecimalText.signed value
  | .boolean value => if value then ascii "True" else ascii "False"
  | .string value => value

/-- `csv.DictWriter` refuses unknown keys and leaves a field without a key empty. -/
def dictToList (fieldnames : List StdString) (rowdict : List (StdString × FieldValue)) :
    Except ReaderError (List StdString) :=
  if rowdict.any fun item => item.1 ∉ fieldnames then
    .error (.valueError "dict contains fields not in fieldnames: ")
  else .ok (fieldnames.map fun name => ((rowdict.lookup name).map (str strFloat)).getD [])

/-- The time takes the place of a variable that is called like it. -/
def eventRow (event : Event) : List (StdString × FieldValue) :=
  setItem event.eventDict (ascii "time") (.real event.eventTime)

/-- A text on its way to a file. Bytes of the command line that are not UTF-8 are kept until then. -/
def encode (text : StdString) : Except ReaderError StdString :=
  if Utf8.WellFormed text then .ok text
  else .error (.valueError "'utf-8' codec can't encode character: surrogates not allowed")

def writeEvent (fieldnames : List StdString) (event : Event) : Except ReaderError StdString := do
  let fields ← dictToList strFloat fieldnames (eventRow event)
  encode (writeRecord unixDialect fields)

/-! ### The stream -/

/-- The last reader of the pipe. There is no interpolation in a sparse conversion. -/
def connectEvent (args : Arguments) (r : Reader) (image : VariableImage) (event : Event) :
    Except ReaderError (VariableImage × Event) :=
  if args.sparse then .ok (image, event) else syncEvent (r.header.map Prod.fst) image event

/-- One row on its way through the pipe: what it leaves in the image of the interpolation and in the
destination. -/
def convertRow (args : Arguments) (r : Reader) (image : VariableImage) (row : List StdString) :
    Except ReaderError (VariableImage × StdString) := do
  let event ← r.readRow (Reader.mergeColumns row)
  if args.empty = false ∧ event.eventDict.length = 0 then return (image, [])
  let (image, event) ← connectEvent args r image event
  let line ← writeEvent strFloat (fieldNames r.header) event
  return (image, line)

/-- The lines that are written until an exception, which may stand behind the last row. -/
def convertRows (args : Arguments) (r : Reader) (failure : Option ReaderError) :
    VariableImage → List (List StdString) → StdString × Option ReaderError
  | _, [] => ([], failure)
  | image, row :: rows =>
    match convertRow strFloat args r image row with
    | .error e => ([], some e)
    | .ok (image, line) =>
      let (output, raised) := convertRows args r failure image rows
      (line ++ output, raised)

/-- The image exists with interpolation only. -/
def initialImage (args : Arguments) (header : List (StdString × SimulationDataType)) :
    Except ReaderError VariableImage :=
  if args.sparse then .ok [] else getInitialVariableImage getTypedValue (getDefaultVariableDict args) header

/-- Everything that comes before the first row: the reader, the rows behind its header, the initial
values and the line of the column names. -/
def startConversion (args : Arguments) (csvSource : Iteration (List StdString)) :
    Except ReaderError (Reader × List (List StdString) × VariableImage × StdString) := do
  let (r, rows) ← Reader.openHeader csvSource
  let image ← initialImage args r.header
  let names ← encode (writeRecord unixDialect (fieldNames r.header))
  return (r, rows, image, names)

/-- The content of the destination and the exception that has ended the conversion. -/
def convert (args : Arguments) (csvSource : Iteration (List StdString)) : StdString × Option ReaderError :=
  match startConversion args csvSource with
  | .error e => ([], some e)
  | .ok (r, rows, image, names) =>
    let (output, raised) := convertRows strFloat args r csvSource.failure image rows
    (names ++ output, raised)

end

/-- The exit status. Only a `ValueError` is handled, any other exception ends the interpreter. -/
def exitStatus : Option ReaderError → Nat
  | none => 0
  | some (.valueError _) => 2
  | some _ => 1

/-! ### Rows that are read -/

/-- All numbers of a row are accepted by `float`. -/
def NumbersAccepted (r : Reader) (row : List StdString) : Prop :=
  (∀ time ∈ row.head?, ∃ value, float time = .ok value) ∧
    ∀ item ∈ r.nameList.zip row.tail, r.header.lookup item.1 = some .real → item.2 ≠ [] →
      ∃ value, float item.2 = .ok value

theorem readField_eq_ok {field name : StdString} {type : SimulationDataType} {event event' : Event} :
    Reader.readField field name type event = .ok event' ↔ Reader.parseField field name type event = .ok event' ∧
      (type = .real → field ≠ [] → ∃ value, float field = .ok value) := by
  rw [Reader.readField, Reader.parseField]
  by_cases hempty : field = []
  · simp [hempty]
  · rw [if_neg hempty, if_neg hempty]
    cases type with
    | real =>
      rw [Reader.typedField, Reader.fieldValue]
      cases float field with
      | ok value => simp [Except.map]
      | error e => simp [Except.map, hempty]
    | integer | boolean | string => simp [Reader.typedField]

private theorem foldlM_readField {header : List (StdString × SimulationDataType)} {items : List (StdString × StdString)}
    {event event' : Event} :
    items.foldlM (fun event item =>
        match header.lookup item.1 with
        | some type => Reader.readField item.2 item.1 type event
        | none => .error .keyError) event = .ok event' ↔
      items.foldlM (fun event item =>
        match header.lookup item.1 with
        | some type => Reader.parseField item.2 item.1 type event
        | none => .error .keyError) event = .ok event' ∧
      ∀ item ∈ items, header.lookup item.1 = some .real → item.2 ≠ [] → ∃ value, float item.2 = .ok value := by
  induction items generalizing event with
  | nil => simp
  | cons item items ih =>
    rw [List.foldlM_cons, List.foldlM_cons, Fallible.bind_eq_ok, Fallible.bind_eq_ok, List.forall_mem_cons]
    cases htype : header.lookup item.1 with
    | none => simp
    | some type =>
      constructor
      · rintro ⟨next, hnext, hrest⟩
        obtain ⟨hparsed, hnumber⟩ := readField_eq_ok.mp hnext
        obtain ⟨hrest, hnumbers⟩ := ih.mp hrest
        exact ⟨⟨next, hparsed, hrest⟩, fun heq => hnumber (Option.some.inj heq), hnumbers⟩
      · rintro ⟨⟨next, hparsed, hrest⟩, hnumber, hnumbers⟩
        refine ⟨next, readField_eq_ok.mpr ⟨hparsed, fun heq => hnumber (congrArg some heq)⟩, ?_⟩
        exact ih.mpr ⟨hrest, hnumbers⟩

theorem readRow_eq_ok {r : Reader} {row : List StdString} {event : Event} :
    r.readRow row = .ok event ↔ r.parseRow row = .ok event ∧ NumbersAccepted r row := by
  unfold Reader.readRow Reader.parseRow
  split
  · simp
  · cases row with
    | nil => simp
    | cons time fields =>
      dsimp only
      split
      · simp
      · rw [Fallible.bind_eq_ok, NumbersAccepted]
        constructor
        · rintro ⟨value, hvalue, hrest⟩
          obtain ⟨hparsed, hnumbers⟩ := foldlM_readField.mp hrest
          exact ⟨hparsed, by simpa using ⟨value, hvalue⟩, hnumbers⟩
        · rintro ⟨hparsed, htime, hnumbers⟩
          obtain ⟨value, hvalue⟩ := htime time rfl
          exact ⟨value, hvalue, foldlM_readField.mpr ⟨hparsed, hnumbers⟩⟩

theorem mem_keys_setItem {β : Type} {dict : List (StdString × β)} {key name : StdString} {value : β}
    (h : name ∈ (setItem dict key value).map Prod.fst) : name = key ∨ name ∈ dict.map Prod.fst := by
  rw [keys_setItem] at h
  split at h
  · exact .inr h
  · rw [List.mem_append, List.mem_singleton] at h
    exact h.symm

private theorem keys_foldlM {header : List (StdString × SimulationDataType)} {items : List (StdString × StdString)}
    {event event' : Event} (hevent : ∀ name ∈ event.eventDict.map Prod.fst, name ∈ header.map Prod.fst)
    (h : items.foldlM (fun event item =>
      match header.lookup item.1 with
      | some type => Reader.parseField item.2 item.1 type event
      | none => .error .keyError) event = .ok event') :
    ∀ name ∈ event'.eventDict.map Prod.fst, name ∈ header.map Prod.fst := by
  induction items generalizing event with
  | nil =>
    cases h
    exact hevent
  | cons item items ih =>
    rw [List.foldlM_cons] at h
    obtain ⟨next, hnext, hrest⟩ := Fallible.bind_eq_ok.mp h
    refine ih ?_ hrest
    cases htype : header.lookup item.1 with
    | none =>
      rw [htype] at hnext
      cases hnext
    | some type =>
      rw [htype] at hnext
      dsimp only at hnext
      rw [Reader.parseField] at hnext
      split at hnext
      · cases hnext
        exact hevent
      · obtain ⟨value, -, rfl⟩ := Fallible.map_eq_ok.mp hnext
        intro name hname
        rcases mem_keys_setItem hname with rfl | hname
        · by_contra hmissing
          rw [lookup_eq_none.mpr hmissing] at htype
          cases htype
        · exact hevent name hname

/-- An event has variables of the header only. -/
theorem keys_parseRow {r : Reader} {row : List StdString} {event : Event} (h : r.parseRow row = .ok event) :
    ∀ name ∈ event.eventDict.map Prod.fst, name ∈ r.header.map Prod.fst := by
  unfold Reader.parseRow at h
  split at h
  · cases h
  split at h
  · cases h
  split at h
  · cases h
  exact keys_foldlM (by simp) h

/-- Interpolation adds variables of the header only. -/
theorem keys_synchronized {names : List StdString} {image image' : VariableImage} {event event' : Event}
    (h : Synchronized names image event image' event') (hevent : ∀ name ∈ event.eventDict.map Prod.fst, name ∈ names) :
    ∀ name ∈ event'.eventDict.map Prod.fst, name ∈ names := by
  intro name hname
  by_contra hother
  have hnone : event'.eventDict.lookup name = none := by
    rw [h.inEvent, if_neg hother, lookup_eq_none]
    exact fun hmem => hother (hevent name hmem)
  exact lookup_eq_none.mp hnone hname

/-! ### Rows that are written -/

section
variable (strFloat : StdString → StdString)

/-- The text of a variable in the row of an event. -/
def fieldText (event : Event) (name : StdString) : StdString :=
  if name = ascii "time" then strFloat event.eventTime
  else ((event.eventDict.lookup name).map (str strFloat)).getD []

def rowTexts (header : List (StdString × SimulationDataType)) (event : Event) : List StdString :=
  (fieldNames header).map (fieldText strFloat event)

/-- Events with variables of the header only are written unless they cannot be encoded. -/
theorem writeEvent_eq {header : List (StdString × SimulationDataType)} {event : Event}
    (h : ∀ name ∈ event.eventDict.map Prod.fst, name ∈ header.map Prod.fst) :
    writeEvent strFloat (fieldNames header) event = encode (writeRecord unixDialect (rowTexts strFloat header event)) := by
  have hknown : ¬ (eventRow event).any fun item => item.1 ∉ fieldNames header := by
    simp only [List.any_eq_true, decide_eq_true_eq, not_exists, not_and, not_not]
    intro item hitem
    rcases mem_keys_setItem (List.mem_map_of_mem hitem) with hitem | hitem
    · rw [hitem]
      exact List.mem_cons_self
    · exact List.mem_cons_of_mem _ (h _ hitem)
  have hfields : (fieldNames header).map (fun name => (((eventRow event).lookup name).map (str strFloat)).getD []) =
      rowTexts strFloat header event := by
    rw [rowTexts]
    congr 1
    funext name
    rw [eventRow, lookup_setItem, fieldText]
    split <;> rfl
  rw [writeEvent, dictToList, if_neg hknown, hfields]
  rfl

theorem rowTexts_ne_nil (header : List (StdString × SimulationDataType)) (event : Event) :
    rowTexts strFloat header event ≠ [] := by
  rw [rowTexts, fieldNames, List.map_cons]
  exact List.cons_ne_nil _ _

/-- The destination can be read, whatever has been written. -/
theorem readRecords_rows (header : List (StdString × SimulationDataType)) (events : List Event) :
    readRecords unixDialect (writeRecord unixDialect (fieldNames header) ++
      writeRecords unixDialect (events.map (rowTexts strFloat header))) =
        fieldNames header :: events.map (rowTexts strFloat header) := by
  have hfields : ∀ fields ∈ fieldNames header :: events.map (rowTexts strFloat header), fields ≠ [] := by
    rw [List.forall_mem_cons, List.forall_mem_map]
    exact ⟨List.cons_ne_nil _ _, fun event _ => rowTexts_ne_nil strFloat header event⟩
  exact readRecords_writeRecords hfields

end

/-! ### The first malformed row -/

def keptEvents (args : Arguments) (events : List Event) : List Event :=
  if args.empty then events else filterEvents events

/-- The events of the last reader in the pipe. -/
def connectedEvents (args : Arguments) (names : List StdString) (image : VariableImage) (events : List Event) :
    Except ReaderError (List Event) :=
  if args.sparse then .ok (keptEvents args events)
  else (interpolateVariables names image (keptEvents args events)).map Prod.fst

/-- Why a conversion has ended in front of these rows: the iteration has come to its end, with or
without an exception, or the first one of them raises an exception. -/
def StopsAt (failure : Option ReaderError) (raises : List StdString → ReaderError → Prop) (rest : List (List StdString))
    (raised : Option ReaderError) : Prop :=
  (rest = [] ∧ raised = failure) ∨ ∃ bad more e, rest = bad :: more ∧ raised = some e ∧ raises bad e

/-- A row is malformed, or the event that is written for it cannot be encoded. -/
def RowRaises (strFloat : StdString → StdString) (args : Arguments) (r : Reader) (image : VariableImage)
    (events written : List Event) (bad : List StdString) (e : ReaderError) : Prop :=
  r.readRow (Reader.mergeColumns bad) = .error e ∨
    ∃ event delivered, r.readRow (Reader.mergeColumns bad) = .ok event ∧
      connectedEvents args (r.header.map Prod.fst) image (events ++ [event]) = .ok (written ++ [delivered]) ∧
      encode (writeRecord unixDialect (rowTexts strFloat r.header delivered)) = .error e

/-- The rows up to the first one that raises an exception, and what is written for them. -/
structure StreamedUpTo (strFloat : StdString → StdString) (args : Arguments) (r : Reader)
    (failure : Option ReaderError) (image : VariableImage) (good rest : List (List StdString))
    (events written : List Event) (result : StdString × Option ReaderError) : Prop where
  read : (good.mapM fun row => r.readRow (Reader.mergeColumns row)) = .ok events
  connected : connectedEvents args (r.header.map Prod.fst) image events = .ok written
  output : result.1 = writeRecords unixDialect (written.map (rowTexts strFloat r.header))
  stops : StopsAt failure (RowRaises strFloat args r image events written) rest result.2

theorem keptEvents_cons (args : Arguments) (event : Event) (events : List Event) :
    keptEvents args (event :: events) =
      if args.empty = false ∧ event.eventDict.length = 0 then keptEvents args events
      else event :: keptEvents args events := by
  cases hempty : args.empty with
  | true => simp [keptEvents, hempty]
  | false =>
    rw [keptEvents, keptEvents, hempty, filterEvents, List.filter_cons]
    by_cases hlength : event.eventDict.length = 0
    · simp [hlength, filterEvents]
    · simp [hlength, filterEvents, Nat.pos_of_ne_zero hlength]

/-- What a row does that is not malformed: it delivers an event to the writer unless it is filtered. -/
structure Delivers (strFloat : StdString → StdString) (args : Arguments) (r : Reader) (image : VariableImage)
    (row : List StdString) (event : Event) (image' : VariableImage) (delivered : Option Event) : Prop where
  converted : convertRow strFloat args r image row = match delivered with
    | none => .ok (image', [])
    | some event => (encode (writeRecord unixDialect (rowTexts strFloat r.header event))).map (image', ·)
  covers : args.sparse = false → Covers (r.header.map Prod.fst) image'
  connected : ∀ events rest, connectedEvents args (r.header.map Prod.fst) image' events = .ok rest →
    connectedEvents args (r.header.map Prod.fst) image (event :: events) = .ok (delivered.toList ++ rest)

theorem exists_delivers (strFloat : StdString → StdString) {args : Arguments} {r : Reader} {image : VariableImage}
    (hcovers : args.sparse = false → Covers (r.header.map Prod.fst) image) {row : List StdString} {event : Event}
    (hread : r.readRow (Reader.mergeColumns row) = .ok event) :
    ∃ image' delivered, Delivers strFloat args r image row event image' delivered := by
  have hkeys := keys_parseRow (readRow_eq_ok.mp hread).1
  by_cases hskip : args.empty = false ∧ event.eventDict.length = 0
  · refine ⟨image, none, ?_, hcovers, ?_⟩
    · rw [convertRow, hread]
      exact if_pos hskip
    · intro events rest hrest
      rw [connectedEvents, keptEvents_cons, if_pos hskip]
      exact hrest
  -- The event goes on to the writer, which encodes its line.
  have hwrites {event' : Event} {image' : VariableImage} (hconnect : connectEvent args r image event = .ok (image', event'))
      (hnames : ∀ name ∈ event'.eventDict.map Prod.fst, name ∈ r.header.map Prod.fst) :
      convertRow strFloat args r image row =
        (encode (writeRecord unixDialect (rowTexts strFloat r.header event'))).map (image', ·) := by
    rw [convertRow, hread]
    refine (if_neg hskip).trans ?_
    rw [hconnect]
    change (writeEvent strFloat (fieldNames r.header) event' >>= fun line => .ok (image', line)) = _
    rw [writeEvent_eq strFloat hnames]
    cases encode (writeRecord unixDialect (rowTexts strFloat r.header event')) <;> rfl
  cases hsparse : args.sparse with
  | true =>
    have hconnect : connectEvent args r image event = .ok (image, event) := if_pos hsparse
    refine ⟨image, some event, hwrites hconnect hkeys, fun h => absurd (hsparse.symm.trans h) (by decide), ?_⟩
    intro events rest hrest
    rw [connectedEvents, hsparse, if_pos rfl] at hrest ⊢
    cases hrest
    rw [keptEvents_cons, if_neg hskip]
    rfl
  | false =>
    obtain ⟨image', event', hsync, hsynchronized⟩ := syncEvent_spec (hcovers hsparse) event
    have hconnect : connectEvent args r image event = .ok (image', event') := by
      rw [connectEvent, hsparse, if_neg (by decide), hsync]
    refine ⟨image', some event', hwrites hconnect (keys_synchronized hsynchronized hkeys),
      fun _ => hsynchronized.covers (hcovers hsparse), ?_⟩
    intro events rest hrest
    rw [connectedEvents, hsparse, if_neg (by decide)] at hrest ⊢
    obtain ⟨⟨others, last⟩, hothers, rfl⟩ := Fallible.map_eq_ok.mp hrest
    rw [keptEvents_cons, if_neg hskip, interpolateVariables]
    exact Fallible.map_eq_ok.mpr ⟨(event' :: others, last),
      Fallible.bind_eq_ok.mpr ⟨_, hsync, Fallible.bind_eq_ok.mpr ⟨_, hothers, rfl⟩⟩, rfl⟩

theorem connectedEvents_nil (args : Arguments) (names : List StdString) (image : VariableImage) :
    connectedEvents args names image [] = .ok [] := by
  have hkept : keptEvents args [] = [] := by
    rw [keptEvents]
    split <;> rfl
  rw [connectedEvents, hkept]
  split <;> rfl

theorem encode_eq_ok {text line : StdString} : encode text = .ok line ↔ Utf8.WellFormed text ∧ line = text := by
  rw [encode]
  split
  · rename_i hdecoded
    rw [and_iff_right hdecoded, Except.ok.injEq, eq_comm]
  · rename_i hdecoded
    exact iff_of_false nofun fun h => hdecoded h.1

/-- One row that goes through in front of what is known of the others. -/
theorem StreamedUpTo.cons {strFloat : StdString → StdString} {args : Arguments} {r : Reader}
    {failure : Option ReaderError} {image image' : VariableImage} {row : List StdString} {event : Event}
    {delivered : Option Event} (hread : r.readRow (Reader.mergeColumns row) = .ok event)
    (hdelivers : Delivers strFloat args r image row event image' delivered) {good rest : List (List StdString)}
    {events written : List Event} {result : StdString × Option ReaderError}
    (h : StreamedUpTo strFloat args r failure image' good rest events written result) :
    StreamedUpTo strFloat args r failure image (row :: good) rest (event :: events) (delivered.toList ++ written)
      (writeRecords unixDialect (delivered.toList.map (rowTexts strFloat r.header)) ++ result.1, result.2) := by
  refine ⟨?_, hdelivers.connected events written h.connected, ?_, ?_⟩
  · rw [List.mapM_cons, hread, Fallible.bind_eq_ok]
    exact ⟨event, rfl, Fallible.bind_eq_ok.mpr ⟨events, h.read, rfl⟩⟩
  · rw [h.output, List.map_append, writeRecords, writeRecords, writeRecords, List.flatMap_append]
  · rcases h.stops with hend | ⟨bad, more, e, hrest, hraised, hmalformed | ⟨other, last, hother, hconnected, he⟩⟩
    · exact .inl hend
    · exact .inr ⟨bad, more, e, hrest, hraised, .inl hmalformed⟩
    · refine .inr ⟨bad, more, e, hrest, hraised, .inr ⟨other, last, hother, ?_, he⟩⟩
      have hall := hdelivers.connected _ _ hconnected
      rwa [← List.append_assoc] at hall

theorem convertRows_spec (strFloat : StdString → StdString) (args : Arguments) (r : Reader)
    (failure : Option ReaderError) (image : VariableImage)
    (hcovers : args.sparse = false → Covers (r.header.map Prod.fst) image) (rows : List (List StdString)) :
    ∃ good rest events written, rows = good ++ rest ∧ StreamedUpTo strFloat args r failure image good rest events written
      (convertRows strFloat args r failure image rows) := by
  induction rows generalizing image with
  | nil => exact ⟨[], [], [], [], rfl, rfl, connectedEvents_nil _ _ _, rfl, .inl ⟨rfl, rfl⟩⟩
  | cons row rows ih =>
    -- Nothing is written if the first row raises an exception.
    have hfirst {e : ReaderError} (hfails : convertRow strFloat args r image row = .error e)
        (hraises : RowRaises strFloat args r image [] [] row e) : ∃ good rest events written,
          row :: rows = good ++ rest ∧ StreamedUpTo strFloat args r failure image good rest events written
            (convertRows strFloat args r failure image (row :: rows)) := by
      rw [convertRows, hfails]
      exact ⟨[], row :: rows, [], [], rfl, rfl, connectedEvents_nil _ _ _, rfl, .inr ⟨row, rows, e, rfl, rfl, hraises⟩⟩
    cases hread : r.readRow (Reader.mergeColumns row) with
    | error e =>
      refine hfirst ?_ (.inl hread)
      rw [convertRow, hread]
      rfl
    | ok event =>
      obtain ⟨image', delivered, hdelivers⟩ := exists_delivers strFloat hcovers hread
      have hconverted := hdelivers.converted
      cases delivered with
      | none =>
        dsimp only at hconverted
        obtain ⟨good, rest, events, written, rfl, hstream⟩ := ih image' hdelivers.covers
        rw [convertRows, hconverted]
        exact ⟨row :: good, rest, event :: events, written, rfl, hstream.cons hread hdelivers⟩
      | some event' =>
        dsimp only at hconverted
        cases hline : encode (writeRecord unixDialect (rowTexts strFloat r.header event')) with
        | error e =>
          rw [hline] at hconverted
          refine hfirst hconverted (.inr ⟨event, event', hread, ?_, hline⟩)
          exact hdelivers.connected [] [] (connectedEvents_nil _ _ _)
        | ok line =>
          obtain ⟨good, rest, events, written, rfl, hstream⟩ := ih image' hdelivers.covers
          rw [hline] at hconverted
          rw [convertRows, hconverted]
          obtain ⟨-, rfl⟩ := encode_eq_ok.mp hline
          refine ⟨row :: good, rest, event :: events, event' :: written, rfl, ?_⟩
          have hcons := hstream.cons hread hdelivers
          rwa [Option.toList_some, List.map_singleton, writeRecords, List.flatMap_singleton] at hcons

/-! ### The whole conversion -/

theorem covers_initialImage {args : Arguments} {header : List (StdString × SimulationDataType)}
    (hnodup : (header.map Prod.fst).Nodup) {image : VariableImage} (himage : initialImage args header = .ok image)
    (hsparse : args.sparse = false) : Covers (header.map Prod.fst) image := by
  rw [initialImage, hsparse, if_neg (by decide), getInitialVariableImage_eq_ok hnodup] at himage
  intro name hname
  obtain ⟨item, hitem, rfl⟩ := List.mem_map.mp hname
  obtain ⟨value, -, hvalue⟩ := lookup_initialImage hnodup himage.2 hitem
  rw [hvalue]
  exact Option.some_ne_none value

/-- The stream has the events of the last reader. -/
theorem getConnectedReader_eq {args : Arguments} {reader : AbstractReader} {image : VariableImage}
    (himage : initialImage args reader.header = .ok image) {written : List Event}
    (h : connectedEvents args (reader.header.map Prod.fst) image reader.events = .ok written) :
    getConnectedReader args reader = .ok written := by
  have hsource : connectedSource args reader = { reader with events := keptEvents args reader.events } := by
    rw [connectedSource, keptEvents]
    split <;> rfl
  rw [getConnectedReader, hsource]
  rw [connectedEvents] at h
  rw [initialImage] at himage
  by_cases hsparse : args.sparse = true
  · rw [if_pos hsparse] at h ⊢
    exact h
  · rw [if_neg hsparse] at h himage ⊢
    obtain ⟨⟨events, last⟩, hrun, rfl⟩ := Fallible.map_eq_ok.mp h
    exact Fallible.bind_eq_ok.mpr ⟨_, Fallible.bind_eq_ok.mpr ⟨image, himage, rfl⟩,
      Fallible.bind_eq_ok.mpr ⟨_, Fallible.bind_eq_ok.mpr ⟨_, hrun, rfl⟩, rfl⟩⟩

theorem exists_rows_of_addHeader {rows data : List (List StdString)} {r : Reader}
    (h : Reader.addHeader rows = .ok (r, data)) : ∃ variableRow typeRow, rows = variableRow :: typeRow :: data := by
  obtain ⟨⟨vars, types, rest⟩, hraw, h⟩ := Fallible.bind_eq_ok.mp h
  obtain ⟨names, -, h⟩ := Fallible.bind_eq_ok.mp h
  obtain ⟨simTypes, -, h⟩ := Fallible.bind_eq_ok.mp h
  cases h
  match rows with
  | [] => cases hraw
  | [_] => cases hraw
  | variableRow :: typeRow :: data =>
    cases hraw
    exact ⟨variableRow, typeRow, rfl⟩

theorem addHeader_of_openHeader {csvSource : Iteration (List StdString)} {opened : Reader × List (List StdString)}
    (h : Reader.openHeader csvSource = .ok opened) : Reader.addHeader csvSource.items = .ok opened := by
  unfold Reader.openHeader at h
  split at h
  · cases h
  · cases h
  · exact h

/-- What is known as soon as the conversion has started. -/
theorem startConversion_eq_ok {args : Arguments} {csvSource : Iteration (List StdString)} {r : Reader}
    {rows : List (List StdString)} {image : VariableImage} {names : StdString} :
    startConversion args csvSource = .ok (r, rows, image, names) ↔ Reader.openHeader csvSource = .ok (r, rows) ∧
      initialImage args r.header = .ok image ∧ encode (writeRecord unixDialect (fieldNames r.header)) = .ok names := by
  constructor
  · intro h
    obtain ⟨⟨r', rows'⟩, hopened, h⟩ := Fallible.bind_eq_ok.mp h
    obtain ⟨image', himage, h⟩ := Fallible.bind_eq_ok.mp h
    obtain ⟨names', hnames, h⟩ := Fallible.bind_eq_ok.mp h
    cases h
    exact ⟨hopened, himage, hnames⟩
  · rintro ⟨hopened, himage, hnames⟩
    exact Fallible.bind_eq_ok.mpr ⟨_, hopened, Fallible.bind_eq_ok.mpr ⟨_, himage, Fallible.bind_eq_ok.mpr
      ⟨_, hnames, rfl⟩⟩⟩

/-- The next row is malformed, or the conversion of all rows including it has one more event, which
cannot be encoded. -/
def EndsConversion (strFloat : StdString → StdString) (args : Arguments) (r : Reader) (rows : List (List StdString))
    (events : List Event) (bad : List StdString) (e : ReaderError) : Prop :=
  r.readRow (Reader.mergeColumns bad) = .error e ∨
    ∃ reader delivered, NumbersAccepted r (Reader.mergeColumns bad) ∧ openReader (rows ++ [bad]) = .ok reader ∧
      getConnectedReader args reader = .ok (events ++ [delivered]) ∧
      encode (writeRecord unixDialect (rowTexts strFloat r.header delivered)) = .error e

/-- Rows that can be read are those of a reader, which are converted as they are on their way through the
stream. -/
theorem exists_openReader {args : Arguments} {variableRow typeRow : List StdString} {good : List (List StdString)}
    {r : Reader} (hgood : Reader.addHeader (variableRow :: typeRow :: good) = .ok (r, good)) {image : VariableImage}
    (himage : initialImage args r.header = .ok image) {events written : List Event}
    (hread : (good.mapM fun row => r.readRow (Reader.mergeColumns row)) = .ok events)
    (hconnected : connectedEvents args (r.header.map Prod.fst) image events = .ok written) :
    ∃ reader, openReader (variableRow :: typeRow :: good) = .ok reader ∧ reader.header = r.header ∧
      getConnectedReader args reader = .ok written := by
  have hrows : List.Forall₂ (fun row event => r.readRow (Reader.mergeColumns row) = .ok event) good events :=
    Fallible.mapM_eq_ok.mp hread
  have hparsed : (good.mapM fun row => r.parseRow (Reader.mergeColumns row)) = .ok events :=
    Fallible.mapM_eq_ok.mpr (hrows.imp fun _ _ hrow => (readRow_eq_ok.mp hrow).1)
  refine ⟨⟨r.header, nodup_keys_addHeader hgood, events⟩, (openReader_eq_ok hgood).mpr ⟨rfl, hparsed⟩, rfl, ?_⟩
  exact getConnectedReader_eq himage hconnected

/-- A conversion that has started writes the column names and exactly the rows that stand in front of the
first one that raises an exception, as if the file ended there. The destination can be read in any
case. -/
theorem conversion_ends_at_first_malformed_row (strFloat : StdString → StdString) (args : Arguments)
    (csvSource : Iteration (List StdString)) :
    (∃ e, startConversion args csvSource = .error e ∧ convert strFloat args csvSource = ([], some e)) ∨
      ∃ variableRow typeRow good rest r reader events,
        csvSource.items = variableRow :: typeRow :: (good ++ rest) ∧
        Reader.addHeader csvSource.items = .ok (r, good ++ rest) ∧
        openReader (variableRow :: typeRow :: good) = .ok reader ∧
        (∀ row ∈ good, NumbersAccepted r (Reader.mergeColumns row)) ∧
        getConnectedReader args reader = .ok events ∧
        readRecords unixDialect (convert strFloat args csvSource).1 =
          fieldNames reader.header :: events.map (rowTexts strFloat reader.header) ∧
        StopsAt csvSource.failure (EndsConversion strFloat args r (variableRow :: typeRow :: good) events) rest
          (convert strFloat args csvSource).2 := by
  unfold convert
  cases hstart : startConversion args csvSource with
  | error e => exact .inl ⟨e, rfl, rfl⟩
  | ok started =>
    obtain ⟨r, rows, image, names⟩ := started
    obtain ⟨hopened, himage, hnames⟩ := startConversion_eq_ok.mp hstart
    obtain ⟨-, rfl⟩ := encode_eq_ok.mp hnames
    have hheader := addHeader_of_openHeader hopened
    obtain ⟨good, rest, events, written, rfl, hstream⟩ := convertRows_spec strFloat args r csvSource.failure image
      (covers_initialImage (nodup_keys_addHeader hheader) himage) rows
    obtain ⟨variableRow, typeRow, hrows⟩ := exists_rows_of_addHeader hheader
    have hdata (data : List (List StdString)) : Reader.addHeader (variableRow :: typeRow :: data) = .ok (r, data) :=
      addHeader_data (hrows ▸ hheader) data
    obtain ⟨reader, hreader, hkeys, hconnected⟩ := exists_openReader (hdata good) himage hstream.read hstream.connected
    refine .inr ⟨variableRow, typeRow, good, rest, r, reader, written, hrows, hheader, hreader, ?_, hconnected, ?_, ?_⟩
    · intro row hrow
      obtain ⟨event, -, hevent⟩ := Fallible.exists_of_mapM_eq_ok hstream.read hrow
      exact (readRow_eq_ok.mp hevent).2
    · dsimp only
      rw [hstream.output, hkeys]
      exact readRecords_rows strFloat r.header written
    · rcases hstream.stops with hend | ⟨bad, more, e, hrest, hraised, hmalformed | ⟨event, delivered, hevent, hlast, he⟩⟩
      · exact .inl hend
      · exact .inr ⟨bad, more, e, hrest, hraised, .inl hmalformed⟩
      · have hall : ((good ++ [bad]).mapM fun row => r.readRow (Reader.mergeColumns row)) = .ok (events ++ [event]) := by
          have hrows := Fallible.mapM_eq_ok.mp hstream.read
          exact Fallible.mapM_eq_ok.mpr (List.rel_append hrows (.cons hevent .nil))
        obtain ⟨reader', hreader', -, hconnected'⟩ := exists_openReader (hdata (good ++ [bad])) himage hall hlast
        exact .inr ⟨bad, more, e, hrest, hraised, .inr ⟨reader', delivered, (readRow_eq_ok.mp hevent).2, hreader',
          hconnected', he⟩⟩

/-! ### Exceptions that nobody handles -/

def IsValueError (e : ReaderError) : Prop := ∃ what, e = .valueError what

/-- Nothing but a `ValueError` is raised. -/
def RaisesValueError {α : Type} (x : Except ReaderError α) : Prop := Fallible.Outcome x (fun _ => True) IsValueError

theorem raises_int (text : StdString) : RaisesValueError (int text) := by
  rw [int]
  split
  · split
    · exact ⟨_, rfl⟩
    · trivial
  · exact ⟨_, rfl⟩

theorem raises_float (text : StdString) : RaisesValueError (float text) := by
  rw [float]
  split
  · trivial
  · exact ⟨_, rfl⟩

theorem raises_unpackString (text : StdString) : RaisesValueError (Reader.unpackString text) := by
  rw [Reader.unpackString]
  split
  · trivial
  · exact ⟨_, rfl⟩

theorem raises_unpackAll (texts : List StdString) : RaisesValueError (Reader.unpackAll texts) :=
  Fallible.Outcome.mapM fun text _ => raises_unpackString text

theorem raises_typedField (field : StdString) (type : SimulationDataType) :
    RaisesValueError (Reader.typedField field type) := by
  cases type with
  | real => exact (raises_float field).map fun _ _ => trivial
  | integer => exact (raises_int field).map fun _ _ => trivial
  | boolean => exact (raises_int field).map fun _ _ => trivial
  | string => exact (raises_unpackString field).map fun _ _ => trivial

theorem raises_getTypedValue (type : SimulationDataType) (text : StdString) :
    RaisesValueError (getTypedValue type text) := by
  cases type with
  | real => exact (raises_float text).map fun _ _ => trivial
  | integer => exact (raises_int text).map fun _ _ => trivial
  | boolean => trivial
  | string => trivial

theorem raises_extractVariableHeader (vars types : List StdString) :
    RaisesValueError (Reader.extractVariableHeader vars types) := by
  have hboth (vars types : List StdString) : RaisesValueError (do
      return (← Reader.unpackAll vars, ← Reader.unpackAll types)) :=
    (raises_unpackAll vars).bind fun _ _ => (raises_unpackAll types).bind fun _ _ => trivial
  rw [Reader.extractVariableHeader]
  split
  · exact ⟨_, rfl⟩
  split
  · exact ⟨_, rfl⟩
  split
  · exact ⟨_, rfl⟩
  split
  · exact hboth _ _
  · exact hboth _ _

theorem raises_addHeader (rows : List (List StdString)) : RaisesValueError (Reader.addHeader rows) := by
  have hraw : RaisesValueError (Reader.readRawHeader rows) := by
    unfold Reader.readRawHeader
    split
    · trivial
    · exact ⟨_, rfl⟩
  have htypes (names : List StdString) : RaisesValueError (generateSimulationDataTypes names) := by
    apply Fallible.Outcome.mapM
    intro name _
    rw [SimulationDataType.ofValue]
    split
    · trivial
    · exact ⟨_, rfl⟩
  refine hraw.bind fun _ _ => (raises_extractVariableHeader _ _).bind fun _ _ => (htypes _).bind fun _ _ => trivial

theorem raises_initialImage (args : Arguments) (header : List (StdString × SimulationDataType)) :
    RaisesValueError (initialImage args header) := by
  rw [initialImage]
  split
  · trivial
  have hvalues : RaisesValueError (header.foldlM (addInitialValue getTypedValue) ([], getDefaultVariableDict args)) := by
    apply Fallible.Outcome.foldlM (fun _ _ => True) _ trivial
    intro _ state item _ _
    rw [addInitialValue]
    split
    · exact (raises_getTypedValue _ _).map fun _ _ => trivial
    · trivial
  apply hvalues.bind
  intro state _
  dsimp only
  split
  · exact ⟨_, rfl⟩
  · trivial

theorem length_extractVariableHeader {vars types vars' types' : List StdString}
    (h : Reader.extractVariableHeader vars types = .ok (vars', types')) : vars'.length = types'.length := by
  have hboth {vars types : List StdString} (hlength : vars.length = types.length)
      (h : (do return (← Reader.unpackAll vars, ← Reader.unpackAll types) :
        Except ReaderError (List StdString × List StdString)) = .ok (vars', types')) : vars'.length = types'.length := by
    obtain ⟨names, hnames, h⟩ := Fallible.bind_eq_ok.mp h
    obtain ⟨others, hothers, h⟩ := Fallible.bind_eq_ok.mp h
    cases h
    rw [← (Fallible.mapM_eq_ok.mp hnames).length_eq, ← (Fallible.mapM_eq_ok.mp hothers).length_eq, hlength]
  rw [Reader.extractVariableHeader] at h
  split at h
  · cases h
  rename_i hlength
  rw [not_not] at hlength
  split at h
  · cases h
  split at h
  · cases h
  split at h
  · exact hboth (by rw [List.length_take, List.length_take, hlength]) h
  · exact hboth hlength h

theorem raises_encode (text : StdString) : RaisesValueError (encode text) := by
  rw [encode]
  split
  · trivial
  · exact ⟨_, rfl⟩

/-- The keys of the dictionary are the names in their order if none of them is repeated. -/
theorem keys_header {rows rest : List (List StdString)} {r : Reader} (h : Reader.addHeader rows = .ok (r, rest))
    (hnodup : r.nameList.Nodup) : r.header.map Prod.fst = r.nameList := by
  obtain ⟨⟨vars, types, rows⟩, -, h⟩ := Fallible.bind_eq_ok.mp h
  obtain ⟨⟨vars, types⟩, hextract, h⟩ := Fallible.bind_eq_ok.mp h
  obtain ⟨simTypes, htypes, h⟩ := Fallible.bind_eq_ok.mp h
  have hlength : (vars.drop 1).length = simTypes.length := by
    rw [← (Fallible.mapM_eq_ok.mp htypes).length_eq, List.length_drop, List.length_drop,
      length_extractVariableHeader hextract]
  cases h
  have hkeys : ([] ++ (vars.drop 1).zip simTypes).map Prod.fst = vars.drop 1 := List.map_fst_zip hlength.le
  dsimp only at hnodup ⊢
  rw [foldl_setItem (by rwa [hkeys]), hkeys]

/-- The dictionary is shorter than the list of names as soon as a name is repeated. -/
theorem length_header_iff {rows rest : List (List StdString)} {r : Reader}
    (h : Reader.addHeader rows = .ok (r, rest)) : r.nameList.length = r.header.length ↔ r.nameList.Nodup := by
  refine ⟨nodup_nameList h, fun hnodup => ?_⟩
  rw [← keys_header h hnodup, List.length_map]

/-- Without a repeated name, a row raises nothing but a `ValueError`. -/
theorem raises_readRow {rows rest : List (List StdString)} {r : Reader} (hreader : Reader.addHeader rows = .ok (r, rest))
    (hnodup : r.nameList.Nodup) (row : List StdString) : RaisesValueError (r.readRow row) := by
  have hlength := (length_header_iff hreader).mpr hnodup
  have hnames : ∀ name ∈ r.nameList, r.header.lookup name ≠ none := by
    intro name hname hnone
    rw [← keys_header hreader hnodup] at hname
    exact lookup_eq_none.mp hnone hname
  unfold Reader.readRow
  rw [if_neg (not_not.mpr hlength)]
  split
  · exact ⟨_, rfl⟩
  split
  · exact ⟨_, rfl⟩
  refine (raises_float _).bind fun _ _ => Fallible.Outcome.foldlM (fun _ _ => True) ?_ trivial
  intro _ event item _ hitem
  have hname := hnames item.1 (List.of_mem_zip hitem).1
  cases htype : r.header.lookup item.1 with
  | none => exact absurd htype hname
  | some type =>
    dsimp only
    rw [Reader.readField]
    split
    · trivial
    · exact (raises_typedField _ _).map fun _ _ => trivial

theorem exitStatus_of_isValueError {e : ReaderError} (h : IsValueError e) : exitStatus (some e) = 2 := by
  obtain ⟨what, rfl⟩ := h
  rfl

/-- A row is malformed with a repeated name. -/
theorem readRow_repeated {rows rest : List (List StdString)} {r : Reader}
    (hreader : Reader.addHeader rows = .ok (r, rest)) (hrepeated : ¬ r.nameList.Nodup) (row : List StdString) :
    r.readRow row = .error .assertionError := by
  unfold Reader.readRow
  exact if_pos fun hlength => hrepeated ((length_header_iff hreader).mp hlength)

/-- Without a repeated name, a row that cannot be converted raises a `ValueError`. -/
theorem isValueError_of_rowRaises {strFloat : StdString → StdString} {args : Arguments} {rows rest : List (List StdString)}
    {r : Reader} (hreader : Reader.addHeader rows = .ok (r, rest)) (hnodup : r.nameList.Nodup) {image : VariableImage}
    {events written : List Event} {bad : List StdString} {e : ReaderError}
    (h : RowRaises strFloat args r image events written bad e) : IsValueError e := by
  rcases h with hmalformed | ⟨_, _, -, -, hencode⟩
  · exact (raises_readRow hreader hnodup _).of_error hmalformed
  · exact (raises_encode _).of_error hencode

/-- The exception behind the last row is met only if no row has raised one. -/
theorem convertRows_failure (strFloat : StdString → StdString) (args : Arguments) (r : Reader)
    (failure : Option ReaderError) (image : VariableImage) (rows : List (List StdString)) :
    (convertRows strFloat args r failure image rows).2 =
      ((convertRows strFloat args r none image rows).2).or failure := by
  induction rows generalizing image with
  | nil => rfl
  | cons row rows ih =>
    rw [convertRows, convertRows]
    cases convertRow strFloat args r image row with
    | error e => rfl
    | ok converted => exact ih converted.1

/-- The exit status of a conversion that has started. -/
theorem exitStatus_started {strFloat : StdString → StdString} {args : Arguments} {csvSource : Iteration (List StdString)}
    {r : Reader} {rows : List (List StdString)} {image : VariableImage} {names : StdString}
    (hstart : startConversion args csvSource = .ok (r, rows, image, names)) :
    exitStatus (convert strFloat args csvSource).2 = 1 ↔ (rows ≠ [] ∧ ¬ r.nameList.Nodup) ∨
      (exitStatus csvSource.failure = 1 ∧ (convertRows strFloat args r none image rows).2 = none) := by
  obtain ⟨hopened, himage, -⟩ := startConversion_eq_ok.mp hstart
  have hheader := addHeader_of_openHeader hopened
  have hraised : (convert strFloat args csvSource).2 =
      ((convertRows strFloat args r none image rows).2).or csvSource.failure := by
    rw [convert, hstart]
    exact convertRows_failure strFloat args r _ image rows
  rw [hraised]
  obtain ⟨good, rest, events, written, hrows, hstream⟩ := convertRows_spec strFloat args r none image
    (covers_initialImage (nodup_keys_addHeader hheader) himage) rows
  rcases hstream.stops with ⟨-, hnone⟩ | ⟨bad, more, e, hrest, hsome, hraises⟩
  · rw [hnone, Option.none_or]
    constructor
    · exact fun hstatus => .inr ⟨hstatus, rfl⟩
    · rintro (⟨hne, hrepeated⟩ | ⟨hstatus, -⟩)
      · -- The first row would have been refused.
        obtain ⟨row, others, rfl⟩ := List.exists_cons_of_ne_nil hne
        rw [convertRows, convertRow, readRow_repeated hheader hrepeated] at hnone
        cases hnone
      · exact hstatus
  · rw [hsome, Option.some_or]
    constructor
    · intro hstatus
      refine .inl ⟨by rw [hrows, hrest]; simp, fun hnodup => ?_⟩
      rw [exitStatus_of_isValueError (isValueError_of_rowRaises hheader hnodup hraises)] at hstatus
      cases hstatus
    · rintro (⟨hne, hrepeated⟩ | ⟨-, hnone⟩)
      · obtain ⟨row, others, rfl⟩ := List.exists_cons_of_ne_nil hne
        rw [convertRows, convertRow, readRow_repeated hheader hrepeated] at hsome
        cases hsome
        rfl
      · cases hnone

/-- A name is repeated in a header that is followed by a row. -/
def RepeatsName (args : Arguments) (csvSource : Iteration (List StdString)) : Prop :=
  ∃ r row rows image names, startConversion args csvSource = .ok (r, row :: rows, image, names) ∧ ¬ r.nameList.Nodup

/-- A field beyond the limit of `csv.reader` stands in the header, or everything in front of it is
converted without an exception. -/
def ReachesLongField (strFloat : StdString → StdString) (args : Arguments) (csvSource : Iteration (List StdString)) :
    Prop :=
  csvSource.failure = some .csvError ∧
    (csvSource.items.length < 2 ∨ (convert strFloat args { items := csvSource.items }).2 = none)

/-- The only exceptions of an opened file itself are `UnicodeDecodeError` and `_csv.Error`. -/
theorem failure_csvReader (handedOut : Nat) (source : StdString) :
    let failure := (csvReader (openFile handedOut source)).failure
    failure = none ∨ failure = some .csvError ∨ ∃ what, failure = some (.valueError what) := by
  intro failure
  have hfailure : failure = if ∀ line ∈ (openFile handedOut source).items, WithinLimit line then
      (openFile handedOut source).failure else some .csvError := rfl
  rw [hfailure]
  split
  · rw [openFile]
    split
    · exact .inl rfl
    · exact .inr (.inr ⟨_, rfl⟩)
  · exact .inr (.inl rfl)

theorem openHeader_short {csvSource : Iteration (List StdString)} (h : csvSource.items.length < 2) :
    Reader.openHeader csvSource = match csvSource.failure with
      | some e => .error e
      | none => Reader.addHeader csvSource.items := by
  obtain ⟨items, failure⟩ := csvSource
  match items, failure with
  | [], none => rfl
  | [], some e => rfl
  | [_], none => rfl
  | [_], some e => rfl
  | _ :: _ :: _, _ =>
    dsimp only [List.length_cons] at h
    omega

theorem openHeader_long {csvSource : Iteration (List StdString)} (h : ¬ csvSource.items.length < 2) :
    Reader.openHeader csvSource = Reader.addHeader csvSource.items := by
  obtain ⟨items, failure⟩ := csvSource
  match items with
  | [] => exact absurd (Nat.zero_lt_two) h
  | [_] => exact absurd (Nat.one_lt_two) h
  | _ :: _ :: _ => rfl

theorem raises_startConversion {args : Arguments} {csvSource : Iteration (List StdString)}
    (h : Reader.openHeader csvSource = Reader.addHeader csvSource.items) :
    RaisesValueError (startConversion args csvSource) := by
  rw [startConversion, h]
  exact (raises_addHeader _).bind fun _ _ => (raises_initialImage args _).bind fun _ _ =>
    (raises_encode _).bind fun _ _ => trivial

/-- Without two rows, the conversion does not start: by the exception in their place or a `ValueError`. -/
theorem error_of_short {args : Arguments} {csvSource : Iteration (List StdString)} (h : csvSource.items.length < 2)
    {e : ReaderError} (hstart : startConversion args csvSource = .error e) :
    csvSource.failure = some e ∨ csvSource.failure = none ∧ IsValueError e := by
  have hopen := openHeader_short h
  cases hfailure : csvSource.failure with
  | some f =>
    rw [hfailure] at hopen
    rw [startConversion, hopen] at hstart
    cases hstart
    exact .inl rfl
  | none =>
    rw [hfailure] at hopen
    exact .inr ⟨rfl, (raises_startConversion hopen).of_error hstart⟩

/-- Behind the header, the start does not depend on how the iteration ends. -/
theorem startConversion_long {args : Arguments} {csvSource : Iteration (List StdString)}
    (h : ¬ csvSource.items.length < 2) : startConversion args { items := csvSource.items } =
      startConversion args csvSource := by
  have hopen : Reader.openHeader { items := csvSource.items } = Reader.addHeader csvSource.items := openHeader_long h
  rw [startConversion, startConversion, openHeader_long h, hopen]

/-- A conversion that does not start ends by an exception that is not handled exactly if this is the one
of `csv.reader` in the header. -/
theorem exitStatus_refused (strFloat : StdString → StdString) {args : Arguments} {csvSource : Iteration (List StdString)}
    (hstatus : exitStatus csvSource.failure = 1 ↔ csvSource.failure = some .csvError) {e : ReaderError}
    (hstart : startConversion args csvSource = .error e) :
    exitStatus (some e) = 1 ↔ ReachesLongField strFloat args csvSource := by
  by_cases hshort : csvSource.items.length < 2
  · rw [ReachesLongField, and_iff_left (.inl hshort), ← hstatus]
    rcases error_of_short hshort hstart with hraised | ⟨hnone, hvalue⟩
    · rw [hraised]
    · rw [hnone, exitStatus_of_isValueError hvalue]
      decide
  · rw [exitStatus_of_isValueError ((raises_startConversion (openHeader_long hshort)).of_error hstart)]
    refine iff_of_false (by decide) ?_
    rintro ⟨-, hreached⟩
    have hnone := hreached.resolve_left hshort
    rw [convert, startConversion_long hshort, hstart] at hnone
    cases hnone

theorem repeatsName_started {args : Arguments} {csvSource : Iteration (List StdString)} {r : Reader}
    {rows : List (List StdString)} {image : VariableImage} {names : StdString}
    (hstart : startConversion args csvSource = .ok (r, rows, image, names)) :
    RepeatsName args csvSource ↔ rows ≠ [] ∧ ¬ r.nameList.Nodup := by
  constructor
  · rintro ⟨_, row, others, _, _, hstarted, hrepeated⟩
    cases hstart.symm.trans hstarted
    exact ⟨List.cons_ne_nil _ _, hrepeated⟩
  · rintro ⟨hne, hrepeated⟩
    obtain ⟨row, others, rfl⟩ := List.exists_cons_of_ne_nil hne
    exact ⟨r, row, others, image, names, hstart, hrepeated⟩

/-- The interpreter ends by an exception that is not handled exactly if a name is repeated in a header
that is followed by a row, or a field is met that is beyond the limit of `csv.reader`. Any other
malformed file is reported. -/
theorem converter_crashes_iff (strFloat : StdString → StdString) (args : Arguments) (handedOut : Nat)
    (source : StdString) :
    exitStatus (convert strFloat args (csvReader (openFile handedOut source))).2 = 1 ↔
      RepeatsName args (csvReader (openFile handedOut source)) ∨
        ReachesLongField strFloat args (csvReader (openFile handedOut source)) := by
  have hfailure := failure_csvReader handedOut source
  generalize csvReader (openFile handedOut source) = csvSource at hfailure ⊢
  dsimp only at hfailure
  have hstatus : exitStatus csvSource.failure = 1 ↔ csvSource.failure = some .csvError := by
    rcases hfailure with h | h | ⟨what, h⟩ <;> simp [h, exitStatus]
  cases hstart : startConversion args csvSource with
  | error e =>
    have hunnamed : ¬ RepeatsName args csvSource := by
      rintro ⟨_, _, _, _, _, hstarted, -⟩
      cases hstart.symm.trans hstarted
    have hconvert : convert strFloat args csvSource = ([], some e) := by rw [convert, hstart]
    rw [hconvert, or_iff_right hunnamed]
    exact exitStatus_refused strFloat hstatus hstart
  | ok started =>
    obtain ⟨r, rows, image, names⟩ := started
    obtain ⟨variableRow, typeRow, hitems⟩ :=
      exists_rows_of_addHeader (addHeader_of_openHeader (startConversion_eq_ok.mp hstart).1)
    have hshort : ¬ csvSource.items.length < 2 := by rw [hitems]; simp
    have hconverted : (convert strFloat args { items := csvSource.items }).2 =
        (convertRows strFloat args r none image rows).2 := by
      rw [convert, startConversion_long hshort, hstart]
    rw [exitStatus_started hstart, repeatsName_started hstart, ReachesLongField, hconverted, hstatus,
      or_iff_right hshort]

end FMITerminalBlock.Scripts
