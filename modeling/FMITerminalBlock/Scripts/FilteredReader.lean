import FMITerminalBlock.Scripts.FloatLiteral
import FMITerminalBlock.Scripts.ReadableFiles

/-! The filters that stand between the reader and the writer of a conversion. One of them drops empty
events, the other one fills every event with the last known values. -/
namespace FMITerminalBlock.Scripts
open Base

/-! ### Dictionaries -/

def delItem {β : Type} (dict : List (StdString × β)) (key : StdString) : List (StdString × β) :=
  dict.filter fun item => item.1 ≠ key

section
variable {β : Type} {dict : List (StdString × β)} {key name : StdString}

theorem lookup_eq_none : dict.lookup key = none ↔ key ∉ dict.map Prod.fst := by
  rw [List.lookup_eq_none_iff]
  constructor
  · intro h hmem
    obtain ⟨item, hitem, rfl⟩ := List.mem_map.mp hmem
    exact absurd (h item hitem) (by simp)
  · intro h item hitem
    have hkey : key ≠ item.1 := fun heq => h (heq ▸ List.mem_map_of_mem hitem)
    simpa using hkey

private theorem lookup_replaced (dict : List (StdString × β)) (key name : StdString) (value : β) :
    (dict.map fun item => if item.1 = key then (key, value) else item).lookup name =
      if name = key then (dict.lookup key).map fun _ => value else dict.lookup name := by
  induction dict with
  | nil => simp
  | cons item dict ih =>
    obtain ⟨other, previous⟩ := item
    rw [List.map_cons]
    by_cases hother : other = key
    · subst hother
      by_cases hname : name = other
      · simp [hname]
      · rw [if_pos rfl, if_neg hname] at *
        rw [List.lookup_cons, List.lookup_cons, beq_eq_false_iff_ne.mpr hname, ih]
    · rw [if_neg hother, List.lookup_cons, List.lookup_cons, List.lookup_cons, ih,
        beq_eq_false_iff_ne.mpr (Ne.symm hother)]
      by_cases hname : name = key
      · subst hname
        simp [beq_eq_false_iff_ne.mpr (Ne.symm hother)]
      · simp [hname]

/-- Assignment changes one key. -/
theorem lookup_setItem (dict : List (StdString × β)) (key name : StdString) (value : β) :
    (setItem dict key value).lookup name = if name = key then some value else dict.lookup name := by
  by_cases hkey : key ∈ dict.map Prod.fst
  · obtain ⟨previous, hprevious⟩ := Option.ne_none_iff_exists'.mp fun hnone => lookup_eq_none.mp hnone hkey
    rw [setItem, if_pos (by simpa using hkey), lookup_replaced, hprevious, Option.map_some]
  · rw [setItem_new hkey, List.lookup_append]
    by_cases hname : name = key
    · subst hname
      simp [lookup_eq_none.mpr hkey]
    · simp [List.lookup_cons, beq_eq_false_iff_ne.mpr hname, hname]

theorem lookup_delItem (dict : List (StdString × β)) (key name : StdString) :
    (delItem dict key).lookup name = if name = key then none else dict.lookup name := by
  induction dict with
  | nil => simp [delItem]
  | cons item dict ih =>
    obtain ⟨other, value⟩ := item
    rw [delItem] at ih
    rw [delItem, List.filter_cons]
    by_cases hother : other = key
    · subst hother
      rw [if_neg (by simp), ih, List.lookup_cons]
      by_cases hname : name = other
      · simp [hname]
      · simp [hname, beq_eq_false_iff_ne.mpr hname]
    · rw [if_pos (by simpa using hother), List.lookup_cons, List.lookup_cons, ih]
      by_cases hname : name = key
      · subst hname
        simp [beq_eq_false_iff_ne.mpr (Ne.symm hother)]
      · simp [hname]

theorem keys_setItem (dict : List (StdString × β)) (key : StdString) (value : β) :
    (setItem dict key value).map Prod.fst =
      if key ∈ dict.map Prod.fst then dict.map Prod.fst else dict.map Prod.fst ++ [key] := by
  split
  · rename_i hkey
    rw [setItem, if_pos (by simpa using hkey), List.map_map]
    apply List.map_congr_left
    intro item _
    rw [Function.comp_apply]
    split
    · rename_i heq
      exact heq.symm
    · rfl
  · rename_i hkey
    rw [setItem_new hkey, List.map_append, List.map_singleton]

theorem nodup_keys_setItem (h : (dict.map Prod.fst).Nodup) (key : StdString) (value : β) :
    ((setItem dict key value).map Prod.fst).Nodup := by
  rw [keys_setItem]
  split
  · exact h
  · rename_i hkey
    rw [List.nodup_append]
    refine ⟨h, List.nodup_singleton key, ?_⟩
    intro other hother last hlast heq
    rw [List.mem_singleton] at hlast
    exact hkey (hlast ▸ heq ▸ hother)

end

/-! ### Readers and filters -/

/-- What a reader offers: the types of the variables under their names, and the events that one
iteration yields. -/
structure AbstractReader where
  header : List (StdString × SimulationDataType)
  keys : (header.map Prod.fst).Nodup
  events : List Event

/-- The events that have any variable. -/
def filterEvents (events : List Event) : List Event := events.filter fun ev => ev.eventDict.length > 0

def AbstractReader.emptyEventFilter (source : AbstractReader) : AbstractReader :=
  { source with events := filterEvents source.events }

def defaultValues : SimulationDataType → FieldValue
  | .real => .real (ascii "0.0")
  | .integer => .integer 0
  | .boolean => .boolean false
  | .string => .string []

abbrev VariableImage := List (StdString × FieldValue)

/-- An event gets the value of the image, unless it has a value of its own for the image. -/
def syncVariable (image : VariableImage) (event : Event) (name : StdString) :
    Except ReaderError (VariableImage × Event) :=
  match event.eventDict.lookup name with
  | some value => .ok (setItem image name value, event)
  | none =>
    match image.lookup name with
    | some value => .ok (image, { event with eventDict := setItem event.eventDict name value })
    | none => .error .keyError

def syncEvent (names : List StdString) (image : VariableImage) (event : Event) :
    Except ReaderError (VariableImage × Event) :=
  names.foldlM (fun state name => syncVariable state.1 state.2 name) (image, event)

/-- The events of one iteration and the image it leaves behind. -/
def interpolateVariables (names : List StdString) : VariableImage → List Event →
    Except ReaderError (List Event × VariableImage)
  | image, [] => .ok ([], image)
  | image, ev :: events => do
    let (image, ev) ← syncEvent names image ev
    let (rest, image) ← interpolateVariables names image events
    return (ev :: rest, image)

/-- The image belongs to the filter: a second iteration goes on where the first one stopped. -/
structure ConstantInterpolationEventFilter where
  sourceReader : AbstractReader
  initialVariableImage : VariableImage

section
-- The given values may be of any type that can be converted into the types of the variables.
variable {β : Type} (typedValue : SimulationDataType → β → Except ReaderError FieldValue)

/-- The image so far and the given values that are still to be used. -/
def addInitialValue (state : VariableImage × List (StdString × β)) (item : StdString × SimulationDataType) :
    Except ReaderError (VariableImage × List (StdString × β)) :=
  match state.2.lookup item.1 with
  | some given => (typedValue item.2 given).map fun value =>
      (setItem state.1 item.1 value, delItem state.2 item.1)
  | none => .ok (setItem state.1 item.1 (defaultValues item.2), state.2)

def getInitialVariableImage (initialValues : List (StdString × β)) (header : List (StdString × SimulationDataType)) :
    Except ReaderError VariableImage := do
  let (image, unknown) ← header.foldlM (addInitialValue typedValue) ([], initialValues)
  if unknown.length > 0 then throw (.valueError "Unknown default model variables: \x7b\x7d")
  return image

namespace ConstantInterpolationEventFilter

def init (source : AbstractReader) (initialValues : List (StdString × β)) :
    Except ReaderError ConstantInterpolationEventFilter := do
  let image ← getInitialVariableImage typedValue initialValues source.header
  return { sourceReader := source, initialVariableImage := image }

/-- One iteration: the events it yields and the filter afterwards. -/
def iter (f : ConstantInterpolationEventFilter) : Except ReaderError (List Event × ConstantInterpolationEventFilter) := do
  let (events, image) ← interpolateVariables (f.sourceReader.header.map Prod.fst) f.initialVariableImage
    f.sourceReader.events
  return (events, { f with initialVariableImage := image })

end ConstantInterpolationEventFilter
end

/-- A text from the command line in the type of a variable. The truth value of a text tells whether
it has any content. -/
def getTypedValue (type : SimulationDataType) (value : StdString) : Except ReaderError FieldValue :=
  match type with
  | .real => (float value).map fun _ => .real value
  | .integer => (int value).map .integer
  | .boolean => .ok (.boolean (value ≠ []))
  | .string => .ok (.string value)

/-! ### One event -/

/-- The image has a value for every variable. -/
def Covers (names : List StdString) (image : VariableImage) : Prop := ∀ name ∈ names, image.lookup name ≠ none

/-- The value of a variable once an event and the image are synchronized. -/
def current (image : VariableImage) (event : Event) (name : StdString) : Option FieldValue :=
  (event.eventDict.lookup name).or (image.lookup name)

/-- The event and the image agree on all variables that have been visited, and the others are as before. -/
structure Synchronized (names : List StdString) (image : VariableImage) (event : Event) (image' : VariableImage)
    (event' : Event) : Prop where
  time : event'.eventTime = event.eventTime
  inEvent : ∀ name, event'.eventDict.lookup name =
    if name ∈ names then current image event name else event.eventDict.lookup name
  inImage : ∀ name, image'.lookup name = if name ∈ names then current image event name else image.lookup name

theorem syncVariable_spec {image : VariableImage} {name : StdString} (hname : image.lookup name ≠ none)
    (event : Event) : ∃ image' event', syncVariable image event name = .ok (image', event') ∧
      Synchronized [name] image event image' event' := by
  rw [syncVariable]
  cases hevent : event.eventDict.lookup name with
  | some value =>
    refine ⟨_, _, rfl, rfl, ?_, ?_⟩
    · intro other
      by_cases hother : other = name
      · subst hother
        simp [current, hevent]
      · simp [hother]
    · intro other
      rw [lookup_setItem]
      by_cases hother : other = name
      · subst hother
        simp [current, hevent]
      · simp [hother]
  | none =>
    obtain ⟨value, hvalue⟩ := Option.ne_none_iff_exists'.mp hname
    rw [hvalue]
    refine ⟨_, _, rfl, rfl, ?_, ?_⟩
    · intro other
      rw [lookup_setItem]
      by_cases hother : other = name
      · subst hother
        simp [current, hevent, hvalue]
      · simp [hother]
    · intro other
      by_cases hother : other = name
      · subst hother
        simp [current, hevent, hvalue]
      · simp [hother]

theorem Synchronized.current {names : List StdString} {image image' : VariableImage} {event event' : Event}
    (h : Synchronized names image event image' event') (name : StdString) :
    current image' event' name = current image event name := by
  rw [Scripts.current, h.inEvent, h.inImage]
  split
  · exact Option.or_self
  · rfl

theorem Synchronized.covers {names others : List StdString} {image image' : VariableImage} {event event' : Event}
    (h : Synchronized names image event image' event') (hcovers : Covers others image) : Covers others image' := by
  intro name hname
  rw [h.inImage]
  split
  · rw [Scripts.current]
    exact fun hnone => hcovers name hname (Option.or_eq_none_iff.mp hnone).2
  · exact hcovers name hname

theorem syncEvent_spec {names : List StdString} {image : VariableImage} (hcovers : Covers names image)
    (event : Event) : ∃ image' event', syncEvent names image event = .ok (image', event') ∧
      Synchronized names image event image' event' := by
  induction names generalizing image event with
  | nil => exact ⟨image, event, rfl, rfl, by simp, by simp⟩
  | cons name names ih =>
    obtain ⟨image₁, event₁, hstep, hfirst⟩ := syncVariable_spec (hcovers name List.mem_cons_self) event
    have hrest := hfirst.covers fun other hother => hcovers other (List.mem_cons_of_mem name hother)
    obtain ⟨image₂, event₂, hrun, hsecond⟩ := ih hrest event₁
    refine ⟨image₂, event₂, ?_, hsecond.time.trans hfirst.time, ?_, ?_⟩
    · rw [syncEvent, List.foldlM_cons, hstep]
      exact hrun
    · intro other
      rw [hsecond.inEvent, hfirst.current, hfirst.inEvent]
      by_cases hother : other = name
      · simp [hother]
      · simp [hother]
    · intro other
      rw [hsecond.inImage, hfirst.current, hfirst.inImage]
      by_cases hother : other = name
      · simp [hother]
      · simp [hother]

/-- An event without any of the variables leaves the image alone. -/
theorem syncEvent_missing {names : List StdString} (hnodup : names.Nodup) {image image' : VariableImage}
    {event event' : Event} (hmissing : ∀ name ∈ names, event.eventDict.lookup name = none)
    (hrun : syncEvent names image event = .ok (image', event')) : image' = image := by
  induction names generalizing event with
  | nil =>
    cases hrun
    rfl
  | cons name names ih =>
    rw [List.nodup_cons] at hnodup
    rw [syncEvent, List.foldlM_cons, syncVariable, hmissing name List.mem_cons_self] at hrun
    cases hvalue : image.lookup name with
    | none =>
      rw [hvalue] at hrun
      cases hrun
    | some value =>
      rw [hvalue] at hrun
      refine ih hnodup.2 ?_ hrun
      intro other hother
      have hdiffers : other ≠ name := fun heq => hnodup.1 (heq ▸ hother)
      rw [lookup_setItem, if_neg hdiffers]
      exact hmissing other (List.mem_cons_of_mem name hother)

/-! ### The whole sequence -/

/-- The value that the latest of these events assigns. -/
def latest (events : List Event) (name : StdString) : Option FieldValue :=
  events.reverse.findSome? fun ev => ev.eventDict.lookup name

theorem latest_append (past events : List Event) (name : StdString) :
    latest (past ++ events) name = (latest events name).or (latest past name) := by
  rw [latest, List.reverse_append, List.findSome?_append]
  rfl

theorem latest_singleton (ev : Event) (name : StdString) : latest [ev] name = ev.eventDict.lookup name := by
  rw [latest, List.reverse_singleton, List.findSome?_singleton]

theorem latest_cons (ev : Event) (events : List Event) (name : StdString) :
    latest (ev :: events) name = (latest events name).or (ev.eventDict.lookup name) := by
  rw [← List.singleton_append, latest_append, latest_singleton]

/-- A dense row has the time of its event, and the last known values. -/
structure DenseRow (names : List StdString) (image : VariableImage) (past : List Event) (event row : Event) : Prop where
  time : row.eventTime = event.eventTime
  value : ∀ name ∈ names, row.eventDict.lookup name = (latest (past ++ [event]) name).or (image.lookup name)

theorem interpolateVariables_spec {names : List StdString} {image : VariableImage} (hcovers : Covers names image)
    (events : List Event) : ∃ rows image', interpolateVariables names image events = .ok (rows, image') ∧
      rows.length = events.length ∧ ∀ i event row, events[i]? = some event → rows[i]? = some row →
        DenseRow names image (events.take i) event row := by
  induction events generalizing image with
  | nil => exact ⟨[], image, rfl, rfl, by simp⟩
  | cons ev events ih =>
    obtain ⟨image₁, ev₁, hsync, hstep⟩ := syncEvent_spec hcovers ev
    obtain ⟨rows, image₂, hrun, hlength, hrows⟩ := ih (hstep.covers hcovers)
    refine ⟨ev₁ :: rows, image₂, ?_, by rw [List.length_cons, hlength, List.length_cons], ?_⟩
    · rw [interpolateVariables]
      exact Fallible.bind_eq_ok.mpr ⟨_, hsync, Fallible.bind_eq_ok.mpr ⟨_, hrun, rfl⟩⟩
    · intro i event row hevent hrow
      cases i with
      | zero =>
        cases hevent
        cases hrow
        refine ⟨hstep.time, fun name hname => ?_⟩
        rw [hstep.inEvent, if_pos hname, List.take_zero, List.nil_append, latest_cons]
        rfl
      | succ i =>
        have hdense := hrows i event row hevent hrow
        refine ⟨hdense.time, fun name hname => ?_⟩
        rw [hdense.value name hname, hstep.inImage, if_pos hname, List.take_succ_cons, List.cons_append, latest_cons,
          Option.or_assoc]
        rfl

/-- Events without any variable leave no trace in the rows of the others. -/
theorem interpolateVariables_filterEvents {names : List StdString} (hnodup : names.Nodup) {image image' : VariableImage}
    {events rows : List Event} (hrun : interpolateVariables names image events = .ok (rows, image')) :
    interpolateVariables names image (filterEvents events) =
      .ok (((events.zip rows).filter fun pair => pair.1.eventDict.length > 0).map Prod.snd, image') := by
  induction events generalizing image rows with
  | nil =>
    cases hrun
    rfl
  | cons ev events ih =>
    rw [interpolateVariables] at hrun
    obtain ⟨⟨image₁, row⟩, hsync, hrun⟩ := Fallible.bind_eq_ok.mp hrun
    obtain ⟨⟨rest, image₂⟩, hrest, hrun⟩ := Fallible.bind_eq_ok.mp hrun
    cases hrun
    by_cases hempty : ev.eventDict = []
    · have himage : image₁ = image := syncEvent_missing hnodup (by simp [hempty]) hsync
      subst himage
      simpa [filterEvents, hempty] using ih hrest
    · have hlength : 0 < ev.eventDict.length := List.length_pos_iff.mpr hempty
      have hfiltered : filterEvents (ev :: events) = ev :: filterEvents events := by simp [filterEvents, hlength]
      rw [hfiltered, interpolateVariables]
      have hih := ih hrest
      rw [List.zip_cons_cons, List.filter_cons_of_pos (by simpa using hlength), List.map_cons]
      exact Fallible.bind_eq_ok.mpr ⟨_, hsync, Fallible.bind_eq_ok.mpr ⟨_, hih, rfl⟩⟩

/-! ### The initial image -/

section
variable {β : Type} {typedValue : SimulationDataType → β → Except ReaderError FieldValue}
  {initialValues : List (StdString × β)} {header : List (StdString × SimulationDataType)}

/-- The given value of a variable in its type, or the default of the type. -/
def initialValue (typedValue : SimulationDataType → β → Except ReaderError FieldValue)
    (initialValues : List (StdString × β)) (item : StdString × SimulationDataType) : Except ReaderError FieldValue :=
  match initialValues.lookup item.1 with
  | some given => typedValue item.2 given
  | none => .ok (defaultValues item.2)

/-- The entry of a variable in the initial image. -/
def initialEntry (typedValue : SimulationDataType → β → Except ReaderError FieldValue)
    (initialValues : List (StdString × β)) (item : StdString × SimulationDataType) :
    Except ReaderError (StdString × FieldValue) :=
  (initialValue typedValue initialValues item).map fun value => (item.1, value)

theorem addInitialValue_eq (state : VariableImage × List (StdString × β)) (item : StdString × SimulationDataType) :
    addInitialValue typedValue state item = (initialValue typedValue state.2 item).map fun value =>
      (setItem state.1 item.1 value, delItem state.2 item.1) := by
  rw [addInitialValue, initialValue]
  cases hgiven : state.2.lookup item.1 with
  | some given => rfl
  | none =>
    have hsame : delItem state.2 item.1 = state.2 := by
      rw [delItem, List.filter_eq_self]
      intro other hother
      have hkey : other.1 ≠ item.1 := fun heq => lookup_eq_none.mp hgiven (heq ▸ List.mem_map_of_mem hother)
      simpa using hkey
    simp only [Except.map, hsame]

theorem initialEntry_delItem {name : StdString} {item : StdString × SimulationDataType} (h : item.1 ≠ name) :
    initialEntry typedValue (delItem initialValues name) item = initialEntry typedValue initialValues item := by
  rw [initialEntry, initialEntry, initialValue, initialValue, lookup_delItem, if_neg h]

private theorem filter_delItem (initialValues : List (StdString × β)) (name : StdString) (names : List StdString) :
    ((delItem initialValues name).filter fun given => given.1 ∉ names) =
      initialValues.filter fun given => given.1 ∉ name :: names := by
  rw [delItem, List.filter_filter]
  apply List.filter_congr
  intro given _
  rw [← Bool.decide_and]
  apply decide_eq_decide.mpr
  rw [List.mem_cons, not_or, and_comm]

theorem foldlM_addInitialValue (hnodup : (header.map Prod.fst).Nodup) (image : VariableImage)
    (hnew : ∀ name ∈ header.map Prod.fst, name ∉ image.map Prod.fst) :
    header.foldlM (addInitialValue typedValue) (image, initialValues) =
      (header.mapM (initialEntry typedValue initialValues)).map fun entries =>
        (image ++ entries, initialValues.filter fun given => given.1 ∉ header.map Prod.fst) := by
  induction header generalizing image initialValues with
  | nil =>
    have hall : (initialValues.filter fun given => given.1 ∉ ([] : List (StdString × SimulationDataType)).map Prod.fst) =
        initialValues := by simp
    rw [hall, List.mapM_nil, List.foldlM_nil]
    change Except.ok (image, initialValues) = Except.ok (image ++ [], initialValues)
    rw [List.append_nil]
  | cons item header ih =>
    rw [List.map_cons, List.nodup_cons] at hnodup
    rw [List.foldlM_cons, List.mapM_cons, addInitialValue_eq, initialEntry]
    cases hvalue : initialValue typedValue initialValues item with
    | error e => rfl
    | ok value =>
      have hdiffers : ∀ other ∈ header.map Prod.fst, other ≠ item.1 := fun other hother heq =>
        hnodup.1 (heq ▸ hother)
      have hothers : ∀ name ∈ header.map Prod.fst, name ∉ (image ++ [(item.1, value)]).map Prod.fst := by
        intro name hname
        simpa [hdiffers name hname] using hnew name (List.mem_cons_of_mem _ hname)
      have hentries : header.mapM (initialEntry typedValue (delItem initialValues item.1)) =
          header.mapM (initialEntry typedValue initialValues) :=
        Fallible.mapM_congr fun other hother => initialEntry_delItem (hdiffers _ (List.mem_map_of_mem hother))
      change header.foldlM (addInitialValue typedValue) (setItem image item.1 value, delItem initialValues item.1) = _
      rw [setItem_new (hnew item.1 (by simp)), ih hnodup.2 _ hothers, hentries, filter_delItem]
      cases header.mapM (initialEntry typedValue initialValues) with
      | error e => rfl
      | ok entries =>
        change Except.ok (image ++ [(item.1, value)] ++ entries, _) = Except.ok (image ++ (item.1, value) :: entries, _)
        rw [List.append_assoc, List.singleton_append]
        rfl

/-- Every given value has a variable, and every variable has its initial value. -/
theorem getInitialVariableImage_eq_ok (hnodup : (header.map Prod.fst).Nodup) {image : VariableImage} :
    getInitialVariableImage typedValue initialValues header = .ok image ↔
      (∀ given ∈ initialValues, given.1 ∈ header.map Prod.fst) ∧
        header.mapM (initialEntry typedValue initialValues) = .ok image := by
  rw [getInitialVariableImage, foldlM_addInitialValue hnodup [] (by simp)]
  cases hentries : header.mapM (initialEntry typedValue initialValues) with
  | error e =>
    constructor
    · intro h
      cases h
    · intro h
      cases h.2
  | ok entries =>
    have hunknown : (initialValues.filter fun given => given.1 ∉ header.map Prod.fst).length > 0 ↔
        ¬ ∀ given ∈ initialValues, given.1 ∈ header.map Prod.fst := by
      rw [gt_iff_lt, List.length_pos_iff, ne_eq, List.filter_eq_nil_iff]
      simp
    change (if _ then Except.error _ else Except.ok ([] ++ entries)) = _ ↔ _
    by_cases hknown : ∀ given ∈ initialValues, given.1 ∈ header.map Prod.fst
    · rw [if_neg (fun h => hunknown.mp h hknown), List.nil_append]
      exact ⟨fun h => ⟨hknown, h⟩, fun h => h.2⟩
    · rw [if_pos (hunknown.mpr hknown)]
      constructor
      · intro h
        cases h
      · intro h
        exact absurd h.1 hknown

/-- The image has the initial values of all variables. -/
theorem lookup_initialImage (hnodup : (header.map Prod.fst).Nodup) {image : VariableImage}
    (himage : header.mapM (initialEntry typedValue initialValues) = .ok image)
    {item : StdString × SimulationDataType} (hitem : item ∈ header) :
    ∃ value, initialValue typedValue initialValues item = .ok value ∧ image.lookup item.1 = some value := by
  rw [Fallible.mapM_eq_ok] at himage
  induction himage with
  | nil => cases hitem
  | @cons other entry header image hentry _ ih =>
    obtain ⟨value, hvalue, rfl⟩ := Fallible.map_eq_ok.mp hentry
    rw [List.map_cons, List.nodup_cons] at hnodup
    rcases List.mem_cons.mp hitem with rfl | hitem
    · exact ⟨value, hvalue, by rw [List.lookup_cons, beq_self_eq_true]⟩
    · have hdiffers : item.1 ≠ other.1 := fun heq => hnodup.1 (heq ▸ List.mem_map_of_mem hitem)
      rw [List.lookup_cons, beq_eq_false_iff_ne.mpr hdiffers]
      exact ih hnodup.2 hitem

/-! ### Dense events -/

/-- The dense rows of all events: a row for each of them, with its time and, for every variable, the
last value up to this event or else the initial value. -/
structure Dense (typedValue : SimulationDataType → β → Except ReaderError FieldValue)
    (initialValues : List (StdString × β)) (source : AbstractReader) (rows : List Event) : Prop where
  length : rows.length = source.events.length
  time : ∀ (i : Nat) (event row : Event), source.events[i]? = some event → rows[i]? = some row →
    row.eventTime = event.eventTime
  value : ∀ (i : Nat) (row : Event), rows[i]? = some row → ∀ item ∈ source.header,
    ∃ initial, initialValue typedValue initialValues item = .ok initial ∧
      row.eventDict.lookup item.1 = some ((latest (source.events.take (i + 1)) item.1).getD initial)

/-- One iteration from the initial image. -/
theorem interpolateVariables_dense {source : AbstractReader} {image : VariableImage}
    (himage : getInitialVariableImage typedValue initialValues source.header = .ok image) :
    ∃ rows image', interpolateVariables (source.header.map Prod.fst) image source.events = .ok (rows, image') ∧
      Dense typedValue initialValues source rows := by
  have hentries := ((getInitialVariableImage_eq_ok source.keys).mp himage).2
  have hcovers : Covers (source.header.map Prod.fst) image := by
    intro name hname
    obtain ⟨item, hitem, rfl⟩ := List.mem_map.mp hname
    obtain ⟨value, -, hvalue⟩ := lookup_initialImage source.keys hentries hitem
    rw [hvalue]
    exact Option.some_ne_none value
  obtain ⟨rows, image', hrun, hlength, hrows⟩ := interpolateVariables_spec hcovers source.events
  refine ⟨rows, image', hrun, hlength, fun i event row hevent hrow => (hrows i event row hevent hrow).time, ?_⟩
  intro i row hrow item hitem
  obtain ⟨initial, hinitial, hlookup⟩ := lookup_initialImage source.keys hentries hitem
  refine ⟨initial, hinitial, ?_⟩
  obtain ⟨event, hevent⟩ : ∃ event, source.events[i]? = some event := by
    have hlt : i < source.events.length := hlength ▸ (List.getElem?_eq_some_iff.mp hrow).1
    exact ⟨source.events[i], List.getElem?_eq_getElem hlt⟩
  rw [(hrows i event row hevent hrow).value item.1 (List.mem_map_of_mem hitem), hlookup, List.take_add_one, hevent,
    Option.or_some]
  rfl

/-- Dense events carry the last known values forward, and dropping the empty events first yields the
dense rows of the events that are left. -/
theorem dense_rows_carry_values (typedValue : SimulationDataType → β → Except ReaderError FieldValue)
    (initialValues : List (StdString × β)) (source : AbstractReader) (filter : ConstantInterpolationEventFilter)
    (hinit : ConstantInterpolationEventFilter.init typedValue source initialValues = .ok filter) :
    ∃ rows filter', filter.iter = .ok (rows, filter') ∧ Dense typedValue initialValues source rows ∧
      ∃ filtered filtered', ConstantInterpolationEventFilter.init typedValue source.emptyEventFilter initialValues =
          .ok filtered ∧
        filtered.iter = .ok (((source.events.zip rows).filter fun pair => pair.1.eventDict.length > 0).map Prod.snd,
          filtered') := by
  obtain ⟨image, himage, hfilter⟩ := Fallible.bind_eq_ok.mp hinit
  cases hfilter
  obtain ⟨rows, image', hrun, hdense⟩ := interpolateVariables_dense himage
  have hfiltered := interpolateVariables_filterEvents source.keys hrun
  exact ⟨rows, _, Fallible.bind_eq_ok.mpr ⟨_, hrun, rfl⟩, hdense, _, _,
    Fallible.bind_eq_ok.mpr ⟨_, himage, rfl⟩, Fallible.bind_eq_ok.mpr ⟨_, hfiltered, rfl⟩⟩

end

/-- Two variables, and events that know one or none of them. -/
def twoVariables : AbstractReader where
  header := [(ascii "x", .integer), (ascii "y", .boolean)]
  keys := by decide
  events := [⟨ascii "0", []⟩, ⟨ascii "1", [(ascii "y", .boolean true)]⟩, ⟨ascii "2", []⟩]

theorem dense_rows_carry_values_two : ∃ filter rows filter',
    ConstantInterpolationEventFilter.init getTypedValue twoVariables [(ascii "x", ascii "7")] = .ok filter ∧
      filter.iter = .ok (rows, filter') ∧ Dense getTypedValue [(ascii "x", ascii "7")] twoVariables rows := by
  obtain ⟨rows, filter', hiter, hdense, -⟩ := dense_rows_carry_values getTypedValue [(ascii "x", ascii "7")] twoVariables
    ⟨twoVariables, [(ascii "x", .integer 7), (ascii "y", .boolean false)]⟩ rfl
  exact ⟨_, rows, filter', rfl, hiter, hdense⟩

end FMITerminalBlock.Scripts
