import FMITerminalBlock.Library.Fallible
import FMITerminalBlock.Scripts.DataFile
import FMITerminalBlock.Scripts.TimingReader

/-! The rows that are read from a timing file are its records, and the loop over the rows of a data set
gives every prediction to the last event that was triggered. -/
namespace FMITerminalBlock.Scripts
open Base Timing EventLogger TimingReader

/-! ### From records to rows -/

/-- The numbers of a timing file. What is printed and read again is rounded. -/
structure TimingFormat where
  fixed : ℚ → StdString
  float : StdString → Except TimingError ℚ
  rounded : ℚ → ℚ
  plain : ∀ x, PlainNumber (fixed x)
  float_fixed : ∀ x, float (fixed x) = .ok (rounded x)

/-- The fields of the clock are plain, and the description of the event stays within its line. -/
structure PlainCircumstances (c : Circumstances) : Prop where
  timeStamp : ∀ field ∈ [c.timeStamp.1, c.timeStamp.2.1, c.timeStamp.2.2.1, c.timeStamp.2.2.2],
    59 ∉ field ∧ NoLineBreak field
  message : NoLineBreak c.message

instance (c : Circumstances) : Decidable (PlainCircumstances c) :=
  decidable_of_iff ((∀ field ∈ [c.timeStamp.1, c.timeStamp.2.1, c.timeStamp.2.2.1, c.timeStamp.2.2.2],
    59 ∉ field ∧ NoLineBreak field) ∧ NoLineBreak c.message) ⟨fun h => ⟨h.1, h.2⟩, fun h => ⟨h.1, h.2⟩⟩

def TimingFormat.row (format : TimingFormat) (record : TimingRecord) : TimingRow :=
  ⟨format.rounded record.eventTime, format.rounded record.circumstances.recordTime, record.stage⟩

/-- The fields of a line in front of the description. -/
def recordFields (format : TimingFormat) (record : TimingRecord) : List StdString :=
  [record.circumstances.timeStamp.1, record.circumstances.timeStamp.2.1, record.circumstances.timeStamp.2.2.1,
    record.circumstances.timeStamp.2.2.2, format.fixed record.eventTime, DecimalText.decimal record.stage.code,
    format.fixed record.circumstances.recordTime]

theorem formatRecord_fields (format : TimingFormat) (record : TimingRecord) :
    formatRecord format.fixed record =
      (recordFields format record).flatMap (· ++ [59]) ++ (34 :: record.circumstances.message ++ [34]) := by
  simp [formatRecord, recordFields]

theorem recordFields_plain (format : TimingFormat) {record : TimingRecord}
    (h : PlainCircumstances record.circumstances) :
    ∀ field ∈ recordFields format record, 59 ∉ field ∧ NoLineBreak field := by
  have hnumber {text : StdString} (htext : PlainNumber text) : 59 ∉ text ∧ NoLineBreak text :=
    ⟨htext.noSeparator, htext.noBreak⟩
  have htimes := h.timeStamp
  simp only [recordFields, List.mem_cons, List.not_mem_nil, or_false, forall_eq_or_imp, forall_eq] at htimes ⊢
  exact ⟨htimes.1, htimes.2.1, htimes.2.2.1, htimes.2.2.2, hnumber (format.plain _), hnumber (plainNumber_decimal _),
    hnumber (format.plain _)⟩

theorem splitOn_fields {fields : List StdString} (h : ∀ field ∈ fields, 59 ∉ field) (rest : StdString) :
    (fields.flatMap (· ++ [59]) ++ rest).splitOn 59 = fields ++ rest.splitOn 59 := by
  induction fields with
  | nil => rfl
  | cons field fields ih =>
    rw [List.flatMap_cons, List.append_assoc, List.append_assoc, List.singleton_append,
      List.splitOn_append_cons_self, List.splitOn_eq_singleton (h field List.mem_cons_self),
      ih fun f hf => h f (List.mem_cons_of_mem _ hf), List.singleton_append, List.cons_append]

theorem action_decimal (stage : ProcessingStage) : action (DecimalText.decimal stage.code) = some stage := by
  cases stage <;> decide +kernel

theorem extractTimingRecordRow_line (format : TimingFormat) {record : TimingRecord}
    (h : PlainCircumstances record.circumstances) :
    extractTimingRecordRow format.float (csvRow (formatRecord format.fixed record)) = .ok (format.row record) := by
  have hne : formatRecord format.fixed record ≠ [] := by
    rw [formatRecord_fields]
    simp
  obtain ⟨first, rest, hmessage⟩ := List.exists_cons_of_ne_nil
    (List.splitOn_ne_nil 59 (34 :: record.circumstances.message ++ [34]))
  rw [csvRow, if_neg hne, formatRecord_fields,
    splitOn_fields fun field hfield => (recordFields_plain format h field hfield).1, hmessage]
  simp only [recordFields, List.cons_append, List.nil_append, extractTimingRecordRow, format.float_fixed,
    action_decimal, bind, Except.bind]
  rfl

theorem noLineBreak_formatRecord (format : TimingFormat) {record : TimingRecord}
    (h : PlainCircumstances record.circumstances) : NoLineBreak (formatRecord format.fixed record) := by
  have hfields (field : StdString) (hfield : field ∈ recordFields format record) : NoLineBreak field :=
    (recordFields_plain format h field hfield).2
  rw [formatRecord_fields]
  constructor
  · simpa using ⟨fun field hfield => (hfields field hfield).1, h.message.1⟩
  · simpa using ⟨fun field hfield => (hfields field hfield).2, h.message.2⟩

/-- The rows of a file are its records. -/
theorem getTimingEntries_file (format : TimingFormat) {records : List TimingRecord}
    (h : ∀ record ∈ records, PlainCircumstances record.circumstances) :
    getTimingEntries false format.float (timingFile format.fixed records) =
      ((records.map format.row).foldlM (nextRow false) ([], {})).map Prod.fst := by
  have hlines : timingFile format.fixed records =
      (records.map (formatRecord format.fixed)).flatMap (· ++ [10]) := by
    rw [timingFile, List.flatMap_map]
  have hbreaks : ∀ line ∈ records.map (formatRecord format.fixed), NoLineBreak line := by
    rw [List.forall_mem_map]
    exact fun record hrecord => noLineBreak_formatRecord format (h record hrecord)
  apply getTimingEntries_rows
  rw [csvRows, hlines, textLines_lines hbreaks, Fallible.mapM_eq_ok, List.map_map, List.forall₂_map_left_iff,
    List.forall₂_map_right_iff, List.forall₂_same]
  exact fun record hrecord => extractTimingRecordRow_line format (h record hrecord)

/-! ### From rows to delays -/

namespace DataSet

/-- The timing of a row before any prediction is given to it. -/
def unmatched (row : DataRow) : PredictionTiming := { simTime := row.simTime, endTime := row.endTime }

def setNext (row : DataRow) (timing : PredictionTiming) : PredictionTiming :=
  { timing with nextSimTime := some row.simTime, nextRegTime := some row.regTime }

/-- The loop without indices, on the triggered rows only. -/
def matchLast (triggered : List PredictionTiming) (row : DataRow) : List PredictionTiming :=
  (if row.predicted then triggered.modify (triggered.length - 1) (setNext row) else triggered) ++
    if row.triggered then [unmatched row] else []

/-- The timings of the triggered rows. -/
def selectTriggered (timings : List PredictionTiming) (rows : List DataRow) : List PredictionTiming :=
  (timings.zip (rows.map (·.triggered))).filterMap fun (timing, triggered) => if triggered then some timing else none

theorem selectTriggered_concat {timings : List PredictionTiming} {rows : List DataRow}
    (h : timings.length = rows.length) (timing : PredictionTiming) (row : DataRow) :
    selectTriggered (timings ++ [timing]) (rows ++ [row]) =
      selectTriggered timings rows ++ if row.triggered then [timing] else [] := by
  rw [selectTriggered, List.map_append, List.zip_append (by rw [h, List.length_map]), List.filterMap_append,
    selectTriggered]
  congr 1
  cases htriggered : row.triggered <;> simp [htriggered]

/-- The index in the loop points to the last triggered row. -/
def PointsToLast (timings : List PredictionTiming) (rows : List DataRow) : Option Nat → Prop
  | none => selectTriggered timings rows = []
  | some i => ∃ before timing after chosen, timings = before ++ timing :: after ∧ before.length = i ∧
      ∀ timing', selectTriggered (before ++ timing' :: after) rows = chosen ++ [timing']

theorem modify_append_length {α : Type} (before : List α) (x : α) (after : List α) (f : α → α) :
    (before ++ x :: after).modify before.length f = before ++ f x :: after := by
  rw [List.modify_eq_take_drop]
  simp

/-- The index still points to the last triggered row behind one that was not triggered. -/
theorem PointsToLast.skip {timings : List PredictionTiming} {rows : List DataRow} {last : Option Nat}
    (h : PointsToLast timings rows last) (hlength : timings.length = rows.length) {row : DataRow}
    (htriggered : row.triggered = false) : PointsToLast (timings ++ [unmatched row]) (rows ++ [row]) last := by
  cases last with
  | none =>
    have hnil : selectTriggered timings rows = [] := h
    rw [PointsToLast, selectTriggered_concat hlength, hnil, htriggered]
    rfl
  | some i =>
    obtain ⟨before, timing, after, chosen, rfl, hi, hchosen⟩ := h
    refine ⟨before, timing, after ++ [unmatched row], chosen, by simp, hi, fun timing' => ?_⟩
    have hlength' : (before ++ timing' :: after).length = rows.length := by
      rw [← hlength]
      simp
    have hconcat := selectTriggered_concat hlength' (unmatched row) row
    rw [htriggered, hchosen, List.append_assoc, List.cons_append] at hconcat
    simpa using hconcat

/-- The prediction is given to the last triggered row. The rows behind the current one are not
touched. -/
theorem matchPrediction_gives {timings : List PredictionTiming} {rows : List DataRow} {last : Option Nat}
    (hlength : timings.length = rows.length) (hlast : PointsToLast timings rows last) (row : DataRow) :
    ∃ given, (∀ others, (matchPrediction (timings ++ unmatched row :: others, last) (row, rows.length)).1 =
        given ++ unmatched row :: others) ∧ given.length = rows.length ∧
      selectTriggered given rows = (if row.predicted then (selectTriggered timings rows).modify
        ((selectTriggered timings rows).length - 1) (setNext row) else selectTriggered timings rows) ∧
      PointsToLast given rows last := by
  cases last with
  | none =>
    have hnil : selectTriggered timings rows = [] := hlast
    exact ⟨timings, fun _ => rfl, hlength, by rw [hnil]; simp, hlast⟩
  | some i =>
    cases hpredicted : row.predicted with
    | false => exact ⟨timings, fun _ => by simp [matchPrediction, hpredicted], hlength, rfl, hlast⟩
    | true =>
      obtain ⟨before, timing, after, chosen, rfl, rfl, hchosen⟩ := hlast
      refine ⟨before ++ setNext row timing :: after, fun others => ?_, ?_, ?_, before, _, after, chosen, rfl, rfl,
        hchosen⟩
      · simp only [matchPrediction, hpredicted, if_true]
        rw [List.append_assoc, List.cons_append, modify_append_length, List.append_assoc]
        rfl
      · rw [← hlength]
        simp
      · rw [hchosen, hchosen, if_pos rfl, List.length_append, List.length_singleton, Nat.add_sub_cancel,
          modify_append_length]

/-- One round of the loop. -/
theorem matchPrediction_concat {timings : List PredictionTiming} {rows : List DataRow} {last : Option Nat}
    (hlength : timings.length = rows.length) (hlast : PointsToLast timings rows last) (row : DataRow) :
    ∃ timings' last', (∀ others, matchPrediction (timings ++ unmatched row :: others, last) (row, rows.length) =
        (timings' ++ others, last')) ∧ timings'.length = (rows ++ [row]).length ∧
      selectTriggered timings' (rows ++ [row]) = matchLast (selectTriggered timings rows) row ∧
      PointsToLast timings' (rows ++ [row]) last' := by
  obtain ⟨given, hgiven, hlength', hselected, hpoints⟩ := matchPrediction_gives hlength hlast row
  refine ⟨given ++ [unmatched row], if row.triggered then some rows.length else last, fun others => ?_,
    by simp [hlength'], ?_, ?_⟩
  · rw [List.append_assoc, List.singleton_append, ← hgiven]
    rfl
  · rw [selectTriggered_concat hlength', hselected]
    rfl
  · cases htriggered : row.triggered with
    | true =>
      -- From now on this row is the last one.
      refine ⟨given, unmatched row, [], selectTriggered given rows, rfl, hlength', fun timing' => ?_⟩
      rw [selectTriggered_concat hlength', htriggered, if_pos rfl]
    | false => exact hpoints.skip hlength' htriggered

/-- The whole loop. -/
theorem matchPrediction_loop (rows : List DataRow) :
    (rows.zipIdx.foldl matchPrediction (rows.map unmatched, none)).1.length = rows.length ∧
    selectTriggered (rows.zipIdx.foldl matchPrediction (rows.map unmatched, none)).1 rows =
      rows.foldl matchLast [] := by
  have hloop (done : List DataRow) : ∃ timings last, (∀ todo : List DataRow,
      done.zipIdx.foldl matchPrediction ((done ++ todo).map unmatched, none) =
        (timings ++ todo.map unmatched, last)) ∧ timings.length = done.length ∧
      selectTriggered timings done = done.foldl matchLast [] ∧ PointsToLast timings done last := by
    induction done using List.reverseRecOn with
    | nil => exact ⟨[], none, fun _ => rfl, rfl, rfl, rfl⟩
    | append_singleton done row ih =>
      obtain ⟨timings, last, hfold, hlength, hselected, hpoints⟩ := ih
      obtain ⟨timings', last', hround, hlength', hselected', hpoints'⟩ := matchPrediction_concat hlength hpoints row
      refine ⟨timings', last', fun todo => ?_, hlength', ?_, hpoints'⟩
      · have hbefore := hfold (row :: todo)
        rw [List.append_assoc, List.singleton_append, List.zipIdx_append, List.foldl_append, hbefore, List.map_cons,
          List.zipIdx_singleton, List.foldl_cons, List.foldl_nil, Nat.zero_add]
        exact hround _
      · rw [hselected', hselected, List.foldl_append]
        rfl
  obtain ⟨timings, last, hfold, hlength, hselected, -⟩ := hloop rows
  have hall := hfold []
  rw [List.append_nil, List.map_nil, List.append_nil] at hall
  rw [hall]
  exact ⟨hlength, hselected⟩

theorem getFilteredArray_all {α : Type} (ds : DataSet) {data : List α} (h : data.length = ds.rows.length) :
    ds.getFilteredArray filterIncludeAll data = data := by
  obtain ⟨rows⟩ := ds
  rw [getFilteredArray, filterIncludeAll]
  dsimp only at h ⊢
  induction data generalizing rows with
  | nil => rfl
  | cons item data ih =>
    cases rows with
    | nil => cases h
    | cons row rows =>
      have hrest := ih rows (Nat.succ.inj h)
      simp only [List.map_cons, List.zip_cons_cons, List.filterMap_cons, if_true, hrest]

theorem selectTriggered_map (f : PredictionTiming → PredictionTiming) (timings : List PredictionTiming)
    (rows : List DataRow) : selectTriggered (timings.map f) rows = (selectTriggered timings rows).map f := by
  rw [selectTriggered, selectTriggered, List.map_filterMap, List.zip_map_left, List.filterMap_map]
  apply List.filterMap_congr
  rintro ⟨timing, triggered⟩ -
  cases triggered <;> rfl

/-- The delay of a timing, if there is a prediction. -/
def delayOf (timing : PredictionTiming) : Option ℚ :=
  timing.nextRegTime.bind fun next => timing.endTime.map (next - ·)

/-- The timings of the triggered rows, with their delays. -/
theorem selectTriggered_getPredictionTiming (ds : DataSet) :
    ds.getPredictionTiming.length = ds.rows.length ∧ selectTriggered ds.getPredictionTiming ds.rows =
      (ds.rows.foldl matchLast []).map fun timing => { timing with duration := delayOf timing } := by
  obtain ⟨hlength, hselected⟩ := matchPrediction_loop ds.rows
  have htiming : ds.getPredictionTiming = (ds.rows.zipIdx.foldl matchPrediction (ds.rows.map unmatched, none)).1.map
      fun timing => { timing with duration := delayOf timing } := rfl
  rw [htiming, List.length_map, selectTriggered_map, hselected]
  exact ⟨hlength, rfl⟩

/-- The axis holds the delays of the triggered rows. -/
theorem axis_eq (ds : DataSet) :
    ds.getTriggeredPredictionDelayAxis filterIncludeAll =
      ⟨(ds.rows.foldl matchLast []).map (·.simTime), (ds.rows.foldl matchLast []).map delayOf⟩ := by
  obtain ⟨hlength, hchosen⟩ := ds.selectTriggered_getPredictionTiming
  have haxis : ds.getTriggeredPredictionDelayAxis filterIncludeAll =
      ⟨(selectTriggered ds.getPredictionTiming ds.rows).map (·.simTime),
        (selectTriggered ds.getPredictionTiming ds.rows).map (·.duration)⟩ := by
    rw [getTriggeredPredictionDelayAxis, getFilteredArray_all ds hlength,
      getFilteredArray_all ds (List.length_map _)]
    rfl
  rw [haxis, hchosen, List.map_map, List.map_map]
  rfl

/-- The rows that a mask marks. -/
def marked {α : Type} (mask : List Bool) (data : List α) : List α :=
  (data.zip mask).filterMap fun (item, taken) => if taken then some item else none

theorem marked_cons {α : Type} (taken : Bool) (mask : List Bool) (item : α) (data : List α) :
    marked (taken :: mask) (item :: data) = if taken then item :: marked mask data else marked mask data := by
  cases taken <;> rfl

/-- The data and their flags are filtered alike. -/
theorem marked_marked_sublist {α : Type} (mask flags : List Bool) (data : List α) :
    (marked (marked mask flags) (marked mask data)).Sublist (marked flags data) := by
  induction data generalizing mask flags with
  | nil => exact List.nil_sublist _
  | cons item data ih =>
    cases flags with
    | nil =>
      have hnone : marked mask ([] : List Bool) = [] := rfl
      rw [hnone, marked, List.zip_nil_right]
      exact List.nil_sublist _
    | cons flag flags =>
      cases mask with
      | nil => exact List.nil_sublist _
      | cons taken mask =>
        rw [marked_cons, marked_cons, marked_cons]
        cases taken with
        | false =>
          cases flag with
          | false => exact ih mask flags
          | true => exact (ih mask flags).cons item
        | true =>
          rw [if_pos rfl, if_pos rfl, marked_cons]
          cases flag with
          | false => exact ih mask flags
          | true => exact (ih mask flags).cons_cons item

/-- A filter leaves out some of the triggered rows. -/
theorem axis_sublist (ds : DataSet) (filter : Filter) :
    ((ds.getTriggeredPredictionDelayAxis filter).simulationTime.zip
      (ds.getTriggeredPredictionDelayAxis filter).delay).Sublist
        ((ds.rows.foldl matchLast []).map fun timing => (timing.simTime, delayOf timing)) := by
  have htaken := marked_marked_sublist (filter ds) (ds.rows.map (·.triggered)) ds.getPredictionTiming
  have hchosen : marked (ds.rows.map (·.triggered)) ds.getPredictionTiming =
      (ds.rows.foldl matchLast []).map fun timing => { timing with duration := delayOf timing } :=
    ds.selectTriggered_getPredictionTiming.2
  rw [hchosen] at htaken
  have hitems := htaken.map fun timing => (timing.simTime, timing.duration)
  rw [List.map_map, ← List.zip_map'] at hitems
  exact hitems

end DataSet
end FMITerminalBlock.Scripts
