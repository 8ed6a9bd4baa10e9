import FMITerminalBlock.Library.Fallible
import FMITerminalBlock.Scripts.Reader
import FMITerminalBlock.Timing.EventLogger

/-! The scripts that read a timing file and collect the timing of its events. -/
namespace FMITerminalBlock.Scripts
open Base

inductive TimingError where
  | valueError (what : String)
  | assertionError
  | keyError
  | attributeError
  deriving DecidableEq

/-! ### Entries -/

/-- The times of one event. A time that is not set is an attribute that does not exist. -/
structure TimingEntry where
  simulationTime : ℚ
  registrationTime : ℚ
  isPredicted : Bool
  triggered : Bool := false
  beginDistributionTime : Option ℚ := none
  endDistributionTime : Option ℚ := none
  deriving DecidableEq

namespace TimingEntry

def setBeginDistributionTime (entry : TimingEntry) (time : ℚ) : TimingEntry :=
  { entry with triggered := true, beginDistributionTime := some time }

def setEndDistributionTime (entry : TimingEntry) (time : ℚ) : TimingEntry :=
  { entry with triggered := true, endDistributionTime := some time }

def isTriggered (entry : TimingEntry) : Except TimingError Bool :=
  if entry.triggered || entry.isPredicted then .ok entry.triggered else .error .assertionError

end TimingEntry

/-! ### The reader -/

/-- Both dictionaries of the generator, with the simulation time as their key. -/
structure TimingReader where
  openEvents : ℚ → Option TimingEntry := fun _ => none
  duplicates : ℚ → Option Nat := fun _ => none

namespace TimingReader

/-- The action codes of the file are those of the processing stages. -/
def action (code : StdString) : Option Timing.ProcessingStage :=
  [Timing.ProcessingStage.realTimeGeneration, .prediction, .endOfDistribution, .beginOfDistribution,
    .outdated].find? fun stage => DecimalText.decimal stage.code = code

structure TimingRow where
  tSim : ℚ
  tReal : ℚ
  action : Timing.ProcessingStage
  deriving DecidableEq

/-- The call `float(text)` is left open. -/
def extractTimingRecordRow (float : StdString → Except TimingError ℚ) (row : List StdString) :
    Except TimingError TimingRow :=
  match row with
  | _ :: _ :: _ :: _ :: sim :: code :: real :: _ :: _ => do
    let tSim ← float sim
    let tReal ← float real
    match action code with
    | some action => return { tSim, tReal, action }
    | none => throw (.valueError ("Invalid processing stage code '\x7b\x7d' found at \x7b\x7d " ++
        "for simulation time \x7b\x7d"))
  | _ => throw (.valueError ("A row in the timing file does not contain enough fields. " ++
      "Parsed \x7b\x7d of 8 fields in '\x7b\x7d'"))

/-- Two events with one simulation time cannot be told apart, so both of them are given up. -/
def addNewEvent (strict : Bool) (r : TimingReader) (tSim tReal : ℚ) (predicted : Bool) :
    Except TimingError TimingReader :=
  if (r.openEvents tSim).isSome || (r.duplicates tSim).isSome then
    if strict then .error (.valueError ("An event with the simulation time \x7b\x7d was already registered. " ++
      "Hence, the timing evaluation cannot differentiate between them. Since events currently do not have unique " ++
      "identifiers, the evaluation of the event cannot be finished. Please set strict mode to False to parse " ++
      "the file anyway."))
    else if (r.openEvents tSim).isSome then .ok {
      openEvents := Function.update r.openEvents tSim none
      duplicates := Function.update r.duplicates tSim (some 2) }
    else .ok { r with duplicates := Function.update r.duplicates tSim ((r.duplicates tSim).map (· + 1)) }
  else .ok { r with
    openEvents := Function.update r.openEvents tSim
      (some { simulationTime := tSim, registrationTime := tReal, isPredicted := predicted }) }

/-- The entry of an event that is finished, unless it was given up. -/
def finalizeEvent (r : TimingReader) (tSim : ℚ) : Except TimingError (Option TimingEntry × TimingReader) :=
  match r.openEvents tSim with
  | some entry => .ok (some entry, { r with openEvents := Function.update r.openEvents tSim none })
  | none =>
    match r.duplicates tSim with
    | none => .error .keyError
    | some n => .ok (none, { r with
        duplicates := Function.update r.duplicates tSim (if n - 1 ≤ 0 then none else some (n - 1)) })

/-- The change of an entry that is open. -/
def update (r : TimingReader) (tSim : ℚ) (change : TimingEntry → TimingEntry) : TimingReader :=
  { r with openEvents := Function.update r.openEvents tSim ((r.openEvents tSim).map change) }

/-- The body of the loop in `_get_timing_entries`, with the entry it yields. -/
def timingStep (strict : Bool) (r : TimingReader) (row : TimingRow) :
    Except TimingError (Option TimingEntry × TimingReader) :=
  match row.action with
  | .realTimeGeneration => (r.addNewEvent strict row.tSim row.tReal false).map (none, ·)
  | .prediction => (r.addNewEvent strict row.tSim row.tReal true).map (none, ·)
  | .beginOfDistribution => .ok (none, r.update row.tSim (·.setBeginDistributionTime row.tReal))
  | .endOfDistribution => (r.update row.tSim (·.setEndDistributionTime row.tReal)).finalizeEvent row.tSim
  | .outdated => r.finalizeEvent row.tSim

/-- The entries yielded so far and the reader behind one more row. -/
def nextRow (strict : Bool) (state : List TimingEntry × TimingReader) (row : TimingRow) :
    Except TimingError (List TimingEntry × TimingReader) :=
  (state.2.timingStep strict row).map fun (entry, r) => (state.1 ++ entry.toList, r)

/-- All entries of a file. It is taken to be decodable and to have no field beyond the limit of
`csv.reader`, so that the iteration over its rows is complete. -/
def getTimingEntries (strict : Bool) (float : StdString → Except TimingError ℚ) (text : StdString) :
    Except TimingError (List TimingEntry) := do
  let (entries, _) ← (csvRows text).foldlM (fun state fields => do
    nextRow strict state (← extractTimingRecordRow float fields)) ([], {})
  return entries

theorem foldlM_nextRow_concat (strict : Bool) (rows : List TimingRow) (row : TimingRow) :
    (rows ++ [row]).foldlM (nextRow strict) ([], {}) =
      rows.foldlM (nextRow strict) ([], {}) >>= fun state => nextRow strict state row := by
  rw [List.foldlM_append]
  congr 1
  funext state
  simp

/-- A file is read as the records it holds. -/
theorem getTimingEntries_rows (strict : Bool) {float : StdString → Except TimingError ℚ} {text : StdString}
    {rows : List TimingRow} (h : (csvRows text).mapM (extractTimingRecordRow float) = .ok rows) :
    getTimingEntries strict float text = (rows.foldlM (nextRow strict) ([], {})).map Prod.fst := by
  rw [getTimingEntries]
  have hfold (state : List TimingEntry × TimingReader) :
      ((csvRows text).foldlM (fun state fields => do
        nextRow strict state (← extractTimingRecordRow float fields)) state) = rows.foldlM (nextRow strict) state := by
    generalize csvRows text = lines at h ⊢
    have hall := Fallible.mapM_eq_ok.mp h
    clear h
    induction hall generalizing state with
    | nil => rfl
    | cons hrow _ ih =>
      rw [List.foldlM_cons, List.foldlM_cons, hrow]
      exact bind_congr ih
  rw [hfold]
  cases rows.foldlM (nextRow strict) ([], {}) with
  | error e => rfl
  | ok result => rfl

end TimingReader

/-! ### The data set -/

/-- One row of the arrays. The times of the distribution are not initialised for an event that was not
triggered. -/
structure DataRow where
  simTime : ℚ
  regTime : ℚ
  bgnTime : Option ℚ := none
  endTime : Option ℚ := none
  predicted : Bool
  triggered : Bool

structure DataSet where
  rows : List DataRow

/-- Delays with the simulation times they belong to. A missing number stands for `NaN`. -/
structure DelayAxis where
  simulationTime : List ℚ
  delay : List (Option ℚ)
  deriving DecidableEq

/-- The five columns of the prediction timing. -/
structure PredictionTiming where
  simTime : ℚ
  endTime : Option ℚ
  nextSimTime : Option ℚ := none
  nextRegTime : Option ℚ := none
  duration : Option ℚ := none

namespace DataSet

/-- The row of an entry. -/
def dataRow (entry : TimingEntry) : Except TimingError DataRow := do
  let triggered ← entry.isTriggered
  let row : DataRow := {
    simTime := entry.simulationTime
    regTime := entry.registrationTime
    predicted := entry.isPredicted
    triggered }
  if triggered then
    match entry.beginDistributionTime, entry.endDistributionTime with
    | some bgnTime, some endTime => return { row with bgnTime := some bgnTime, endTime := some endTime }
    | _, _ => throw .attributeError
  else return row

def ofEntries (entries : List TimingEntry) : Except TimingError DataSet := (entries.mapM dataRow).map DataSet.mk

/-- A filter marks the rows that are taken. -/
abbrev Filter := DataSet → List Bool

def filterIncludeAll : Filter := fun ds => ds.rows.map fun _ => true
def filterIncludePredicted : Filter := fun ds => ds.rows.map (·.predicted)
def filterIncludeExternal : Filter := fun ds => ds.rows.map fun row => !row.predicted

def getFilteredArray {α : Type} (ds : DataSet) (filter : Filter) (inputData : List α) : List α :=
  (inputData.zip (filter ds)).filterMap fun (item, taken) => if taken then some item else none

/-- The body of the loop in `_get_prediction_timing`: a prediction belongs to the last row that was
triggered. -/
def matchPrediction (state : List PredictionTiming × Option Nat) (item : DataRow × Nat) :
    List PredictionTiming × Option Nat :=
  let (row, i) := item
  let ret := match state.2 with
    | some lastTriggerIndex => if row.predicted then state.1.modify lastTriggerIndex fun timing =>
        { timing with nextSimTime := some row.simTime, nextRegTime := some row.regTime } else state.1
    | none => state.1
  (ret, if row.triggered then some i else state.2)

def getPredictionTiming (ds : DataSet) : List PredictionTiming :=
  let ret := ds.rows.map fun row => { simTime := row.simTime, endTime := row.endTime : PredictionTiming }
  let (ret, _) := ds.rows.zipIdx.foldl matchPrediction (ret, none)
  ret.map fun timing => { timing with
    duration := timing.nextRegTime.bind fun next => timing.endTime.map (next - ·) }

def getTriggeredPredictionDelayAxis (ds : DataSet) (filter : Filter) : DelayAxis :=
  let predictionTiming := ds.getFilteredArray filter ds.getPredictionTiming
  let isTriggered := ds.getFilteredArray filter (ds.rows.map (·.triggered))
  let selected := (predictionTiming.zip isTriggered).filterMap fun (timing, triggered) =>
    if triggered then some timing else none
  { simulationTime := selected.map (·.simTime), delay := selected.map (·.duration) }

end DataSet

/-- Loads a timing file. -/
def loadDataSet (float : StdString → Except TimingError ℚ) (text : StdString) : Except TimingError DataSet := do
  DataSet.ofEntries (← TimingReader.getTimingEntries false float text)

end FMITerminalBlock.Scripts
