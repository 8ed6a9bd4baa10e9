import FMITerminalBlock.Base.PropertyTree
import FMITerminalBlock.Timing.EventDispatcher

/-! The timing file: one line for every record, with the time of the event, the stage and the time of
the record. -/
namespace FMITerminalBlock.Timing
open Base

/-- What a record is given beside the event and its stage: the four fields of the wall clock, the
time since the epoch and the description of the event. -/
structure Circumstances where
  timeStamp : StdString × StdString × StdString × StdString
  recordTime : ℚ
  message : StdString

structure TimingRecord where
  eventTime : ℚ
  stage : ProcessingStage
  circumstances : Circumstances

namespace EventLogger

/-- The records of a run. Nothing is known about the clock, so every record may be made under any
circumstances. -/
def timingRecords {ε : Type} [Timed ε] (circumstances : Nat → Circumstances)
    (records : List (ε × ProcessingStage)) : List TimingRecord :=
  records.mapIdx fun i record => ⟨getTime record.1, record.2, circumstances i⟩

/-- The formatter of the sink. `fixed` prints a number with eight decimals. -/
def formatRecord (fixed : ℚ → StdString) (record : TimingRecord) : StdString :=
  let (weekday, hours, minutes, seconds) := record.circumstances.timeStamp
  [weekday, hours, minutes, seconds, fixed record.eventTime, DecimalText.decimal record.stage.code,
    fixed record.circumstances.recordTime].flatMap (· ++ [59]) ++ 34 :: record.circumstances.message ++ [34]

def timingFile (fixed : ℚ → StdString) (records : List TimingRecord) : StdString :=
  records.flatMap fun record => formatRecord fixed record ++ [10]

end EventLogger
end FMITerminalBlock.Timing
