import FMITerminalBlock.Library.Trimming
import FMITerminalBlock.Scripts.ClashingTimes
import FMITerminalBlock.Scripts.PredictionDelays
import FMITerminalBlock.Timing.RecordOrder

/-! The axes of a data set that show when events were registered and distributed. In the timing file of
a run they agree with each other and with the order in which the dispatcher has delivered the events. -/
namespace FMITerminalBlock.Scripts
open Base Timing EventLogger TimedEventQueue EventDispatcher TimingReader

/-! ### The axes -/

/-- Points of real time beside the simulation times they belong to. A missing number was never
initialised. -/
structure TimingAxis where
  timing : List (ℚ × Option ℚ)
  deriving DecidableEq

namespace TimingAxis

def getSimulationTimeData (axis : TimingAxis) : List ℚ := axis.timing.map (·.1)
def getDelay (axis : TimingAxis) : List (Option ℚ) := axis.timing.map fun (sim, real) => real.map (· - sim)

end TimingAxis

namespace DataSet

/-- The difference of two cells. -/
def difference (later earlier : Option ℚ) : Option ℚ := later.bind fun time => earlier.map (time - ·)

/-- Some columns of the triggered rows. The flags go through the same filter as the columns. -/
def triggeredArray {α : Type} (ds : DataSet) (filter : Filter) (columns : DataRow → α) : List α :=
  let selectedData := ds.getFilteredArray filter (ds.rows.map columns)
  let isTriggered := ds.getFilteredArray filter (ds.rows.map (·.triggered))
  marked isTriggered selectedData

def getRegistrationAxis (ds : DataSet) (filter : Filter) : TimingAxis :=
  ⟨ds.getFilteredArray filter (ds.rows.map fun row => (row.simTime, some row.regTime))⟩

def getBeginDistributionAxis (ds : DataSet) (filter : Filter) : TimingAxis :=
  ⟨ds.triggeredArray filter fun row => (row.simTime, row.bgnTime)⟩

def getEndDistributionAxis (ds : DataSet) (filter : Filter) : TimingAxis :=
  ⟨ds.triggeredArray filter fun row => (row.simTime, row.endTime)⟩

def getDistributionDelayAxis (ds : DataSet) (filter : Filter) : DelayAxis :=
  let selData := ds.triggeredArray filter fun row => (row.simTime, row.bgnTime, row.endTime)
  { simulationTime := selData.map (·.1), delay := selData.map fun (_, bgn, finish) => difference finish bgn }

def getWaitDelayAxis (ds : DataSet) (filter : Filter) : DelayAxis :=
  let selData := ds.triggeredArray filter fun row => (row.simTime, some row.regTime, row.bgnTime)
  { simulationTime := selData.map (·.1), delay := selData.map fun (_, reg, bgn) => difference bgn reg }

end DataSet

/-- The times of an event that was distributed. -/
structure Span where
  simTime : ℚ
  regTime : ℚ
  bgnTime : ℚ
  endTime : ℚ
  deriving DecidableEq

/-- The axes are columns of one table of distributions. Events that were registered and not distributed
are on the axis of the registrations only. -/
structure Columns (ds : DataSet) (filter : DataSet.Filter) (spans : List Span) : Prop where
  registration :
    (spans.map fun span => (span.simTime, some span.regTime)).Sublist (ds.getRegistrationAxis filter).timing
  begins : ds.getBeginDistributionAxis filter = ⟨spans.map fun span => (span.simTime, some span.bgnTime)⟩
  ends : ds.getEndDistributionAxis filter = ⟨spans.map fun span => (span.simTime, some span.endTime)⟩
  waits : ds.getWaitDelayAxis filter =
    ⟨spans.map (·.simTime), spans.map fun span => some (span.bgnTime - span.regTime)⟩
  distributes : ds.getDistributionDelayAxis filter =
    ⟨spans.map (·.simTime), spans.map fun span => some (span.endTime - span.bgnTime)⟩

namespace DataSet

theorem marked_map {α β : Type} (mask : List Bool) (data : List α) (f : α → β) :
    marked mask (data.map f) = (marked mask data).map f := by
  rw [marked, marked, List.map_filterMap, List.zip_map_left, List.filterMap_map]
  apply List.filterMap_congr
  rintro ⟨item, taken⟩ -
  cases taken <;> rfl

theorem marked_flags {α : Type} (data : List α) (flag : α → Bool) : marked (data.map flag) data = data.filter flag := by
  induction data with
  | nil => rfl
  | cons item data ih =>
    rw [List.map_cons, marked_cons, ih]
    cases hflag : flag item with
    | false => rw [List.filter_cons_of_neg (by simp [hflag]), if_neg Bool.false_ne_true]
    | true => rw [List.filter_cons_of_pos hflag, if_pos rfl]

theorem marked_sublist {α : Type} (mask : List Bool) (data : List α) : (marked mask data).Sublist data := by
  induction data generalizing mask with
  | nil => exact List.nil_sublist _
  | cons item data ih =>
    cases mask with
    | nil => exact List.nil_sublist _
    | cons taken mask =>
      rw [marked_cons]
      cases taken with
      | false => exact (ih mask).cons item
      | true => exact (ih mask).cons_cons item

/-- The rows that the axes of the distribution show. -/
def triggeredRows (ds : DataSet) (filter : Filter) : List DataRow :=
  marked (marked (filter ds) (ds.rows.map (·.triggered))) (marked (filter ds) ds.rows)

theorem triggeredArray_eq {α : Type} (ds : DataSet) (filter : Filter) (columns : DataRow → α) :
    ds.triggeredArray filter columns = (ds.triggeredRows filter).map columns := by
  have hcolumns : ds.getFilteredArray filter (ds.rows.map columns) = (marked (filter ds) ds.rows).map columns :=
    marked_map _ _ _
  rw [triggeredArray, hcolumns, marked_map]
  rfl

theorem triggeredRows_sublist (ds : DataSet) (filter : Filter) :
    (ds.triggeredRows filter).Sublist (ds.rows.filter (·.triggered)) := by
  have h := marked_marked_sublist (filter ds) (ds.rows.map (·.triggered)) ds.rows
  rwa [marked_flags] at h

theorem triggeredRows_all (ds : DataSet) : ds.triggeredRows filterIncludeAll = ds.rows.filter (·.triggered) := by
  have hrows : marked (filterIncludeAll ds) ds.rows = ds.rows := getFilteredArray_all ds rfl
  have hflags : marked (filterIncludeAll ds) (ds.rows.map (·.triggered)) = ds.rows.map (·.triggered) :=
    getFilteredArray_all ds (List.length_map _)
  rw [triggeredRows, hrows, hflags, marked_flags]

/-- The times of a triggered row. -/
def spanOf (row : DataRow) : Span := ⟨row.simTime, row.regTime, row.bgnTime.getD 0, row.endTime.getD 0⟩

/-- Both times of the distribution were written. -/
def HasTimes (row : DataRow) : Prop := row.bgnTime = some (spanOf row).bgnTime ∧ row.endTime = some (spanOf row).endTime

/-- The axes of a data set line up, whatever is filtered. -/
theorem columns_spans (ds : DataSet) (h : ∀ row ∈ ds.rows.filter (·.triggered), HasTimes row) (filter : Filter) :
    Columns ds filter ((ds.triggeredRows filter).map spanOf) := by
  have htimed : ∀ row ∈ ds.triggeredRows filter, HasTimes row :=
    fun row hrow => h row ((ds.triggeredRows_sublist filter).subset hrow)
  refine ⟨?_, ?_, ?_, ?_, ?_⟩
  · have hregistered : (ds.getRegistrationAxis filter).timing =
        (marked (filter ds) ds.rows).map fun row => (row.simTime, some row.regTime) := marked_map _ _ _
    rw [hregistered, List.map_map]
    exact (marked_sublist _ _).map _
  · rw [getBeginDistributionAxis, triggeredArray_eq, List.map_map]
    congr 1
    apply List.map_congr_left
    intro row hrow
    rw [(htimed row hrow).1]
    rfl
  · rw [getEndDistributionAxis, triggeredArray_eq, List.map_map]
    congr 1
    apply List.map_congr_left
    intro row hrow
    rw [(htimed row hrow).2]
    rfl
  · simp only [getWaitDelayAxis, triggeredArray_eq, List.map_map]
    congr 1
    apply List.map_congr_left
    intro row hrow
    simp only [Function.comp_apply, (htimed row hrow).1]
    rfl
  · simp only [getDistributionDelayAxis, triggeredArray_eq, List.map_map]
    congr 1
    apply List.map_congr_left
    intro row hrow
    simp only [Function.comp_apply, (htimed row hrow).1, (htimed row hrow).2]
    rfl

end DataSet

/-! ### The log of a run -/

variable {π ξ ε φ : Type} [Timed ε]

/-- The timing file of a run, with the event objects that it does not show. -/
def logOf (format : TimingFormat) (circumstances : Nat → Circumstances)
    (records : List (EventPtr ε × ProcessingStage)) : List LogRecord :=
  records.mapIdx fun i (ptr, stage) =>
    ⟨ptr.address, ⟨format.rounded (getTime ptr), format.rounded (circumstances i).recordTime, stage⟩⟩

variable {format : TimingFormat} {circumstances : Nat → Circumstances} {s : EventDispatcher π ε φ}

theorem logOf_concat (records : List (EventPtr ε × ProcessingStage)) (ptr : EventPtr ε) (stage : ProcessingStage) :
    logOf format circumstances (records ++ [(ptr, stage)]) = logOf format circumstances records ++ [⟨ptr.address,
      ⟨format.rounded (getTime ptr), format.rounded (circumstances records.length).recordTime, stage⟩⟩] := by
  rw [logOf, List.mapIdx_concat]
  rfl

theorem map_row_logOf (records : List (EventPtr ε × ProcessingStage)) :
    (logOf format circumstances records).map (·.row) = rowsOf format circumstances records := by
  induction records using List.reverseRecOn with
  | nil => rfl
  | append_singleton records record ih =>
    obtain ⟨ptr, stage⟩ := record
    rw [logOf_concat, List.map_append, ih, rowsOf_concat]
    rfl

/-- What a record of the log has from the event object alone. -/
def keyOf (rounded : ℚ → ℚ) (record : EventPtr ε × ProcessingStage) : Nat × ℚ × ProcessingStage :=
  (record.1.address, rounded (getTime record.1), record.2)

def TimingReader.LogRecord.key (record : LogRecord) : Nat × ℚ × ProcessingStage :=
  (record.event, record.row.tSim, record.row.action)

theorem map_key_logOf (records : List (EventPtr ε × ProcessingStage)) :
    (logOf format circumstances records).map LogRecord.key = records.map (keyOf format.rounded) := by
  induction records using List.reverseRecOn with
  | nil => rfl
  | append_singleton records record ih =>
    obtain ⟨ptr, stage⟩ := record
    rw [logOf_concat, List.map_append, ih, List.map_append]
    rfl

theorem action_ownRows (records : List (EventPtr ε × ProcessingStage)) (address : Nat) :
    (ownRows (logOf format circumstances records) address).map (·.action) = stagesOf records address := by
  induction records using List.reverseRecOn with
  | nil => rfl
  | append_singleton records record ih =>
    obtain ⟨ptr, stage⟩ := record
    rw [logOf_concat, ownRows_append, List.map_append, ih, stagesOf_append]
    congr 1
    by_cases haddress : ptr.address = address <;> simp [ownRows, stagesOf, haddress]

/-- The rows of an event object show its time. -/
theorem tSim_ownRows (h : RecordOrder s) {x : EventPtr ε × Bool} (hx : x ∈ s.created) :
    ∀ row ∈ ownRows (logOf format circumstances s.queue.records) x.1.address,
      row.tSim = format.rounded (getTime x.1) := by
  intro row hrow
  obtain ⟨record, hrecord, rfl⟩ := List.mem_map.mp hrow
  obtain ⟨hlog, hevent⟩ := List.mem_filter.mp hrecord
  obtain ⟨⟨ptr, stage⟩, hwritten, hkey⟩ := List.mem_map.mp (map_key_logOf s.queue.records ▸ List.mem_map_of_mem hlog)
  obtain ⟨predicted, hcreated⟩ := h.traced _ hwritten
  have haddress : ptr.address = x.1.address := (Prod.ext_iff.mp hkey).1.trans (of_decide_eq_true hevent)
  have hsame : (ptr, predicted) = x := List.inj_on_of_nodup_map h.ledger.created_nodup hcreated hx haddress
  rw [← hsame]
  exact (Prod.ext_iff.mp (Prod.ext_iff.mp hkey).2).1.symm

/-- An event that is completed has gone through all of its stages. -/
theorem lawful_completed {predicted : Bool} {stages : List ProcessingStage} (h : Lawful predicted stages)
    {stage : ProcessingStage} (hmem : stage ∈ stages) (hcompletes : completes stage = true) :
    (stage = .endOfDistribution ∧ stages = [registration predicted, .beginOfDistribution, .endOfDistribution]) ∨
    (stage = .outdated ∧ predicted = true ∧ stages = [.prediction, .outdated]) := by
  rcases h with h | ⟨rfl, h⟩
  · have hstages := List.mem_inits _ _ |>.mpr h
    simp only [List.inits, List.map_cons, List.map_nil, List.mem_cons, List.not_mem_nil, or_false] at hstages
    rcases hstages with rfl | rfl | rfl | rfl
    · cases hmem
    · cases predicted <;> cases List.mem_singleton.mp hmem <;> cases hcompletes
    · cases predicted <;> rcases List.mem_pair.mp hmem with rfl | rfl <;> cases hcompletes
    · refine .inl ⟨?_, rfl⟩
      cases predicted <;> simp only [registration, List.mem_cons, List.not_mem_nil, or_false] at hmem <;>
        rcases hmem with rfl | rfl | rfl <;> first | rfl | cases hcompletes
  · have hstages := List.mem_inits _ _ |>.mpr h
    simp only [List.inits, List.map_cons, List.map_nil, List.mem_cons, List.not_mem_nil, or_false] at hstages
    rcases hstages with rfl | rfl | rfl
    · cases hmem
    · cases List.mem_singleton.mp hmem
      cases hcompletes
    · rcases List.mem_pair.mp hmem with rfl | rfl
      · cases hcompletes
      · exact .inr ⟨rfl, rfl, rfl⟩

theorem lifeCycle_of_lawful {predicted : Bool} {rows : List TimingRow} (h : Lawful predicted (rows.map (·.action)))
    {tSim : ℚ} (htime : ∀ row ∈ rows, row.tSim = tSim) : LifeCycle rows := by
  cases rows with
  | nil => trivial
  | cons first rest =>
    have hstages : Lawful predicted (first.action :: rest.map (·.action)) := h
    refine ⟨?_, fun row hrow => ?_, ?_⟩
    · rcases hstages with h | ⟨-, h⟩
      · rw [(List.cons_prefix_cons.mp h).1]
        cases predicted <;> rfl
      · rw [(List.cons_prefix_cons.mp h).1]
        rfl
    · rw [htime row (List.mem_cons_of_mem _ hrow), htime first List.mem_cons_self]
    · rcases hstages with h | ⟨-, h⟩ <;>
      · have hrest := (List.mem_inits _ _).mpr (List.cons_prefix_cons.mp h).2
        simp only [List.inits, List.map_cons, List.map_nil, List.mem_cons, List.not_mem_nil, or_false] at hrest ⊢
        tauto

/-- The record of a log belongs to an event object that was created. -/
theorem exists_created (h : RecordOrder s) {record : LogRecord}
    (hrecord : record ∈ logOf format circumstances s.queue.records) : ∃ x ∈ s.created, x.1.address = record.event := by
  obtain ⟨⟨ptr, stage⟩, hwritten, hkey⟩ :=
    List.mem_map.mp (map_key_logOf s.queue.records ▸ List.mem_map_of_mem hrecord)
  obtain ⟨predicted, hcreated⟩ := h.traced _ hwritten
  exact ⟨_, hcreated, (Prod.ext_iff.mp hkey).1⟩

theorem lawful_ownRows (h : RecordOrder s) {x : EventPtr ε × Bool} (hx : x ∈ s.created) :
    Lawful x.2 ((ownRows (logOf format circumstances s.queue.records) x.1.address).map (·.action)) := by
  rw [action_ownRows]
  exact h.ledger.lawful x hx

/-- The log of every run is well-formed. -/
theorem wellFormed_logOf (h : RecordOrder s) : WellFormed (logOf format circumstances s.queue.records) := by
  intro record hrecord
  obtain ⟨x, hx, haddress⟩ := exists_created h hrecord
  rw [← haddress]
  exact lifeCycle_of_lawful (lawful_ownRows h hx) (tSim_ownRows h hx)

/-! ### The entries of a run -/

/-- What is yielded at a record, without its position. -/
def entryAt (log : List LogRecord) (record : LogRecord) : Option TimingEntry :=
  if completes record.row.action = true ∧ AloneInPeriod log record.row.tSim record.event then
    ownEntry (ownRows log record.event)
  else none

theorem expectedEntries_eq (log : List LogRecord) : expectedEntries log = log.filterMap (entryAt log) := by
  have hyield : yieldedAt log = fun i => (log[i]?).bind (entryAt log) := by
    funext i
    rw [yieldedAt]
    cases log[i]? <;> rfl
  calc expectedEntries log
    _ = (Trimming.pick log (List.range log.length)).filterMap (entryAt log) := by
      rw [expectedEntries, hyield, Trimming.pick, List.filterMap_filterMap]
    _ = log.filterMap (entryAt log) := by rw [Trimming.pick_range]

/-- The rows of an event at a record that completes it. -/
theorem ownRows_completed (h : RecordOrder s) {record : LogRecord}
    (hrecord : record ∈ logOf format circumstances s.queue.records) (hcompletes : completes record.row.action = true) :
    (record.row.action = .endOfDistribution ∧ ∃ registered begins ends,
      ownRows (logOf format circumstances s.queue.records) record.event = [registered, begins, ends] ∧
      begins.action = .beginOfDistribution ∧ ends.action = .endOfDistribution) ∨
    (record.row.action = .outdated ∧ ∃ registered outdates,
      ownRows (logOf format circumstances s.queue.records) record.event = [registered, outdates] ∧
      registered.action = .prediction ∧ outdates.action = .outdated) := by
  obtain ⟨x, hx, haddress⟩ := exists_created h hrecord
  have hlawful : Lawful x.2 ((ownRows (logOf format circumstances s.queue.records) x.1.address).map (·.action)) :=
    lawful_ownRows h hx
  rw [haddress] at hlawful
  have hown : record.row.action ∈
      (ownRows (logOf format circumstances s.queue.records) record.event).map (·.action) :=
    List.mem_map_of_mem (List.mem_map_of_mem (List.mem_filter.mpr ⟨hrecord, by simp⟩))
  rcases lawful_completed hlawful hown hcompletes with ⟨hend, hstages⟩ | ⟨houtdated, -, hstages⟩
  · obtain ⟨registered, rest, hrows, -, hrest⟩ := List.map_eq_cons_iff.mp hstages
    obtain ⟨begins, rest, rfl, hbegins, hrest⟩ := List.map_eq_cons_iff.mp hrest
    obtain ⟨ends, rfl, hends⟩ := List.map_eq_singleton_iff.mp hrest
    exact .inl ⟨hend, registered, begins, ends, hrows, hbegins, hends⟩
  · obtain ⟨registered, rest, hrows, hregistered, hrest⟩ := List.map_eq_cons_iff.mp hstages
    obtain ⟨outdates, rfl, houtdates⟩ := List.map_eq_singleton_iff.mp hrest
    exact .inr ⟨houtdated, registered, outdates, hrows, hregistered, houtdates⟩

/-- The data set accepts the entries of every run. -/
theorem complete_expectedEntries (h : RecordOrder s) :
    ∀ entry ∈ expectedEntries (logOf format circumstances s.queue.records), Complete entry := by
  intro entry hentry
  rw [expectedEntries_eq] at hentry
  obtain ⟨record, hrecord, hyielded⟩ := List.mem_filterMap.mp hentry
  rw [entryAt] at hyielded
  split at hyielded
  · rename_i hcompletes
    rcases ownRows_completed h hrecord hcompletes.1 with ⟨-, registered, begins, ends, hrows, hbegins, hends⟩ |
      ⟨-, registered, outdates, hrows, hregistered, houtdates⟩
    · rw [hrows] at hyielded
      cases hyielded
      simp [Complete, hbegins, hends]
    · rw [hrows] at hyielded
      cases hyielded
      simp [Complete, hregistered, houtdates]
  · cases hyielded

/-- The entry of an event that was distributed, if the reader could tell it from the others. -/
def distributedEntry (log : List LogRecord) (event : Nat) (tSim : ℚ) : Option TimingEntry :=
  if AloneInPeriod log tSim event then ownEntry (ownRows log event) else none

/-- The same at a record of the log, by its key. -/
def endEntry (log : List LogRecord) (key : Nat × ℚ × ProcessingStage) : Option TimingEntry :=
  if key.2.2 = .endOfDistribution then distributedEntry log key.1 key.2.1 else none

/-- Only the end of a distribution yields an entry that was triggered. -/
theorem entryAt_triggered (h : RecordOrder s) {record : LogRecord}
    (hrecord : record ∈ logOf format circumstances s.queue.records) :
    (entryAt (logOf format circumstances s.queue.records) record).filter (·.triggered) =
      endEntry (logOf format circumstances s.queue.records) record.key := by
  by_cases hcompletes : completes record.row.action = true
  · by_cases halone : AloneInPeriod (logOf format circumstances s.queue.records) record.row.tSim record.event
    · rcases ownRows_completed h hrecord hcompletes with ⟨hend, registered, begins, ends, hrows, hbegins, -⟩ |
        ⟨houtdated, registered, outdates, hrows, -, houtdates⟩
      · simp [entryAt, endEntry, distributedEntry, LogRecord.key, hend, completes, halone, hrows, ownEntry, hbegins]
      · simp [entryAt, endEntry, LogRecord.key, houtdated, completes, halone, hrows, ownEntry, houtdates]
    · simp [entryAt, endEntry, distributedEntry, LogRecord.key, halone]
  · have hnot : record.row.action ≠ .endOfDistribution := by
      intro hend
      rw [hend] at hcompletes
      exact hcompletes rfl
    simp [entryAt, endEntry, LogRecord.key, hcompletes, hnot]

/-- The triggered entries are those of the delivered events, in the order of their delivery. -/
theorem triggered_expectedEntries (h : RecordOrder s) :
    (expectedEntries (logOf format circumstances s.queue.records)).filter (·.triggered) =
      s.delivered.filterMap fun x => distributedEntry (logOf format circumstances s.queue.records) x.1.address
        (format.rounded (getTime x.1)) := by
  obtain ⟨begun, halternates, -⟩ := h.alternates
  have hends := List.filterMap_congr fun record hrecord =>
    @entryAt_triggered _ _ _ _ format circumstances s h record hrecord
  generalize hlog : logOf format circumstances s.queue.records = log at hends ⊢
  have hrecords : s.queue.records.filterMap (fun record => endEntry log (keyOf format.rounded record)) =
      (s.queue.records.filter (ofDistribution ·.2)).filterMap fun record =>
        endEntry log (keyOf format.rounded record) := by
    rw [List.filterMap_filter]
    apply List.filterMap_congr
    rintro ⟨ptr, stage⟩ -
    cases stage <;> rfl
  have hbegun : (begun.map (·.1, ProcessingStage.beginOfDistribution)).filterMap
      (fun record => endEntry log (keyOf format.rounded record)) = [] := by
    rw [List.filterMap_map, List.filterMap_eq_nil_iff]
    exact fun _ _ => rfl
  have hboth (x : EventPtr ε × Bool) :
      (bothRecords x).filterMap (fun record => endEntry log (keyOf format.rounded record)) =
        (distributedEntry log x.1.address (format.rounded (getTime x.1))).toList := by
    rw [bothRecords]
    cases hentry : distributedEntry log x.1.address (format.rounded (getTime x.1)) <;>
      simp [endEntry, keyOf, hentry]
  calc (expectedEntries log).filter (·.triggered)
    _ = (log.map LogRecord.key).filterMap (endEntry log) := by
      rw [expectedEntries_eq, List.filter_filterMap, hends, List.filterMap_map]
      rfl
    _ = s.queue.records.filterMap fun record => endEntry log (keyOf format.rounded record) := by
      rw [← hlog, map_key_logOf, List.filterMap_map]
      rfl
    _ = s.delivered.flatMap fun x => (distributedEntry log x.1.address (format.rounded (getTime x.1))).toList := by
      rw [hrecords, halternates, List.filterMap_append, hbegun, List.append_nil, List.filterMap_flatMap]
      simp only [hboth]
    _ = _ := (List.filterMap_eq_flatMap_toList _ _).symm

/-! ### The clock -/

/-- The stages that the dispatcher thread writes. An outdated event may be destroyed by any thread. -/
def byDispatcher : ProcessingStage → Bool
  | .prediction | .beginOfDistribution | .endOfDistribution => true
  | .realTimeGeneration | .outdated => false

/-- The clock is not set back between two records of the dispatcher thread or of one event. The time of a
record is taken before the lock, so the records of two threads need not be in the order of their times. -/
def SteadyClock (circumstances : Nat → Circumstances) (records : List (EventPtr ε × ProcessingStage)) : Prop :=
  ∀ i j a b, i < j → records[i]? = some a → records[j]? = some b →
    a.1.address = b.1.address ∨ (byDispatcher a.2 = true ∧ byDispatcher b.2 = true) →
    (circumstances i).recordTime ≤ (circumstances j).recordTime

/-- The same for the log. -/
theorem pairwise_logOf (hrounded : Monotone format.rounded) {records : List (EventPtr ε × ProcessingStage)}
    (hclock : SteadyClock circumstances records) :
    (logOf format circumstances records).Pairwise fun a b =>
      a.event = b.event ∨ (byDispatcher a.row.action = true ∧ byDispatcher b.row.action = true) →
        a.row.tReal ≤ b.row.tReal := by
  rw [List.pairwise_iff_getElem]
  intro i j hi hj hij
  simp only [logOf, List.getElem_mapIdx]
  intro hrelated
  apply hrounded
  exact hclock i j _ _ hij (List.getElem?_eq_getElem _) (List.getElem?_eq_getElem _) hrelated

theorem pairwise_ownRows {log : List LogRecord} (h : log.Pairwise fun a b =>
      a.event = b.event ∨ (byDispatcher a.row.action = true ∧ byDispatcher b.row.action = true) →
        a.row.tReal ≤ b.row.tReal) (event : Nat) :
    (ownRows log event).Pairwise (·.tReal ≤ ·.tReal) := by
  rw [ownRows, List.pairwise_map]
  apply (h.filter _).imp_of_mem
  intro a b ha hb hle
  have hevent {c : LogRecord} (hc : c ∈ log.filter (·.event = event)) : c.event = event :=
    of_decide_eq_true (List.mem_filter.mp hc).2
  exact hle (.inl ((hevent ha).trans (hevent hb).symm))

/-- The time at which an event has reached a stage. -/
def timeOf (log : List LogRecord) (key : Nat × ℚ × ProcessingStage) : Option ℚ :=
  ((ownRows log key.1).find? (·.action = key.2.2)).map (·.tReal)

theorem nodup_of_lawful {predicted : Bool} {stages : List ProcessingStage} (h : Lawful predicted stages) :
    stages.Nodup := by
  rcases h with h | ⟨-, h⟩
  · apply List.Nodup.sublist h.sublist
    cases predicted <;> decide
  · apply List.Nodup.sublist h.sublist
    decide

/-- No stage is reached twice, so a record is found by its key. -/
theorem timeOf_key (h : RecordOrder s) {record : LogRecord}
    (hrecord : record ∈ logOf format circumstances s.queue.records) :
    timeOf (logOf format circumstances s.queue.records) record.key = some record.row.tReal := by
  obtain ⟨x, hx, haddress⟩ := exists_created h hrecord
  have hnodup : ((ownRows (logOf format circumstances s.queue.records) x.1.address).map (·.action)).Nodup :=
    nodup_of_lawful (lawful_ownRows h hx)
  rw [haddress] at hnodup
  have hown : record.row ∈ ownRows (logOf format circumstances s.queue.records) record.event :=
    List.mem_map_of_mem (List.mem_filter.mpr ⟨hrecord, by simp⟩)
  obtain ⟨row, hfind⟩ : ∃ row, (ownRows (logOf format circumstances s.queue.records) record.event).find?
      (·.action = record.row.action) = some row := by
    rw [← Option.isSome_iff_exists, List.find?_isSome]
    exact ⟨record.row, hown, by simp⟩
  have haction : row.action = record.row.action := by simpa using List.find?_some hfind
  have hrow : row = record.row := List.inj_on_of_nodup_map hnodup (List.mem_of_find?_eq_some hfind) hown haction
  rw [timeOf, LogRecord.key, hfind, hrow]
  rfl

/-- The distributions do not overlap: they follow each other in real time as they do in the run. -/
theorem pairwise_delivered (h : RecordOrder s) (hrounded : Monotone format.rounded)
    (hclock : SteadyClock circumstances s.queue.records) :
    (s.delivered.flatMap fun x => (bothRecords x).map fun record =>
      timeOf (logOf format circumstances s.queue.records) (keyOf format.rounded record)).Pairwise
        fun earlier later => ∀ time ∈ earlier, ∀ time' ∈ later, time ≤ time' := by
  obtain ⟨begun, halternates, -⟩ := h.alternates
  have hlog : ((logOf format circumstances s.queue.records).filter (ofDistribution ·.row.action)).Pairwise
      (·.row.tReal ≤ ·.row.tReal) := by
    apply ((pairwise_logOf hrounded hclock).filter _).imp_of_mem
    intro a b ha hb hle
    have hdispatcher {c : LogRecord} (hc : ofDistribution c.row.action = true) : byDispatcher c.row.action = true := by
      cases hstage : c.row.action <;> rw [hstage] at hc <;> first | rfl | cases hc
    exact hle (.inr ⟨hdispatcher (List.mem_filter.mp ha).2, hdispatcher (List.mem_filter.mp hb).2⟩)
  have hkeys : ((logOf format circumstances s.queue.records).filter (ofDistribution ·.row.action)).map LogRecord.key =
      (s.queue.records.filter (ofDistribution ·.2)).map (keyOf format.rounded) := by
    have hkey : (logOf format circumstances s.queue.records).map LogRecord.key =
        s.queue.records.map (keyOf format.rounded) := map_key_logOf _
    have hall := congrArg (List.filter fun key => ofDistribution key.2.2) hkey
    rwa [List.filter_map, List.filter_map] at hall
  have htimes : ((((logOf format circumstances s.queue.records).filter (ofDistribution ·.row.action)).map
      LogRecord.key).map (timeOf (logOf format circumstances s.queue.records))).Pairwise
        fun earlier later => ∀ time ∈ earlier, ∀ time' ∈ later, time ≤ time' := by
    rw [List.pairwise_map, List.pairwise_map]
    apply hlog.imp_of_mem
    intro a b ha hb hle
    rw [timeOf_key h (List.mem_filter.mp ha).1, timeOf_key h (List.mem_filter.mp hb).1]
    rintro _ ⟨⟩ _ ⟨⟩
    exact hle
  rw [hkeys, halternates, List.map_map, List.map_append, List.map_flatMap] at htimes
  exact htimes.sublist (List.sublist_append_left _ _)

/-- The rows of an event that was delivered. -/
theorem ownRows_delivered (h : RecordOrder s) {x : EventPtr ε × Bool} (hx : x ∈ s.delivered) :
    ∃ registered begins ends,
      ownRows (logOf format circumstances s.queue.records) x.1.address = [registered, begins, ends] ∧
      registered.tSim = format.rounded (getTime x.1) ∧ registers registered.action = true ∧
      begins.action = .beginOfDistribution ∧ ends.action = .endOfDistribution := by
  obtain ⟨begun, halternates, -⟩ := h.alternates
  have hboth : (x.1, ProcessingStage.endOfDistribution) ∈ s.queue.records.filter (ofDistribution ·.2) := by
    rw [halternates]
    exact List.mem_append_left _ (List.mem_flatMap.mpr ⟨x, hx, by simp [bothRecords]⟩)
  have hwritten := (List.mem_filter.mp hboth).1
  have hkey : (logOf format circumstances s.queue.records).map LogRecord.key =
      s.queue.records.map (keyOf format.rounded) := map_key_logOf _
  obtain ⟨record, hrecord, hsame⟩ := List.mem_map.mp (hkey ▸ List.mem_map_of_mem hwritten)
  have hevent : record.event = x.1.address := (Prod.ext_iff.mp hsame).1
  have hend : record.row.action = .endOfDistribution := (Prod.ext_iff.mp (Prod.ext_iff.mp hsame).2).2
  have hlife : LifeCycle (ownRows (logOf format circumstances s.queue.records) x.1.address) :=
    (wellFormed_logOf h).lifeCycle _
  obtain ⟨predicted, hcreated⟩ := h.traced _ hwritten
  have htimes : ∀ row ∈ ownRows (logOf format circumstances s.queue.records) x.1.address,
      row.tSim = format.rounded (getTime x.1) :=
    @tSim_ownRows _ _ _ _ format circumstances s h (x.1, predicted) hcreated
  rcases ownRows_completed h hrecord (by rw [hend]; rfl) with ⟨-, registered, begins, ends, hrows, hstages⟩ |
    ⟨houtdated, -⟩
  · rw [hevent] at hrows
    rw [hrows] at hlife htimes
    exact ⟨registered, begins, ends, hrows, htimes registered List.mem_cons_self, hlife.1, hstages⟩
  · rw [hend] at houtdated
    cases houtdated

/-- The entry of an event that was delivered, with the times of its stages. -/
theorem distributedEntry_times (h : RecordOrder s) {x : EventPtr ε × Bool} (hx : x ∈ s.delivered)
    {entry : TimingEntry} (hentry : distributedEntry (logOf format circumstances s.queue.records) x.1.address
      (format.rounded (getTime x.1)) = some entry) :
    ∃ registered begins ends, ownRows (logOf format circumstances s.queue.records) x.1.address =
        [registered, begins, ends] ∧
      entry = ⟨format.rounded (getTime x.1), registered.tReal, registered.action = .prediction, true,
        some begins.tReal, some ends.tReal⟩ ∧
      timeOf (logOf format circumstances s.queue.records) (keyOf format.rounded (x.1, .beginOfDistribution)) =
        some begins.tReal ∧
      timeOf (logOf format circumstances s.queue.records) (keyOf format.rounded (x.1, .endOfDistribution)) =
        some ends.tReal := by
  obtain ⟨registered, begins, ends, hrows, htime, hregisters, hbegins, hends⟩ := ownRows_delivered h hx
  have hfirst {stage : ProcessingStage} (hstage : registers stage = false) : registered.action ≠ stage := by
    rintro rfl
    rw [hregisters] at hstage
    cases hstage
  have hbegin : registered.action ≠ .beginOfDistribution := hfirst rfl
  have hend : registered.action ≠ .endOfDistribution := hfirst rfl
  rw [distributedEntry] at hentry
  split at hentry
  · rw [hrows] at hentry
    cases hentry
    refine ⟨registered, begins, ends, hrows, ?_, ?_, ?_⟩
    · simp [htime, hbegins, hends]
    · simp [timeOf, keyOf, hrows, hbegin, hbegins]
    · simp [timeOf, keyOf, hrows, hend, hbegins, hends]
  · cases hentry

/-! ### The axes of a run -/

/-- The spans of the delivered events that the reader could tell from the others. -/
def deliveredSpans (rounded : ℚ → ℚ) (log : List LogRecord) (delivered : List (EventPtr ε × Bool)) : List Span :=
  delivered.filterMap fun x =>
    (distributedEntry log x.1.address (rounded (getTime x.1))).map fun entry => DataSet.spanOf (rowOf entry)

theorem deliveredSpans_ordered (h : RecordOrder s) (hrounded : Monotone format.rounded)
    (hclock : SteadyClock circumstances s.queue.records) :
    (∀ span ∈ deliveredSpans format.rounded (logOf format circumstances s.queue.records) s.delivered,
      span.regTime ≤ span.bgnTime ∧ span.bgnTime ≤ span.endTime) ∧
    (deliveredSpans format.rounded (logOf format circumstances s.queue.records) s.delivered).Pairwise
      (·.endTime ≤ ·.bgnTime) := by
  obtain ⟨hown, hothers⟩ := List.pairwise_flatMap.mp (pairwise_delivered h hrounded hclock)
  refine ⟨fun span hspan => ?_, ?_⟩
  · obtain ⟨x, hx, hsome⟩ := List.mem_filterMap.mp hspan
    obtain ⟨entry, hentry, rfl⟩ := Option.map_eq_some_iff.mp hsome
    obtain ⟨registered, begins, ends, hrows, rfl, hbegin, hend⟩ := distributedEntry_times h hx hentry
    have hordered := pairwise_ownRows (pairwise_logOf hrounded hclock) x.1.address
    rw [hrows] at hordered
    have hle := hown x hx
    simp only [bothRecords, List.map_cons, List.map_nil, hbegin, hend] at hle
    exact ⟨List.rel_of_pairwise_cons hordered List.mem_cons_self,
      List.rel_of_pairwise_cons hle List.mem_cons_self begins.tReal rfl ends.tReal rfl⟩
  · rw [deliveredSpans, List.pairwise_filterMap]
    apply hothers.imp_of_mem
    intro x y hx hy hle span hspan span' hspan'
    obtain ⟨entry, hentry, rfl⟩ := Option.map_eq_some_iff.mp hspan
    obtain ⟨entry', hentry', rfl⟩ := Option.map_eq_some_iff.mp hspan'
    obtain ⟨-, -, ends, -, rfl, -, hend⟩ := distributedEntry_times h hx hentry
    obtain ⟨-, begins, -, -, rfl, hbegin, -⟩ := distributedEntry_times h hy hentry'
    exact hle (some ends.tReal) (by simp [bothRecords, hend]) (some begins.tReal) (by simp [bothRecords, hbegin])
      ends.tReal rfl begins.tReal rfl

theorem plain_timingRecords {records : List (EventPtr ε × ProcessingStage)}
    (h : ∀ i < records.length, PlainCircumstances (circumstances i)) :
    ∀ record ∈ timingRecords circumstances records, PlainCircumstances record.circumstances := by
  intro record hrecord
  obtain ⟨i, hi, rfl⟩ := List.mem_mapIdx.mp hrecord
  exact h i hi

/-- The timing file of a run is read to its end. -/
theorem loadDataSet_run (h : RecordOrder s)
    (hplain : ∀ i < s.queue.records.length, PlainCircumstances (circumstances i)) :
    loadDataSet format.float (timingFile format.fixed (timingRecords circumstances s.queue.records)) =
      .ok ⟨(expectedEntries (logOf format circumstances s.queue.records)).map rowOf⟩ := by
  obtain ⟨r, -, hread, -⟩ := read_wellFormed (logOf format circumstances s.queue.records) (wellFormed_logOf h)
  rw [map_row_logOf, rowsOf] at hread
  rw [loadDataSet, getTimingEntries_file format (plain_timingRecords hplain), hread]
  exact ofEntries_complete (complete_expectedEntries h)

/-- The triggered rows are those of the delivered events. -/
theorem triggeredRows_run (h : RecordOrder s) :
    ((expectedEntries (logOf format circumstances s.queue.records)).map rowOf).filter (·.triggered) =
      (s.delivered.filterMap fun x => distributedEntry (logOf format circumstances s.queue.records) x.1.address
        (format.rounded (getTime x.1))).map rowOf := by
  rw [← triggered_expectedEntries h, List.filter_map]
  rfl

theorem simTime_deliveredSpans (h : RecordOrder s) :
    (deliveredSpans format.rounded (logOf format circumstances s.queue.records) s.delivered).map (·.simTime) =
      (s.delivered.filter fun x => AloneInPeriod (logOf format circumstances s.queue.records)
        (format.rounded (getTime x.1)) x.1.address).map fun x => format.rounded (getTime x.1) := by
  rw [deliveredSpans, List.map_filterMap, ← List.filterMap_eq_map, List.filterMap_filter]
  apply List.filterMap_congr
  intro x hx
  obtain ⟨registered, begins, ends, hrows, htime, -⟩ := @ownRows_delivered _ _ _ _ format circumstances s h x hx
  by_cases halone : AloneInPeriod (logOf format circumstances s.queue.records) (format.rounded (getTime x.1))
      x.1.address
  · simp [distributedEntry, halone, hrows, ownEntry, DataSet.spanOf, rowOf, htime]
  · simp [distributedEntry, halone]

/-- The evaluation of a timing file agrees with the run that has written it. It is read without an error,
whichever events share their simulation times, and shows the events that could be told apart in the order
of their delivery. Whatever is filtered, the axes are columns of one table, and with a steady clock no
event is distributed before it is registered and the distributions follow each other without an overlap.
The descriptions of the events have no line break, stay below the field size limit of `csv.reader` and can
be decoded. -/
theorem axes_measure_distributions (format : TimingFormat) (circumstances : Nat → Circumstances)
    (sim : Simulation π ξ ε φ) (theEnd : ℚ) (predictor : π) (now : Int) (start : ℚ) (labels : List (Label ξ))
    (s : EventDispatcher π ε φ) (hrun : Reaches sim theEnd (init predictor now start) labels s)
    (hplain : ∀ i < s.queue.records.length, PlainCircumstances (circumstances i)) :
    ∃ ds, loadDataSet format.float (timingFile format.fixed (timingRecords circumstances s.queue.records)) = .ok ds ∧
      (ds.getBeginDistributionAxis DataSet.filterIncludeAll).getSimulationTimeData =
        (s.delivered.filter fun x => AloneInPeriod (logOf format circumstances s.queue.records)
          (format.rounded (getTime x.1)) x.1.address).map (fun x => format.rounded (getTime x.1)) ∧
      ∀ filter, ∃ spans, Columns ds filter spans ∧
        (Monotone format.rounded → SteadyClock circumstances s.queue.records →
          (∀ span ∈ spans, span.regTime ≤ span.bgnTime ∧ span.bgnTime ≤ span.endTime) ∧
          spans.Pairwise (·.endTime ≤ ·.bgnTime)) := by
  have h := hrun.recordOrder
  have hrows : ((expectedEntries (logOf format circumstances s.queue.records)).map rowOf).filter (·.triggered) =
      _ := triggeredRows_run h
  have htimes : ∀ row ∈ ((expectedEntries (logOf format circumstances s.queue.records)).map rowOf).filter
      (·.triggered), DataSet.HasTimes row := by
    intro row hrow
    rw [hrows] at hrow
    obtain ⟨entry, hentry, rfl⟩ := List.mem_map.mp hrow
    obtain ⟨x, hx, hsome⟩ := List.mem_filterMap.mp hentry
    obtain ⟨registered, begins, ends, -, rfl, -⟩ := distributedEntry_times h hx hsome
    exact ⟨rfl, rfl⟩
  have hspans : (((expectedEntries (logOf format circumstances s.queue.records)).map rowOf).filter
      (·.triggered)).map DataSet.spanOf =
        deliveredSpans format.rounded (logOf format circumstances s.queue.records) s.delivered := by
    rw [hrows, List.map_map, deliveredSpans, List.map_filterMap]
    rfl
  refine ⟨_, loadDataSet_run h hplain, ?_, fun filter => ⟨_, DataSet.columns_spans _ htimes filter, ?_⟩⟩
  · rw [(DataSet.columns_spans _ htimes _).begins, DataSet.triggeredRows_all, hspans, ← simTime_deliveredSpans h,
      TimingAxis.getSimulationTimeData, List.map_map]
    rfl
  · intro hrounded hclock
    obtain ⟨hown, hothers⟩ := deliveredSpans_ordered h hrounded hclock
    rw [← hspans] at hown hothers
    have hsublist := (DataSet.triggeredRows_sublist
      ⟨(expectedEntries (logOf format circumstances s.queue.records)).map rowOf⟩ filter).map DataSet.spanOf
    exact ⟨fun span hspan => hown span (hsublist.subset hspan), hothers.sublist hsublist⟩

/-- An external event and a prediction for time 2 meet, so the axis leaves out two of the four distributions. -/
theorem axes_measure_distributions_clash :
    ∃ (s : EventDispatcher ℚ ℚ Empty) (ds : DataSet), Reaches metronome 10 (init 0 0 0)
        [.predict, .addPrediction, .get 1000000, .beginDistribution, .distribute, .pushExternal 2, .addExternal 1,
          .predict, .addPrediction, .get 2000000, .beginDistribution, .distribute, .predict, .addPrediction,
          .get 3000000, .beginDistribution, .distribute, .predict, .addPrediction, .get 4000000, .beginDistribution,
          .distribute] s ∧
      loadDataSet wholeFormat.float (timingFile wholeFormat.fixed (timingRecords everySecond s.queue.records)) =
        .ok ds ∧
      (ds.getBeginDistributionAxis DataSet.filterIncludeAll).getSimulationTimeData = [1, 4] ∧
      ∃ spans, Columns ds DataSet.filterIncludePredicted spans ∧ spans.Pairwise (·.endTime ≤ ·.bgnTime) := by
  obtain ⟨s, hrun, hshown, hlength⟩ := LabelledRun.exec_of_any (step metronome 10) (init 0 0 0)
    [.predict, .addPrediction, .get 1000000, .beginDistribution, .distribute, .pushExternal 2, .addExternal 1,
      .predict, .addPrediction, .get 2000000, .beginDistribution, .distribute, .predict, .addPrediction,
      .get 3000000, .beginDistribution, .distribute, .predict, .addPrediction, .get 4000000, .beginDistribution,
      .distribute]
    (fun s => (s.delivered.filter fun x => AloneInPeriod (logOf wholeFormat everySecond s.queue.records)
        (wholeFormat.rounded (getTime x.1)) x.1.address).map (fun x => wholeFormat.rounded (getTime x.1)) = [1, 4] ∧
      s.queue.records.length < 20) (by decide +kernel)
  have hrounded : Monotone wholeFormat.rounded := fun _ _ hle => Int.cast_mono (Int.floor_mono hle)
  have hclock : SteadyClock everySecond s.queue.records :=
    fun _ _ _ _ hlater _ _ _ => Nat.cast_le.mpr hlater.le
  obtain ⟨ds, hload, htimes, hcolumns⟩ := axes_measure_distributions wholeFormat everySecond metronome 10 0 0 0 _ s
    hrun fun i hi => plain_everySecond i (hi.trans hlength)
  obtain ⟨spans, hspans, hordered⟩ := hcolumns DataSet.filterIncludePredicted
  exact ⟨s, ds, hrun, hload, htimes.trans hshown, spans, hspans, (hordered hrounded hclock).2⟩

end FMITerminalBlock.Scripts
