import FMITerminalBlock.Scripts.TimingFile
import FMITerminalBlock.Scripts.TimingIdentity
import FMITerminalBlock.Timing.DispatcherCycle
import Mathlib.Data.List.TakeWhile

/-! Which prediction the delays in a timing file belong to. An event that is given up by the reader
leaves its place to the next one. -/
namespace FMITerminalBlock.Scripts
open Base Timing EventLogger TimedEventQueue EventDispatcher TimingReader

/-! ### The delays that are expected -/

/-- An event that was distributed: its time, the end of the distribution and the first prediction
that follows. -/
structure Distribution where
  simTime : ℚ
  endTime : ℚ
  next : Option ℚ
  deriving DecidableEq

def distributions : List TimingRow → List Distribution
  | [] => []
  | row :: rows =>
    if row.action = .endOfDistribution then
      ⟨row.tSim, row.tReal, (rows.find? (·.action = .prediction)).map (·.tReal)⟩ :: distributions rows
    else distributions rows

/-- A delay that is a number is the time from the end of the distribution to the next prediction. -/
def Belongs (d : Distribution) (item : ℚ × Option ℚ) : Prop :=
  item.1 = d.simTime ∧ ∀ delay ∈ item.2, ∃ next ∈ d.next, delay = next - d.endTime

/-- The entries of the axis stand for distributed events, in their order, and hold their delays. -/
def DelaysBelong (rows : List TimingRow) (axis : DelayAxis) : Prop :=
  ∃ kept, kept.Sublist (distributions rows) ∧ List.Forall₂ Belongs kept (axis.simulationTime.zip axis.delay)

/-- One more row may be the prediction that follows. -/
def Distribution.follow (row : TimingRow) (d : Distribution) : Distribution :=
  { d with next := d.next.or (if row.action = .prediction then some row.tReal else none) }

theorem distributions_concat (rows : List TimingRow) (row : TimingRow) :
    distributions (rows ++ [row]) = (distributions rows).map (·.follow row) ++
      if row.action = .endOfDistribution then [⟨row.tSim, row.tReal, none⟩] else [] := by
  induction rows with
  | nil => by_cases h : row.action = .endOfDistribution <;> simp [distributions, h]
  | cons first rows ih =>
    rw [List.cons_append, distributions, ih, distributions]
    split
    · rw [List.map_cons, List.cons_append, List.find?_append]
      congr 1
      rw [Distribution.follow, Option.map_or]
      congr 2
      by_cases h : row.action = .prediction <;> simp [h]
    · rfl

theorem map_follow_of_ne {row : TimingRow} (h : row.action ≠ .prediction) (ds : List Distribution) :
    ds.map (·.follow row) = ds := by
  have hsame (d : Distribution) : d.follow row = d := by rw [Distribution.follow, if_neg h, Option.or_none]
  rw [List.map_congr_left fun d _ => hsame d, List.map_id']

theorem distributions_end (rows : List TimingRow) (tSim tReal : ℚ) :
    distributions (rows ++ [⟨tSim, tReal, .endOfDistribution⟩]) = distributions rows ++ [⟨tSim, tReal, none⟩] := by
  have hend : ProcessingStage.endOfDistribution ≠ .prediction := by decide
  rw [distributions_concat, if_pos rfl, map_follow_of_ne hend]

/-- The other records do not matter. -/
theorem distributions_other (rows : List TimingRow) (tSim tReal : ℚ) (stage : ProcessingStage)
    (h : stage ≠ .prediction) (h' : stage ≠ .endOfDistribution) :
    distributions (rows ++ [⟨tSim, tReal, stage⟩]) = distributions rows := by
  rw [distributions_concat, if_neg h', List.append_nil, map_follow_of_ne h]

/-! ### The delays that are found -/

/-- The timing of a triggered event agrees with the expected one, as far as it is known. -/
structure Agrees (d : Distribution) (timing : PredictionTiming) : Prop where
  simTime : timing.simTime = d.simTime
  endTime : timing.endTime = some d.endTime
  next : ∀ time ∈ timing.nextRegTime, d.next = some time

theorem Agrees.belongs {d : Distribution} {timing : PredictionTiming} (h : Agrees d timing) :
    Belongs d (timing.simTime, DataSet.delayOf timing) := by
  refine ⟨h.simTime, fun delay hdelay => ?_⟩
  obtain ⟨next, hnext, hdelay⟩ := Option.bind_eq_some_iff.mp hdelay
  rw [h.endTime, Option.map_some] at hdelay
  cases hdelay
  exact ⟨next, h.next next hnext, rfl⟩

/-- What has been matched stays so. -/
theorem Agrees.follow {d : Distribution} {timing : PredictionTiming} (h : Agrees d timing) (row : TimingRow) :
    Agrees (d.follow row) timing := by
  refine ⟨h.simTime, h.endTime, fun time htime => ?_⟩
  rw [Distribution.follow, h.next time htime]
  rfl

/-- What is left out on one side is left out on the other side. -/
theorem exists_forall₂_of_sublist {α β : Type} {R : α → β → Prop} {as : List α} {bs bs' : List β}
    (h : List.Forall₂ R as bs) (hbs : bs'.Sublist bs) : ∃ as' : List α, as'.Sublist as ∧ List.Forall₂ R as' bs' := by
  induction hbs generalizing as with
  | slnil => exact ⟨[], List.nil_sublist _, .nil⟩
  | cons b _ ih =>
    obtain ⟨a, as, -, hrest, rfl⟩ := List.forall₂_cons_right_iff.mp h
    obtain ⟨as', hsublist, hall⟩ := ih hrest
    exact ⟨as', hsublist.cons a, hall⟩
  | cons_cons b _ ih =>
    obtain ⟨a, as, hfirst, hrest, rfl⟩ := List.forall₂_cons_right_iff.mp h
    obtain ⟨as', hsublist, hall⟩ := ih hrest
    exact ⟨a :: as', hsublist.cons_cons a, .cons hfirst hall⟩

/-- A prediction is given to the last triggered event. -/
theorem agrees_setNext {ds : List Distribution} {timings : List PredictionTiming}
    (h : List.Forall₂ Agrees ds timings) {row : DataRow} (hlast : ∀ d ∈ ds.getLast?, d.next = some row.regTime) :
    List.Forall₂ Agrees ds (timings.modify (timings.length - 1) (DataSet.setNext row)) := by
  induction h with
  | nil => exact .nil
  | @cons d timing ds timings hfirst hrest ih =>
    cases hrest with
    | nil =>
      refine .cons ⟨hfirst.simTime, hfirst.endTime, fun time htime => ?_⟩ .nil
      cases htime
      exact hlast d rfl
    | cons hsecond hothers => exact .cons hfirst (ih fun d hd => hlast d (by rwa [List.getLast?_cons_cons]))

/-- An entry that the data set accepts. -/
def Complete (entry : TimingEntry) : Prop :=
  if entry.triggered then entry.beginDistributionTime.isSome ∧ entry.endDistributionTime.isSome
  else entry.isPredicted = true ∧ entry.beginDistributionTime = none ∧ entry.endDistributionTime = none

def rowOf (entry : TimingEntry) : DataRow :=
  ⟨entry.simulationTime, entry.registrationTime, entry.beginDistributionTime, entry.endDistributionTime,
    entry.isPredicted, entry.triggered⟩

theorem Complete.dataRow {entry : TimingEntry} (h : Complete entry) : DataSet.dataRow entry = .ok (rowOf entry) := by
  obtain ⟨simTime, regTime, predicted, triggered, bgnTime, endTime⟩ := entry
  cases triggered with
  | true =>
    obtain ⟨hbegin, hend⟩ := h
    obtain ⟨_, rfl⟩ := Option.isSome_iff_exists.mp hbegin
    obtain ⟨_, rfl⟩ := Option.isSome_iff_exists.mp hend
    rfl
  | false =>
    obtain ⟨hpredicted, hbegin, hend⟩ := h
    cases hpredicted
    cases hbegin
    cases hend
    rfl

theorem ofEntries_complete {entries : List TimingEntry} (h : ∀ entry ∈ entries, Complete entry) :
    DataSet.ofEntries entries = .ok ⟨entries.map rowOf⟩ := by
  have hrows : entries.mapM DataSet.dataRow = .ok (entries.map rowOf) := by
    rw [Fallible.mapM_eq_ok, List.forall₂_map_right_iff, List.forall₂_same]
    exact fun entry hentry => (h entry hentry).dataRow
  rw [DataSet.ofEntries, hrows]
  rfl

/-- The timings of the triggered entries. -/
def matchedTimings (entries : List TimingEntry) : List PredictionTiming :=
  (entries.map rowOf).foldl DataSet.matchLast []

theorem matchedTimings_concat (entries : List TimingEntry) (entry : TimingEntry) :
    matchedTimings (entries ++ [entry]) = DataSet.matchLast (matchedTimings entries) (rowOf entry) := by
  rw [matchedTimings, List.map_append, List.foldl_append]
  rfl

/-! ### Events that share their time -/

variable {π ξ ε φ : Type}

def finishes : ProcessingStage → Bool
  | .endOfDistribution | .outdated => true
  | _ => false

/-- The event at `x` was distributed or destroyed before the one at `e` was registered. -/
def FinishedBefore (records : List (EventPtr ε × ProcessingStage)) (x e : Nat) : Prop :=
  ∃ record ∈ records.takeWhile (·.1.address ≠ e), record.1.address = x ∧ finishes record.2 = true

instance (records : List (EventPtr ε × ProcessingStage)) (x e : Nat) : Decidable (FinishedBefore records x e) :=
  inferInstanceAs (Decidable (∃ record ∈ List.takeWhile _ records, _))

theorem finishedBefore_append {records : List (EventPtr ε × ProcessingStage)} {e : Nat}
    (h : ∃ record ∈ records, record.1.address = e) (more : List (EventPtr ε × ProcessingStage)) (x : Nat) :
    FinishedBefore (records ++ more) x e ↔ FinishedBefore records x e := by
  have htake : (records ++ more).takeWhile (·.1.address ≠ e) = records.takeWhile (·.1.address ≠ e) := by
    rw [List.takeWhile_append, if_neg]
    intro hall
    obtain ⟨record, hrecord, rfl⟩ := h
    have hself := (List.takeWhile_prefix _).eq_of_length hall
    simpa using List.takeWhile_eq_self_iff.mp hself record hrecord
  rw [FinishedBefore, htake, FinishedBefore]

theorem finishedBefore_new {records : List (EventPtr ε × ProcessingStage)} {ptr : EventPtr ε}
    (hfresh : ∀ record ∈ records, record.1.address ≠ ptr.address) (stage : ProcessingStage) (x : Nat) :
    FinishedBefore (records ++ [(ptr, stage)]) x ptr.address ↔
      ∃ record ∈ records, record.1.address = x ∧ finishes record.2 = true := by
  rw [FinishedBefore, List.takeWhile_append_of_pos (fun record hrecord => by simpa using hfresh record hrecord),
    List.takeWhile_cons_of_neg (by simp), List.append_nil]

variable [Timed ε]

/-- Every other event with the same printed time was finished before this one was registered. -/
def Alone (rounded : ℚ → ℚ) (s : EventDispatcher π ε φ) (ptr : EventPtr ε) : Prop :=
  ∀ x ∈ s.created, x.1.address ≠ ptr.address → rounded (getTime x.1) = rounded (getTime ptr) →
    FinishedBefore s.queue.records x.1.address ptr.address

instance (rounded : ℚ → ℚ) (s : EventDispatcher π ε φ) (ptr : EventPtr ε) : Decidable (Alone rounded s ptr) :=
  inferInstanceAs (Decidable (∀ x ∈ s.created, _))

def DistributedAlone (rounded : ℚ → ℚ) (s : EventDispatcher π ε φ) : Label ξ → Prop
  | .distribute => ∀ entry ∈ inDistribution s.phase, Alone rounded s entry.1
  | _ => True

instance (rounded : ℚ → ℚ) (s : EventDispatcher π ε φ) : (l : Label ξ) → Decidable (DistributedAlone rounded s l)
  | .distribute => inferInstanceAs (Decidable (∀ entry ∈ inDistribution s.phase, _))
  | .pushExternal _ | .addExternal _ | .predict | .addPrediction | .get _ | .beginDistribution => isTrue trivial

variable {format : TimingFormat} {circumstances : Nat → Circumstances} {s t : EventDispatcher π ε φ}

/-- What is known of an event that the reader tracks. -/
structure Open (rounded : ℚ → ℚ) (s : EventDispatcher π ε φ) (o : Tracked) : Prop where
  created : ∃ x ∈ s.created, x.1.address = o.address ∧ rounded (getTime x.1) = o.entry.simulationTime
  registered : ∃ record ∈ s.queue.records, record.1.address = o.address
  unfinished : ∀ record ∈ s.queue.records, record.1.address = o.address → finishes record.2 = false
  clash : o.clashed = true → ∃ x ∈ s.created, x.1.address ≠ o.address ∧
    rounded (getTime x.1) = o.entry.simulationTime ∧ ¬ FinishedBefore s.queue.records x.1.address o.address

/-- An event that is distributed alone has not clashed. -/
theorem Open.not_clashed {rounded : ℚ → ℚ} {o : Tracked} (h : Open rounded s o) {ptr : EventPtr ε}
    (haddress : o.address = ptr.address) (htime : o.entry.simulationTime = rounded (getTime ptr))
    (halone : Alone rounded s ptr) : o.clashed = false := by
  by_contra hclashed
  rw [Bool.not_eq_false] at hclashed
  obtain ⟨x, hx, hne, hsame, hopen⟩ := h.clash hclashed
  rw [haddress] at hne hopen
  exact hopen (halone x hx hne (hsame.trans htime))

/-- One more record of another event, or one that does not finish this one. -/
theorem Open.concat {rounded : ℚ → ℚ} {o o' : Tracked} (h : Open rounded s o) {ptr : EventPtr ε}
    {stage : ProcessingStage} (hrecords : t.queue.records = s.queue.records ++ [(ptr, stage)])
    (hcreated : ∀ x ∈ s.created, x ∈ t.created) (hstage : ptr.address = o.address → finishes stage = false)
    (haddress : o'.address = o.address) (htime : o'.entry.simulationTime = o.entry.simulationTime)
    (hclash : o'.clashed = true → o.clashed = true ∨ ∃ x ∈ t.created, x.1.address ≠ o.address ∧
      rounded (getTime x.1) = o.entry.simulationTime ∧ ¬ FinishedBefore s.queue.records x.1.address o.address) :
    Open rounded t o' := by
  obtain ⟨x, hx, hxa, hxt⟩ := h.created
  obtain ⟨record, hrecord, hra⟩ := h.registered
  refine ⟨⟨x, hcreated x hx, hxa.trans haddress.symm, hxt.trans htime.symm⟩,
    ⟨record, by rw [hrecords]; exact List.mem_append_left _ hrecord, hra.trans haddress.symm⟩, ?_, ?_⟩
  · intro other hother hoa
    rw [haddress] at hoa
    rw [hrecords] at hother
    rcases List.mem_append.mp hother with hother | hother
    · exact h.unfinished other hother hoa
    · rw [List.mem_singleton.mp hother] at hoa ⊢
      exact hstage hoa
  · intro hclashed
    rw [haddress, htime, hrecords]
    simp only [finishedBefore_append h.registered]
    rcases hclash hclashed with hold | hnew
    · obtain ⟨y, hy, hne, hsame, hopen⟩ := h.clash hold
      exact ⟨y, hcreated y hy, hne, hsame, hopen⟩
    · exact hnew

/-! ### Following a run -/

def rowsOf (format : TimingFormat) (circumstances : Nat → Circumstances)
    (records : List (EventPtr ε × ProcessingStage)) : List TimingRow :=
  (timingRecords circumstances records).map format.row

theorem rowsOf_concat (format : TimingFormat) (circumstances : Nat → Circumstances)
    (records : List (EventPtr ε × ProcessingStage)) (ptr : EventPtr ε) (stage : ProcessingStage) :
    rowsOf format circumstances (records ++ [(ptr, stage)]) = rowsOf format circumstances records ++
      [⟨format.rounded (getTime ptr), format.rounded (circumstances records.length).recordTime, stage⟩] := by
  rw [rowsOf, timingRecords, List.mapIdx_concat, List.map_append]
  rfl

/-- The entry of an event that waits, and of one that is distributed. -/
def IsWaiting (rounded : ℚ → ℚ) (x : EventPtr ε × Bool) (o : Tracked) : Prop :=
  o.address = x.1.address ∧ ∃ tReg, o.entry = ⟨rounded (getTime x.1), tReg, x.2, false, none, none⟩

def IsDistributed (rounded : ℚ → ℚ) (x : EventPtr ε × Bool) (o : Tracked) : Prop :=
  o.address = x.1.address ∧ ∃ tReg tBegin, o.entry = ⟨rounded (getTime x.1), tReg, x.2, true, some tBegin, none⟩

/-- The prediction of the current cycle. -/
def predictionOf : Phase ε φ → Option (EventPtr ε)
  | .adding p | .getting p | .delivering p _ | .distributing p _ => some p
  | .predicting | .stopped | .failed _ => none

/-- The prediction of a cycle is the first one behind the last distribution. -/
structure CurrentIn (ds : List Distribution) (opened : List Tracked) (phase : Phase ε φ) : Prop where
  predicting : phase = .predicting → ∀ d ∈ ds.getLast?, d.next = none
  predicted : ∀ p ∈ predictionOf phase, ∀ o ∈ opened, o.address = p.address →
    ∀ d ∈ ds.getLast?, d.next = some o.entry.registrationTime

/-- The reader has followed the run up to a state. -/
structure Follows (format : TimingFormat) (circumstances : Nat → Circumstances) (s : EventDispatcher π ε φ)
    (entries : List TimingEntry) (r : TimingReader) (opened : List Tracked) : Prop where
  read : (rowsOf format circumstances s.queue.records).foldlM (nextRow false) ([], {}) = .ok (entries, r)
  simulates : Simulates opened r
  nodup : (opened.map (·.address)).Nodup
  isOpen : ∀ o ∈ opened, Open format.rounded s o
  waiting : ∀ x ∈ s.waiting, ∃ o ∈ opened, IsWaiting format.rounded x o
  distributed : ∀ x ∈ inDistribution s.phase, ∃ o ∈ opened, IsDistributed format.rounded x o
  complete : ∀ entry ∈ entries, Complete entry
  matched : List.Forall₂ Agrees (distributions (rowsOf format circumstances s.queue.records)) (matchedTimings entries)
  current : CurrentIn (distributions (rowsOf format circumstances s.queue.records)) opened s.phase

variable {entries : List TimingEntry} {r : TimingReader} {opened : List Tracked}

theorem read_concat {rows : List TimingRow} {row : TimingRow} {entry : Option TimingEntry} {r' : TimingReader}
    (h : rows.foldlM (nextRow false) ([], {}) = .ok (entries, r)) (hstep : r.timingStep false row = .ok (entry, r')) :
    (rows ++ [row]).foldlM (nextRow false) ([], {}) = .ok (entries ++ entry.toList, r') := by
  rw [foldlM_nextRow_concat, h]
  exact Fallible.bind_eq_ok.mpr ⟨_, rfl, Fallible.map_eq_ok.mpr ⟨_, hstep, rfl⟩⟩

omit [Timed ε] in
/-- Nothing is known of the predictions any more. -/
theorem currentIn_failed (ds : List Distribution) (opened : List Tracked) (fault : φ) :
    CurrentIn ds opened (.failed fault : Phase ε φ) := by
  refine ⟨fun hcontra => ?_, fun p hp => ?_⟩
  · cases hcontra
  · cases hp

/-- Without a new record, events only change their places. -/
theorem Follows.move (h : Follows format circumstances s entries r opened)
    (hrecords : t.queue.records = s.queue.records) (hcreated : t.created = s.created)
    (hwaiting : ∀ x ∈ t.waiting, x ∈ s.waiting)
    (hdistribution : ∀ x ∈ inDistribution t.phase, x ∈ inDistribution s.phase)
    (hcurrent : ∀ ds, CurrentIn ds opened s.phase → CurrentIn ds opened t.phase) :
    Follows format circumstances t entries r opened := by
  refine ⟨hrecords ▸ h.read, h.simulates, h.nodup, fun o ho => ?_, fun x hx => h.waiting x (hwaiting x hx),
    fun x hx => h.distributed x (hdistribution x hx), h.complete, hrecords ▸ h.matched, ?_⟩
  · have ho' := h.isOpen o ho
    exact ⟨hcreated ▸ ho'.created, hrecords ▸ ho'.registered, hrecords ▸ ho'.unfinished,
      hrecords ▸ hcreated ▸ ho'.clash⟩
  · rw [hrecords]
    exact hcurrent _ h.current

omit [Timed ε] in
theorem record_lt (h : Ledger s) : ∀ record ∈ s.queue.records, record.1.address < s.nextAddress := by
  intro record hrecord
  by_contra hle
  have hnone := h.fresh record.1.address (not_lt.mp hle)
  rw [stagesOf, List.filterMap_eq_nil_iff] at hnone
  simpa using hnone record hrecord

/-- A new event has been registered, by the predictor or by a subscriber. -/
structure Registers (s t : EventDispatcher π ε φ) (ptr : EventPtr ε) (predicted : Bool) : Prop where
  address : ptr.address = s.nextAddress
  records : t.queue.records = s.queue.records ++ [(ptr, registration predicted)]
  created : t.created.Perm ((ptr, predicted) :: s.created)
  waiting : t.waiting.Perm ((ptr, predicted) :: s.waiting)
  distribution : inDistribution t.phase = inDistribution s.phase
  phase : (predicted = false ∧ t.phase = s.phase) ∨
    (predicted = true ∧ s.phase = .predicting ∧ t.phase = .adding ptr)

section
variable {ptr : EventPtr ε} {predicted : Bool}

omit [Timed ε] in
theorem Registers.mem_created (hnew : Registers s t ptr predicted) :
    (ptr, predicted) ∈ t.created ∧ ∀ x ∈ s.created, x ∈ t.created :=
  ⟨hnew.created.symm.subset List.mem_cons_self, fun _ hx => hnew.created.symm.subset (List.mem_cons_of_mem _ hx)⟩

omit [Timed ε] in
theorem Registers.record_ne (hnew : Registers s t ptr predicted) (hledger : Ledger s) :
    ∀ record ∈ s.queue.records, record.1.address ≠ ptr.address := by
  intro record hrecord
  rw [hnew.address]
  exact (record_lt hledger record hrecord).ne

/-- Whatever the reader tracks is older than the new event. -/
theorem Follows.address_lt (h : Follows format circumstances s entries r opened) (hledger : Ledger s)
    (hnew : Registers s t ptr predicted) {o : Tracked} (ho : o ∈ opened) : o.address < ptr.address := by
  obtain ⟨x, hx, hxa, -⟩ := (h.isOpen o ho).created
  rw [← hxa, hnew.address]
  exact hledger.created_lt x hx

/-- A tracked event may clash with the new one, which is not finished before it. -/
theorem Follows.register_old (h : Follows format circumstances s entries r opened) (hledger : Ledger s)
    (hnew : Registers s t ptr predicted) {o o' : Tracked} (ho : o ∈ opened) (haddress : o'.address = o.address)
    (hentry : o'.entry = o.entry)
    (hclashed : o'.clashed = true → o.clashed = true ∨ o.entry.simulationTime = format.rounded (getTime ptr)) :
    Open format.rounded t o' := by
  have hlt := h.address_lt hledger hnew ho
  obtain ⟨hself, hold⟩ := hnew.mem_created
  refine (h.isOpen o ho).concat hnew.records hold (fun heq => absurd heq hlt.ne') haddress (by rw [hentry]) fun hc => ?_
  rcases hclashed hc with hc | hsame
  · exact .inl hc
  · -- The old event has been registered before the new one exists.
    refine .inr ⟨(ptr, predicted), hself, hlt.ne', hsame.symm, ?_⟩
    rintro ⟨record, hrecord, hra, -⟩
    exact hnew.record_ne hledger record ((List.takeWhile_sublist _).subset hrecord) hra

/-- The new event clashes as long as some event of the same time is open. -/
theorem Follows.register_new (h : Follows format circumstances s entries r opened) (hledger : Ledger s)
    (hnew : Registers s t ptr predicted) {o' : Tracked} (haddress : o'.address = ptr.address)
    (htime : o'.entry.simulationTime = format.rounded (getTime ptr))
    (hclashed : o'.clashed = true → group opened (format.rounded (getTime ptr)) ≠ []) :
    Open format.rounded t o' := by
  obtain ⟨hself, hold⟩ := hnew.mem_created
  refine ⟨⟨(ptr, predicted), hself, haddress.symm, htime.symm⟩,
    ⟨(ptr, registration predicted), by rw [hnew.records]; simp, haddress.symm⟩, ?_, fun hc => ?_⟩
  · intro record hrecord hra
    rw [haddress] at hra
    rw [hnew.records] at hrecord
    rcases List.mem_append.mp hrecord with hrecord | hrecord
    · exact absurd hra (hnew.record_ne hledger record hrecord)
    · rw [List.mem_singleton.mp hrecord]
      cases predicted <;> rfl
  · obtain ⟨o, ho⟩ := List.exists_mem_of_ne_nil _ (hclashed hc)
    obtain ⟨hmem, hsame⟩ := mem_group.mp ho
    obtain ⟨x, hx, hxa, hxt⟩ := (h.isOpen o hmem).created
    have hlt := h.address_lt hledger hnew hmem
    rw [haddress, htime]
    refine ⟨x, hold x hx, hxa ▸ hlt.ne, hxt.trans hsame, fun hfinished => ?_⟩
    rw [hnew.records, finishedBefore_new (hnew.record_ne hledger)] at hfinished
    obtain ⟨record, hrecord, hra, hfinishes⟩ := hfinished
    rw [(h.isOpen o hmem).unfinished record hrecord (hra.trans hxa)] at hfinishes
    cases hfinishes

/-- A prediction is the first one behind the last distribution. -/
theorem Follows.register_current (h : Follows format circumstances s entries r opened) (hledger : Ledger s)
    (hprediction : ∀ p ∈ predictionOf s.phase, p.address < s.nextAddress) (hnew : Registers s t ptr predicted)
    (tReal : ℚ) {entry : TimingEntry} (hentry : entry.registrationTime = tReal) :
    CurrentIn ((distributions (rowsOf format circumstances s.queue.records)).map
      (·.follow ⟨format.rounded (getTime ptr), tReal, registration predicted⟩))
      (register opened ptr.address entry) t.phase := by
  rcases hnew.phase with ⟨rfl, hphase⟩ | ⟨rfl, hphase, hphase'⟩
  · have hnone : registration false ≠ .prediction := by decide
    rw [map_follow_of_ne hnone, hphase]
    refine ⟨h.current.predicting, fun p hp o' ho' haddress' => ?_⟩
    rcases mem_register ho' with ⟨o, ho, haddress, hentry, -⟩ | rfl
    · rw [hentry]
      exact h.current.predicted p hp o ho (haddress.symm.trans haddress')
    · have hless := hprediction p hp
      rw [← haddress', ← hnew.address] at hless
      exact absurd hless (lt_irrefl _)
  · rw [hphase']
    refine ⟨fun hcontra => (by cases hcontra), fun p hp o' ho' haddress' d hd => ?_⟩
    cases hp
    rcases mem_register ho' with ⟨o, ho, haddress, -, -⟩ | rfl
    · exact absurd (haddress.symm.trans haddress') (h.address_lt hledger hnew ho).ne
    · rw [List.getLast?_map] at hd
      obtain ⟨d', hd', rfl⟩ := Option.map_eq_some_iff.mp hd
      rw [Distribution.follow, h.current.predicting hphase d' hd', hentry]
      rfl

/-- The reader follows a registration. -/
theorem Follows.register (h : Follows format circumstances s entries r opened) (hledger : Ledger s)
    (hprediction : ∀ p ∈ predictionOf s.phase, p.address < s.nextAddress) (ptr : EventPtr ε) (predicted : Bool)
    (hnew : Registers s t ptr predicted) : ∃ r' opened', Follows format circumstances t entries r' opened' := by
  obtain ⟨r', hstep, hr'⟩ := timingStep_register h.simulates ptr.address (format.rounded (getTime ptr))
    (format.rounded (circumstances s.queue.records.length).recordTime) predicted
  have hrows := rowsOf_concat format circumstances s.queue.records ptr (registration predicted)
  have hds : distributions (rowsOf format circumstances t.queue.records) =
      (distributions (rowsOf format circumstances s.queue.records)).map (·.follow ⟨format.rounded (getTime ptr),
        format.rounded (circumstances s.queue.records.length).recordTime, registration predicted⟩) := by
    have hother : registration predicted ≠ .endOfDistribution := by cases predicted <;> decide
    rw [hnew.records, hrows, distributions_concat, if_neg hother, List.append_nil]
  refine ⟨r', _, ?_, hr', ?_, ?_, ?_, ?_, h.complete, ?_, ?_⟩
  · rw [hnew.records, hrows, read_concat h.read hstep, Option.toList_none, List.append_nil]
  · rw [map_address_register, List.nodup_append_comm]
    refine List.nodup_cons.mpr ⟨fun hmem => ?_, h.nodup⟩
    obtain ⟨o, ho, heq⟩ := List.mem_map.mp hmem
    exact absurd heq (h.address_lt hledger hnew ho).ne
  · intro o' ho'
    rcases mem_register ho' with ⟨o, ho, haddress, hentry, hclashed⟩ | rfl
    · exact h.register_old hledger hnew ho haddress hentry hclashed
    · exact h.register_new hledger hnew rfl rfl fun hc => by simpa using hc
  · intro x hx
    rcases List.mem_cons.mp (hnew.waiting.subset hx) with rfl | hx
    · exact ⟨_, List.mem_append_right _ (List.mem_singleton_self _), rfl, _, rfl⟩
    · obtain ⟨o, ho, haddress, tReg, hentry⟩ := h.waiting x hx
      obtain ⟨o', ho', haddress', hentry'⟩ := exists_mem_register ho ptr.address _
      exact ⟨o', ho', haddress'.trans haddress, tReg, hentry'.trans hentry⟩
  · intro x hx
    rw [hnew.distribution] at hx
    obtain ⟨o, ho, haddress, tReg, tBegin, hentry⟩ := h.distributed x hx
    obtain ⟨o', ho', haddress', hentry'⟩ := exists_mem_register ho ptr.address _
    exact ⟨o', ho', haddress'.trans haddress, tReg, tBegin, hentry'.trans hentry⟩
  · rw [hds, List.forall₂_map_left_iff]
    exact h.matched.imp fun _ _ hagrees => hagrees.follow _
  · rw [hds]
    exact h.register_current hledger hprediction hnew _ rfl

end

omit [Timed ε] in
/-- An event that leaves the waiting ones has an address of its own. -/
theorem address_ne_of_perm (hledger : Ledger s) {x : EventPtr ε × Bool} {others : List (EventPtr ε × Bool)}
    (hperm : (x :: others).Perm (s.waiting ++ inDistribution s.phase)) :
    ∀ y ∈ others, y.1.address ≠ x.1.address := by
  have hnodup := (hperm.map (·.1.address)).nodup_iff.mpr hledger.nodup
  rw [List.map_cons, List.nodup_cons] at hnodup
  intro y hy heq
  exact hnodup.1 (heq ▸ List.mem_map_of_mem hy)

/-- Closing an event leaves the others as they are. -/
theorem Follows.close_isOpen (h : Follows format circumstances s entries r opened) {ptr : EventPtr ε}
    {stage : ProcessingStage} (hrecords : t.queue.records = s.queue.records ++ [(ptr, stage)])
    (hcreated : t.created = s.created) : ∀ o ∈ close opened ptr.address, Open format.rounded t o := by
  intro o ho
  obtain ⟨hmem, hne⟩ := mem_close.mp ho
  exact (h.isOpen o hmem).concat hrecords (fun x hx => hcreated ▸ hx) (fun heq => absurd heq.symm hne) rfl rfl .inl

theorem Follows.close_waiting (h : Follows format circumstances s entries r opened) {x : EventPtr ε × Bool}
    (hx : x ∈ s.waiting) {address : Nat} (hne : x.1.address ≠ address) :
    ∃ o ∈ close opened address, IsWaiting format.rounded x o := by
  obtain ⟨o, ho, haddress, hentry⟩ := h.waiting x hx
  exact ⟨o, mem_close.mpr ⟨ho, haddress ▸ hne⟩, haddress, hentry⟩

/-- The prediction of the cycle is destroyed. -/
theorem Follows.outdated (h : Follows format circumstances s entries r opened) (hledger : Ledger s)
    {p : EventPtr ε} (hp : p ∈ predictionOf s.phase) (hphase : t.phase = .getting p)
    (hrecords : t.queue.records = s.queue.records ++ [(p, .outdated)]) (hcreated : t.created = s.created)
    (hwaiting : (t.waiting ++ [(p, true)]).Perm s.waiting) :
    ∃ entries' r' opened', Follows format circumstances t entries' r' opened' := by
  obtain ⟨o, ho, haddress, tReg, hentry⟩ := h.waiting (p, true) (hwaiting.subset (by simp))
  obtain ⟨r', hstep, hr'⟩ := timingStep_outdated h.nodup ho h.simulates
    (format.rounded (circumstances s.queue.records.length).recordTime)
  have hsame : o.entry.simulationTime = format.rounded (getTime p) := by rw [hentry]
  have hrows := rowsOf_concat format circumstances s.queue.records p .outdated
  have hds : distributions (rowsOf format circumstances t.queue.records) =
      distributions (rowsOf format circumstances s.queue.records) := by
    rw [hrecords, hrows, distributions_other _ _ _ .outdated (by decide) (by decide)]
  have hother : ∀ x ∈ t.waiting, x.1.address ≠ p.address := by
    intro x hx
    have hperm : ((p, true) :: (t.waiting ++ inDistribution s.phase)).Perm (s.waiting ++ inDistribution s.phase) :=
      (List.perm_append_comm.trans hwaiting).append_right _
    exact address_ne_of_perm hledger hperm x (List.mem_append_left _ hx)
  rw [hsame] at hstep
  rw [haddress] at hr'
  refine ⟨entries ++ (if o.clashed then none else some o.entry).toList, r', close opened p.address,
    ?_, hr', ?_, h.close_isOpen hrecords hcreated, ?_, ?_, ?_, ?_, ?_⟩
  · rw [hrecords, hrows, read_concat h.read hstep]
  · exact h.nodup.sublist (List.filter_sublist.map _)
  · exact fun x hx => h.close_waiting (hwaiting.subset (List.mem_append_left _ hx)) (hother x hx)
  · intro x hx
    rw [hphase] at hx
    cases hx
  · intro entry hmem
    rcases List.mem_append.mp hmem with hmem | hmem
    · exact h.complete entry hmem
    · cases hc : o.clashed with
      | true => simp [hc] at hmem
      | false =>
        have hyielded : entry = o.entry := by simpa [hc] using hmem
        rw [hyielded, hentry]
        exact ⟨rfl, rfl, rfl⟩
  · rw [hds]
    cases hc : o.clashed with
    | true => simpa using h.matched
    | false =>
      have hrow : (rowOf o.entry).predicted = true ∧ (rowOf o.entry).triggered = false := by
        rw [hentry]
        exact ⟨rfl, rfl⟩
      rw [if_neg Bool.false_ne_true, Option.toList_some, matchedTimings_concat, DataSet.matchLast, hrow.1, hrow.2,
        if_pos rfl, if_neg Bool.false_ne_true, List.append_nil]
      exact agrees_setNext h.matched (h.current.predicted p hp o ho haddress)
  · rw [hds, hphase]
    refine ⟨fun hcontra => (by cases hcontra), fun q hq x hx hxa => ?_⟩
    cases hq
    exact absurd hxa (mem_close.mp hx).2

/-- The distribution of an event begins. -/
theorem Follows.begin (h : Follows format circumstances s entries r opened) (hledger : Ledger s) {p : EventPtr ε}
    {entry : EventPtr ε × Bool} (hphase : s.phase = .delivering p entry) (hphase' : t.phase = .distributing p entry)
    (hrecords : t.queue.records = s.queue.records ++ [(entry.1, .beginOfDistribution)])
    (hcreated : t.created = s.created) (hwaiting : (entry :: t.waiting).Perm s.waiting) :
    ∃ r' opened', Follows format circumstances t entries r' opened' := by
  obtain ⟨o, ho, haddress, tReg, hentry⟩ := h.waiting entry (hwaiting.subset List.mem_cons_self)
  obtain ⟨r', hstep, hr'⟩ := timingStep_begin h.nodup ho h.simulates
    (format.rounded (circumstances s.queue.records.length).recordTime)
  have hsame : o.entry.simulationTime = format.rounded (getTime entry.1) := by rw [hentry]
  have hrows := rowsOf_concat format circumstances s.queue.records entry.1 .beginOfDistribution
  have hds : distributions (rowsOf format circumstances t.queue.records) =
      distributions (rowsOf format circumstances s.queue.records) := by
    rw [hrecords, hrows, distributions_other _ _ _ .beginOfDistribution (by decide) (by decide)]
  have hother : ∀ x ∈ t.waiting, x.1.address ≠ entry.1.address := by
    intro x hx
    have hperm : (entry :: (t.waiting ++ inDistribution s.phase)).Perm (s.waiting ++ inDistribution s.phase) :=
      hwaiting.append_right _
    exact address_ne_of_perm hledger hperm x (List.mem_append_left _ hx)
  rw [hsame] at hstep
  refine ⟨r', _, ?_, hr', ?_, ?_, ?_, ?_, h.complete, hds ▸ h.matched, ?_⟩
  · rw [hrecords, hrows, read_concat h.read hstep, Option.toList_none, List.append_nil]
  · rw [map_address_change]
    exact h.nodup
  · intro x hx
    obtain ⟨y, hy, hya, hyc, hyentry⟩ := mem_change hx
    refine (h.isOpen y hy).concat hrecords (fun z hz => hcreated ▸ hz) (fun _ => rfl) hya ?_ fun hc => .inl (hyc ▸ hc)
    rw [hyentry]
    split <;> rfl
  · intro x hx
    obtain ⟨y, hy, hya, hyentry⟩ := h.waiting x (hwaiting.subset (List.mem_cons_of_mem _ hx))
    refine ⟨y, mem_change_of_ne hy ?_ _, hya, hyentry⟩
    rw [hya, haddress]
    exact hother x hx
  · intro x hx
    rw [hphase'] at hx
    cases List.mem_singleton.mp hx
    refine ⟨_, List.mem_map_of_mem ho, ?_⟩
    rw [if_pos rfl, hentry]
    exact ⟨haddress, tReg, _, rfl⟩
  · have hcurrent := h.current
    rw [hphase] at hcurrent
    rw [hds, hphase']
    refine ⟨fun hcontra => (by cases hcontra), fun q hq x hx hxa => ?_⟩
    cases hq
    obtain ⟨y, hy, hya, -, hyentry⟩ := mem_change hx
    have hreg : x.entry.registrationTime = y.entry.registrationTime := by
      rw [hyentry]
      split <;> rfl
    rw [hreg]
    exact hcurrent.predicted p rfl y hy (hya.symm.trans hxa)

/-- The distribution of an event that has not clashed ends. -/
theorem Follows.finish (h : Follows format circumstances s entries r opened) (hledger : Ledger s) {p : EventPtr ε}
    {entry : EventPtr ε × Bool} (hphase : s.phase = .distributing p entry)
    (hdeliverable : Deliverable p entry) (halone : Alone format.rounded s entry.1)
    (hphase' : t.phase = .predicting ∨ t.phase = .stopped)
    (hrecords : t.queue.records = s.queue.records ++ [(entry.1, .endOfDistribution)])
    (hcreated : t.created = s.created) (hwaiting : t.waiting = s.waiting) :
    ∃ entries' r' opened', Follows format circumstances t entries' r' opened' := by
  have hdistribution : inDistribution s.phase = [entry] := by rw [hphase]; rfl
  obtain ⟨o, ho, haddress, tReg, tBegin, hentry⟩ := h.distributed entry (by rw [hdistribution]; simp)
  have hsame : o.entry.simulationTime = format.rounded (getTime entry.1) := by rw [hentry]
  have hclashed := (h.isOpen o ho).not_clashed haddress hsame halone
  obtain ⟨r', hstep, hr'⟩ := timingStep_end h.nodup ho h.simulates
    (format.rounded (circumstances s.queue.records.length).recordTime)
  rw [hclashed, hsame, if_neg Bool.false_ne_true, hentry] at hstep
  rw [haddress] at hr'
  have hrows := rowsOf_concat format circumstances s.queue.records entry.1 .endOfDistribution
  have hds : distributions (rowsOf format circumstances t.queue.records) =
      distributions (rowsOf format circumstances s.queue.records) ++ [⟨format.rounded (getTime entry.1),
        format.rounded (circumstances s.queue.records.length).recordTime, none⟩] := by
    rw [hrecords, hrows, distributions_end]
  have hother : ∀ x ∈ s.waiting, x.1.address ≠ entry.1.address := by
    apply address_ne_of_perm hledger
    rw [hdistribution]
    exact (List.perm_append_singleton entry s.waiting).symm
  refine ⟨entries ++ [⟨format.rounded (getTime entry.1), tReg, entry.2, true, some tBegin,
      some (format.rounded (circumstances s.queue.records.length).recordTime)⟩],
    r', close opened entry.1.address, ?_, hr', ?_, h.close_isOpen hrecords hcreated, ?_, ?_, ?_, ?_, ?_⟩
  · rw [hrecords, hrows]
    exact read_concat h.read hstep
  · exact h.nodup.sublist (List.filter_sublist.map _)
  · intro x hx
    rw [hwaiting] at hx
    exact h.close_waiting hx (hother x hx)
  · intro x hx
    rcases hphase' with hp | hp <;> rw [hp] at hx <;> cases hx
  · intro other hmem
    rcases List.mem_append.mp hmem with hmem | hmem
    · exact h.complete other hmem
    · rw [List.mem_singleton.mp hmem]
      exact ⟨rfl, rfl⟩
  · rw [hds, matchedTimings_concat]
    refine List.rel_append ?_ (.cons ⟨rfl, rfl, fun _ hnone => by cases hnone⟩ .nil)
    dsimp only [rowOf]
    cases hpredicted : entry.2 with
    | false => exact h.matched
    | true =>
      -- Only the prediction of the cycle itself can be delivered as a prediction.
      have hp : entry = (p, true) := by
        rcases hdeliverable with hp | ⟨hexternal, -⟩
        · exact hp
        · rw [hpredicted] at hexternal
          cases hexternal
      have hcurrent := h.current.predicted p (by rw [hphase]; rfl) o ho (by rw [haddress, hp])
      rw [hentry] at hcurrent
      exact agrees_setNext h.matched hcurrent
  · rw [hds]
    refine ⟨fun _ d hd => ?_, fun q hq => ?_⟩
    · rw [List.getLast?_concat] at hd
      cases hd
      rfl
    · rcases hphase' with hp | hp <;> rw [hp] at hq <;> cases hq

/-- An event is added, and the prediction of the cycle may be destroyed by that. -/
theorem Follows.add (h : Follows format circumstances s entries r opened) (hledger : Ledger s)
    {dropped : List (EventPtr ε)} (hdropped : t.queue.records = s.queue.records ++ dropped.map (·, .outdated))
    (hwaiting : (t.waiting ++ dropped.map (·, true)).Perm s.waiting) (hcreated : t.created = s.created)
    (hdistribution : inDistribution t.phase = inDistribution s.phase)
    (hphase : t.phase = .predicting → s.phase = .predicting) (hprediction : predictionOf t.phase = predictionOf s.phase)
    (hrecords : t.queue.records = s.queue.records ∨ ∃ p, t.phase = .getting p ∧
      t.queue.records = s.queue.records ++ [(p, .outdated)]) :
    ∃ entries' r' opened', Follows format circumstances t entries' r' opened' := by
  rcases hrecords with hrecords | ⟨p, hgetting, hrecords⟩
  · have hnone : dropped = [] := by
      rw [hrecords, List.self_eq_append_right, List.map_eq_nil_iff] at hdropped
      exact hdropped
    rw [hnone, List.map_nil, List.append_nil] at hwaiting
    refine ⟨entries, r, opened, h.move hrecords hcreated (fun x hx => hwaiting.subset hx) ?_ ?_⟩
    · exact fun x hx => hdistribution ▸ hx
    · exact fun ds hcurrent => ⟨fun hp => hcurrent.predicting (hphase hp), hprediction ▸ hcurrent.predicted⟩
  · have hone : dropped = [p] := by
      rw [hrecords, List.append_cancel_left_eq] at hdropped
      obtain ⟨q, rfl, hq⟩ := List.map_eq_singleton_iff.mp hdropped.symm
      cases hq
      rfl
    subst hone
    apply h.outdated hledger _ hgetting hrecords hcreated hwaiting
    rw [← hprediction, hgetting]
    rfl

omit [Timed ε] in
theorem prediction_lt (hledger : Ledger s) (hnumber : CycleNumbering s) :
    ∀ p ∈ predictionOf s.phase, p.address < s.nextAddress := by
  intro p hp
  have hphase := hnumber.phase
  have hlast : ∃ earlier, s.predictions = earlier ++ [p] := by
    cases hs : s.phase with
    | adding q | getting q | delivering q _ | distributing q _ =>
      rw [hs] at hp hphase
      cases hp
      obtain ⟨earlier, hpredictions, -⟩ := hphase
      exact ⟨earlier, hpredictions⟩
    | predicting | stopped | failed _ =>
      rw [hs] at hp
      cases hp
  obtain ⟨earlier, hpredictions⟩ := hlast
  apply hledger.created_lt (p, true)
  rw [created, hpredictions]
  simp

/-- Every step of a run is followed, as long as events are distributed alone. -/
theorem follows_step {sim : Simulation π ξ ε φ} {theEnd : ℚ} {l : Label ξ} (hcycle : CycleInvariant s)
    (hledger : Ledger s) (hnumber : CycleNumbering s) (h : Follows format circumstances s entries r opened)
    (hl : DistributedAlone format.rounded s l) (hstep : Steps sim theEnd s l t) :
    ∃ entries' r' opened', Follows format circumstances t entries' r' opened' := by
  have hprediction := prediction_lt hledger hnumber
  cases hstep with
  | pushExternal ev =>
    refine ⟨entries, h.register hledger hprediction ⟨s.nextAddress, sim.external ev⟩ false
      ⟨rfl, rfl, ?_, ?_, rfl, .inl ⟨rfl, rfl⟩⟩⟩
    · simp [created]
    · simp [EventDispatcher.waiting]
  | addExternal address ptr found =>
    obtain ⟨dropped, hrecords, hwaiting⟩ := waiting_addExternal found
    exact h.add hledger hrecords hwaiting rfl rfl id rfl (queueInvariant_records hcycle.1 ptr)
  | predict ev predictor phase next =>
    refine ⟨entries, h.register hledger hprediction ⟨s.nextAddress, ev⟩ true
      ⟨rfl, rfl, ?_, ?_, ?_, .inr ⟨rfl, phase, rfl⟩⟩⟩
    · simp [created, ← List.append_assoc]
    · simp [EventDispatcher.waiting, held, phase]
    · simp [inDistribution, phase]
  | predictFault fault phase next =>
    refine ⟨entries, r, opened, h.move rfl rfl ?_ (List.forall_mem_nil _) fun ds _ => currentIn_failed ds opened fault⟩
    simp [EventDispatcher.waiting, held, phase]
  | addPrediction p phase =>
    obtain ⟨dropped, hrecords, hwaiting⟩ := waiting_addPrediction phase
    refine h.add hledger hrecords hwaiting rfl (by rw [phase]; rfl) (fun hcontra => by cases hcontra)
      (by rw [phase]; rfl) ?_
    have hqueue := hcycle.1
    rw [phase] at hqueue
    dsimp only
    rw [add_prediction_calm hqueue.1]
    split
    · exact .inr ⟨p, rfl, rfl⟩
    · exact .inl rfl
  | get now p entry rest phase front due =>
    refine ⟨entries, r, opened, h.move rfl rfl ?_ (List.forall_mem_nil _) fun ds hcurrent =>
      ⟨fun hcontra => (by cases hcontra), ?_⟩⟩
    · simp [EventDispatcher.waiting, held, phase, front]
    · rw [phase] at hcurrent
      exact hcurrent.predicted
  | beginDistribution p entry phase =>
    refine ⟨entries, h.begin hledger phase rfl rfl rfl ?_⟩
    simp only [EventDispatcher.waiting, held, phase, logEvent_queue, List.nil_append, List.singleton_append]
    exact List.perm_middle.symm
  | distribute p entry predictor phase done =>
    have hdeliverable := hcycle.1
    rw [phase] at hdeliverable
    have halone := hl entry (by rw [phase]; exact List.mem_singleton_self _)
    have hphase := finish_phase theEnd { s with predictor := predictor } entry
    refine h.finish hledger phase hdeliverable.2.2 halone hphase rfl rfl ?_
    rcases hphase with hp | hp <;> rw [EventDispatcher.waiting, EventDispatcher.waiting, hp, phase] <;> rfl
  | distributeFault p entry fault phase done =>
    refine ⟨entries, r, opened, h.move rfl rfl ?_ (List.forall_mem_nil _) fun ds _ => currentIn_failed ds opened fault⟩
    simp [EventDispatcher.waiting, held, phase]

theorem follows_init (format : TimingFormat) (circumstances : Nat → Circumstances) (predictor : π) (now : Int)
    (start : ℚ) : Follows format circumstances (init predictor now start : EventDispatcher π ε φ) [] {} [] := by
  refine ⟨rfl, simulates_nil, List.nodup_nil, List.forall_mem_nil _, ?_, List.forall_mem_nil _,
    List.forall_mem_nil _, .nil, ⟨?_, fun _ _ => List.forall_mem_nil _⟩⟩
  · simp [init, EventDispatcher.waiting, held, initStartTimeNow]
  · intro _ d hd
    cases hd

/-- In every run that distributes each event alone, the delays belong to the right predictions, whatever
is filtered, and every distributed event has its entry. The descriptions of the events stay below the field
size limit of `csv.reader` and can be decoded. -/
theorem prediction_delays_belong (format : TimingFormat) (circumstances : Nat → Circumstances)
    (sim : Simulation π ξ ε φ) (theEnd : ℚ) (predictor : π) (now : Int) (start : ℚ) (labels : List (Label ξ))
    (s : EventDispatcher π ε φ) (hrun : Reaches sim theEnd (init predictor now start) labels s)
    (halone : LabelledRun.Along (step sim theEnd) (fun s l _ => DistributedAlone format.rounded s l)
      (init predictor now start) labels)
    (hplain : ∀ i < s.queue.records.length, PlainCircumstances (circumstances i)) :
    ∃ ds, loadDataSet format.float (timingFile format.fixed (timingRecords circumstances s.queue.records)) = .ok ds ∧
      (∀ filter, DelaysBelong (rowsOf format circumstances s.queue.records)
        (ds.getTriggeredPredictionDelayAxis filter)) ∧
      (ds.getTriggeredPredictionDelayAxis DataSet.filterIncludeAll).delay.length =
        (distributions (rowsOf format circumstances s.queue.records)).length := by
  obtain ⟨-, -, -, entries, r, opened, hfollows⟩ : CycleInvariant s ∧ Ledger s ∧ CycleNumbering s ∧
      ∃ entries r opened, Follows format circumstances s entries r opened := by
    apply LabelledRun.along_invariant (fun s => CycleInvariant s ∧ Ledger s ∧ CycleNumbering s ∧
      ∃ entries r opened, Follows format circumstances s entries r opened) _ _ halone hrun
    · rintro u l t ⟨hcycle, hledger, hnumber, entries, r, opened, hu⟩ hl h
      have hsteps := step_steps h
      exact ⟨cycleInvariant_step hcycle hsteps, ledger_step hledger hsteps, numbering_step hcycle hnumber hsteps,
        follows_step hcycle hledger hnumber hu hl hsteps⟩
    · exact ⟨cycleInvariant_init predictor now start, ledger_init predictor now start,
        numbering_init predictor now start, [], {}, [], follows_init format circumstances predictor now start⟩
  have hcircumstances : ∀ record ∈ timingRecords circumstances s.queue.records,
      PlainCircumstances record.circumstances := by
    intro record hrecord
    obtain ⟨i, hi, rfl⟩ := List.mem_mapIdx.mp hrecord
    exact hplain i hi
  have hload : loadDataSet format.float
      (timingFile format.fixed (timingRecords circumstances s.queue.records)) = .ok ⟨entries.map rowOf⟩ := by
    have hread := hfollows.read
    rw [rowsOf] at hread
    rw [loadDataSet, getTimingEntries_file format hcircumstances, hread]
    exact ofEntries_complete hfollows.complete
  have hbelongs : List.Forall₂ Belongs (distributions (rowsOf format circumstances s.queue.records))
      ((matchedTimings entries).map fun timing => (timing.simTime, DataSet.delayOf timing)) := by
    rw [List.forall₂_map_right_iff]
    exact hfollows.matched.imp fun _ _ hagrees => hagrees.belongs
  refine ⟨_, hload, fun filter => ?_, ?_⟩
  · exact exists_forall₂_of_sublist hbelongs (DataSet.axis_sublist _ filter)
  · rw [DataSet.axis_eq, hfollows.matched.length_eq, List.length_map]
    rfl

private theorem point_not_mem_signed (n : Int) : 46 ∉ DecimalText.signed n := by
  have hdecimal : 46 ∉ DecimalText.decimal n.natAbs := fun hmem =>
    absurd (DecimalText.isDigit_of_mem_decimal hmem) (by decide)
  rw [DecimalText.signed]
  split
  · exact List.not_mem_cons_of_ne_of_not_mem (by decide) hdecimal
  · exact hdecimal

/-- Whole numbers with eight zeros behind the point. -/
def wholeFormat : TimingFormat where
  fixed x := DecimalText.signed ⌊x⌋ ++ ascii ".00000000"
  float text :=
    let literal := intLiteral (text.takeWhile (· ≠ 46))
    literal.2.elim (.error (.valueError "could not convert string to float")) fun digits =>
      let n : Int := if literal.1 then -DecimalText.value digits else DecimalText.value digits
      .ok n
  rounded x := ⌊x⌋
  plain x := by
    have hzeros : CSVDataLogger.separator ∉ ascii ".00000000" ∧ CSVDataLogger.quotationMark ∉ ascii ".00000000" ∧
        NoLineBreak (ascii ".00000000") := by decide +kernel
    have hsigned := plainNumber_signed ⌊x⌋
    have happend {b : UInt8} (h : b ∉ DecimalText.signed ⌊x⌋) (h' : b ∉ ascii ".00000000") :
        b ∉ DecimalText.signed ⌊x⌋ ++ ascii ".00000000" := List.not_mem_append h h'
    exact ⟨List.append_ne_nil_of_left_ne_nil hsigned.ne_nil _, happend hsigned.noSeparator hzeros.1,
      happend hsigned.noQuote hzeros.2.1, happend hsigned.noBreak.1 hzeros.2.2.1,
      happend hsigned.noBreak.2 hzeros.2.2.2⟩
  float_fixed x := by
    have htext : (DecimalText.signed ⌊x⌋ ++ ascii ".00000000").takeWhile (· ≠ 46) = DecimalText.signed ⌊x⌋ := by
      have hpoint : ∀ b ∈ DecimalText.signed ⌊x⌋, decide (b ≠ 46) = true := by
        intro b hb
        rw [decide_eq_true_eq]
        rintro rfl
        exact point_not_mem_signed ⌊x⌋ hb
      rw [List.takeWhile_append_of_pos hpoint]
      exact List.append_nil _
    have habs : (if ⌊x⌋ < 0 then -(⌊x⌋.natAbs : Int) else ⌊x⌋.natAbs) = ⌊x⌋ := by split <;> omega
    simp only [htext, intLiteral_signed, Option.elim_some, DecimalText.value_decimal, decide_eq_true_eq, habs]

/-- A record every second. -/
def everySecond (i : Nat) : Circumstances :=
  ⟨(ascii "1", ascii "12", ascii "00", DecimalText.decimal i ++ ascii ".000000"), i, ascii "Event"⟩

theorem plain_everySecond : ∀ i < 20, PlainCircumstances (everySecond i) := by decide +kernel

/-- A late external event has the time of an event that was distributed before. -/
theorem prediction_delays_belong_late :
    ∃ (s : EventDispatcher ℚ ℚ Empty) (ds : DataSet), Reaches metronome 10 (init 0 0 0)
        [.predict, .addPrediction, .get 1000000, .beginDistribution, .distribute, .predict, .addPrediction,
          .pushExternal 1, .addExternal 2, .get 1000000, .beginDistribution, .distribute,
          .predict, .addPrediction, .get 3000000, .beginDistribution, .distribute] s ∧
      loadDataSet wholeFormat.float (timingFile wholeFormat.fixed (timingRecords everySecond s.queue.records)) =
        .ok ds ∧
      DelaysBelong (rowsOf wholeFormat everySecond s.queue.records)
        (ds.getTriggeredPredictionDelayAxis DataSet.filterIncludeAll) ∧
      (ds.getTriggeredPredictionDelayAxis DataSet.filterIncludeAll).delay.length = 3 := by
  obtain ⟨s, hrun, hcount, hlength⟩ := LabelledRun.exec_of_any (step metronome 10) (init 0 0 0)
    [.predict, .addPrediction, .get 1000000, .beginDistribution, .distribute, .predict, .addPrediction,
      .pushExternal 1, .addExternal 2, .get 1000000, .beginDistribution, .distribute,
      .predict, .addPrediction, .get 3000000, .beginDistribution, .distribute]
    (fun s => (distributions (rowsOf wholeFormat everySecond s.queue.records)).length = 3 ∧
      s.queue.records.length < 20) (by decide +kernel)
  obtain ⟨ds, hload, hbelong, hdelays⟩ := prediction_delays_belong wholeFormat everySecond metronome 10 0 0 0 _ s hrun
    (by decide +kernel) fun i hi => plain_everySecond i (hi.trans hlength)
  exact ⟨s, ds, hrun, hload, hbelong DataSet.filterIncludeAll, hdelays.trans hcount⟩

/-- An external event at time 2 and the prediction for time 2 are both given up. The event at time 1
gets the delay of the prediction for time 3, 5 seconds in place of 2. -/
theorem delay_of_later_prediction :
    ∃ (s : EventDispatcher ℚ ℚ Empty) (ds : DataSet), Reaches metronome 10 (init 0 0 0)
        [.predict, .addPrediction, .get 1000000, .beginDistribution, .distribute, .pushExternal 2, .addExternal 1,
          .predict, .addPrediction, .get 2000000, .beginDistribution, .distribute, .predict, .addPrediction] s ∧
      loadDataSet wholeFormat.float (timingFile wholeFormat.fixed (timingRecords everySecond s.queue.records)) =
        .ok ds ∧
      ds.getTriggeredPredictionDelayAxis DataSet.filterIncludeAll = ⟨[1], [some 5]⟩ ∧
      distributions (rowsOf wholeFormat everySecond s.queue.records) = [⟨1, 2, some 4⟩, ⟨2, 6, some 7⟩] ∧
      ¬ DelaysBelong (rowsOf wholeFormat everySecond s.queue.records)
        (ds.getTriggeredPredictionDelayAxis DataSet.filterIncludeAll) := by
  obtain ⟨s, hrun, hload, hds⟩ := LabelledRun.exec_of_any (step metronome 10) (init 0 0 0)
    [.predict, .addPrediction, .get 1000000, .beginDistribution, .distribute, .pushExternal 2, .addExternal 1,
      .predict, .addPrediction, .get 2000000, .beginDistribution, .distribute, .predict, .addPrediction]
    (fun s => (loadDataSet wholeFormat.float
        (timingFile wholeFormat.fixed (timingRecords everySecond s.queue.records))).toOption.map
          (·.getTriggeredPredictionDelayAxis DataSet.filterIncludeAll) = some ⟨[1], [some 5]⟩ ∧
      distributions (rowsOf wholeFormat everySecond s.queue.records) = [⟨1, 2, some 4⟩, ⟨2, 6, some 7⟩])
    (by decide +kernel)
  obtain ⟨ds, hsome, haxis⟩ := Option.map_eq_some_iff.mp hload
  refine ⟨s, ds, hrun, ?_, haxis, hds, ?_⟩
  · cases hresult : loadDataSet wholeFormat.float
        (timingFile wholeFormat.fixed (timingRecords everySecond s.queue.records)) with
    | error e =>
      rw [hresult] at hsome
      cases hsome
    | ok ds' =>
      rw [hresult] at hsome
      cases hsome
      rfl
  · rintro ⟨kept, hkept, hall⟩
    rw [haxis] at hall
    rw [hds] at hkept
    obtain ⟨d, rest, hd, -, rfl⟩ := List.forall₂_cons_right_iff.mp hall
    have hmem : d = ⟨1, 2, some 4⟩ ∨ d = ⟨2, 6, some 7⟩ := by
      simpa using hkept.subset List.mem_cons_self
    obtain ⟨htime, hdelay⟩ := hd
    rcases hmem with rfl | rfl
    · obtain ⟨next, hnext, heq⟩ := hdelay 5 rfl
      cases hnext
      exact absurd heq (by decide +kernel)
    · exact absurd htime (by decide +kernel)

end FMITerminalBlock.Scripts
