import FMITerminalBlock.Scripts.TimingIdentity

/-! Timing logs with events that share their simulation time. What the reader has to yield is said
about the log as a whole, by the periods in which events are open; what it does is known from the
simulation of a reader that can tell the events apart. -/
namespace FMITerminalBlock.Scripts.TimingReader
open Base Timing Fallible

/-! ### Logs -/

/-- A record with the event it belongs to. The file does not name the event. -/
structure LogRecord where
  event : Nat
  row : TimingRow
  deriving DecidableEq

def registers : ProcessingStage → Bool
  | .realTimeGeneration | .prediction => true
  | _ => false

def completes : ProcessingStage → Bool
  | .endOfDistribution | .outdated => true
  | _ => false

def ownRows (log : List LogRecord) (event : Nat) : List TimingRow := (log.filter (·.event = event)).map (·.row)

/-- A registration, then the begin and the end of the distribution or the end as an outdated event,
cut off at any point. -/
def LifeCycle : List TimingRow → Prop
  | [] => True
  | registration :: rest => registers registration.action = true ∧ (∀ row ∈ rest, row.tSim = registration.tSim) ∧
    rest.map (·.action) ∈ [[], [.beginOfDistribution], [.beginOfDistribution, .endOfDistribution], [.outdated]]

def WellFormed (log : List LogRecord) : Prop := ∀ record ∈ log, LifeCycle (ownRows log record.event)

/-- Whether the event is open behind the given part of the log. -/
def OpenAt (log : List LogRecord) (tSim : ℚ) (event : Nat) : Prop :=
  (ownRows log event).head?.map (·.tSim) = some tSim ∧ ∀ row ∈ ownRows log event, completes row.action = false

/-- A period begins and ends where no event of the time is open. In this one the event is open
throughout, and no other one is. -/
def AloneInPeriod (log : List LogRecord) (tSim : ℚ) (event : Nat) : Prop :=
  ∃ a < log.length, ∃ b < log.length + 1, a + 1 < b ∧
    (∀ record ∈ log, ¬OpenAt (log.take a) tSim record.event) ∧
    (∀ record ∈ log, ¬OpenAt (log.take b) tSim record.event) ∧
    ∀ n < b, a < n → ∀ record ∈ log, OpenAt (log.take n) tSim record.event ↔ record.event = event

instance : (rows : List TimingRow) → Decidable (LifeCycle rows)
  | [] => isTrue trivial
  | _ :: _ => inferInstanceAs (Decidable (_ ∧ _ ∧ _))

instance (log : List LogRecord) : Decidable (WellFormed log) := inferInstanceAs (Decidable (∀ record ∈ log, _))

instance (log : List LogRecord) (tSim : ℚ) (event : Nat) : Decidable (OpenAt log tSim event) :=
  inferInstanceAs (Decidable (_ ∧ _))

instance (log : List LogRecord) (tSim : ℚ) (event : Nat) : Decidable (AloneInPeriod log tSim event) :=
  inferInstanceAs (Decidable (∃ a < _, _))

/-- The entry of an event, from nothing but its own records. -/
def ownEntry : List TimingRow → Option TimingEntry
  | [] => none
  | registration :: rest => some {
      simulationTime := registration.tSim
      registrationTime := registration.tReal
      isPredicted := registration.action = .prediction
      triggered := rest.any (·.action = .beginOfDistribution)
      beginDistributionTime := (rest.find? (·.action = .beginOfDistribution)).map (·.tReal)
      endDistributionTime := (rest.find? (·.action = .endOfDistribution)).map (·.tReal) }

/-- What has to be yielded at a record: the entry of the event it completes, if the event was alone. -/
def yieldedAt (log : List LogRecord) (i : Nat) : Option TimingEntry :=
  match log[i]? with
  | some record =>
    if completes record.row.action = true ∧ AloneInPeriod log record.row.tSim record.event then
      ownEntry (ownRows log record.event)
    else none
  | none => none

def expectedEntries (log : List LogRecord) : List TimingEntry := (List.range log.length).filterMap (yieldedAt log)

/-- Some event is registered while another one with the same simulation time is open. -/
def Clash (log : List LogRecord) : Prop :=
  ∃ past record later, log = past ++ record :: later ∧ registers record.row.action = true ∧
    ∃ other ≠ record.event, OpenAt past record.row.tSim other

/-! ### Rows of an event -/

variable {log past later : List LogRecord} {record : LogRecord} {event other : Nat} {tSim : ℚ}

theorem ownRows_append (past later : List LogRecord) (event : Nat) :
    ownRows (past ++ later) event = ownRows past event ++ ownRows later event := by
  rw [ownRows, List.filter_append, List.map_append]
  rfl

theorem ownRows_concat_self (past : List LogRecord) (record : LogRecord) :
    ownRows (past ++ [record]) record.event = ownRows past record.event ++ [record.row] := by
  rw [ownRows_append]
  simp [ownRows]

theorem ownRows_concat_of_ne (past : List LogRecord) (h : event ≠ record.event) :
    ownRows (past ++ [record]) event = ownRows past event := by
  rw [ownRows_append]
  simp [ownRows, h.symm]

theorem lifeCycle_append {rows more : List TimingRow} (h : LifeCycle (rows ++ more)) : LifeCycle rows := by
  cases rows with
  | nil => trivial
  | cons registration rest =>
    rw [List.cons_append] at h
    obtain ⟨hregisters, htime, hstages⟩ := h
    refine ⟨hregisters, fun row hrow => htime row (List.mem_append_left _ hrow), ?_⟩
    rw [List.map_append] at hstages
    generalize rest.map (·.action) = stages at hstages ⊢
    rcases stages with - | ⟨first, - | ⟨second, - | ⟨third, stages⟩⟩⟩
    · exact List.mem_cons_self
    · have hfirst : first = .beginOfDistribution ∨ first = .outdated := by
        simp only [List.mem_cons, List.cons_append, List.cons.injEq] at hstages
        tauto
      simpa using hfirst
    · simp only [List.mem_cons, List.cons_append, List.cons.injEq] at hstages ⊢
      simp_all
    · simp at hstages

theorem WellFormed.lifeCycle (h : WellFormed log) (event : Nat) : LifeCycle (ownRows log event) := by
  cases hrows : log.filter (·.event = event) with
  | nil =>
    rw [ownRows, hrows]
    trivial
  | cons record rest =>
    have hmem : record ∈ log.filter (·.event = event) := by rw [hrows]; exact List.mem_cons_self
    obtain ⟨hlog, hevent⟩ := List.mem_filter.mp hmem
    rw [← of_decide_eq_true hevent]
    exact h record hlog

theorem WellFormed.of_append (h : WellFormed (past ++ later)) : WellFormed past := by
  intro record _
  have hlife := h.lifeCycle record.event
  rw [ownRows_append] at hlife
  exact lifeCycle_append hlife

/-- Which record may come next. -/
theorem lifeCycle_concat_cases {rows : List TimingRow} {row : TimingRow} (h : LifeCycle (rows ++ [row])) :
    (rows = [] ∧ registers row.action = true) ∨
    (∃ registration, rows = [registration] ∧ registers registration.action = true ∧ row.tSim = registration.tSim ∧
      (row.action = .beginOfDistribution ∨ row.action = .outdated)) ∨
    (∃ registration begin, rows = [registration, begin] ∧ registers registration.action = true ∧
      begin.action = .beginOfDistribution ∧ row.tSim = registration.tSim ∧ row.action = .endOfDistribution) := by
  rcases rows with - | ⟨registration, - | ⟨begin, - | ⟨third, rows⟩⟩⟩
  · exact .inl ⟨rfl, h.1⟩
  · obtain ⟨hregisters, htime, hstages⟩ := h
    refine .inr (.inl ⟨registration, rfl, hregisters, htime row List.mem_cons_self, ?_⟩)
    simpa using hstages
  · obtain ⟨hregisters, htime, hstages⟩ := h
    have hpair : begin.action = .beginOfDistribution ∧ row.action = .endOfDistribution := by simpa using hstages
    exact .inr (.inr ⟨registration, begin, rfl, hregisters, hpair.1,
      htime row (List.mem_cons_of_mem _ List.mem_cons_self), hpair.2⟩)
  · obtain ⟨-, -, hstages⟩ := h
    simp at hstages

theorem registers_not_completes {stage : ProcessingStage} (h : registers stage = true) : completes stage = false := by
  cases stage <;> first | rfl | cases h

/-- Nothing follows a completing record. -/
theorem lifeCycle_completed {rows more : List TimingRow} {row : TimingRow} (h : LifeCycle (rows ++ row :: more))
    (hrow : completes row.action = true) : more = [] := by
  cases more with
  | nil => rfl
  | cons next more =>
    have hsplit : rows ++ row :: next :: more = rows ++ [row] ++ [next] ++ more := by simp
    rw [hsplit] at h
    rcases lifeCycle_concat_cases (lifeCycle_append h) with ⟨hnil, -⟩ | ⟨reg, hrows, hreg, -⟩ |
      ⟨reg, begin, hrows, -, hbegin, -⟩
    · simp at hnil
    · have hlast : row = reg := by simpa using congrArg List.getLast? hrows
      rw [hlast, registers_not_completes hreg] at hrow
      cases hrow
    · have hlast : row = begin := by simpa using congrArg List.getLast? hrows
      rw [hlast, hbegin] at hrow
      cases hrow

theorem completes_begin : completes .beginOfDistribution = false := rfl

/-! ### Openness -/

theorem openAt_concat_of_ne (past : List LogRecord) (h : event ≠ record.event) :
    OpenAt (past ++ [record]) tSim event ↔ OpenAt past tSim event := by
  rw [OpenAt, ownRows_concat_of_ne past h]
  rfl

theorem not_openAt_of_ownRows_nil (h : ownRows past event = []) : ¬OpenAt past tSim event := by
  rintro ⟨htime, -⟩
  rw [h] at htime
  cases htime

theorem OpenAt.ownRows_ne_nil (h : OpenAt past tSim event) : ownRows past event ≠ [] :=
  fun hnil => not_openAt_of_ownRows_nil hnil h

theorem OpenAt.exists_mem (h : OpenAt past tSim event) : ∃ record ∈ past, record.event = event := by
  obtain ⟨row, hrow⟩ := List.exists_mem_of_ne_nil _ h.ownRows_ne_nil
  obtain ⟨record, hrecord, -⟩ := List.mem_map.mp hrow
  obtain ⟨hmem, hevent⟩ := List.mem_filter.mp hrecord
  exact ⟨record, hmem, of_decide_eq_true hevent⟩

theorem not_openAt_concat_completes (past : List LogRecord) (h : completes record.row.action = true) :
    ¬OpenAt (past ++ [record]) tSim record.event := by
  rintro ⟨-, hrows⟩
  rw [ownRows_concat_self] at hrows
  rw [hrows record.row (List.mem_append_right _ List.mem_cons_self)] at h
  cases h

/-- An event is open without interruption. -/
theorem OpenAt.between {earlier between : List LogRecord} (hearlier : OpenAt earlier tSim event)
    (hlater : OpenAt past tSim event) (h : earlier <+: between) (h' : between <+: past) : OpenAt between tSim event := by
  obtain ⟨more, rfl⟩ := h
  obtain ⟨rest, rfl⟩ := h'
  refine ⟨?_, fun row hrow => hlater.2 row ?_⟩
  · rw [ownRows_append, List.head?_append_of_ne_nil _ hearlier.ownRows_ne_nil]
    exact hearlier.1
  · rw [ownRows_append]
    exact List.mem_append_left _ hrow

/-- At some point up to now the event and another one of its time were open. -/
def Clashed (past : List LogRecord) (tSim : ℚ) (event : Nat) : Prop :=
  ∃ earlier, earlier <+: past ∧ OpenAt earlier tSim event ∧ ∃ other ≠ event, OpenAt earlier tSim other

theorem Clashed.of_openAt (h : OpenAt past tSim event) (hne : other ≠ event) (h' : OpenAt past tSim other) :
    Clashed past tSim event := ⟨past, List.prefix_refl _, h, other, hne, h'⟩

theorem eq_of_not_clashed (h : ¬Clashed past tSim event) {earlier : List LogRecord} (hearlier : earlier <+: past)
    (hopen : OpenAt earlier tSim event) (hother : OpenAt earlier tSim other) : other = event := by
  by_contra hne
  exact h ⟨earlier, hearlier, hopen, other, hne, hother⟩

theorem clashed_concat : Clashed (past ++ [record]) tSim event ↔ Clashed past tSim event ∨
    OpenAt (past ++ [record]) tSim event ∧ ∃ other ≠ event, OpenAt (past ++ [record]) tSim other := by
  constructor
  · rintro ⟨earlier, hearlier, hopen⟩
    rcases List.prefix_concat_iff.mp hearlier with rfl | hpast
    · exact .inr hopen
    · exact .inl ⟨earlier, hpast, hopen⟩
  · rintro (⟨earlier, hearlier, hopen⟩ | hopen)
    · exact ⟨earlier, hearlier.trans (List.prefix_append _ _), hopen⟩
    · exact ⟨_, List.prefix_refl _, hopen⟩

/-- A record that opens no event does not make others clash. -/
theorem clashed_concat_of_openAt (h : ∀ event, OpenAt (past ++ [record]) tSim event → OpenAt past tSim event) :
    Clashed (past ++ [record]) tSim event ↔ Clashed past tSim event := by
  rw [clashed_concat]
  refine ⟨fun hclashed => ?_, .inl⟩
  rcases hclashed with hpast | ⟨hopen, other, hne, hother⟩
  · exact hpast
  · exact .of_openAt (h event hopen) hne (h other hother)

/-! ### Periods -/

theorem exists_first_record (h : ownRows past event ≠ []) :
    ∃ before record after, past = before ++ record :: after ∧ record.event = event ∧ ownRows before event = [] := by
  induction past with
  | nil => exact absurd rfl h
  | cons record past ih =>
    by_cases hevent : record.event = event
    · exact ⟨[], record, past, rfl, hevent, rfl⟩
    · have hrows (l : List LogRecord) : ownRows (record :: l) event = ownRows l event := by
        rw [ownRows, List.filter_cons_of_neg (by simpa using hevent)]
        rfl
      rw [hrows] at h
      obtain ⟨before, first, after, rfl, hfirst, hnone⟩ := ih h
      exact ⟨record :: before, first, after, rfl, hfirst, (hrows before).trans hnone⟩

/-- An event that is open now has been open since its first record. -/
theorem openAt_first {before after : List LogRecord} (hopen : OpenAt (before ++ record :: after) tSim record.event)
    (hnone : ownRows before record.event = []) : OpenAt (before ++ [record]) tSim record.event := by
  have hrows : ownRows (before ++ [record]) record.event = [record.row] := by
    rw [ownRows_concat_self, hnone]
    rfl
  obtain ⟨htime, hrest⟩ := hopen
  rw [List.append_cons, ownRows_append, hrows] at htime hrest
  rw [OpenAt, hrows]
  exact ⟨htime, fun row hrow => hrest row (List.mem_append_left _ hrow)⟩

/-- The event that a record completes is open before it. -/
theorem openAt_of_completes (hlog : WellFormed (past ++ [record])) (h : completes record.row.action = true) :
    OpenAt past record.row.tSim record.event := by
  have hlife := hlog.lifeCycle record.event
  rw [ownRows_concat_self] at hlife
  rcases lifeCycle_concat_cases hlife with ⟨-, hreg⟩ | ⟨reg, hrows, hreg, htime, -⟩ |
    ⟨reg, begin, hrows, hreg, hbegin, htime, -⟩
  · rw [registers_not_completes hreg] at h
    cases h
  · rw [OpenAt, hrows]
    exact ⟨by rw [htime]; rfl, by simpa using registers_not_completes hreg⟩
  · rw [OpenAt, hrows]
    exact ⟨by rw [htime]; rfl, by simp [registers_not_completes hreg, hbegin, completes_begin]⟩

/-- The period of a completed event that has never clashed is its own life. -/
theorem aloneInPeriod_of_not_clashed (hlog : WellFormed (past ++ [record]))
    (hcompletes : completes record.row.action = true) (h : ¬Clashed past record.row.tSim record.event) :
    AloneInPeriod (past ++ record :: later) record.row.tSim record.event := by
  have hopen := openAt_of_completes hlog hcompletes
  obtain ⟨before, first, after, rfl, hfirst, hnone⟩ := exists_first_record hopen.ownRows_ne_nil
  have hpast : before ++ [first] <+: before ++ first :: after := ⟨after, by simp⟩
  have hbegin : OpenAt (before ++ [first]) record.row.tSim record.event := by
    rw [← hfirst] at hopen hnone ⊢
    exact openAt_first hopen hnone
  have hstart : (before ++ first :: after ++ record :: later).take before.length = before := by simp
  have hend : (before ++ first :: after ++ record :: later).take ((before ++ first :: after).length + 1) =
      before ++ first :: after ++ [record] := by
    rw [List.take_length_add_append]
    rfl
  refine ⟨before.length, by simp, (before ++ first :: after).length + 1, by simp, by simp, ?_, ?_, ?_⟩
  · rw [hstart]
    intro x _ hx
    have hne : x.event ≠ first.event := by
      intro heq
      rw [heq, hfirst] at hx
      exact not_openAt_of_ownRows_nil hnone hx
    have hlater := (openAt_concat_of_ne before hne).mpr hx
    exact hne ((eq_of_not_clashed h hpast hbegin hlater).trans hfirst.symm)
  · rw [hend]
    intro x _ hx
    have hne : x.event ≠ record.event := by
      intro heq
      rw [heq] at hx
      exact not_openAt_concat_completes _ hcompletes hx
    exact hne (eq_of_not_clashed h (List.prefix_refl _) hopen ((openAt_concat_of_ne _ hne).mp hx))
  · intro n hn hbefore x _
    have hwithin : (before ++ first :: after ++ record :: later).take n = (before ++ first :: after).take n :=
      List.take_append_of_le_length (by omega)
    rw [hwithin]
    have hbetween : before ++ [first] <+: (before ++ first :: after).take n := by
      refine List.prefix_of_prefix_length_le hpast (List.take_prefix _ _) ?_
      rw [List.length_take]
      simp at hn ⊢
      omega
    have hmiddle := hbegin.between hopen hbetween (List.take_prefix _ _)
    constructor
    · exact eq_of_not_clashed h (List.take_prefix _ _) hmiddle
    · rintro heq
      rw [heq]
      exact hmiddle

/-- In a period of its own an event clashes with nobody. -/
theorem AloneInPeriod.not_clashed (h : AloneInPeriod log tSim event) (hevent : ∃ record ∈ log, record.event = event) :
    ¬Clashed log tSim event := by
  obtain ⟨a, -, b, -, hab, hstart, hend, halone⟩ := h
  obtain ⟨record, hrecord, rfl⟩ := hevent
  rintro ⟨earlier, hearlier, hopen, other, hne, hother⟩
  have htake : earlier = log.take earlier.length := List.prefix_iff_eq_take.mp hearlier
  have hmiddle : OpenAt (log.take (a + 1)) tSim record.event := (halone (a + 1) hab (by omega) record hrecord).mpr rfl
  rw [htake] at hopen hother
  have hafter : a < earlier.length := by
    by_contra hle
    exact hstart record hrecord (hopen.between hmiddle (List.take_prefix_take_left (by omega))
      (List.take_prefix_take_left (by omega)))
  have hbefore : earlier.length < b := by
    by_contra hle
    exact hend record hrecord (hmiddle.between hopen (List.take_prefix_take_left (by omega))
      (List.take_prefix_take_left (by omega)))
  obtain ⟨x, hx, rfl⟩ := hother.exists_mem
  exact hne ((halone _ hbefore hafter x (List.mem_of_mem_take hx)).mp hother)

/-! ### What has to be yielded, record by record -/

theorem ownRows_of_registers (hlog : WellFormed (past ++ [record])) (h : registers record.row.action = true) :
    ownRows past record.event = [] := by
  have hlife := hlog.lifeCycle record.event
  rw [ownRows_concat_self] at hlife
  rcases lifeCycle_concat_cases hlife with ⟨hnil, -⟩ | ⟨-, -, -, -, hbegin | houtdated⟩ | ⟨-, -, -, -, -, -, hend⟩
  · exact hnil
  · rw [hbegin] at h
    cases h
  · rw [houtdated] at h
    cases h
  · rw [hend] at h
    cases h

theorem ownRows_of_completed (hlog : WellFormed (past ++ record :: later))
    (h : completes record.row.action = true) :
    ownRows (past ++ record :: later) record.event = ownRows (past ++ [record]) record.event := by
  have hsplit : past ++ record :: later = past ++ [record] ++ later := by simp
  have hlife := hlog.lifeCycle record.event
  rw [hsplit, ownRows_append _ later, ownRows_concat_self] at hlife ⊢
  rw [List.append_assoc, List.singleton_append] at hlife
  rw [lifeCycle_completed hlife h, List.append_nil]

theorem Clashed.append (h : Clashed past tSim event) (later : List LogRecord) : Clashed (past ++ later) tSim event := by
  obtain ⟨earlier, hearlier, hopen⟩ := h
  exact ⟨earlier, hearlier.trans (List.prefix_append _ _), hopen⟩

/-- What is yielded at a record depends on the log up to this record only. -/
structure YieldedAt (past : List LogRecord) (record : LogRecord) (entry : Option TimingEntry) : Prop where
  running : completes record.row.action = false → entry = none
  clashed : completes record.row.action = true → Clashed past record.row.tSim record.event → entry = none
  alone : completes record.row.action = true → ¬Clashed past record.row.tSim record.event →
    entry = ownEntry (ownRows (past ++ [record]) record.event)

theorem YieldedAt.unique {entry entry' : Option TimingEntry} (h : YieldedAt past record entry)
    (h' : YieldedAt past record entry') : entry = entry' := by
  cases hcompletes : completes record.row.action with
  | false => rw [h.running hcompletes, h'.running hcompletes]
  | true =>
    by_cases hclashed : Clashed past record.row.tSim record.event
    · rw [h.clashed hcompletes hclashed, h'.clashed hcompletes hclashed]
    · rw [h.alone hcompletes hclashed, h'.alone hcompletes hclashed]

theorem yieldedAt_spec (hlog : WellFormed (past ++ record :: later)) :
    YieldedAt past record (yieldedAt (past ++ record :: later) past.length) := by
  have hwell : WellFormed (past ++ [record] ++ later) := by simpa using hlog
  have hget : (past ++ record :: later)[past.length]? = some record := by simp
  have heq : yieldedAt (past ++ record :: later) past.length =
      if completes record.row.action = true ∧ AloneInPeriod (past ++ record :: later) record.row.tSim record.event then
        ownEntry (ownRows (past ++ record :: later) record.event)
      else none := by rw [yieldedAt, hget]
  rw [heq]
  refine ⟨fun hrunning => ?_, fun _ hclashed => ?_, fun hcompletes halone => ?_⟩
  · exact if_neg fun h => by rw [h.1] at hrunning; cases hrunning
  · exact if_neg fun h => h.2.not_clashed ⟨record, by simp, rfl⟩ (hclashed.append _)
  · rw [if_pos ⟨hcompletes, aloneInPeriod_of_not_clashed hwell.of_append hcompletes halone⟩,
      ownRows_of_completed hlog hcompletes]

theorem yieldedAt_append (hlog : WellFormed (past ++ later)) {i : Nat} (hi : i < past.length) :
    yieldedAt (past ++ later) i = yieldedAt past i := by
  obtain ⟨before, record, after, rfl, rfl⟩ :
      ∃ before record after, past = before ++ record :: after ∧ before.length = i :=
    ⟨past.take i, past[i], past.drop (i + 1), by simp, by rw [List.length_take]; omega⟩
  have hpast := yieldedAt_spec hlog.of_append
  rw [List.append_assoc, List.cons_append] at hlog ⊢
  exact (yieldedAt_spec hlog).unique hpast

theorem expectedEntries_concat (hlog : WellFormed (past ++ [record])) :
    expectedEntries (past ++ [record]) =
      expectedEntries past ++ (yieldedAt (past ++ [record]) past.length).toList := by
  have hearlier : (List.range past.length).filterMap (yieldedAt (past ++ [record])) = expectedEntries past := by
    apply List.filterMap_congr
    intro i hi
    exact yieldedAt_append hlog (List.mem_range.mp hi)
  rw [expectedEntries, List.length_append, List.length_singleton, List.range_succ, List.filterMap_append, hearlier]
  cases hlast : yieldedAt (past ++ [record]) past.length with
  | none => simp [hlast]
  | some entry => simp [hlast]

/-! ### The reader that tells the events apart -/

/-- The tracked events are the open ones, with what the log says about them. -/
structure Ledger (past : List LogRecord) (opened : List Tracked) : Prop where
  nodup : (opened.map (·.address)).Nodup
  isOpen : ∀ event tSim, OpenAt past tSim event ↔ ∃ o ∈ opened, o.address = event ∧ o.entry.simulationTime = tSim
  entry : ∀ o ∈ opened, ownEntry (ownRows past o.address) = some o.entry
  clashed : ∀ o ∈ opened, o.clashed = true ↔ Clashed past o.entry.simulationTime o.address

variable {opened : List Tracked} {r : TimingReader} {o : Tracked}

theorem ledger_nil : Ledger [] [] := by
  refine ⟨List.nodup_nil, fun event tSim => ⟨fun h => ?_, ?_⟩, List.forall_mem_nil _, List.forall_mem_nil _⟩
  · exact absurd rfl h.ownRows_ne_nil
  · rintro ⟨o, ho, -⟩
    cases ho

theorem Ledger.openAt (h : Ledger past opened) (ho : o ∈ opened) : OpenAt past o.entry.simulationTime o.address :=
  (h.isOpen _ _).mpr ⟨o, ho, rfl, rfl⟩

/-- The events of a time are open exactly if they are tracked. -/
theorem Ledger.group_nonempty (h : Ledger past opened) : group opened tSim ≠ [] ↔ ∃ event, OpenAt past tSim event := by
  constructor
  · intro hne
    obtain ⟨o, ho⟩ := List.exists_mem_of_ne_nil _ hne
    obtain ⟨hmem, htime⟩ := mem_group.mp ho
    exact ⟨o.address, (h.isOpen _ _).mpr ⟨o, hmem, rfl, htime⟩⟩
  · rintro ⟨event, hopen⟩
    obtain ⟨o, ho, -, htime⟩ := (h.isOpen _ _).mp hopen
    exact List.ne_nil_of_mem (mem_group.mpr ⟨ho, htime⟩)

section Registration
variable (hnew : ownRows past record.event = []) (hregisters : registers record.row.action = true)
include hnew hregisters

theorem openAt_register : OpenAt (past ++ [record]) tSim record.event ↔ record.row.tSim = tSim := by
  rw [OpenAt, ownRows_concat_self, hnew, List.nil_append]
  simp [registers_not_completes hregisters]

omit hregisters in
theorem OpenAt.ne_new (h : OpenAt past tSim event) : event ≠ record.event := by
  rintro rfl
  exact not_openAt_of_ownRows_nil hnew h

/-- The open events are the tracked ones again. -/
private theorem openAt_registered (h : Ledger past opened) {entry : TimingEntry}
    (hentry : entry.simulationTime = record.row.tSim) :
    OpenAt (past ++ [record]) tSim event ↔
      ∃ o ∈ register opened record.event entry, o.address = event ∧ o.entry.simulationTime = tSim := by
  constructor
  · intro hevent
    by_cases heq : event = record.event
    · subst heq
      exact ⟨_, List.mem_append_right _ List.mem_cons_self, rfl,
        hentry.trans ((openAt_register hnew hregisters).mp hevent)⟩
    · obtain ⟨o, ho, haddress, htime⟩ := (h.isOpen _ _).mp ((openAt_concat_of_ne past heq).mp hevent)
      obtain ⟨o', ho', haddress', hentry'⟩ := exists_mem_register ho record.event entry
      exact ⟨o', ho', haddress'.trans haddress, by rw [hentry', htime]⟩
  · rintro ⟨o, ho, rfl, rfl⟩
    rcases mem_register ho with ⟨x, hx, haddress, hsame, -⟩ | rfl
    · rw [haddress, hsame, openAt_concat_of_ne past ((h.openAt hx).ne_new hnew)]
      exact h.openAt hx
    · exact (openAt_register hnew hregisters).mpr hentry.symm

/-- An event that is open clashes with the new one if they share their time. -/
theorem Ledger.clashed_old (h : Ledger past opened) (ho : o ∈ opened) :
    Clashed (past ++ [record]) o.entry.simulationTime o.address ↔
      o.entry.simulationTime = record.row.tSim ∨ o.clashed = true := by
  have hne := (h.openAt ho).ne_new hnew
  have hopen := (openAt_concat_of_ne past hne).mpr (h.openAt ho)
  rw [h.clashed o ho, clashed_concat]
  constructor
  · rintro (hpast | ⟨-, other, hother, hopened⟩)
    · exact .inr hpast
    · by_cases heq : other = record.event
      · subst heq
        exact .inl ((openAt_register hnew hregisters).mp hopened).symm
      · exact .inr (.of_openAt (h.openAt ho) hother ((openAt_concat_of_ne past heq).mp hopened))
  · rintro (htime | hpast)
    · exact .inr ⟨hopen, record.event, hne.symm, (openAt_register hnew hregisters).mpr htime.symm⟩
    · exact .inl hpast

/-- The new event clashes if there is an open one of its time. -/
theorem Ledger.clashed_new (h : Ledger past opened) :
    Clashed (past ++ [record]) record.row.tSim record.event ↔ group opened record.row.tSim ≠ [] := by
  have hself : OpenAt (past ++ [record]) record.row.tSim record.event := (openAt_register hnew hregisters).mpr rfl
  rw [h.group_nonempty]
  constructor
  · intro hclashed
    rcases clashed_concat.mp hclashed with ⟨earlier, ⟨rest, rfl⟩, hearlier, -⟩ | ⟨-, other, hne, hother⟩
    · rw [ownRows_append] at hnew
      exact absurd (List.append_eq_nil_iff.mp hnew).1 hearlier.ownRows_ne_nil
    · exact ⟨other, (openAt_concat_of_ne past hne).mp hother⟩
  · rintro ⟨other, hother⟩
    have hne := hother.ne_new hnew
    exact .of_openAt hself hne ((openAt_concat_of_ne past hne).mpr hother)

/-- A new event clashes with those that are open, and they with it. -/
theorem Ledger.register (h : Ledger past opened) (predicted : Bool)
    (hpredicted : decide (record.row.action = .prediction) = predicted) :
    Ledger (past ++ [record])
      (register opened record.event ⟨record.row.tSim, record.row.tReal, predicted, false, none, none⟩) := by
  refine ⟨?_, fun event t => openAt_registered hnew hregisters h rfl, fun o ho => ?_, fun o ho => ?_⟩
  · rw [map_address_register, List.nodup_append]
    refine ⟨h.nodup, List.nodup_singleton _, fun address haddress x hx => ?_⟩
    obtain ⟨o, ho, rfl⟩ := List.mem_map.mp haddress
    rw [List.mem_singleton.mp hx]
    exact (h.openAt ho).ne_new hnew
  · rcases mem_register ho with ⟨x, hx, haddress, hentry, -⟩ | rfl
    · rw [haddress, hentry, ownRows_concat_of_ne past ((h.openAt hx).ne_new hnew)]
      exact h.entry x hx
    · rw [ownRows_concat_self, hnew, ← hpredicted]
      rfl
  · rcases List.mem_append.mp ho with ho | ho
    · obtain ⟨x, hx, rfl⟩ := List.mem_map.mp ho
      have hold := h.clashed_old hnew hregisters hx
      split
      · rename_i htime
        exact ⟨fun _ => hold.mpr (.inl htime), fun _ => rfl⟩
      · rename_i htime
        rw [hold]
        exact ⟨.inr, fun hclashed => hclashed.resolve_left htime⟩
    · rw [List.mem_singleton.mp ho, h.clashed_new hnew hregisters, Bool.not_eq_true', List.isEmpty_eq_false_iff]

end Registration

/-- A record between registration and completion changes the entry of its event and nothing else. -/
theorem Ledger.change (h : Ledger past opened) {f : TimingEntry → TimingEntry}
    (hf : ∀ entry, (f entry).simulationTime = entry.simulationTime)
    (hopen : ∀ event tSim, OpenAt (past ++ [record]) tSim event ↔ OpenAt past tSim event)
    (hentry : ∀ o ∈ opened, o.address = record.event →
      ownEntry (ownRows (past ++ [record]) record.event) = some (f o.entry)) :
    Ledger (past ++ [record]) (change opened record.event f) := by
  have htime {x : Tracked} {entry : TimingEntry}
      (hx : entry = if x.address = record.event then f x.entry else x.entry) :
      entry.simulationTime = x.entry.simulationTime := by
    rw [hx]
    split
    · exact hf x.entry
    · rfl
  refine ⟨?_, fun event t => ?_, fun o ho => ?_, fun o ho => ?_⟩
  · rw [map_address_change]
    exact h.nodup
  · rw [hopen, h.isOpen]
    constructor
    · rintro ⟨x, hx, rfl, rfl⟩
      refine ⟨_, List.mem_map_of_mem hx, ?_⟩
      split
      · exact ⟨rfl, hf x.entry⟩
      · exact ⟨rfl, rfl⟩
    · rintro ⟨o, ho, rfl, rfl⟩
      obtain ⟨x, hx, haddress, -, hchanged⟩ := mem_change ho
      exact ⟨x, hx, haddress.symm, (htime hchanged).symm⟩
  · obtain ⟨x, hx, haddress, -, hchanged⟩ := mem_change ho
    rw [haddress, hchanged]
    split
    · rename_i heq
      rw [heq]
      exact hentry x hx heq
    · rename_i hne
      rw [ownRows_concat_of_ne past hne]
      exact h.entry x hx
  · obtain ⟨x, hx, haddress, hsame, hchanged⟩ := mem_change ho
    rw [haddress, hsame, htime hchanged, h.clashed x hx]
    exact (clashed_concat_of_openAt fun event => (hopen event _).mp).symm

theorem Ledger.close (h : Ledger past opened) (hcompletes : completes record.row.action = true) :
    Ledger (past ++ [record]) (close opened record.event) := by
  have hopen (event : Nat) (t : ℚ) (hevent : OpenAt (past ++ [record]) t event) :
      event ≠ record.event ∧ OpenAt past t event := by
    have hne : event ≠ record.event := by
      rintro rfl
      exact not_openAt_concat_completes past hcompletes hevent
    exact ⟨hne, (openAt_concat_of_ne past hne).mp hevent⟩
  refine ⟨h.nodup.sublist (List.filter_sublist.map _), fun event t => ⟨fun hevent => ?_, ?_⟩,
    fun o ho => ?_, fun o ho => ?_⟩
  · obtain ⟨hne, hpast⟩ := hopen event t hevent
    obtain ⟨o, ho, rfl, htime⟩ := (h.isOpen _ _).mp hpast
    exact ⟨o, mem_close.mpr ⟨ho, hne⟩, rfl, htime⟩
  · rintro ⟨o, ho, rfl, rfl⟩
    obtain ⟨hmem, hne⟩ := mem_close.mp ho
    exact (openAt_concat_of_ne past hne).mpr (h.openAt hmem)
  · obtain ⟨hmem, hne⟩ := mem_close.mp ho
    rw [ownRows_concat_of_ne past hne]
    exact h.entry o hmem
  · rw [h.clashed o (mem_close.mp ho).1]
    exact (clashed_concat_of_openAt fun event hevent => (hopen event _ hevent).2).symm

theorem openAt_begin {registration : TimingRow} (hrows : ownRows past record.event = [registration])
    (hbegin : record.row.action = .beginOfDistribution) (event : Nat) (tSim : ℚ) :
    OpenAt (past ++ [record]) tSim event ↔ OpenAt past tSim event := by
  by_cases heq : event = record.event
  · subst heq
    rw [OpenAt, OpenAt, ownRows_concat_self, hrows]
    simp [hbegin, completes_begin]
  · exact openAt_concat_of_ne past heq

theorem yieldedAt_running (h : completes record.row.action = false) : YieldedAt past record none := by
  refine ⟨fun _ => rfl, fun hcompletes => ?_, fun hcompletes => ?_⟩
  · rw [h] at hcompletes
    cases hcompletes
  · rw [h] at hcompletes
    cases hcompletes

theorem Ledger.yieldedAt_completed (h : Ledger past opened) (ho : o ∈ opened) (haddress : o.address = record.event)
    (htime : o.entry.simulationTime = record.row.tSim) (hcompletes : completes record.row.action = true)
    {entry : TimingEntry} (hentry : ownEntry (ownRows (past ++ [record]) record.event) = some entry) :
    YieldedAt past record (if o.clashed then none else some entry) := by
  have hclashed := h.clashed o ho
  rw [haddress, htime] at hclashed
  refine ⟨fun hrunning => ?_, fun _ hyes => if_pos (hclashed.mpr hyes), fun _ hno => ?_⟩
  · rw [hrunning] at hcompletes
    cases hcompletes
  · rw [if_neg fun hyes => hno (hclashed.mp hyes), hentry]

/-- The reader takes the record, keeps track of the open events, and yields what has to be yielded. -/
def Continues (past : List LogRecord) (record : LogRecord) (r : TimingReader) : Prop :=
  ∃ entry r' opened, r.timingStep false record.row = .ok (entry, r') ∧ Simulates opened r' ∧
    Ledger (past ++ [record]) opened ∧ YieldedAt past record entry

theorem Ledger.step_register (h : Ledger past opened) (hr : Simulates opened r)
    (hnew : ownRows past record.event = []) (hregisters : registers record.row.action = true) :
    Continues past record r := by
  obtain ⟨predicted, hstage, hpredicted⟩ : ∃ predicted, record.row.action = EventDispatcher.registration predicted ∧
      decide (record.row.action = .prediction) = predicted := by
    cases haction : record.row.action <;> rw [haction] at hregisters <;> cases hregisters
    · exact ⟨false, rfl, rfl⟩
    · exact ⟨true, rfl, rfl⟩
  obtain ⟨r', hstep, hr'⟩ := timingStep_register hr record.event record.row.tSim record.row.tReal predicted
  rw [← hstage] at hstep
  exact ⟨none, r', _, hstep, hr', h.register hnew hregisters predicted hpredicted,
    yieldedAt_running (registers_not_completes hregisters)⟩

section
variable (h : Ledger past opened) (ho : o ∈ opened) (haddress : o.address = record.event)
  (htime : o.entry.simulationTime = record.row.tSim)
include h ho haddress htime

theorem Ledger.step_begin (hr : Simulates opened r) {registration : TimingRow}
    (hrows : ownRows past record.event = [registration]) (hbegin : record.row.action = .beginOfDistribution) :
    Continues past record r := by
  obtain ⟨r', hstep, hr'⟩ := timingStep_begin h.nodup ho hr record.row.tReal
  rw [htime, ← hbegin] at hstep
  rw [haddress] at hr'
  refine ⟨none, r', _, hstep, hr', h.change (fun _ => rfl) (openAt_begin hrows hbegin) fun x hx hx' => ?_,
    yieldedAt_running (by rw [hbegin]; rfl)⟩
  have hentry := h.entry x hx
  rw [hx', hrows] at hentry
  rw [ownRows_concat_self, hrows, ← Option.some.inj hentry]
  simp [ownEntry, TimingEntry.setBeginDistributionTime, hbegin]

/-- Both ways to complete an event close it and yield its entry, unless it has clashed. -/
theorem Ledger.step_completes (hcompletes : completes record.row.action = true) {entry : TimingEntry}
    (hentry : ownEntry (ownRows (past ++ [record]) record.event) = some entry)
    (hstep : ∃ r', r.timingStep false ⟨o.entry.simulationTime, record.row.tReal, record.row.action⟩ =
      .ok (if o.clashed then none else some entry, r') ∧ Simulates (TimingReader.close opened o.address) r') :
    Continues past record r := by
  obtain ⟨r', hstep, hr'⟩ := hstep
  rw [htime] at hstep
  rw [haddress] at hr'
  exact ⟨_, r', _, hstep, hr', h.close hcompletes, h.yieldedAt_completed ho haddress htime hcompletes hentry⟩

end

/-- The reader follows the log record by record. -/
theorem Ledger.step (h : Ledger past opened) (hr : Simulates opened r) (hlog : WellFormed (past ++ [record])) :
    Continues past record r := by
  have hlife := hlog.lifeCycle record.event
  rw [ownRows_concat_self] at hlife
  have htracked {registration : TimingRow} {rest : List TimingRow}
      (hrows : ownRows past record.event = registration :: rest) (htime : record.row.tSim = registration.tSim)
      (hrunning : ∀ row ∈ ownRows past record.event, completes row.action = false) :
      ∃ o ∈ opened, o.address = record.event ∧ o.entry.simulationTime = record.row.tSim :=
    (h.isOpen _ _).mp ⟨by rw [hrows, htime]; rfl, hrunning⟩
  rcases lifeCycle_concat_cases hlife with ⟨hnew, hregisters⟩ | ⟨registration, hrows, hreg, htime, hbegin | houtdated⟩ |
    ⟨registration, begin, hrows, hreg, hbegin, htime, hend⟩
  · exact h.step_register hr hnew hregisters
  · obtain ⟨o, ho, haddress, hsame⟩ := htracked hrows htime (by simpa [hrows] using registers_not_completes hreg)
    exact h.step_begin ho haddress hsame hr hrows hbegin
  · obtain ⟨o, ho, haddress, hsame⟩ := htracked hrows htime (by simpa [hrows] using registers_not_completes hreg)
    have hentry := h.entry o ho
    rw [haddress, hrows] at hentry
    refine h.step_completes ho haddress hsame (by rw [houtdated]; rfl) ?_
      (houtdated ▸ timingStep_outdated h.nodup ho hr record.row.tReal)
    rw [ownRows_concat_self, hrows, ← hentry]
    simp [ownEntry, houtdated]
  · obtain ⟨o, ho, haddress, hsame⟩ := htracked hrows htime
      (by simp [hrows, registers_not_completes hreg, hbegin, completes_begin])
    have hentry := h.entry o ho
    rw [haddress, hrows] at hentry
    refine h.step_completes ho haddress hsame (by rw [hend]; rfl) ?_
      (hend ▸ timingStep_end h.nodup ho hr record.row.tReal)
    rw [ownRows_concat_self, hrows, ← Option.some.inj hentry]
    simp [ownEntry, TimingEntry.setEndDistributionTime, hbegin, hend]

/-! ### Whole logs -/

/-- Every well-formed log is read to its end. -/
theorem read_wellFormed (log : List LogRecord) (hlog : WellFormed log) :
    ∃ r opened, (log.map (·.row)).foldlM (nextRow false) ([], {}) = .ok (expectedEntries log, r) ∧
      Simulates opened r ∧ Ledger log opened := by
  induction log using List.reverseRecOn with
  | nil => exact ⟨{}, [], rfl, simulates_nil, ledger_nil⟩
  | append_singleton past record ih =>
    obtain ⟨r, opened, hread, hr, hledger⟩ := ih hlog.of_append
    obtain ⟨entry, r', opened', hstep, hr', hledger', hyielded⟩ := hledger.step hr hlog
    refine ⟨r', opened', ?_, hr', hledger'⟩
    rw [List.map_append, List.map_singleton, foldlM_nextRow_concat, hread, expectedEntries_concat hlog,
      (yieldedAt_spec hlog).unique hyielded]
    exact bind_eq_ok.mpr ⟨_, rfl, map_eq_ok.mpr ⟨_, hstep, rfl⟩⟩

/-! ### The strict reader -/

theorem Simulates.isSome_iff (h : Simulates opened r) :
    ((r.openEvents tSim).isSome || (r.duplicates tSim).isSome) = true ↔ group opened tSim ≠ [] := by
  rcases h tSim with ⟨o, hgroup, -, hopen, -⟩ | ⟨-, hopen, hdup⟩
  · simp [hgroup, hopen]
  · rw [hopen, hdup]
    by_cases hlength : (group opened tSim).length = 0
    · simp [List.length_eq_zero_iff.mp hlength]
    · rw [if_neg hlength]
      simpa using hlength

/-- The strict reader refuses what would make two events clash, and differs in nothing else. -/
theorem timingStep_strict (r : TimingReader) (row : TimingRow) :
    (registers row.action = true → ((r.openEvents row.tSim).isSome || (r.duplicates row.tSim).isSome) = true →
      ∃ what, r.timingStep true row = .error (.valueError what)) ∧
    (¬(registers row.action = true ∧ ((r.openEvents row.tSim).isSome || (r.duplicates row.tSim).isSome) = true) →
      r.timingStep true row = r.timingStep false row) := by
  have hadd (predicted : Bool) (h : ((r.openEvents row.tSim).isSome || (r.duplicates row.tSim).isSome) = true) :
      ∃ what, r.addNewEvent true row.tSim row.tReal predicted = .error (.valueError what) := by
    rw [addNewEvent, if_pos h, if_pos rfl]
    exact ⟨_, rfl⟩
  have hsame (predicted : Bool) (h : ¬((r.openEvents row.tSim).isSome || (r.duplicates row.tSim).isSome) = true) :
      r.addNewEvent true row.tSim row.tReal predicted = r.addNewEvent false row.tSim row.tReal predicted := by
    rw [addNewEvent, addNewEvent, if_neg h, if_neg h]
  constructor
  · intro hregisters htaken
    cases haction : row.action <;> rw [haction] at hregisters <;> cases hregisters
    all_goals
      obtain ⟨what, hwhat⟩ := hadd _ htaken
      refine ⟨what, ?_⟩
      rw [timingStep, haction]
      dsimp only
      rw [hwhat]
      rfl
  · intro hfree
    have hnot (hregisters : registers row.action = true) := fun htaken => hfree ⟨hregisters, htaken⟩
    rw [timingStep, timingStep]
    cases haction : row.action with
    | realTimeGeneration => rw [hsame false (hnot (by rw [haction]; rfl))]
    | prediction => rw [hsame true (hnot (by rw [haction]; rfl))]
    | beginOfDistribution => rfl
    | endOfDistribution => rfl
    | outdated => rfl

theorem clash_concat : Clash (past ++ [record]) ↔ Clash past ∨
    registers record.row.action = true ∧ ∃ other ≠ record.event, OpenAt past record.row.tSim other := by
  constructor
  · rintro ⟨before, x, after, heq, hx⟩
    rcases List.eq_nil_or_concat after with rfl | ⟨after, last, rfl⟩
    · obtain ⟨rfl, hlast⟩ := List.append_inj' heq rfl
      cases hlast
      exact .inr hx
    · rw [List.concat_eq_append, ← List.cons_append, ← List.append_assoc] at heq
      obtain ⟨rfl, -⟩ := List.append_inj' heq rfl
      exact .inl ⟨before, x, after, rfl, hx⟩
  · rintro (⟨before, x, after, rfl, hx⟩ | hx)
    · exact ⟨before, x, after ++ [record], by simp, hx⟩
    · exact ⟨past, record, [], rfl, hx⟩

/-- Without a clash the strict reader does the same as the other one, and at the first clash it fails. -/
theorem read_strict (log : List LogRecord) (hlog : WellFormed log) :
    (Clash log → ∃ what, (log.map (·.row)).foldlM (nextRow true) ([], {}) = .error (.valueError what)) ∧
    (¬Clash log → (log.map (·.row)).foldlM (nextRow true) ([], {}) =
      (log.map (·.row)).foldlM (nextRow false) ([], {})) := by
  induction log using List.reverseRecOn with
  | nil =>
    refine ⟨?_, fun _ => rfl⟩
    rintro ⟨before, x, after, heq, -⟩
    simp at heq
  | append_singleton past record ih =>
    obtain ⟨hclash, hsame⟩ := ih hlog.of_append
    rw [List.map_append, List.map_singleton, foldlM_nextRow_concat, foldlM_nextRow_concat, clash_concat]
    by_cases hpast : Clash past
    · obtain ⟨what, hwhat⟩ := hclash hpast
      exact ⟨fun _ => ⟨what, by rw [hwhat]; rfl⟩, fun hno => absurd (.inl hpast) hno⟩
    · obtain ⟨r, opened, hread, hr, hledger⟩ := read_wellFormed past hlog.of_append
      obtain ⟨hrefused, hstep⟩ := timingStep_strict r record.row
      have htaken (hregisters : registers record.row.action = true) :
          ((r.openEvents record.row.tSim).isSome || (r.duplicates record.row.tSim).isSome) = true ↔
            ∃ other ≠ record.event, OpenAt past record.row.tSim other := by
        rw [hr.isSome_iff, hledger.group_nonempty]
        refine exists_congr fun other => ⟨fun hother => ⟨?_, hother⟩, And.right⟩
        rintro rfl
        exact not_openAt_of_ownRows_nil (ownRows_of_registers hlog hregisters) hother
      rw [hsame hpast, hread]
      constructor
      · intro hnow
        obtain ⟨hregisters, hother⟩ := hnow.resolve_left hpast
        obtain ⟨what, hwhat⟩ := hrefused hregisters ((htaken hregisters).mpr hother)
        refine ⟨what, ?_⟩
        change nextRow true (expectedEntries past, r) record.row = _
        rw [nextRow, hwhat]
        rfl
      · intro hnow
        change nextRow true (expectedEntries past, r) record.row = nextRow false (expectedEntries past, r) record.row
        rw [nextRow, nextRow, hstep]
        exact fun ⟨hregisters, hsome⟩ => hnow (.inr ⟨hregisters, (htaken hregisters).mp hsome⟩)

/-! ### Files -/

/-- Events that share their simulation time are accounted for: the reader yields the entries of
exactly those completed events that were alone throughout the period in which any event of their time
was open, each at its completing record, and the strict reader fails exactly if two events meet. -/
theorem clashing_times_accounted (float : StdString → Except TimingError ℚ) (text : StdString) (log : List LogRecord)
    (htext : (csvRows text).mapM (extractTimingRecordRow float) = .ok (log.map (·.row))) (hlog : WellFormed log) :
    getTimingEntries false float text = .ok (expectedEntries log) ∧
    (∀ past later, log = past ++ later → ∃ r, (past.map (·.row)).foldlM (nextRow false) ([], {}) =
      .ok ((List.range past.length).filterMap (yieldedAt log), r)) ∧
    ((∃ what, getTimingEntries true float text = .error (.valueError what)) ↔ Clash log) ∧
    (¬Clash log → getTimingEntries true float text = .ok (expectedEntries log)) := by
  obtain ⟨r, opened, hread, -, -⟩ := read_wellFormed log hlog
  obtain ⟨hclash, hsame⟩ := read_strict log hlog
  have hlenient : getTimingEntries false float text = .ok (expectedEntries log) := by
    rw [getTimingEntries_rows false htext, hread]
    rfl
  have hstrict (hno : ¬Clash log) : getTimingEntries true float text = .ok (expectedEntries log) := by
    rw [getTimingEntries_rows true htext, hsame hno, hread]
    rfl
  refine ⟨hlenient, fun past later heq => ?_, ⟨fun hfails => ?_, fun hyes => ?_⟩, hstrict⟩
  · subst heq
    obtain ⟨r, -, hpast, -, -⟩ := read_wellFormed past hlog.of_append
    refine ⟨r, ?_⟩
    rw [hpast, expectedEntries]
    congr 2
    apply List.filterMap_congr
    intro i hi
    exact (yieldedAt_append hlog (List.mem_range.mp hi)).symm
  · by_contra hno
    obtain ⟨what, hwhat⟩ := hfails
    rw [hstrict hno] at hwhat
    cases hwhat
  · obtain ⟨what, hwhat⟩ := hclash hyes
    exact ⟨what, by rw [getTimingEntries_rows true htext, hwhat]; rfl⟩

/-- Two events at time 1 overlap, the third one comes when both are gone. The event at time 2 is still
open at the end. -/
def overlappingLog : List LogRecord :=
  [⟨0, ⟨1, 1, .prediction⟩⟩, ⟨1, ⟨1, 2, .realTimeGeneration⟩⟩, ⟨2, ⟨2, 3, .prediction⟩⟩, ⟨0, ⟨1, 4, .outdated⟩⟩,
    ⟨1, ⟨1, 5, .beginOfDistribution⟩⟩, ⟨1, ⟨1, 6, .endOfDistribution⟩⟩, ⟨3, ⟨1, 7, .prediction⟩⟩,
    ⟨3, ⟨1, 8, .beginOfDistribution⟩⟩, ⟨3, ⟨1, 9, .endOfDistribution⟩⟩]

def overlappingText : StdString :=
  ascii ("-;-;-;-;1;1;1;\n-;-;-;-;1;0;2;\n-;-;-;-;2;1;3;\n-;-;-;-;1;4;4;\n-;-;-;-;1;3;5;\n-;-;-;-;1;2;6;\n" ++
    "-;-;-;-;1;1;7;\n-;-;-;-;1;3;8;\n-;-;-;-;1;2;9;\n")

theorem clashing_times_accounted_overlapping :
    WellFormed overlappingLog ∧
    getTimingEntries false (fun text => .ok (DecimalText.value text)) overlappingText =
      .ok [⟨1, 7, true, true, some 8, some 9⟩] ∧
    ∃ what, getTimingEntries true (fun text => .ok (DecimalText.value text)) overlappingText =
      .error (.valueError what) := by
  have hlog : WellFormed overlappingLog := by decide +kernel
  have hentries : expectedEntries overlappingLog = [⟨1, 7, true, true, some 8, some 9⟩] := by decide +kernel
  have hclash : Clash overlappingLog :=
    ⟨overlappingLog.take 1, ⟨1, ⟨1, 2, .realTimeGeneration⟩⟩, overlappingLog.drop 2, rfl, rfl, 0,
      by decide, by decide +kernel⟩
  have htext : (csvRows overlappingText).mapM (extractTimingRecordRow fun text => .ok (DecimalText.value text)) =
      .ok (overlappingLog.map (·.row)) := by decide +kernel
  obtain ⟨hlenient, -, hstrict, -⟩ := clashing_times_accounted _ overlappingText overlappingLog htext hlog
  exact ⟨hlog, hentries ▸ hlenient, hstrict.mpr hclash⟩

end FMITerminalBlock.Scripts.TimingReader
