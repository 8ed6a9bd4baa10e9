import FMITerminalBlock.Library.Segmentation
import FMITerminalBlock.Network.Framing

/-! What `commitData` makes of complete values and of an incomplete one at the end, one value at a
time and independent of the nesting of the two loops. -/
namespace FMITerminalBlock.Network
open Base Timing ASN1Commons

variable {env : Surroundings}

/-- The event after one more value. -/
def PartialEvent.accept (env : Surroundings) (ev : PartialEvent) (value : Received) : PartialEvent :=
  match env.convert ev.getNextPortType value with
  | some converted => ev.pushNextValue (.of _ converted)
  | none => ev.ignoreNextValue

theorem PartialEvent.hasRemainingElements_iff (ev : PartialEvent) :
    ev.hasRemainingElements = true ↔ 0 < ev.remaining := by
  simp [hasRemainingElements, remaining]

theorem PartialEvent.accept_remaining (ev : PartialEvent) (value : Received) :
    (ev.accept env value).remaining = ev.remaining - 1 := by
  rw [accept]
  split
  · exact Nat.sub_add_eq _ _ 1
  · exact Nat.sub_add_eq _ _ 1

/-! ### Reading one value -/

private theorem readNumber_suffix {size : Nat} {make : Nat → Received} {buffer rest : List UInt8}
    {value : Received} (h : readNumber size make buffer = .ok (value, rest)) :
    rest <:+ buffer ∧ rest.length < buffer.length := by
  unfold readNumber at h
  split at h
  · cases h
  · cases h
    refine ⟨(List.drop_suffix _ _).trans (List.drop_suffix _ _), ?_⟩
    simp only [List.length_drop]
    omega

private theorem drop_one_suffix {buffer : List UInt8} (h : buffer ≠ []) :
    buffer.drop 1 <:+ buffer ∧ (buffer.drop 1).length < buffer.length := by
  have hpos := List.length_pos_iff.mpr h
  refine ⟨List.drop_suffix _ _, ?_⟩
  rw [List.length_drop]
  omega

private theorem readFunction_suffix {tag : UInt8}
    {read : List UInt8 → Except ParsingStatus (Received × List UInt8)} (h : readFunction tag = some read)
    {buffer rest : List UInt8} {value : Received} (hbuffer : buffer ≠ [])
    (hread : read buffer = .ok (value, rest)) : rest <:+ buffer ∧ rest.length < buffer.length := by
  unfold readFunction at h
  split_ifs at h <;> cases h
  · exact readNumber_suffix hread
  · exact readNumber_suffix hread
  · unfold readSTRINGVariable at hread
    dsimp only at hread
    split_ifs at hread
    cases hread
    refine ⟨List.drop_suffix _ _, ?_⟩
    rw [List.length_drop]
    omega
  · cases hread
    exact drop_one_suffix hbuffer
  · cases hread
    exact drop_one_suffix hbuffer
  · exact readNumber_suffix hread

/-- A complete value is taken from the front of the buffer. -/
theorem readValue_suffix {buffer rest : List UInt8} {value : Received}
    (h : readValue buffer = .ok (value, rest)) : rest <:+ buffer ∧ rest.length < buffer.length := by
  unfold readValue at h
  split at h
  · cases h
  · split at h
    · rename_i hread
      exact readFunction_suffix hread (List.cons_ne_nil _ _) h
    · cases h

private theorem readNumber_of_append {size : Nat} {make : Nat → Received} {front data rest : List UInt8}
    {value : Received} (h : readNumber size make (front ++ data) = .ok (value, rest))
    (hlength : data.length ≤ rest.length) : ∃ r, readNumber size make front = .ok r := by
  unfold readNumber at h
  split at h
  · cases h
  · cases h
    simp only [List.length_drop, List.length_append] at *
    exact ⟨_, by rw [readNumber, if_neg (by omega)]⟩

/-- A value that ends within the front of the data is read from the front alone. -/
theorem readValue_of_append {front data rest : List UInt8} {value : Received} (hfront : front ≠ [])
    (h : readValue (front ++ data) = .ok (value, rest)) (hlength : data.length ≤ rest.length) :
    ∃ r, readValue front = .ok r := by
  obtain ⟨tag, body, rfl⟩ := List.exists_cons_of_ne_nil hfront
  cases hread : readFunction tag with
  | none =>
    simp only [List.cons_append, readValue, hread] at h
    cases h
  | some read =>
    rw [List.cons_append, readValue_cons hread, ← List.cons_append] at h
    rw [readValue_cons hread]
    unfold readFunction at hread
    split_ifs at hread <;> cases hread
    · exact readNumber_of_append h hlength
    · exact readNumber_of_append h hlength
    · simp only [readSTRINGVariable] at h ⊢
      split_ifs at h with hheader htext
      cases h
      simp only [List.length_drop, List.length_append, List.cons_append, List.length_cons, List.drop_one,
        List.tail_cons] at hheader htext hlength ⊢
      -- The length field lies within the front.
      have hfield : (body ++ data).take 2 = body.take 2 := List.take_append_of_le_length (by omega)
      rw [hfield] at htext hlength
      exact ⟨_, by rw [if_neg (by omega), if_neg (by omega)]⟩
    · exact ⟨_, rfl⟩
    · exact ⟨_, rfl⟩
    · exact readNumber_of_append h hlength

private theorem readFunction_error {tag : UInt8}
    {read : List UInt8 → Except ParsingStatus (Received × List UInt8)} (h : readFunction tag = some read)
    {buffer : List UInt8} {status : ParsingStatus} (hread : read buffer = .error status) :
    status.state = .incomplete := by
  have hnumber {size : Nat} {make : Nat → Received} (hnum : readNumber size make buffer = .error status) :
      status.state = .incomplete := by
    unfold readNumber at hnum
    split at hnum <;> cases hnum
    rfl
  unfold readFunction at h
  split_ifs at h <;> cases h
  · exact hnumber hread
  · exact hnumber hread
  · unfold readSTRINGVariable at hread
    dsimp only at hread
    split_ifs at hread <;> cases hread <;> rfl
  · cases hread
  · cases hread
  · exact hnumber hread

theorem readValue_error {buffer : List UInt8} {status : ParsingStatus} (h : readValue buffer = .error status) :
    status.state = .incomplete ∨ status.state = .invalidBufferContent := by
  unfold readValue at h
  split at h
  · cases h
    exact .inl rfl
  · split at h
    · rename_i hread
      exact .inl (readFunction_error hread h)
    · cases h
      exact .inr rfl

/-! ### The inner loop -/

/-- The loop goes on after these states. -/
def ParsingStatus.Proceeds (status : ParsingStatus) : Prop :=
  status.state = .ok ∨ status.state = .typeConversionError

/-- One turn on a complete value. -/
theorem processLoop_value (env : Surroundings) (turns : Nat) {status : ParsingStatus} {ev : PartialEvent}
    {buffer rest : List UInt8} {value : Received} (hstatus : status.Proceeds)
    (hremaining : ev.hasRemainingElements = true) (hbuffer : buffer ≠ [])
    (hread : readValue buffer = .ok (value, rest)) :
    ∃ status' : ParsingStatus, status'.Proceeds ∧ processLoop env (turns + 1) status ev buffer =
      processLoop env turns status' (ev.accept env value) rest := by
  rw [processLoop, if_pos ⟨hbuffer, hremaining, hstatus⟩, PartialEvent.accept]
  simp only [readNextVariable, hread]
  cases env.convert ev.getNextPortType value with
  | none => exact ⟨⟨.typeConversionError, 0⟩, .inr rfl, rfl⟩
  | some converted => exact ⟨⟨.ok, 0⟩, .inl rfl, rfl⟩

theorem processLoop_error {turns : Nat} {status : ParsingStatus} {ev : PartialEvent} {buffer : List UInt8}
    {error : ParsingStatus} (hstatus : status.Proceeds) (hremaining : ev.hasRemainingElements = true)
    (hbuffer : buffer ≠ []) (hread : readValue buffer = .error error) :
    processLoop env (turns + 1) status ev buffer = (error, ev, buffer) := by
  rw [processLoop, if_pos ⟨hbuffer, hremaining, hstatus⟩]
  simp only [readNextVariable, hread]
  have herror := readValue_error hread
  obtain ⟨state, missing⟩ := error
  rcases herror with rfl | rfl
  · rfl
  · rfl

theorem processLoop_done {turns : Nat} {status : ParsingStatus} {ev : PartialEvent} {buffer : List UInt8}
    (h : ¬(buffer ≠ [] ∧ ev.hasRemainingElements = true ∧ status.Proceeds)) :
    processLoop env turns status ev buffer = (status, ev, buffer) := by
  cases turns with
  | zero => rfl
  | succ turns =>
    rw [processLoop, if_neg]
    exact h

/-- The state a turn starts with does not matter as long as the turn takes place. -/
theorem processLoop_status {turns : Nat} {status : ParsingStatus} {ev : PartialEvent} {buffer : List UInt8}
    (hstatus : status.Proceeds) (hremaining : ev.hasRemainingElements = true) (hbuffer : buffer ≠ []) :
    processLoop env (turns + 1) status ev buffer = processLoop env (turns + 1) ⟨.ok, 0⟩ ev buffer := by
  rw [processLoop, processLoop, if_pos ⟨hbuffer, hremaining, hstatus⟩, if_pos ⟨hbuffer, hremaining, .inl rfl⟩]

theorem processLoop_suffix (env : Surroundings) (turns : Nat) (status : ParsingStatus) (ev : PartialEvent)
    (buffer : List UInt8) :
    (processLoop env turns status ev buffer).2.2 <:+ buffer := by
  induction turns generalizing status ev buffer with
  | zero => exact List.suffix_rfl
  | succ turns ih =>
    by_cases hturn : (buffer ≠ [] ∧ ev.hasRemainingElements = true) ∧ status.Proceeds
    · obtain ⟨⟨hbuffer, hremaining⟩, hstatus⟩ := hturn
      cases hread : readValue buffer with
      | ok r =>
        obtain ⟨value, rest⟩ := r
        obtain ⟨status', -, heq⟩ := processLoop_value env turns hstatus hremaining hbuffer hread
        rw [heq]
        exact (ih _ _ _).trans (readValue_suffix hread).1
      | error error => rw [processLoop_error hstatus hremaining hbuffer hread]
    · rw [processLoop, if_neg fun h => hturn ⟨⟨h.1, h.2.1⟩, h.2.2⟩]

/-! ### The outer loop -/

namespace CompactASN1Subscriber

/-- The event under construction is never complete, and neither is a new one. -/
def Ready (s : CompactASN1Subscriber) : Prop :=
  s.portIDs ≠ [] ∧ ∀ ev ∈ s.partialData, ev.hasRemainingElements = true

/-- The subscriber after the value at the front of its buffer. -/
def absorb (env : Surroundings) (s : CompactASN1Subscriber) (value : Received) (rest : List UInt8) :
    CompactASN1Subscriber :=
  let s := s.startEvent env
  match s.partialData with
  | none => s
  | some ev =>
    let s := s.progress (ev.accept env value) rest
    if (ev.accept env value).hasRemainingElements then s else s.pushPartialEvent

/-- What happens to the data of a buffer, value by value. -/
inductive Decodes (env : Surroundings) : CompactASN1Subscriber → CompactASN1Subscriber → Prop where
  | finished {s} : s.remainingRawData = [] → Decodes env s s
  | value {s r value rest} : readValue s.remainingRawData = .ok (value, rest) →
      Decodes env (s.absorb env value rest) r → Decodes env s r
  | incomplete {s missing} : s.remainingRawData ≠ [] →
      readValue s.remainingRawData = .error ⟨.incomplete, missing⟩ → Decodes env s (s.startEvent env)
  | invalid {s missing} : s.remainingRawData ≠ [] →
      readValue s.remainingRawData = .error ⟨.invalidBufferContent, missing⟩ →
      Decodes env s (s.startEvent env).pushPartialEvent.clearUnprocessedData

theorem startEvent_spec (env : Surroundings) (s : CompactASN1Subscriber) :
    ∃ ev, (s.startEvent env).partialData = some ev ∧
    (s.partialData = some ev ∨ s.partialData = none ∧ ev.portTemplate = s.portIDs ∧ ev.nextTemplateIndex = 0) := by
  rw [startEvent]
  split
  · rename_i ev h
    exact ⟨ev, h, .inl h⟩
  · rename_i h
    exact ⟨_, rfl, .inr ⟨h, rfl, rfl⟩⟩

@[simp] theorem startEvent_remainingRawData (s : CompactASN1Subscriber) :
    (s.startEvent env).remainingRawData = s.remainingRawData := by
  rw [startEvent]
  split <;> rfl

@[simp] theorem startEvent_portIDs (s : CompactASN1Subscriber) : (s.startEvent env).portIDs = s.portIDs := by
  rw [startEvent]
  split <;> rfl

theorem startEvent_of_some {s : CompactASN1Subscriber} {ev : PartialEvent} (h : s.partialData = some ev) :
    s.startEvent env = s := by
  rw [startEvent]
  split
  · rfl
  · rename_i hnone
    rw [hnone] at h
    cases h

theorem Ready.exists_event {s : CompactASN1Subscriber} (h : s.Ready) (env : Surroundings) : ∃ ev,
    (s.startEvent env).partialData = some ev ∧ ev.hasRemainingElements = true := by
  obtain ⟨ev, hev, hold | ⟨-, hports, hindex⟩⟩ := startEvent_spec env s
  · exact ⟨ev, hev, h.2 ev hold⟩
  · refine ⟨ev, hev, ?_⟩
    rw [PartialEvent.hasRemainingElements_iff, PartialEvent.remaining, hports, hindex]
    exact List.length_pos_iff.mpr h.1

theorem Ready.startEvent {s : CompactASN1Subscriber} (h : s.Ready) : (s.startEvent env).Ready := by
  obtain ⟨ev, hev, hremaining⟩ := h.exists_event env
  refine ⟨by simpa using h.1, ?_⟩
  rw [hev]
  rintro _ ⟨⟩
  exact hremaining

theorem pushPartialEvent_of_some {s : CompactASN1Subscriber} {ev : PartialEvent} (h : s.partialData = some ev) :
    s.pushPartialEvent =
      { s with partialData := none, pushed := s.pushed ++ [⟨ev, s.eventStart, s.consumed⟩] } := by
  simp only [pushPartialEvent, h]

@[simp] theorem pushPartialEvent_portIDs (s : CompactASN1Subscriber) : s.pushPartialEvent.portIDs = s.portIDs := by
  rw [pushPartialEvent]
  split <;> rfl

@[simp] theorem pushPartialEvent_partialData (s : CompactASN1Subscriber) : s.pushPartialEvent.partialData = none := by
  rw [pushPartialEvent]
  split
  · assumption
  · rfl

@[simp] theorem pushPartialEvent_remainingRawData (s : CompactASN1Subscriber) :
    s.pushPartialEvent.remainingRawData = s.remainingRawData := by
  rw [pushPartialEvent]
  split <;> rfl

@[simp] theorem clearUnprocessedData_remainingRawData (s : CompactASN1Subscriber) :
    s.clearUnprocessedData.remainingRawData = [] := rfl

@[simp] theorem clearUnprocessedData_portIDs (s : CompactASN1Subscriber) :
    s.clearUnprocessedData.portIDs = s.portIDs := rfl

@[simp] theorem clearUnprocessedData_partialData (s : CompactASN1Subscriber) :
    s.clearUnprocessedData.partialData = s.partialData := rfl

/-- `absorb` by the event it extends. -/
theorem absorb_of_some {s : CompactASN1Subscriber} {ev : PartialEvent}
    (h : (s.startEvent env).partialData = some ev) (value : Received) (rest : List UInt8) :
    s.absorb env value rest =
      if (ev.accept env value).hasRemainingElements then
        (s.startEvent env).progress (ev.accept env value) rest
      else ((s.startEvent env).progress (ev.accept env value) rest).pushPartialEvent := by
  simp only [absorb, h]

theorem Ready.absorb {s : CompactASN1Subscriber} (h : s.Ready) (env : Surroundings) (value : Received)
    (rest : List UInt8) :
    (s.absorb env value rest).Ready ∧ (s.absorb env value rest).remainingRawData = rest := by
  obtain ⟨ev, hev, -⟩ := h.exists_event env
  rw [absorb_of_some hev]
  split
  · rename_i hremaining
    refine ⟨⟨by simpa [progress, consumeTo] using h.1, ?_⟩, rfl⟩
    rintro _ ⟨⟩
    exact hremaining
  · exact ⟨⟨by simpa [progress, consumeTo] using h.1, by simp⟩, by simp [progress, consumeTo]⟩

private theorem Ready.process_error {s : CompactASN1Subscriber} {status : ParsingStatus} (h : s.Ready)
    (hdata : s.remainingRawData ≠ []) (hread : readValue s.remainingRawData = .error status) :
    ∃ ev, (s.startEvent env).partialData = some ev ∧
      processRawDataToEvent env ev s.remainingRawData = (status, ev, s.remainingRawData) := by
  obtain ⟨ev, hev, hremaining⟩ := h.exists_event env
  refine ⟨ev, hev, ?_⟩
  obtain ⟨k, hk⟩ : ∃ k, ev.remaining = k + 1 :=
    Nat.exists_eq_succ_of_ne_zero (Nat.pos_iff_ne_zero.mp (ev.hasRemainingElements_iff.mp hremaining))
  rw [processRawDataToEvent, hk, processLoop_error (.inl rfl) hremaining hdata hread]

theorem commitLoop_started {s : CompactASN1Subscriber} {ev ev' : PartialEvent} {status : ParsingStatus}
    {rest : List UInt8} (hdata : s.remainingRawData ≠ []) (hev : (s.startEvent env).partialData = some ev)
    (hloop : processRawDataToEvent env ev s.remainingRawData = (status, ev', rest)) (turns : Nat) :
    commitLoop env (turns + 1) s =
      let s := (s.startEvent env).progress ev' rest
      match status.state with
      | .invalidBufferContent => commitLoop env turns s.pushPartialEvent.clearUnprocessedData
      | .incomplete => some s
      | _ => commitLoop env turns (if ev'.hasRemainingElements then s else s.pushPartialEvent) := by
  rw [commitLoop, if_neg hdata]
  cases hstate : status.state <;> simp only [hev, startEvent_remainingRawData, hloop, hstate]

/-- More turns than needed do not change the result. -/
theorem commitLoop_succ {turns : Nat} {s r : CompactASN1Subscriber} (h : commitLoop env turns s = some r) :
    commitLoop env (turns + 1) s = some r := by
  induction turns generalizing s with
  | zero => cases h
  | succ turns ih =>
    by_cases hdata : s.remainingRawData = []
    · rw [commitLoop, if_pos hdata] at h ⊢
      exact h
    · obtain ⟨ev, hev, -⟩ := startEvent_spec env s
      obtain ⟨⟨status, ev', rest⟩, hloop⟩ : ∃ r, processRawDataToEvent env ev s.remainingRawData = r := ⟨_, rfl⟩
      rw [commitLoop_started hdata hev hloop] at h ⊢
      obtain ⟨state, missing⟩ := status
      cases state with
      | ok => exact ih h
      | typeConversionError => exact ih h
      | invalidBufferContent => exact ih h
      | incomplete => exact h

theorem commitLoop_mono {turns more : Nat} (hle : turns ≤ more) {s r : CompactASN1Subscriber}
    (h : commitLoop env turns s = some r) : commitLoop env more s = some r := by
  induction hle with
  | refl => exact h
  | step _ ih => exact commitLoop_succ ih

private theorem progress_progress {s : CompactASN1Subscriber} {ev ev' : PartialEvent} {rest rest' : List UInt8}
    (h : rest <:+ s.remainingRawData) (h' : rest' <:+ rest) :
    (s.progress ev rest).progress ev' rest' = s.progress ev' rest' := by
  have hlength := h.length_le
  have hlength' := h'.length_le
  have hconsumed : s.consumed + (s.remainingRawData.length - rest.length) + (rest.length - rest'.length) =
      s.consumed + (s.remainingRawData.length - rest'.length) := by omega
  simp only [progress, consumeTo, hconsumed]

private theorem progress_same {s : CompactASN1Subscriber} {ev : PartialEvent}
    (h : (s.startEvent env).partialData = some ev) :
    (s.startEvent env).progress ev s.remainingRawData = s.startEvent env := by
  obtain ⟨t, ht⟩ : ∃ t, t = s.startEvent env := ⟨_, rfl⟩
  have hdata : s.remainingRawData = t.remainingRawData := by rw [ht, startEvent_remainingRawData]
  rw [← ht] at h ⊢
  rw [hdata, progress, consumeTo, Nat.sub_self, Nat.add_zero, ← h]

private theorem commitLoop_value {s r : CompactASN1Subscriber} {value : Received} {rest : List UInt8} (h : s.Ready)
    (hread : readValue s.remainingRawData = .ok (value, rest))
    (hrest : commitLoop env (rest.length + 1) (s.absorb env value rest) = some r) :
    commitLoop env (s.remainingRawData.length + 1) s = some r := by
  obtain ⟨hsuffix, hshorter⟩ := readValue_suffix hread
  have hdata : s.remainingRawData ≠ [] := List.length_pos_iff.mp (by omega)
  obtain ⟨ev, hev, hremaining⟩ := h.exists_event env
  obtain ⟨k, hk⟩ : ∃ k, ev.remaining = k + 1 :=
    Nat.exists_eq_succ_of_ne_zero (Nat.pos_iff_ne_zero.mp (ev.hasRemainingElements_iff.mp hremaining))
  have hok : ParsingStatus.Proceeds ⟨.ok, 0⟩ := .inl rfl
  obtain ⟨status, hstatus, hturn⟩ := processLoop_value env k hok hremaining hdata hread
  rw [absorb_of_some hev] at hrest
  -- The inner loop goes on when there are data and ports left; otherwise the outer loop takes over.
  by_cases hmore : rest ≠ [] ∧ (ev.accept env value).hasRemainingElements = true
  · obtain ⟨hrestdata, hremaining'⟩ := hmore
    obtain ⟨j, rfl⟩ : ∃ j, k = j + 1 := by
      have hpos := (PartialEvent.hasRemainingElements_iff _).mp hremaining'
      rw [PartialEvent.accept_remaining, hk] at hpos
      exact Nat.exists_eq_succ_of_ne_zero (Nat.pos_iff_ne_zero.mp hpos)
    obtain ⟨⟨status', ev', rest'⟩, hloop'⟩ :
        ∃ r, processRawDataToEvent env (ev.accept env value) rest = r := ⟨_, rfl⟩
    have hloop : processRawDataToEvent env ev s.remainingRawData = (status', ev', rest') := by
      rw [processRawDataToEvent, hk, hturn, processLoop_status hstatus hremaining' hrestdata, ← hloop',
        processRawDataToEvent, PartialEvent.accept_remaining, hk]
      rfl
    have hsuffix' : rest' <:+ rest := by
      have hloopsuffix := processLoop_suffix env (ev.accept env value).remaining ⟨.ok, 0⟩
        (ev.accept env value) rest
      rwa [← processRawDataToEvent, hloop'] at hloopsuffix
    have hstarted : ((s.startEvent env).progress (ev.accept env value) rest).startEvent env =
        (s.startEvent env).progress (ev.accept env value) rest := startEvent_of_some rfl
    rw [if_pos hremaining', commitLoop_started hrestdata (hstarted ▸ rfl) hloop', hstarted,
      progress_progress (by rwa [startEvent_remainingRawData]) hsuffix'] at hrest
    rw [commitLoop_started hdata hev hloop]
    have hle : rest.length ≤ s.remainingRawData.length := hshorter.le
    obtain ⟨state, missing⟩ := status'
    cases state with
    | ok => exact commitLoop_mono hle hrest
    | typeConversionError => exact commitLoop_mono hle hrest
    | invalidBufferContent => exact commitLoop_mono hle hrest
    | incomplete => exact hrest
  · have hloop : processRawDataToEvent env ev s.remainingRawData = (status, ev.accept env value, rest) := by
      rw [processRawDataToEvent, hk, hturn, processLoop_done fun h => hmore ⟨h.1, h.2.1⟩]
    rw [commitLoop_started hdata hev hloop]
    have hnext := commitLoop_mono (Nat.succ_le_of_lt hshorter) hrest
    obtain ⟨state, missing⟩ := status
    rcases hstatus with rfl | rfl
    · exact hnext
    · exact hnext

theorem commitLoop_of_decodes {s r : CompactASN1Subscriber} (h : s.Ready) (hr : Decodes env s r) :
    commitLoop env (s.remainingRawData.length + 1) s = some r := by
  induction hr with
  | finished hdata => rw [commitLoop, if_pos hdata]
  | @value s r value rest hread hdecodes ih =>
    obtain ⟨hready, hrest⟩ := h.absorb env value rest
    have hloop := ih hready
    rw [hrest] at hloop
    exact commitLoop_value h hread hloop
  | @incomplete s missing hdata hread =>
    obtain ⟨ev, hev, hloop⟩ := h.process_error hdata hread
    rw [commitLoop_started hdata hev hloop]
    exact congrArg some (progress_same hev)
  | @invalid s missing hdata hread =>
    obtain ⟨ev, hev, hloop⟩ := h.process_error hdata hread
    obtain ⟨turns, hturns⟩ := Nat.exists_eq_succ_of_ne_zero (List.length_pos_iff.mpr hdata).ne'
    rw [commitLoop_started hdata hev hloop, hturns]
    simp only [progress_same hev]
    rw [commitLoop, if_pos (clearUnprocessedData_remainingRawData _)]

theorem Ready.exists_decodes {s : CompactASN1Subscriber} (h : s.Ready) (env : Surroundings) :
    ∃ r, Decodes env s r ∧ r.Ready := by
  induction hlength : s.remainingRawData.length using Nat.strong_induction_on generalizing s with
  | _ n ih =>
    subst hlength
    by_cases hdata : s.remainingRawData = []
    · exact ⟨s, .finished hdata, h⟩
    cases hread : readValue s.remainingRawData with
    | ok r =>
      obtain ⟨value, rest⟩ := r
      obtain ⟨hready, hrest⟩ := h.absorb env value rest
      obtain ⟨r, hr, hrready⟩ := ih rest.length (readValue_suffix hread).2 hready (by rw [hrest])
      exact ⟨r, .value hread hr, hrready⟩
    | error status =>
      obtain ⟨state, missing⟩ := status
      rcases readValue_error hread with rfl | rfl
      · exact ⟨_, .incomplete hdata hread, h.startEvent⟩
      · exact ⟨_, .invalid hdata hread, by simpa using h.1, by simp⟩

/-- `commitData` terminates on every data, and decodes it value by value. -/
theorem commitData_spec (env : Surroundings) {s : CompactASN1Subscriber} (h : s.Ready) (data : List UInt8) :
    ∃ r, commitData env s data = some r ∧ r.Ready ∧
      Decodes env { s with remainingRawData := s.remainingRawData ++ data } r := by
  have hready : { s with remainingRawData := s.remainingRawData ++ data }.Ready := h
  obtain ⟨r, hr, hrready⟩ := hready.exists_decodes env
  exact ⟨r, commitLoop_of_decodes hready hr, hrready, hr⟩

theorem Ready.commitData {s t : CompactASN1Subscriber} (h : s.Ready) {data : List UInt8}
    (ht : s.commitData env data = some t) : t.Ready := by
  obtain ⟨r, hr, hready, -⟩ := commitData_spec env h data
  rw [hr, Option.some.injEq] at ht
  rwa [← ht]

theorem Ready.handlePacketTimeout {s : CompactASN1Subscriber} (h : s.Ready) : s.handlePacketTimeout.Ready := by
  unfold CompactASN1Subscriber.handlePacketTimeout
  split
  · exact ⟨by simpa using h.1, by simp⟩
  · exact h

theorem ready_new {ports : List PortID} (hne : ports ≠ []) : Ready { portIDs := ports } :=
  ⟨hne, fun ev hev => by cases hev⟩

theorem init_eq {settings : TransmissionChannel} {s : CompactASN1Subscriber}
    (h : init { portIDs := [] } settings = .ok s) : s = { portIDs := settings.portIDs } ∧ s.Ready := by
  unfold init at h
  split at h
  · cases h
  · rename_i hports
    cases h
    have hne : settings.portIDs ≠ [] := by
      intro hnil
      apply hports
      rw [hnil]
      exact le_rfl
    exact ⟨rfl, ready_new hne⟩

end CompactASN1Subscriber
end FMITerminalBlock.Network
