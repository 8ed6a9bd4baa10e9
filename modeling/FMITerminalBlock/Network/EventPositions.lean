import FMITerminalBlock.Network.Decoding

/-! Where in the received data the events begin and end, and what the decoder keeps between two
calls. -/
namespace FMITerminalBlock.Network

variable {env : Surroundings}

namespace CompactASN1Subscriber

/-- The position at which the current or else the next event begins. -/
def front (s : CompactASN1Subscriber) : Nat := if s.partialData.isSome then s.eventStart else s.consumed

/-- The positions at which events were started. -/
def starts (s : CompactASN1Subscriber) : List Nat :=
  s.pushed.map PushedEvent.first ++ if s.partialData.isSome then [s.eventStart] else []

theorem pushPartialEvent_of_none {s : CompactASN1Subscriber} (h : s.partialData = none) :
    s.pushPartialEvent = s := by
  simp only [pushPartialEvent, h]

@[simp] theorem pushPartialEvent_starts (s : CompactASN1Subscriber) : s.pushPartialEvent.starts = s.starts := by
  cases hev : s.partialData with
  | none => rw [pushPartialEvent_of_none hev]
  | some ev => simp [pushPartialEvent_of_some hev, starts, hev]

theorem progress_starts {s : CompactASN1Subscriber} (hev : s.partialData.isSome) (next : PartialEvent)
    (rest : List UInt8) : (s.progress next rest).starts = s.starts := by
  simp [starts, progress, consumeTo, hev]

theorem absorb_starts (env : Surroundings) (s : CompactASN1Subscriber) (value : Received) (rest : List UInt8) :
    (s.absorb env value rest).starts = (s.startEvent env).starts := by
  obtain ⟨ev, hev, -⟩ := startEvent_spec env s
  have hprogress := progress_starts (s := s.startEvent env) (by rw [hev]; rfl) (ev.accept env value) rest
  rw [absorb_of_some hev]
  split
  · exact hprogress
  · rw [pushPartialEvent_starts, hprogress]

/-- Nothing is lost or read twice between these states, and events that are pushed in between begin
at the old front or behind it. -/
structure Advances (s r : CompactASN1Subscriber) : Prop where
  total : r.consumed + r.remainingRawData.length = s.consumed + s.remainingRawData.length
  consumed : s.consumed ≤ r.consumed
  front : s.front ≤ r.front
  ordered : s.front ≤ s.consumed → r.front ≤ r.consumed
  starts : ∀ position ∈ s.starts, position ∈ r.starts
  fresh : ∀ position ∈ r.starts, position ∈ s.starts ∨
    s.consumed ≤ position ∧ position < s.consumed + s.remainingRawData.length
  pushed : ∃ new, r.pushed = s.pushed ++ new ∧ ∀ ev ∈ new, s.front ≤ ev.first ∧ ev.last ≤ r.consumed

namespace Advances

theorem refl (s : CompactASN1Subscriber) : Advances s s :=
  ⟨rfl, le_rfl, le_rfl, fun h => h, fun _ h => h, fun _ h => .inl h, [], by simp⟩

theorem trans {s r t : CompactASN1Subscriber} (h : Advances s r) (h' : Advances r t) : Advances s t := by
  obtain ⟨new, hnew, hpos⟩ := h.pushed
  obtain ⟨new', hnew', hpos'⟩ := h'.pushed
  refine ⟨h'.total.trans h.total, h.consumed.trans h'.consumed, h.front.trans h'.front,
    fun hordered => h'.ordered (h.ordered hordered),
    fun position hposition => h'.starts position (h.starts position hposition), ?_, new ++ new', ?_, ?_⟩
  · intro position hposition
    rcases h'.fresh position hposition with hold | hnew
    · exact h.fresh position hold
    · exact .inr ⟨h.consumed.trans hnew.1, h.total ▸ hnew.2⟩
  · rw [hnew', hnew, List.append_assoc]
  · intro ev hev
    rcases List.mem_append.mp hev with hev | hev
    · exact ⟨(hpos ev hev).1, (hpos ev hev).2.trans h'.consumed⟩
    · exact ⟨h.front.trans (hpos' ev hev).1, (hpos' ev hev).2⟩

theorem startEvent (env : Surroundings) {s : CompactASN1Subscriber} (hdata : s.remainingRawData ≠ []) :
    Advances s (s.startEvent env) := by
  unfold CompactASN1Subscriber.startEvent
  split
  · exact refl s
  · rename_i hnone
    refine ⟨rfl, le_rfl, by simp [CompactASN1Subscriber.front, hnone],
      by simp [CompactASN1Subscriber.front], ?_, ?_, [], by simp⟩
    · intro position hposition
      rw [CompactASN1Subscriber.starts, hnone] at hposition
      exact List.mem_append_left _ (by simpa using hposition)
    · intro position hposition
      rcases List.mem_append.mp hposition with hold | hnew
      · exact .inl (List.mem_append_left _ hold)
      · rw [List.mem_singleton.mp hnew]
        exact .inr ⟨le_rfl, Nat.lt_add_of_pos_right (List.length_pos_iff.mpr hdata)⟩

theorem progress {s : CompactASN1Subscriber} (hev : s.partialData.isSome) (next : PartialEvent)
    {rest : List UInt8} (hrest : rest.length ≤ s.remainingRawData.length) : Advances s (s.progress next rest) := by
  have hfront : (s.progress next rest).front = s.front := by
    simp [CompactASN1Subscriber.front, CompactASN1Subscriber.progress, consumeTo, hev]
  have hstarts := progress_starts hev next rest
  refine ⟨?_, Nat.le_add_right _ _, hfront.ge, ?_, fun _ h => hstarts ▸ h, fun _ h => .inl (hstarts ▸ h), [],
    by simp [CompactASN1Subscriber.progress, consumeTo]⟩
  · simp only [CompactASN1Subscriber.progress, consumeTo]
    omega
  · intro hordered
    rw [hfront]
    exact hordered.trans (Nat.le_add_right _ _)

theorem pushPartialEvent {s : CompactASN1Subscriber} (hordered : s.front ≤ s.consumed) :
    Advances s s.pushPartialEvent := by
  have hstarts := s.pushPartialEvent_starts
  cases hev : s.partialData with
  | none =>
    rw [pushPartialEvent_of_none hev]
    exact refl s
  | some ev =>
    have hfront : s.front = s.eventStart := by simp [CompactASN1Subscriber.front, hev]
    rw [pushPartialEvent_of_some hev] at hstarts ⊢
    refine ⟨rfl, le_rfl, hordered, fun _ => le_rfl, fun _ h => hstarts ▸ h, fun _ h => .inl (hstarts ▸ h), [_],
      rfl, ?_⟩
    intro pushed hpushed
    rw [List.mem_singleton.mp hpushed]
    exact ⟨hfront.le, le_rfl⟩

theorem clearUnprocessedData (s : CompactASN1Subscriber) : Advances s s.clearUnprocessedData := by
  refine ⟨?_, Nat.le_add_right _ _, ?_, ?_, fun _ h => h, fun _ h => .inl h, [],
    by simp [CompactASN1Subscriber.clearUnprocessedData, consumeTo]⟩
  · simp [CompactASN1Subscriber.clearUnprocessedData, consumeTo]
  · unfold CompactASN1Subscriber.front
    cases hev : s.partialData <;> simp [CompactASN1Subscriber.clearUnprocessedData, consumeTo, hev]
  · unfold CompactASN1Subscriber.front
    cases hev : s.partialData with
    | none => simp [hev]
    | some ev =>
      simp only [clearUnprocessedData_partialData, hev, Option.isSome_some, if_true]
      exact fun hordered => hordered.trans (Nat.le_add_right _ _)

theorem absorb (env : Surroundings) {s : CompactASN1Subscriber} (hordered : s.front ≤ s.consumed)
    (hdata : s.remainingRawData ≠ []) (value : Received) {rest : List UInt8}
    (hrest : rest.length ≤ s.remainingRawData.length) :
    Advances (s.startEvent env) (s.absorb env value rest) := by
  obtain ⟨ev, hev, -⟩ := startEvent_spec env s
  have hprogress : Advances (s.startEvent env) ((s.startEvent env).progress (ev.accept env value) rest) :=
    progress (by rw [hev]; rfl) _ (by simpa using hrest)
  rw [absorb_of_some hev]
  split
  · exact hprogress
  · exact hprogress.trans (pushPartialEvent (hprogress.ordered ((startEvent env hdata).ordered hordered)))

end Advances
theorem front_mem_starts (env : Surroundings) (s : CompactASN1Subscriber) : s.front ∈ (s.startEvent env).starts := by
  cases hev : s.partialData with
  | none => simp [front, starts, startEvent, hev]
  | some ev => simp [front, starts, startEvent, hev]

/-- Decoding advances, and the event of the first byte begins at the front. -/
theorem Decodes.advances {s r : CompactASN1Subscriber} (h : Decodes env s r) (hordered : s.front ≤ s.consumed) :
    Advances s r ∧ (s.remainingRawData ≠ [] → s.front ∈ r.starts) := by
  induction h with
  | finished hdata => exact ⟨.refl _, fun hne => absurd hdata hne⟩
  | @value s r value rest hread hr ih =>
    have hshorter := (readValue_suffix hread).2
    have hdata : s.remainingRawData ≠ [] := List.length_pos_iff.mp (by omega)
    have habsorb := Advances.absorb env hordered hdata value hshorter.le
    have hstart := Advances.startEvent env hdata
    have hrest := (ih (habsorb.ordered (hstart.ordered hordered))).1
    exact ⟨hstart.trans (habsorb.trans hrest),
      fun _ => (habsorb.trans hrest).starts _ (front_mem_starts env s)⟩
  | @incomplete s missing hdata hread => exact ⟨.startEvent env hdata, fun _ => front_mem_starts env s⟩
  | @invalid s missing hdata hread =>
    have hstart := Advances.startEvent env hdata
    have hpush := Advances.pushPartialEvent (hstart.ordered hordered)
    have hclear := hpush.trans (.clearUnprocessedData _)
    exact ⟨hstart.trans hclear, fun _ => hclear.starts _ (front_mem_starts env s)⟩

/-- The data that is kept does not hold a complete value. -/
def Stuck (s : CompactASN1Subscriber) : Prop :=
  s.remainingRawData = [] ∨
    s.partialData.isSome ∧ ∃ missing, readValue s.remainingRawData = .error ⟨.incomplete, missing⟩

theorem Decodes.stuck {s r : CompactASN1Subscriber} (h : Decodes env s r) : r.Stuck := by
  induction h with
  | finished hdata => exact .inl hdata
  | value _ _ ih => exact ih
  | @incomplete s missing hdata hread =>
    obtain ⟨ev, hev, -⟩ := startEvent_spec env s
    exact .inr ⟨by rw [hev]; rfl, missing, by simpa using hread⟩
  | invalid => exact .inl rfl

/-- No data changes nothing. -/
theorem Stuck.commitData_nil {s : CompactASN1Subscriber} (h : s.Stuck) (hready : s.Ready) :
    commitData env s [] = some s := by
  have hsame : { s with remainingRawData := s.remainingRawData ++ [] } = s := by rw [List.append_nil]
  rw [commitData, hsame]
  apply commitLoop_of_decodes hready
  by_cases hdata : s.remainingRawData = []
  · exact .finished hdata
  · obtain ⟨hsome, missing, hread⟩ := h.resolve_left hdata
    obtain ⟨ev, hev⟩ := Option.isSome_iff_exists.mp hsome
    have hdecodes : Decodes env s (s.startEvent env) := .incomplete hdata hread
    rwa [startEvent_of_some hev] at hdecodes

/-- Data that continues an event begins no event with its first byte. -/
theorem Decodes.starts_of_partial {s r : CompactASN1Subscriber} (hr : Decodes env s r) (hready : s.Ready)
    (hordered : s.front ≤ s.consumed) {ev : PartialEvent} (hev : s.partialData = some ev)
    {held data : List UInt8} (hbuffer : s.remainingRawData = held ++ data)
    (hheld : held = [] ∨ ∃ missing, readValue held = .error ⟨.incomplete, missing⟩) :
    ∀ position ∈ r.starts, position ∈ s.starts ∨ s.consumed + held.length < position := by
  have hstart : s.startEvent env = s := startEvent_of_some hev
  intro position hposition
  cases hr with
  | finished => exact .inl hposition
  | @value _ _ value rest hread hrest =>
    have hshorter := (readValue_suffix hread).2
    have hdata : s.remainingRawData ≠ [] := List.length_pos_iff.mp (by omega)
    have hnew : rest.length < data.length := by
      by_contra hcontra
      by_cases hnil : held = []
      · rw [hbuffer, hnil, List.nil_append] at hshorter
        exact hcontra hshorter
      · obtain ⟨missing, herror⟩ := hheld.resolve_left hnil
        rw [hbuffer] at hread
        obtain ⟨_, hok⟩ := readValue_of_append hnil hread (not_lt.mp hcontra)
        rw [herror] at hok
        cases hok
    have habsorb := Advances.absorb env hordered hdata value hshorter.le
    have htotal := habsorb.total
    rw [hstart] at habsorb htotal
    rw [(hready.absorb env value rest).2, hbuffer, List.length_append] at htotal
    rcases (hrest.advances (habsorb.ordered hordered)).1.fresh position hposition with hold | hlater
    · rw [absorb_starts, hstart] at hold
      exact .inl hold
    · right
      omega
  | incomplete =>
    rw [hstart] at hposition
    exact .inl hposition
  | invalid =>
    rw [hstart] at hposition
    have hsame : s.pushPartialEvent.clearUnprocessedData.starts = s.pushPartialEvent.starts := rfl
    rw [hsame, pushPartialEvent_starts] at hposition
    exact .inl hposition

end CompactASN1Subscriber
end FMITerminalBlock.Network
