import FMITerminalBlock.Timing.EventLedger

/-! The records of a run in the order of the timing file: each of them is about an event object that was
created, and the dispatcher thread ends a distribution before it begins the next one. -/
namespace FMITerminalBlock.Timing.EventDispatcher
open TimedEventQueue
variable {π ξ ε φ : Type}

/-- The stages that `processEvent` writes. -/
def ofDistribution : ProcessingStage → Bool
  | .beginOfDistribution | .endOfDistribution => true
  | _ => false

/-- The records of a distribution. -/
def bothRecords (entry : EventPtr ε × Bool) : List (EventPtr ε × ProcessingStage) :=
  [(entry.1, .beginOfDistribution), (entry.1, .endOfDistribution)]

/-- Every record is about an event object that was created. -/
def Traced (s : EventDispatcher π ε φ) : Prop :=
  ∀ record ∈ s.queue.records, ∃ predicted, (record.1, predicted) ∈ s.created

/-- The distributions follow each other in the order of delivery. A fault leaves the last one without its end. -/
def Alternates (s : EventDispatcher π ε φ) : Prop :=
  ∃ begun : List (EventPtr ε × Bool),
    s.queue.records.filter (ofDistribution ·.2) =
      s.delivered.flatMap bothRecords ++ begun.map (·.1, ProcessingStage.beginOfDistribution) ∧
    (begun = inDistribution s.phase ∨ ∃ fault, s.phase = .failed fault)

theorem filter_outdated (dropped : List (EventPtr ε)) :
    (dropped.map (·, ProcessingStage.outdated)).filter (ofDistribution ·.2) = [] := by
  induction dropped with
  | nil => rfl
  | cons ptr dropped ih => exact ih

/-- Records that are no part of a distribution do not touch the order. -/
theorem Alternates.other {s t : EventDispatcher π ε φ} (h : Alternates s)
    {new : List (EventPtr ε × ProcessingStage)} (hrecords : t.queue.records = s.queue.records ++ new)
    (hnew : new.filter (ofDistribution ·.2) = []) (hdelivered : t.delivered = s.delivered)
    (hphase : (inDistribution t.phase = inDistribution s.phase ∧ ∀ fault, s.phase = .failed fault →
      t.phase = .failed fault) ∨ ∃ fault, t.phase = .failed fault) : Alternates t := by
  obtain ⟨begun, heq, hbegun⟩ := h
  refine ⟨begun, ?_, ?_⟩
  · rw [hrecords, List.filter_append, hnew, List.append_nil, heq, hdelivered]
  · rcases hphase with ⟨hsame, hfailed⟩ | hfault
    · rcases hbegun with hbegun | ⟨fault, hfault⟩
      · exact .inl (hbegun.trans hsame.symm)
      · exact .inr ⟨fault, hfailed fault hfault⟩
    · exact .inr hfault

/-- More events are created, and what is recorded is among them. -/
theorem Traced.extend {s t : EventDispatcher π ε φ} (h : Traced s) {new : List (EventPtr ε × ProcessingStage)}
    (hrecords : t.queue.records = s.queue.records ++ new) (hcreated : ∀ x ∈ s.created, x ∈ t.created)
    (hnew : ∀ record ∈ new, ∃ predicted, (record.1, predicted) ∈ t.created) : Traced t := by
  intro record hrecord
  rw [hrecords] at hrecord
  rcases List.mem_append.mp hrecord with hold | hrecord
  · obtain ⟨predicted, hmem⟩ := h record hold
    exact ⟨predicted, hcreated _ hmem⟩
  · exact hnew record hrecord

/-- A call of `add` destroys waiting events only. -/
theorem Traced.add {s t : EventDispatcher π ε φ} (h : Traced s) (hledger : Ledger s) {dropped : List (EventPtr ε)}
    (hrecords : t.queue.records = s.queue.records ++ dropped.map (·, .outdated)) (hcreated : t.created = s.created)
    (hwaiting : (t.waiting ++ dropped.map (·, true)).Perm s.waiting) : Traced t := by
  apply h.extend hrecords (fun x hx => hcreated ▸ hx)
  intro record hrecord
  obtain ⟨ptr, hptr, rfl⟩ := List.mem_map.mp hrecord
  refine ⟨true, hcreated ▸ hledger.mem_created _ (List.mem_append_left _ ?_)⟩
  exact hwaiting.subset (List.mem_append_right _ (List.mem_map_of_mem hptr))

variable [Timed ε]

theorem traced_step {sim : Simulation π ξ ε φ} {theEnd : ℚ} {s t : EventDispatcher π ε φ} {l : Label ξ}
    (hledger : Ledger s) (hs : Traced s) (h : Steps sim theEnd s l t) : Traced t := by
  cases h with
  | pushExternal ev =>
    refine hs.extend rfl (fun x hx => ?_) fun record hrecord => ⟨false, ?_⟩
    · simp only [created, List.map_append, List.mem_append] at hx ⊢
      tauto
    · rw [List.mem_singleton.mp hrecord]
      simp [created]
  | addExternal address ptr found =>
    obtain ⟨dropped, hrecords, hwaiting⟩ := waiting_addExternal found
    exact hs.add hledger hrecords rfl hwaiting
  | predict ev predictor phase next =>
    refine hs.extend rfl (fun x hx => ?_) fun record hrecord => ⟨true, ?_⟩
    · simp only [created, List.map_append, List.mem_append] at hx ⊢
      tauto
    · rw [List.mem_singleton.mp hrecord]
      simp [created]
  | predictFault fault phase next => exact hs
  | addPrediction p phase =>
    obtain ⟨dropped, hrecords, hwaiting⟩ := waiting_addPrediction phase
    exact hs.add hledger hrecords rfl hwaiting
  | get now p entry rest phase front due => exact hs
  | beginDistribution p entry phase =>
    refine hs.extend rfl (fun x hx => hx) fun record hrecord => ⟨entry.2, ?_⟩
    rw [List.mem_singleton.mp hrecord]
    apply hledger.mem_created
    simp [waiting, held, phase]
  | distribute p entry predictor phase done =>
    refine hs.extend rfl (fun x hx => hx) fun record hrecord => ⟨entry.2, ?_⟩
    rw [List.mem_singleton.mp hrecord]
    apply hledger.mem_created
    simp [inDistribution, phase]
  | distributeFault p entry fault phase done => exact hs

theorem alternates_step {sim : Simulation π ξ ε φ} {theEnd : ℚ} {s t : EventDispatcher π ε φ} {l : Label ξ}
    (hs : Alternates s) (h : Steps sim theEnd s l t) : Alternates t := by
  cases h with
  | pushExternal ev => exact hs.other rfl rfl rfl (.inl ⟨rfl, fun _ hfault => hfault⟩)
  | addExternal address ptr found =>
    obtain ⟨dropped, hrecords, -⟩ := waiting_addExternal found
    exact hs.other hrecords (filter_outdated dropped) rfl (.inl ⟨rfl, fun _ hfault => hfault⟩)
  | predict ev predictor phase next =>
    refine hs.other rfl rfl rfl (.inl ⟨by rw [phase]; rfl, fun fault hfault => ?_⟩)
    rw [phase] at hfault
    cases hfault
  | predictFault fault phase next => exact hs.other (List.append_nil _).symm rfl rfl (.inr ⟨fault, rfl⟩)
  | addPrediction p phase =>
    obtain ⟨dropped, hrecords, -⟩ := waiting_addPrediction phase
    refine hs.other hrecords (filter_outdated dropped) rfl (.inl ⟨by rw [phase]; rfl, fun fault hfault => ?_⟩)
    rw [phase] at hfault
    cases hfault
  | get now p entry rest phase front due =>
    refine hs.other (List.append_nil _).symm rfl rfl (.inl ⟨by rw [phase]; rfl, fun fault hfault => ?_⟩)
    rw [phase] at hfault
    cases hfault
  | beginDistribution p entry phase =>
    obtain ⟨begun, hrecords, hbegun⟩ := hs
    have hnone : begun = [] := by
      rw [phase] at hbegun
      rcases hbegun with hbegun | ⟨fault, hfault⟩
      · exact hbegun
      · cases hfault
    refine ⟨[entry], ?_, .inl rfl⟩
    rw [logEvent_records, List.filter_append, hrecords, hnone, List.map_nil, List.append_nil]
    rfl
  | distribute p entry predictor phase done =>
    obtain ⟨begun, hrecords, hbegun⟩ := hs
    have hone : begun = [entry] := by
      rw [phase] at hbegun
      rcases hbegun with hbegun | ⟨fault, hfault⟩
      · exact hbegun
      · cases hfault
    refine ⟨[], ?_, .inl ?_⟩
    · simp only [finish]
      rw [logEvent_records, List.filter_append, hrecords, hone, List.flatMap_append, List.map_nil, List.append_nil,
        List.append_assoc]
      rfl
    · rcases finish_phase theEnd { s with predictor := predictor } entry with hp | hp <;> rw [hp] <;> rfl
  | distributeFault p entry fault phase done => exact hs.other (List.append_nil _).symm rfl rfl (.inr ⟨fault, rfl⟩)

/-- What is known of the records at the end of every run. -/
structure RecordOrder (s : EventDispatcher π ε φ) : Prop where
  ledger : Ledger s
  traced : Traced s
  alternates : Alternates s

theorem Reaches.recordOrder {sim : Simulation π ξ ε φ} {theEnd : ℚ} {predictor : π} {now : Int} {start : ℚ}
    {labels : List (Label ξ)} {s : EventDispatcher π ε φ} (h : Reaches sim theEnd (init predictor now start) labels s) :
    RecordOrder s := by
  refine h.invariant (?_ : RecordOrder _) ?_
  · exact ⟨ledger_init predictor now start, List.forall_mem_nil _, [], rfl, .inl rfl⟩
  · rintro u l t ⟨hledger, htraced, halternates⟩ hstep
    exact ⟨ledger_step hledger hstep, traced_step hledger htraced hstep, alternates_step halternates hstep⟩

end FMITerminalBlock.Timing.EventDispatcher
