import FMITerminalBlock.Timing.EventDispatcher
import FMITerminalBlock.Timing.QueueOperations
import Mathlib.Data.List.Count
import Mathlib.Data.List.Nodup

/-! Where an event is at any moment of a run, and what the timing file says about it. -/
namespace FMITerminalBlock.Timing
namespace TimedEventQueue
variable {ε : Type} [Timed ε]

/-- The calls other code makes to a queue. -/
inductive Operation (ε : Type) where
  | add (ev : ε) (predicted : Bool)
  | get (now : Int)
  deriving DecidableEq

/-- One call. The entries returned by `get` are collected beside the queue. -/
def operate : TimedEventQueue ε × List (ε × Bool) → Operation ε →
    Option (TimedEventQueue ε × List (ε × Bool))
  | (q, returned), .add ev predicted => some (q.add ev predicted, returned)
  | (q, returned), .get now =>
    (q.get now).map fun (entry, q') => (q', returned ++ [entry])

def Operation.added : Operation ε → Option (ε × Bool)
  | .add ev predicted => some (ev, predicted)
  | .get _ => none

/-- Every event added so far is queued, returned or destroyed, in total exactly as often as it
was added, and the destroyed ones are predictions with a record each. -/
def Balanced (added : List (ε × Bool)) (q : TimedEventQueue ε) (returned : List (ε × Bool)) : Prop :=
  ∃ dropped : List ε, q.records = dropped.map (·, .outdated) ∧
    (q.queue ++ returned ++ dropped.map (·, true)).Perm added

omit [Timed ε] in
private theorem balanced_moves {added new returned : List (ε × Bool)} {q q' : TimedEventQueue ε}
    (h : Balanced added q returned) (hm : Moves new q q') : Balanced (added ++ new) q' returned := by
  obtain ⟨d, hr, hp⟩ := h
  obtain ⟨d', hr', hp'⟩ := hm
  refine ⟨d ++ d', by rw [hr', hr, List.map_append], ?_⟩
  have hq : (q'.queue ++ returned ++ (d ++ d').map (·, true)).Perm
      (q'.queue ++ d'.map (·, true) ++ (returned ++ d.map (·, true))) := by
    rw [List.map_append, List.append_assoc, List.append_assoc, ← List.append_assoc returned]
    exact List.perm_append_comm.append_left _
  have hnew := hp'.append_right (returned ++ d.map (·, true))
  rw [List.append_assoc new, ← List.append_assoc q.queue] at hnew
  exact (hq.trans hnew).trans ((hp.append_left new).trans List.perm_append_comm)

theorem operate_balanced (past : List (Operation ε)) (s t : TimedEventQueue ε × List (ε × Bool))
    (op : Operation ε) (hs : Balanced (past.filterMap Operation.added) s.1 s.2)
    (h : operate s op = some t) : Balanced ((past ++ [op]).filterMap Operation.added) t.1 t.2 := by
  cases op with
  | add ev predicted =>
    cases h
    simpa [Operation.added] using balanced_moves hs (add_moves s.1 ev predicted)
  | get now =>
    obtain ⟨⟨entry, q'⟩, hget, rfl⟩ := Option.map_eq_some_iff.mp h
    obtain ⟨rest, hq, rfl, -⟩ := get_eq_some hget
    obtain ⟨d, hr, hp⟩ := hs
    refine ⟨d, hr, ?_⟩
    rw [hq] at hp
    have hmove : (rest ++ (s.2 ++ [entry])).Perm (entry :: rest ++ s.2) := by
      rw [← List.append_assoc]
      exact List.perm_append_comm
    rw [List.filterMap_append, List.filterMap_cons_none rfl, List.filterMap_nil, List.append_nil]
    exact (hmove.append_right (d.map (·, true))).trans hp

/-- How often an event is queued, was returned and was recorded as outdated. -/
def whereabouts [DecidableEq ε] (q : TimedEventQueue ε) (returned : List (ε × Bool)) (ev : ε) :
    Nat × Nat × Nat :=
  ((q.queue.map (·.1)).count ev, (returned.map (·.1)).count ev, q.records.count (ev, .outdated))

omit [Timed ε] in
/-- Of distinct events each one is in exactly one place, and an external event is never dropped. -/
theorem Balanced.whereabouts [DecidableEq ε] {added returned : List (ε × Bool)} {q : TimedEventQueue ε}
    (h : Balanced added q returned) (hnodup : (added.map (·.1)).Nodup) {ev : ε} {predicted : Bool}
    (hev : (ev, predicted) ∈ added) :
    q.whereabouts returned ev = (1, 0, 0) ∨ q.whereabouts returned ev = (0, 1, 0) ∨
      predicted = true ∧ q.whereabouts returned ev = (0, 0, 1) := by
  obtain ⟨d, hr, hp⟩ := h
  have hcount : (q.queue.map (·.1)).count ev + (returned.map (·.1)).count ev + d.count ev = 1 := by
    have hone := List.count_eq_one_of_mem hnodup (List.mem_map_of_mem hev)
    rw [← (hp.map (·.1)).count_eq] at hone
    simpa [Function.comp_def, Nat.add_assoc] using hone
  have hrec : q.records.count (ev, .outdated) = d.count ev := by
    rw [hr]
    exact List.count_map_of_injective d _ (Prod.mk_left_injective _) ev
  have hdrop (hd : 0 < d.count ev) : predicted = true := by
    have hmem : (ev, true) ∈ added :=
      hp.subset (List.mem_append_right _ (List.mem_map_of_mem (List.count_pos_iff.mp hd)))
    exact (Prod.ext_iff.mp (List.inj_on_of_nodup_map hnodup hev hmem rfl)).2
  rw [TimedEventQueue.whereabouts]
  rw [hrec]
  rcases Nat.eq_zero_or_pos (d.count ev) with hd | hd
  · rcases Nat.eq_zero_or_pos ((q.queue.map (·.1)).count ev) with hz | hz
    · exact .inr (.inl (by simp only [Prod.mk.injEq]; omega))
    · exact .inl (by simp only [Prod.mk.injEq]; omega)
  · exact .inr (.inr ⟨hdrop hd, by simp only [Prod.mk.injEq]; omega⟩)

end TimedEventQueue

namespace EventDispatcher
open TimedEventQueue
variable {π ξ ε φ : Type}

/-- The stages recorded for the event object at an address, in the order of the timing file. -/
def stagesOf (records : List (EventPtr ε × ProcessingStage)) (address : Nat) : List ProcessingStage :=
  records.filterMap fun r => if r.1.address = address then some r.2 else none

theorem stagesOf_append (records more : List (EventPtr ε × ProcessingStage)) (address : Nat) :
    stagesOf (records ++ more) address = stagesOf records address ++ stagesOf more address :=
  List.filterMap_append

theorem stagesOf_logEvent_self (q : TimedEventQueue (EventPtr ε)) (ptr : EventPtr ε) (stage : ProcessingStage) :
    stagesOf (q.logEvent ptr stage).records ptr.address = stagesOf q.records ptr.address ++ [stage] := by
  simp [stagesOf]

theorem stagesOf_logEvent_of_ne (q : TimedEventQueue (EventPtr ε)) {ptr : EventPtr ε}
    (stage : ProcessingStage) {address : Nat} (h : ptr.address ≠ address) :
    stagesOf (q.logEvent ptr stage).records address = stagesOf q.records address := by
  simp [stagesOf, h]

theorem stagesOf_outdated {dropped : List (EventPtr ε)} (hnodup : (dropped.map (·.address)).Nodup)
    (address : Nat) :
    stagesOf (dropped.map (·, .outdated)) address =
      if address ∈ dropped.map (·.address) then [.outdated] else [] := by
  induction dropped with
  | nil => rfl
  | cons ptr dropped ih =>
    obtain ⟨hptr, hrest⟩ := List.nodup_cons.mp hnodup
    have htail := ih hrest
    simp only [stagesOf, List.map_cons] at htail ⊢
    by_cases h : ptr.address = address
    · subst h
      rw [if_neg hptr] at htail
      simp [htail]
    · rw [List.filterMap_cons_none (by simp [h]), htail]
      simp [Ne.symm h]

/-- Every event object created so far, with the flag it is added with. -/
def created (s : EventDispatcher π ε φ) : List (EventPtr ε × Bool) :=
  s.externals.map (·, false) ++ s.predictions.map (·, true)

/-- The entry the dispatcher thread holds and has not begun to distribute. -/
def held : Phase ε φ → List (EventPtr ε × Bool)
  | .adding p => [(p, true)]
  | .delivering _ entry => [entry]
  | _ => []

def inDistribution : Phase ε φ → List (EventPtr ε × Bool)
  | .distributing _ entry => [entry]
  | _ => []

/-- The events that are registered and neither distributed nor destroyed. -/
def waiting (s : EventDispatcher π ε φ) : List (EventPtr ε × Bool) :=
  s.pending.map (·, false) ++ (held s.phase ++ s.queue.queue)

/-- The stage an event is registered with. -/
def registration (predicted : Bool) : ProcessingStage :=
  if predicted then .prediction else .realTimeGeneration

/-- The stages an event may go through. -/
def Lawful (predicted : Bool) (stages : List ProcessingStage) : Prop :=
  stages <+: [registration predicted, .beginOfDistribution, .endOfDistribution] ∨
    predicted = true ∧ stages <+: [.prediction, .outdated]

/-- The timing file agrees with where the events are. -/
structure Ledger (s : EventDispatcher π ε φ) : Prop where
  created_nodup : (s.created.map (·.1.address)).Nodup
  created_lt : ∀ x ∈ s.created, x.1.address < s.nextAddress
  nodup : ((s.waiting ++ inDistribution s.phase).map (·.1.address)).Nodup
  mem_created : ∀ x ∈ s.waiting ++ inDistribution s.phase, x ∈ s.created
  waiting_stages : ∀ x ∈ s.waiting, stagesOf s.queue.records x.1.address = [registration x.2]
  distribution_stages : ∀ x ∈ inDistribution s.phase,
    stagesOf s.queue.records x.1.address = [registration x.2, .beginOfDistribution]
  lawful : ∀ x ∈ s.created, Lawful x.2 (stagesOf s.queue.records x.1.address)
  fresh : ∀ address ≥ s.nextAddress, stagesOf s.queue.records address = []

private theorem lawful_registration (predicted : Bool) : Lawful predicted [registration predicted] :=
  .inl ⟨[.beginOfDistribution, .endOfDistribution], rfl⟩

/-- A new event object is registered under the next address. -/
theorem Ledger.register {s t : EventDispatcher π ε φ} (h : Ledger s) (ptr : EventPtr ε) (predicted : Bool)
    (hptr : ptr.address = s.nextAddress) (hnext : t.nextAddress = s.nextAddress + 1)
    (hcreated : t.created.Perm ((ptr, predicted) :: s.created))
    (hwaiting : t.waiting.Perm ((ptr, predicted) :: s.waiting))
    (hdist : inDistribution t.phase = inDistribution s.phase)
    (hrec : t.queue.records = (s.queue.logEvent ptr (registration predicted)).records) : Ledger t := by
  have hself : stagesOf t.queue.records ptr.address = [registration predicted] := by
    rw [hrec, stagesOf_logEvent_self, h.fresh _ hptr.ge, List.nil_append]
  have hother {address : Nat} (hne : ptr.address ≠ address) :
      stagesOf t.queue.records address = stagesOf s.queue.records address := by
    rw [hrec, stagesOf_logEvent_of_ne _ _ hne]
  have hnew {x : EventPtr ε × Bool} (hx : x ∈ s.created) : ptr.address ≠ x.1.address := by
    have := h.created_lt x hx
    omega
  have hall : (t.waiting ++ inDistribution t.phase).Perm
      ((ptr, predicted) :: (s.waiting ++ inDistribution s.phase)) := by
    rw [hdist]
    exact hwaiting.append_right _
  refine ⟨?_, ?_, ?_, ?_, ?_, ?_, ?_, ?_⟩
  · rw [(hcreated.map _).nodup_iff, List.map_cons, List.nodup_cons]
    refine ⟨fun hmem => ?_, h.created_nodup⟩
    obtain ⟨x, hx, hxa⟩ := List.mem_map.mp hmem
    exact hnew hx hxa.symm
  · intro x hx
    rcases List.mem_cons.mp (hcreated.subset hx) with rfl | hx
    · simp only; omega
    · have := h.created_lt x hx
      omega
  · rw [(hall.map _).nodup_iff, List.map_cons, List.nodup_cons]
    refine ⟨fun hmem => ?_, h.nodup⟩
    obtain ⟨x, hx, hxa⟩ := List.mem_map.mp hmem
    exact hnew (h.mem_created x hx) hxa.symm
  · intro x hx
    apply hcreated.symm.subset
    rcases List.mem_cons.mp (hall.subset hx) with rfl | hx
    · exact List.mem_cons_self
    · exact List.mem_cons_of_mem _ (h.mem_created x hx)
  · intro x hx
    rcases List.mem_cons.mp (hwaiting.subset hx) with rfl | hx
    · exact hself
    · rw [hother (hnew (h.mem_created x (List.mem_append_left _ hx))), h.waiting_stages x hx]
  · intro x hx
    rw [hdist] at hx
    rw [hother (hnew (h.mem_created x (List.mem_append_right _ hx))), h.distribution_stages x hx]
  · intro x hx
    rcases List.mem_cons.mp (hcreated.subset hx) with rfl | hx
    · rw [hself]; exact lawful_registration predicted
    · rw [hother (hnew hx)]; exact h.lawful x hx
  · intro address ha
    rw [hother (by omega), h.fresh address (by omega)]

/-- Entries move between the waiting places, and predictions among them may be destroyed. -/
theorem Ledger.move {s t : EventDispatcher π ε φ} (h : Ledger s) (dropped : List (EventPtr ε))
    (hnext : t.nextAddress = s.nextAddress) (hcreated : t.created = s.created)
    (hwaiting : (t.waiting ++ dropped.map (·, true)).Perm s.waiting)
    (hdist : inDistribution t.phase = inDistribution s.phase)
    (hrec : t.queue.records = s.queue.records ++ dropped.map (·, .outdated)) : Ledger t := by
  have hall : (t.waiting ++ inDistribution t.phase ++ dropped.map (·, true)).Perm
      (s.waiting ++ inDistribution s.phase) := by
    rw [hdist, List.append_assoc]
    apply (List.perm_append_comm.append_left _).trans
    rw [← List.append_assoc]
    exact hwaiting.append_right _
  have hnodup := (hall.map (·.1.address)).nodup_iff.mpr h.nodup
  rw [List.map_append, List.nodup_append'] at hnodup
  obtain ⟨hkept, hdropped, hdisj⟩ := hnodup
  have hdropped' : (dropped.map (·.address)).Nodup := by simpa [Function.comp_def] using hdropped
  have hstages (address : Nat) : stagesOf t.queue.records address =
      stagesOf s.queue.records address ++
        if address ∈ dropped.map (·.address) then [.outdated] else [] := by
    rw [hrec, stagesOf_append, stagesOf_outdated hdropped']
  have hstay {x : EventPtr ε × Bool} (hx : x ∈ t.waiting ++ inDistribution t.phase) :
      stagesOf t.queue.records x.1.address = stagesOf s.queue.records x.1.address := by
    rw [hstages, if_neg, List.append_nil]
    intro hmem
    obtain ⟨ptr, hptr, hpa⟩ := List.mem_map.mp hmem
    exact hdisj (List.mem_map_of_mem hx) (List.mem_map.mpr ⟨(ptr, true), List.mem_map_of_mem hptr, hpa⟩)
  have hsub {x : EventPtr ε × Bool} (hx : x ∈ t.waiting) : x ∈ s.waiting :=
    hwaiting.subset (List.mem_append_left _ hx)
  refine ⟨hcreated ▸ h.created_nodup, ?_, hkept, ?_, ?_, ?_, ?_, ?_⟩
  · rw [hcreated, hnext]; exact h.created_lt
  · intro x hx
    rw [hcreated]
    exact h.mem_created x (hall.subset (List.mem_append_left _ hx))
  · intro x hx
    rw [hstay (List.mem_append_left _ hx), h.waiting_stages x (hsub hx)]
  · intro x hx
    rw [hstay (List.mem_append_right _ hx)]
    exact h.distribution_stages x (hdist ▸ hx)
  · intro x hx
    rw [hcreated] at hx
    rw [hstages]
    split
    · -- A dropped event waited as a prediction, so its only stage so far is the registration.
      rename_i hmem
      obtain ⟨ptr, hptr, hpa⟩ := List.mem_map.mp hmem
      have hwait : (ptr, true) ∈ s.waiting :=
        hwaiting.subset (List.mem_append_right _ (List.mem_map_of_mem hptr))
      have hx' : x = (ptr, true) := List.inj_on_of_nodup_map h.created_nodup hx
        (h.mem_created _ (List.mem_append_left _ hwait)) hpa.symm
      subst hx'
      rw [h.waiting_stages _ hwait]
      exact .inr ⟨rfl, List.prefix_rfl⟩
    · rw [List.append_nil]; exact h.lawful x hx
  · intro address ha
    rw [hstages, h.fresh address (hnext ▸ ha), if_neg, List.append_nil]
    intro hmem
    obtain ⟨ptr, hptr, rfl⟩ := List.mem_map.mp hmem
    have := h.created_lt (ptr, true) (h.mem_created _ (List.mem_append_left _
      (hwaiting.subset (List.mem_append_right _ (List.mem_map_of_mem hptr)))))
    rw [hnext] at ha
    exact absurd this (not_lt.mpr ha)

/-- One record is written for the entry whose distribution begins or ends. -/
theorem Ledger.distribution {s t : EventDispatcher π ε φ} (h : Ledger s) (entry : EventPtr ε × Bool)
    (stage : ProcessingStage) (hperm : (s.waiting ++ inDistribution s.phase).Perm (entry :: t.waiting))
    (hsub : ∀ x ∈ t.waiting, x ∈ s.waiting)
    (hdist : inDistribution t.phase = [] ∨ inDistribution t.phase = [entry] ∧
      stagesOf t.queue.records entry.1.address = [registration entry.2, .beginOfDistribution])
    (hnext : t.nextAddress = s.nextAddress) (hcreated : t.created = s.created)
    (hrec : t.queue.records = (s.queue.logEvent entry.1 stage).records)
    (hlawful : Lawful entry.2 (stagesOf t.queue.records entry.1.address)) : Ledger t := by
  have hnodup := (hperm.map (·.1.address)).nodup_iff.mp h.nodup
  obtain ⟨hentry, hrest⟩ := List.nodup_cons.mp hnodup
  have hmem : entry ∈ s.created := h.mem_created entry (hperm.symm.subset List.mem_cons_self)
  have hother {x : EventPtr ε × Bool} (hx : x ∈ s.created) (hne : x ≠ entry) :
      stagesOf t.queue.records x.1.address = stagesOf s.queue.records x.1.address := by
    rw [hrec, stagesOf_logEvent_of_ne]
    exact fun ha => hne (List.inj_on_of_nodup_map h.created_nodup hx hmem ha.symm)
  have hne {x : EventPtr ε × Bool} (hx : x ∈ t.waiting) : x ≠ entry := by
    rintro rfl
    exact hentry (List.mem_map_of_mem hx)
  refine ⟨hcreated ▸ h.created_nodup, ?_, ?_, ?_, ?_, ?_, ?_, ?_⟩
  · rw [hcreated, hnext]; exact h.created_lt
  · rcases hdist with hd | ⟨hd, -⟩ <;> rw [hd]
    · simpa using hrest
    · have hswap : (t.waiting ++ [entry]).Perm (entry :: t.waiting) := List.perm_append_comm
      exact (hswap.map (·.1.address)).nodup_iff.mpr hnodup
  · intro x hx
    rw [hcreated]
    rcases List.mem_append.mp hx with hx | hx
    · exact h.mem_created x (List.mem_append_left _ (hsub x hx))
    · rcases hdist with hd | ⟨hd, -⟩ <;> rw [hd] at hx
      · cases hx
      · exact List.mem_singleton.mp hx ▸ hmem
  · intro x hx
    have hxs := hsub x hx
    rw [hother (h.mem_created x (List.mem_append_left _ hxs)) (hne hx), h.waiting_stages x hxs]
  · intro x hx
    rcases hdist with hd | ⟨hd, hstages⟩ <;> rw [hd] at hx
    · cases hx
    · exact List.mem_singleton.mp hx ▸ hstages
  · intro x hx
    by_cases hxe : x = entry
    · exact hxe ▸ hlawful
    · rw [hcreated] at hx
      rw [hother hx hxe]; exact h.lawful x hx
  · intro address ha
    rw [hnext] at ha
    have hlt := h.created_lt entry hmem
    rw [hrec, stagesOf_logEvent_of_ne _ _ (by omega), h.fresh address ha]

/-- A listener that throws leaves the event without its last record. -/
theorem Ledger.abandon {s t : EventDispatcher π ε φ} (h : Ledger s) (hwaiting : t.waiting = s.waiting)
    (hdist : inDistribution t.phase = []) (hnext : t.nextAddress = s.nextAddress)
    (hcreated : t.created = s.created) (hqueue : t.queue = s.queue) : Ledger t := by
  have hnodup := h.nodup
  rw [List.map_append] at hnodup
  refine ⟨hcreated ▸ h.created_nodup, ?_, ?_, ?_, ?_, ?_, ?_, ?_⟩
  · rw [hcreated, hnext]; exact h.created_lt
  · rw [hdist, List.append_nil, hwaiting]; exact hnodup.of_append_left
  · rw [hdist, List.append_nil, hwaiting, hcreated]
    exact fun x hx => h.mem_created x (List.mem_append_left _ hx)
  · rw [hwaiting, hqueue]; exact h.waiting_stages
  · rw [hdist]; exact fun x hx => absurd hx List.not_mem_nil
  · rw [hcreated, hqueue]; exact h.lawful
  · rw [hnext, hqueue]; exact h.fresh

variable [Timed ε]

/-- What `add` takes from another place waits in the queue afterwards or is destroyed. -/
private theorem waiting_add {s t : EventDispatcher π ε φ} (ptr : EventPtr ε) (predicted : Bool)
    (hqueue : t.queue = s.queue.add ptr predicted)
    (hplaces : (t.pending.map (·, false) ++ held t.phase ++ [(ptr, predicted)]).Perm
      (s.pending.map (·, false) ++ held s.phase)) :
    ∃ dropped : List (EventPtr ε), t.queue.records = s.queue.records ++ dropped.map (·, .outdated) ∧
      (t.waiting ++ dropped.map (·, true)).Perm s.waiting := by
  obtain ⟨dropped, hrec, hperm⟩ := add_moves s.queue ptr predicted
  refine ⟨dropped, by rw [hqueue, hrec], ?_⟩
  have hq : (t.waiting ++ dropped.map (·, true)).Perm
      (t.pending.map (·, false) ++ held t.phase ++ ((ptr, predicted) :: s.queue.queue)) := by
    rw [waiting, hqueue, List.append_assoc, List.append_assoc, List.append_assoc]
    exact (hperm.append_left _).append_left _
  apply hq.trans
  rw [List.append_cons]
  simpa [waiting] using hplaces.append_right s.queue.queue

private theorem perm_cons_eraseP {α : Type} {l : List α} {p : α → Bool} {a : α} (h : l.find? p = some a) :
    (a :: l.eraseP p).Perm l := by
  obtain ⟨hpa, as, bs, rfl, has⟩ := List.find?_eq_some_iff_append.mp h
  rw [List.eraseP_append_right _ (fun b hb => by simpa using has b hb), List.eraseP_cons_of_pos hpa]
  exact List.perm_middle.symm

theorem waiting_addExternal {s : EventDispatcher π ε φ} {address : Nat} {ptr : EventPtr ε}
    (found : s.pending.find? (·.address == address) = some ptr) :
    ∃ dropped : List (EventPtr ε),
      (s.queue.add ptr false).records = s.queue.records ++ dropped.map (·, .outdated) ∧
      (waiting { s with
        queue := s.queue.add ptr false
        pending := s.pending.eraseP (·.address == address) } ++ dropped.map (·, true)).Perm s.waiting := by
  have herase := ((perm_cons_eraseP found).map (·, false)).append_right (held s.phase)
  apply @waiting_add π ε φ _ s { s with
    queue := s.queue.add ptr false
    pending := s.pending.eraseP (·.address == address) } ptr false rfl
  exact List.perm_append_comm.trans herase

theorem waiting_addPrediction {s : EventDispatcher π ε φ} {p : EventPtr ε} (phase : s.phase = .adding p) :
    ∃ dropped : List (EventPtr ε),
      (s.queue.add p true).records = s.queue.records ++ dropped.map (·, .outdated) ∧
      (({ s with queue := s.queue.add p true, phase := .getting p } : EventDispatcher π ε φ).waiting ++
        dropped.map (·, true)).Perm s.waiting := by
  apply @waiting_add π ε φ _ s { s with queue := s.queue.add p true, phase := .getting p } p true rfl
  simp [held, phase]

theorem ledger_step {sim : Simulation π ξ ε φ} {theEnd : ℚ} {s t : EventDispatcher π ε φ} {l : Label ξ}
    (hs : Ledger s) (h : Steps sim theEnd s l t) : Ledger t := by
  cases h with
  | pushExternal ev =>
    refine hs.register ⟨s.nextAddress, sim.external ev⟩ false rfl ?_ ?_ ?_ rfl rfl
    · simp [nextAddress]; omega
    · simp [created]
    · simp [waiting]
  | addExternal address ptr found =>
    obtain ⟨dropped, hrecords, hwaiting⟩ := waiting_addExternal found
    exact hs.move dropped rfl rfl hwaiting rfl hrecords
  | predict ev predictor phase next =>
    refine hs.register ⟨s.nextAddress, ev⟩ true rfl ?_ ?_ ?_ ?_ rfl
    · simp [nextAddress]; omega
    · simp [created, ← List.append_assoc]
    · simp [waiting, held, phase]
    · simp [inDistribution, phase]
  | predictFault fault phase next =>
    exact hs.move [] rfl rfl (by simp [waiting, held, phase])
      (by simp [inDistribution, phase]) (by simp)
  | addPrediction p phase =>
    obtain ⟨dropped, hrecords, hwaiting⟩ := waiting_addPrediction phase
    exact hs.move dropped rfl rfl hwaiting (by simp [inDistribution, phase]) hrecords
  | get now p entry rest phase front due =>
    exact hs.move [] rfl rfl (by simp [waiting, held, phase, front])
      (by simp [inDistribution, phase]) (by simp)
  | beginDistribution p entry phase =>
    have hwait : s.waiting = s.pending.map (·, false) ++ entry :: s.queue.queue := by
      simp [waiting, held, phase]
    have hstages := hs.waiting_stages entry (by simp [hwait])
    refine hs.distribution entry .beginOfDistribution ?_ ?_
      (.inr ⟨rfl, ?_⟩) rfl rfl rfl ?_
    · simp [inDistribution, phase, waiting, held]
    · intro x hx
      rw [hwait]
      simp only [waiting, held, List.nil_append, List.mem_append, logEvent_queue] at hx
      simp only [List.mem_append, List.mem_cons]
      tauto
    · rw [stagesOf_logEvent_self, hstages]; rfl
    · rw [stagesOf_logEvent_self, hstages]; exact .inl ⟨[.endOfDistribution], rfl⟩
  | distribute p entry predictor phase done =>
    have hstages := hs.distribution_stages entry (by simp [inDistribution, phase])
    have hphase := finish_phase theEnd { s with predictor := predictor } entry
    have hwait : (finish theEnd { s with predictor := predictor } entry).waiting = s.waiting := by
      rcases hphase with hp | hp <;> rw [waiting, waiting, hp, phase] <;> rfl
    have hdist : inDistribution (finish theEnd { s with predictor := predictor } entry).phase = [] := by
      rcases hphase with hp | hp <;> rw [hp] <;> rfl
    refine hs.distribution entry .endOfDistribution ?_ ?_ (.inl hdist) rfl rfl rfl ?_
    · rw [hwait]
      simp [inDistribution, phase]
    · rw [hwait]; exact fun x hx => hx
    · change Lawful _ (stagesOf (s.queue.logEvent entry.1 .endOfDistribution).records _)
      rw [stagesOf_logEvent_self, hstages]
      exact .inl List.prefix_rfl
  | distributeFault p entry fault phase done =>
    exact hs.abandon (by simp [waiting, held, phase]) rfl rfl rfl rfl

omit [Timed ε] in
theorem ledger_init (predictor : π) (now : Int) (start : ℚ) :
    Ledger (init predictor now start : EventDispatcher π ε φ) := by
  constructor <;> simp [init, created, waiting, held, inDistribution, initStartTimeNow, stagesOf]

/-- The numbers the timing file holds for one event object. -/
def stageNumbers (s : EventDispatcher π ε φ) (ptr : EventPtr ε) : List Nat :=
  (stagesOf s.queue.records ptr.address).map ProcessingStage.code

omit [Timed ε] in
theorem Ledger.stageNumbers_external {s : EventDispatcher π ε φ} (h : Ledger s) {ptr : EventPtr ε}
    (hptr : ptr ∈ s.externals) : s.stageNumbers ptr <+: [0, 3, 2] := by
  have hmem : (ptr, false) ∈ s.created := List.mem_append_left _ (List.mem_map_of_mem hptr)
  rcases h.lawful _ hmem with hl | ⟨hf, -⟩
  · exact hl.map ProcessingStage.code
  · cases hf

omit [Timed ε] in
theorem Ledger.stageNumbers_prediction {s : EventDispatcher π ε φ} (h : Ledger s) {ptr : EventPtr ε}
    (hptr : ptr ∈ s.predictions) : s.stageNumbers ptr <+: [1, 3, 2] ∨ s.stageNumbers ptr <+: [1, 4] := by
  have hmem : (ptr, true) ∈ s.created := List.mem_append_right _ (List.mem_map_of_mem hptr)
  rcases h.lawful _ hmem with hl | ⟨-, hl⟩
  · exact .inl (hl.map ProcessingStage.code)
  · exact .inr (hl.map ProcessingStage.code)

/-- Events are conserved by every sequence of queue operations on distinct events, and the timing
file of every run of the dispatcher shows the life of each event accordingly. -/
theorem events_conserved :
    (∀ {ε : Type} [Timed ε] [DecidableEq ε] (now : Int) (start : ℚ) (ops : List (Operation ε))
        (q : TimedEventQueue ε) (returned : List (ε × Bool)),
      LabelledRun.exec operate (.initStartTimeNow now start, []) ops = some (q, returned) →
      ((ops.filterMap Operation.added).map (·.1)).Nodup →
      ∀ ev predicted, (ev, predicted) ∈ ops.filterMap Operation.added →
        q.whereabouts returned ev = (1, 0, 0) ∨ q.whereabouts returned ev = (0, 1, 0) ∨
          predicted = true ∧ q.whereabouts returned ev = (0, 0, 1)) ∧
    (∀ {π ξ ε φ : Type} [Timed ε] (sim : Simulation π ξ ε φ) (theEnd : ℚ) (predictor : π) (now : Int)
        (start : ℚ) (labels : List (Label ξ)) (s : EventDispatcher π ε φ),
      Reaches sim theEnd (init predictor now start) labels s →
      (∀ ptr ∈ s.externals, s.stageNumbers ptr <+: [0, 3, 2]) ∧
      (∀ ptr ∈ s.predictions, s.stageNumbers ptr <+: [1, 3, 2] ∨ s.stageNumbers ptr <+: [1, 4])) := by
  refine ⟨fun now start ops q returned hrun hnodup ev predicted hev => ?_,
    fun sim theEnd predictor now start labels s hrun => ?_⟩
  · have hbalanced := LabelledRun.exec_history
      (fun past s => Balanced (past.filterMap Operation.added) s.1 s.2)
      (fun past s op t hs h => operate_balanced past s t op hs h) ⟨[], rfl, .refl _⟩ hrun
    exact hbalanced.whereabouts hnodup hev
  · have hledger := hrun.invariant (ledger_init predictor now start) fun _ _ _ hs h => ledger_step hs h
    exact ⟨fun ptr hptr => hledger.stageNumbers_external hptr,
      fun ptr hptr => hledger.stageNumbers_prediction hptr⟩

/-- A prediction revoked by an external event: it is destroyed with its record, and the external
event waits in the queue. -/
theorem events_conserved_on_revocation :
    ∃ q : TimedEventQueue ℚ, LabelledRun.exec operate (.initStartTimeNow 0 0, [])
        [.add 1 true, .add (1 / 2) false] = some (q, []) ∧
      (q.whereabouts [] 1 = (1, 0, 0) ∨ q.whereabouts [] 1 = (0, 1, 0) ∨
        true = true ∧ q.whereabouts [] 1 = (0, 0, 1)) :=
  ⟨_, rfl, events_conserved.1 0 0 [.add 1 true, .add (1 / 2) false] _ [] rfl (by decide +kernel) 1 true
    (by decide +kernel)⟩

end EventDispatcher
end FMITerminalBlock.Timing
