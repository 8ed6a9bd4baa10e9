import FMITerminalBlock.Timing.DispatcherCycle
import FMITerminalBlock.Timing.EventLedger

/-! The order of the queue after every history of calls: which of two events is returned first, and
what the first entry says about all the others. -/
namespace FMITerminalBlock.Timing.TimedEventQueue
variable {ε : Type}

/-- Only the first entry may be a prediction. -/
def FrontOnly (queue : List (ε × Bool)) : Prop := Calm queue.tail

theorem Calm.frontOnly {queue : List (ε × Bool)} (h : Calm queue) : FrontOnly queue :=
  fun entry hentry => h entry (List.mem_of_mem_tail hentry)

theorem FrontOnly.calm_rest {queue rest : List (ε × Bool)} {entry : ε × Bool} (h : FrontOnly queue)
    (hqueue : queue = entry :: rest) : Calm rest := by
  subst hqueue
  exact h

/-- The external events in the order of the queue. -/
def externals (queue : List (ε × Bool)) : List (ε × Bool) := queue.filter fun entry => !entry.2

theorem externals_calm {queue : List (ε × Bool)} (h : Calm queue) : externals queue = queue := by
  apply List.filter_eq_self.mpr
  intro entry hentry
  rw [h entry hentry]
  rfl

theorem externals_cons_prediction (p : ε) {rest : List (ε × Bool)} (h : Calm rest) :
    externals ((p, true) :: rest) = rest := by
  rw [externals, List.filter_cons_of_neg (by simp)]
  exact externals_calm h

theorem calm_externals (queue : List (ε × Bool)) : Calm (externals queue) := by
  intro entry hentry
  simpa using (List.mem_filter.mp hentry).2

theorem externals_sublist (queue : List (ε × Bool)) : (externals queue).Sublist queue := List.filter_sublist

theorem mem_externals {queue : List (ε × Bool)} {ev : ε} : (ev, false) ∈ externals queue ↔ (ev, false) ∈ queue := by
  simp [externals]

theorem FrontOnly.cases {queue : List (ε × Bool)} (h : FrontOnly queue) :
    Calm queue ∨ ∃ p rest, queue = (p, true) :: rest ∧ Calm rest := by
  cases queue with
  | nil => exact .inl fun entry hentry => absurd hentry List.not_mem_nil
  | cons entry rest =>
    obtain ⟨ev, predicted⟩ := entry
    cases predicted with
    | true => exact .inr ⟨ev, rest, rfl, h⟩
    | false =>
      refine .inl fun entry hentry => ?_
      rcases List.mem_cons.mp hentry with rfl | hentry
      · rfl
      · exact h entry hentry

theorem removePrediction_failed {q : TimedEventQueue ε} (h : FrontOnly q.queue) (isOutdated : ε → Bool) :
    (q.removePrediction isOutdated).failed = q.failed := by
  rcases h.cases with hcalm | ⟨p, rest, hq, hrest⟩
  · rw [removePrediction_calm hcalm]
  · rw [removePrediction_cons hq hrest]
    split
    · rfl
    · rfl

variable [Timed ε] {q : TimedEventQueue ε}

/-! ### One call -/

theorem hasPriorEvents_iff {t : ℚ} :
    q.hasPriorEvents t = true ↔ ∃ front ∈ q.queue.head?, entryTime front < t - eps := by
  rw [hasPriorEvents]
  cases q.queue with
  | nil => simp
  | cons front rest => simp

/-- The removal takes away a later prediction, or it finds nothing to remove. -/
theorem removeFuturPredictions_queue (h : FrontOnly q.queue) (t : ℚ) :
    (q.removeFuturPredictions t).queue = externals q.queue ∧
        (∀ p rest, q.queue = (p, true) :: rest → t + eps < getTime p) ∨
      (q.removeFuturPredictions t).queue = q.queue ∧
        ∃ p rest, q.queue = (p, true) :: rest ∧ Calm rest ∧ getTime p ≤ t + eps := by
  rcases h.cases with hcalm | ⟨p, rest, hq, hrest⟩
  · rw [removeFuturPredictions, removePrediction_calm hcalm, externals_calm hcalm]
    refine .inl ⟨rfl, fun p rest hq => ?_⟩
    have hp := hcalm (p, true) (by rw [hq]; exact List.mem_cons_self)
    cases hp
  · rw [removeFuturPredictions, removePrediction_cons hq hrest]
    by_cases hlater : getTime p > t + eps
    · rw [if_pos (by simpa using hlater), hq, externals_cons_prediction p hrest]
      refine .inl ⟨rfl, fun p' rest' heq => ?_⟩
      cases heq
      exact hlater
    · rw [if_neg (by simpa using hlater)]
      exact .inr ⟨rfl, p, rest, hq, hrest, not_lt.mp hlater⟩

theorem add_external_queue (q : TimedEventQueue ε) (ev : ε) :
    (q.add ev false).queue =
      NearlySorted.insert eps entryTime (ev, false) (q.removeFuturPredictions (getTime ev)).queue := by
  simp [add, push, scan_external]

/-- An external event is inserted among the external events; a prediction that stays is in front. -/
theorem add_external_spec (h : FrontOnly q.queue) (ev : ε) :
    FrontOnly (q.add ev false).queue ∧ externals (q.add ev false).queue =
      NearlySorted.insert eps entryTime (ev, false) (externals q.queue) := by
  rw [add_external_queue]
  rcases removeFuturPredictions_queue h (getTime ev) with ⟨hq, -⟩ | ⟨hq, p, rest, hp, hrest, hle⟩
  · rw [hq]
    have hcalm := calm_insert (calm_externals q.queue) ev
    exact ⟨hcalm.frontOnly, externals_calm hcalm⟩
  · have hcalm := calm_insert hrest ev
    rw [hq, hp, NearlySorted.insert_cons_of_le (by exact hle), externals_cons_prediction p hrest,
      externals_cons_prediction p hcalm]
    exact ⟨hcalm, rfl⟩

/-- Before a prediction that is not refused no other one is left. -/
theorem removeConcurrentPrediction_queue (h : FrontOnly q.queue) {t : ℚ}
    (hprior : ¬(q.removeFuturPredictions t).hasPriorEvents t = true) :
    ((q.removeFuturPredictions t).removeConcurrentPrediction t).queue = externals q.queue := by
  rcases removeFuturPredictions_queue h t with ⟨hq, -⟩ | ⟨hq, p, rest, hp, hrest, hle⟩
  · rw [removeConcurrentPrediction, removePrediction_calm (hq ▸ calm_externals q.queue), hq]
  · rw [hp] at hq
    rw [hasPriorEvents_iff, hq] at hprior
    have hge : t - eps ≤ getTime p := not_lt.mp fun hlt => hprior ⟨_, rfl, hlt⟩
    have hnear : |getTime p - t| ≤ eps := abs_le.mpr ⟨by linarith, by linarith⟩
    rw [removeConcurrentPrediction, removePrediction_cons hq hrest, if_pos (by simpa using hnear), hp,
      externals_cons_prediction p hrest]

/-- A prediction is refused, or it takes the first place before all external events. -/
theorem add_prediction_queue (h : FrontOnly q.queue) (ev : ε) :
    (q.add ev true).queue =
      if (q.removeFuturPredictions (getTime ev)).hasPriorEvents (getTime ev) then
        (q.removeFuturPredictions (getTime ev)).queue
      else (ev, true) :: externals q.queue := by
  rw [add]
  by_cases hprior : (q.removeFuturPredictions (getTime ev)).hasPriorEvents (getTime ev) = true
  · simp [hprior, deleteEvent]
  · simp [hprior, push, scan_prediction, removeConcurrentPrediction_queue h hprior]

theorem add_prediction_spec (h : FrontOnly q.queue) (ev : ε) :
    FrontOnly (q.add ev true).queue ∧ externals (q.add ev true).queue = externals q.queue := by
  rw [add_prediction_queue h]
  split
  · rcases removeFuturPredictions_queue h (getTime ev) with ⟨hq, -⟩ | ⟨hq, -⟩
    · rw [hq]
      have hcalm := calm_externals q.queue
      exact ⟨hcalm.frontOnly, externals_calm hcalm⟩
    · rw [hq]
      exact ⟨h, rfl⟩
  · exact ⟨calm_externals q.queue, externals_cons_prediction ev (calm_externals q.queue)⟩

/-! ### Histories of calls -/

/-- The calls with an address of its own for every added event, in the order of the calls. -/
def numbered (first : Nat) : List (Operation ε) → List (Operation (EventPtr ε))
  | [] => []
  | .add ev predicted :: ops => .add ⟨first, ev⟩ predicted :: numbered (first + 1) ops
  | .get now :: ops => .get now :: numbered (first + 1) ops

omit [Timed ε] in
theorem numbered_append (first : Nat) (ops later : List (Operation ε)) :
    numbered first (ops ++ later) = numbered first ops ++ numbered (first + ops.length) later := by
  induction ops generalizing first with
  | nil => rfl
  | cons op ops ih =>
    have hlength : first + (op :: ops).length = first + 1 + ops.length := by
      rw [List.length_cons]
      omega
    cases op <;> rw [List.cons_append, numbered, ih, numbered, hlength, List.cons_append]

omit [Timed ε] in
theorem numbered_addresses (first : Nat) (ops : List (Operation ε)) :
    (((numbered first ops).filterMap Operation.added).map fun entry => entry.1.address).Pairwise (· < ·) ∧
      ∀ entry ∈ (numbered first ops).filterMap Operation.added, first ≤ entry.1.address := by
  induction ops generalizing first with
  | nil => exact ⟨.nil, fun entry hentry => absurd hentry List.not_mem_nil⟩
  | cons op ops ih =>
    obtain ⟨hincreasing, hge⟩ := ih (first + 1)
    cases op with
    | get now =>
      rw [numbered, List.filterMap_cons_none rfl]
      exact ⟨hincreasing, fun entry hentry => (Nat.le_succ first).trans (hge entry hentry)⟩
    | add ev predicted =>
      have hadded : (Operation.add (EventPtr.mk first ev) predicted).added = some (⟨first, ev⟩, predicted) := rfl
      rw [numbered, List.filterMap_cons_some hadded, List.map_cons]
      refine ⟨List.pairwise_cons.mpr ⟨fun address haddress => ?_, hincreasing⟩, fun entry hentry => ?_⟩
      · obtain ⟨entry, hentry, rfl⟩ := List.mem_map.mp haddress
        exact hge entry hentry
      · rcases List.mem_cons.mp hentry with rfl | hentry
        · exact le_rfl
        · exact (Nat.le_succ first).trans (hge entry hentry)

/-- Of two external events the one behind is at most `eps` earlier, and it is later if it was added
first. -/
structure QueueOrder (next : Nat) (queue : List (EventPtr ε × Bool)) : Prop where
  frontOnly : FrontOnly queue
  ordered : Ordered (externals queue)
  stable : (externals queue).Pairwise fun a b => b.1.address < a.1.address → entryTime a < entryTime b
  old : ∀ entry ∈ queue, entry.1.address < next

theorem QueueOrder.operate {next : Nat} {q q' : TimedEventQueue (EventPtr ε)}
    {returned returned' : List (EventPtr ε × Bool)} {op : Operation (EventPtr ε)} (h : QueueOrder next q.queue)
    (hop : ∀ entry ∈ op.added, entry.1.address = next)
    (hstep : operate (q, returned) op = some (q', returned')) : QueueOrder (next + 1) q'.queue := by
  cases op with
  | get now =>
    obtain ⟨⟨entry, q''⟩, hget, heq⟩ := Option.map_eq_some_iff.mp hstep
    obtain ⟨rest, hq, rfl, -⟩ := get_eq_some hget
    cases heq
    have hsublist : (externals rest).Sublist (externals q.queue) := by
      rw [hq]
      exact (List.sublist_cons_self entry rest).filter _
    refine ⟨(h.frontOnly.calm_rest hq).frontOnly, h.ordered.sublist hsublist, h.stable.sublist hsublist,
      fun x hx => ?_⟩
    have hold := h.old x (by rw [hq]; exact List.mem_cons_of_mem entry hx)
    omega
  | add ev predicted =>
    cases hstep
    have hev : ev.address = next := hop _ rfl
    have hold : ∀ entry ∈ (q.add ev predicted).queue, entry.1.address < next + 1 := by
      intro entry hentry
      obtain ⟨dropped, -, hperm⟩ := add_moves q ev predicted
      rcases List.mem_cons.mp (hperm.subset (List.mem_append_left _ hentry)) with rfl | hmem
      · exact hev ▸ Nat.lt_succ_self _
      · exact (h.old entry hmem).trans (Nat.lt_succ_self _)
    cases predicted with
    | true =>
      obtain ⟨hfront, hexternals⟩ := add_prediction_spec h.frontOnly ev
      exact ⟨hfront, hexternals ▸ h.ordered, hexternals ▸ h.stable, hold⟩
    | false =>
      obtain ⟨hfront, hexternals⟩ := add_external_spec h.frontOnly ev
      refine ⟨hfront, hexternals ▸ ordered_insert h.ordered ev, hexternals ▸ ?_, hold⟩
      -- The new event has the greatest address, so only what stands behind it matters.
      apply NearlySorted.insert_pairwise eps_nonneg h.ordered h.stable
      · intro a ha _ hless
        have haddress := h.old a (externals_sublist _ |>.subset ha)
        dsimp only at hless
        omega
      · exact fun a _ hlt _ => hlt

theorem QueueOrder.run {first : Nat} {ops : List (Operation ε)}
    {s t : TimedEventQueue (EventPtr ε) × List (EventPtr ε × Bool)} (hs : QueueOrder first s.1.queue)
    (h : LabelledRun.exec TimedEventQueue.operate s (numbered first ops) = some t) :
    QueueOrder (first + ops.length) t.1.queue := by
  induction ops generalizing first s with
  | nil =>
    cases h
    exact hs
  | cons op ops ih =>
    have hlength : first + (op :: ops).length = first + 1 + ops.length := by
      rw [List.length_cons]
      omega
    rw [hlength]
    cases op with
    | add ev predicted =>
      obtain ⟨u, hu, ht⟩ := LabelledRun.exec_cons_eq_some.mp h
      exact ih (hs.operate (fun entry hentry => by cases hentry; rfl) hu) ht
    | get now =>
      obtain ⟨u, hu, ht⟩ := LabelledRun.exec_cons_eq_some.mp h
      exact ih (hs.operate (fun entry hentry => by cases hentry) hu) ht

theorem queueOrder_init (now : Int) (start : ℚ) :
    QueueOrder 0 (initStartTimeNow now start : TimedEventQueue (EventPtr ε)).queue := by
  constructor <;> simp [initStartTimeNow, FrontOnly, Calm, externals, NearlySorted.Sorted]

/-- The external events leave the queue in the order in which they stand, whatever is called. -/
theorem externals_run {ops : List (Operation ε)} {s t : TimedEventQueue ε × List (ε × Bool)}
    (hs : FrontOnly s.1.queue) (h : LabelledRun.exec operate s ops = some t) :
    ∃ new, t.2 = s.2 ++ new ∧ (externals s.1.queue).Sublist (externals (new ++ t.1.queue)) := by
  induction ops generalizing s with
  | nil =>
    cases h
    exact ⟨[], (List.append_nil _).symm, .refl _⟩
  | cons op ops ih =>
    obtain ⟨u, hu, ht⟩ := LabelledRun.exec_cons_eq_some.mp h
    cases op with
    | add ev predicted =>
      cases hu
      have hadd : FrontOnly (s.1.add ev predicted).queue ∧
          (externals s.1.queue).Sublist (externals (s.1.add ev predicted).queue) := by
        cases predicted with
        | true =>
          obtain ⟨hfront, hsame⟩ := add_prediction_spec hs ev
          exact ⟨hfront, hsame ▸ .refl _⟩
        | false =>
          obtain ⟨hfront, hinsert⟩ := add_external_spec hs ev
          exact ⟨hfront, hinsert ▸ NearlySorted.sublist_insert⟩
      obtain ⟨new, hnew, hsublist⟩ := ih hadd.1 ht
      exact ⟨new, hnew, hadd.2.trans hsublist⟩
    | get now =>
      obtain ⟨⟨entry, q'⟩, hget, heq⟩ := Option.map_eq_some_iff.mp hu
      obtain ⟨rest, hq, rfl, -⟩ := get_eq_some hget
      cases heq
      obtain ⟨new, hnew, hsublist⟩ := ih (hs.calm_rest hq).frontOnly ht
      refine ⟨entry :: new, by rw [hnew, List.append_assoc, List.singleton_append], ?_⟩
      rw [hq, List.cons_append]
      simp only [externals, List.filter_cons] at hsublist ⊢
      split
      · exact hsublist.cons_cons entry
      · exact hsublist

omit [Timed ε] in
private theorem sublist_of_mem_left {l A B : List ε} {b : ε} (hnodup : (A ++ B).Nodup) (hb : b ∈ A)
    (h : (l ++ [b]).Sublist (A ++ B)) : (l ++ [b]).Sublist A := by
  obtain ⟨l₁, l₂, heq, h₁, h₂⟩ := List.sublist_append_iff.mp h
  rcases List.eq_nil_or_concat l₂ with rfl | ⟨l₃, c, rfl⟩
  · rw [heq, List.append_nil]
    exact h₁
  · rw [List.concat_eq_append, ← List.append_assoc] at heq
    have hc : b = c := by simpa using congrArg List.getLast? heq
    have hmem : b ∈ B := h₂.subset (by simp [hc])
    exact absurd rfl ((List.nodup_append.mp hnodup).2.2 b hb b hmem)

omit [Timed ε] in
private theorem pair_sublist {l : List ε} {a b : ε} (ha : a ∈ l) (hb : b ∈ l) (hne : a ≠ b) :
    [a, b].Sublist l ∨ [b, a].Sublist l := by
  induction l with
  | nil => exact absurd ha List.not_mem_nil
  | cons x l ih =>
    rcases List.mem_cons.mp ha with rfl | ha'
    · have hb' := (List.mem_cons.mp hb).resolve_left hne.symm
      exact .inl ((List.singleton_sublist.mpr hb').cons_cons a)
    · rcases List.mem_cons.mp hb with rfl | hb'
      · exact .inr ((List.singleton_sublist.mpr ha').cons_cons b)
      · exact (ih ha' hb').imp (·.cons x) (·.cons x)

theorem QueueOrder.stands_first {next : Nat} {queue : List (EventPtr ε × Bool)} (h : QueueOrder next queue)
    {e₁ e₂ : EventPtr ε} (h₁ : (e₁, false) ∈ queue) (h₂ : (e₂, false) ∈ queue)
    (hpair : getTime e₁ < getTime e₂ - eps ∨ e₁.address < e₂.address ∧ getTime e₁ ≤ getTime e₂) :
    [(e₁, false), (e₂, false)].Sublist (externals queue) := by
  have hne : (e₁, false) ≠ (e₂, false) := by
    intro heq
    cases heq
    have := eps_nonneg
    rcases hpair with hlt | ⟨hlt, -⟩
    · linarith
    · exact absurd hlt (lt_irrefl _)
  rcases pair_sublist (mem_externals.mpr h₁) (mem_externals.mpr h₂) hne with hpos | hneg
  · exact hpos
  · have hnear := List.pairwise_pair.mp (h.ordered.sublist hneg)
    have hstable := List.pairwise_pair.mp (h.stable.sublist hneg)
    simp only [entryTime] at hnear hstable
    rcases hpair with hlt | ⟨haddress, hle⟩
    · linarith
    · exact absurd (hstable haddress) (not_lt.mpr hle)

/-- Every entry that was ever added is an object of its own. -/
theorem numbered_nodup {now : Int} {start : ℚ} {ops : List (Operation ε)} {q : TimedEventQueue (EventPtr ε)}
    {returned : List (EventPtr ε × Bool)}
    (h : LabelledRun.exec operate (initStartTimeNow now start, []) (numbered 0 ops) = some (q, returned)) :
    (returned ++ q.queue).Nodup := by
  obtain ⟨dropped, -, hperm⟩ := LabelledRun.exec_history
    (fun past s => Balanced (past.filterMap Operation.added) s.1 s.2)
    (fun past s op t hs h => operate_balanced past s t op hs h) ⟨[], rfl, .refl _⟩ h
  have hadded : ((numbered 0 ops).filterMap Operation.added).Nodup :=
    List.Nodup.of_map _ ((numbered_addresses 0 ops).1.imp fun hlt => ne_of_lt hlt)
  have hall := hperm.nodup_iff.mpr hadded
  exact List.perm_append_comm.nodup_iff.mp (List.nodup_append.mp hall).1

/-- External events keep their order: the clearly earlier one of two stands first, and so does the
one added first if it is not later. `get` returns them in this order, whatever is added later. -/
theorem external_events_keep_order (now : Int) (start : ℚ) (ops later : List (Operation ε))
    {q : TimedEventQueue (EventPtr ε)} {returned : List (EventPtr ε × Bool)}
    (h : LabelledRun.exec operate (initStartTimeNow now start, []) (numbered 0 ops) = some (q, returned))
    {e₁ e₂ : EventPtr ε} (h₁ : (e₁, false) ∈ q.queue) (h₂ : (e₂, false) ∈ q.queue)
    (hpair : getTime e₁ < getTime e₂ - eps ∨ e₁.address < e₂.address ∧ getTime e₁ ≤ getTime e₂) :
    [(e₁, false), (e₂, false)].Sublist q.queue ∧
      ∀ q' returned', LabelledRun.exec operate (q, returned) (numbered ops.length later) = some (q', returned') →
        (e₂, false) ∈ returned' → [(e₁, false), (e₂, false)].Sublist returned' := by
  have horder := (queueOrder_init now start).run h
  have hfirst := horder.stands_first h₁ h₂ hpair
  refine ⟨hfirst.trans (externals_sublist _), fun q' returned' hlater hreturned => ?_⟩
  obtain ⟨new, hnew, hsublist⟩ := externals_run horder.frontOnly hlater
  dsimp only at hnew
  have hboth := LabelledRun.exec_append_of_eq_some h hlater
  have hnumbered := numbered_append 0 ops later
  rw [Nat.zero_add] at hnumbered
  rw [← hnumbered] at hboth
  have hall : [(e₁, false), (e₂, false)].Sublist (returned' ++ q'.queue) := by
    rw [hnew, List.append_assoc]
    exact ((hfirst.trans hsublist).trans (externals_sublist _)).trans (List.sublist_append_right _ _)
  have hnodup := numbered_nodup hboth
  rw [← List.singleton_append] at hall ⊢
  exact sublist_of_mem_left hnodup hreturned hall

/-- The clearly earlier event was added last and stands first; it is also returned first. -/
theorem external_events_keep_order_reversed :
    ∃ q : TimedEventQueue (EventPtr ℚ), LabelledRun.exec operate (initStartTimeNow 0 0, [])
        (numbered 0 [.add 2 false, .add 1 false]) = some (q, []) ∧
      [((⟨1, 1⟩ : EventPtr ℚ), false), (⟨0, 2⟩, false)].Sublist q.queue ∧
      ∀ q' returned', LabelledRun.exec operate (q, [])
          (numbered 2 [.get 5000000, .add (3 / 2) true, .get 5000000, .get 5000000]) = some (q', returned') →
        (⟨0, 2⟩, false) ∈ returned' → [((⟨1, 1⟩ : EventPtr ℚ), false), (⟨0, 2⟩, false)].Sublist returned' := by
  refine ⟨_, rfl, ?_⟩
  exact external_events_keep_order 0 0 [.add 2 false, .add 1 false]
    [.get 5000000, .add (3 / 2) true, .get 5000000, .get 5000000] rfl (by decide +kernel) (by decide +kernel)
    (.inl (by decide +kernel))

/-! ### What the first entry stands for -/

/-- A prediction with a new address is discarded exactly if a clearly earlier event is queued, and
`hasPriorEvents` tells exactly whether there is one. -/
structure RefusesExactly (next : Nat) (q : TimedEventQueue (EventPtr ε)) : Prop where
  add : ∀ ev : ε, (EventPtr.mk next ev, true) ∉ (q.add ⟨next, ev⟩ true).queue ↔
    ∃ entry ∈ (q.removeFuturPredictions (getTime ev)).queue, entryTime entry < getTime ev - eps
  prior : ∀ t, q.hasPriorEvents t = true ↔ ∃ entry ∈ q.queue, entryTime entry < t - eps

/-- No entry is earlier than the first one. -/
def FrontEarliest (queue : List (ε × Bool)) : Prop :=
  ∀ front ∈ queue.head?, ∀ entry ∈ queue, entryTime front ≤ entryTime entry

theorem FrontEarliest.prior (h : FrontEarliest q.queue) (t : ℚ) :
    q.hasPriorEvents t = true ↔ ∃ entry ∈ q.queue, entryTime entry < t - eps := by
  rw [hasPriorEvents_iff]
  constructor
  · rintro ⟨front, hfront, hlt⟩
    exact ⟨front, List.mem_of_mem_head? hfront, hlt⟩
  · rintro ⟨entry, hentry, hlt⟩
    obtain ⟨front, hfront⟩ : ∃ front, front ∈ q.queue.head? := by
      cases hq : q.queue with
      | nil => exact absurd (hq ▸ hentry) List.not_mem_nil
      | cons front rest => exact ⟨front, rfl⟩
    exact ⟨front, hfront, (h front hfront entry hentry).trans_lt hlt⟩

/-- The removal of a later prediction changes nothing: everything behind it is even later. -/
theorem FrontEarliest.prior_removed (h : FrontEarliest q.queue) (hfront : FrontOnly q.queue) (t : ℚ) :
    (q.removeFuturPredictions t).hasPriorEvents t = true ↔
      ∃ entry ∈ (q.removeFuturPredictions t).queue, entryTime entry < t - eps := by
  rcases removeFuturPredictions_queue hfront t with ⟨hq, hlater⟩ | ⟨hq, -⟩
  · rcases hfront.cases with hcalm | ⟨p, rest, hp, hrest⟩
    · rw [externals_calm hcalm] at hq
      exact FrontEarliest.prior (hq ▸ h) t
    · have hnone : ∀ entry ∈ (q.removeFuturPredictions t).queue, ¬entryTime entry < t - eps := by
        intro entry hentry
        rw [hq] at hentry
        have hle := h (p, true) (by rw [hp]; rfl) entry ((externals_sublist _).subset hentry)
        have hless := hlater p rest hp
        have := eps_nonneg
        simp only [entryTime] at hle ⊢
        linarith
      rw [hasPriorEvents_iff]
      constructor
      · rintro ⟨front, hmem, hlt⟩
        exact ⟨front, List.mem_of_mem_head? hmem, hlt⟩
      · rintro ⟨entry, hmem, hlt⟩
        exact absurd hlt (hnone entry hmem)
  · exact FrontEarliest.prior (hq ▸ h) t

/-- A new prediction is missing from the queue after the call exactly if the test for earlier events
has refused it. -/
theorem QueueOrder.refused_iff {next : Nat} {q : TimedEventQueue (EventPtr ε)} (h : QueueOrder next q.queue) (ev : ε) :
    (EventPtr.mk next ev, true) ∉ (q.add ⟨next, ev⟩ true).queue ↔
      (q.removeFuturPredictions (getTime ev)).hasPriorEvents (getTime ev) = true := by
  have hnew : (EventPtr.mk next ev, true) ∉ (q.removeFuturPredictions (getTime ev)).queue := by
    intro hmem
    have hold : (EventPtr.mk next ev, true) ∈ q.queue := by
      rcases removeFuturPredictions_queue h.frontOnly (getTime ev) with ⟨hq, -⟩ | ⟨hq, -⟩
      · exact (externals_sublist _).subset (hq ▸ hmem)
      · exact hq ▸ hmem
    exact absurd (h.old _ hold) (lt_irrefl _)
  rw [add_prediction_queue h.frontOnly]
  split
  · rename_i hprior
    exact ⟨fun _ => hprior, fun _ => hnew⟩
  · rename_i hprior
    exact ⟨fun hnot => absurd List.mem_cons_self hnot, fun hp => absurd hp hprior⟩

theorem refusesExactly_iff {next : Nat} {q : TimedEventQueue (EventPtr ε)} (h : QueueOrder next q.queue) :
    RefusesExactly next q ↔ FrontEarliest q.queue := by
  constructor
  · intro hexact front hfront entry hentry
    by_contra hlt
    have hprior : q.hasPriorEvents (entryTime front + eps) = true :=
      (hexact.prior _).mpr ⟨entry, hentry, by linarith [not_le.mp hlt]⟩
    obtain ⟨front', hfront', hless⟩ := hasPriorEvents_iff.mp hprior
    rw [Option.mem_unique hfront' hfront] at hless
    linarith
  · refine fun hearliest => ⟨fun ev => ?_, hearliest.prior⟩
    rw [h.refused_iff]
    exact hearliest.prior_removed h.frontOnly (getTime ev)

/-- An external event is not added up to `eps` before a queued event, and a prediction not up to
`eps` behind an external one. -/
def OutsideTolerance (queue : List (ε × Bool)) : Operation ε → Prop
  | .add ev false => ∀ entry ∈ queue, entryTime entry ≤ getTime ev ∨ getTime ev + eps < entryTime entry
  | .add ev true => ∀ entry ∈ externals queue, getTime ev ≤ entryTime entry ∨ entryTime entry < getTime ev - eps
  | .get _ => True

/-- The entries stand exactly in the order of their times. -/
def TimeSorted (queue : List (ε × Bool)) : Prop := queue.Pairwise fun a b => entryTime a ≤ entryTime b

theorem TimeSorted.frontEarliest {queue : List (ε × Bool)} (h : TimeSorted queue) : FrontEarliest queue := by
  cases queue with
  | nil => exact fun front hfront => nomatch hfront
  | cons front rest =>
    rintro _ ⟨⟩ entry hentry
    rcases List.mem_cons.mp hentry with rfl | hentry
    · exact le_rfl
    · exact (List.pairwise_cons.mp h).1 entry hentry

theorem TimeSorted.ordered {queue : List (ε × Bool)} (h : TimeSorted queue) : Ordered queue :=
  h.imp fun hle => hle.trans (le_add_of_nonneg_right eps_nonneg)

theorem removeFuturPredictions_sublist (h : FrontOnly q.queue) (t : ℚ) :
    (q.removeFuturPredictions t).queue.Sublist q.queue := by
  rcases removeFuturPredictions_queue h t with ⟨hq, -⟩ | ⟨hq, -⟩
  · exact hq ▸ externals_sublist q.queue
  · rw [hq]

/-- Outside the tolerance the insertion sorts exactly. -/
theorem TimeSorted.add (h : TimeSorted q.queue) (hfront : FrontOnly q.queue) {ev : ε} {predicted : Bool}
    (hev : OutsideTolerance q.queue (.add ev predicted)) : TimeSorted (q.add ev predicted).queue := by
  have hremoved := removeFuturPredictions_sublist hfront (getTime ev)
  have hsorted : TimeSorted (q.removeFuturPredictions (getTime ev)).queue := h.sublist hremoved
  cases predicted with
  | false =>
    rw [add_external_queue]
    apply NearlySorted.insert_pairwise eps_nonneg hsorted.ordered hsorted
    · intro entry hentry hnear
      exact (hev entry (hremoved.subset hentry)).resolve_right (not_lt.mpr hnear)
    · exact fun entry _ hlt => hlt.le
  | true =>
    rw [add_prediction_queue hfront]
    split
    · exact hsorted
    · rename_i hprior
      refine List.pairwise_cons.mpr ⟨fun entry hentry => ?_, h.sublist (externals_sublist _)⟩
      apply (hev entry hentry).resolve_right
      -- The first entry is not clearly earlier than the prediction, and it is the earliest one.
      intro hless
      apply hprior
      rw [hsorted.frontEarliest.prior]
      refine ⟨entry, ?_, hless⟩
      rcases removeFuturPredictions_queue hfront (getTime ev) with ⟨hq, -⟩ | ⟨hq, -⟩
      · exact hq ▸ hentry
      · exact hq ▸ (externals_sublist _).subset hentry

theorem TimeSorted.operate {s t : TimedEventQueue ε × List (ε × Bool)} {op : Operation ε}
    (hs : FrontOnly s.1.queue ∧ TimeSorted s.1.queue) (hop : OutsideTolerance s.1.queue op)
    (h : TimedEventQueue.operate s op = some t) : FrontOnly t.1.queue ∧ TimeSorted t.1.queue := by
  cases op with
  | add ev predicted =>
    cases h
    refine ⟨?_, hs.2.add hs.1 hop⟩
    cases predicted with
    | true => exact (add_prediction_spec hs.1 ev).1
    | false => exact (add_external_spec hs.1 ev).1
  | get now =>
    obtain ⟨⟨entry, q'⟩, hget, rfl⟩ := Option.map_eq_some_iff.mp h
    obtain ⟨rest, hq, rfl, -⟩ := get_eq_some hget
    refine ⟨(hs.1.calm_rest hq).frontOnly, ?_⟩
    have hsorted := hs.2
    rw [TimeSorted, hq] at hsorted
    exact (List.pairwise_cons.mp hsorted).2

/-- In every state that can be reached, predictions are refused exactly because of earlier events
if and only if the first entry is the earliest one, and it always is as long as no event is added
within the tolerance of another one. -/
theorem prediction_refused_iff_front_earliest (now : Int) (start : ℚ) (ops : List (Operation ε))
    {q : TimedEventQueue (EventPtr ε)} {returned : List (EventPtr ε × Bool)}
    (h : LabelledRun.exec operate (initStartTimeNow now start, []) (numbered 0 ops) = some (q, returned)) :
    (RefusesExactly ops.length q ↔ FrontEarliest q.queue) ∧
    (LabelledRun.Along operate (fun s op _ => OutsideTolerance s.1.queue op) (initStartTimeNow now start, [])
      (numbered 0 ops) → RefusesExactly ops.length q) := by
  have horder := (queueOrder_init now start).run h
  rw [Nat.zero_add] at horder
  have hiff := refusesExactly_iff horder
  refine ⟨hiff, fun houtside => hiff.mpr ?_⟩
  have hinit : TimeSorted (initStartTimeNow now start : TimedEventQueue (EventPtr ε)).queue := List.Pairwise.nil
  have hstep (s t : TimedEventQueue (EventPtr ε) × List (EventPtr ε × Bool)) (op : Operation (EventPtr ε))
      (hs : FrontOnly s.1.queue ∧ TimeSorted s.1.queue) (hop : OutsideTolerance s.1.queue op)
      (h : operate s op = some t) : FrontOnly t.1.queue ∧ TimeSorted t.1.queue := TimeSorted.operate hs hop h
  have hsorted := LabelledRun.along_invariant _ (fun s op t => hstep s t op)
    ⟨(queueOrder_init now start).frontOnly, hinit⟩ houtside h
  exact hsorted.2.frontEarliest

instance (queue : List (ε × Bool)) : (op : Operation ε) → Decidable (OutsideTolerance queue op)
  | .add _ false => inferInstanceAs (Decidable (∀ entry ∈ queue, _))
  | .add _ true => inferInstanceAs (Decidable (∀ entry ∈ externals queue, _))
  | .get _ => isTrue trivial

/-- With events a second apart a later prediction is refused. -/
theorem prediction_refused_iff_front_earliest_apart :
    ∃ q : TimedEventQueue (EventPtr ℚ), LabelledRun.exec operate (initStartTimeNow 0 0, [])
        (numbered 0 [.add 2 false, .add 1 false]) = some (q, []) ∧ RefusesExactly 2 q ∧
      (EventPtr.mk 2 (3 / 2), true) ∉ (q.add ⟨2, 3 / 2⟩ true).queue := by
  refine ⟨_, rfl, ?_, by decide +kernel⟩
  exact (prediction_refused_iff_front_earliest 0 0 [.add 2 false, .add 1 false] rfl).2 (by decide +kernel)

/-- An event is added less than `eps` before a queued one and stands behind it. A prediction that is
clearly later than this event is not refused. -/
theorem prediction_not_refused_within_tolerance :
    ∃ q : TimedEventQueue (EventPtr ℚ), LabelledRun.exec operate (initStartTimeNow 0 0, [])
        (numbered 0 [.add (1 + 9 / 10000) false, .add 1 false]) = some (q, []) ∧
      (∃ entry ∈ q.queue, entryTime entry < 1 + 15 / 10000 - eps) ∧
      q.hasPriorEvents (1 + 15 / 10000) = false ∧
      (EventPtr.mk 2 (1 + 15 / 10000), true) ∈ (q.add ⟨2, 1 + 15 / 10000⟩ true).queue ∧
      ¬RefusesExactly 2 q := by
  refine ⟨_, rfl, by decide +kernel, by decide +kernel, by decide +kernel, fun hexact => ?_⟩
  have hprior := (hexact.prior (1 + 15 / 10000)).mpr (by decide +kernel)
  exact absurd hprior (by decide +kernel)

end FMITerminalBlock.Timing.TimedEventQueue
