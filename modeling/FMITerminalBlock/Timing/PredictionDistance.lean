import FMITerminalBlock.Timing.QueueOrder
import Mathlib.Tactic.Linarith

/-! How far the prediction in the first place may lie behind the external events. A prediction that
replaces another one takes its place without a look at the next entry, so the distance can grow with
every replacement. Whether a refusal is free of side effects and whether the scan of `push` finds its
entries in order depends on nothing else. -/
namespace FMITerminalBlock.Timing.TimedEventQueue
variable {ε : Type} [Timed ε] {d : ℚ}

/-- A prediction in the first place is at most `d` later than the entry behind it. -/
def FrontWithin (d : ℚ) (queue : List (ε × Bool)) : Prop :=
  ∀ front ∈ queue.head?, front.2 = true → ∀ entry ∈ queue.tail.head?, entryTime front ≤ entryTime entry + d

/-- The call replaces the queued prediction by one at about the same time, although the event behind
them is earlier than the new prediction by more than `d`. -/
def OvertakesBy (d : ℚ) (queue : List (ε × Bool)) : Operation ε → Prop
  | .add ev true => ∃ front ∈ queue.head?, front.2 = true ∧ |entryTime front - getTime ev| ≤ eps ∧
      ∃ entry ∈ queue.tail.head?, entryTime entry + d < getTime ev
  | .add _ false => False
  | .get _ => False

instance (d : ℚ) (queue : List (ε × Bool)) : (op : Operation ε) → Decidable (OvertakesBy d queue op)
  | .add ev true => inferInstanceAs (Decidable (∃ front ∈ queue.head?, front.2 = true ∧
      |entryTime front - getTime ev| ≤ eps ∧ ∃ entry ∈ queue.tail.head?, entryTime entry + d < getTime ev))
  | .add _ false => isFalse id
  | .get _ => isFalse id

theorem Calm.frontWithin {queue : List (ε × Bool)} (h : Calm queue) : FrontWithin d queue := by
  intro front hfront hpredicted
  rw [h front (List.mem_of_mem_head? hfront)] at hpredicted
  cases hpredicted

theorem frontWithin_cons (p : ε) (rest : List (ε × Bool)) :
    FrontWithin d ((p, true) :: rest) ↔ ∀ entry ∈ rest.head?, getTime p ≤ entryTime entry + d := by
  constructor
  · intro h entry hentry
    exact h (p, true) rfl rfl entry hentry
  · rintro h _ ⟨⟩ - entry hentry
    exact h entry hentry

theorem Calm.not_overtakesBy {queue : List (ε × Bool)} (h : Calm queue) (op : Operation ε) :
    ¬OvertakesBy d queue op := by
  match op with
  | .add ev true =>
    rintro ⟨front, hfront, hpredicted, -⟩
    rw [h front (List.mem_of_mem_head? hfront)] at hpredicted
    cases hpredicted
  | .add ev false => exact id
  | .get now => exact id

theorem overtakesBy_cons (p ev : ε) (rest : List (ε × Bool)) :
    OvertakesBy d ((p, true) :: rest) (.add ev true) ↔
      |getTime p - getTime ev| ≤ eps ∧ ∃ entry ∈ rest.head?, entryTime entry + d < getTime ev := by
  constructor
  · rintro ⟨_, ⟨⟩, -, hnear, hbehind⟩
    exact ⟨hnear, hbehind⟩
  · rintro ⟨hnear, hbehind⟩
    exact ⟨(p, true), rfl, rfl, hnear, hbehind⟩

/-! ### One call -/

variable {q : TimedEventQueue ε}

/-- An external event that gets between a prediction and the events behind it is not clearly earlier
than the prediction. -/
theorem FrontWithin.add_external (h : FrontWithin d q.queue) (hfront : FrontOnly q.queue) (hd : eps ≤ d) (ev : ε) :
    FrontWithin d (q.add ev false).queue := by
  rw [add_external_queue]
  rcases removeFuturPredictions_queue hfront (getTime ev) with ⟨hq, -⟩ | ⟨hq, p, rest, hp, hrest, hle⟩
  · rw [hq]
    exact (calm_insert (calm_externals q.queue) ev).frontWithin
  · rw [hp, frontWithin_cons] at h
    rw [hq, hp, NearlySorted.insert_cons_of_le (by exact hle), frontWithin_cons]
    intro entry hentry
    rcases NearlySorted.head?_insert hentry with ⟨rfl, -⟩ | ⟨hold, -⟩
    · exact hle.trans (add_le_add_right hd _)
    · exact h entry hold

/-- A prediction is put too far behind the next event by a replacement only: any other prediction is
compared with that event before it is accepted. -/
theorem FrontWithin.add_prediction (h : FrontWithin d q.queue) (hfront : FrontOnly q.queue) (hd : eps ≤ d) (ev : ε) :
    FrontWithin d (q.add ev true).queue ↔ ¬OvertakesBy d q.queue (.add ev true) := by
  have := eps_nonneg
  rw [add_prediction_queue hfront]
  rcases removeFuturPredictions_queue hfront (getTime ev) with ⟨hq, hlater⟩ | ⟨hq, p, rest, hp, hrest, hle⟩
  · -- No prediction is left to be replaced.
    have hnot : ¬OvertakesBy d q.queue (.add ev true) := by
      rcases hfront.cases with hcalm | ⟨p, rest, hp, -⟩
      · exact hcalm.not_overtakesBy _
      · rw [hp, overtakesBy_cons]
        rintro ⟨hnear, -⟩
        have hless := hlater p rest hp
        linarith [(abs_le.mp hnear).2]
    refine iff_of_true ?_ hnot
    split
    · exact hq ▸ (calm_externals q.queue).frontWithin
    · rename_i hprior
      rw [hasPriorEvents_iff, hq] at hprior
      rw [frontWithin_cons]
      intro entry hentry
      have hge : getTime ev - eps ≤ entryTime entry := not_lt.mp fun hlt => hprior ⟨entry, hentry, hlt⟩
      linarith
  · rw [hp, overtakesBy_cons]
    split
    · rename_i hprior
      rw [hasPriorEvents_iff, hq, hp] at hprior
      refine iff_of_true (hq ▸ h) ?_
      rintro ⟨hnear, -⟩
      obtain ⟨_, ⟨⟩, hless⟩ := hprior
      have hge := (abs_le.mp hnear).1
      simp only [entryTime] at hless
      linarith
    · rename_i hprior
      rw [hasPriorEvents_iff, hq, hp] at hprior
      have hge : getTime ev - eps ≤ getTime p := not_lt.mp fun hlt => hprior ⟨_, rfl, hlt⟩
      have hnear : |getTime p - getTime ev| ≤ eps := abs_le.mpr ⟨by linarith, by linarith⟩
      rw [externals_cons_prediction p hrest, frontWithin_cons]
      constructor
      · rintro hwithin ⟨-, entry, hentry, hless⟩
        exact absurd (hwithin entry hentry) (not_le.mpr hless)
      · intro hnot entry hentry
        exact not_lt.mp fun hless => hnot ⟨hnear, entry, hentry, hless⟩

theorem FrontWithin.operate {s t : TimedEventQueue ε × List (ε × Bool)} {op : Operation ε}
    (h : FrontWithin d s.1.queue) (hfront : FrontOnly s.1.queue) (hd : eps ≤ d)
    (hstep : TimedEventQueue.operate s op = some t) :
    FrontWithin d t.1.queue ↔ ¬OvertakesBy d s.1.queue op := by
  match op with
  | .add ev true =>
    cases hstep
    exact h.add_prediction hfront hd ev
  | .add ev false =>
    cases hstep
    exact iff_of_true (h.add_external hfront hd ev) id
  | .get now =>
    obtain ⟨⟨entry, q'⟩, hget, rfl⟩ := Option.map_eq_some_iff.mp hstep
    obtain ⟨rest, hq, rfl, -⟩ := get_eq_some hget
    exact iff_of_true (hfront.calm_rest hq).frontWithin id

/-! ### What depends on the distance -/

/-- A prediction with a new address that is refused leaves the queue as it was. -/
def RefusalKeepsQueue (next : Nat) (q : TimedEventQueue (EventPtr ε)) : Prop :=
  ∀ ev : ε, (EventPtr.mk next ev, true) ∉ (q.add ⟨next, ev⟩ true).queue →
    (q.add ⟨next, ev⟩ true).queue = q.queue

/-- Between the removed prediction and the event that refuses the new one there are two tolerances. -/
theorem FrontWithin.refusalKeepsQueue {next : Nat} {q : TimedEventQueue (EventPtr ε)}
    (hwithin : FrontWithin (2 * eps) q.queue) (h : QueueOrder next q.queue) : RefusalKeepsQueue next q := by
  intro ev hrefused
  rw [h.refused_iff] at hrefused
  rw [add_prediction_queue h.frontOnly]
  rw [if_pos (by exact hrefused)]
  rcases removeFuturPredictions_queue h.frontOnly (getTime ev) with ⟨hq, hlater⟩ | ⟨hq, -⟩
  · rcases h.frontOnly.cases with hcalm | ⟨p, rest, hp, hrest⟩
    · exact hq.trans (externals_calm hcalm)
    · rw [hasPriorEvents_iff, hq, hp, externals_cons_prediction p hrest] at hrefused
      obtain ⟨entry, hentry, hless⟩ := hrefused
      rw [hp, frontWithin_cons] at hwithin
      have hle := hwithin entry hentry
      have hlast := hlater p rest hp
      linarith
  · exact hq

/-- Otherwise a time fits between them that is later than the event and earlier than the prediction. -/
theorem RefusalKeepsQueue.frontWithin {next : Nat} {q : TimedEventQueue (EventPtr ε)}
    (hkeeps : RefusalKeepsQueue next q) (h : QueueOrder next q.queue)
    (htimes : Function.Surjective (getTime : ε → ℚ)) : FrontWithin (2 * eps) q.queue := by
  rcases h.frontOnly.cases with hcalm | ⟨p, rest, hp, hrest⟩
  · exact hcalm.frontWithin
  · rw [hp, frontWithin_cons]
    intro entry hentry
    by_contra hfar
    obtain ⟨ev, hev⟩ := htimes ((getTime p + entryTime entry) / 2)
    have hlater : getTime ev + eps < getTime p := by linarith
    have hearlier : entryTime entry < getTime ev - eps := by linarith
    have hremoved : (q.removeFuturPredictions (getTime ev)).queue = rest := by
      rcases removeFuturPredictions_queue h.frontOnly (getTime ev) with ⟨hq, -⟩ | ⟨-, p', rest', hp', -, hle⟩
      · rw [hq, hp, externals_cons_prediction p hrest]
      · rw [hp] at hp'
        cases hp'
        exact absurd hlater (not_lt.mpr hle)
    have hrefused : (q.removeFuturPredictions (getTime ev)).hasPriorEvents (getTime ev) = true := by
      rw [hasPriorEvents_iff, hremoved]
      exact ⟨entry, hentry, hearlier⟩
    have hsame := hkeeps ev ((h.refused_iff ev).mpr hrefused)
    rw [add_prediction_queue h.frontOnly] at hsame
    rw [if_pos (by exact hrefused)] at hsame
    have hcycle : rest = (p, true) :: rest := hremoved.symm.trans (hsame.trans hp)
    exact List.cons_ne_self _ _ hcycle.symm

/-- The assertion of the scan loop has not failed so far, and no further call makes it fail. -/
def ScansInOrder (next : Nat) (q : TimedEventQueue (EventPtr ε)) : Prop :=
  .visitedInOrder ∉ q.failed ∧
    ∀ (ev : ε) (predicted : Bool), .visitedInOrder ∉ (q.add ⟨next, ev⟩ predicted).failed

/-- With the first two entries in order the neighbours are in order everywhere. -/
theorem FrontWithin.isChain (h : FrontWithin eps q.queue) (hfront : FrontOnly q.queue)
    (hord : Ordered (externals q.queue)) : q.queue.IsChain fun a b => entryTime a ≤ entryTime b + eps := by
  rcases hfront.cases with hcalm | ⟨p, rest, hp, hrest⟩
  · rw [← externals_calm hcalm]
    exact hord.isChain
  · rw [hp, frontWithin_cons] at h
    rw [hp, externals_cons_prediction p hrest] at hord
    rw [hp]
    cases rest with
    | nil => exact .singleton _
    | cons entry rest => exact List.isChain_cons_cons.mpr ⟨h entry rfl, hord.isChain⟩

/-- As long as a prediction in the first place is close to the event behind it, no assertion fails. -/
theorem FrontWithin.add_failed (h : FrontWithin eps q.queue) (hfront : FrontOnly q.queue)
    (hord : Ordered (externals q.queue)) (ev : ε) (predicted : Bool) : (q.add ev predicted).failed = q.failed := by
  have hfutur : (q.removeFuturPredictions (getTime ev)).failed = q.failed := removePrediction_failed hfront _
  have hremoved : FrontOnly (q.removeFuturPredictions (getTime ev)).queue := by
    rcases removeFuturPredictions_queue hfront (getTime ev) with ⟨hq, -⟩ | ⟨hq, -⟩
    · exact hq ▸ (calm_externals q.queue).frontOnly
    · exact hq ▸ hfront
  rw [add]
  cases predicted with
  | false =>
    have hchain : (q.removeFuturPredictions (getTime ev)).queue.IsChain
        fun a b => entryTime a ≤ entryTime b + eps := by
      rcases removeFuturPredictions_queue hfront (getTime ev) with ⟨hq, -⟩ | ⟨hq, -⟩
      · exact hq ▸ hord.isChain
      · exact hq ▸ h.isChain hfront hord
    simp [push_external _ ev hchain, hfutur]
  | true =>
    by_cases hprior : (q.removeFuturPredictions (getTime ev)).hasPriorEvents (getTime ev) = true
    · simp [hprior, deleteEvent, hfutur]
    · have hcalm : Calm ((q.removeFuturPredictions (getTime ev)).removeConcurrentPrediction (getTime ev)).queue := by
        rw [removeConcurrentPrediction_queue hfront hprior]
        exact calm_externals q.queue
      have hconcurrent : ((q.removeFuturPredictions (getTime ev)).removeConcurrentPrediction (getTime ev)).failed =
          q.failed := (removePrediction_failed hremoved _).trans hfutur
      simp [hprior, push_prediction_calm hcalm, hconcurrent]

/-- The scan notices two neighbours out of order if it gets past both of them. -/
theorem scan_not_in_order (ev : ε) {first second : ε × Bool} (rest : List (ε × Bool)) (old : WithBot ℚ)
    (hfirst : entryTime first ≤ getTime ev + eps) (hlt : entryTime second + eps < entryTime first) :
    (scan ev false old (first :: second :: rest)).2 = false := by
  have := eps_nonneg
  have hsecond : entryTime second ≤ getTime ev + eps := by linarith
  have hfails : ¬entryTime first ≤ entryTime second + eps := not_le.mpr hlt
  simp only [scan, hfirst, hsecond, Bool.not_false, and_self, if_true]
  rw [Bool.and_eq_false_iff, Bool.and_eq_false_iff]
  refine .inr (.inl (decide_eq_false fun hle => hfails ?_))
  exact WithBot.coe_le_coe.mp hle

/-- An external event at the time of the prediction gets past it and past the event behind it. -/
theorem ScansInOrder.frontWithin {next : Nat} {q : TimedEventQueue (EventPtr ε)} (hscans : ScansInOrder next q)
    (hfront : FrontOnly q.queue) : FrontWithin eps q.queue := by
  rcases hfront.cases with hcalm | ⟨p, rest, hp, hrest⟩
  · exact hcalm.frontWithin
  · rw [hp, frontWithin_cons]
    intro entry hentry
    by_contra hfar
    obtain ⟨rest, rfl⟩ := List.head?_eq_some_iff.mp hentry
    have htime : getTime (EventPtr.mk next p.event) = getTime p := rfl
    have hkept : q.removeFuturPredictions (getTime (EventPtr.mk next p.event)) = q := by
      rw [removeFuturPredictions, removePrediction_cons hp hrest]
      rw [if_neg]
      simp [htime, eps_nonneg]
    apply hscans.2 p.event false
    have hvisited : entryTime (p, true) ≤ getTime (EventPtr.mk next p.event) + eps := by
      rw [htime]
      exact le_add_of_nonneg_right eps_nonneg
    have hscan := scan_not_in_order (EventPtr.mk next p.event) rest ⊥ hvisited (not_le.mp hfar)
    simp [add, hkept, push, hp, hscan, check]

/-! ### Histories of calls -/

omit [Timed ε] in
theorem numbered_eq_append {first : Nat} {ops : List (Operation ε)} {past later : List (Operation (EventPtr ε))}
    (h : numbered first ops = past ++ later) :
    ∃ ops₁ ops₂, ops = ops₁ ++ ops₂ ∧ past = numbered first ops₁ := by
  induction past generalizing first ops with
  | nil => exact ⟨[], ops, rfl, rfl⟩
  | cons a past ih =>
    match ops with
    | [] => cases h
    | .add ev predicted :: ops =>
      rw [numbered, List.cons_append] at h
      obtain ⟨rfl, htail⟩ := List.cons_eq_cons.mp h
      obtain ⟨ops₁, ops₂, rfl, rfl⟩ := ih htail
      exact ⟨.add ev predicted :: ops₁, ops₂, rfl, rfl⟩
    | .get now :: ops =>
      rw [numbered, List.cons_append] at h
      obtain ⟨rfl, htail⟩ := List.cons_eq_cons.mp h
      obtain ⟨ops₁, ops₂, rfl, rfl⟩ := ih htail
      exact ⟨.get now :: ops₁, ops₂, rfl, rfl⟩

/-- In every state on the way through the calls, `P` holds of the queue and the next free address. -/
def OnTheWay (P : Nat → TimedEventQueue (EventPtr ε) → Prop) (now : Int) (start : ℚ) (ops : List (Operation ε)) :
    Prop :=
  ∀ past later, ops = past ++ later → ∀ q returned,
    LabelledRun.exec operate (initStartTimeNow now start, []) (numbered 0 past) = some (q, returned) →
      P past.length q

theorem onTheWay_congr {P P' : Nat → TimedEventQueue (EventPtr ε) → Prop} {now : Int} {start : ℚ}
    {ops : List (Operation ε)} (h : ∀ next q, QueueOrder next q.queue → P next q → P' next q)
    (hP : OnTheWay P now start ops) : OnTheWay P' now start ops := by
  intro past later heq q returned hq
  have horder := (queueOrder_init now start).run hq
  rw [Nat.zero_add] at horder
  exact h past.length q horder (hP past later heq q returned hq)

theorem ordered_operate {s t : TimedEventQueue ε × List (ε × Bool)} {op : Operation ε}
    (hs : FrontOnly s.1.queue ∧ Ordered (externals s.1.queue)) (h : operate s op = some t) :
    FrontOnly t.1.queue ∧ Ordered (externals t.1.queue) := by
  match op with
  | .add ev true =>
    cases h
    obtain ⟨hfront, hexternals⟩ := add_prediction_spec hs.1 ev
    exact ⟨hfront, hexternals ▸ hs.2⟩
  | .add ev false =>
    cases h
    obtain ⟨hfront, hexternals⟩ := add_external_spec hs.1 ev
    exact ⟨hfront, hexternals ▸ ordered_insert hs.2 ev⟩
  | .get now =>
    obtain ⟨⟨entry, q'⟩, hget, rfl⟩ := Option.map_eq_some_iff.mp h
    obtain ⟨rest, hq, rfl, -⟩ := get_eq_some hget
    have hsublist : (externals rest).Sublist (externals s.1.queue) := by
      rw [hq]
      exact (List.sublist_cons_self entry rest).filter _
    exact ⟨(hs.1.calm_rest hq).frontOnly, hs.2.sublist hsublist⟩

/-- A property of the queue that a call keeps exactly if it does not overtake by `d`. -/
theorem onTheWay_iff_along (d : ℚ) (Q : TimedEventQueue (EventPtr ε) → Prop) (now : Int) (start : ℚ)
    (ops : List (Operation ε)) (hinit : Q (initStartTimeNow now start))
    (hstep : ∀ (s t : TimedEventQueue (EventPtr ε) × List (EventPtr ε × Bool)) (op : Operation (EventPtr ε)),
      FrontOnly s.1.queue → Ordered (externals s.1.queue) → Q s.1 → operate s op = some t →
        (Q t.1 ↔ ¬OvertakesBy d s.1.queue op)) :
    OnTheWay (fun _ => Q) now start ops ↔ LabelledRun.Along operate
      (fun s op _ => ¬OvertakesBy d s.1.queue op) (initStartTimeNow now start, []) (numbered 0 ops) := by
  have horder := queueOrder_init (ε := ε) now start
  have halong := LabelledRun.forall_past_iff_along
    (fun s : TimedEventQueue (EventPtr ε) × List (EventPtr ε × Bool) =>
      FrontOnly s.1.queue ∧ Ordered (externals s.1.queue)) (fun s => Q s.1)
    (fun s op t hs hq h => ⟨ordered_operate hs h, hstep s t op hs.1 hs.2 hq h⟩)
    (initStartTimeNow now start, []) (numbered 0 ops) ⟨horder.frontOnly, horder.ordered⟩ hinit
  rw [← halong]
  constructor
  · intro h past later heq t ht
    obtain ⟨ops₁, ops₂, hops, rfl⟩ := numbered_eq_append heq
    exact h ops₁ ops₂ hops t.1 t.2 ht
  · intro h past later heq q returned hq
    refine h (numbered 0 past) (numbered past.length later) ?_ (q, returned) hq
    rw [heq, numbered_append, Nat.zero_add]

/-- On the way through any history a refused prediction changes nothing, provided that no call replaces
a prediction by one more than two tolerances behind the next event; and if events of every time exist,
it is so in no other history. -/
theorem refused_prediction_changes_nothing_iff (now : Int) (start : ℚ) (ops : List (Operation ε)) :
    (LabelledRun.Along operate (fun s op _ => ¬OvertakesBy (2 * eps) s.1.queue op)
        (initStartTimeNow now start, []) (numbered 0 ops) → OnTheWay RefusalKeepsQueue now start ops) ∧
    (Function.Surjective (getTime : ε → ℚ) → OnTheWay RefusalKeepsQueue now start ops →
      LabelledRun.Along operate (fun s op _ => ¬OvertakesBy (2 * eps) s.1.queue op)
        (initStartTimeNow now start, []) (numbered 0 ops)) := by
  have heps : eps ≤ 2 * eps := by linarith [eps_nonneg]
  have hiff := onTheWay_iff_along (2 * eps) (fun q => FrontWithin (2 * eps) q.queue) now start ops
    (Calm.frontWithin (fun entry hentry => absurd hentry List.not_mem_nil))
    (fun s t op hfront _ hq h => hq.operate hfront heps h)
  constructor
  · intro halong
    exact onTheWay_congr (fun next q horder hwithin => hwithin.refusalKeepsQueue horder) (hiff.mpr halong)
  · intro htimes hkeeps
    exact hiff.mp (onTheWay_congr (fun next q horder hkeeps => hkeeps.frontWithin horder htimes) hkeeps)

/-- A prediction is replaced by a slightly later one while an event just before it is queued. -/
theorem refused_prediction_changes_nothing_close :
    OnTheWay RefusalKeepsQueue 0 0 [.add (1 : ℚ) true, .add (9995 / 10000) false, .add (1001 / 1000) true] :=
  (refused_prediction_changes_nothing_iff 0 0 _).1 (by decide +kernel)

/-- Two replacements put the prediction 2.7 tolerances behind an external event. The next prediction
removes it and is then refused because of that event. -/
theorem refused_prediction_empties_first_place :
    ∃ q : TimedEventQueue (EventPtr ℚ), LabelledRun.exec operate (initStartTimeNow 0 0, [])
        (numbered 0 [.add 1 true, .add (9991 / 10000) false, .add (10009 / 10000) true,
          .add (10018 / 10000) true]) = some (q, []) ∧
      (EventPtr.mk 4 (10004 / 10000), true) ∉ (q.add ⟨4, 10004 / 10000⟩ true).queue ∧
      q.queue = [(⟨3, 10018 / 10000⟩, true), (⟨1, 9991 / 10000⟩, false)] ∧
      (q.add ⟨4, 10004 / 10000⟩ true).queue = [(⟨1, 9991 / 10000⟩, false)] := by
  refine ⟨_, rfl, by decide +kernel, by decide +kernel, by decide +kernel⟩

/-- On the way through a history no call makes the assertion of the scan loop fail, if and only if no
call replaces a prediction by one more than the tolerance behind the next event. -/
theorem scan_in_order_iff (now : Int) (start : ℚ) (ops : List (Operation ε)) :
    OnTheWay ScansInOrder now start ops ↔
      LabelledRun.Along operate (fun s op _ => ¬OvertakesBy eps s.1.queue op)
        (initStartTimeNow now start, []) (numbered 0 ops) := by
  have hiff := onTheWay_iff_along eps
    (fun q => FrontWithin eps q.queue ∧ .visitedInOrder ∉ q.failed) now start ops
    ⟨Calm.frontWithin (fun entry hentry => absurd hentry List.not_mem_nil), List.not_mem_nil⟩ ?_
  · rw [← hiff]
    constructor
    · exact onTheWay_congr fun next q horder hscans => ⟨hscans.frontWithin horder.frontOnly, hscans.1⟩
    · refine onTheWay_congr fun next q horder hq => ⟨hq.2, fun ev predicted => ?_⟩
      rw [hq.1.add_failed horder.frontOnly horder.ordered]
      exact hq.2
  · intro s t op hfront hord hq h
    have hfailed : t.1.failed = s.1.failed := by
      cases op with
      | add ev predicted =>
        cases h
        exact hq.1.add_failed hfront hord ev predicted
      | get now =>
        obtain ⟨⟨entry, q'⟩, hget, rfl⟩ := Option.map_eq_some_iff.mp h
        obtain ⟨rest, -, rfl, -⟩ := get_eq_some hget
        rfl
    rw [hfailed, hq.1.operate hfront le_rfl h]
    exact and_iff_left hq.2

/-- One replacement puts the prediction two tolerances behind an external event, and the next external
event finds them out of order. -/
theorem scan_out_of_order :
    ∃ q : TimedEventQueue (EventPtr ℚ), LabelledRun.exec operate (initStartTimeNow 0 0, [])
        (numbered 0 [.add 1 true, .add (999 / 1000) false, .add (1001 / 1000) true, .add (1001 / 1000) false]) =
          some (q, []) ∧ .visitedInOrder ∈ q.failed := by
  refine ⟨_, rfl, by decide +kernel⟩

end FMITerminalBlock.Timing.TimedEventQueue
