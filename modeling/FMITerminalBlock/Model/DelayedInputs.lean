import FMITerminalBlock.Model.SynchronizationPoints

/-! When an input takes effect in the single step mode. A synchronization point is settled when its
step is made, so whatever arrives before its delivery can only change the points behind it. -/
namespace FMITerminalBlock.Model.OneStepEventPredictor
open Base Timing Fallible
variable {σ : Type} {M : FMUModelExchange σ} {c : OneStepConfiguration}

/-! ### The protocol -/

/-- What ends a cycle of the protocol: the prediction of the cycle or an external event. -/
inductive Delivery where
  | synchronization
  | external (ev : StaticEvent)
  deriving DecidableEq

def Delivery.of (entry : EventPtr StaticEvent × Bool) : Delivery :=
  if entry.2 then .synchronization else .external entry.1.event

/-- One cycle of the protocol: `predictNext`, then one `eventTriggered`. -/
def cycle (M : FMUModelExchange σ) (c : OneStepConfiguration) (turns : Nat) (p : OneStepEventPredictor σ)
    (d : Delivery) : Except Fault (OneStepEventPredictor σ) := do
  let (prediction, p) ← predictNext M c turns p
  eventTriggered M c p (match d with
    | .synchronization => prediction
    | .external ev => ev)

def cycles (M : FMUModelExchange σ) (c : OneStepConfiguration) (turns : Nat) (p : OneStepEventPredictor σ)
    (deliveries : List Delivery) : Except Fault (OneStepEventPredictor σ) :=
  deliveries.foldlM (cycle M c turns) p

theorem cycles_cons_eq_ok {turns : Nat} {p q : OneStepEventPredictor σ} {d : Delivery} {deliveries : List Delivery} :
    cycles M c turns p (d :: deliveries) = .ok q ↔
      ∃ next, cycle M c turns p d = .ok next ∧ cycles M c turns next deliveries = .ok q := by
  rw [cycles, List.foldlM_cons]
  exact bind_eq_ok

/-- The deliveries up to and including the one of the given synchronization event. -/
def upTo : Nat → List Delivery → List Delivery
  | 0, _ => []
  | _ + 1, [] => []
  | n + 1, .synchronization :: rest => .synchronization :: upTo n rest
  | n + 1, .external ev :: rest => .external ev :: upTo (n + 1) rest

/-- The condition on external events: they carry a configured input. -/
def Delivery.CarriesInput (context : ApplicationContext.Settled) : Delivery → Prop
  | .synchronization => True
  | .external ev => ev.CarriesInput context

instance (context : ApplicationContext.Settled) : (d : Delivery) → Decidable (d.CarriesInput context)
  | .synchronization => isTrue trivial
  | .external ev => inferInstanceAs (Decidable (ev.CarriesInput context))

def AllCarryInput (context : ApplicationContext.Settled) (deliveries : List Delivery) : Prop :=
  ∀ d ∈ deliveries, d.CarriesInput context

/-! ### Results do not depend on the bound of the loop -/

theorem integrateTo_unique {target : ℚ} {turns₁ turns₂ : Nat} {s a b : σ} (ha : integrateTo M c target turns₁ s = .ok a)
    (hb : integrateTo M c target turns₂ s = .ok b) : a = b := by
  induction turns₁ generalizing turns₂ s with
  | zero => cases ha
  | succ turns₁ ih =>
    cases turns₂ with
    | zero => cases hb
    | succ turns₂ =>
      rw [integrateTo] at ha hb
      dsimp only at ha hb
      split at ha
      · cases ha
      · rename_i hgood
        rw [if_neg hgood] at hb
        split at ha
        · rename_i hearly
          rw [if_pos hearly] at hb
          exact ih ha hb
        · rename_i hdone
          rw [if_neg hdone] at hb
          cases ha
          cases hb
          rfl

theorem predictNext_unique {turns₁ turns₂ : Nat} {p : OneStepEventPredictor σ}
    {a b : StaticEvent × OneStepEventPredictor σ} (ha : predictNext M c turns₁ p = .ok a)
    (hb : predictNext M c turns₂ p = .ok b) : a = b := by
  unfold predictNext at ha hb
  cases hcur : p.currentPrediction with
  | some ev =>
    rw [hcur] at ha hb
    exact Except.ok.inj (ha.symm.trans hb)
  | none =>
    rw [hcur] at ha hb
    obtain ⟨p₁, h₁, ha⟩ := bind_eq_ok.mp ha
    obtain ⟨p₂, h₂, hb⟩ := bind_eq_ok.mp hb
    obtain ⟨s₁, hs₁, rfl⟩ := map_eq_ok.mp h₁
    obtain ⟨s₂, hs₂, rfl⟩ := map_eq_ok.mp h₂
    rw [integrateTo_unique hs₁ hs₂] at ha
    exact Except.ok.inj (ha.symm.trans hb)

theorem cycle_unique {turns₁ turns₂ : Nat} {p a b : OneStepEventPredictor σ} {d : Delivery}
    (ha : cycle M c turns₁ p d = .ok a) (hb : cycle M c turns₂ p d = .ok b) : a = b := by
  obtain ⟨next₁, h₁, ha⟩ := bind_eq_ok.mp ha
  obtain ⟨next₂, h₂, hb⟩ := bind_eq_ok.mp hb
  rw [predictNext_unique h₁ h₂] at ha
  exact Except.ok.inj (ha.symm.trans hb)

theorem cycles_unique {turns₁ turns₂ : Nat} {p a b : OneStepEventPredictor σ} {deliveries : List Delivery}
    (ha : cycles M c turns₁ p deliveries = .ok a) (hb : cycles M c turns₂ p deliveries = .ok b) : a = b := by
  induction deliveries generalizing p with
  | nil =>
    cases ha
    cases hb
    rfl
  | cons d deliveries ih =>
    obtain ⟨p₁, h₁, ha⟩ := cycles_cons_eq_ok.mp ha
    obtain ⟨p₂, h₂, hb⟩ := cycles_cons_eq_ok.mp hb
    rw [cycle_unique h₁ h₂] at ha
    exact ih ha hb

/-! ### Points of a protocol run -/

/-- Behind the delivered points one more may be outstanding, and no other. -/
structure Outstanding (context : ApplicationContext.Settled) (done : List StaticEvent) (p : OneStepEventPredictor σ) :
    Prop where
  outputOnly : ∀ ev, p.currentPrediction = some ev → OutputOnly context ev.vars
  points : p.synchronizationPoints = done ++ p.currentPrediction.toList

variable {context : ApplicationContext.Settled} {turns : Nat} {done : List StaticEvent}
variable {p p' q : OneStepEventPredictor σ} {ev : StaticEvent}

theorem Outstanding.predictNext (hc : Configured context c) (hp : Outstanding context done p)
    (h : predictNext M c turns p = .ok (ev, p')) :
    Outstanding context done p' ∧ p'.currentPrediction = some ev ∧ p'.synchronizationPoints = done ++ [ev] := by
  rcases predictNext_cases hc h with ⟨hcur, rfl⟩ | ⟨hcur, hcur', hpoints, hout⟩
  · have hsame := hp.points
    rw [hcur] at hsame
    exact ⟨hp, hcur, hsame⟩
  · have hnew : p'.synchronizationPoints = done ++ [ev] := by
      rw [hpoints, hp.points, hcur]
      simp
    refine ⟨⟨fun ev' hev' => ?_, ?_⟩, hcur', hnew⟩
    · rw [hcur'] at hev'
      cases hev'
      exact hout
    · rw [hnew, hcur']
      rfl

/-- The delivery of a synchronization event makes room for the next one. -/
theorem Outstanding.deliver (hc : Configured context c) (hp : Outstanding context done p)
    (h : OneStepEventPredictor.predictNext M c turns p = .ok (ev, q)) (h' : eventTriggered M c q ev = .ok p') :
    Outstanding context (done ++ [ev]) p' ∧ p'.currentPrediction = none := by
  obtain ⟨hout, hcur, hpoints⟩ := hp.predictNext hc h
  obtain ⟨hsame, -, hno⟩ := eventTriggered_spec hc h'
  have hnone : p'.currentPrediction = none :=
    hno fun ⟨_, hv, hin⟩ => (hout.outputOnly ev hcur).not_mem_input hv hin
  refine ⟨⟨fun ev hev => ?_, ?_⟩, hnone⟩
  · rw [hnone] at hev
    cases hev
  · rw [hsame, hpoints, hnone]
    simp

/-- An external event with an input leaves the prediction outstanding. -/
theorem Outstanding.postpone (hc : Configured context c) (hp : Outstanding context done p) {external : StaticEvent}
    (h : OneStepEventPredictor.predictNext M c turns p = .ok (ev, q)) (h' : eventTriggered M c q external = .ok p')
    (hinput : external.CarriesInput context) : Outstanding context done p' := by
  obtain ⟨hout, -, -⟩ := hp.predictNext hc h
  obtain ⟨hsame, hyes, -⟩ := eventTriggered_spec hc h'
  exact ⟨hyes hinput ▸ hout.outputOnly, by rw [hsame, hyes hinput]; exact hout.points⟩

/-- A predictor between two cycles, or within the next one. -/
def Within (M : FMUModelExchange σ) (c : OneStepConfiguration) (turns : Nat) (q p : OneStepEventPredictor σ) : Prop :=
  p = q ∨ ∃ ev, predictNext M c turns q = .ok (ev, p)

theorem AllCarryInput.of_cons {d : Delivery} {deliveries : List Delivery} (h : AllCarryInput context (d :: deliveries)) :
    AllCarryInput context deliveries := fun d' hd' => h d' (List.mem_cons_of_mem d hd')

/-- One cycle delivers the next point or none. -/
theorem Outstanding.cycle (hc : Configured context c) (hp : Outstanding context done p) {d : Delivery}
    {deliveries : List Delivery} (hcarry : AllCarryInput context (d :: deliveries))
    (h : cycle M c turns p d = .ok p') :
    ∃ next, Outstanding context (done ++ next) p' ∧ next.length = [d].count .synchronization := by
  obtain ⟨⟨prediction, q⟩, hq, htriggered⟩ := bind_eq_ok.mp h
  cases d with
  | synchronization => exact ⟨[prediction], (hp.deliver hc hq htriggered).1, rfl⟩
  | external ev =>
    refine ⟨[], ?_, rfl⟩
    rw [List.append_nil]
    exact hp.postpone hc hq htriggered (hcarry (.external ev) List.mem_cons_self)

theorem cycles_outstanding (hc : Configured context c) {deliveries : List Delivery} (hp : Outstanding context done p)
    (hcarry : AllCarryInput context deliveries) (h : cycles M c turns p deliveries = .ok q) :
    ∃ later, Outstanding context (done ++ later) q := by
  induction deliveries generalizing p done with
  | nil =>
    cases h
    exact ⟨[], by rw [List.append_nil]; exact hp⟩
  | cons d deliveries ih =>
    obtain ⟨p₁, h₁, hlater⟩ := cycles_cons_eq_ok.mp h
    obtain ⟨next, hnext, -⟩ := hp.cycle hc hcarry h₁
    obtain ⟨later, hq⟩ := ih hnext hcarry.of_cons hlater
    exact ⟨next ++ later, by rw [← List.append_assoc]; exact hq⟩

theorem predictNext_points_grow (hc : Configured context c) (h : predictNext M c turns p = .ok (ev, q)) :
    p.synchronizationPoints <+: q.synchronizationPoints := by
  rcases predictNext_cases hc h with ⟨-, rfl⟩ | ⟨-, -, hpoints, -⟩
  · exact List.prefix_refl _
  · exact hpoints ▸ List.prefix_append _ _

theorem Within.points_grow (hc : Configured context c) (h : Within M c turns q p) :
    q.synchronizationPoints <+: p.synchronizationPoints := by
  rcases h with rfl | ⟨ev, hev⟩
  · exact List.prefix_refl _
  · exact predictNext_points_grow hc hev

/-- Points are only appended. -/
theorem cycles_points_grow (hc : Configured context c) {r : OneStepEventPredictor σ} {deliveries : List Delivery}
    (h : cycles M c turns p deliveries = .ok q) (hr : Within M c turns q r) :
    p.synchronizationPoints <+: r.synchronizationPoints := by
  induction deliveries generalizing p with
  | nil =>
    cases h
    exact hr.points_grow hc
  | cons d deliveries ih =>
    obtain ⟨p₁, h₁, hlater⟩ := cycles_cons_eq_ok.mp h
    obtain ⟨⟨ev, b⟩, hb, htriggered⟩ := bind_eq_ok.mp h₁
    have hsame := (eventTriggered_spec hc htriggered).1
    exact (hsame ▸ predictNext_points_grow hc hb).trans (ih hlater)

/-- Between two deliveries there is one point more at most, and the predictor offers it. -/
theorem Outstanding.pending (hc : Configured context c) {r : OneStepEventPredictor σ} (hq : Outstanding context done q)
    (hr : Within M c turns q r) (hmore : done.length < r.synchronizationPoints.length) :
    r.synchronizationPoints.length = done.length + 1 ∧
      ∃ ev, OneStepEventPredictor.predictNext M c turns q = .ok (ev, r) := by
  rcases hr with rfl | ⟨ev, hev⟩
  · have hlength := congrArg List.length hq.points
    rw [List.length_append] at hlength
    cases hcur : r.currentPrediction with
    | none =>
      rw [hcur, Option.toList_none, List.length_nil] at hlength
      omega
    | some ev =>
      rw [hcur, Option.toList_some, List.length_singleton] at hlength
      refine ⟨hlength, ev, ?_⟩
      rw [OneStepEventPredictor.predictNext, hcur]
  · obtain ⟨-, -, hpoints⟩ := hq.predictNext hc hev
    exact ⟨by rw [hpoints, List.length_append]; rfl, ev, hev⟩

/-- The point behind `k` further synchronization events is computed from the state that the
deliveries up to the `k`-th of them have led to. What comes later is not involved. -/
theorem cycles_settled (hc : Configured context c) {r : OneStepEventPredictor σ} {deliveries : List Delivery}
    (hp : Outstanding context done p) (hcarry : AllCarryInput context deliveries)
    (h : cycles M c turns p deliveries = .ok q) (hr : Within M c turns q r) (k : Nat)
    (hk : done.length + k < r.synchronizationPoints.length) :
    ∃ a b ev, cycles M c turns p (upTo k deliveries) = .ok a ∧ predictNext M c turns a = .ok (ev, b) ∧
      b.synchronizationPoints.length = done.length + k + 1 ∧ b.synchronizationPoints <+: r.synchronizationPoints := by
  induction deliveries generalizing p done k with
  | nil =>
    cases h
    obtain ⟨hlength, ev, hev⟩ := hp.pending hc hr (by omega)
    have hzero : k = 0 := by omega
    subst hzero
    exact ⟨_, r, ev, rfl, hev, hlength, List.prefix_refl _⟩
  | cons d deliveries ih =>
    obtain ⟨p₁, h₁, hlater⟩ := cycles_cons_eq_ok.mp h
    cases k with
    | zero =>
      obtain ⟨⟨ev, b⟩, hb, htriggered⟩ := bind_eq_ok.mp h₁
      obtain ⟨-, -, hpoints⟩ := hp.predictNext hc hb
      have hsame := (eventTriggered_spec hc htriggered).1
      refine ⟨p, b, ev, rfl, hb, by rw [hpoints, List.length_append]; rfl, ?_⟩
      rw [← hsame]
      exact cycles_points_grow hc hlater hr
    | succ k =>
      obtain ⟨next, hnext, hcount⟩ := hp.cycle hc hcarry h₁
      cases d with
      | synchronization =>
        have hone : next.length = 1 := hcount
        obtain ⟨a, b, ev, ha, hb, hlength, hgrow⟩ :=
          ih hnext hcarry.of_cons hlater k (by rw [List.length_append, hone]; omega)
        rw [List.length_append, hone] at hlength
        refine ⟨a, b, ev, ?_, hb, by omega, hgrow⟩
        rw [upTo]
        exact cycles_cons_eq_ok.mpr ⟨p₁, h₁, ha⟩
      | external external =>
        have hnil : next = [] := List.length_eq_zero_iff.mp hcount
        rw [hnil, List.append_nil] at hnext
        obtain ⟨a, b, ev, ha, hb, hlength, hgrow⟩ := ih hnext hcarry.of_cons hlater (k + 1) hk
        refine ⟨a, b, ev, ?_, hb, hlength, hgrow⟩
        rw [upTo]
        exact cycles_cons_eq_ok.mpr ⟨p₁, h₁, ha⟩

/-! ### Runs of the dispatcher -/

/-- The deliveries of a run so far. -/
def history (s : RunState σ) : List Delivery := s.delivered.map Delivery.of

/-- Where the predictor of a run stands in the protocol, given its state before the current cycle. -/
def CycleInPhase (M : FMUModelExchange σ) (c : OneStepConfiguration) (turns : Nat) (q p : OneStepEventPredictor σ) :
    Phase StaticEvent Fault → Prop
  | .predicting | .stopped => p = q
  | .adding ptr | .getting ptr | .delivering ptr _ | .distributing ptr _ =>
    predictNext M c turns q = .ok (ptr.event, p)
  | .failed _ => Within M c turns q p

/-- The dispatcher follows the protocol, and what it has delivered are the points of the protocol. -/
structure FollowsProtocol (context : ApplicationContext.Settled) (M : FMUModelExchange σ) (c : OneStepConfiguration)
    (turns : Nat) (p₀ : OneStepEventPredictor σ) (s : RunState σ) : Prop where
  cycle : EventDispatcher.CycleInvariant s
  served : ∃ q, cycles M c turns p₀ (history s) = .ok q ∧ CycleInPhase M c turns q s.predictor s.phase ∧
    (AllCarryInput context (history s) → Outstanding context (deliveredPredictions s) q)

theorem CycleInPhase.within {phase : Phase StaticEvent Fault} (h : CycleInPhase M c turns q p phase) :
    Within M c turns q p := by
  cases phase with
  | predicting => exact .inl h
  | stopped => exact .inl h
  | failed fault => exact h
  | adding ptr => exact .inr ⟨_, h⟩
  | getting ptr => exact .inr ⟨_, h⟩
  | delivering ptr entry => exact .inr ⟨_, h⟩
  | distributing ptr entry => exact .inr ⟨_, h⟩

theorem cycles_concat {p₀ : OneStepEventPredictor σ} {deliveries : List Delivery} {d : Delivery} :
    cycles M c turns p₀ (deliveries ++ [d]) = .ok q ↔
      ∃ r, cycles M c turns p₀ deliveries = .ok r ∧ OneStepEventPredictor.cycle M c turns r d = .ok q := by
  have hlast : ∀ r, [d].foldlM (OneStepEventPredictor.cycle M c turns) r = OneStepEventPredictor.cycle M c turns r d := by
    intro r
    simp
  rw [cycles, List.foldlM_append]
  simp only [hlast]
  exact bind_eq_ok

theorem history_finish (theEnd : ℚ) (s : RunState σ) (predictor : OneStepEventPredictor σ)
    (entry : EventPtr StaticEvent × Bool) :
    history (EventDispatcher.finish theEnd { s with predictor := predictor } entry) = history s ++ [.of entry] :=
  List.map_append

/-- A delivery ends the cycle of the protocol that the prediction has begun. -/
theorem FollowsProtocol.distribute (hc : Configured context c) {theEnd : ℚ} {p₀ predictor : OneStepEventPredictor σ}
    {s : RunState σ} (hs : FollowsProtocol context M c turns p₀ s) {p : EventPtr StaticEvent}
    {entry : EventPtr StaticEvent × Bool} (phase : s.phase = .distributing p entry)
    (done : eventTriggered M c s.predictor entry.1.event = .ok predictor) :
    ∃ q, cycles M c turns p₀ (history (EventDispatcher.finish theEnd { s with predictor } entry)) = .ok q ∧
      CycleInPhase M c turns q predictor (EventDispatcher.finish theEnd { s with predictor } entry).phase ∧
      (AllCarryInput context (history (EventDispatcher.finish theEnd { s with predictor } entry)) →
        Outstanding context (deliveredPredictions (EventDispatcher.finish theEnd { s with predictor } entry)) q) := by
  obtain ⟨q, hq, hphase, hout⟩ := hs.served
  have hdeliverable := hs.cycle.1
  rw [phase] at hphase hdeliverable
  have hpredicted : predictNext M c turns q = .ok (p.event, s.predictor) := hphase
  rw [history_finish, deliveredPredictions_finish]
  refine ⟨predictor, ?_, ?_, fun hcarry => ?_⟩
  · refine cycles_concat.mpr ⟨q, hq, bind_eq_ok.mpr ⟨(p.event, s.predictor), hpredicted, ?_⟩⟩
    rcases hdeliverable.2.2 with rfl | ⟨hflag, -⟩
    · exact done
    · rw [Delivery.of, if_neg (by simp [hflag])]
      exact done
  · rcases EventDispatcher.finish_phase theEnd { s with predictor } entry with hp | hp
    · rw [hp]
      rfl
    · rw [hp]
      rfl
  · have hbefore := hout fun d hd => hcarry d (List.mem_append_left _ hd)
    rcases hdeliverable.2.2 with rfl | ⟨hflag, -⟩
    · exact (hbefore.deliver hc hpredicted done).1
    · rw [if_neg (by simp [hflag]), List.append_nil]
      apply hbefore.postpone hc hpredicted done
      exact hcarry (.external entry.1.event) (List.mem_append_right _ (by simp [Delivery.of, hflag]))

theorem FollowsProtocol.step (hc : Configured context c) {theEnd : ℚ} {p₀ : OneStepEventPredictor σ} {s t : RunState σ}
    {l : Label StaticEvent} (hs : FollowsProtocol context M c turns p₀ s)
    (h : EventDispatcher.Steps (simulation M c turns) theEnd s l t) : FollowsProtocol context M c turns p₀ t := by
  have hcycle := EventDispatcher.cycleInvariant_step hs.cycle h
  obtain ⟨q, hq, hphase, hout⟩ := hs.served
  cases h with
  | pushExternal ev => exact ⟨hcycle, q, hq, hphase, hout⟩
  | addExternal address ptr found => exact ⟨hcycle, q, hq, hphase, hout⟩
  | predict ev predictor phase next =>
    rw [phase] at hphase
    refine ⟨hcycle, q, hq, ?_, hout⟩
    rw [← (show s.predictor = q from hphase)]
    exact next
  | predictFault fault phase next =>
    rw [phase] at hphase
    exact ⟨hcycle, q, hq, .inl hphase, hout⟩
  | addPrediction p phase =>
    rw [phase] at hphase
    exact ⟨hcycle, q, hq, hphase, hout⟩
  | get now p entry rest phase front due =>
    rw [phase] at hphase
    exact ⟨hcycle, q, hq, hphase, hout⟩
  | beginDistribution p entry phase =>
    rw [phase] at hphase
    exact ⟨hcycle, q, hq, hphase, hout⟩
  | distribute p entry predictor phase done => exact ⟨hcycle, hs.distribute hc phase done⟩
  | distributeFault p entry fault phase done =>
    rw [phase] at hphase
    exact ⟨hcycle, q, hq, .inr ⟨_, hphase⟩, hout⟩

theorem outstanding_start {s : σ} (h : start M c s = .ok p) : Outstanding context [] p := by
  obtain ⟨hcur, hpoints⟩ := updateOutputImage_start h
  refine ⟨fun ev hev => ?_, ?_⟩
  · rw [hcur] at hev
    cases hev
  · rw [hpoints, hcur]
    rfl

theorem followsProtocol_run (hc : Configured context c) {s₀ : σ} (hstart : start M c s₀ = .ok p) {now : Int}
    {startTime theEnd : ℚ} {labels : List (Label StaticEvent)} {s : RunState σ}
    (h : EventDispatcher.Reaches (simulation M c turns) theEnd (EventDispatcher.init p now startTime) labels s) :
    FollowsProtocol context M c turns p s :=
  h.invariant ⟨EventDispatcher.cycleInvariant_init p now startTime, p, rfl, rfl, fun _ => outstanding_start hstart⟩
    fun _ _ _ hs hstep => hs.step hc hstep

/-- The last action of the run was the delivery of a synchronization event. -/
def JustDelivered (s : RunState σ) : Prop :=
  (s.phase = .predicting ∨ s.phase = .stopped) ∧ ∃ ptr, s.delivered.getLast? = some (ptr, true)

/-- Right after a synchronization event no point is outstanding. -/
theorem FollowsProtocol.justDelivered (hc : Configured context c) {p₀ : OneStepEventPredictor σ} {s : RunState σ}
    (hs : FollowsProtocol context M c turns p₀ s) (hp₀ : Outstanding context [] p₀)
    (hcarry : AllCarryInput context (history s)) (h : JustDelivered s) :
    s.predictor.synchronizationPoints = deliveredPredictions s := by
  obtain ⟨q, hq, hphase, hout⟩ := hs.served
  obtain ⟨hidle, ptr, hlast⟩ := h
  have hpredictor : s.predictor = q := by
    rcases hidle with hp | hp <;> rw [hp] at hphase <;> exact hphase
  obtain ⟨past, hpast⟩ := List.getLast?_eq_some_iff.mp hlast
  have hhistory : history s = past.map Delivery.of ++ [.synchronization] := by
    rw [history, hpast, List.map_append]
    rfl
  rw [hhistory] at hq
  obtain ⟨r, hr, hcycle⟩ := cycles_concat.mp hq
  have hbefore : AllCarryInput context (past.map Delivery.of) :=
    fun d hd => hcarry d (hhistory ▸ List.mem_append_left _ hd)
  obtain ⟨done, hdone⟩ := cycles_outstanding hc hp₀ hbefore hr
  obtain ⟨⟨prediction, r'⟩, hr', htriggered⟩ := bind_eq_ok.mp hcycle
  have hnone := (hdone.deliver hc hr' htriggered).2
  rw [hpredictor, (hout hcarry).points, hnone, Option.toList_none, List.append_nil]

theorem delivered_grows {theEnd : ℚ} {s t : RunState σ} {labels : List (Label StaticEvent)}
    (h : EventDispatcher.Reaches (simulation M c turns) theEnd s labels t) : s.delivered <+: t.delivered := by
  have hgrows : ∀ u l v, s.delivered <+: u.delivered → EventDispatcher.Steps (simulation M c turns) theEnd u l v →
      s.delivered <+: v.delivered := by
    intro u l v hu hstep
    cases hstep with
    | distribute p entry predictor phase done => exact hu.trans (List.prefix_append _ _)
    | _ => exact hu
  refine h.invariant ?_ hgrows
  exact List.prefix_refl _

/-- Inputs are delayed to the next synchronization point: two runs that deliver the same external
events up to the synchronization event before the `k`-th one have the first `k` points in common,
whatever they deliver afterwards. The points are delivered in their order, and from one delivery to
the next exactly one step is made. -/
theorem inputs_delayed_to_next_point (M : FMUModelExchange σ) (context : ApplicationContext.Settled)
    (properties : SimulationProperties) (c : OneStepConfiguration) (hconfig : configure M context properties = .ok c)
    (s₀ : σ) (p : OneStepEventPredictor σ) (hstart : start M c s₀ = .ok p) (turns₁ turns₂ : Nat) (now₁ now₂ : Int)
    (start₁ start₂ end₁ end₂ : ℚ) (labels₁ labels₂ : List (Label StaticEvent)) (s₁ s₂ : RunState σ)
    (h₁ : EventDispatcher.Reaches (simulation M c turns₁) end₁ (EventDispatcher.init p now₁ start₁) labels₁ s₁)
    (h₂ : EventDispatcher.Reaches (simulation M c turns₂) end₂ (EventDispatcher.init p now₂ start₂) labels₂ s₂)
    (hcarry₁ : AllCarryInput context (history s₁)) (hcarry₂ : AllCarryInput context (history s₂)) :
    (∀ k, k ≤ s₁.predictor.synchronizationPoints.length → k ≤ s₂.predictor.synchronizationPoints.length →
      upTo (k - 1) (history s₁) = upTo (k - 1) (history s₂) →
      s₁.predictor.synchronizationPoints.take k = s₂.predictor.synchronizationPoints.take k) ∧
    deliveredPredictions s₁ <+: s₁.predictor.synchronizationPoints ∧
    ∀ labels t, EventDispatcher.Reaches (simulation M c turns₁) end₁ (EventDispatcher.init p now₁ start₁) labels t →
      (∃ more, EventDispatcher.Reaches (simulation M c turns₁) end₁ t more s₁) → JustDelivered t → JustDelivered s₁ →
      (deliveredPredictions s₁).length = (deliveredPredictions t).length + 1 →
      s₁.predictor.synchronizationPoints.length = t.predictor.synchronizationPoints.length + 1 := by
  have hc := configure_configured hconfig
  have hp : Outstanding context [] p := outstanding_start hstart
  have hf₁ := followsProtocol_run hc hstart h₁
  obtain ⟨q₁, hq₁, hphase₁, hout₁⟩ := hf₁.served
  obtain ⟨q₂, hq₂, hphase₂, hout₂⟩ := (followsProtocol_run hc hstart h₂).served
  refine ⟨fun k hk₁ hk₂ hsame => ?_, ?_, fun labels t ht hmore hjust hjust₁ hcount => ?_⟩
  · cases k with
    | zero => rfl
    | succ k =>
      obtain ⟨a₁, b₁, ev₁, ha₁, hb₁, hlength₁, hgrow₁⟩ :=
        cycles_settled hc hp hcarry₁ hq₁ hphase₁.within k (by rw [List.length_nil]; omega)
      obtain ⟨a₂, b₂, ev₂, ha₂, hb₂, hlength₂, hgrow₂⟩ :=
        cycles_settled hc hp hcarry₂ hq₂ hphase₂.within k (by rw [List.length_nil]; omega)
      rw [Nat.add_sub_cancel] at hsame
      rw [hsame] at ha₁
      rw [cycles_unique ha₁ ha₂] at hb₁
      have hb : b₁ = b₂ := (Prod.mk.inj (predictNext_unique hb₁ hb₂)).2
      rw [List.length_nil, Nat.zero_add] at hlength₁ hlength₂
      rw [← hlength₁, ← List.prefix_iff_eq_take.mp hgrow₁, hlength₁, ← hlength₂, ← List.prefix_iff_eq_take.mp hgrow₂, hb]
  · have hgrow : deliveredPredictions s₁ <+: q₁.synchronizationPoints := by
      rw [(hout₁ hcarry₁).points]
      exact List.prefix_append _ _
    exact hgrow.trans (hphase₁.within.points_grow hc)
  · obtain ⟨more, hmore⟩ := hmore
    have hdelivered := delivered_grows hmore
    have hcarry : AllCarryInput context (history t) :=
      fun d hd => hcarry₁ d ((hdelivered.map Delivery.of).subset hd)
    rw [hf₁.justDelivered hc hp hcarry₁ hjust₁, (followsProtocol_run hc hstart ht).justDelivered hc hp hcarry hjust]
    exact hcount

/-- The first point is delivered at time 1, then the second one is computed. -/
def firstPointDelivered : List (Label StaticEvent) :=
  [.predict, .addPrediction, .get 1000000, .beginDistribution, .distribute, .predict]

/-- The same with an input at time 3/2, which is delivered before the second point. -/
def secondPointDelayed : List (Label StaticEvent) :=
  firstPointDelivered ++ [.addPrediction, .pushExternal ⟨3 / 2, [⟨(.fmiTypeReal, 1), .real 0⟩]⟩, .addExternal 2,
    .get 1600000, .beginDistribution, .distribute, .predict]

theorem inputs_delayed_to_next_point_second :
    ∃ s₁ s₂, EventDispatcher.Reaches (simulation idleModel idleConfiguration 5) 10
        (EventDispatcher.init idlePredictor 0 0) secondPointDelayed s₁ ∧
      EventDispatcher.Reaches (simulation idleModel idleConfiguration 7) 20
        (EventDispatcher.init idlePredictor 0 0) firstPointDelivered s₂ ∧
      s₁.delivered.length = 2 ∧ s₂.delivered.length = 1 ∧
      s₁.predictor.synchronizationPoints.take 2 = s₂.predictor.synchronizationPoints.take 2 := by
  obtain ⟨s₁, h₁, hcarry₁, hhistory₁, hlength₁, hpoints₁⟩ := LabelledRun.exec_of_any
    (EventDispatcher.step (simulation idleModel idleConfiguration 5) 10) (EventDispatcher.init idlePredictor 0 0)
    secondPointDelayed (fun s => (∀ d ∈ history s, d.CarriesInput .feedThrough) ∧
      upTo 1 (history s) = [.synchronization] ∧ s.delivered.length = 2 ∧ 2 ≤ s.predictor.synchronizationPoints.length)
    (by decide +kernel)
  obtain ⟨s₂, h₂, hcarry₂, hhistory₂, hlength₂, hpoints₂⟩ := LabelledRun.exec_of_any
    (EventDispatcher.step (simulation idleModel idleConfiguration 7) 20) (EventDispatcher.init idlePredictor 0 0)
    firstPointDelivered (fun s => (∀ d ∈ history s, d.CarriesInput .feedThrough) ∧
      upTo 1 (history s) = [.synchronization] ∧ s.delivered.length = 1 ∧ 2 ≤ s.predictor.synchronizationPoints.length)
    (by decide +kernel)
  refine ⟨s₁, s₂, h₁, h₂, hlength₁, hlength₂, ?_⟩
  exact (inputs_delayed_to_next_point idleModel .feedThrough unitSteps idleConfiguration (Fallible.eq_ok_get _) 0
    idlePredictor (Fallible.eq_ok_get _) 5 7 0 0 0 0 10 20 secondPointDelayed firstPointDelivered s₁ s₂ h₁ h₂
    hcarry₁ hcarry₂).1 2 hpoints₁ hpoints₂ (hhistory₁.trans hhistory₂.symm)

end FMITerminalBlock.Model.OneStepEventPredictor
