import FMITerminalBlock.Library.Fallible
import FMITerminalBlock.Library.LabelledRun

/-! How an exception of a subscription thread reaches the main thread. The manager keeps it until the
next event is distributed, where a listener between the publishers and the data logger throws it. -/
namespace FMITerminalBlock.Network

/-- What the dispatcher calls for every event, in the order of the registration: the predictor and the
publishers, then the exception tester, and then the listeners that are registered after the manager. -/
structure RegisteredListeners (π ε χ : Type) where
  before : List (π → ε → Except χ π)
  after : List (π → ε → Except χ π)

/-- Where the main thread stands. The lists hold the listeners that still have to be called. The check
for a pending exception and the access to it lock the mutex one after the other. -/
inductive DistributionStage (π ε χ : Type) where
  | waiting
  | before (ev : ε) (rest : List (π → ε → Except χ π))
  | throwing (ev : ε)
  | after (ev : ε) (rest : List (π → ε → Except χ π))
  | failed (ev : ε) (exc : χ)
  | rethrown (ev : ε) (exc : χ)

/-- A distribution that has ended, with the number of exceptions reported up to its begin and up to
its end. -/
structure Distribution (ε : Type) where
  event : ε
  reportsAtBegin : Nat
  reportsAtEnd : Nat

/-- The main thread and the part of the manager that it shares with the subscription threads. All
reports, the number of them at the begin of the current distribution and the finished distributions
are kept to speak about them. -/
structure FailureReporting (π ε χ : Type) where
  listeners : π
  stage : DistributionStage π ε χ := .waiting
  pendingException : Option χ := none
  reports : List χ := []
  reportsAtBegin : Nat := 0
  finished : List (Distribution ε) := []

/-- A subscription thread reports an exception, an event is taken from the queue, or the main thread goes
on with the distribution. -/
inductive ReportingLabel (ε χ : Type) where
  | handleException (exc : χ)
  | begin (ev : ε)
  | advance

namespace FailureReporting
variable {π ε χ : Type} (ls : RegisteredListeners π ε χ)

/-- Calls some listeners one after the other. -/
def callAll (called : List (π → ε → Except χ π)) (ev : ε) (listeners : π) : Except χ π :=
  called.foldlM (fun listeners listener => listener listeners ev) listeners

/-- A distribution without a pending exception. -/
def distribute (listeners : π) (ev : ε) : Except χ π := callAll (ls.before ++ ls.after) ev listeners

def finish (s : FailureReporting π ε χ) (ev : ε) : FailureReporting π ε χ :=
  { s with
    stage := .waiting
    finished := s.finished ++ [⟨ev, s.reportsAtBegin, s.reports.length⟩] }

/-- One listener call, one of the two halves of `throwPendingException`, or the end of `processEvent`. -/
def advance (s : FailureReporting π ε χ) : Option (FailureReporting π ε χ) :=
  match s.stage with
  | .waiting => none
  | .before ev (listener :: rest) =>
    match listener s.listeners ev with
    | .error exc => some { s with stage := .failed ev exc }
    | .ok listeners => some { s with listeners, stage := .before ev rest }
  | .before ev [] =>
    -- `hasPendingException`
    if s.pendingException.isSome then some { s with stage := .throwing ev }
    else some { s with stage := .after ev ls.after }
  | .throwing ev =>
    match s.pendingException with
    | none => none
    | some exc => some { s with stage := .rethrown ev exc, pendingException := none }
  | .after ev (listener :: rest) =>
    match listener s.listeners ev with
    | .error exc => some { s with stage := .failed ev exc }
    | .ok listeners => some { s with listeners, stage := .after ev rest }
  | .after ev [] => some (finish s ev)
  | .failed .. | .rethrown .. => none

def step (s : FailureReporting π ε χ) : ReportingLabel ε χ → Option (FailureReporting π ε χ)
  | .handleException exc => some { s with pendingException := some exc, reports := s.reports ++ [exc] }
  | .begin ev =>
    match s.stage with
    | .waiting => some { s with stage := .before ev ls.before, reportsAtBegin := s.reports.length }
    | _ => none
  | .advance => advance ls s

def Reaches (s : FailureReporting π ε χ) (labels : List (ReportingLabel ε χ)) (t : FailureReporting π ε χ) : Prop :=
  LabelledRun.exec (step ls) s labels = some t

/-! ### What every step keeps -/

theorem callAll_append (first second : List (π → ε → Except χ π)) (ev : ε) (listeners : π) :
    callAll (first ++ second) ev listeners = callAll first ev listeners >>= callAll second ev := by
  rw [callAll, List.foldlM_append]
  rfl

theorem callAll_concat {called : List (π → ε → Except χ π)} {ev : ε} {σ listeners : π}
    (h : callAll called ev σ = .ok listeners) (listener : π → ε → Except χ π) :
    callAll (called ++ [listener]) ev σ = listener listeners ev := by
  rw [callAll_append, h]
  exact bind_pure (listener listeners ev)

/-- The listeners have got the finished distributions. -/
def Replayed (listeners : π) (s : FailureReporting π ε χ) (σ : π) : Prop :=
  (s.finished.map Distribution.event).foldlM (distribute ls) listeners = .ok σ

/-- What the listeners have got of the current distribution. -/
def CalledSoFar (listeners : π) (s : FailureReporting π ε χ) : DistributionStage π ε χ → Prop
  | .waiting => Replayed ls listeners s s.listeners
  | .before ev rest => ∃ σ called, Replayed ls listeners s σ ∧ ls.before = called ++ rest ∧
      callAll called ev σ = .ok s.listeners
  | .throwing ev => ∃ σ, Replayed ls listeners s σ ∧ callAll ls.before ev σ = .ok s.listeners
  | .after ev rest => ∃ σ called, Replayed ls listeners s σ ∧ ls.after = called ++ rest ∧
      callAll (ls.before ++ called) ev σ = .ok s.listeners
  | .failed ev exc => ∃ σ, Replayed ls listeners s σ ∧ distribute ls σ ev = .error exc
  | .rethrown ev _ => ∃ σ, Replayed ls listeners s σ ∧ callAll ls.before ev σ = .ok s.listeners

/-- The last report is pending until it is thrown. -/
def LastPending (s : FailureReporting π ε χ) : DistributionStage π ε χ → Prop
  | .throwing _ => s.pendingException = s.reports.getLast? ∧ s.pendingException.isSome
  | .after .. => s.pendingException = s.reports.getLast? ∧ s.reportsAtBegin = 0
  | .rethrown .. => True
  | _ => s.pendingException = s.reports.getLast?

/-- The number of reports that the finished distributions may have seen. -/
def seenReports (s : FailureReporting π ε χ) : DistributionStage π ε χ → Nat
  | .waiting => s.reports.length
  | _ => s.reportsAtBegin

structure ReportingInvariant (listeners : π) (s : FailureReporting π ε χ) : Prop where
  called : CalledSoFar ls listeners s s.stage
  pending : LastPending s s.stage
  atBegin : s.reportsAtBegin ≤ s.reports.length
  finished : ∀ d ∈ s.finished, d.reportsAtBegin = 0 ∧ d.reportsAtEnd ≤ seenReports s s.stage
  single : (s.finished.filter fun d => 0 < d.reportsAtEnd).length ≤ 1

variable {ls} {listeners : π} {s t : FailureReporting π ε χ}

theorem invariant_init (listeners : π) : ReportingInvariant ls listeners { listeners } :=
  ⟨rfl, rfl, Nat.le_refl _, nofun, Nat.zero_le _⟩

theorem ReportingInvariant.handleException (h : ReportingInvariant ls listeners s) (exc : χ) :
    ReportingInvariant ls listeners { s with pendingException := some exc, reports := s.reports ++ [exc] } := by
  have hlength : s.reports.length ≤ (s.reports ++ [exc]).length := by simp
  refine ⟨?_, ?_, Nat.le_trans h.atBegin hlength, fun d hd => ?_, h.single⟩
  · have hcalled := h.called
    cases hstage : s.stage <;> rw [hstage] at hcalled <;> exact hcalled
  · have hpending := h.pending
    cases hstage : s.stage with
    | after ev rest =>
      rw [hstage] at hpending
      exact ⟨by simp, hpending.2⟩
    | throwing ev => exact ⟨by simp, rfl⟩
    | _ => simp [LastPending]
  · obtain ⟨hbegin, hend⟩ := h.finished d hd
    refine ⟨hbegin, Nat.le_trans hend ?_⟩
    cases s.stage with
    | waiting => exact hlength
    | _ => exact Nat.le_refl _

theorem ReportingInvariant.begin (h : ReportingInvariant ls listeners s) (hstage : s.stage = .waiting) (ev : ε) :
    ReportingInvariant ls listeners { s with stage := .before ev ls.before, reportsAtBegin := s.reports.length } := by
  have hcalled := h.called
  have hpending := h.pending
  have hfinished := h.finished
  rw [hstage] at hcalled hpending hfinished
  exact ⟨⟨s.listeners, [], hcalled, rfl, rfl⟩, hpending, Nat.le_refl _, hfinished, h.single⟩

/-- A listener call that throws ends the distribution, whatever listeners would have followed. -/
theorem distribute_eq_error {called rest : List (π → ε → Except χ π)} {listener : π → ε → Except χ π} {ev : ε}
    {σ current : π} {exc : χ} (hlist : ls.before ++ ls.after = called ++ listener :: rest)
    (hcalled : callAll called ev σ = .ok current) (h : listener current ev = .error exc) :
    distribute ls σ ev = .error exc := by
  rw [distribute, hlist, List.append_cons, callAll_append, callAll_concat hcalled, h]
  rfl

/-- A distribution that gets past the exception tester has begun before any report. -/
theorem ReportingInvariant.finish (h : ReportingInvariant ls listeners s) {ev : ε} (hstage : s.stage = .after ev []) :
    ReportingInvariant ls listeners (finish s ev) := by
  have hpending := h.pending
  rw [hstage] at hpending
  obtain ⟨hlast, hbegin⟩ := hpending
  have hfinished : ∀ d ∈ s.finished, d.reportsAtBegin = 0 ∧ d.reportsAtEnd = 0 := by
    intro d hd
    obtain ⟨hdbegin, hdend⟩ := h.finished d hd
    rw [hstage] at hdend
    change d.reportsAtEnd ≤ s.reportsAtBegin at hdend
    rw [hbegin] at hdend
    exact ⟨hdbegin, Nat.le_zero.mp hdend⟩
  refine ⟨?_, hlast, h.atBegin, ?_, ?_⟩
  · have hcalled := h.called
    rw [hstage] at hcalled
    obtain ⟨σ, called, hreplayed, hafter, hcalls⟩ := hcalled
    rw [List.append_nil] at hafter
    rw [← hafter] at hcalls
    change ((s.finished ++ [_]).map Distribution.event).foldlM (distribute ls) listeners = .ok s.listeners
    rw [List.map_append, List.foldlM_append]
    exact Fallible.bind_eq_ok.mpr ⟨σ, hreplayed, Fallible.bind_eq_ok.mpr ⟨s.listeners, hcalls, rfl⟩⟩
  · intro d hd
    rcases List.mem_append.mp hd with hd | hd
    · rw [(hfinished d hd).2]
      exact ⟨(hfinished d hd).1, Nat.zero_le _⟩
    · cases List.mem_singleton.mp hd
      exact ⟨hbegin, Nat.le_refl _⟩
  · have hnone : (s.finished.filter fun d => 0 < d.reportsAtEnd) = [] := by
      rw [List.filter_eq_nil_iff]
      intro d hd
      simp [(hfinished d hd).2]
    change ((s.finished ++ [_]).filter fun d : Distribution ε => 0 < d.reportsAtEnd).length ≤ 1
    rw [List.filter_append, hnone, List.nil_append]
    exact List.length_filter_le _ _

theorem ReportingInvariant.advance (h : ReportingInvariant ls listeners s) (ht : advance ls s = some t) :
    ReportingInvariant ls listeners t := by
  have hcalled := h.called
  have hpending := h.pending
  have hfinished := h.finished
  unfold FailureReporting.advance at ht
  split at ht
  · cases ht
  · rename_i ev listener rest hstage
    rw [hstage] at hcalled hpending hfinished
    obtain ⟨σ, called, hreplayed, hlist, hcalls⟩ := hcalled
    split at ht
    · rename_i exc hcall
      cases ht
      have hall : ls.before ++ ls.after = called ++ listener :: (rest ++ ls.after) := by
        rw [hlist, List.append_assoc, List.cons_append]
      exact ⟨⟨σ, hreplayed, distribute_eq_error hall hcalls hcall⟩, hpending, h.atBegin, hfinished, h.single⟩
    · rename_i current hcall
      cases ht
      refine ⟨⟨σ, called ++ [listener], hreplayed, ?_, ?_⟩, hpending, h.atBegin, hfinished, h.single⟩
      · rw [hlist, List.append_assoc, List.singleton_append]
      · rw [callAll_concat hcalls, hcall]
  · rename_i ev hstage
    rw [hstage] at hcalled hpending hfinished
    obtain ⟨σ, called, hreplayed, hlist, hcalls⟩ := hcalled
    rw [List.append_nil] at hlist
    subst hlist
    split at ht
    · rename_i hsome
      cases ht
      exact ⟨⟨σ, hreplayed, hcalls⟩, ⟨hpending, hsome⟩, h.atBegin, hfinished, h.single⟩
    · rename_i hnone
      cases ht
      refine ⟨⟨σ, [], hreplayed, rfl, by rwa [List.append_nil]⟩, ⟨hpending, ?_⟩, h.atBegin, hfinished, h.single⟩
      -- Nothing is pending, so nothing has been reported yet.
      have hreports : s.reports = [] := by
        rw [← List.getLast?_eq_none_iff]
        exact hpending ▸ Option.not_isSome_iff_eq_none.mp hnone
      exact Nat.le_zero.mp (hreports ▸ h.atBegin)
  · rename_i ev hstage
    rw [hstage] at hcalled hfinished
    split at ht
    · cases ht
    · cases ht
      exact ⟨hcalled, trivial, h.atBegin, hfinished, h.single⟩
  · rename_i ev listener rest hstage
    rw [hstage] at hcalled hpending hfinished
    obtain ⟨σ, called, hreplayed, hlist, hcalls⟩ := hcalled
    split at ht
    · rename_i exc hcall
      cases ht
      have hall : ls.before ++ ls.after = (ls.before ++ called) ++ listener :: rest := by
        rw [hlist, List.append_assoc]
      exact ⟨⟨σ, hreplayed, distribute_eq_error hall hcalls hcall⟩, hpending.1, h.atBegin, hfinished, h.single⟩
    · rename_i current hcall
      cases ht
      refine ⟨⟨σ, called ++ [listener], hreplayed, ?_, ?_⟩, hpending, h.atBegin, hfinished, h.single⟩
      · rw [hlist, List.append_assoc, List.singleton_append]
      · rw [← List.append_assoc, callAll_concat hcalls, hcall]
  · rename_i ev hstage
    cases ht
    exact h.finish hstage
  · cases ht
  · cases ht

theorem invariant_step {l : ReportingLabel ε χ} (h : ReportingInvariant ls listeners s) (ht : step ls s l = some t) :
    ReportingInvariant ls listeners t := by
  cases l with
  | handleException exc =>
    cases ht
    exact h.handleException exc
  | begin ev =>
    simp only [step] at ht
    split at ht
    · rename_i hstage
      cases ht
      exact h.begin hstage ev
    · cases ht
  | advance => exact h.advance ht

/-- The main thread on its own goes on to throw what is pending, unless a listener throws first. -/
theorem exists_thrown {ev : ε} {rest : List (π → ε → Except χ π)} (hstage : s.stage = .before ev rest) {exc : χ}
    (hpending : s.pendingException = some exc) :
    ∃ n t, Reaches ls s (List.replicate n .advance) t ∧
      (t.stage = .rethrown ev exc ∨ ∃ fault, t.stage = .failed ev fault) := by
  induction rest generalizing s with
  | nil =>
    refine ⟨2, { s with stage := .rethrown ev exc, pendingException := none }, ?_, .inl rfl⟩
    have hcheck : advance ls s = some { s with stage := .throwing ev } := by
      rw [FailureReporting.advance, hstage]
      dsimp only
      rw [hpending, Option.isSome_some, if_pos rfl]
    refine LabelledRun.exec_cons_eq_some.mpr ⟨_, hcheck, LabelledRun.exec_cons_eq_some.mpr ⟨_, ?_, rfl⟩⟩
    simp only [step, FailureReporting.advance, hpending]
  | cons listener rest ih =>
    cases hcall : listener s.listeners ev with
    | error fault =>
      refine ⟨1, { s with stage := .failed ev fault }, LabelledRun.exec_cons_eq_some.mpr ⟨_, ?_, rfl⟩,
        .inr ⟨fault, rfl⟩⟩
      simp only [step, FailureReporting.advance, hstage, hcall]
    | ok current =>
      have hnext : step ls s .advance = some { s with listeners := current, stage := .before ev rest } := by
        simp only [step, FailureReporting.advance, hstage, hcall]
      obtain ⟨n, t, hrun, hend⟩ := ih (s := { s with listeners := current, stage := .before ev rest }) rfl hpending
      exact ⟨n + 1, t, LabelledRun.exec_cons_eq_some.mpr ⟨_, hnext, hrun⟩, hend⟩

/-- A distribution that begins after a report is never finished, so at most one distribution ends after
the first report. The main thread throws the last report, never a null pointer, once the predictor
and the publishers have got the event, while the listeners behind the manager do not get it. -/
theorem report_ends_next_distribution (ls : RegisteredListeners π ε χ) (listeners : π)
    (labels : List (ReportingLabel ε χ)) (s : FailureReporting π ε χ) (hrun : Reaches ls { listeners } labels s) :
    (∀ d ∈ s.finished, d.reportsAtBegin = 0) ∧ (s.finished.filter fun d => 0 < d.reportsAtEnd).length ≤ 1 ∧
    (∀ ev rest, s.stage = .before ev rest → s.reports ≠ [] → ∃ n t, Reaches ls s (List.replicate n .advance) t ∧
      ((∃ exc, s.reports.getLast? = some exc ∧ t.stage = .rethrown ev exc) ∨ ∃ fault, t.stage = .failed ev fault)) ∧
    (∀ ev, s.stage = .throwing ev → ∃ exc, s.reports.getLast? = some exc ∧
      step ls s .advance = some { s with stage := .rethrown ev exc, pendingException := none }) ∧
    (∀ ev exc, s.stage = .rethrown ev exc → ∃ σ,
      (s.finished.map Distribution.event).foldlM (distribute ls) listeners = .ok σ ∧
        callAll ls.before ev σ = .ok s.listeners) := by
  have hinv : ReportingInvariant ls listeners s :=
    LabelledRun.exec_invariant (fun _ _ _ hs ht => invariant_step hs ht) (invariant_init listeners) hrun
  have hpending := hinv.pending
  have hcalled := hinv.called
  refine ⟨fun d hd => (hinv.finished d hd).1, hinv.single, ?_, ?_, ?_⟩
  · intro ev rest hstage hreports
    rw [hstage] at hpending
    obtain ⟨exc, hexc⟩ := Option.ne_none_iff_exists'.mp fun hnone => hreports (List.getLast?_eq_none_iff.mp hnone)
    obtain ⟨n, t, hreach, hend⟩ := exists_thrown hstage (hpending.trans hexc)
    exact ⟨n, t, hreach, hend.imp (fun hthrown => ⟨exc, hexc, hthrown⟩) id⟩
  · intro ev hstage
    rw [hstage] at hpending
    obtain ⟨exc, hexc⟩ := Option.isSome_iff_exists.mp hpending.2
    refine ⟨exc, hpending.1 ▸ hexc, ?_⟩
    simp only [step, FailureReporting.advance, hstage, hexc]
  · intro ev exc hstage
    rw [hstage] at hcalled
    exact hcalled

/-- Listeners that write down what they get. -/
def recording : RegisteredListeners (List (Nat × Nat)) Nat Nat where
  before := [fun past ev => .ok (past ++ [(0, ev)]), fun past ev => .ok (past ++ [(1, ev)])]
  after := [fun past ev => .ok (past ++ [(2, ev)])]

/-- The first report comes when the first event has passed the exception tester, the second one while the
second event is on its way. -/
def lateReports : List (ReportingLabel Nat Nat) :=
  [.begin 7, .advance, .advance, .advance, .handleException 10, .advance, .advance,
    .begin 8, .advance, .advance, .advance, .handleException 11, .advance]

def thrown : DistributionStage π ε χ → Option (ε × χ)
  | .rethrown ev exc => some (ev, exc)
  | _ => none

theorem report_ends_next_distribution_late : ∃ s,
    Reaches recording { listeners := [] } lateReports s ∧ thrown s.stage = some (8, 11) ∧
      s.listeners = [(0, 7), (1, 7), (2, 7), (0, 8), (1, 8)] ∧
      (s.finished.filter fun d => 0 < d.reportsAtEnd).length ≤ 1 := by
  obtain ⟨s, hrun, hthrown, hlisteners⟩ := LabelledRun.exec_of_any (step recording) { listeners := [] } lateReports
    (fun s => thrown s.stage = some (8, 11) ∧ s.listeners = [(0, 7), (1, 7), (2, 7), (0, 8), (1, 8)]) (by decide +kernel)
  exact ⟨s, hrun, hthrown, hlisteners, (report_ends_next_distribution recording [] lateReports s hrun).2.1⟩

end FailureReporting
end FMITerminalBlock.Network
