import FMITerminalBlock.Library.LabelledRun

/-! The end of the subscription threads. The main thread requests the termination of one subscriber after
the other and joins its thread; a thread that has data for a queue without a start time sleeps at the
initialization barrier of the queue. -/
namespace FMITerminalBlock.Network

/-- What follows the decoding in a handler: `handleReceive` looks after the connection and may fail to
open it again, `handlePacketTimeout` does not. -/
inductive HandlerRest where
  | receive (connected : Bool)
  | packetTimeout
  deriving DecidableEq

/-- Where a subscription thread stands in `executeRun`: in the service and between two handlers, in a
handler that still comes to the barrier a number of times, before it asks for a pending request, with an
exception before `objectMut_` is locked, with `objectMut_` before `pendingExceptionMutex_` is locked,
with both of them, before the request is cleared, or at its end. -/
inductive RunStage where
  | running
  | handling (visits : Nat) (rest : HandlerRest)
  | checking (connected : Bool)
  | caught
  | calling
  | reporting
  | ending
  | returned
  deriving DecidableEq

namespace RunStage

/-- The thread sleeps here until the queue gets its start time, if it has none yet. -/
def atBarrier : RunStage → Bool
  | .handling (_ + 1) _ => true
  | _ => false

/-- How many steps the thread can make without further data. -/
def work : RunStage → Nat
  | .returned => 0
  | .ending => 1
  | .running => 2
  | .reporting => 2
  | .calling => 3
  | .caught => 4
  | .checking _ => 5
  | .handling visits _ => 6 + visits

end RunStage

/-- A subscriber whose thread has been started. -/
structure StartedSubscriber where
  stage : RunStage := .running
  terminationRequest : Bool := false
  terminationPosted : Bool := false
  receiving : Bool := true
  deriving DecidableEq

/-- Where the main thread stands: anywhere else, with `pendingExceptionMutex_`, or in `terminate` of the
subscriber with the given position. -/
inductive MainStage where
  | working
  | accessing
  | requesting (position : Nat)
  | posting (position : Nat)
  | joining (position : Nat)
  | done
  deriving DecidableEq

structure Shutdown where
  initialized : Bool := false
  main : MainStage := .working
  subscribers : List StartedSubscriber := []
  deriving DecidableEq

/-- What the main thread does next when it is free to choose, what the network brings to a subscriber,
and the next step of the main thread or of a subscription thread. -/
inductive ShutdownLabel where
  | initAndStart
  | initStartTimeNow
  | accessPendingException
  | terminateSubscribers
  | receive (position visits : Nat) (connected : Bool)
  | packetTimeout (position visits : Nat)
  | main
  | thread (position : Nat)
  deriving DecidableEq

namespace StartedSubscriber

def holdsObjectMutex (s : StartedSubscriber) : Bool := s.stage = .calling || s.stage = .reporting

/-- The next step of the subscription thread. The main thread never keeps `objectMut_`. -/
def advance (initialized pendingMutexFree : Bool) (s : StartedSubscriber) : Option StartedSubscriber :=
  match s.stage with
  | .running =>
    -- `handleTermination` stops the service.
    if s.terminationPosted then some { s with stage := .ending } else none
  | .handling (visits + 1) rest => if initialized then some { s with stage := .handling visits rest } else none
  | .handling 0 (.receive connected) => some { s with stage := .checking connected }
  | .handling 0 .packetTimeout => some { s with stage := .running }
  | .checking connected =>
    if s.terminationRequest then some { s with stage := .running }
    else if connected then some { s with stage := .running, receiving := true }
    else some { s with stage := .caught }
  | .caught => some { s with stage := .calling }
  | .calling => if pendingMutexFree then some { s with stage := .reporting } else none
  | .reporting => some { s with stage := .ending }
  | .ending => some { s with stage := .returned, terminationRequest := false }
  | .returned => none

end StartedSubscriber

namespace Shutdown

/-- Neither the main thread nor a subscription thread has `pendingExceptionMutex_`. -/
def pendingMutexFree (s : Shutdown) : Bool :=
  s.main ≠ .accessing && s.subscribers.all fun sub => sub.stage ≠ .reporting

/-- The loop of `terminateSubscribers`. -/
def terminateFrom (s : Shutdown) (position : Nat) : MainStage :=
  if position < s.subscribers.length then .requesting position else .done

def update (s : Shutdown) (position : Nat) (sub : StartedSubscriber) : Shutdown :=
  { s with subscribers := s.subscribers.set position sub }

def mainStep (s : Shutdown) : Option Shutdown :=
  match s.main with
  | .accessing => some { s with main := .working }
  | .requesting position => s.subscribers[position]?.bind fun sub =>
    if sub.holdsObjectMutex then none
    else some { s.update position { sub with terminationRequest := true } with main := .posting position }
  | .posting position => s.subscribers[position]?.map fun sub =>
    { s.update position { sub with terminationPosted := true } with main := .joining position }
  | .joining position => s.subscribers[position]?.bind fun sub =>
    if sub.stage = .returned then some { s with main := s.terminateFrom (position + 1) } else none
  | .working | .done => none

/-- A handler starts between two others only. -/
def handle (s : Shutdown) (position visits : Nat) (rest : HandlerRest) (enabled : StartedSubscriber → Bool) :
    Option Shutdown :=
  s.subscribers[position]?.bind fun sub =>
    if sub.stage = .running ∧ enabled sub then
      some (s.update position { sub with
        stage := .handling visits rest
        receiving := if rest = .packetTimeout then sub.receiving else false })
    else none

def step (s : Shutdown) : ShutdownLabel → Option Shutdown
  | .initAndStart => if s.main = .working then some { s with subscribers := s.subscribers ++ [{}] } else none
  | .initStartTimeNow =>
    if s.main = .working ∧ s.initialized = false then some { s with initialized := true } else none
  | .accessPendingException =>
    if s.main = .working ∧ s.pendingMutexFree then some { s with main := .accessing } else none
  | .terminateSubscribers => if s.main = .working then some { s with main := s.terminateFrom 0 } else none
  | .receive position visits connected => s.handle position visits (.receive connected) (·.receiving)
  | .packetTimeout position visits =>
    -- An event under construction has got its time stamp behind the barrier.
    s.handle position visits .packetTimeout fun _ => s.initialized || visits = 0
  | .main => s.mainStep
  | .thread position => s.subscribers[position]?.bind fun sub =>
    (sub.advance s.initialized s.pendingMutexFree).map (s.update position)

def Reaches (s : Shutdown) (labels : List ShutdownLabel) (t : Shutdown) : Prop :=
  LabelledRun.exec step s labels = some t

/-- A step of the threads, which needs nothing from the network. -/
def OfThreads : ShutdownLabel → Prop
  | .main | .thread _ => True
  | _ => False

def Terminating (s : Shutdown) : Prop := s.main ≠ .working ∧ s.main ≠ .accessing

/-- A thread has data for a queue that has no start time. -/
def Stalled (s : Shutdown) : Prop := s.initialized = false ∧ ∃ sub ∈ s.subscribers, sub.stage.atBarrier

def mainWork (count : Nat) : MainStage → Nat
  | .requesting position => 3 * (count - position)
  | .posting position => 3 * (count - position) - 1
  | .joining position => 3 * (count - position) - 2
  | .working | .accessing | .done => 0

def threadWork : List StartedSubscriber → Nat
  | [] => 0
  | sub :: subs => sub.stage.work + threadWork subs

/-- How many steps the threads can make without further data. -/
def work (s : Shutdown) : Nat := mainWork s.subscribers.length s.main + threadWork s.subscribers

/-! ### What the steps keep -/

variable {s t : Shutdown} {sub : StartedSubscriber} {position : Nat}

/-- The subscribers that have been joined. -/
def joined (s : Shutdown) : Nat :=
  match s.main with
  | .working | .accessing => 0
  | .requesting position | .posting position | .joining position => position
  | .done => s.subscribers.length

/-- Joined threads have returned, and nothing is joined without having been asked to terminate. -/
structure ShutdownInvariant (s : Shutdown) : Prop where
  returned : ∀ i < s.joined, ∀ sub, s.subscribers[i]? = some sub → sub.stage = .returned
  inRange : s.main = .done ∨ ¬s.Terminating ∨ s.joined < s.subscribers.length
  posted : ∀ position sub, s.main = .joining position → s.subscribers[position]? = some sub →
    sub.terminationPosted = true

@[simp] theorem update_main (s : Shutdown) (position : Nat) (sub : StartedSubscriber) :
    (s.update position sub).main = s.main := rfl

@[simp] theorem update_initialized (s : Shutdown) (position : Nat) (sub : StartedSubscriber) :
    (s.update position sub).initialized = s.initialized := rfl

@[simp] theorem length_update (s : Shutdown) (position : Nat) (sub : StartedSubscriber) :
    (s.update position sub).subscribers.length = s.subscribers.length := List.length_set

@[simp] theorem joined_update (s : Shutdown) (position : Nat) (sub : StartedSubscriber) :
    (s.update position sub).joined = s.joined := by
  rw [joined, joined, update_main, length_update]

theorem getElem?_update {other : StartedSubscriber} {i : Nat} (hsub : s.subscribers[position]? = some sub) :
    (s.update position other).subscribers[i]? = if position = i then some other else s.subscribers[i]? := by
  have hlength := (List.getElem?_eq_some_iff.mp hsub).1
  rw [update, List.getElem?_set, if_pos hlength]

theorem mem_update {other x : StartedSubscriber} (hsub : s.subscribers[position]? = some sub)
    (hx : x ∈ (s.update position other).subscribers) : x = other ∨ x ∈ s.subscribers := by
  obtain ⟨i, hi⟩ := List.mem_iff_getElem?.mp hx
  rw [getElem?_update hsub] at hi
  split at hi
  · exact .inl (Option.some.inj hi).symm
  · exact .inr (List.mem_iff_getElem?.mpr ⟨i, hi⟩)

/-- What a step of a subscription thread can do. -/
theorem advance_spec {initialized free : Bool} {sub' : StartedSubscriber}
    (h : sub.advance initialized free = some sub') :
    sub'.terminationPosted = sub.terminationPosted ∧ sub'.stage.work < sub.stage.work ∧
      (sub.stage.atBarrier ∨ sub'.stage.atBarrier → initialized = true) := by
  obtain ⟨stage, request, posted, receiving⟩ := sub
  cases stage with
  | running =>
    simp only [StartedSubscriber.advance] at h
    split at h
    · cases h
      simp [RunStage.work, RunStage.atBarrier]
    · cases h
  | handling visits rest =>
    cases visits with
    | zero =>
      cases rest with
      | receive connected =>
        cases h
        simp [RunStage.work, RunStage.atBarrier]
      | packetTimeout =>
        cases h
        simp [RunStage.work, RunStage.atBarrier]
    | succ visits =>
      simp only [StartedSubscriber.advance] at h
      split at h
      · rename_i hinitialized
        cases h
        exact ⟨rfl, Nat.lt_succ_self _, fun _ => hinitialized⟩
      · cases h
  | checking connected =>
    simp only [StartedSubscriber.advance] at h
    split at h
    · cases h
      simp [RunStage.work, RunStage.atBarrier]
    · split at h
      · cases h
        simp [RunStage.work, RunStage.atBarrier]
      · cases h
        simp [RunStage.work, RunStage.atBarrier]
  | calling =>
    simp only [StartedSubscriber.advance] at h
    split at h
    · cases h
      simp [RunStage.work, RunStage.atBarrier]
    · cases h
  | returned => cases h
  | _ =>
    cases h
    simp [RunStage.work, RunStage.atBarrier]

theorem thread_cases (h : step s (.thread position) = some t) : ∃ sub sub', s.subscribers[position]? = some sub ∧
    sub.advance s.initialized s.pendingMutexFree = some sub' ∧ t = s.update position sub' := by
  obtain ⟨sub, hsub, h⟩ := Option.bind_eq_some_iff.mp h
  obtain ⟨sub', hsub', rfl⟩ := Option.map_eq_some_iff.mp h
  exact ⟨sub, sub', hsub, hsub', rfl⟩

/-- A handler is started by a thread that waits in its service. -/
theorem handle_cases {visits : Nat} {rest : HandlerRest} {enabled : StartedSubscriber → Bool}
    (h : s.handle position visits rest enabled = some t) : ∃ sub sub', s.subscribers[position]? = some sub ∧
    sub.stage = .running ∧ sub'.terminationPosted = sub.terminationPosted ∧ t = s.update position sub' := by
  obtain ⟨sub, hsub, h⟩ := Option.bind_eq_some_iff.mp h
  split at h
  · rename_i hrunning
    cases h
    refine ⟨sub, _, hsub, hrunning.1, ?_, rfl⟩
    rfl
  · cases h

theorem mainStep_cases (hterm : s.Terminating) (h : s.mainStep = some t) : ∃ position sub,
    s.subscribers[position]? = some sub ∧
    (s.main = .requesting position ∧
        t = { s.update position { sub with terminationRequest := true } with main := .posting position } ∨
      s.main = .posting position ∧
        t = { s.update position { sub with terminationPosted := true } with main := .joining position } ∨
      s.main = .joining position ∧ sub.stage = .returned ∧ t = { s with main := s.terminateFrom (position + 1) }) := by
  rw [mainStep] at h
  split at h
  · rename_i hmain
    exact absurd hmain hterm.2
  · rename_i position hmain
    obtain ⟨sub, hsub, h⟩ := Option.bind_eq_some_iff.mp h
    split at h
    · cases h
    · cases h
      exact ⟨position, sub, hsub, .inl ⟨hmain, rfl⟩⟩
  · rename_i position hmain
    obtain ⟨sub, hsub, rfl⟩ := Option.map_eq_some_iff.mp h
    exact ⟨position, sub, hsub, .inr (.inl ⟨hmain, rfl⟩)⟩
  · rename_i position hmain
    obtain ⟨sub, hsub, h⟩ := Option.bind_eq_some_iff.mp h
    split at h
    · rename_i hreturned
      cases h
      exact ⟨position, sub, hsub, .inr (.inr ⟨hmain, hreturned, rfl⟩)⟩
    · cases h
  · cases h
  · cases h

theorem ShutdownInvariant.update (hs : s.ShutdownInvariant) {sub' : StartedSubscriber}
    (hsub : s.subscribers[position]? = some sub) (hrunning : sub.stage ≠ .returned)
    (hposted : sub'.terminationPosted = sub.terminationPosted) : (s.update position sub').ShutdownInvariant := by
  refine ⟨fun i hi x hx => ?_, ?_, fun i x hmain hx => ?_⟩
  · rw [joined_update] at hi
    rw [getElem?_update hsub] at hx
    split at hx
    · rename_i heq
      exact absurd (hs.returned position (heq ▸ hi) sub hsub) hrunning
    · exact hs.returned i hi x hx
  · rw [length_update, joined_update]
    exact hs.inRange
  · rw [getElem?_update hsub] at hx
    split at hx
    · rename_i heq
      cases hx
      exact hposted.trans (hs.posted position sub (heq ▸ hmain) hsub)
    · exact hs.posted i x hmain hx

/-- The main thread does something else, and perhaps begins with the first subscriber. -/
theorem invariant_of_working (hmain : t.main = .working ∨ t.main = .accessing ∨ t.main = t.terminateFrom 0) :
    t.ShutdownInvariant := by
  have hnone : t.joined = 0 ∨ t.main = .done ∧ t.subscribers = [] := by
    rcases hmain with hmain | hmain | hmain
    · exact .inl (by rw [joined, hmain])
    · exact .inl (by rw [joined, hmain])
    · rw [terminateFrom] at hmain
      split at hmain
      · exact .inl (by rw [joined, hmain])
      · rename_i hempty
        exact .inr ⟨hmain, List.length_eq_zero_iff.mp (Nat.le_zero.mp (Nat.not_lt.mp hempty))⟩
  refine ⟨fun i hi sub hsub => ?_, ?_, fun position sub hjoining => ?_⟩
  · rcases hnone with hnone | ⟨-, hempty⟩
    · rw [hnone] at hi
      exact absurd hi (Nat.not_lt_zero i)
    · rw [hempty, List.getElem?_nil] at hsub
      cases hsub
  · rcases hmain with hmain | hmain | hmain
    · exact .inr (.inl fun hterm => hterm.1 hmain)
    · exact .inr (.inl fun hterm => hterm.2 hmain)
    · rw [terminateFrom] at hmain
      split at hmain
      · rename_i hfirst
        rw [joined, hmain]
        exact .inr (.inr hfirst)
      · exact .inl hmain
  · rw [hjoining, terminateFrom] at hmain
    split at hmain <;> simp at hmain

theorem ShutdownInvariant.mainStep (hs : s.ShutdownInvariant) (hterm : s.Terminating) (h : s.mainStep = some t) :
    t.ShutdownInvariant := by
  obtain ⟨position, sub, hsub, ⟨hmain, rfl⟩ | ⟨hmain, rfl⟩ | ⟨hmain, hreturned, rfl⟩⟩ := mainStep_cases hterm h
  · have hlength := (List.getElem?_eq_some_iff.mp hsub).1
    refine ⟨fun i hi x hx => ?_, .inr (.inr ?_), nofun⟩
    · change i < position at hi
      change (s.update position _).subscribers[i]? = some x at hx
      rw [getElem?_update hsub, if_neg (Nat.ne_of_gt hi)] at hx
      exact hs.returned i (by rw [joined, hmain]; exact hi) x hx
    · change position < (s.update position _).subscribers.length
      rwa [length_update]
  · have hlength := (List.getElem?_eq_some_iff.mp hsub).1
    refine ⟨fun i hi x hx => ?_, .inr (.inr ?_), fun i x hi hx => ?_⟩
    · change i < position at hi
      change (s.update position _).subscribers[i]? = some x at hx
      rw [getElem?_update hsub, if_neg (Nat.ne_of_gt hi)] at hx
      exact hs.returned i (by rw [joined, hmain]; exact hi) x hx
    · change position < (s.update position _).subscribers.length
      rwa [length_update]
    · cases hi
      change (s.update position _).subscribers[position]? = some x at hx
      rw [getElem?_update hsub, if_pos rfl] at hx
      cases hx
      rfl
  · have hall : ∀ i < position + 1, ∀ x, s.subscribers[i]? = some x → x.stage = .returned := by
      intro i hi x hx
      rcases Nat.lt_succ_iff_lt_or_eq.mp hi with hi | rfl
      · exact hs.returned i (by rw [joined, hmain]; exact hi) x hx
      · rw [hsub] at hx
        cases hx
        exact hreturned
    rw [terminateFrom]
    split
    · rename_i hnext
      exact ⟨hall, .inr (.inr hnext), nofun⟩
    · rename_i hlast
      have hlength := (List.getElem?_eq_some_iff.mp hsub).1
      refine ⟨fun i hi x hx => hall i ?_ x hx, .inl rfl, nofun⟩
      change i < s.subscribers.length at hi
      omega

theorem ShutdownInvariant.step {l : ShutdownLabel} (hs : s.ShutdownInvariant) (h : step s l = some t) :
    t.ShutdownInvariant := by
  cases l with
  | initAndStart =>
    simp only [Shutdown.step] at h
    split at h
    · rename_i hmain
      cases h
      exact invariant_of_working (.inl hmain)
    · cases h
  | initStartTimeNow =>
    simp only [Shutdown.step] at h
    split at h
    · rename_i hmain
      cases h
      exact invariant_of_working (.inl hmain.1)
    · cases h
  | accessPendingException =>
    simp only [Shutdown.step] at h
    split at h
    · cases h
      exact invariant_of_working (.inr (.inl rfl))
    · cases h
  | terminateSubscribers =>
    simp only [Shutdown.step] at h
    split at h
    · cases h
      exact invariant_of_working (.inr (.inr rfl))
    · cases h
  | receive position visits connected =>
    obtain ⟨sub, sub', hsub, hrunning, hposted, rfl⟩ := handle_cases h
    exact hs.update hsub (by rw [hrunning]; exact nofun) hposted
  | packetTimeout position visits =>
    obtain ⟨sub, sub', hsub, hrunning, hposted, rfl⟩ := handle_cases h
    exact hs.update hsub (by rw [hrunning]; exact nofun) hposted
  | main =>
    by_cases hterm : s.Terminating
    · exact hs.mainStep hterm h
    · have hmain : s.main = .working ∨ s.main = .accessing := by
        rw [Terminating, not_and_or, not_not, not_not] at hterm
        exact hterm
      rcases hmain with hmain | hmain
      · simp only [Shutdown.step, Shutdown.mainStep, hmain] at h
        cases h
      · simp only [Shutdown.step, Shutdown.mainStep, hmain] at h
        cases h
        exact invariant_of_working (.inl rfl)
  | thread position =>
    obtain ⟨sub, sub', hsub, hadvance, rfl⟩ := thread_cases h
    obtain ⟨hposted, hwork, -⟩ := advance_spec hadvance
    refine hs.update hsub (fun hreturned => ?_) hposted
    rw [hreturned] at hwork
    exact Nat.not_lt_zero _ hwork

/-! ### Progress -/

theorem threadWork_set {subs : List StartedSubscriber} (h : subs[position]? = some sub) (sub' : StartedSubscriber) :
    threadWork (subs.set position sub') + sub.stage.work = threadWork subs + sub'.stage.work := by
  induction subs generalizing position with
  | nil => cases h
  | cons x subs ih =>
    cases position with
    | zero =>
      cases h
      simp only [List.set_cons_zero, threadWork]
      omega
    | succ position =>
      have hrest := ih (by simpa using h)
      simp only [List.set_cons_succ, threadWork]
      omega

theorem terminateFrom_terminating (s : Shutdown) (position : Nat) {t : Shutdown}
    (h : t.main = s.terminateFrom position) : t.Terminating := by
  rw [Terminating, h, terminateFrom]
  split <;> exact ⟨nofun, nofun⟩

theorem mainWork_terminateFrom (s : Shutdown) (position : Nat) :
    mainWork s.subscribers.length (s.terminateFrom position) ≤ 3 * (s.subscribers.length - position) := by
  rw [terminateFrom]
  split
  · exact Nat.le_refl _
  · exact Nat.zero_le _

/-- Every step of a thread brings the end nearer. -/
theorem work_step {l : ShutdownLabel} (hterm : s.Terminating) (hl : OfThreads l) (h : step s l = some t) :
    t.Terminating ∧ t.work < s.work := by
  cases l with
  | thread position =>
    obtain ⟨sub, sub', hsub, hadvance, rfl⟩ := thread_cases h
    refine ⟨hterm, ?_⟩
    have hwork := (advance_spec hadvance).2.1
    have hsum := threadWork_set hsub sub'
    rw [work, work, length_update, update_main]
    change _ + threadWork (s.subscribers.set position sub') < _
    omega
  | main =>
    obtain ⟨position, sub, hsub, ⟨hmain, rfl⟩ | ⟨hmain, rfl⟩ | ⟨hmain, -, rfl⟩⟩ := mainStep_cases hterm h
    · have hlength := (List.getElem?_eq_some_iff.mp hsub).1
      have hsum := threadWork_set hsub { sub with terminationRequest := true }
      dsimp only at hsum
      refine ⟨⟨nofun, nofun⟩, ?_⟩
      simp only [work, hmain, mainWork, update, List.length_set]
      omega
    · have hlength := (List.getElem?_eq_some_iff.mp hsub).1
      have hsum := threadWork_set hsub { sub with terminationPosted := true }
      dsimp only at hsum
      refine ⟨⟨nofun, nofun⟩, ?_⟩
      simp only [work, hmain, mainWork, update, List.length_set]
      omega
    · have hlength := (List.getElem?_eq_some_iff.mp hsub).1
      have hnext := mainWork_terminateFrom s (position + 1)
      refine ⟨terminateFrom_terminating s _ rfl, ?_⟩
      have hold : mainWork s.subscribers.length s.main = 3 * (s.subscribers.length - position) - 2 := by
        rw [hmain]
        rfl
      rw [work, work, hold]
      dsimp only
      omega
  | _ => exact absurd hl id

/-- A thread that does not wait for anything outside can go on, or the one that keeps it waiting can. -/
theorem exists_step_of_thread (hterm : s.Terminating) (hsub : s.subscribers[position]? = some sub)
    (hreturned : sub.stage ≠ .returned) (hposted : sub.stage = .running → sub.terminationPosted = true)
    (hbarrier : sub.stage.atBarrier → s.initialized = true) : ∃ l, OfThreads l ∧ (step s l).isSome := by
  have hthread {i : Nat} {x : StartedSubscriber} (hx : s.subscribers[i]? = some x)
      (hadvance : (x.advance s.initialized s.pendingMutexFree).isSome) : ∃ l, OfThreads l ∧ (step s l).isSome := by
    refine ⟨.thread i, trivial, ?_⟩
    simpa only [step, hx, Option.bind_some, Option.isSome_map] using hadvance
  cases hstage : sub.stage with
  | calling =>
    by_cases hfree : s.pendingMutexFree = true
    · exact hthread hsub (by simp only [StartedSubscriber.advance, hstage, hfree, if_true, Option.isSome_some])
    · -- Another thread is reporting, and it does not wait for anything.
      obtain ⟨x, hx, hreporting⟩ : ∃ x ∈ s.subscribers, x.stage = .reporting := by
        simpa [pendingMutexFree, hterm.2] using hfree
      obtain ⟨i, hi⟩ := List.mem_iff_getElem?.mp hx
      exact hthread hi (by simp only [StartedSubscriber.advance, hreporting, Option.isSome_some])
  | returned => exact absurd hstage hreturned
  | running => exact hthread hsub (by simp [StartedSubscriber.advance, hstage, hposted hstage])
  | handling visits rest =>
    cases visits with
    | zero => cases rest <;> exact hthread hsub (by simp [StartedSubscriber.advance, hstage])
    | succ visits =>
      have hinitialized := hbarrier (by rw [hstage]; rfl)
      exact hthread hsub (by simp [StartedSubscriber.advance, hstage, hinitialized])
  | checking connected =>
    refine hthread hsub ?_
    simp only [StartedSubscriber.advance, hstage]
    split
    · rfl
    · split <;> rfl
  | _ => exact hthread hsub (by simp [StartedSubscriber.advance, hstage])

/-- As long as the termination is not complete and nothing is stalled, some thread can go on. -/
theorem ShutdownInvariant.exists_step (hs : s.ShutdownInvariant) (hterm : s.Terminating) (hstalled : ¬s.Stalled)
    (hdone : s.main ≠ .done) : ∃ l, OfThreads l ∧ (Shutdown.step s l).isSome := by
  have hlength := (hs.inRange.resolve_left hdone).resolve_left fun h => h hterm
  obtain ⟨sub, hsub⟩ : ∃ sub, s.subscribers[s.joined]? = some sub := ⟨_, List.getElem?_eq_getElem hlength⟩
  have hbarrier : sub.stage.atBarrier → s.initialized = true := by
    intro hat
    by_contra hnot
    exact hstalled ⟨Bool.not_eq_true _ ▸ hnot, sub, List.mem_iff_getElem?.mpr ⟨_, hsub⟩, hat⟩
  cases hmain : s.main with
  | working => exact absurd hmain hterm.1
  | accessing => exact absurd hmain hterm.2
  | done => exact absurd hmain hdone
  | requesting position =>
    rw [joined, hmain] at hsub
    by_cases hheld : sub.holdsObjectMutex = true
    · -- The subscription thread reports its exception and then releases the mutex.
      have hstage : sub.stage = .calling ∨ sub.stage = .reporting := by
        simpa [StartedSubscriber.holdsObjectMutex] using hheld
      refine exists_step_of_thread hterm hsub ?_ ?_ hbarrier
      · rcases hstage with hstage | hstage <;> rw [hstage] <;> exact nofun
      · rcases hstage with hstage | hstage <;> rw [hstage] <;> exact nofun
    · exact ⟨.main, trivial, by simp [Shutdown.step, Shutdown.mainStep, hmain, hsub, hheld]⟩
  | posting position =>
    rw [joined, hmain] at hsub
    exact ⟨.main, trivial, by simp [Shutdown.step, Shutdown.mainStep, hmain, hsub]⟩
  | joining position =>
    rw [joined, hmain] at hsub
    by_cases hreturned : sub.stage = .returned
    · exact ⟨.main, trivial, by simp [Shutdown.step, Shutdown.mainStep, hmain, hsub, hreturned]⟩
    · exact exists_step_of_thread hterm hsub hreturned (fun _ => hs.posted position sub hmain hsub) hbarrier

/-! ### A queue without a start time -/

theorem Stalled.update (hs : s.Stalled) {sub' : StartedSubscriber} (hsub : s.subscribers[position]? = some sub)
    (hkept : sub.stage.atBarrier → sub'.stage.atBarrier ∨ s.initialized = true) :
    (s.update position sub').Stalled := by
  obtain ⟨huninitialized, x, hx, hat⟩ := hs
  obtain ⟨i, hi⟩ := List.mem_iff_getElem?.mp hx
  by_cases heq : position = i
  · subst heq
    rw [hsub] at hi
    cases hi
    have hat' := (hkept hat).resolve_right (by rw [huninitialized]; exact nofun)
    refine ⟨huninitialized, sub', List.mem_iff_getElem?.mpr ⟨position, ?_⟩, hat'⟩
    rw [getElem?_update hsub, if_pos rfl]
  · refine ⟨huninitialized, x, List.mem_iff_getElem?.mpr ⟨i, ?_⟩, hat⟩
    rw [getElem?_update hsub, if_neg heq, hi]

theorem Stalled.of_update {sub' : StartedSubscriber} (hsub : s.subscribers[position]? = some sub)
    (hnew : sub'.stage.atBarrier → sub.stage.atBarrier ∨ s.initialized = true)
    (hs : (s.update position sub').Stalled) : s.Stalled := by
  obtain ⟨huninitialized, x, hx, hat⟩ := hs
  rw [update_initialized] at huninitialized
  rcases mem_update hsub hx with rfl | hx
  · have hat' := (hnew hat).resolve_right (by rw [huninitialized]; exact nofun)
    exact ⟨huninitialized, sub, List.mem_iff_getElem?.mpr ⟨position, hsub⟩, hat'⟩
  · exact ⟨huninitialized, x, hx, hat⟩

/-- What is stalled stays so, and nothing gets to the barrier without data. -/
theorem stalled_step {l : ShutdownLabel} (hterm : s.Terminating) (h : step s l = some t) :
    t.Terminating ∧ (s.Stalled → t.Stalled) ∧ (OfThreads l → t.Stalled → s.Stalled) := by
  cases l with
  | thread position =>
    obtain ⟨sub, sub', hsub, hadvance, rfl⟩ := thread_cases h
    have hbarrier := (advance_spec hadvance).2.2
    exact ⟨hterm, fun hs => hs.update hsub fun hat => .inr (hbarrier (.inl hat)),
      fun _ => .of_update hsub fun hat => .inr (hbarrier (.inr hat))⟩
  | main =>
    obtain ⟨position, sub, hsub, ⟨-, rfl⟩ | ⟨-, rfl⟩ | ⟨-, -, rfl⟩⟩ := mainStep_cases hterm h
    · exact ⟨⟨nofun, nofun⟩, fun hs => hs.update hsub .inl, fun _ => .of_update hsub .inl⟩
    · exact ⟨⟨nofun, nofun⟩, fun hs => hs.update hsub .inl, fun _ => .of_update hsub .inl⟩
    · exact ⟨terminateFrom_terminating s _ rfl, id, fun _ => id⟩
  | receive position visits connected =>
    obtain ⟨sub, sub', hsub, hstage, -, rfl⟩ := handle_cases h
    refine ⟨hterm, fun hs => hs.update hsub fun hat => ?_, fun hl => absurd hl id⟩
    rw [hstage] at hat
    cases hat
  | packetTimeout position visits =>
    obtain ⟨sub, sub', hsub, hstage, -, rfl⟩ := handle_cases h
    refine ⟨hterm, fun hs => hs.update hsub fun hat => ?_, fun hl => absurd hl id⟩
    rw [hstage] at hat
    cases hat
  | _ => simp [step, hterm.1] at h

theorem ShutdownInvariant.returned_of_done (hs : s.ShutdownInvariant) (hdone : s.main = .done) :
    ∀ sub ∈ s.subscribers, sub.stage = .returned := by
  intro sub hsub
  obtain ⟨i, hi⟩ := List.mem_iff_getElem?.mp hsub
  refine hs.returned i ?_ sub hi
  rw [joined, hdone]
  exact (List.getElem?_eq_some_iff.mp hi).1

/-- Once the main thread has begun to terminate the subscribers, the threads can only make a limited
number of steps on their own. Unless a thread has data for a queue that has never got its start time,
they stop in no other state than the one in which all subscription threads are joined; otherwise the
main thread waits for ever. -/
theorem shutdown_completes_unless_stalled (labels : List ShutdownLabel) (s : Shutdown) (hrun : Reaches {} labels s)
    (hterm : s.Terminating) :
    (∀ more t, Reaches s more t → (∀ l ∈ more, OfThreads l) → more.length ≤ s.work) ∧
    (¬s.Stalled → ∀ more t, Reaches s more t → (∀ l ∈ more, OfThreads l) →
      t.main = .done ∨ ∃ l, OfThreads l ∧ (step t l).isSome) ∧
    (s.Stalled → ∀ more t, Reaches s more t → t.main ≠ .done) ∧
    (s.main = .done → ∀ sub ∈ s.subscribers, sub.stage = .returned) := by
  have hinv : s.ShutdownInvariant :=
    LabelledRun.exec_invariant (fun _ _ _ hs ht => hs.step ht) (invariant_of_working (.inl rfl)) hrun
  refine ⟨fun more t hmore hall => ?_, fun hstalled more t hmore hall => ?_, fun hstalled more t hmore => ?_,
    hinv.returned_of_done⟩
  · have hbound := (LabelledRun.exec_bounded Terminating (fun _ _ _ hs hl ht => work_step hs hl ht) hterm hall hmore).2
    omega
  · have hstep (u : Shutdown) (l : ShutdownLabel) (v : Shutdown)
        (hu : u.Terminating ∧ ¬u.Stalled ∧ u.ShutdownInvariant) (hl : OfThreads l) (hv : step u l = some v) :
        (v.Terminating ∧ ¬v.Stalled ∧ v.ShutdownInvariant) ∧ v.work < u.work := by
      obtain ⟨hterm', hless⟩ := work_step hu.1 hl hv
      exact ⟨⟨hterm', fun h => hu.2.1 ((stalled_step hu.1 hv).2.2 hl h), hu.2.2.step hv⟩, hless⟩
    obtain ⟨⟨hterm', hstalled', hinv'⟩, -⟩ := LabelledRun.exec_bounded _ hstep ⟨hterm, hstalled, hinv⟩ hall hmore
    by_cases hdone : t.main = .done
    · exact .inl hdone
    · exact .inr (hinv'.exists_step hterm' hstalled' hdone)
  · have hstep (u : Shutdown) (l : ShutdownLabel) (v : Shutdown)
        (hu : u.Terminating ∧ u.Stalled ∧ u.ShutdownInvariant) (hv : step u l = some v) :
        v.Terminating ∧ v.Stalled ∧ v.ShutdownInvariant := by
      obtain ⟨hterm', hkept, -⟩ := stalled_step hu.1 hv
      exact ⟨hterm', hkept hu.2.1, hu.2.2.step hv⟩
    obtain ⟨-, ⟨-, sub, hsub, hat⟩, hinv'⟩ := LabelledRun.exec_invariant hstep ⟨hterm, hstalled, hinv⟩ hmore
    intro hdone
    rw [hinv'.returned_of_done hdone sub hsub] at hat
    cases hat

/-- Two subscribers are started. The first one fails to reconnect during the run while the second one
decodes data. -/
def failingRun : List ShutdownLabel :=
  [.initAndStart, .initAndStart, .initStartTimeNow, .receive 0 0 false, .thread 0, .receive 1 3 true, .thread 0,
    .thread 0, .thread 0, .terminateSubscribers]

/-- A server sends data before the simulation is started, and then the start is given up. -/
def abandonedStart : List ShutdownLabel := [.initAndStart, .receive 0 1 true, .terminateSubscribers]

theorem shutdown_completes_unless_stalled_runs :
    (∃ s, Reaches {} failingRun s ∧ ¬s.Stalled ∧ ∀ more t, Reaches s more t → (∀ l ∈ more, OfThreads l) →
      t.main = .done ∨ ∃ l, OfThreads l ∧ (step t l).isSome) ∧
    ∃ s, Reaches {} abandonedStart s ∧ s.Stalled ∧ ∀ more t, Reaches s more t → t.main ≠ .done := by
  constructor
  · obtain ⟨s, hrun, hmain, hinitialized⟩ := LabelledRun.exec_of_any step {} failingRun
      (fun s => s.main = .requesting 0 ∧ s.initialized = true) (by decide)
    have hterm : s.Terminating := by simp [Terminating, hmain]
    have hstalled : ¬s.Stalled := by simp [Stalled, hinitialized]
    exact ⟨s, hrun, hstalled, (shutdown_completes_unless_stalled failingRun s hrun hterm).2.1 hstalled⟩
  · obtain ⟨s, hrun, hmain, hstalled⟩ := LabelledRun.exec_of_any step {} abandonedStart
      (fun s => s.main = .requesting 0 ∧ s.initialized = false ∧ ∃ sub ∈ s.subscribers, sub.stage.atBarrier) (by decide)
    have hterm : s.Terminating := by simp [Terminating, hmain]
    exact ⟨s, hrun, hstalled, (shutdown_completes_unless_stalled abandonedStart s hrun hterm).2.2.1 hstalled⟩

end Shutdown
end FMITerminalBlock.Network
