import FMITerminalBlock.Library.EventLoop
import FMITerminalBlock.Library.LabelledRun
import FMITerminalBlock.Network.CompactASN1Subscriber

/-! A subscriber as an object that is started and terminated, and perhaps started again. Its service
outlives the thread that runs it. -/
namespace FMITerminalBlock.Network
open Base

/-- The subscription thread is joinable once it has been started, whether or not it has returned. -/
inductive SubscriptionThread where
  | notStarted | running | returned
  deriving DecidableEq

/-- The handlers that are posted to the service from outside. -/
inductive ServiceHandler where
  | handleTermination
  deriving DecidableEq

structure ConcurrentSubscriber where
  decoder : CompactASN1Subscriber := { portIDs := [] }
  service : EventLoop.Loop ServiceHandler := {}
  thread : SubscriptionThread := .notStarted
  deriving DecidableEq

/-- What happens to the object. Starting it succeeds if the network does; a run may end by an
exception after it has taken some data. -/
inductive SubscriberCall where
  | initAndStart (settings : TransmissionChannel) (networkInitialized : Bool)
  | receive (data : List UInt8)
  | receiveAndThrow (data : List UInt8)
  | packetTimeout
  | terminate

namespace ConcurrentSubscriber

/-- The handler drops the buffered data and stops the service. -/
def perform : ServiceHandler → CompactASN1Subscriber → Bool × CompactASN1Subscriber
  | .handleTermination, s => (true, { s with partialData := none }.clearUnprocessedData)

/-- Runs the service until it is stopped or waits for data. -/
def executeRun (s : ConcurrentSubscriber) : ConcurrentSubscriber :=
  let (service, decoder) := s.service.run perform s.decoder
  { decoder, service, thread := if service.stopped then .returned else .running }

/-- The state when `init` has succeeded. An event under construction is kept. -/
def initialized (s : ConcurrentSubscriber) (settings : TransmissionChannel) : ConcurrentSubscriber :=
  { s with decoder := { s.decoder with portIDs := settings.portIDs }.clearUnprocessedData }

def initAndStart (s : ConcurrentSubscriber) (settings : TransmissionChannel) (networkInitialized : Bool) :
    ConcurrentSubscriber :=
  if settings.portIDs = [] then { s with decoder := { s.decoder with portIDs := settings.portIDs } }
  else if networkInitialized then (s.initialized settings).executeRun
  else s.initialized settings

/-- A service that is running executes the posted handler; otherwise it stays posted. The thread has
been joined in any case. -/
def terminate (s : ConcurrentSubscriber) : ConcurrentSubscriber :=
  let s := { s with service := s.service.post .handleTermination }
  { (if s.thread = .running then s.executeRun else s) with thread := .notStarted }

/-- An object with a joinable thread must not be started, and only such an object may be terminated.
Data that arrives while nothing runs is not read. -/
def step (env : Surroundings) (s : ConcurrentSubscriber) : SubscriberCall → Option ConcurrentSubscriber
  | .initAndStart settings networkInitialized =>
    if s.thread = .notStarted then some (s.initAndStart settings networkInitialized) else none
  | .receive data =>
    if s.thread = .running then (s.decoder.commitData env data).map fun decoder => { s with decoder }
    else some s
  | .receiveAndThrow data =>
    if s.thread = .running then
      (s.decoder.commitData env data).map fun decoder => { s with decoder, thread := .returned }
    else none
  | .packetTimeout =>
    if s.thread = .running then some { s with decoder := s.decoder.handlePacketTimeout } else some s
  | .terminate => if s.thread = .notStarted then none else some s.terminate

/-- The events pushed after a further start, for the chunks received afterwards. -/
def newEvents (env : Surroundings) (s : ConcurrentSubscriber) (settings : TransmissionChannel)
    (networkInitialized : Bool) (chunks : List (List UInt8)) : Option (List PushedEvent) :=
  (LabelledRun.exec (step env) s (.initAndStart settings networkInitialized :: chunks.map .receive)).map
    fun t => t.decoder.pushed.drop s.decoder.pushed.length

/-- A further start makes the object push the events that a new object would push. -/
def RestartsClean (env : Surroundings) (s : ConcurrentSubscriber) : Prop :=
  ∀ settings networkInitialized chunks,
    newEvents env s settings networkInitialized chunks = newEvents env {} settings networkInitialized chunks

/-- The call starts the object. -/
def Succeeds : SubscriberCall → Prop
  | .initAndStart settings networkInitialized => settings.portIDs ≠ [] ∧ networkInitialized = true
  | _ => False

/-! ### Histories -/

/-- An object that has never run knows no more than the ports of the last channel it was offered. -/
def neverRun (ports : List PortID) : ConcurrentSubscriber := { decoder := { portIDs := ports } }

/-- The service will return at once. -/
def Spent (s : ConcurrentSubscriber) : Prop := s.service.stopped = true ∨ s.service.posted ≠ []

/-- What a history leaves behind. -/
structure Aftermath (history : List SubscriberCall) (s : ConcurrentSubscriber) : Prop where
  unused : (∀ call ∈ history, ¬Succeeds call) → ∃ ports, s = neverRun ports
  spent : (∃ call ∈ history, Succeeds call) → s.thread = .notStarted → s.Spent

theorem initAndStart_of_succeeds (s : ConcurrentSubscriber) {settings : TransmissionChannel} {networkInitialized : Bool}
    (h : Succeeds (.initAndStart settings networkInitialized)) :
    s.initAndStart settings networkInitialized = (s.initialized settings).executeRun := by
  rw [initAndStart, if_neg h.1, if_pos h.2]

/-- A start that is refused leaves the service and the thread alone. -/
theorem initAndStart_of_refused (s : ConcurrentSubscriber) {settings : TransmissionChannel} {networkInitialized : Bool}
    (h : ¬Succeeds (.initAndStart settings networkInitialized)) :
    (s.initAndStart settings networkInitialized).service = s.service ∧
      (s.initAndStart settings networkInitialized).thread = s.thread ∧
      (s.initAndStart settings networkInitialized).decoder.pushed = s.decoder.pushed := by
  rw [initAndStart]
  split
  · exact ⟨rfl, rfl, rfl⟩
  · rename_i hports
    rw [if_neg fun hnetwork => h ⟨hports, hnetwork⟩]
    exact ⟨rfl, rfl, rfl⟩

theorem executeRun_thread (s : ConcurrentSubscriber) : s.executeRun.thread ≠ .notStarted := by
  rw [executeRun]
  dsimp only
  split <;> exact nofun

theorem terminate_spent (s : ConcurrentSubscriber) : s.terminate.Spent := by
  rw [terminate]
  dsimp only
  split
  · left
    refine EventLoop.Loop.run_stopped (.inr ⟨.handleTermination, ?_, fun _ => rfl⟩) _
    exact List.mem_append_right _ List.mem_cons_self
  · right
    exact List.append_ne_nil_of_right_ne_nil _ (List.cons_ne_nil _ _)

/-- A refused start keeps an object unused. -/
theorem neverRun_refused (ports : List PortID) {settings : TransmissionChannel} {networkInitialized : Bool}
    (h : ¬Succeeds (.initAndStart settings networkInitialized)) :
    (neverRun ports).initAndStart settings networkInitialized = neverRun settings.portIDs := by
  rw [initAndStart]
  split
  · rfl
  · rename_i hports
    rw [if_neg fun hnetwork => h ⟨hports, hnetwork⟩]
    rfl

/-- A call that does not start the object leaves it as it is. -/
theorem Aftermath.unchanged {history : List SubscriberCall} {s : ConcurrentSubscriber} (hs : Aftermath history s)
    {call : SubscriberCall} (hcall : ¬Succeeds call) : Aftermath (history ++ [call]) s := by
  refine ⟨fun hnone => hs.unused fun c hc => hnone c (List.mem_append_left _ hc), fun hsome => hs.spent ?_⟩
  obtain ⟨c, hc, hsucceeds⟩ := hsome
  rcases List.mem_append.mp hc with hc | hc
  · exact ⟨c, hc, hsucceeds⟩
  · exact absurd (List.mem_singleton.mp hc ▸ hsucceeds) hcall

/-- An object with a thread has been started. -/
theorem Aftermath.of_started {history : List SubscriberCall} {s t : ConcurrentSubscriber} (hs : Aftermath history s)
    (hstarted : s.thread ≠ .notStarted) {call : SubscriberCall} (ht : t.thread = .notStarted → t.Spent) :
    Aftermath (history ++ [call]) t := by
  refine ⟨fun hnone => ?_, fun _ => ht⟩
  obtain ⟨ports, rfl⟩ := hs.unused fun c hc => hnone c (List.mem_append_left _ hc)
  exact absurd rfl hstarted

theorem aftermath_step (env : Surroundings) {history : List SubscriberCall} {s t : ConcurrentSubscriber}
    {call : SubscriberCall} (hs : Aftermath history s) (h : step env s call = some t) :
    Aftermath (history ++ [call]) t := by
  cases call with
  | initAndStart settings networkInitialized =>
    rw [step] at h
    split at h
    · cases h
      by_cases hsucceeds : Succeeds (.initAndStart settings networkInitialized)
      · refine ⟨fun hnone => absurd hsucceeds (hnone _ (by simp)), fun _ hthread => ?_⟩
        rw [initAndStart_of_succeeds s hsucceeds] at hthread
        exact absurd hthread (executeRun_thread _)
      · have hsame := hs.unchanged hsucceeds
        obtain ⟨hservice, hkept, -⟩ := initAndStart_of_refused s hsucceeds
        refine ⟨fun hnone => ?_, fun hsome hthread => ?_⟩
        · obtain ⟨ports, rfl⟩ := hsame.unused hnone
          exact ⟨_, neverRun_refused ports hsucceeds⟩
        · rw [Spent, hservice]
          exact hsame.spent hsome (hkept.symm.trans hthread)
    · cases h
  | receive data =>
    rw [step] at h
    split at h
    · rename_i hrunning
      have hstarted : s.thread ≠ .notStarted := by rw [hrunning]; decide
      obtain ⟨decoder, -, rfl⟩ := Option.map_eq_some_iff.mp h
      exact hs.of_started hstarted fun hthread => absurd hthread hstarted
    · cases h
      exact hs.unchanged id
  | receiveAndThrow data =>
    rw [step] at h
    split at h
    · rename_i hrunning
      have hstarted : s.thread ≠ .notStarted := by rw [hrunning]; decide
      obtain ⟨decoder, -, rfl⟩ := Option.map_eq_some_iff.mp h
      refine hs.of_started hstarted fun hthread => ?_
      cases hthread
    · cases h
  | packetTimeout =>
    rw [step] at h
    split at h
    · rename_i hrunning
      have hstarted : s.thread ≠ .notStarted := by rw [hrunning]; decide
      cases h
      exact hs.of_started hstarted fun hthread => absurd hthread hstarted
    · cases h
      exact hs.unchanged id
  | terminate =>
    rw [step] at h
    split at h
    · cases h
    · rename_i hstarted
      cases h
      exact hs.of_started hstarted fun _ => terminate_spent s

theorem aftermath {env : Surroundings} {history : List SubscriberCall} {s : ConcurrentSubscriber}
    (h : LabelledRun.exec (step env) {} history = some s) : Aftermath history s :=
  LabelledRun.exec_history Aftermath (fun _ _ _ _ hs hstep => aftermath_step env hs hstep)
    ⟨fun _ => ⟨[], rfl⟩, fun ⟨_, hc, _⟩ => nomatch hc⟩ h

/-! ### A further start -/

/-- Nothing is read while nothing runs. -/
theorem exec_receive {env : Surroundings} {s : ConcurrentSubscriber} (h : s.thread ≠ .running)
    (chunks : List (List UInt8)) : LabelledRun.exec (step env) s (chunks.map .receive) = some s := by
  induction chunks with
  | nil => rfl
  | cons data chunks ih => rw [List.map_cons, LabelledRun.exec, step, if_neg h, Option.bind_some, ih]

theorem newEvents_eq (env : Surroundings) {s : ConcurrentSubscriber} (h : s.thread = .notStarted)
    (settings : TransmissionChannel) (networkInitialized : Bool) (chunks : List (List UInt8)) :
    newEvents env s settings networkInitialized chunks =
      (LabelledRun.exec (step env) (s.initAndStart settings networkInitialized) (chunks.map .receive)).map
        fun t => t.decoder.pushed.drop s.decoder.pushed.length := by
  rw [newEvents, LabelledRun.exec, step, if_pos h, Option.bind_some]

/-- The run of such a service is over at once and pushes nothing. -/
theorem Spent.executeRun {s : ConcurrentSubscriber} (hs : s.Spent) :
    s.executeRun.thread = .returned ∧ s.executeRun.decoder.pushed = s.decoder.pushed := by
  have hstopped : (s.service.run perform s.decoder).1.stopped = true := by
    apply EventLoop.Loop.run_stopped
    refine hs.imp_right fun hposted => ?_
    obtain ⟨handler, hmem⟩ := List.exists_mem_of_ne_nil _ hposted
    cases handler
    exact ⟨.handleTermination, hmem, fun _ => rfl⟩
  have hpushed : (s.service.run perform s.decoder).2.pushed = s.decoder.pushed := by
    apply EventLoop.Loop.run_invariant (fun decoder : CompactASN1Subscriber => decoder.pushed = s.decoder.pushed)
    · rintro ⟨⟩ decoder hdecoder
      exact hdecoder
    · rfl
  rw [ConcurrentSubscriber.executeRun]
  exact ⟨if_pos hstopped, hpushed⟩

/-- A service that returns at once makes the object deaf. -/
theorem newEvents_of_spent (env : Surroundings) {s : ConcurrentSubscriber} (hs : s.Spent)
    (hthread : s.thread = .notStarted) (settings : TransmissionChannel) (networkInitialized : Bool)
    (chunks : List (List UInt8)) : newEvents env s settings networkInitialized chunks = some [] := by
  have hstart : (s.initAndStart settings networkInitialized).thread ≠ .running ∧
      (s.initAndStart settings networkInitialized).decoder.pushed = s.decoder.pushed := by
    by_cases hsucceeds : Succeeds (.initAndStart settings networkInitialized)
    · have hspent : (s.initialized settings).Spent := hs
      rw [initAndStart_of_succeeds s hsucceeds, hspent.executeRun.1, hspent.executeRun.2]
      exact ⟨nofun, rfl⟩
    · obtain ⟨-, hkept, hpushed⟩ := initAndStart_of_refused s hsucceeds
      rw [hkept, hthread]
      exact ⟨nofun, hpushed⟩
  rw [newEvents_eq env hthread, exec_receive hstart.1, Option.map_some, hstart.2, List.drop_length]

/-- The ports of an earlier channel are forgotten. -/
theorem newEvents_neverRun (env : Surroundings) (ports : List PortID) (settings : TransmissionChannel)
    (networkInitialized : Bool) (chunks : List (List UInt8)) :
    newEvents env (neverRun ports) settings networkInitialized chunks =
      newEvents env {} settings networkInitialized chunks := by
  have hstart : (neverRun ports).initAndStart settings networkInitialized =
      ({} : ConcurrentSubscriber).initAndStart settings networkInitialized := by
    rw [initAndStart, initAndStart]
    rfl
  rw [newEvents_eq env rfl, newEvents_eq env rfl, hstart]
  rfl

/-- A new object answers a chunk without any known tag by an event without variables. -/
theorem newEvents_unknown_tag (env : Surroundings) :
    newEvents env {} pairChannel true [[0]] =
      some [⟨{ time := env.getTimeStampNow 0, portTemplate := pairChannel.portIDs }, 0, 0⟩] := rfl

/-- An object can be started like a new one exactly if none of its earlier starts succeeded. -/
theorem restarts_clean_iff_never_started (env : Surroundings) (history : List SubscriberCall)
    (s : ConcurrentSubscriber) (h : LabelledRun.exec (step env) {} history = some s)
    (hthread : s.thread = .notStarted) : RestartsClean env s ↔ ∀ call ∈ history, ¬Succeeds call := by
  have haftermath := aftermath h
  constructor
  · intro hclean call hcall hsucceeds
    have hspent := haftermath.spent ⟨call, hcall, hsucceeds⟩ hthread
    have hsame := hclean pairChannel true [[0]]
    rw [newEvents_of_spent env hspent hthread, newEvents_unknown_tag] at hsame
    cases hsame
  · intro hnone settings networkInitialized chunks
    obtain ⟨ports, rfl⟩ := haftermath.unused hnone
    exact newEvents_neverRun env ports settings networkInitialized chunks

theorem restarts_clean_after_refusal :
    ∃ s, LabelledRun.exec (step .exact) {} [.initAndStart pairChannel false] = some s ∧ RestartsClean .exact s :=
  ⟨_, rfl, (restarts_clean_iff_never_started .exact [.initAndStart pairChannel false] _ rfl rfl).mpr (by
    rintro call hcall
    rw [List.mem_singleton.mp hcall]
    exact fun h => nomatch h.2)⟩

/-- After a regular termination the same object is deaf, and so it is when the run has ended by an
exception before. -/
theorem restarted_object_is_deaf :
    (∃ s, LabelledRun.exec (step .exact) {} [.initAndStart pairChannel true, .terminate] = some s ∧
      newEvents .exact s pairChannel true [[0x41, 0x40]] = some [] ∧ ¬RestartsClean .exact s) ∧
    (∃ s, LabelledRun.exec (step .exact) {}
        [.initAndStart pairChannel true, .receiveAndThrow [0x41], .terminate] = some s ∧
      newEvents .exact s pairChannel true [[0x41, 0x40]] = some [] ∧ ¬RestartsClean .exact s) ∧
    ∃ ev, newEvents .exact {} pairChannel true [[0x41, 0x40]] = some [ev] := by
  refine ⟨⟨_, rfl, by decide, fun hclean => ?_⟩, ⟨_, rfl, by decide, fun hclean => ?_⟩, _, rfl⟩
  · exact absurd (hclean pairChannel true [[0x41, 0x40]]) (by decide)
  · exact absurd (hclean pairChannel true [[0x41, 0x40]]) (by decide)

end ConcurrentSubscriber
end FMITerminalBlock.Network
