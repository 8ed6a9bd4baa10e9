import FMITerminalBlock.Library.Fallible
import FMITerminalBlock.Library.LabelledRun
import FMITerminalBlock.Network.Decoding

/-! The packet timer of the subscriber. It is armed by every `commitData`, but its expiry stays the
one that `init` has set. -/
namespace FMITerminalBlock.Network
open Base

/-- A `boost::asio::deadline_timer` with times in microseconds. A pending wait is known by the time
at which it was started. -/
structure DeadlineTimer where
  expiry : Int
  waiting : Option Int := none
  deriving DecidableEq

namespace DeadlineTimer

def create (now duration : Int) : DeadlineTimer := { expiry := now + duration }

/-- Pending waits are aborted; the expiry is left unchanged. -/
def cancel (timer : DeadlineTimer) : DeadlineTimer := { timer with waiting := none }

def asyncWait (timer : DeadlineTimer) (now : Int) : DeadlineTimer := { timer with waiting := some now }

/-- A wait completes as soon as the clock has reached the expiry, at once if it already has. -/
def completion (timer : DeadlineTimer) : Option Int := timer.waiting.map (max timer.expiry)

end DeadlineTimer

/-- The subscriber with its timer and the clock values of `init` and of all `commitData` calls. -/
structure TimedSubscriber where
  decoder : CompactASN1Subscriber
  timer : DeadlineTimer
  packetTimeout : Nat
  clock : Int
  started : Int
  commits : List Int := []
  deriving DecidableEq

/-- What happens to the subscriber at a clock value. -/
inductive TimedAction where
  | commitData (now : Int) (data : List UInt8)
  | expire (now : Int)
  deriving DecidableEq

namespace TimedSubscriber

def propPacketTimeout : StdString := ascii "packetTimeout"

/-- The configured number of milliseconds is stored in 32 bits without a sign. -/
def configuredTimeout (settings : TransmissionChannel) : Nat :=
  (settings.channelConfig.getInt propPacketTimeout 500 % 2 ^ 32).toNat

def init (now : Int) (settings : TransmissionChannel) : Except SystemConfigurationException TimedSubscriber :=
  (CompactASN1Subscriber.init { portIDs := [] } settings).map fun decoder => {
    decoder
    timer := .create now (1000 * configuredTimeout settings)
    packetTimeout := configuredTimeout settings
    clock := now
    started := now }

def restartPacketTimer (s : TimedSubscriber) (now : Int) : TimedSubscriber :=
  { s with timer := s.timer.cancel.asyncWait now }

/-- One action, if the clock allows it. No action passes the completion of a pending wait by. -/
def step (env : Surroundings) (s : TimedSubscriber) : TimedAction → Option TimedSubscriber
  | .commitData now data =>
    if s.clock ≤ now ∧ ∀ due ∈ s.timer.completion, now ≤ due then
      (s.decoder.commitData env data).map fun decoder =>
        { s.restartPacketTimer now with decoder, clock := now, commits := s.commits ++ [now] }
    else none
  | .expire now =>
    if s.timer.completion = some now then
      some { s with decoder := s.decoder.handlePacketTimeout, timer := s.timer.cancel, clock := now }
    else none

/-- If this transition is a timeout that pushes an event, the configured time has passed without
any data. -/
def QuietBeforePush (s : TimedSubscriber) : TimedAction → TimedSubscriber → Prop
  | .commitData _ _, _ => True
  | .expire now, t => t.decoder.pushed ≠ s.decoder.pushed →
      ∀ commit ∈ s.commits, ¬(now - 1000 * s.packetTimeout < commit ∧ commit ≤ now)

instance (s t : TimedSubscriber) : (a : TimedAction) → Decidable (QuietBeforePush s a t)
  | .commitData _ _ => isTrue trivial
  | .expire now => inferInstanceAs (Decidable (t.decoder.pushed ≠ s.decoder.pushed →
      ∀ commit ∈ s.commits, ¬(now - 1000 * s.packetTimeout < commit ∧ commit ≤ now)))

/-- A timeout finds a partial event only if no data has arrived after the moment of `init`, or if
there is no time to wait at all. -/
def DataOnlyAtInit (s : TimedSubscriber) : TimedAction → Prop
  | .commitData _ _ => True
  | .expire _ => s.decoder.partialData.isSome → s.packetTimeout = 0 ∨ ∀ commit ∈ s.commits, commit = s.started

instance (s : TimedSubscriber) : (a : TimedAction) → Decidable (DataOnlyAtInit s a)
  | .commitData _ _ => isTrue trivial
  | .expire _ => inferInstanceAs (Decidable (s.decoder.partialData.isSome →
      s.packetTimeout = 0 ∨ ∀ commit ∈ s.commits, commit = s.started))

/-- The expiry never moves, and a pending wait stems from the last call of `commitData`. -/
structure TimerInvariant (s : TimedSubscriber) : Prop where
  ready : s.decoder.Ready
  expiry : s.timer.expiry = s.started + 1000 * s.packetTimeout
  range : ∀ commit ∈ s.commits, s.started ≤ commit ∧ commit ≤ s.clock
  startedBefore : s.started ≤ s.clock
  waiting : ∀ armed ∈ s.timer.waiting, armed ∈ s.commits ∧ armed = s.clock

theorem timerInvariant_init {now : Int} {settings : TransmissionChannel} {s : TimedSubscriber}
    (h : init now settings = .ok s) : TimerInvariant s := by
  obtain ⟨decoder, hdecoder, rfl⟩ := Fallible.map_eq_ok.mp h
  exact ⟨(CompactASN1Subscriber.init_eq hdecoder).2, rfl, nofun, le_rfl, nofun⟩

theorem timerInvariant_step {env : Surroundings} {s t : TimedSubscriber} {a : TimedAction} (hs : TimerInvariant s)
    (h : step env s a = some t) : TimerInvariant t := by
  cases a with
  | commitData now data =>
    obtain ⟨⟨hclock, -⟩, h⟩ := Option.ite_none_right_eq_some.mp h
    obtain ⟨decoder, hdecoder, rfl⟩ := Option.map_eq_some_iff.mp h
    have hrange : ∀ commit ∈ s.commits ++ [now], s.started ≤ commit ∧ commit ≤ now := by
      intro commit hcommit
      rcases List.mem_append.mp hcommit with hold | hnew
      · exact ⟨(hs.range commit hold).1, (hs.range commit hold).2.trans hclock⟩
      · rw [List.mem_singleton.mp hnew]
        exact ⟨hs.startedBefore.trans hclock, le_rfl⟩
    refine ⟨hs.ready.commitData hdecoder, hs.expiry, hrange, hs.startedBefore.trans hclock,
      ?_⟩
    rintro _ ⟨⟩
    exact ⟨List.mem_append_right _ List.mem_cons_self, rfl⟩
  | expire now =>
    obtain ⟨hdue, h⟩ := Option.ite_none_right_eq_some.mp h
    cases h
    obtain ⟨armed, harmed, rfl⟩ := Option.map_eq_some_iff.mp hdue
    have hlater : s.clock ≤ max s.timer.expiry armed := by
      rw [← (hs.waiting armed harmed).2]
      exact le_max_right _ _
    refine ⟨hs.ready.handlePacketTimeout, hs.expiry, ?_, hs.startedBefore.trans hlater, nofun⟩
    exact fun commit hcommit => ⟨(hs.range commit hcommit).1, (hs.range commit hcommit).2.trans hlater⟩

private theorem handlePacketTimeout_pushes (s : CompactASN1Subscriber) :
    s.handlePacketTimeout.pushed ≠ s.pushed ↔ s.partialData.isSome := by
  unfold CompactASN1Subscriber.handlePacketTimeout
  cases hpartial : s.partialData with
  | none => simp
  | some ev => simp [CompactASN1Subscriber.pushPartialEvent_of_some hpartial,
      CompactASN1Subscriber.clearUnprocessedData, CompactASN1Subscriber.consumeTo]

/-- One transition: the wait that completes was started by the last data. -/
theorem quiet_iff_dataOnlyAtInit {env : Surroundings} {s t : TimedSubscriber} {a : TimedAction}
    (hs : TimerInvariant s) (h : step env s a = some t) : QuietBeforePush s a t ↔ DataOnlyAtInit s a := by
  cases a with
  | commitData now data => exact Iff.rfl
  | expire now =>
    obtain ⟨hdue, h⟩ := Option.ite_none_right_eq_some.mp h
    cases h
    obtain ⟨armed, harmed, rfl⟩ := Option.map_eq_some_iff.mp hdue
    obtain ⟨hmem, hclock⟩ := hs.waiting armed harmed
    have hexpiry := hs.expiry
    refine imp_congr (handlePacketTimeout_pushes _) ⟨fun hquiet => ?_, fun hinit commit hcommit => ?_⟩
    · have hlast := hquiet armed hmem
      by_cases hzero : s.packetTimeout = 0
      · exact .inl hzero
      · refine .inr fun commit hcommit => ?_
        have hrange := hs.range commit hcommit
        omega
    · have hrange := hs.range commit hcommit
      rcases hinit with hzero | hstarted
      · omega
      · have harmedstart := hstarted armed hmem
        omega

/-- Every event pushed by a timeout has waited for the configured time exactly if no timeout finds
a partial event after data has arrived later than at the moment of `init`. -/
theorem quiet_before_push_iff_data_only_at_init (env : Surroundings) (settings : TransmissionChannel) (now : Int)
    (s : TimedSubscriber) (hinit : init now settings = .ok s) (actions : List TimedAction) :
    LabelledRun.Along (step env) QuietBeforePush s actions ↔
      LabelledRun.Along (step env) (fun s a _ => DataOnlyAtInit s a) s actions := by
  refine LabelledRun.along_iff TimerInvariant ?_ (timerInvariant_init hinit)
  intro s a t hs h
  exact ⟨quiet_iff_dataOnlyAtInit hs h, fun _ => timerInvariant_step hs h⟩

/-- The subscriber of a channel with two truth values, started at time zero with the default timeout. -/
def pairSubscriber : TimedSubscriber := (init 0 pairChannel).toOption.get (by decide +kernel)

/-- The only data arrives at once, so that the timer fires as configured. -/
theorem quiet_before_push_at_start :
    init 0 pairChannel = .ok pairSubscriber ∧
    LabelledRun.Along (step .exact) QuietBeforePush pairSubscriber [.commitData 0 [0x41], .expire 500000] :=
  ⟨Fallible.eq_ok_get _, (quiet_before_push_iff_data_only_at_init .exact pairChannel 0 pairSubscriber
    (Fallible.eq_ok_get _) _).mpr (by decide +kernel)⟩

/-- The first half of a message arrives later than the timeout after `init` and is given no time. -/
theorem late_data_pushed_at_once :
    ∃ t, LabelledRun.exec (step .exact) pairSubscriber [.commitData 600000 [0x41], .expire 600000] = some t ∧
      t.decoder.pushed.length = 1 ∧
      ¬LabelledRun.Along (step .exact) QuietBeforePush pairSubscriber
        [.commitData 600000 [0x41], .expire 600000] :=
  LabelledRun.exec_of_any _ _ _ _ (by decide +kernel)

end TimedSubscriber
end FMITerminalBlock.Network
