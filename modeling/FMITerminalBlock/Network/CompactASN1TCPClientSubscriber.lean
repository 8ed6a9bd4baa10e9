import FMITerminalBlock.Library.Fallible
import FMITerminalBlock.Library.LabelledRun
import FMITerminalBlock.Network.EventPositions

/-! The subscriber behind a TCP connection that is opened anew after an end of file. The decoding
state is not touched by a reconnection. -/
namespace FMITerminalBlock.Network
open Base

variable {env : Surroundings}

/-- The subscriber, the number of bytes received on all connections and the positions at which
these begin. -/
structure CompactASN1TCPClientSubscriber where
  decoder : CompactASN1Subscriber
  received : Nat := 0
  connections : List Nat := [0]
  deriving DecidableEq

/-- What the network does to the subscriber: it hands over data, possibly none, and tells whether
the connection has ended, or the packet timer expires. -/
inductive NetworkAction where
  | receive (data : List UInt8) (eof : Bool)
  | packetTimeout
  deriving DecidableEq

namespace CompactASN1TCPClientSubscriber

/-- A reconnection that succeeds. The decoder keeps its state. -/
def syncReconnect (s : CompactASN1TCPClientSubscriber) : CompactASN1TCPClientSubscriber :=
  { s with connections := s.connections ++ [s.received] }

def handleReceive (env : Surroundings) (s : CompactASN1TCPClientSubscriber) (data : List UInt8) (eof : Bool) :
    Option CompactASN1TCPClientSubscriber :=
  (s.decoder.commitData env data).map fun decoder =>
    let s := { s with decoder, received := s.received + data.length }
    if eof then s.syncReconnect else s

def step (env : Surroundings) (s : CompactASN1TCPClientSubscriber) :
    NetworkAction → Option CompactASN1TCPClientSubscriber
  | .receive data eof => s.handleReceive env data eof
  | .packetTimeout => some { s with decoder := s.decoder.handlePacketTimeout }

def init (settings : TransmissionChannel) : Except SystemConfigurationException CompactASN1TCPClientSubscriber :=
  (CompactASN1Subscriber.init { portIDs := [] } settings).map fun decoder => { decoder }

/-- The bytes of an event stem from one connection, and the first byte of every connection begins
an event. -/
structure KeepsConnectionsApart (s : CompactASN1TCPClientSubscriber) : Prop where
  oneConnection : ∀ ev ∈ s.decoder.pushed, ∀ start ∈ s.connections, start ≤ ev.first ∨ ev.last ≤ start
  firstByte : ∀ start ∈ s.connections, start < s.received → start ∈ s.decoder.starts

/-- The first data of a connection finds no event under construction. -/
def CleanStart (s : CompactASN1TCPClientSubscriber) : NetworkAction → Prop
  | .receive data _ => data ≠ [] → s.received ∈ s.connections → s.decoder.partialData = none
  | .packetTimeout => True

/-- The event under construction begins on the current connection, unless this has not brought
any data yet. -/
structure ConnectionInvariant (s : CompactASN1TCPClientSubscriber) : Prop where
  ready : s.decoder.Ready
  stuck : s.decoder.Stuck
  total : s.decoder.consumed + s.decoder.remainingRawData.length = s.received
  ordered : s.decoder.front ≤ s.decoder.consumed
  connections : ∀ start ∈ s.connections, start ≤ s.decoder.front ∨ start = s.received
  pushed : ∀ ev ∈ s.decoder.pushed, ev.last ≤ s.decoder.consumed
  starts : ∀ position ∈ s.decoder.starts, position < s.received
  apart : s.KeepsConnectionsApart

theorem connectionInvariant_init {settings : TransmissionChannel} {s : CompactASN1TCPClientSubscriber}
    (h : init settings = .ok s) : ConnectionInvariant s := by
  obtain ⟨decoder, hdecoder, rfl⟩ := Fallible.map_eq_ok.mp h
  obtain ⟨rfl, hready⟩ := CompactASN1Subscriber.init_eq hdecoder
  refine ⟨hready, .inl rfl, rfl, le_rfl, fun start hstart => ?_, nofun, nofun, nofun, fun start _ hlater => ?_⟩
  · exact .inr (List.mem_singleton.mp hstart)
  · exact absurd hlater (Nat.not_lt_zero start)

theorem ConnectionInvariant.consumed_le {s : CompactASN1TCPClientSubscriber} (hs : ConnectionInvariant s) :
    s.decoder.consumed ≤ s.received := by
  have htotal := hs.total
  omega

theorem connectionInvariant_reconnect {s : CompactASN1TCPClientSubscriber} (hs : ConnectionInvariant s) :
    ConnectionInvariant s.syncReconnect := by
  refine ⟨hs.ready, hs.stuck, hs.total, hs.ordered, ?_, hs.pushed, hs.starts, ?_, ?_⟩
  · intro start hstart
    rcases List.mem_append.mp hstart with hold | hnew
    · exact hs.connections start hold
    · exact .inr (List.mem_singleton.mp hnew)
  · intro ev hev start hstart
    rcases List.mem_append.mp hstart with hold | hnew
    · exact hs.apart.oneConnection ev hev start hold
    · rw [List.mem_singleton.mp hnew]
      exact .inr ((hs.pushed ev hev).trans hs.consumed_le)
  · intro start hstart hlater
    rcases List.mem_append.mp hstart with hold | hnew
    · exact hs.apart.firstByte start hold hlater
    · rw [List.mem_singleton.mp hnew] at hlater
      exact absurd hlater (lt_irrefl _)

/-- The decoder may advance as long as the events that it pushes begin on the current connection. -/
private theorem ConnectionInvariant.advance {s : CompactASN1TCPClientSubscriber} (hs : ConnectionInvariant s)
    {decoder : CompactASN1Subscriber} {buffer : List UInt8} {received : Nat} (hready : decoder.Ready)
    (hstuck : decoder.Stuck) (hadvance : { s.decoder with remainingRawData := buffer }.Advances decoder)
    (htotal : decoder.consumed + decoder.remainingRawData.length = received) (hmore : s.received ≤ received)
    (hconnections : ∀ start ∈ s.connections, start ≤ s.decoder.front ∨ start = received)
    (hfirst : ∀ start ∈ s.connections, s.received ≤ start → start < received → start ∈ decoder.starts) :
    ConnectionInvariant { s with decoder, received } := by
  obtain ⟨new, hnew, hpositions⟩ := hadvance.pushed
  have hpushed {ev : PushedEvent} (hev : ev ∈ decoder.pushed) : ev ∈ s.decoder.pushed ∨ ev ∈ new := by
    rw [hnew] at hev
    exact List.mem_append.mp hev
  refine ⟨hready, hstuck, htotal, hadvance.ordered hs.ordered, ?_, ?_, ?_, ?_, ?_⟩
  · exact fun start hstart => (hconnections start hstart).imp_left fun h => h.trans hadvance.front
  · intro ev hev
    rcases hpushed hev with hold | hnew
    · exact (hs.pushed ev hold).trans hadvance.consumed
    · exact (hpositions ev hnew).2
  · intro position hposition
    rcases hadvance.fresh position hposition with hold | hnew
    · exact (hs.starts position hold).trans_le hmore
    · rw [← hadvance.total, htotal] at hnew
      exact hnew.2
  · intro ev hev start hstart
    rcases hpushed hev with hold | hnew
    · exact hs.apart.oneConnection ev hold start hstart
    · rcases hconnections start hstart with hfront | hreceived
      · exact .inl (hfront.trans (hpositions ev hnew).1)
      · have hlast := (hpositions ev hnew).2
        right
        omega
  · intro start hstart hlater
    by_cases hbefore : start < s.received
    · exact hadvance.starts start (hs.apart.firstByte start hstart hbefore)
    · exact hfirst start hstart (not_lt.mp hbefore) hlater

theorem connectionInvariant_timeout {s : CompactASN1TCPClientSubscriber} (hs : ConnectionInvariant s) :
    ConnectionInvariant { s with decoder := s.decoder.handlePacketTimeout } := by
  by_cases hpartial : s.decoder.partialData.isSome
  · have hadvance : s.decoder.Advances s.decoder.handlePacketTimeout := by
      rw [CompactASN1Subscriber.handlePacketTimeout, if_pos hpartial]
      exact (CompactASN1Subscriber.Advances.pushPartialEvent hs.ordered).trans (.clearUnprocessedData _)
    have hempty : s.decoder.handlePacketTimeout.remainingRawData = [] := by
      rw [CompactASN1Subscriber.handlePacketTimeout, if_pos hpartial]
      rfl
    refine hs.advance hs.ready.handlePacketTimeout (.inl hempty) hadvance (hadvance.total.trans hs.total)
      le_rfl hs.connections ?_
    exact fun start _ hge hlt => absurd hlt (not_lt.mpr hge)
  · rw [CompactASN1Subscriber.handlePacketTimeout, if_neg hpartial]
    exact hs

theorem connectionInvariant_receive {s : CompactASN1TCPClientSubscriber} (hs : ConnectionInvariant s)
    {data : List UInt8} (hdata : data ≠ []) (hclean : s.received ∈ s.connections → s.decoder.partialData = none)
    {decoder : CompactASN1Subscriber} (h : s.decoder.commitData env data = some decoder) :
    ConnectionInvariant { s with decoder, received := s.received + data.length } := by
  obtain ⟨r, hr, hready, hdecodes⟩ := CompactASN1Subscriber.commitData_spec env hs.ready data
  rw [hr] at h
  cases h
  obtain ⟨hadvance, hbegins⟩ := hdecodes.advances hs.ordered
  have htotal : decoder.consumed + decoder.remainingRawData.length = s.received + data.length := by
    rw [hadvance.total, ← hs.total]
    simp [Nat.add_assoc]
  have hconsumed := hs.consumed_le
  have hordered := hs.ordered
  -- Without an event under construction the front is the end of the received data.
  have hfront : ∀ start ∈ s.connections, start ≤ s.decoder.front := by
    intro start hstart
    rcases hs.connections start hstart with hfront | rfl
    · exact hfront
    · have hnone := hclean hstart
      have hempty : s.decoder.remainingRawData = [] :=
        hs.stuck.resolve_right fun h => by rw [hnone] at h; cases h.1
      have hat : s.decoder.front = s.decoder.consumed := by simp [CompactASN1Subscriber.front, hnone]
      rw [hat, ← hs.total, hempty, List.length_nil]
      exact le_rfl
  refine hs.advance hready hdecodes.stuck hadvance htotal (Nat.le_add_right _ _)
    (fun start hstart => .inl (hfront start hstart)) ?_
  intro start hstart hge _
  have hle := hfront start hstart
  have hsame : start = s.decoder.front := by omega
  rw [hsame]
  exact hbegins (List.append_ne_nil_of_right_ne_nil _ hdata)

theorem connectionInvariant_step {s t : CompactASN1TCPClientSubscriber} {a : NetworkAction}
    (hs : ConnectionInvariant s) (hclean : CleanStart s a) (h : step env s a = some t) : ConnectionInvariant t := by
  cases a with
  | receive data eof =>
    obtain ⟨decoder, hdecoder, rfl⟩ := Option.map_eq_some_iff.mp h
    have hreceived : ConnectionInvariant { s with decoder, received := s.received + data.length } := by
      by_cases hdata : data = []
      · subst hdata
        rw [hs.stuck.commitData_nil hs.ready] at hdecoder
        cases hdecoder
        exact hs
      · exact connectionInvariant_receive hs hdata (hclean hdata) hdecoder
    dsimp only
    split
    · exact connectionInvariant_reconnect hreceived
    · exact hreceived
  | packetTimeout =>
    cases h
    exact connectionInvariant_timeout hs

/-- Otherwise the first byte of the connection continues the event. -/
theorem cleanStart_of_apart {s t : CompactASN1TCPClientSubscriber} {a : NetworkAction}
    (hs : ConnectionInvariant s) (h : step env s a = some t) (hapart : KeepsConnectionsApart t) : CleanStart s a := by
  cases a with
  | receive data eof =>
    intro hdata hconnection
    obtain ⟨decoder, hdecoder, ht⟩ := Option.map_eq_some_iff.mp h
    obtain ⟨r, hr, -, hdecodes⟩ := CompactASN1Subscriber.commitData_spec env hs.ready data
    rw [hr] at hdecoder
    cases hdecoder
    have hlater : s.received < s.received + data.length :=
      Nat.lt_add_of_pos_right (List.length_pos_iff.mpr hdata)
    have hbegins : s.received ∈ decoder.starts := by
      subst ht
      cases eof with
      | false => exact hapart.firstByte s.received hconnection hlater
      | true => exact hapart.firstByte s.received (List.mem_append_left _ hconnection) hlater
    by_contra hpartial
    obtain ⟨ev, hev⟩ := Option.ne_none_iff_exists'.mp hpartial
    rcases hdecodes.starts_of_partial hs.ready hs.ordered hev rfl (hs.stuck.imp_right fun h => h.2) s.received hbegins
      with hold | hnew
    · exact absurd (hs.starts s.received hold) (lt_irrefl _)
    · rw [hs.total] at hnew
      exact absurd hnew (lt_irrefl _)
  | packetTimeout => trivial

/-- Connections are kept apart all along a run exactly if the first data of a connection never finds
an event under construction. -/
theorem connections_apart_iff_clean_starts (env : Surroundings) (settings : TransmissionChannel)
    (s : CompactASN1TCPClientSubscriber) (hinit : init settings = .ok s) (actions : List NetworkAction) :
    LabelledRun.Along (step env) (fun _ _ t => KeepsConnectionsApart t) s actions ↔
      LabelledRun.Along (step env) (fun s a _ => CleanStart s a) s actions := by
  refine LabelledRun.along_iff ConnectionInvariant ?_ (connectionInvariant_init hinit)
  intro s a t hs h
  have hclean : KeepsConnectionsApart t → CleanStart s a := cleanStart_of_apart hs h
  exact ⟨⟨hclean, fun hc => (connectionInvariant_step hs hc h).apart⟩,
    fun hapart => connectionInvariant_step hs (hclean hapart) h⟩

instance (s : CompactASN1TCPClientSubscriber) : Decidable s.KeepsConnectionsApart :=
  decidable_of_iff ((∀ ev ∈ s.decoder.pushed, ∀ start ∈ s.connections, start ≤ ev.first ∨ ev.last ≤ start) ∧
      ∀ start ∈ s.connections, start < s.received → start ∈ s.decoder.starts)
    ⟨fun h => ⟨h.1, h.2⟩, fun h => ⟨h.1, h.2⟩⟩

instance (s : CompactASN1TCPClientSubscriber) : (a : NetworkAction) → Decidable (CleanStart s a)
  | .receive data _ => inferInstanceAs (Decidable (data ≠ [] → s.received ∈ s.connections →
      s.decoder.partialData = none))
  | .packetTimeout => isTrue trivial

def pairClient : CompactASN1TCPClientSubscriber := (init pairChannel).toOption.get (by decide +kernel)

/-- A message, and half of another one that a timeout takes away before the new connection speaks. -/
theorem connections_apart_after_timeout :
    init pairChannel = .ok pairClient ∧
    LabelledRun.Along (step .exact) (fun _ _ t => KeepsConnectionsApart t) pairClient
      [.receive [0x41, 0x40, 0x41] false, .receive [] true, .packetTimeout, .receive [0x40, 0x41] false] :=
  ⟨Fallible.eq_ok_get _, (connections_apart_iff_clean_starts .exact pairChannel pairClient (Fallible.eq_ok_get _)
    _).mpr (by decide +kernel)⟩

/-- Half of a message of one connection is completed by the first byte of the next. -/
theorem connections_mixed_in_one_event :
    ∃ t, LabelledRun.exec (step .exact) pairClient [.receive [0x41] false, .receive [] true, .receive [0x40] false] =
        some t ∧
      ¬KeepsConnectionsApart t :=
  LabelledRun.exec_of_any _ _ _ _ (by decide +kernel)

end CompactASN1TCPClientSubscriber
end FMITerminalBlock.Network
