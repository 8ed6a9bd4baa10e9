import FMITerminalBlock.Library.Fallible
import FMITerminalBlock.Network.ConcurrentSubscriber

/-! The manager of the publishers and subscribers. It starts a subscriber for every input channel; when
a later channel fails, the ones already started are destroyed with the list that holds them. -/
namespace FMITerminalBlock.Network
open Base

/-- What leaves the constructor by exception. -/
inductive StartFault where
  | configuration (ex : SystemConfigurationException)
  | runtime (what : String)

/-- The version of a virtual function that a call reaches. While a destructor of a base class runs,
the parts of the derived classes are gone. -/
inductive ClassLevel where
  | mostDerived | concurrentSubscriber
  deriving DecidableEq

/-- A subscriber as the manager and its own destructor see it. -/
structure ManagedSubscriber where
  thread : SubscriptionThread := .notStarted
  dynamicType : ClassLevel := .mostDerived
  deriving DecidableEq

/-- What is done to the subscriber with the given position in the list. -/
inductive SubscriberAction where
  | terminationRequest (position : Nat) (version : ClassLevel)
  | join (position : Nat)
  deriving DecidableEq

namespace ManagedSubscriber

def joinable (s : ManagedSubscriber) : Bool := s.thread ≠ .notStarted

/-- `ConcurrentSubscriber::terminate`. -/
def terminate (s : ManagedSubscriber) (position : Nat) : List SubscriberAction :=
  [.terminationRequest position s.dynamicType, .join position]

/-- The destructors of the derived classes come first and do nothing, then that of
`ConcurrentSubscriber` terminates a thread that was not terminated regularly. -/
def destroy (s : ManagedSubscriber) (position : Nat) : List SubscriberAction :=
  let s := { s with dynamicType := .concurrentSubscriber }
  if s.joinable then s.terminate position else []

end ManagedSubscriber

/-- The network entities of the build: which of them an identifier stands for, and what the
initialization of a new one for a channel leads to. -/
structure NetworkEntities (α : Type) where
  instantiate : StdString → Option α
  init : α → TransmissionChannel → Except StartFault α

namespace NetworkManager

def propProtocol : StdString := ascii "protocol"

/-- The body of the loop in `addChannels`. -/
def addChannel {α : Type} (entities : NetworkEntities α) (channel : TransmissionChannel) : Except StartFault α :=
  match channel.channelConfig.getChildOptional propProtocol with
  | none => .error (.configuration { what := "A channel's protocol identifier is not set" })
  | some protocol =>
    match entities.instantiate protocol.data with
    | none => .error (.configuration {
        what := "Unknown Protocol"
        config := some (propProtocol, protocol.data) })
    | some entity => entities.init entity channel

/-- The entities added before an exception stay in the list. -/
def addChannels {α : Type} (entities : NetworkEntities α) : List TransmissionChannel → List α →
    List α × Except StartFault Unit
  | [], list => (list, .ok ())
  | channel :: channels, list =>
    match addChannel entities channel with
    | .error ex => (list, .error ex)
    | .ok entity => addChannels entities channels (list ++ [entity])

/-- A list destroys its elements from the front. -/
def destroySubscribers (subscribers : List ManagedSubscriber) : List SubscriberAction :=
  subscribers.zipIdx.flatMap fun entry => entry.1.destroy entry.2

/-- `initAndStart` of a subscriber, whose own part is left to its class. -/
def initAndStart (init : StdString → TransmissionChannel → Option StartFault) (id : StdString)
    (s : ManagedSubscriber) (channel : TransmissionChannel) : Except StartFault ManagedSubscriber :=
  match init id channel with
  | some ex => .error ex
  | none => .ok { s with thread := .running }

/-- The subscriber classes of the build by their identifiers. -/
def subscriberEntities (known : StdString → Bool) (init : StdString → TransmissionChannel → Option StartFault) :
    NetworkEntities (StdString × ManagedSubscriber) where
  instantiate id := if known id then some (id, {}) else none
  init entity channel := (initAndStart init entity.1 entity.2 channel).map fun s => (entity.1, s)

/-- The constructor, with what it does to the subscribers when it is left by an exception. Then the
members are destroyed, but not the manager. -/
def construct {π : Type} (publishers : NetworkEntities π) (known : StdString → Bool)
    (init : StdString → TransmissionChannel → Option StartFault)
    (outputs inputs : List TransmissionChannel) : List SubscriberAction × Except StartFault (List ManagedSubscriber) :=
  match addChannels publishers outputs [] with
  | (_, .error ex) => ([], .error ex)
  | (_, .ok ()) =>
    match addChannels (subscriberEntities known init) inputs [] with
    | (subscribers, .error ex) => (destroySubscribers (subscribers.map (·.2)), .error ex)
    | (subscribers, .ok ()) => ([], .ok (subscribers.map (·.2)))

/-- The subscriber's own termination request has been executed before its thread was joined. -/
def StoppedBeforeJoin (actions : List SubscriberAction) (position : Nat) : Prop :=
  ∃ before after, actions = before ++ .join position :: after ∧ .terminationRequest position .mostDerived ∈ before

/-- A subscriber is started for the channel. -/
def Starts {α : Type} (entities : NetworkEntities α) (channel : TransmissionChannel) : Prop :=
  ∃ entity, addChannel entities channel = .ok entity

/-! ### A failing start -/

theorem addChannels_append {α : Type} {entities : NetworkEntities α} {first : List TransmissionChannel}
    (h : ∀ channel ∈ first, Starts entities channel) (rest : List TransmissionChannel) (list : List α) :
    ∃ started, first.mapM (addChannel entities) = .ok started ∧
      addChannels entities (first ++ rest) list = addChannels entities rest (list ++ started) := by
  induction first generalizing list with
  | nil => exact ⟨[], rfl, by rw [List.append_nil, List.nil_append]⟩
  | cons channel first ih =>
    obtain ⟨entity, hentity⟩ := h channel List.mem_cons_self
    obtain ⟨started, hstarted, hrest⟩ := ih (fun c hc => h c (List.mem_cons_of_mem _ hc)) (list ++ [entity])
    refine ⟨entity :: started, ?_, ?_⟩
    · rw [List.mapM_cons, hentity, hstarted]
      rfl
    · rw [List.cons_append, addChannels, hentity]
      dsimp only
      rw [hrest, List.append_assoc, List.singleton_append]

/-- The request of the most derived class is out of reach. -/
theorem mostDerived_notMem_destroySubscribers (subscribers : List ManagedSubscriber) (position : Nat) :
    .terminationRequest position .mostDerived ∉ destroySubscribers subscribers := by
  intro hmem
  obtain ⟨⟨s, i⟩, -, hmem⟩ := List.mem_flatMap.mp hmem
  rw [ManagedSubscriber.destroy] at hmem
  split at hmem
  · simp [ManagedSubscriber.terminate] at hmem
  · cases hmem

theorem join_mem_destroySubscribers {subscribers : List ManagedSubscriber}
    (hrunning : ∀ s ∈ subscribers, s.thread = .running) {position : Nat} (hposition : position < subscribers.length) :
    .join position ∈ destroySubscribers subscribers := by
  refine List.mem_flatMap.mpr ⟨(subscribers[position], position), ?_, ?_⟩
  · exact List.mk_mem_zipIdx_iff_getElem?.mpr (List.getElem?_eq_getElem hposition)
  · have hjoinable : ({ subscribers[position] with dynamicType := .concurrentSubscriber } :
        ManagedSubscriber).joinable = true := by
      simp [ManagedSubscriber.joinable, hrunning _ (List.getElem_mem hposition)]
    rw [ManagedSubscriber.destroy, if_pos hjoinable]
    exact List.mem_cons_of_mem _ List.mem_cons_self

theorem running_of_addChannel {known : StdString → Bool} {init : StdString → TransmissionChannel → Option StartFault}
    {channel : TransmissionChannel} {entity : StdString × ManagedSubscriber}
    (h : addChannel (subscriberEntities known init) channel = .ok entity) : entity.2.thread = .running := by
  rw [addChannel] at h
  split at h
  · cases h
  · split at h
    · cases h
    · obtain ⟨s, hs, rfl⟩ := Fallible.map_eq_ok.mp h
      rw [initAndStart] at hs
      split at hs
      · cases hs
      · cases hs
        rfl

/-- A start that fails at some channel stops the subscribers of the channels before it exactly if
there are none. All their threads are joined. -/
theorem failing_start_stops_subscribers_iff_none {π : Type} (publishers : NetworkEntities π)
    (known : StdString → Bool) (init : StdString → TransmissionChannel → Option StartFault)
    (outputs first rest : List TransmissionChannel) (failing : TransmissionChannel)
    (houtputs : ∀ channel ∈ outputs, Starts publishers channel)
    (hfirst : ∀ channel ∈ first, Starts (subscriberEntities known init) channel)
    (hfailing : ¬Starts (subscriberEntities known init) failing) :
    (∃ ex, (construct publishers known init outputs (first ++ failing :: rest)).2 = .error ex) ∧
    (∀ i < first.length, .join i ∈ (construct publishers known init outputs (first ++ failing :: rest)).1) ∧
    ((∀ i < first.length,
        StoppedBeforeJoin (construct publishers known init outputs (first ++ failing :: rest)).1 i) ↔ first = []) := by
  obtain ⟨_, -, hpublishers⟩ := addChannels_append houtputs [] []
  obtain ⟨started, hstarted, hsubscribers⟩ := addChannels_append hfirst (failing :: rest) []
  obtain ⟨ex, hex⟩ : ∃ ex, addChannel (subscriberEntities known init) failing = .error ex := by
    cases hadd : addChannel (subscriberEntities known init) failing with
    | error ex => exact ⟨ex, rfl⟩
    | ok entity => exact absurd ⟨entity, hadd⟩ hfailing
  have hconstruct : construct publishers known init outputs (first ++ failing :: rest) =
      (destroySubscribers (started.map (·.2)), .error ex) := by
    rw [List.append_nil] at hpublishers
    rw [construct, hpublishers, addChannels, hsubscribers, addChannels, hex]
    rfl
  have hlength : (started.map (·.2)).length = first.length := by
    rw [Fallible.mapM_eq_ok] at hstarted
    rw [List.length_map, hstarted.length_eq]
  have hrunning : ∀ s ∈ started.map (·.2), s.thread = .running := by
    intro s hs
    obtain ⟨entity, hentity, rfl⟩ := List.mem_map.mp hs
    obtain ⟨channel, -, hchannel⟩ := Fallible.mem_of_mapM_eq_ok hstarted hentity
    exact running_of_addChannel hchannel
  rw [hconstruct]
  refine ⟨⟨ex, rfl⟩, fun i hi => join_mem_destroySubscribers hrunning (hlength ▸ hi), fun hstopped => ?_, ?_⟩
  · by_contra hne
    obtain ⟨before, after, hactions, hmem⟩ := hstopped 0 (List.length_pos_iff.mpr hne)
    apply mostDerived_notMem_destroySubscribers (started.map (·.2)) 0
    dsimp only at hactions
    rw [hactions]
    exact List.mem_append_left _ hmem
  · rintro rfl i hi
    exact absurd hi (Nat.not_lt_zero i)

/-- A channel with the given protocol. -/
def channelOf (protocol : StdString) : TransmissionChannel where
  channelConfig := .node [] [(propProtocol, .node protocol [])]

/-- The build knows one protocol, and its subscribers always start. -/
def tcpOnly (id : StdString) : Bool := id = ascii "CompactASN.1-TCP"

def alwaysStarts (_ : StdString) (_ : TransmissionChannel) : Option StartFault := none

def noPublishers : NetworkEntities Unit where
  instantiate _ := none
  init _ _ := .ok ()

theorem starts_tcp : Starts (subscriberEntities tcpOnly alwaysStarts) (channelOf (ascii "CompactASN.1-TCP")) :=
  ⟨(ascii "CompactASN.1-TCP", { thread := .running }), rfl⟩

theorem not_starts_unknown : ¬Starts (subscriberEntities tcpOnly alwaysStarts) (channelOf (ascii "unknown")) :=
  fun ⟨_, h⟩ => nomatch h

theorem failing_start_first_channel :
    (∃ ex, (construct noPublishers tcpOnly alwaysStarts [] [channelOf (ascii "unknown")]).2 = .error ex) ∧
      ∀ i < 0, StoppedBeforeJoin
        (construct noPublishers tcpOnly alwaysStarts [] [channelOf (ascii "unknown")]).1 i := by
  have hstart := failing_start_stops_subscribers_iff_none noPublishers tcpOnly alwaysStarts [] [] []
    (channelOf (ascii "unknown")) nofun nofun not_starts_unknown
  exact ⟨hstart.1, hstart.2.2.mpr rfl⟩

/-- The first subscriber runs when the second channel turns out to have an unknown protocol. Only the
empty request of the base class comes before the join. -/
theorem running_subscriber_not_stopped :
    Starts (subscriberEntities tcpOnly alwaysStarts) (channelOf (ascii "CompactASN.1-TCP")) ∧
    (construct noPublishers tcpOnly alwaysStarts []
      [channelOf (ascii "CompactASN.1-TCP"), channelOf (ascii "unknown")]).1 =
        [.terminationRequest 0 .concurrentSubscriber, .join 0] ∧
    ¬StoppedBeforeJoin (construct noPublishers tcpOnly alwaysStarts []
      [channelOf (ascii "CompactASN.1-TCP"), channelOf (ascii "unknown")]).1 0 := by
  have hactions : (construct noPublishers tcpOnly alwaysStarts []
      [channelOf (ascii "CompactASN.1-TCP"), channelOf (ascii "unknown")]).1 =
        [.terminationRequest 0 .concurrentSubscriber, .join 0] := by decide +kernel
  refine ⟨starts_tcp, hactions, fun hstopped => ?_⟩
  obtain ⟨before, after, hsplit, hmem⟩ := hstopped
  have hrequest : SubscriberAction.terminationRequest 0 .mostDerived ∈
      [SubscriberAction.terminationRequest 0 .concurrentSubscriber, .join 0] := by
    rw [← hactions, hsplit]
    exact List.mem_append_left _ hmem
  exact absurd hrequest (by decide)

end NetworkManager
end FMITerminalBlock.Network
