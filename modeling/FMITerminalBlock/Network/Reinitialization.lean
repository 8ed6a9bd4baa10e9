import FMITerminalBlock.Network.PublishedMessages

/-! Publishers that are initialized a second time. The image is made anew, but the encodings of the
former ports stay in front of the new ones. -/
namespace FMITerminalBlock.Network.CompactASN1Publisher
open Base Timing ASN1Commons

/-- The channel leaves no encoding behind: it has no port, or the first one is refused. -/
def StoresNoType (channel : TransmissionChannel) : Prop :=
  ∀ port ∈ (channel.portIDs.zip channel.portConfig).head?, ∃ fault, outputType port.1 port.2 = .error fault

/-! ### Encodings of former ports -/

/-- The publisher with encodings in front of its own. -/
def behind (stale : List DataType) (p : CompactASN1Publisher) : CompactASN1Publisher :=
  { p with outputTypes := stale ++ p.outputTypes }

theorem initOutputTypes_behind (stale : List DataType) (ports : List (PortID × Ptree)) (p : CompactASN1Publisher) :
    initOutputTypes ports (p.behind stale) =
      ((initOutputTypes ports p).1.behind stale, (initOutputTypes ports p).2) := by
  induction ports generalizing p with
  | nil => rfl
  | cons port ports ih =>
    obtain ⟨id, portConfig⟩ := port
    rw [initOutputTypes, initOutputTypes]
    cases outputType id portConfig with
    | error fault => rfl
    | ok type =>
      have hbehind : { p.behind stale with outputTypes := (p.behind stale).outputTypes ++ [type] } =
          ({ p with outputTypes := p.outputTypes ++ [type] } : CompactASN1Publisher).behind stale := by
        rw [behind, behind, List.append_assoc]
      dsimp only
      rw [hbehind, ih]

/-- Nothing but the stored encodings is left of what the publisher was before. -/
theorem init_behind (p : CompactASN1Publisher) {channel : TransmissionChannel} {fresh : CompactASN1Publisher}
    (h : init {} channel = (fresh, .ok ())) : init p channel = (fresh.behind p.outputTypes, .ok ()) := by
  unfold init at h ⊢
  cases hvars : initOutputVariables channel.portIDs with
  | none =>
    rw [hvars] at h
    cases h
  | some vars =>
    rw [hvars] at h
    dsimp only at h ⊢
    have hstale : { p with outputVariables := vars } =
        ({ outputVariables := vars } : CompactASN1Publisher).behind p.outputTypes := by
      rw [behind, List.append_nil]
    rw [hstale, initOutputTypes_behind, h]

/-- Encodings stay behind also if a later port is refused. -/
theorem outputTypes_eq_nil_iff {channel : TransmissionChannel} (h : (init {} channel).2 ≠ .error .unknownType) :
    (init {} channel).1.outputTypes = [] ↔ StoresNoType channel := by
  unfold init at h ⊢
  cases hvars : initOutputVariables channel.portIDs with
  | none =>
    rw [hvars] at h
    exact absurd rfl h
  | some vars =>
    dsimp only
    rw [StoresNoType]
    cases channel.portIDs.zip channel.portConfig with
    | nil => exact iff_of_true rfl fun port hport => by cases hport
    | cons port ports =>
      obtain ⟨id, portConfig⟩ := port
      rw [initOutputTypes]
      cases htype : outputType id portConfig with
      | error fault =>
        apply iff_of_true rfl
        rintro _ ⟨⟩
        exact ⟨fault, htype⟩
      | ok type =>
        refine iff_of_false ?_ fun hrefused => ?_
        · have hbehind := initOutputTypes_behind [type] ports { outputVariables := vars }
          intro hnil
          rw [behind, List.append_nil] at hbehind
          dsimp only at hnil
          rw [List.nil_append, hbehind] at hnil
          cases hnil
        · obtain ⟨fault, hfault⟩ := hrefused _ rfl
          rw [htype] at hfault
          cases hfault

/-! ### The messages -/

/-- The sizes of image and encodings differ, so no message can be encoded. -/
theorem encode_behind (toFloat : BitVec 64 → BitVec 32) {p : CompactASN1Publisher} {stale : List DataType}
    (hstale : stale ≠ []) (hlength : p.outputVariables.length = p.outputTypes.length) (vars : List Variable) :
    encodeASN1OutputVariables toFloat
      { p.behind stale with outputVariables := p.outputVariables.map (overwrite vars) } = none := by
  have hpos := List.length_pos_iff.mpr hstale
  rw [encodeASN1OutputVariables, if_neg]
  rw [behind, List.length_map, List.length_append]
  omega

/-- Publishers of the same ports that cannot encode any message send the same: nothing. -/
theorem publish_congr (toFloat : BitVec 64 → BitVec 32) {p q : CompactASN1Publisher}
    (hports : p.outputVariables = q.outputVariables)
    (hp : ∀ vars, encodeASN1OutputVariables toFloat
      { p with outputVariables := p.outputVariables.map (overwrite vars) } = none)
    (hq : ∀ vars, encodeASN1OutputVariables toFloat
      { q with outputVariables := q.outputVariables.map (overwrite vars) } = none)
    {events : List (List Variable)} (hvalid : ∀ vars ∈ events, ∀ v ∈ vars, v.isValid = true) :
    publish toFloat p events = publish toFloat q events := by
  by_cases hserved : ∃ vars ∈ events, ∃ v ∈ vars, v.id ∈ q.outputVariables.map Variable.id
  · rw [publish_eq_none toFloat hp hvalid (hports ▸ hserved), publish_eq_none toFloat hq hvalid hserved]
  · have hforeign : ∀ vars ∈ events, ∀ v ∈ vars, v.id ∉ q.outputVariables.map Variable.id :=
      fun vars hvars v hv hid => hserved ⟨vars, hvars, v, hv, hid⟩
    rw [publish_foreign toFloat (hports ▸ hforeign), publish_foreign toFloat hforeign]

/-- The initial value of the first port, sent as an event, tells the publishers apart. -/
theorem exists_differing_event (toFloat : BitVec 64 → BitVec 32) {channel : TransmissionChannel}
    (hsizes : channel.portIDs.length = channel.portConfig.length) (hports : channel.portIDs ≠ [])
    (hreal : ¬UsesREAL channel) {fresh : CompactASN1Publisher} (hinit : init {} channel = (fresh, .ok ()))
    {stale : List DataType} (hstale : stale ≠ []) :
    ∃ vars : List Variable, (∀ v ∈ vars, v.isValid = true) ∧
      publish toFloat (fresh.behind stale) [vars] ≠ publish toFloat fresh [vars] := by
  have hfollows := follows_init hsizes hinit
  have hids : fresh.outputVariables.map Variable.id = channel.portIDs := serves_init hinit
  have hne : fresh.outputVariables ≠ [] := by
    intro hnil
    rw [hnil] at hids
    exact hports hids.symm
  obtain ⟨v, rest, hv⟩ := List.exists_cons_of_ne_nil hne
  have hvalid : ∀ w ∈ [v], w.isValid = true := by
    have himage := hfollows.image
    rw [hv, List.forall₂_cons_right_iff] at himage
    obtain ⟨_, _, ⟨-, hout, -⟩, -⟩ := himage
    exact List.forall_mem_singleton.mpr hout
  have hserved : v.id ∈ fresh.outputVariables.map Variable.id := by
    rw [hv]
    exact List.mem_cons_self
  have hlength : fresh.outputVariables.length = fresh.outputTypes.length :=
    hfollows.image.length_eq.symm.trans hfollows.types.length_eq
  obtain ⟨messages, hpublished, -⟩ := hfollows.publish toFloat hreal hsizes
    (List.forall_mem_singleton.mpr hvalid)
  refine ⟨[v], hvalid, ?_⟩
  rw [publish_eq_none (p := fresh.behind stale) toFloat (encode_behind toFloat hstale hlength)
    (List.forall_mem_singleton.mpr hvalid) ⟨[v], List.mem_singleton_self _, v, List.mem_singleton_self v, hserved⟩,
    hpublished]
  exact (Option.some_ne_none messages).symm

/-- A second initialization with an accepted channel always succeeds. The publisher then sends the
messages of a new one for all events if and only if the first channel left no encoding behind, or the
second one has no ports, or it has 32 bit numbers, with which a new publisher sends nothing either. -/
theorem reinitialized_sends_same_iff (toFloat : BitVec 64 → BitVec 32) {first second : TransmissionChannel}
    (hfirst : (init {} first).2 ≠ .error .unknownType)
    (hsizes : second.portIDs.length = second.portConfig.length) {fresh : CompactASN1Publisher}
    (hsecond : init {} second = (fresh, .ok ())) :
    ∃ p, init (init {} first).1 second = (p, .ok ()) ∧
      ((∀ events : List (List Variable), (∀ vars ∈ events, ∀ v ∈ vars, v.isValid = true) →
          publish toFloat p events = publish toFloat fresh events) ↔
        StoresNoType first ∨ second.portIDs = [] ∨ UsesREAL second) := by
  refine ⟨_, init_behind _ hsecond, ?_⟩
  rw [← outputTypes_eq_nil_iff hfirst]
  constructor
  · intro hsame
    by_contra hnone
    obtain ⟨hstale, hnone⟩ := not_or.mp hnone
    obtain ⟨hports, hreal⟩ := not_or.mp hnone
    obtain ⟨vars, hvalid, hdiffers⟩ := exists_differing_event toFloat hsizes hports hreal hsecond hstale
    exact hdiffers (hsame [vars] (List.forall_mem_singleton.mpr hvalid))
  · rintro (hstale | hports | hreal) events hvalid
    · rw [hstale]
      rfl
    · have hids : fresh.outputVariables.map Variable.id = second.portIDs := serves_init hsecond
      have hforeign : ∀ vars ∈ events, ∀ v ∈ vars, v.id ∉ fresh.outputVariables.map Variable.id := by
        rw [hids, hports]
        exact fun _ _ _ _ => List.not_mem_nil
      rw [publish_foreign toFloat (p := fresh.behind _) hforeign, publish_foreign toFloat hforeign]
    · have hmem := (follows_init hsizes hsecond).usesREAL hsizes hreal
      exact publish_congr (p := fresh.behind _) (q := fresh) toFloat rfl
        (fun _ => encodeASN1OutputVariables_eq_none toFloat (List.mem_append_right _ hmem))
        (fun _ => encodeASN1OutputVariables_eq_none toFloat hmem) hvalid

/-- The first port is accepted and the second one is not. -/
def refusedChannel : TransmissionChannel where
  channelConfig := .node [] []
  portIDs := [(.fmiTypeReal, 0), (.fmiTypeInteger, 0)]
  portConfig := [.node [] [], .node [] [(propEncodeType, .node (ascii "BOOL") [])]]

theorem reinitialized_sends_same_refused :
    ∃ p, init (init {} refusedChannel).1 repeatedChannel = (p, .ok ()) ∧
      ((∀ events : List (List Variable), (∀ vars ∈ events, ∀ v ∈ vars, v.isValid = true) →
          publish (fun _ => 0) p events = publish (fun _ => 0) (init {} repeatedChannel).1 events) ↔
        StoresNoType refusedChannel ∨ repeatedChannel.portIDs = [] ∨ UsesREAL repeatedChannel) := by
  have hrefused : (init {} refusedChannel).2 ≠ .error .unknownType := by
    intro hunknown
    cases hunknown
  have hsecond : init {} repeatedChannel = ((init {} repeatedChannel).1, .ok ()) := rfl
  exact reinitialized_sends_same_iff _ hrefused rfl hsecond

def truthChannel : TransmissionChannel where
  channelConfig := .node [] []
  portIDs := [(.fmiTypeBoolean, 0)]
  portConfig := [.node [] []]

/-- One port, the same channel twice: where a new publisher sends its message, the assertion on the
sizes fails. -/
theorem reinitialized_sends_nothing :
    init {} truthChannel = ((init {} truthChannel).1, .ok ()) ∧
    init (init {} truthChannel).1 truthChannel = ((init (init {} truthChannel).1 truthChannel).1, .ok ()) ∧
    (∀ v ∈ [(⟨(.fmiTypeBoolean, 0), .boolean fmiTrue⟩ : Variable)], v.isValid = true) ∧
    publish (fun _ => 0) (init {} truthChannel).1 [[⟨(.fmiTypeBoolean, 0), .boolean fmiTrue⟩]] = some [some [0x41]] ∧
    publish (fun _ => 0) (init (init {} truthChannel).1 truthChannel).1
      [[⟨(.fmiTypeBoolean, 0), .boolean fmiTrue⟩]] = none :=
  ⟨rfl, rfl, by decide, rfl, rfl⟩

end FMITerminalBlock.Network.CompactASN1Publisher
