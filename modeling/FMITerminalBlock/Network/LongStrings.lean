import FMITerminalBlock.Network.Transmission

/-! Values that do not fit the format. The length field of a string holds 16 bits of its size, and the
tags of truth values hold one bit. What is sent is always the encoding of a value that fits. -/
namespace FMITerminalBlock.Network
open Base Timing ASN1Commons

/-- What arrives of a value. -/
def arriving : Value → Value
  | .boolean value => .boolean (if value ≠ 0 then fmiTrue else fmiFalse)
  | .string value => .string (value.take (value.length % 2 ^ 16))
  | value => value

theorem encodeString_arriving (value : StdString) :
    CompactASN1Publisher.encodeString (value.take (value.length % 2 ^ 16)) =
      CompactASN1Publisher.encodeString value := by
  have hlength : (value.take (value.length % 2 ^ 16)).length = value.length % 2 ^ 16 :=
    List.length_take_of_le (Nat.mod_le _ _)
  simp only [CompactASN1Publisher.encodeString, hlength, Nat.mod_mod, List.take_take, min_self]

theorem encodeBoolean_arriving (value : UInt8) :
    CompactASN1Publisher.encodeBoolean (if value ≠ 0 then fmiTrue else fmiFalse) =
      CompactASN1Publisher.encodeBoolean value := by
  by_cases hzero : value = 0
  · rw [if_neg (not_not.mpr hzero), hzero]
    rfl
  · rw [if_pos hzero]
    simp only [CompactASN1Publisher.encodeBoolean, if_pos hzero]
    rfl

/-- The bytes sent for a value are those of what arrives. -/
theorem encodeValue_arriving (toFloat : BitVec 64 → BitVec 32) (type : DataType) (value : Value) :
    CompactASN1Publisher.encodeValue toFloat type (arriving value) =
      CompactASN1Publisher.encodeValue toFloat type value := by
  cases type <;> cases value <;> try rfl
  · exact congrArg some (encodeBoolean_arriving _)
  · exact congrArg some (encodeString_arriving _)

theorem transmissible_arriving (value : Value) : Transmissible (arriving value) := by
  cases value with
  | boolean value =>
    rw [arriving, Transmissible]
    split
    · exact .inl rfl
    · exact .inr rfl
  | string value =>
    have hlength := List.length_take_le (value.length % 2 ^ 16) value
    exact hlength.trans_lt (Nat.mod_lt _ (by norm_num))
  | _ => trivial

theorem isValid_arriving (v : Variable) : (Variable.mk v.id (arriving v.value)).isValid = v.isValid := by
  obtain ⟨⟨type, number⟩, value⟩ := v
  cases type <;> cases value <;> rfl

/-- An image with the values that arrive. -/
def arrivingImage (image : List Variable) : List Variable := image.map fun v => ⟨v.id, arriving v.value⟩

theorem encode_arrivingImage (toFloat : BitVec 64 → BitVec 32) (types : List DataType) (image : List Variable) :
    CompactASN1Publisher.encodeASN1OutputVariables toFloat ⟨arrivingImage image, types⟩ =
      CompactASN1Publisher.encodeASN1OutputVariables toFloat ⟨image, types⟩ := by
  have hlength : (arrivingImage image).length = image.length := List.length_map _
  have hvalues : (types.zip (arrivingImage image)).mapM
        (fun port => CompactASN1Publisher.encodeValue toFloat port.1 port.2.value) =
      (types.zip image).mapM fun port => CompactASN1Publisher.encodeValue toFloat port.1 port.2.value := by
    clear hlength
    induction image generalizing types with
    | nil => rfl
    | cons v image ih =>
      cases types with
      | nil => rfl
      | cons type types =>
        rw [arrivingImage, List.map_cons, List.zip_cons_cons, List.mapM_cons, ← arrivingImage, ih,
          encodeValue_arriving, List.zip_cons_cons, List.mapM_cons]
  simp only [CompactASN1Publisher.encodeASN1OutputVariables, hlength, hvalues]

theorem isImage_arriving {ports : List PortID} {image : List Variable} (hids : image.map Variable.id = ports)
    (hvalid : ∀ v ∈ image, v.isValid = true) : IsImage ports (arrivingImage image) := by
  refine ⟨?_, ?_, ?_⟩
  · rw [arrivingImage, List.map_map]
    exact hids
  · intro _ hmem
    obtain ⟨v, hv, rfl⟩ := List.mem_map.mp hmem
    rw [isValid_arriving]
    exact hvalid v hv
  · intro v hv
    obtain ⟨v, -, rfl⟩ := List.mem_map.mp hv
    exact transmissible_arriving v.value

/-- Every image makes one message, and every message makes one event: what does not fit is changed, but
no other port is affected. -/
theorem image_arrives {env : Surroundings} (henv : env.KeepsIdenticalTypes) (toFloat : BitVec 64 → BitVec 32)
    {ports receiverPorts : List PortID} {types : List DataType}
    (hencodings : List.Forall₂ (fun id type => CompactASN1Publisher.getDefaultType id.1 = some type) ports types)
    (hports : List.Forall₂ (fun id port : PortID => id.1 = port.1) receiverPorts ports) (hne : receiverPorts ≠ [])
    {image : List Variable} (hids : image.map Variable.id = ports) (hvalid : ∀ v ∈ image, v.isValid = true) :
    ∃ message, CompactASN1Publisher.encodeASN1OutputVariables toFloat ⟨image, types⟩ = some message ∧
      ∀ chunks : List (List UInt8), chunks.flatten = message →
        ∃ s pushed, CompactASN1Subscriber.commitAll env { portIDs := receiverPorts } chunks = some s ∧
          s.pushed = [pushed] ∧ s.partialData = none ∧ s.remainingRawData = [] ∧
          pushed.event.var = List.zipWith (fun id v => ⟨id, arriving v.value⟩) receiverPorts image := by
  have himage := isImage_arriving hids hvalid
  have hencode := CompactASN1Publisher.encode_image (p := ⟨arrivingImage image, types⟩) toFloat
    (himage.forall₂ hencodings.flip)
  rw [encode_arrivingImage] at hencode
  refine ⟨_, hencode, fun chunks hchunks => ?_⟩
  have hready := CompactASN1Subscriber.ready_new hne
  have hlength : ((arrivingImage image).map fun v => transmit v.value).length = receiverPorts.length := by
    rw [List.length_map, (himage.forall₂ hports).length_eq]
  obtain ⟨s, pushed, hs, -, hnone, hpushed, hvar⟩ := CompactASN1Subscriber.absorb_all
    (s := { portIDs := receiverPorts }) hlength hne rfl rfl
  have hcommit := CompactASN1Subscriber.commitAll_blocks env hready rfl himage.framed hchunks
  rw [hs] at hcommit
  refine ⟨_, pushed, hcommit, hpushed, hnone, rfl, ?_⟩
  rw [hvar, CompactASN1Subscriber.convertAll_transmit henv (himage.forall₂ hports), arrivingImage,
    List.zipWith_map_right]
  rfl

/-! ### Strings that are cut at the limit -/

/-- A value that is cut only where the format ends. -/
def cutToLimit : Value → Value
  | .string value => .string (value.take (min value.length 65535))
  | value => value

/-- The length of a string fits its field or fills it in the last bits, and truth values are `fmiTrue` or
`fmiFalse`. -/
def ArrivesCut : Value → Prop
  | .boolean value => value = fmiTrue ∨ value = fmiFalse
  | .string value => value.length < 65536 ∨ value.length % 65536 = 65535
  | _ => True

theorem arriving_eq_cutToLimit (value : Value) : arriving value = cutToLimit value ↔ ArrivesCut value := by
  cases value with
  | boolean value =>
    simp only [arriving, cutToLimit, ArrivesCut, Value.boolean.injEq]
    by_cases hzero : value = 0
    · simp [hzero, fmiTrue, fmiFalse]
    · simp [hzero, fmiTrue, fmiFalse, eq_comm]
  | string value =>
    rw [arriving, cutToLimit, ArrivesCut, Value.string.injEq, List.take_eq_take_iff]
    have hmod := Nat.mod_le value.length 65536
    have hlt := Nat.mod_lt value.length (show 65536 > 0 by norm_num)
    norm_num
    omega
  | _ => exact iff_of_true rfl trivial

theorem arriving_image_iff {ports : List PortID} {image : List Variable} (hlength : ports.length = image.length) :
    (List.zipWith (fun id v => ⟨id, arriving v.value⟩) ports image : List Variable) =
        List.zipWith (fun id v => ⟨id, cutToLimit v.value⟩) ports image ↔
      ∀ v ∈ image, ArrivesCut v.value := by
  induction image generalizing ports with
  | nil => simp
  | cons v image ih =>
    obtain ⟨id, ports, rfl⟩ := List.exists_cons_of_length_pos (by rw [hlength]; exact Nat.succ_pos _)
    rw [List.zipWith_cons_cons, List.zipWith_cons_cons, List.cons.injEq, ih (Nat.succ.inj hlength),
      List.forall_mem_cons, Variable.mk.injEq, arriving_eq_cutToLimit]
    exact and_congr_left fun _ => and_iff_right rfl

/-- Whatever the lengths of its strings, an image is received as one event. Its strings are cut at the
limit of the format and nothing else is changed if and only if every string fits its length field or fills
it in the last bits, and every truth value is `fmiTrue` or `fmiFalse`. -/
theorem strings_cut_at_limit_iff {env : Surroundings} (henv : env.KeepsIdenticalTypes)
    (toFloat : BitVec 64 → BitVec 32) {sender receiver : TransmissionChannel}
    (hknown : ∀ id ∈ sender.portIDs, id.1 ∈ FMIVariableType.known) (hne : sender.portIDs ≠ [])
    (hdefault : List.Forall₂ CompactASN1Publisher.DefaultEncoding sender.portIDs sender.portConfig)
    (htypes : receiver.portIDs.map Prod.fst = sender.portIDs.map Prod.fst) :
    ∃ p s, CompactASN1Publisher.init {} sender = (p, .ok ()) ∧
      CompactASN1Subscriber.init { portIDs := [] } receiver = .ok s ∧
      ∀ image : List Variable, image.map Variable.id = sender.portIDs → (∀ v ∈ image, v.isValid = true) →
        ∃ message, { p with outputVariables := image }.encodeASN1OutputVariables toFloat = some message ∧
          ∀ chunks : List (List UInt8), chunks.flatten = message →
            ∃ s' pushed, s.commitAll env chunks = some s' ∧ s'.pushed = [pushed] ∧
              s'.partialData = none ∧ s'.remainingRawData = [] ∧
              (pushed.event.var = List.zipWith (fun id v => ⟨id, cutToLimit v.value⟩) receiver.portIDs image ↔
                ∀ v ∈ image, ArrivesCut v.value) := by
  obtain ⟨vars, types, hsender, hreceiver, hne', hencodings, hports⟩ := exists_connected hknown hne hdefault htypes
  refine ⟨{ outputVariables := vars, outputTypes := types }, { portIDs := receiver.portIDs }, hsender, hreceiver, ?_⟩
  intro image hids hvalid
  obtain ⟨message, hmessage, hreceive⟩ := image_arrives henv toFloat hencodings hports hne' hids hvalid
  refine ⟨message, hmessage, fun chunks hchunks => ?_⟩
  obtain ⟨s', pushed, hs', hpushed, hnone, hempty, hvar⟩ := hreceive chunks hchunks
  refine ⟨s', pushed, hs', hpushed, hnone, hempty, ?_⟩
  have himage : receiver.portIDs.length = image.length := by rw [hports.length_eq, ← hids, List.length_map]
  rw [hvar, arriving_image_iff himage]

/-- The channel with one port of each type, connected to itself. -/
theorem strings_cut_at_limit_mixed_channel :
    ∃ p s, CompactASN1Publisher.init {} mixedChannel = (p, .ok ()) ∧
      CompactASN1Subscriber.init { portIDs := [] } mixedChannel = .ok s ∧
      ∀ image : List Variable, image.map Variable.id = mixedChannel.portIDs → (∀ v ∈ image, v.isValid = true) →
        ∃ message, { p with outputVariables := image }.encodeASN1OutputVariables (fun _ => 0) = some message ∧
          ∀ chunks : List (List UInt8), chunks.flatten = message →
            ∃ s' pushed, s.commitAll .exact chunks = some s' ∧ s'.pushed = [pushed] ∧
              s'.partialData = none ∧ s'.remainingRawData = [] ∧
              (pushed.event.var = List.zipWith (fun id v => ⟨id, cutToLimit v.value⟩) mixedChannel.portIDs image ↔
                ∀ v ∈ image, ArrivesCut v.value) :=
  strings_cut_at_limit_iff Surroundings.exact_keepsIdenticalTypes _ (by decide) (by decide)
    mixedChannel_defaultEncoding rfl

def textChannel : TransmissionChannel where
  channelConfig := .node [] []
  portIDs := [(.fmiTypeString, 0)]
  portConfig := [.node [] []]

theorem cutToLimit_ne_nil {value : StdString} (hpos : 0 < value.length) : cutToLimit (.string value) ≠ .string [] := by
  intro hnil
  have hlength := congrArg List.length (Value.string.inj hnil)
  rw [List.length_take, List.length_nil] at hlength
  omega

/-- The size of 65536 bytes looks like no bytes at all in the length field. -/
theorem long_string_received_empty :
    ∃ p s s' pushed, CompactASN1Publisher.init {} textChannel = (p, .ok ()) ∧
      CompactASN1Subscriber.init { portIDs := [] } textChannel = .ok s ∧
      { p with outputVariables := [⟨(.fmiTypeString, 0), .string (List.replicate 65536 97)⟩] }.encodeASN1OutputVariables
        (fun _ => 0) = some [0x50, 0, 0] ∧
      s.commitAll .exact [[0x50, 0, 0]] = some s' ∧ s'.pushed = [pushed] ∧
      pushed.event.var = [⟨(.fmiTypeString, 0), .string []⟩] ∧
      pushed.event.var ≠ [⟨(.fmiTypeString, 0), cutToLimit (.string (List.replicate 65536 97))⟩] := by
  have hmessage : CompactASN1Publisher.encodeString (List.replicate 65536 97) = [0x50, 0, 0] := by
    simp only [CompactASN1Publisher.encodeString, List.length_replicate]
    rfl
  refine ⟨_, _, _, _, rfl, rfl, ?_, rfl, rfl, rfl, ?_⟩
  · exact congrArg (fun block => some (block ++ [])) hmessage
  · intro hempty
    exact cutToLimit_ne_nil (by rw [List.length_replicate]; norm_num) (Variable.mk.inj (List.cons.inj hempty).1).2.symm

end FMITerminalBlock.Network
