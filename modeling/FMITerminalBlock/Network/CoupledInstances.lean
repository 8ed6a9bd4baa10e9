import Mathlib.Data.List.ReduceOption
import FMITerminalBlock.Network.PublishedMessages
import FMITerminalBlock.Network.Transmission

/-! Two instances that are coupled by a channel. At every moment the receiving one has pushed the
outputs of the sending one as they were after each of the first messages, and never a mixture. -/
namespace FMITerminalBlock.Network
open Base Timing ASN1Commons

/-! ### The sending instance -/

namespace CompactASN1Publisher

/-- The histories of the outputs at which a message is sent. -/
def sentHistories (ports : List PortID) : List Variable → List (List Variable) → List (List Variable)
  | _, [] => []
  | history, vars :: events =>
    if vars.any fun v => ports.contains v.id then (history ++ vars) :: sentHistories ports (history ++ vars) events
    else sentHistories ports (history ++ vars) events

/-- The image of the outputs after a history. -/
structure Mirrors (ports : List PortID) (history image : List Variable) : Prop extends IsImage ports image where
  values : image.map (fun v => some v.value) = ports.map (portValue history)

variable {ports : List PortID} {configs : List Ptree} {history vars : List Variable} {p : CompactASN1Publisher}

theorem transmissible_initial {id : PortID} {value : Value} (h : initialValue id.1 = some value) :
    Transmissible value := by
  obtain ⟨type, number⟩ := id
  cases type with
  | fmiTypeReal => cases h; trivial
  | fmiTypeInteger => cases h; trivial
  | fmiTypeBoolean => cases h; exact .inr rfl
  | fmiTypeString => cases h; exact Nat.two_pow_pos 16
  | fmiTypeUnknown => cases h

theorem portValue_transmissible (hhistory : ∀ v ∈ history, Transmissible v.value) {id : PortID} {value : Value}
    (h : portValue history id = some value) : Transmissible value := by
  rw [portValue] at h
  split at h
  · rename_i v hlast
    cases h
    exact hhistory v (lastVariable_mem hlast).1
  · exact transmissible_initial h

theorem Follows.mirrors (hsizes : ports.length = configs.length) (h : Follows (ports.zip configs) history p)
    (hhistory : ∀ v ∈ history, Transmissible v.value) : Mirrors ports history p.outputVariables := by
  have hids : p.outputVariables.map Variable.id = ports := by
    rw [h.ids, List.map_fst_zip hsizes.le]
  have hout : ∀ out ∈ p.outputVariables, out.isValid = true ∧ portValue history out.id = some out.value := by
    intro out hmem
    obtain ⟨i, hi, rfl⟩ := List.mem_iff_getElem.mp hmem
    obtain ⟨hid, hvalid, hvalue⟩ := h.image.get (h.image.length_eq.symm ▸ hi) hi
    exact ⟨hvalid, hid ▸ hvalue⟩
  refine ⟨⟨hids, fun out hmem => (hout out hmem).1, fun out hmem => ?_⟩, ?_⟩
  · exact portValue_transmissible hhistory (hout out hmem).2
  · rw [← hids, List.map_map]
    exact List.map_congr_left fun out hmem => (hout out hmem).2.symm

/-- The bytes of an image, value by value. -/
def imageBytes (image : List Variable) : List UInt8 := (image.map fun v => transmit v.value).flatMap Prod.fst

/-- Whatever events come, each message is the image of the outputs at its moment. -/
theorem publish_images (toFloat : BitVec 64 → BitVec 32) (hsizes : ports.length = configs.length)
    {events : List (List Variable)} (hvalid : ∀ vars ∈ events, ∀ v ∈ vars, v.isValid = true)
    (hevents : ∀ vars ∈ events, ∀ v ∈ vars, Transmissible v.value) (h : Follows (ports.zip configs) history p)
    (hhistory : ∀ v ∈ history, Transmissible v.value)
    (htypes : List.Forall₂ (fun id type => getDefaultType id.1 = some type) ports p.outputTypes) :
    ∃ messages images, publish toFloat p events = some messages ∧ messages.reduceOption = images.map imageBytes ∧
      List.Forall₂ (Mirrors ports) (sentHistories ports history events) images := by
  induction events generalizing history p with
  | nil => exact ⟨[], [], rfl, rfl, .nil⟩
  | cons vars events ih =>
    have hvars := hvalid vars List.mem_cons_self
    have hnext := h.update hvars
    have hhistory' : ∀ v ∈ history ++ vars, Transmissible v.value :=
      List.forall_mem_append.mpr ⟨hhistory, hevents vars List.mem_cons_self⟩
    have himage := hnext.mirrors hsizes hhistory'
    obtain ⟨messages, images, hmessages, hbytes, hmirrors⟩ :=
      ih (fun w hw => hvalid w (List.mem_cons_of_mem _ hw)) (fun w hw => hevents w (List.mem_cons_of_mem _ hw))
        hnext hhistory' htypes
    have hids : p.outputVariables.map Variable.id = ports := by
      rw [h.ids, List.map_fst_zip hsizes.le]
    have hupdate := updateOutputVariables_eq hvars p
    rw [hids] at hupdate
    simp only [sentHistories, publish, eventTriggered, hupdate, Option.bind_eq_bind, Option.bind_some]
    have hany : (vars.any fun v => ports.contains v.id) = true ↔ ∃ v ∈ vars, v.id ∈ ports := by simp
    by_cases hsends : ∃ v ∈ vars, v.id ∈ ports
    · have hencoded := encode_image toFloat
        (p := { p with outputVariables := p.outputVariables.map (overwrite vars) }) (himage.forall₂ htypes.flip)
      refine ⟨some (imageBytes (p.outputVariables.map (overwrite vars))) :: messages,
        p.outputVariables.map (overwrite vars) :: images, ?_, ?_, ?_⟩
      · rw [if_pos (decide_eq_true hsends), hencoded, Option.bind_some, Option.bind_some, hmessages, Option.bind_some]
        rfl
      · rw [List.reduceOption_cons_of_some, hbytes, List.map_cons]
      · rw [if_pos (hany.mpr hsends)]
        exact .cons himage hmirrors
    · refine ⟨none :: messages, images, ?_, ?_, ?_⟩
      · rw [if_neg (by simpa using hsends), Option.bind_some, hmessages, Option.bind_some]
      · rw [List.reduceOption_cons_of_none, hbytes]
      · rw [if_neg fun h => hsends (hany.mp h)]
        exact hmirrors

end CompactASN1Publisher

/-! ### The receiving instance -/

namespace CompactASN1Subscriber
open CompactASN1Publisher

variable {env : Surroundings} {sender receiver : List PortID}

@[simp] theorem hold_pushed (s : CompactASN1Subscriber) (tail : List UInt8) : (s.hold env tail).pushed = s.pushed := by
  rw [hold]
  split
  · rfl
  · exact startEvent_pushed s

/-- The variables that the ports of the receiver get from an image. -/
def arrival (receiver : List PortID) (image : List Variable) : List Variable :=
  List.zipWith (fun id v => ⟨id, v.value⟩) receiver image

/-- Complete messages are pushed one by one. -/
theorem absorb_images (henv : env.KeepsIdenticalTypes)
    (hports : List.Forall₂ (fun id port : PortID => id.1 = port.1) receiver sender) (hne : receiver ≠ [])
    {images : List (List Variable)} (himages : ∀ image ∈ images, IsImage sender image) :
    ∃ s, (images.flatten.map fun v => transmit v.value).foldl (absorbBlock env) { portIDs := receiver } = s ∧
      s.portIDs = receiver ∧ s.partialData = none ∧
      s.pushed.map (fun pushed => pushed.event.var) = images.map (arrival receiver) := by
  have hlength : ∀ message ∈ images.map fun image => image.map fun v => transmit v.value,
      message.length = receiver.length := by
    intro message hmessage
    obtain ⟨image, himage, rfl⟩ := List.mem_map.mp hmessage
    rw [List.length_map, ((himages image himage).forall₂ hports).length_eq]
  obtain ⟨s, events, hs, hids, hnone, hpushed, hevents⟩ := absorb_messages env
    (s := { portIDs := receiver }) rfl hne hlength
  refine ⟨s, by rw [List.map_flatten, hs], hids, hnone, ?_⟩
  rw [hpushed, List.nil_append, hevents, List.map_map]
  exact List.map_congr_left fun image himage => convertAll_transmit henv ((himages image himage).forall₂ hports)

/-- The beginning of one more message leaves everything pushed as it is. -/
theorem absorb_beginning {s : CompactASN1Subscriber} (hnone : s.partialData = none)
    {blocks : List (List UInt8 × Received)} (hlength : blocks.length < s.portIDs.length) :
    (blocks.foldl (absorbBlock env) s).pushed = s.pushed := by
  by_cases hblocks : blocks = []
  · rw [hblocks, List.foldl_nil]
  · obtain ⟨ev, hev, -, hopen⟩ := startEvent_new env hnone
    obtain ⟨next, -, hpushed, -⟩ := absorb_some hlength hblocks hev hopen
    exact hpushed

theorem flatMap_imageBytes (images : List (List Variable)) :
    images.flatMap imageBytes = (images.flatten.map fun v => transmit v.value).flatMap Prod.fst := by
  induction images with
  | nil => rfl
  | cons image images ih =>
    rw [List.flatMap_cons, ih, List.flatten_cons, List.map_append, List.flatMap_append, imageBytes]

theorem framed_images {images : List (List Variable)} (himages : ∀ image ∈ images, IsImage sender image) :
    ∀ block ∈ images.flatten.map fun v => transmit v.value, Framed block.1 block.2 := by
  intro block hblock
  obtain ⟨v, hv, rfl⟩ := List.mem_map.mp hblock
  obtain ⟨image, himage, hv⟩ := List.mem_flatten.mp hv
  exact (himages image himage).framed _ (List.mem_map.mpr ⟨v, hv, rfl⟩)

/-- A new subscriber has pushed the messages of which all bytes have arrived, and no others. -/
theorem commitAll_images (henv : env.KeepsIdenticalTypes)
    (hports : List.Forall₂ (fun id port : PortID => id.1 = port.1) receiver sender) (hne : receiver ≠ [])
    {images : List (List Variable)} (himages : ∀ image ∈ images, IsImage sender image)
    {chunks : List (List UInt8)} {rest : List UInt8} (hchunks : images.flatMap imageBytes = chunks.flatten ++ rest) :
    ∃ past next tail s, images = past ++ next ∧ chunks.flatten = past.flatMap imageBytes ++ tail ∧
      commitAll env { portIDs := receiver } chunks = some s ∧
      s.pushed.map (fun pushed => pushed.event.var) = past.map (arrival receiver) ∧
      (tail = [] ∧ s.partialData = none ∧ s.remainingRawData = [] ∨
        ∃ image others, next = image :: others ∧ tail ≠ [] ∧ tail.length < (imageBytes image).length) := by
  have hready := ready_new hne
  have hend : Segmentation.Beginning imageBytes [] [] := .inl rfl
  obtain ⟨past, next, tail, rfl, harrived, -, htail⟩ :=
    Segmentation.exists_split hend ((List.append_nil _).trans hchunks)
  rw [List.append_nil] at htail
  have hpast : ∀ image ∈ past, IsImage sender image := fun image h => himages image (List.mem_append_left _ h)
  obtain ⟨s, hs, hids, hnone, hpushed⟩ := absorb_images henv hports hne hpast
  rcases htail with rfl | ⟨image, others, back, rfl, hbytes, htail, hback⟩
  · rw [List.append_nil, flatMap_imageBytes] at harrived
    have hcommit := commitAll_blocks env hready rfl (framed_images hpast) harrived
    rw [hs] at hcommit
    exact ⟨past, next, [], _, rfl, by rw [harrived, flatMap_imageBytes, List.append_nil], hcommit, hpushed,
      .inl ⟨rfl, hnone, rfl⟩⟩
  · -- The bytes end inside a message: after some of its values, and inside the next one.
    have himage : IsImage sender image := himages image (List.mem_append_right _ List.mem_cons_self)
    have hlast : Segmentation.Beginning Prod.fst ([] : List (List UInt8 × Received)) [] := .inl rfl
    rw [imageBytes] at hbytes
    obtain ⟨values, open', part, hvalues, htailparts, hrest, hpart⟩ :=
      Segmentation.exists_split hlast ((List.append_nil _).trans hbytes)
    rw [List.append_nil] at hpart hrest
    have hopen : open' ≠ [] := by
      rintro rfl
      exact hback (List.append_eq_nil_iff.mp hrest).2
    have hframed : ∀ block ∈ ((past.flatten.map fun v => transmit v.value) ++ values) ++ open',
        Framed block.1 block.2 := by
      rw [List.append_assoc, ← hvalues]
      exact List.forall_mem_append.mpr ⟨framed_images hpast, himage.framed⟩
    have hcommit := commitAll_beginning env hready rfl hframed hpart
      (by rw [harrived, htailparts, flatMap_imageBytes, List.flatMap_append, List.append_assoc])
    have hshort : values.length < receiver.length := by
      have hlength := congrArg List.length hvalues
      have hpos := List.length_pos_iff.mpr hopen
      have himages := (himage.forall₂ hports).length_eq
      rw [List.length_map, List.length_append] at hlength
      omega
    refine ⟨past, image :: others, tail, _, rfl, harrived, hcommit, ?_, .inr ⟨image, others, rfl, htail, ?_⟩⟩
    · rw [hold_pushed, List.foldl_append, hs, absorb_beginning hnone (hids ▸ hshort), hpushed]
    · have hpos := List.length_pos_iff.mpr hback
      rw [imageBytes, hbytes, List.length_append]
      omega

end CompactASN1Subscriber

/-! ### Both instances -/

open CompactASN1Publisher CompactASN1Subscriber

/-- The variables show on the receiver's ports what the sender's ports were after a history. -/
def Shows (sender receiver : List PortID) (history vars : List Variable) : Prop :=
  vars.map Variable.id = receiver ∧ vars.map (fun v => some v.value) = sender.map (portValue history)

theorem map_arrival {receiver : List PortID} {image : List Variable} (h : receiver.length = image.length) :
    (arrival receiver image).map Variable.id = receiver ∧
      (arrival receiver image).map Variable.value = image.map Variable.value := by
  induction receiver generalizing image with
  | nil =>
    obtain rfl := List.length_eq_zero_iff.mp h.symm
    exact ⟨rfl, rfl⟩
  | cons id receiver ih =>
    obtain ⟨v, image, rfl⟩ := List.exists_cons_of_length_pos (by rw [← h]; exact Nat.succ_pos _)
    obtain ⟨hids, hvalues⟩ := ih (Nat.succ.inj h)
    exact ⟨congrArg (id :: ·) hids, congrArg (v.value :: ·) hvalues⟩

theorem shows_arrival {sender receiver : List PortID} (hlength : receiver.length = sender.length)
    {history image : List Variable} (h : Mirrors sender history image) :
    Shows sender receiver history (arrival receiver image) := by
  have himage : receiver.length = image.length := by
    rw [hlength, ← h.ids, List.length_map]
  obtain ⟨hids, hvalues⟩ := map_arrival himage
  have hsome := congrArg (List.map some) hvalues
  rw [List.map_map, List.map_map] at hsome
  exact ⟨hids, hsome.trans h.values⟩

/-- What the subscriber has made of the messages that have arrived, and of the piece behind them. -/
theorem commitAll_shows {env : Surroundings} (henv : env.KeepsIdenticalTypes) (toFloat : BitVec 64 → BitVec 32)
    {sender receiver : TransmissionChannel} (hknown : ∀ id ∈ sender.portIDs, id.1 ∈ FMIVariableType.known)
    (hne : sender.portIDs ≠ []) (hdefault : List.Forall₂ DefaultEncoding sender.portIDs sender.portConfig)
    (htypes : receiver.portIDs.map Prod.fst = sender.portIDs.map Prod.fst) {events : List (List Variable)}
    (hvalid : ∀ vars ∈ events, ∀ v ∈ vars, v.isValid = true ∧ Transmissible v.value) {p : CompactASN1Publisher}
    (hsender : CompactASN1Publisher.init {} sender = (p, .ok ())) {s : CompactASN1Subscriber}
    (hreceiver : CompactASN1Subscriber.init { portIDs := [] } receiver = .ok s)
    {messages : List (Option (List UInt8))} (hmessages : publish toFloat p events = some messages) :
    messages.reduceOption.length = (sentHistories sender.portIDs [] events).length ∧
    ∀ (chunks : List (List UInt8)) (rest : List UInt8), chunks.flatten ++ rest = messages.reduceOption.flatten →
      ∃ k s' tail, s.commitAll env chunks = some s' ∧
        chunks.flatten = (messages.reduceOption.take k).flatten ++ tail ∧
        List.Forall₂ (Shows sender.portIDs receiver.portIDs)
          ((sentHistories sender.portIDs [] events).take k) (s'.pushed.map fun pushed => pushed.event.var) ∧
        (tail = [] ∧ s'.partialData = none ∧ s'.remainingRawData = [] ∨
          ∃ message, messages.reduceOption[k]? = some message ∧ tail ≠ [] ∧ tail.length < message.length) := by
  obtain ⟨vars, types, hsender', hreceiver', hne', hencodings, hports⟩ := exists_connected hknown hne hdefault htypes
  obtain rfl : (⟨vars, types⟩ : CompactASN1Publisher) = p := congrArg Prod.fst (hsender'.symm.trans hsender)
  obtain rfl : ({ portIDs := receiver.portIDs } : CompactASN1Subscriber) = s :=
    Except.ok.inj (hreceiver'.symm.trans hreceiver)
  have hsizes := hdefault.length_eq
  obtain ⟨messages', images, hpublished, hbytes, hmirrors⟩ :=
    publish_images toFloat hsizes (fun vars h v hv => (hvalid vars h v hv).1)
      (fun vars h v hv => (hvalid vars h v hv).2) (follows_init hsizes hsender) (List.forall_mem_nil _) hencodings
  obtain rfl : messages' = messages := Option.some.inj (hpublished.symm.trans hmessages)
  refine ⟨by rw [hbytes, List.length_map, hmirrors.length_eq], ?_⟩
  intro chunks rest hchunks
  have himages : ∀ image ∈ images, IsImage sender.portIDs image := by
    intro image himage
    obtain ⟨i, hi, rfl⟩ := List.mem_iff_getElem.mp himage
    exact (hmirrors.get (hmirrors.length_eq.symm ▸ hi) hi).toIsImage
  rw [hbytes] at hchunks ⊢
  obtain ⟨past, next, tail, s', rfl, harrived, hcommit, hpushed, htail⟩ :=
    commitAll_images henv hports hne' himages
      ((List.flatMap_def ..).trans hchunks.symm)
  have htake : (List.map imageBytes (past ++ next)).take past.length = past.map imageBytes := by
    rw [List.map_append, List.take_left' (List.length_map _)]
  refine ⟨past.length, s', tail, hcommit, ?_, ?_, ?_⟩
  · rw [htake, harrived, List.flatMap_def]
  · have hpast := List.forall₂_take_append _ _ _ hmirrors
    rw [hpushed, List.forall₂_map_right_iff]
    exact hpast.imp fun _ _ himage => shows_arrival hports.length_eq himage
  · refine htail.imp_right ?_
    rintro ⟨image, others, rfl, hstarted, hshort⟩
    refine ⟨imageBytes image, ?_, hstarted, hshort⟩
    simp

/-- Whatever events the sending instance distributes and however far their messages have arrived, in
whichever pieces: each complete message has led to one event, which shows the outputs of the sender
after the history the message was sent at, and no event shows anything else. -/
theorem receiver_shows_sent_outputs {env : Surroundings} (henv : env.KeepsIdenticalTypes)
    (toFloat : BitVec 64 → BitVec 32) {sender receiver : TransmissionChannel}
    (hknown : ∀ id ∈ sender.portIDs, id.1 ∈ FMIVariableType.known) (hne : sender.portIDs ≠ [])
    (hdefault : List.Forall₂ DefaultEncoding sender.portIDs sender.portConfig)
    (htypes : receiver.portIDs.map Prod.fst = sender.portIDs.map Prod.fst) (events : List (List Variable))
    (hvalid : ∀ vars ∈ events, ∀ v ∈ vars, v.isValid = true ∧ Transmissible v.value) :
    ∃ p s messages, CompactASN1Publisher.init {} sender = (p, .ok ()) ∧
      CompactASN1Subscriber.init { portIDs := [] } receiver = .ok s ∧
      publish toFloat p events = some messages ∧
      messages.reduceOption.length = (sentHistories sender.portIDs [] events).length ∧
      ∀ (chunks : List (List UInt8)) (rest : List UInt8),
        chunks.flatten ++ rest = messages.reduceOption.flatten →
        ∃ k s' tail, s.commitAll env chunks = some s' ∧
          chunks.flatten = (messages.reduceOption.take k).flatten ++ tail ∧
          List.Forall₂ (Shows sender.portIDs receiver.portIDs)
            ((sentHistories sender.portIDs [] events).take k) (s'.pushed.map fun pushed => pushed.event.var) ∧
          (tail = [] ∧ s'.partialData = none ∧ s'.remainingRawData = [] ∨
            ∃ message, messages.reduceOption[k]? = some message ∧ tail ≠ [] ∧ tail.length < message.length) := by
  obtain ⟨vars, types, hsender, hreceiver, -, hencodings, -⟩ := exists_connected hknown hne hdefault htypes
  have hsizes := hdefault.length_eq
  obtain ⟨messages, -, hmessages, -⟩ :=
    publish_images toFloat hsizes (fun vars h v hv => (hvalid vars h v hv).1)
      (fun vars h v hv => (hvalid vars h v hv).2) (follows_init hsizes hsender) (List.forall_mem_nil _) hencodings
  obtain ⟨hlength, hshows⟩ := commitAll_shows henv toFloat hknown hne hdefault htypes hvalid hsender hreceiver hmessages
  exact ⟨_, _, messages, hsender, hreceiver, hmessages, hlength, hshows⟩

/-- A number, an event of other ports, and then a text together with a truth value. -/
def mixedEvents : List (List Variable) :=
  [[⟨(.fmiTypeReal, 0), .real 0x3FF0000000000000#64⟩], [⟨(.fmiTypeReal, 7), .real 0⟩],
    [⟨(.fmiTypeString, 0), .string (ascii "a;b")⟩, ⟨(.fmiTypeBoolean, 0), .boolean fmiTrue⟩]]

theorem receiver_shows_sent_outputs_mixed :
    sentHistories mixedChannel.portIDs [] mixedEvents = [mixedEvents.flatten.take 1, mixedEvents.flatten] ∧
    ∃ p s messages, CompactASN1Publisher.init {} mixedChannel = (p, .ok ()) ∧
      CompactASN1Subscriber.init { portIDs := [] } mixedChannel = .ok s ∧
      publish (fun _ => 0) p mixedEvents = some messages ∧
      messages.reduceOption.length = (sentHistories mixedChannel.portIDs [] mixedEvents).length ∧
      ∀ (chunks : List (List UInt8)) (rest : List UInt8),
        chunks.flatten ++ rest = messages.reduceOption.flatten →
        ∃ k s' tail, s.commitAll .exact chunks = some s' ∧
          chunks.flatten = (messages.reduceOption.take k).flatten ++ tail ∧
          List.Forall₂ (Shows mixedChannel.portIDs mixedChannel.portIDs)
            ((sentHistories mixedChannel.portIDs [] mixedEvents).take k)
            (s'.pushed.map fun pushed => pushed.event.var) ∧
          (tail = [] ∧ s'.partialData = none ∧ s'.remainingRawData = [] ∨
            ∃ message, messages.reduceOption[k]? = some message ∧ tail ≠ [] ∧ tail.length < message.length) :=
  ⟨by decide, receiver_shows_sent_outputs Surroundings.exact_keepsIdenticalTypes _ (by decide) (by decide)
    mixedChannel_defaultEncoding rfl mixedEvents
    (by simp [mixedEvents, Transmissible, ascii, Variable.isValid, Value.anyCast])⟩

end FMITerminalBlock.Network
