import FMITerminalBlock.Base.ChannelMapping
import Mathlib.Data.List.Forall2
import Mathlib.Data.Finset.Card

/-! Which identifiers the ports of a mapping get. The identifiers of a type are numbered in the
order in which its names first occur, starting at the counter the construction found. -/
namespace FMITerminalBlock.Base.ChannelMapping

/-- The port has the identifier of its name and type. -/
def Assigned (first : PortIDDrawer) (m : ChannelMapping) (port : Ptree) (id : PortID) : Prop :=
  ∃ type i, portType port = some type ∧ (m.variableNames type)[i]? = some port.data ∧
    id = (type, ((first.nextPortID type + i : Nat) : Int))

/-- What holds of a mapping while it is built, where `first` is the counter at the start and `d`
the counter reached. -/
structure Built (first d : PortIDDrawer) (m : ChannelMapping) : Prop where
  ids : ∀ type, m.variableIDs type = (List.range (m.variableNames type).length).map
    fun i => (type, ((first.nextPortID type + i : Nat) : Int))
  next : ∀ type, d.nextPortID type = first.nextPortID type + (m.variableNames type).length
  nodup : ∀ type, (m.variableNames type).Nodup
  assigned : ∀ channel ∈ m.channels, List.Forall₂ (Assigned first m) channel.portConfig channel.portIDs
  origin : ∀ type, ∀ name ∈ m.variableNames type,
    ∃ channel ∈ m.channels, ∃ port ∈ channel.portConfig, port.data = name ∧ portType port = some type

theorem Assigned.mono {first : PortIDDrawer} {m m' : ChannelMapping} {port : Ptree} {id : PortID}
    (h : Assigned first m port id) (hsub : ∀ type, m.variableNames type <+: m'.variableNames type) :
    Assigned first m' port id := by
  obtain ⟨type, i, htype, hget, rfl⟩ := h
  obtain ⟨rest, hrest⟩ := hsub type
  refine ⟨type, i, htype, ?_, rfl⟩
  have hi : i < (m.variableNames type).length := (List.getElem?_eq_some_iff.mp hget).1
  rw [← hrest, List.getElem?_append_left hi, hget]

/-- A name is looked up by its position, and a name that does not occur has no identifier. -/
theorem Built.getID {first d : PortIDDrawer} {m : ChannelMapping} (h : Built first d m)
    (name : StdString) (type : FMIVariableType) :
    (∃ i, (m.variableNames type)[i]? = some name ∧
      m.getID name type = (type, ((first.nextPortID type + i : Nat) : Int))) ∨
    name ∉ m.variableNames type ∧ m.getID name type = (.fmiTypeUnknown, -1) := by
  rw [ChannelMapping.getID]
  have hlen : (m.variableIDs type).length = (m.variableNames type).length := by simp [h.ids]
  cases hfind : ((m.variableNames type).zip (m.variableIDs type)).find? (·.1 == name) with
  | none =>
    refine .inr ⟨fun hmem => ?_, rfl⟩
    obtain ⟨i, hi, hname⟩ := List.getElem_of_mem hmem
    have hzip : (name, (m.variableIDs type)[i]) ∈ (m.variableNames type).zip (m.variableIDs type) := by
      rw [List.mem_iff_getElem]
      exact ⟨i, by simpa [hlen] using hi, by simp [hname]⟩
    simpa using List.find?_eq_none.mp hfind _ hzip
  | some x =>
    left
    obtain ⟨i, hi, hx⟩ := List.getElem_of_mem (List.mem_of_find?_eq_some hfind)
    have hname : x.1 = name := by simpa using List.find?_some hfind
    rw [List.length_zip, hlen, min_self] at hi
    refine ⟨i, ?_, ?_⟩
    · rw [List.getElem?_eq_getElem hi, ← hname, ← hx]
      simp
    · rw [Option.elim_some, ← hx, List.getElem_zip]
      simp [h.ids]

/-- A port appended to the last channel keeps the invariant, if the names only grew to hold it. -/
private theorem built_pushBackPort {first d d' : PortIDDrawer} {m m' : ChannelMapping}
    {channel : TransmissionChannel} {port : Ptree} {id : PortID} {type : FMIVariableType}
    (h : Built first d (m.addChannel channel)) (htype : portType port = some type)
    (hsub : ∀ t, m.variableNames t <+: m'.variableNames t)
    (hnew : ∀ t, ∀ name ∈ m'.variableNames t, name ∈ m.variableNames t ∨ name = port.data ∧ t = type)
    (hid : Assigned first m' port id) (hchannels : m'.channels = m.channels)
    (ids : ∀ t, m'.variableIDs t = (List.range (m'.variableNames t).length).map
      fun i => (t, ((first.nextPortID t + i : Nat) : Int)))
    (next : ∀ t, d'.nextPortID t = first.nextPortID t + (m'.variableNames t).length)
    (nodup : ∀ t, (m'.variableNames t).Nodup) :
    Built first d' (m'.addChannel (channel.pushBackPort id port)) := by
  refine ⟨ids, next, nodup, fun ch hch => ?_, fun t name hname => ?_⟩
  · have hmono {c : TransmissionChannel} (hc : c ∈ (m.addChannel channel).channels) :
        List.Forall₂ (Assigned first m') c.portConfig c.portIDs :=
      (h.assigned c hc).imp fun _ _ ha => Assigned.mono ha hsub
    simp only [addChannel, hchannels, List.mem_append, List.mem_singleton] at hch
    rcases hch with hch | rfl
    · exact hmono (List.mem_append_left _ hch)
    · have hlast := hmono (c := channel) (List.mem_append_right _ (List.mem_singleton_self _))
      exact List.rel_append hlast (.cons hid .nil)
  · rcases hnew t name hname with hold | ⟨rfl, rfl⟩
    · obtain ⟨ch, hch, p, hp, hdata, hpt⟩ := h.origin t name hold
      simp only [addChannel, List.mem_append, List.mem_singleton] at hch
      rcases hch with hch | rfl
      · exact ⟨ch, by simp [addChannel, hchannels, hch], p, hp, hdata, hpt⟩
      · exact ⟨ch.pushBackPort id port, by simp [addChannel], p,
          List.mem_append_left _ hp, hdata, hpt⟩
    · exact ⟨channel.pushBackPort id port, by simp [addChannel], port,
        List.mem_append_right _ (List.mem_singleton_self _), rfl, htype⟩

/-- One turn of the loop over the ports. -/
theorem built_addVariable {first d d' : PortIDDrawer} {m m' : ChannelMapping}
    {channel channel' : TransmissionChannel} {port : Ptree} (h : Built first d (m.addChannel channel))
    (hadd : addVariable d m channel port = .ok (d', m', channel')) :
    Built first d' (m'.addChannel channel') ∧ m'.channels = m.channels ∧
      channel'.portConfig = channel.portConfig ++ [port] ∧
      channel'.channelConfig = channel.channelConfig := by
  unfold addVariable at hadd
  split at hadd
  · cases hadd
  split at hadd
  · cases hadd
  rename_i type htype
  simp only [Except.ok.injEq, Prod.mk.injEq] at hadd
  rcases h.getID port.data type with ⟨i, hname, hid⟩ | ⟨hname, hid⟩
  · -- A known name gets the identifier it already has.
    have hassign : assignID d m port.data type = (_, d, m) :=
      if_neg (by rw [show m.getID port.data type = _ from hid]; exact not_lt.mpr (Int.natCast_nonneg _))
    rw [hassign] at hadd
    obtain ⟨rfl, rfl, rfl⟩ := hadd
    exact ⟨built_pushBackPort h htype (fun _ => List.prefix_rfl) (fun _ _ hn => .inl hn)
      ⟨type, i, htype, hname, hid⟩ rfl h.ids h.next h.nodup, rfl, rfl, rfl⟩
  · -- A new name is appended with the next number of its type.
    have hassign : assignID d m port.data type = _ :=
      if_pos (by rw [show m.getID port.data type = _ from hid]; decide)
    rw [hassign] at hadd
    obtain ⟨rfl, rfl, rfl⟩ := hadd
    have hids := h.ids
    have hnext := h.next
    have hnodup := h.nodup
    simp only [addChannel] at hids hnext hnodup hname
    refine ⟨built_pushBackPort h htype (fun t => ?_) (fun t name hn => ?_)
      ⟨type, (m.variableNames type).length, htype, ?_, ?_⟩ rfl (fun t => ?_) (fun t => ?_)
      (fun t => ?_), rfl, rfl, rfl⟩
    · by_cases ht : t = type <;> simp [ht]
    · by_cases ht : t = type
      · simp only [ht, if_true, List.mem_append, List.mem_singleton] at hn ⊢
        tauto
      · simp only [ht, if_false] at hn
        exact .inl hn
    · simp
    · rw [hnext type]
    · by_cases ht : t = type
      · subst ht
        simp [hids t, hnext t, List.range_succ]
      · simp [ht, hids t]
    · by_cases ht : t = type
      · subst ht
        simp [hnext t]; omega
      · simp [ht, hnext t]
    · by_cases ht : t = type
      · subst ht
        simpa [List.nodup_append] using ⟨hnodup t, fun a ha => fun he => hname (he ▸ ha)⟩
      · simpa [ht] using hnodup t

theorem built_addVariables {first : PortIDDrawer} {ports : List Ptree} {d d' : PortIDDrawer}
    {m m' : ChannelMapping} {channel channel' : TransmissionChannel}
    (h : Built first d (m.addChannel channel))
    (hadd : addVariables ports d m channel = (d', .ok (m', channel'))) :
    Built first d' (m'.addChannel channel') ∧ m'.channels = m.channels ∧
      channel'.portConfig = channel.portConfig ++ ports ∧
      channel'.channelConfig = channel.channelConfig := by
  induction ports generalizing d m channel with
  | nil => cases hadd; exact ⟨h, rfl, by simp, rfl⟩
  | cons port ports ih =>
    unfold addVariables at hadd
    split at hadd
    · cases hadd
    · rename_i d₁ m₁ channel₁ hone
      obtain ⟨h₁, hc₁, hp₁, hn₁⟩ := built_addVariable h hone
      obtain ⟨h₂, hc₂, hp₂, hn₂⟩ := ih h₁ hadd
      exact ⟨h₂, hc₂.trans hc₁, by rw [hp₂, hp₁]; simp, hn₂.trans hn₁⟩

private theorem built_addChannel {first d : PortIDDrawer} {m : ChannelMapping} (h : Built first d m)
    (prop : Ptree) : Built first d (m.addChannel { channelConfig := prop }) := by
  refine ⟨h.ids, h.next, h.nodup, fun ch hch => ?_, fun t name hname => ?_⟩
  · simp only [addChannel, List.mem_append, List.mem_singleton] at hch
    rcases hch with hch | rfl
    · exact h.assigned ch hch
    · exact .nil
  · obtain ⟨ch, hch, rest⟩ := h.origin t name hname
    exact ⟨ch, List.mem_append_left _ hch, rest⟩

/-- Every channel lists the ports that are configured with consecutive numbers. -/
def Listed (channel : TransmissionChannel) : Prop :=
  channel.portConfig = channel.channelConfig.consecutive

theorem built_addChannels {first : PortIDDrawer} {props : List Ptree} {d d' : PortIDDrawer}
    {m m' : ChannelMapping} (h : Built first d m) (hlisted : ∀ channel ∈ m.channels, Listed channel)
    (hadd : addChannels props d m = (d', .ok m')) :
    Built first d' m' ∧ (∀ channel ∈ m'.channels, Listed channel) ∧
      m'.channels.map (·.channelConfig) = m.channels.map (·.channelConfig) ++ props := by
  induction props generalizing d m with
  | nil => cases hadd; exact ⟨h, hlisted, by simp⟩
  | cons prop props ih =>
    unfold addChannels at hadd
    split at hadd
    · cases hadd
    · rename_i d₁ m₁ channel hone
      obtain ⟨h₁, hc, hp, hn⟩ := built_addVariables (built_addChannel h prop) hone
      have hlisted₁ : ∀ ch ∈ (m₁.addChannel channel).channels, Listed ch := by
        intro ch hch
        simp only [addChannel, hc, List.mem_append, List.mem_singleton] at hch
        rcases hch with hch | rfl
        · exact hlisted ch hch
        · rw [Listed, hp, hn]; rfl
      obtain ⟨h₂, hl₂, hmap⟩ := ih h₁ hlisted₁ hadd
      refine ⟨h₂, hl₂, ?_⟩
      rw [hmap]
      simp [addChannel, hc, hn]

/-- A construction that succeeds numbers its variables from the counter it found. -/
theorem make_built {d d' : PortIDDrawer} {prop : Ptree} {m : ChannelMapping}
    (h : make d prop = (d', .ok m)) :
    Built d d' m ∧ (∀ channel ∈ m.channels, Listed channel) ∧
      m.channels.map (·.channelConfig) = prop.consecutive := by
  have hempty : Built d d {} := ⟨fun _ => rfl, fun _ => rfl, fun _ => List.nodup_nil,
    fun ch hch => absurd hch List.not_mem_nil, fun t name hname => absurd hname List.not_mem_nil⟩
  simpa using built_addChannels hempty (fun ch hch => absurd hch List.not_mem_nil) h

/-! ### What follows for a finished mapping -/

section Finished
variable {first d : PortIDDrawer} {m : ChannelMapping}

theorem Built.mem_ports (h : Built first d m) {x : Ptree × PortID} (hx : x ∈ m.ports) :
    Assigned first m x.1 x.2 := by
  obtain ⟨channel, hc, hzip⟩ := List.mem_flatMap.mp hx
  exact (List.forall₂_iff_zip.mp (h.assigned channel hc)).2 hzip

/-- The variables of one type, as pairs of name and identifier. -/
theorem Built.mem_zip (h : Built first d m) {type : FMIVariableType} {name : StdString} {id : PortID} :
    (name, id) ∈ (m.variableNames type).zip (m.variableIDs type) ↔
      ∃ i, (m.variableNames type)[i]? = some name ∧
        id = (type, ((first.nextPortID type + i : Nat) : Int)) := by
  rw [h.ids, List.mem_iff_getElem?]
  constructor
  · rintro ⟨i, hi⟩
    obtain ⟨hn, hid⟩ := List.getElem?_zip_eq_some.mp hi
    refine ⟨i, hn, ?_⟩
    simp only [List.getElem?_map, Option.map_eq_some_iff] at hid
    obtain ⟨j, hj, rfl⟩ := hid
    rw [(List.getElem?_eq_some_iff.mp hj).2.symm]
    simp
  · rintro ⟨i, hi, rfl⟩
    have hlt := (List.getElem?_eq_some_iff.mp hi).1
    exact ⟨i, List.getElem?_zip_eq_some.mpr ⟨hi, by simp [hlt]⟩⟩

/-- Identifiers agree exactly when name and type agree. -/
theorem Built.same_id_iff (h : Built first d m) {x y : Ptree × PortID} (hx : x ∈ m.ports)
    (hy : y ∈ m.ports) : x.2 = y.2 ↔ x.1.data = y.1.data ∧ portType x.1 = portType y.1 := by
  obtain ⟨t, i, ht, hi, hid⟩ := h.mem_ports hx
  obtain ⟨u, j, hu, hj, hid'⟩ := h.mem_ports hy
  rw [hid, hid', ht, hu]
  constructor
  · intro he
    simp only [Prod.mk.injEq, Nat.cast_inj, Option.some.injEq] at he ⊢
    obtain ⟨rfl, hn⟩ := he
    have hij : i = j := by omega
    subst hij
    exact ⟨Option.some.inj (hi.symm.trans hj), rfl⟩
  · rintro ⟨hn, he⟩
    cases he
    have hij : i = j := by
      rw [hn] at hi
      have hi' := (List.getElem?_eq_some_iff.mp hi).1
      exact (List.getElem?_inj hi' (h.nodup t)).mp (hi.trans hj.symm)
    rw [hij]

theorem Built.port_type (h : Built first d m) {x : Ptree × PortID} (hx : x ∈ m.ports) :
    portType x.1 = some x.2.1 := by
  obtain ⟨t, i, ht, -, hid⟩ := h.mem_ports hx
  rw [hid, ht]

theorem Built.length_ids (h : Built first d m) (type : FMIVariableType) :
    (m.variableIDs type).length = (m.variableNames type).length := by simp [h.ids]

private theorem zip_flatMap {α β γ : Type} (l : List α) (f : α → List β) (g : α → List γ)
    (h : ∀ a, (f a).length = (g a).length) :
    (l.flatMap f).zip (l.flatMap g) = l.flatMap fun a => (f a).zip (g a) := by
  induction l with
  | nil => rfl
  | cons a l ih => rw [List.flatMap_cons, List.flatMap_cons, List.zip_append (h a), ih, List.flatMap_cons]

/-- The two lists of all names and all identifiers run in parallel. -/
theorem Built.zip_all (h : Built first d m) :
    m.getAllVariableNames.length = m.getAllVariableIDs.length ∧
    m.getAllVariableNames.zip m.getAllVariableIDs =
      FMIVariableType.all.flatMap fun type => (m.variableNames type).zip (m.variableIDs type) := by
  refine ⟨?_, zip_flatMap _ _ _ fun type => (h.length_ids type).symm⟩
  simp only [getAllVariableNames, getAllVariableIDs, List.length_flatMap, h.length_ids]

/-- Every variable of the lists belongs to a configured port, and the other way round. -/
theorem Built.mem_zip_all (h : Built first d m) {name : StdString} {id : PortID} :
    (name, id) ∈ m.getAllVariableNames.zip m.getAllVariableIDs ↔
      ∃ x ∈ m.ports, x.1.data = name ∧ x.2 = id := by
  rw [h.zip_all.2, List.mem_flatMap]
  constructor
  · rintro ⟨type, -, hmem⟩
    obtain ⟨i, hi, rfl⟩ := h.mem_zip.mp hmem
    obtain ⟨channel, hc, port, hp, hdata, htype⟩ := h.origin type name (List.mem_of_getElem? hi)
    obtain ⟨j, hj⟩ := List.mem_iff_getElem?.mp hp
    have hlen := (h.assigned channel hc).length_eq
    have hlt := (List.getElem?_eq_some_iff.mp hj).1
    obtain ⟨id, hid⟩ : ∃ id, channel.portIDs[j]? = some id :=
      ⟨_, List.getElem?_eq_getElem (hlen ▸ hlt)⟩
    have hx : (port, id) ∈ m.ports := List.mem_flatMap.mpr ⟨channel, hc,
      List.mem_iff_getElem?.mpr ⟨j, List.getElem?_zip_eq_some.mpr ⟨hj, hid⟩⟩⟩
    refine ⟨(port, id), hx, hdata, ?_⟩
    obtain ⟨t, k, ht, hk, hid'⟩ := h.mem_ports hx
    cases ht.symm.trans htype
    simp only [hdata] at hk
    have hk' := (List.getElem?_eq_some_iff.mp hk).1
    rw [hid', (List.getElem?_inj hk' (h.nodup type)).mp (hk.trans hi.symm)]
  · rintro ⟨x, hx, rfl, rfl⟩
    obtain ⟨t, i, ht, hi, hid⟩ := h.mem_ports hx
    exact ⟨t, t.mem_all, h.mem_zip.mpr ⟨i, hi, hid⟩⟩

/-- The variables are counted once, however many ports they are configured for. -/
theorem Built.total (h : Built first d m) :
    m.getTotalNumberOfVariables =
      (m.ports.map fun x => (x.1.data, portType x.1)).toFinset.card := by
  let keys := FMIVariableType.all.flatMap fun type => (m.variableNames type).map (·, some type)
  have hnodup : keys.Nodup := by
    rw [List.nodup_flatMap]
    refine ⟨fun type _ => (h.nodup type).map (Prod.mk_left_injective _), ?_⟩
    refine FMIVariableType.all_nodup.imp fun {t u} hne => ?_
    rw [Function.onFun, List.disjoint_left]
    rintro ⟨name, key⟩ ht hu
    simp only [List.mem_map, Prod.mk.injEq] at ht hu
    obtain ⟨-, -, -, rfl⟩ := ht
    obtain ⟨-, -, -, he⟩ := hu
    exact hne (Option.some.inj he).symm
  have hset : (m.ports.map fun x => (x.1.data, portType x.1)).toFinset = keys.toFinset := by
    ext ⟨name, key⟩
    simp only [List.mem_toFinset, List.mem_map, List.mem_flatMap, keys, Prod.mk.injEq]
    constructor
    · rintro ⟨x, hx, rfl, rfl⟩
      obtain ⟨t, i, ht, hi, -⟩ := h.mem_ports hx
      exact ⟨t, t.mem_all, x.1.data, List.mem_of_getElem? hi, rfl, ht.symm⟩
    · rintro ⟨t, -, n, hn, rfl, rfl⟩
      obtain ⟨i, hi⟩ := List.mem_iff_getElem?.mp hn
      have hzip : (n, ((t, ((first.nextPortID t + i : Nat) : Int)) : PortID)) ∈
          m.getAllVariableNames.zip m.getAllVariableIDs := by
        rw [h.zip_all.2]
        exact List.mem_flatMap.mpr ⟨t, t.mem_all, h.mem_zip.mpr ⟨i, hi, rfl⟩⟩
      obtain ⟨x, hx, hdata, hid⟩ := h.mem_zip_all.mp hzip
      exact ⟨x, hx, hdata, by rw [h.port_type hx, hid]⟩
  rw [hset, List.toFinset_card_of_nodup hnodup]
  simp [getTotalNumberOfVariables, keys, List.length_flatMap, h.length_ids]

/-- The identifiers lie between the counters before and after the construction. -/
theorem Built.mem_ids (h : Built first d m) {id : PortID} (hid : id ∈ m.getAllVariableIDs) :
    (first.nextPortID id.1 : Int) ≤ id.2 ∧ id.2 < d.nextPortID id.1 := by
  obtain ⟨type, -, hmem⟩ := List.mem_flatMap.mp hid
  rw [h.ids] at hmem
  obtain ⟨i, hi, rfl⟩ := List.mem_map.mp hmem
  have hi' := List.mem_range.mp hi
  have hnext := h.next type
  simp only
  omega

theorem Built.port_mem_ids (h : Built first d m) {x : Ptree × PortID} (hx : x ∈ m.ports) :
    x.2 ∈ m.getAllVariableIDs := by
  have hzip : (x.1.data, x.2) ∈ m.getAllVariableNames.zip m.getAllVariableIDs :=
    h.mem_zip_all.mpr ⟨x, hx, rfl, rfl⟩
  exact (List.of_mem_zip hzip).2

end Finished

/-! ### The counter never goes back -/

private theorem addVariable_mono {d d' : PortIDDrawer} {m m' : ChannelMapping}
    {channel channel' : TransmissionChannel} {port : Ptree}
    (h : addVariable d m channel port = .ok (d', m', channel')) (type : FMIVariableType) :
    d.nextPortID type ≤ d'.nextPortID type := by
  unfold addVariable assignID PortIDDrawer.getNextPortID at h
  split at h
  · cases h
  split at h
  · cases h
  dsimp only at h
  split at h
  · cases h
    dsimp only
    split <;> omega
  · cases h; exact le_rfl

private theorem addVariables_mono (ports : List Ptree) (d : PortIDDrawer) (m : ChannelMapping)
    (channel : TransmissionChannel) (type : FMIVariableType) :
    d.nextPortID type ≤ (addVariables ports d m channel).1.nextPortID type := by
  induction ports generalizing d m channel with
  | nil => exact le_rfl
  | cons port ports ih =>
    rw [addVariables]
    split
    · exact le_rfl
    · rename_i hone
      exact (addVariable_mono hone type).trans (ih _ _ _)

private theorem addChannels_mono (props : List Ptree) (d : PortIDDrawer) (m : ChannelMapping)
    (type : FMIVariableType) : d.nextPortID type ≤ (addChannels props d m).1.nextPortID type := by
  induction props generalizing d m with
  | nil => exact le_rfl
  | cons prop props ih =>
    have hone := addVariables_mono prop.consecutive d m { channelConfig := prop } type
    rw [addChannels]
    split
    · rename_i heq; rw [heq] at hone; exact hone
    · rename_i heq; rw [heq] at hone; exact hone.trans (ih _ _)

/-- This also holds of a construction that is given up by an exception. -/
theorem make_mono (d : PortIDDrawer) (prop : Ptree) (type : FMIVariableType) :
    d.nextPortID type ≤ (make d prop).1.nextPortID type :=
  addChannels_mono _ d {} type

end FMITerminalBlock.Base.ChannelMapping
