import FMITerminalBlock.Base.PortAssignment

/-! The part of the application context that owns the two channel mappings. Both are built on
first use and draw their identifiers from the same counter. -/
namespace FMITerminalBlock.Base

structure ApplicationContext where
  config : Ptree
  outputChannelMap : Option ChannelMapping := none
  inputChannelMap : Option ChannelMapping := none
  portIDSource : PortIDDrawer := {}

namespace ApplicationContext

def propOut : StdString := ascii "out"
def propIn : StdString := ascii "in"

/-- A configuration without the subtree gives an empty mapping. -/
def newChannelMapping (ctx : ApplicationContext) (propertyPrefix : StdString) :
    PortIDDrawer × Except SystemConfigurationException ChannelMapping :=
  match ctx.config.getChildOptional propertyPrefix with
  | some tree => ChannelMapping.make ctx.portIDSource tree
  | none => (ctx.portIDSource, .ok {})

def getOutputChannelMapping (ctx : ApplicationContext) :
    ApplicationContext × Except SystemConfigurationException ChannelMapping :=
  match ctx.outputChannelMap with
  | some m => (ctx, .ok m)
  | none =>
    match ctx.newChannelMapping propOut with
    | (d, .ok m) => ({ ctx with outputChannelMap := some m, portIDSource := d }, .ok m)
    | (d, .error ex) => ({ ctx with portIDSource := d }, .error ex)

def getInputChannelMapping (ctx : ApplicationContext) :
    ApplicationContext × Except SystemConfigurationException ChannelMapping :=
  match ctx.inputChannelMap with
  | some m => (ctx, .ok m)
  | none =>
    match ctx.newChannelMapping propIn with
    | (d, .ok m) => ({ ctx with inputChannelMap := some m, portIDSource := d }, .ok m)
    | (d, .error ex) => ({ ctx with portIDSource := d }, .error ex)

/-- The two queries, in whatever order the components make them. -/
inductive Query where
  | input | output
  deriving DecidableEq

def query (ctx : ApplicationContext) : Query → ApplicationContext
  | .input => ctx.getInputChannelMapping.1
  | .output => ctx.getOutputChannelMapping.1

def queries (ctx : ApplicationContext) (qs : List Query) : ApplicationContext := qs.foldl query ctx

/-- The configuration subtree of one direction, empty if it is missing. -/
def subtree (ctx : ApplicationContext) (propertyPrefix : StdString) : Ptree :=
  (ctx.config.getChildOptional propertyPrefix).getD (.node [] [])

/-- The mapping is built from the tree, with identifiers between the two counters. -/
structure MappedFrom (tree : Ptree) (first last : PortIDDrawer) (m : ChannelMapping) : Prop where
  built : ChannelMapping.Built first last m
  listed : ∀ channel ∈ m.channels, ChannelMapping.Listed channel
  channels : m.channels.map (·.channelConfig) = tree.consecutive

theorem newChannelMapping_mapped {ctx : ApplicationContext} {key : StdString} {d : PortIDDrawer}
    {m : ChannelMapping} (h : ctx.newChannelMapping key = (d, .ok m)) :
    MappedFrom (ctx.subtree key) ctx.portIDSource d m := by
  unfold newChannelMapping at h
  rw [subtree]
  split at h
  · rename_i tree htree
    obtain ⟨hbuilt, hlisted, hchannels⟩ := ChannelMapping.make_built h
    exact ⟨hbuilt, hlisted, by rw [htree]; exact hchannels⟩
  · rename_i htree
    cases h
    rw [htree]
    exact ⟨⟨fun _ => rfl, fun _ => rfl, fun _ => List.nodup_nil,
      fun ch hch => absurd hch List.not_mem_nil, fun t name hname => absurd hname List.not_mem_nil⟩,
      fun ch hch => absurd hch List.not_mem_nil, rfl⟩

theorem newChannelMapping_mono (ctx : ApplicationContext) (key : StdString) (type : FMIVariableType) :
    ctx.portIDSource.nextPortID type ≤ (ctx.newChannelMapping key).1.nextPortID type := by
  rw [newChannelMapping]
  split
  · exact ChannelMapping.make_mono _ _ type
  · exact le_rfl

/-- A mapping that is present used identifiers below the present counter only. -/
def Present (ctx : ApplicationContext) (key : StdString) (m : ChannelMapping) : Prop :=
  ∃ first last, MappedFrom (ctx.subtree key) first last m ∧
    ∀ type, last.nextPortID type ≤ ctx.portIDSource.nextPortID type

/-- What holds of a context after any queries. -/
structure Consistent (ctx : ApplicationContext) : Prop where
  input : ∀ m, ctx.inputChannelMap = some m → ctx.Present propIn m
  output : ∀ m, ctx.outputChannelMap = some m → ctx.Present propOut m
  apart : ∀ i o, ctx.inputChannelMap = some i → ctx.outputChannelMap = some o →
    ∀ id ∈ i.getAllVariableIDs, id ∉ o.getAllVariableIDs

private theorem Present.advance {ctx ctx' : ApplicationContext} {key : StdString} {m : ChannelMapping}
    (h : ctx.Present key m) (hconfig : ctx'.config = ctx.config)
    (hmono : ∀ type, ctx.portIDSource.nextPortID type ≤ ctx'.portIDSource.nextPortID type) :
    ctx'.Present key m := by
  obtain ⟨first, last, hmapped, hle⟩ := h
  exact ⟨first, last, by rw [subtree, hconfig]; exact hmapped, fun t => (hle t).trans (hmono t)⟩

/-- A mapping built now shares no identifier with one built before. -/
private theorem Present.apart {ctx : ApplicationContext} {key key' : StdString} {old m : ChannelMapping}
    {d : PortIDDrawer} (h : ctx.Present key old) (hnew : ctx.newChannelMapping key' = (d, .ok m))
    {id : PortID} (hold : id ∈ old.getAllVariableIDs) : id ∉ m.getAllVariableIDs := by
  intro hmem
  obtain ⟨first, last, hmapped, hle⟩ := h
  have hlt := (hmapped.built.mem_ids hold).2
  have hge := ((newChannelMapping_mapped hnew).built.mem_ids hmem).1
  have := hle id.1
  omega

theorem query_consistent {ctx : ApplicationContext} (h : ctx.Consistent) (q : Query) :
    (ctx.query q).Consistent ∧ (ctx.query q).config = ctx.config := by
  cases q with
  | input =>
    have hmono := newChannelMapping_mono ctx propIn
    simp only [query, getInputChannelMapping]
    split
    · exact ⟨h, rfl⟩
    · rename_i hnone
      split
      · rename_i d m hnew
        rw [hnew] at hmono
        refine ⟨⟨fun m' hm' => ?_, fun o ho => (h.output o ho).advance rfl hmono,
          fun i o hi ho id hid hid' => ?_⟩, rfl⟩
        · cases hm'
          have hmapped := newChannelMapping_mapped hnew
          exact ⟨_, _, hmapped, fun _ => le_rfl⟩
        · cases hi
          exact (h.output o ho).apart hnew hid' hid
      · rename_i d ex hnew
        rw [hnew] at hmono
        exact ⟨⟨fun m hm => (h.input m hm).advance rfl hmono, fun o ho => (h.output o ho).advance rfl hmono,
          h.apart⟩, rfl⟩
  | output =>
    have hmono := newChannelMapping_mono ctx propOut
    simp only [query, getOutputChannelMapping]
    split
    · exact ⟨h, rfl⟩
    · rename_i hnone
      split
      · rename_i d m hnew
        rw [hnew] at hmono
        refine ⟨⟨fun i hi => (h.input i hi).advance rfl hmono, fun m' hm' => ?_,
          fun i o hi ho id hid hid' => ?_⟩, rfl⟩
        · cases hm'
          have hmapped := newChannelMapping_mapped hnew
          exact ⟨_, _, hmapped, fun _ => le_rfl⟩
        · cases ho
          exact (h.input i hi).apart hnew hid hid'
      · rename_i d ex hnew
        rw [hnew] at hmono
        exact ⟨⟨fun m hm => (h.input m hm).advance rfl hmono, fun o ho => (h.output o ho).advance rfl hmono,
          h.apart⟩, rfl⟩

theorem queries_consistent {ctx : ApplicationContext} (h : ctx.Consistent) (qs : List Query) :
    (ctx.queries qs).Consistent ∧ (ctx.queries qs).config = ctx.config := by
  induction qs generalizing ctx with
  | nil => exact ⟨h, rfl⟩
  | cons q qs ih =>
    obtain ⟨hq, hconfig⟩ := query_consistent h q
    obtain ⟨hqs, hconfig'⟩ := ih hq
    exact ⟨hqs, hconfig'.trans hconfig⟩

theorem fresh_consistent (config : Ptree) : Consistent { config := config } :=
  ⟨fun _ h => (nomatch h), fun _ h => (nomatch h), fun _ _ h => (nomatch h)⟩

/-- A context in which both mappings are settled, whatever was asked for first. The components of
a run are configured from it. -/
structure Settled where
  config : Ptree
  order : List Query
  input : ChannelMapping
  output : ChannelMapping
  input_eq : (queries { config := config } order).inputChannelMap = some input
  output_eq : (queries { config := config } order).outputChannelMap = some output

namespace Settled

def ofConfig (config : Ptree) (order : List Query)
    (hin : (queries { config := config } order).inputChannelMap.isSome)
    (hout : (queries { config := config } order).outputChannelMap.isSome) : Settled where
  config := config
  order := order
  input := (queries { config := config } order).inputChannelMap.get hin
  output := (queries { config := config } order).outputChannelMap.get hout
  input_eq := (Option.some_get hin).symm
  output_eq := (Option.some_get hout).symm

theorem consistent (s : Settled) : (queries { config := s.config } s.order).Consistent :=
  (queries_consistent (fresh_consistent s.config) s.order).1

private theorem subtree_queries (s : Settled) (key : StdString) :
    subtree (queries { config := s.config } s.order) key = subtree { config := s.config } key := by
  rw [subtree, (queries_consistent (fresh_consistent s.config) s.order).2, subtree]

theorem input_mapped (s : Settled) : ∃ first last,
    MappedFrom (subtree { config := s.config } propIn) first last s.input := by
  obtain ⟨first, last, h, -⟩ := s.consistent.input s.input s.input_eq
  exact ⟨first, last, s.subtree_queries propIn ▸ h⟩

theorem output_mapped (s : Settled) : ∃ first last,
    MappedFrom (subtree { config := s.config } propOut) first last s.output := by
  obtain ⟨first, last, h, -⟩ := s.consistent.output s.output s.output_eq
  exact ⟨first, last, s.subtree_queries propOut ▸ h⟩

/-- Both predictors rely on this to tell their own events from external ones. -/
theorem apart (s : Settled) {id : PortID} (h : id ∈ s.input.getAllVariableIDs) :
    id ∉ s.output.getAllVariableIDs :=
  s.consistent.apart s.input s.output s.input_eq s.output_eq id h

/-- One real input `u` and one real output `y`, each on a channel of its own. -/
def feedThrough : Settled :=
  ofConfig (.node [] [
      (propIn, .node [] [(ascii "0", .node [] [(ascii "0", .node (ascii "u") [(ascii "type", .node (ascii "0") [])])])]),
      (propOut, .node [] [(ascii "0", .node [] [(ascii "0", .node (ascii "y") [(ascii "type", .node (ascii "0") [])])])])])
    [.output, .input] (by decide +kernel) (by decide +kernel)

end Settled
end ApplicationContext
end FMITerminalBlock.Base
