import FMITerminalBlock.Base.PortID
import FMITerminalBlock.Base.PropertyTree

/-! The mapping between configured ports and port identifiers, as it is built from one of the
two configuration subtrees. -/
namespace FMITerminalBlock.Base

/-- The exception for an invalid configuration: its text and, where given, the key and value. -/
structure SystemConfigurationException where
  what : String
  config : Option (StdString × StdString) := none

structure TransmissionChannel where
  channelConfig : Ptree
  portIDs : List PortID := []
  portConfig : List Ptree := []

def TransmissionChannel.pushBackPort (c : TransmissionChannel) (id : PortID) (portConfig : Ptree) :
    TransmissionChannel :=
  { c with portIDs := c.portIDs ++ [id], portConfig := c.portConfig ++ [portConfig] }

/-- The names and identifiers are kept for each type, in the order of their first occurrence. -/
structure ChannelMapping where
  variableNames : FMIVariableType → List StdString := fun _ => []
  variableIDs : FMIVariableType → List PortID := fun _ => []
  channels : List TransmissionChannel := []

namespace ChannelMapping

def propType : StdString := ascii "type"

def getVariableNames (m : ChannelMapping) (type : FMIVariableType) : List StdString := m.variableNames type

def getVariableIDs (m : ChannelMapping) (type : FMIVariableType) : List PortID := m.variableIDs type

def getAllVariableNames (m : ChannelMapping) : List StdString := FMIVariableType.all.flatMap m.variableNames

def getAllVariableIDs (m : ChannelMapping) : List PortID := FMIVariableType.all.flatMap m.variableIDs

def getTotalNumberOfVariables (m : ChannelMapping) : Nat :=
  (FMIVariableType.all.map fun type => (m.variableIDs type).length).sum

/-- The identifier of a known variable, or one with the invalid number -1. -/
def getID (m : ChannelMapping) (name : StdString) (type : FMIVariableType) : PortID :=
  (((m.variableNames type).zip (m.variableIDs type)).find? (·.1 == name)).elim (.fmiTypeUnknown, -1) (·.2)

/-- The type code of a port; a missing code or one that is no number means an unknown type. -/
def typeCode (port : Ptree) : Int := port.getInt propType 4

def portType (port : Ptree) : Option FMIVariableType := FMIVariableType.ofCode (typeCode port)

/-- The identifier of a variable, drawn from the counter when the variable is new. -/
def assignID (d : PortIDDrawer) (m : ChannelMapping) (name : StdString) (type : FMIVariableType) :
    PortID × PortIDDrawer × ChannelMapping :=
  let id := m.getID name type
  if id.2 < 0 then
    let (id, d) := d.getNextPortID type
    (id, d, { m with
      variableNames := fun t => if t = type then m.variableNames t ++ [name] else m.variableNames t
      variableIDs := fun t => if t = type then m.variableIDs t ++ [id] else m.variableIDs t })
  else (id, d, m)

/-- The body of the loop in `addVariables`. -/
def addVariable (d : PortIDDrawer) (m : ChannelMapping) (channel : TransmissionChannel) (port : Ptree) :
    Except SystemConfigurationException (PortIDDrawer × ChannelMapping × TransmissionChannel) :=
  if port.data = [] then
    .error { what := "At least one channel variable doesn't specify a variable name" }
  else match portType port with
    | none => .error {
        what := "FMI type code does not exist"
        config := some (propType, port.getString propType (ascii "4")) }
    | some type =>
      let (id, d, m) := assignID d m port.data type
      .ok (d, m, channel.pushBackPort id port)

/-- Identifiers drawn before an exception stay drawn, so the counter is returned in any case. -/
def addVariables : List Ptree → PortIDDrawer → ChannelMapping → TransmissionChannel →
    PortIDDrawer × Except SystemConfigurationException (ChannelMapping × TransmissionChannel)
  | [], d, m, channel => (d, .ok (m, channel))
  | port :: ports, d, m, channel =>
    match addVariable d m channel port with
    | .error ex => (d, .error ex)
    | .ok (d, m, channel) => addVariables ports d m channel

/-- The mapping with one more channel. -/
def addChannel (m : ChannelMapping) (channel : TransmissionChannel) : ChannelMapping :=
  { m with channels := m.channels ++ [channel] }

def addChannels : List Ptree → PortIDDrawer → ChannelMapping →
    PortIDDrawer × Except SystemConfigurationException ChannelMapping
  | [], d, m => (d, .ok m)
  | channelProp :: rest, d, m =>
    match addVariables channelProp.consecutive d m { channelConfig := channelProp } with
    | (d, .error ex) => (d, .error ex)
    | (d, .ok (m, channel)) => addChannels rest d (m.addChannel channel)

/-- The constructor from a configuration subtree. -/
def make (d : PortIDDrawer) (prop : Ptree) :
    PortIDDrawer × Except SystemConfigurationException ChannelMapping :=
  addChannels prop.consecutive d {}

/-- The configured ports with the identifiers they got, channel by channel. -/
def ports (m : ChannelMapping) : List (Ptree × PortID) :=
  m.channels.flatMap fun channel => channel.portConfig.zip channel.portIDs

end ChannelMapping
end FMITerminalBlock.Base
