import PipeRT.Analyzer.Decoder
import PipeRT.Machine

namespace PipeRT

-- A `dict` with strings as its keys.
abbrev Dict (β : Type) :=
  Str → Option β

-- The events are those that were added since they were last cleared, one list for every packet. A
-- measure is a list of points of a cycle and a value.
structure Channel (V W : Type) where
  name           : Str
  events         : List (List (Event V))
  flags          : Dict Bool
  measures       : Dict (List (Nat × W))
  latestPacketId : Int

namespace Channel

variable {V W : Type}

def new (name : Str) (events : List (Event V)) (latestPacketId : Int) : Channel V W where
  name
  events   := [events]
  flags    := fun _ => none
  measures := fun _ => none
  latestPacketId

def addEvents (channel : Channel V W) (events : List (Event V)) : Channel V W :=
  { channel with events := channel.events ++ [events] }

def setLatestPacketId (channel : Channel V W) (latestPacketId : Int) : Channel V W :=
  { channel with latestPacketId }

def getEvent (channel : Channel V W) (eventType : Str) : List (Event V) :=
  channel.events.flatten.filter fun event => event.getType == eventType

end Channel

-- "Packet Pushed".
def packetPushed : Str :=
  ['P', 'a', 'c', 'k', 'e', 't', ' ', 'P', 'u', 's', 'h', 'e', 'd']

-- "N/A".
def notAvailable : Str :=
  ['N', '/', 'A']

-- "External_".
def external : Str :=
  ['E', 'x', 't', 'e', 'r', 'n', 'a', 'l', '_']

structure ChannelsManager (V W : Type) where
  channels    : List (Channel V W)
  naChannels  : List Str
  channelsMap : List (Str × Str)
  updateMap   : Bool

namespace ChannelsManager

variable {V W : Type}

def new : ChannelsManager V W :=
  ⟨[], [], [], false⟩

def names (m : ChannelsManager V W) : List Str :=
  m.channels.map Channel.name

-- `__add_receiver`, as far as the list of channels goes.
def addTo (receiver : Str) (events : List (Event V)) (packetId : Int) :
    List (Channel V W) → List (Channel V W)
  | []            => [.new receiver events packetId]
  | channel :: channels =>
    if channel.name = receiver then
      (channel.addEvents events).setLatestPacketId packetId :: channels
    else
      channel :: addTo receiver events packetId channels

def addReceiver (m : ChannelsManager V W) (receiver : Str) (events : List (Event V)) (packetId : Int) :
    ChannelsManager V W :=
  { m with channels := addTo receiver events packetId m.channels }

-- The first branch of the second condition is never taken.
def addToChannelsMap (m : ChannelsManager V W) (receiver sender : Str) (pushedPacketCnt : Nat) :
    ChannelsManager V W :=
  if pushedPacketCnt = 0 ∨ sender = notAvailable then
    m
  else if sender = notAvailable then
    let sender := external ++ receiver
    addEdge (if sender ∈ m.naChannels then m else { m with naChannels := m.naChannels ++ [sender] }) sender
  else
    addEdge (if sender ∈ m.names then m else { m with channels := m.channels ++ [.new sender [] (-1)] })
      sender
where
  addEdge (m : ChannelsManager V W) (sender : Str) : ChannelsManager V W :=
    if (sender, receiver) ∈ m.channelsMap then
      m
    else
      { m with channelsMap := m.channelsMap ++ [(sender, receiver)], updateMap := true }

def addPacket (m : ChannelsManager V W) (packet : Packet V) (packetId : Int) : ChannelsManager V W :=
  (m.addReceiver packet.receiver packet.events packetId).addToChannelsMap packet.receiver
    packet.getSender (packet.getEventCount packetPushed)

-- The last one of the indices of a name stays in the `dict`.
def channelsDict (uniqueChannels : List Str) : Dict Nat :=
  uniqueChannels.zipIdx.foldl (fun dict c => Function.update dict c.1 (some c.2)) fun _ => none

def lookup (dict : Dict Nat) (name : Str) : Except PyError Nat :=
  match dict name with
  | some i => .ok i
  | none   => .error .keyError

def getChannelsMap (m : ChannelsManager V W) : Except PyError (List Str × List (Nat × Nat)) := do
  let uniqueChannels := m.names ++ m.naChannels
  let connections ← m.channelsMap.mapM fun edge => do
    let s ← lookup (channelsDict uniqueChannels) edge.1
    let r ← lookup (channelsDict uniqueChannels) edge.2
    return (s, r)
  return (uniqueChannels, connections)

def shouldUpdateMap (m : ChannelsManager V W) : Bool × ChannelsManager V W :=
  (m.updateMap, { m with updateMap := false })

end ChannelsManager

inductive ManagerAction (V : Type) where
  | addPacket (packet : Packet V) (packetId : Int)
  | shouldUpdateMap
  | getChannelsMap

def channelsManager (V W : Type) : Machine (ChannelsManager V W) (ManagerAction V) PyError where
  Init m    := m = .new
  Guard _ _ := True
  exec m
    | .addPacket packet packetId => return m.addPacket packet packetId
    | .shouldUpdateMap           => return m.shouldUpdateMap.2
    | .getChannelsMap            => do
      let _ ← m.getChannelsMap
      return m

end PipeRT
