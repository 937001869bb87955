import PipeRT.Analyzer.ChannelsMap

namespace PipeRT

variable {V W : Type}

-- `dict.get(key)`, which is a list then, gets one more element.
def Dict.add {β : Type} (dict : Dict (List β)) (key : Str) (b : β) : Dict (List β) :=
  Function.update dict key <| some <| (dict key).getD [] ++ [b]

-- A negative index counts from the end of the list.
def setItem (retPoints : List (Option W)) (index : Int) (y : W) : List (Option W) :=
  retPoints.set (if index < 0 then retPoints.length + index else index).toNat (some y)

-- `rdp` is the function of the package of that name. The index is always one of the list.
def reducePointsNExtractYAxis (rdp : List (Nat × W) → List (Nat × W)) (points : List (Nat × W)) :
    List (Option W) :=
  (rdp points).foldl (fun retPoints point => setItem retPoints ((point.1 % 10 : Nat) - 1) point.2) <|
    .replicate 10 none

namespace Channel

def addMeasure (channel : Channel V W) (measureName : Str) (measureVal : Nat × W) : Channel V W :=
  { channel with measures := channel.measures.add measureName measureVal }

def addFlag (channel : Channel V W) (flag : Str) (value : Bool) : Channel V W :=
  { channel with flags := Function.update channel.flags flag (some value) }

-- The events are cleared.
def getFlags (channel : Channel V W) : Dict Bool × Channel V W :=
  (channel.flags, { channel with events := [] })

-- The key may be missing in the configuration.
def getMeasure (channel : Channel V W) (measure : Option Str) : Except PyError W :=
  match measure.bind channel.measures with
  | none        => .error .typeError
  | some points =>
    match points.getLast? with
    | none       => .error .indexError
    | some point => .ok point.2

def getAllMeasures (rdp : List (Nat × W) → List (Nat × W)) (channel : Channel V W) :
    Dict (List (Option W)) × Channel V W :=
  (fun measureName => (channel.measures measureName).map <| reducePointsNExtractYAxis rdp,
    { channel with measures := fun measureName => (channel.measures measureName).map fun _ => [] })

-- What a measurement looks at.
def bare (channel : Channel V W) : Channel V Empty :=
  { channel with flags := fun _ => none, measures := fun _ => none }

end Channel

namespace ChannelsManager

def getChannelsFlags (m : ChannelsManager V W) : List (Str × Dict Bool) × ChannelsManager V W :=
  (m.channels.map fun channel => (channel.name, channel.getFlags.1),
    { m with channels := m.channels.map fun channel => channel.getFlags.2 })

def getChannelsMeasures (rdp : List (Nat × W) → List (Nat × W)) (m : ChannelsManager V W) :
    List (Str × Dict (List (Option W))) × ChannelsManager V W :=
  (m.channels.map fun channel => (channel.name, (channel.getAllMeasures rdp).1),
    { m with channels := m.channels.map fun channel => (channel.getAllMeasures rdp).2 })

def bare (m : ChannelsManager V W) : ChannelsManager V Empty :=
  { m with channels := m.channels.map Channel.bare }

end ChannelsManager

-- The function is `_measure` of the class. It reads the channels and the map, and none of them reads
-- the measures of a channel or its flags.
structure ChannelMeasurement (V W : Type) where
  measurementKey : Str
  packetCycle    : Nat
  measure        : ChannelsManager V Empty → Channel V Empty → Except PyError W

namespace ChannelMeasurement

-- An entry of the configuration: the key, and the function of the class that is named there.
abbrev Enabled (V W : Type) :=
  Str × (ChannelsManager V Empty → Channel V Empty → Except PyError W)

def new (enabled : Enabled V W) : ChannelMeasurement V W where
  measurementKey := enabled.1
  packetCycle    := 1
  measure        := enabled.2

def addTo (measurement : ChannelMeasurement V W) (m : ChannelsManager V Empty)
    (channel : Channel V W) : Except PyError (Channel V W) := do
  let measure ← measurement.measure m channel.bare
  return channel.addMeasure measurement.measurementKey (measurement.packetCycle, measure)

def run (measurement : ChannelMeasurement V W) (m : ChannelsManager V W) :
    Except PyError (ChannelMeasurement V W × ChannelsManager V W) := do
  let channels ← m.channels.mapM <| measurement.addTo m.bare
  return ({ measurement with packetCycle := measurement.packetCycle + 1 }, { m with channels })

def runAll : List (ChannelMeasurement V W) → ChannelsManager V W →
    Except PyError (List (ChannelMeasurement V W) × ChannelsManager V W)
  | [],                          m => .ok ([], m)
  | measurement :: measurements, m => do
    let (measurement, m) ← measurement.run m
    let (measurements, m) ← runAll measurements m
    return (measurement :: measurements, m)

end ChannelMeasurement

structure PipelineMeasurement (V W : Type) where
  measurementKey : Str
  packetCycle    : Nat
  measure        : ChannelsManager V Empty → Except PyError W

namespace PipelineMeasurement

abbrev Enabled (V W : Type) :=
  Str × (ChannelsManager V Empty → Except PyError W)

def new (enabled : Enabled V W) : PipelineMeasurement V W where
  measurementKey := enabled.1
  packetCycle    := 1
  measure        := enabled.2

def run (measurement : PipelineMeasurement V W) (m : ChannelsManager V Empty) :
    Except PyError ((Nat × W) × PipelineMeasurement V W) := do
  let measure ← measurement.measure m
  return ((measurement.packetCycle, measure),
    { measurement with packetCycle := measurement.packetCycle + 1 })

def runAll (m : ChannelsManager V Empty) : List (PipelineMeasurement V W) → Dict (List (Nat × W)) →
    Except PyError (List (PipelineMeasurement V W) × Dict (List (Nat × W)))
  | [],                          dict => .ok ([], dict)
  | measurement :: measurements, dict => do
    let (measurementPoint, measurement) ← measurement.run m
    let (measurements, dict) ← runAll m measurements <|
      dict.add measurement.measurementKey measurementPoint
    return (measurement :: measurements, dict)

end PipelineMeasurement

structure MeasurementManager (V W : Type) where
  pipelineMeasurementsDict : Dict (List (Nat × W))
  channelMeasurements      : List (ChannelMeasurement V W)
  pipelineMeasurements     : List (PipelineMeasurement V W)

namespace MeasurementManager

def run (manager : MeasurementManager V W) (m : ChannelsManager V W) :
    Except PyError (MeasurementManager V W × ChannelsManager V W) := do
  let (channelMeasurements, m) ← ChannelMeasurement.runAll manager.channelMeasurements m
  let (pipelineMeasurements, pipelineMeasurementsDict) ←
    PipelineMeasurement.runAll m.bare manager.pipelineMeasurements manager.pipelineMeasurementsDict
  return (⟨pipelineMeasurementsDict, channelMeasurements, pipelineMeasurements⟩, m)

def getPipelineMeasurements (rdp : List (Nat × W) → List (Nat × W))
    (manager : MeasurementManager V W) : Dict (List (Option W)) × MeasurementManager V W :=
  (fun measureName =>
      (manager.pipelineMeasurementsDict measureName).map <| reducePointsNExtractYAxis rdp,
    { manager with
      pipelineMeasurementsDict := fun measureName =>
        (manager.pipelineMeasurementsDict measureName).map fun _ => [] })

end MeasurementManager

-- Every checker but one compares a measure with the parameter of a given name.
inductive Checker (W : Type) where
  | frozen
  | threshold (flagName parameter : Str) (measureKey : Option Str) (parameters : Dict W)

namespace Checker

-- "FROZEN".
def frozenFlag : Str :=
  ['F', 'R', 'O', 'Z', 'E', 'N']

def dropRateChecker : Option Str → Dict W → Checker W :=
  threshold "HIGH_DROP_RATE".toList "DROP_RATE_THRESHOLD".toList

def dropRatioChecker : Option Str → Dict W → Checker W :=
  threshold "HIGH_DROP_RATIO".toList "DROP_RATIO_THRESHOLD".toList

def executionTimeChecker : Option Str → Dict W → Checker W :=
  threshold "HIGH_EXECUTION_TIME".toList "EXECUTION_TIME_THRESHOLD".toList

def readTimeChecker : Option Str → Dict W → Checker W :=
  threshold "HIGH_READ_TIME".toList "CHANNEL_READ_THRESHOLD".toList

def fillTimeChecker : Option Str → Dict W → Checker W :=
  threshold "HIGH_FILL_TIME".toList "CHANNEL_FILL_THRESHOLD".toList

def timeToBufferAverageChecker : Option Str → Dict W → Checker W :=
  threshold "HIGH_CHANNEL_TIME_TO_BUFFER".toList "CHANNEL_TIME_TO_BUFFER_AVERAGE_THRESHOLD".toList

def flagName : Checker W → Str
  | frozen               => frozenFlag
  | threshold flagName .. => flagName

variable [LT W] [DecidableLT W]

def check (checker : Checker W) (channel : Channel V W) : Except PyError Bool :=
  match checker with
  | frozen                                         => .ok (channel.events.flatten.length == 0)
  | threshold _ parameter measureKey parameters => do
    let measure ← channel.getMeasure measureKey
    match parameters parameter with
    | none       => .error .keyError
    | some limit => return decide (limit < measure)

def addTo (checker : Checker W) (channel : Channel V W) : Except PyError (Channel V W) := do
  let value ← checker.check channel
  return channel.addFlag checker.flagName value

def run (checker : Checker W) (m : ChannelsManager V W) : Except PyError (ChannelsManager V W) := do
  let channels ← m.channels.mapM checker.addTo
  return { m with channels }

def runAll : List (Checker W) → ChannelsManager V W → Except PyError (ChannelsManager V W)
  | [],                  m => .ok m
  | checker :: checkers, m => do
    let m ← checker.run m
    runAll checkers m

end Checker

-- What is sent to the web page from the loop of the server.
inductive Post (W : Type) where
  | flags (flags : List (Str × Dict Bool))
  | channelsMap (uniqueChannels : List Str) (channelsMap : List (Nat × Nat))
  | measures (measures : List (Str × Dict (List (Option W))))
  | pipelineMeasures (measures : Dict (List (Option W)))

def Post.measures? : Post W → Option (List (Str × Dict (List (Option W))))
  | .measures dicts => some dicts
  | _               => none

def Post.pipelineMeasures? : Post W → Option (Dict (List (Option W)))
  | .pipelineMeasures dict => some dict
  | _                      => none

-- The server is about to receive a datagram, or about to compare the number of packets with the
-- threshold.
structure AnalyzerServer (W : Type) where
  channelsManager    : ChannelsManager (BitVec 64) W
  measurementManager : MeasurementManager (BitVec 64) W
  packetsCount       : Nat
  flagsCounter       : Nat
  measuresCounter    : Nat
  receiving          : Bool
  sent               : List (Post W)

-- What is read out of the configuration.
structure Config (W : Type) where
  packetsCycleThreshold : Nat
  channelMeasurements   : List (ChannelMeasurement.Enabled (BitVec 64) W)
  pipelineMeasurements  : List (PipelineMeasurement.Enabled (BitVec 64) W)
  checkers              : List (Checker W)

inductive ServerAction where
  | compare
  | receive (data : List UInt8)
  deriving DecidableEq

namespace AnalyzerServer

def new (config : Config W) : AnalyzerServer W where
  channelsManager    := .new
  measurementManager := {
    pipelineMeasurementsDict := fun _ => none
    channelMeasurements      := config.channelMeasurements.map ChannelMeasurement.new
    pipelineMeasurements     := config.pipelineMeasurements.map PipelineMeasurement.new
  }
  packetsCount       := 1
  flagsCounter       := 0
  measuresCounter    := 0
  receiving          := false
  sent               := []

def Guard (y : AnalyzerServer W) : ServerAction → Prop
  | .compare   => y.receiving = false
  | .receive _ => y.receiving = true

instance (y : AnalyzerServer W) (a : ServerAction) : Decidable (y.Guard a) :=
  match a with
  | .compare   => inferInstanceAs (Decidable (y.receiving = false))
  | .receive _ => inferInstanceAs (Decidable (y.receiving = true))

-- The packet in what `recvfrom` returns of a datagram.
def packetOf (little : Bool) (data : List UInt8) : Except PyError (Packet (BitVec 64)) :=
  PacketDecoder.decodePacket little (data.take 512)

variable [LT W] [DecidableLT W] (little : Bool) (rdp : List (Nat × W) → List (Nat × W))

def sendFlagsAndChannelsMap (y : AnalyzerServer W) : Except PyError (AnalyzerServer W) := do
  let (flags, m) := y.channelsManager.getChannelsFlags
  let (update, m) := m.shouldUpdateMap
  let y := { y with channelsManager := m, sent := y.sent ++ [.flags flags] }
  if update then
    let (uniqueChannels, channelsMap) ← m.getChannelsMap
    return { y with sent := y.sent ++ [.channelsMap uniqueChannels channelsMap] }
  else
    return y

def sendMeasurement (y : AnalyzerServer W) : AnalyzerServer W :=
  let (measures, channelsManager) := y.channelsManager.getChannelsMeasures rdp
  let (pipelineMeasures, measurementManager) := y.measurementManager.getPipelineMeasurements rdp
  { y with
    channelsManager, measurementManager,
    sent := y.sent ++ [.measures measures, .pipelineMeasures pipelineMeasures] }

-- The body of the condition in the loop.
def cycle (config : Config W) (y : AnalyzerServer W) : Except PyError (AnalyzerServer W) := do
  let (measurementManager, m) ← y.measurementManager.run y.channelsManager
  let m ← Checker.runAll config.checkers m
  let y ← sendFlagsAndChannelsMap { y with measurementManager, channelsManager := m }
  let y := { y with flagsCounter := 0, measuresCounter := y.measuresCounter + 1 }
  if y.measuresCounter = 10 then
    return { y.sendMeasurement rdp with measuresCounter := 0 }
  else
    return y

def exec (config : Config W) (y : AnalyzerServer W) : ServerAction → Except PyError (AnalyzerServer W)
  | .compare => do
    let y ← (if y.flagsCounter = config.packetsCycleThreshold then y.cycle rdp config else .ok y)
    return { y with receiving := true }
  | .receive data => do
    let packet ← packetOf little data
    return { y with
      channelsManager := y.channelsManager.addPacket packet y.packetsCount,
      packetsCount    := y.packetsCount + 1,
      flagsCounter    := y.flagsCounter + 1,
      receiving       := false }

end AnalyzerServer

def analyzerServer [LT W] [DecidableLT W] (little : Bool) (rdp : List (Nat × W) → List (Nat × W))
    (config : Config W) : Machine (AnalyzerServer W) ServerAction PyError where
  Init y := y = .new config
  Guard  := AnalyzerServer.Guard
  exec   := AnalyzerServer.exec little rdp config

instance [LT W] [DecidableLT W] (little : Bool) (rdp : List (Nat × W) → List (Nat × W))
    (config : Config W) (y : AnalyzerServer W) (a : ServerAction) :
    Decidable ((analyzerServer little rdp config).Guard y a) :=
  inferInstanceAs (Decidable (y.Guard a))

end PipeRT
