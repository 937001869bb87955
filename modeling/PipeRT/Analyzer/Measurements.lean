import PipeRT.Analyzer.Channels

-- The numbers of the events are taken as rational ones here, and calculation does not round.
namespace PipeRT

-- "Packet Dropped".
def packetDropped : Str :=
  ['P', 'a', 'c', 'k', 'e', 't', ' ', 'D', 'r', 'o', 'p', 'p', 'e', 'd']

-- "Packet Retrieved".
def packetRetrieved : Str :=
  ['P', 'a', 'c', 'k', 'e', 't', ' ', 'R', 'e', 't', 'r', 'i', 'e', 'v', 'e', 'd']

-- "Execution Time", which the source spells `EXECTION_TIME`.
def executionTime : Str :=
  ['E', 'x', 'e', 'c', 'u', 't', 'i', 'o', 'n', ' ', 'T', 'i', 'm', 'e']

-- "Read Time".
def readTime : Str :=
  ['R', 'e', 'a', 'd', ' ', 'T', 'i', 'm', 'e']

-- "Fill Time".
def fillTime : Str :=
  ['F', 'i', 'l', 'l', ' ', 'T', 'i', 'm', 'e']

-- "External".
def externalWord : Str :=
  ['E', 'x', 't', 'e', 'r', 'n', 'a', 'l']

def calcAvg (lst : List ℚ) : ℚ :=
  if lst = [] then 0 else lst.sum / lst.length

variable {W : Type}

section Channels

-- The drops for every event of the given type.
def dropMeasurement (eventType : Str) (channel : Channel ℚ W) : ℚ :=
  let nrDroppedEvent := (channel.getEvent packetDropped).length
  let nrEvent := (channel.getEvent eventType).length
  if nrDroppedEvent = 0 ∧ nrEvent = 0 then -1
  else if nrEvent = 0 then 1
  else if nrDroppedEvent = 0 then 0
  else nrDroppedEvent / nrEvent

def dropRateMeasurement : Channel ℚ W → ℚ :=
  dropMeasurement executionTime

def dropRatioMeasurement : Channel ℚ W → ℚ :=
  dropMeasurement readTime

def executionTimeMeasurement (channel : Channel ℚ W) : ℚ :=
  let executionEvents := channel.getEvent executionTime
  if executionEvents.length = 0 then -1
  else (executionEvents.map Event.avgVal).sum / executionEvents.length

def averageMeasurement (eventType : Str) (channel : Channel ℚ W) : ℚ :=
  let timeAverage := (channel.getEvent eventType).map Event.avgVal
  if timeAverage = [] then 0 else calcAvg timeAverage

def fillTimeMeasurement : Channel ℚ W → ℚ :=
  averageMeasurement fillTime

def readTimeMeasurement : Channel ℚ W → ℚ :=
  averageMeasurement readTime

end Channels

namespace TimeToBufferAverage

-- The condition of the filter, for the two parts of what `get_channels_map` returns. A pair of
-- indices is never equal to a name.
def isNames (channelName : Str) : List Str → Except PyError Bool
  | first :: second :: _ => .ok (second == channelName && !externalWord.isPrefixOf first)
  | _                    => .error .indexError

def isConnections : List (Nat × Nat) → Except PyError Bool
  | _ :: _ :: _ => .ok false
  | _           => .error .indexError

def average (events : List (Event ℚ)) : ℚ :=
  calcAvg <| events.map fun event => (event.maxVal - event.minVal) / 2

-- What is calculated from the previous channel.
def result (channel previousChannel : Channel ℚ W) : ℚ :=
  let result := average (channel.getEvent packetPushed) -
    average (previousChannel.getEvent packetRetrieved) + average (previousChannel.getEvent executionTime)
  if result < 0 then -1 else result

def measure (m : ChannelsManager ℚ W) (channel : Channel ℚ W) : Except PyError ℚ := do
  let (uniqueChannels, connections) ← m.getChannelsMap
  let names ← isNames channel.name uniqueChannels
  let _ ← isConnections connections
  if names then
    match uniqueChannels with
    | []                       => .error .indexError
    | previousChannelName :: _ =>
      match m.channels.find? fun c => c.name == previousChannelName with
      | none                 => .error .indexError
      | some previousChannel => return result channel previousChannel
  else
    return 0

end TimeToBufferAverage

namespace TotalExecutionTimeRatio

def calculateMaxExecutionTime (channel : Channel ℚ W) : ℚ :=
  let executionEvents := channel.getEvent executionTime
  if executionEvents.length = 0 then -1 else (executionEvents.map Event.maxVal).sum

def getPipelineMaximumTotalExecutionTime (m : ChannelsManager ℚ W) : ℚ :=
  let maximumExecutionTimes := (m.channels.map calculateMaxExecutionTime).filter (· ≠ -1)
  if maximumExecutionTimes.length > 0 then maximumExecutionTimes.sum else -1

def getMinimumPassedTimeEvent (channel : Channel ℚ W) : ℚ :=
  ((channel.getEvent packetPushed).map Event.minVal).min?.getD (-1)

def getMaximumPassedTimeEvent (channel : Channel ℚ W) : ℚ :=
  ((channel.getEvent packetRetrieved).map Event.maxVal).max?.getD (-1)

def getPipelineThrustSpentTime (m : ChannelsManager ℚ W) : ℚ :=
  let minimumSpentTimes := (m.channels.map getMinimumPassedTimeEvent).filter (· ≠ -1)
  let maximumSpentTimes := (m.channels.map getMaximumPassedTimeEvent).filter (· ≠ -1)
  match maximumSpentTimes.max?, minimumSpentTimes.min? with
  | some maximum, some minimum => maximum - minimum
  | _,            _            => -2

-- Both conditions ask twice for the same number.
def measure (m : ChannelsManager ℚ W) : ℚ :=
  let pipelineTotalTime := getPipelineThrustSpentTime m
  let pipelineTotalExecutionTime := getPipelineMaximumTotalExecutionTime m
  if pipelineTotalTime ≠ -1 ∧ pipelineTotalTime ≠ -1 then
    if pipelineTotalTime ≠ 0 ∧ pipelineTotalTime ≠ 0 then
      pipelineTotalExecutionTime / pipelineTotalTime
    else
      -1
  else
    -1

end TotalExecutionTimeRatio

-- A record of a single event, and channels with the given events.
def single (eventType : Str) (minVal maxVal : ℚ) : Event ℚ :=
  ⟨['L', 'O', 'G', 'A'] ++ eventType, 1, 1, minVal, maxVal, (minVal + maxVal) / 2⟩

def holding (name : Str) (events : List (Event ℚ)) : Channel ℚ ℚ :=
  .new name events 1

end PipeRT
