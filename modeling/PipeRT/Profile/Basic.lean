import PipeRT.Basic
import PipeRT.Profile.Endianness

namespace PipeRT

-- The assertions that profiling can run into.
inductive ProfileFault where
  -- `safety_limit >= 64` in `GatherNSerialize`.
  | safetyLimit
  -- `buf <= buffer_end` in `GatherNSerialize`.
  | overrun
  -- More time has passed than an `int` can tell.
  | timePassed
  -- An event is logged whose type is not registered.
  | unregistered
  -- `Send` is handed a buffer of a size that it does not admit.
  | sendSize
  -- `GatherNSend` is called while it is at work.
  | busy
  deriving DecidableEq, Repr

def ensure (p : Prop) [Decidable p] (f : ProfileFault) : Except ProfileFault Unit :=
  if p then .ok () else .error f

theorem of_ensure {p : Prop} [Decidable p] {f : ProfileFault} {u : Unit}
    (h : ensure p f = .ok u) : p := by
  by_contra hp
  simp [ensure, hp] at h

@[simp]
theorem ensure_of {p : Prop} [Decidable p] {f : ProfileFault} (h : p) : ensure p f = .ok () :=
  if_pos h

-- A `const char*` and the string there. The code compares names by their addresses.
structure CString where
  address : Nat
  text    : List UInt8
  nul     : 0 ∉ text
  deriving DecidableEq

-- `kMaxNameLength` and `kMaxSenderNameLength`.
def kMaxNameLength : Nat :=
  27

-- `SerializeString`, and what `SenderLogger::Serialize` does with a name. The length is one of an `int`.
def serializeString (text : List UInt8) : List UInt8 :=
  text.take kMaxNameLength ++ [0]

def kMaxInt : Int :=
  2 ^ 31 - 1

-- The type `double`, as far as profiling calculates with it.
structure Double (D : Type) where
  zero   : D
  -- `std::numeric_limits<double>::max()`.
  max    : D
  -- `std::numeric_limits<double>::min()`, the least positive number.
  min    : D
  add    : D → D → D
  lt     : D → D → Bool
  divInt : D → Int → D
  bits   : D → BitVec 64

structure LogAggregate (D : Type) where
  logCount           : Int
  aggregationStarted : Time
  min                : D
  max                : D
  sum                : D

-- What is written about an aggregate when it is serialized.
structure Record (D : Type) where
  name     : CString
  logCount : Int
  passed   : Int
  min      : D
  max      : D
  avg      : D

section Aggregate

variable {D : Type} (F : Double D)

def intImage (val : Int) : List UInt8 :=
  convertHostToNetworkByteOrder (n := 4) (BitVec.ofInt 32 val)

def doubleImage (val : D) : List UInt8 :=
  convertHostToNetworkByteOrder (n := 8) (F.bits val)

namespace LogAggregate

def clear (t : Time) : LogAggregate D where
  logCount           := 0
  aggregationStarted := t
  min                := F.max
  max                := F.min
  sum                := F.zero

def log (aggregate : LogAggregate D) (eventValue : D) : LogAggregate D :=
  { aggregate with
    logCount := aggregate.logCount + 1
    sum      := F.add aggregate.sum eventValue
    min      := if F.lt eventValue aggregate.min then eventValue else aggregate.min
    max      := if F.lt aggregate.max eventValue then eventValue else aggregate.max }

def getTimePassedInMicroSecs (aggregate : LogAggregate D) (t : Time) : Except ProfileFault Int := do
  ensure (t - aggregate.aggregationStarted < kMaxInt) .timePassed
  return t - aggregate.aggregationStarted

def getAvg (aggregate : LogAggregate D) : D :=
  if aggregate.logCount ≠ 0 then F.divInt aggregate.sum aggregate.logCount else F.zero

def serialize (aggregate : LogAggregate D) (t : Time) : Except ProfileFault (List UInt8) := do
  let passed ← aggregate.getTimePassedInMicroSecs t
  return intImage aggregate.logCount ++ intImage passed ++ doubleImage F aggregate.min ++
    doubleImage F aggregate.max ++ doubleImage F (aggregate.getAvg F)

-- The clock is read twice.
def serializeNClear (aggregate : LogAggregate D) (t t' : Time) :
    Except ProfileFault (List UInt8 × LogAggregate D) := do
  let bytes ← aggregate.serialize F t
  return (bytes, clear F t')

def record (aggregate : LogAggregate D) (name : CString) (t : Time) : Record D where
  name     := name
  logCount := aggregate.logCount
  passed   := t - aggregate.aggregationStarted
  min      := aggregate.min
  max      := aggregate.max
  avg      := aggregate.getAvg F

end LogAggregate

namespace Record

-- The 32 bytes after the name.
def fields (r : Record D) : List UInt8 :=
  intImage r.logCount ++ intImage r.passed ++ doubleImage F r.min ++ doubleImage F r.max ++
    doubleImage F r.avg

end Record
end Aggregate

-- "DGRP".
def groupTag : List UInt8 :=
  [68, 71, 82, 80]

-- "SEND".
def senderTag : List UInt8 :=
  [83, 69, 78, 68]

-- "LOGA".
def recordTag : List UInt8 :=
  [76, 79, 71, 65]

structure SenderLogger.Sender where
  senderName  : Option CString
  sentPackets : Int

-- The array has as many entries as it had when it was cleared.
structure SenderLogger where
  trackEvent : CString
  senders    : List SenderLogger.Sender

namespace SenderLogger

def kMaxSenders : Nat :=
  4

def clearTopSenders (logger : SenderLogger) : SenderLogger :=
  { logger with senders := .replicate kMaxSenders ⟨none, 0⟩ }

def new (trackEvent : CString) : SenderLogger :=
  clearTopSenders ⟨trackEvent, []⟩

-- `TrackSender`, called by a thread with the given name. A new name takes the first empty entry.
def trackSender (logger : SenderLogger) (eventName threadName : CString) : SenderLogger :=
  if eventName.address ≠ logger.trackEvent.address then
    logger
  else
    { logger with senders := track logger.senders }
where
  track : List Sender → List Sender
    | []               => []
    | entry :: entries =>
      match entry.senderName with
      | none      => ⟨some threadName, 1⟩ :: entries
      | some name =>
        if name.address = threadName.address then
          { entry with sentPackets := entry.sentPackets + 1 } :: entries
        else
          entry :: track entries

-- `std::partial_sort` of the first entry alone: it changes places with every later entry that stands
-- before it.
def partialSort : Sender → List Sender → Sender × List Sender
  | first, []               => (first, [])
  | first, entry :: entries =>
    if first.sentPackets < entry.sentPackets then
      (partialSort entry entries).map id (first :: ·)
    else
      (partialSort first entries).map id (entry :: ·)

def getTopSender (logger : SenderLogger) : Option CString × SenderLogger :=
  match logger.senders with
  | []               => (none, logger)
  | first :: entries =>
    let (top, rest) := partialSort first entries
    (top.senderName, { logger with senders := top :: rest })

-- "N/A" if there is no sender.
def nameOf (sender : Option CString) : List UInt8 :=
  sender.elim [78, 47, 65] (·.text)

def serialize (logger : SenderLogger) : List UInt8 × SenderLogger :=
  let (top, logger) := logger.getTopSender
  (senderTag ++ serializeString (nameOf top), logger)

def serializeNClear (logger : SenderLogger) : List UInt8 × SenderLogger :=
  let (bytes, logger) := logger.serialize
  (bytes, logger.clearTopSenders)

end SenderLogger
end PipeRT
