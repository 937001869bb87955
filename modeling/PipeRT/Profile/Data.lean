import PipeRT.Machine
import PipeRT.Profile.Basic

namespace PipeRT

-- A buffer of log data, as far as it is filled.
structure Buffer (D : Type) where
  bytes   : List UInt8
  -- The sender that is named in it, and the records that were left in it.
  sender  : Option (Option CString)
  records : List (Record D)

structure ProfileData (D : Type) where
  dataGroupName : CString
  -- The entries of the hash, in the order of its iterators.
  aggregates    : List (CString × LogAggregate D)
  senderLogger  : SenderLogger
  -- The position of the iterator.
  serializeNext : Nat

namespace ProfileData

variable {D : Type} (F : Double D)

def new (dataGroupName eventPushed : CString) (registered : List CString) (t : Time) :
    ProfileData D where
  dataGroupName := dataGroupName
  aggregates    := registered.map fun name => (name, .clear F t)
  senderLogger  := .new eventPushed
  serializeNext := registered.length

def find? (data : ProfileData D) (eventName : CString) : Option (CString × LogAggregate D) :=
  data.aggregates.find? fun a => a.1.address == eventName.address

-- `Log`, as far as the aggregate goes. It is followed by `TrackSender`.
def log (data : ProfileData D) (eventName : CString) (eventValue : D) :
    Except ProfileFault (ProfileData D) := do
  ensure ((data.find? eventName).isSome = true) .unregistered
  return { data with
    aggregates := data.aggregates.map fun a =>
      if a.1.address = eventName.address then (a.1, a.2.log F eventValue) else a }

def trackSender (data : ProfileData D) (eventName threadName : CString) : ProfileData D :=
  { data with senderLogger := data.senderLogger.trackSender eventName threadName }

def atEnd (data : ProfileData D) : Bool :=
  data.serializeNext == data.aggregates.length

-- `GatherNSerialize` for a buffer of `size` bytes, up to its loop. The size is one of an `int`.
def writeHeader (data : ProfileData D) (size : Nat) :
    Except ProfileFault (ProfileData D × Buffer D) := do
  ensure ((64 : Int) ≤ (size : Int) - 64) .safetyLimit
  let bytes := groupTag ++ serializeString data.dataGroupName.text
  ensure (bytes.length ≤ size) .overrun
  if data.atEnd then
    let sender := data.senderLogger.getTopSender.1
    let (written, senderLogger) := data.senderLogger.serializeNClear
    ensure ((bytes ++ written).length ≤ size) .overrun
    return ({ data with senderLogger, serializeNext := 0 }, ⟨bytes ++ written, some sender, []⟩)
  else
    return (data, ⟨bytes, none, []⟩)

-- Whether the loop goes on.
def goesOn (data : ProfileData D) (size : Nat) (buffer : Buffer D) : Bool :=
  decide ((buffer.bytes.length : Int) ≤ (size : Int) - 64) && !data.atEnd

-- The body of the loop. The record is taken back if its count reads as zero.
def writeRecord (data : ProfileData D) (size : Nat) (buffer : Buffer D) (t t' : Time) :
    Except ProfileFault (ProfileData D × Buffer D) :=
  match data.aggregates[data.serializeNext]? with
  | none                   => return (data, buffer)
  | some (name, aggregate) => do
    let named := buffer.bytes ++ recordTag ++ serializeString name.text
    ensure (named.length ≤ size) .overrun
    let (written, cleared) ← aggregate.serializeNClear F t t'
    let bytes := named ++ written
    ensure (bytes.length ≤ size) .overrun
    let data := { data with
      aggregates    := data.aggregates.set data.serializeNext (name, cleared)
      serializeNext := data.serializeNext + 1 }
    if Bytes.toNat (Bytes.read bytes named.length 4) = 0 then
      return (data, buffer)
    else
      return (data, { buffer with bytes, records := buffer.records ++ [aggregate.record F name t] })

end ProfileData

-- A `ProfileData` that threads log to while one of them serializes it.
structure Profile (D : Type) where
  data    : ProfileData D
  now     : Time
  -- The size of the buffer of the call of `GatherNSerialize` that is under way, and what is in it.
  call    : Option (Nat × Buffer D)
  -- The buffers that earlier calls have filled.
  buffers : List (Buffer D)
  -- What `Log` has been called with.
  events  : List (CString × D)

inductive ProfileAction (D : Type) where
  | tick (t : Time)
  | log (eventName : CString) (eventValue : D)
  | trackSender (eventName threadName : CString)
  -- `GatherNSerialize` is called, goes through its loop once, and returns.
  | gather (size : Nat)
  | record (t t' : Time)
  | finish

namespace Profile

variable {D : Type} (F : Double D)

-- An `int` that overflows has no meaning. No thread serializes while another one does.
def Guard (y : Profile D) : ProfileAction D → Prop
  | .tick t          => y.now ≤ t
  | .log eventName _ =>
    ((y.data.find? eventName).all fun a => decide (a.2.logCount < kMaxInt)) = true
  | .trackSender ..  => True
  | .gather _        => y.call = none
  | .record t t'     => y.now ≤ t ∧ t ≤ t' ∧
    (y.call.any fun (size, buffer) => y.data.goesOn size buffer) = true
  | .finish          => (y.call.any fun (size, buffer) => !y.data.goesOn size buffer) = true

instance (y : Profile D) (a : ProfileAction D) : Decidable (y.Guard a) :=
  match a with
  | .tick t           => inferInstanceAs (Decidable (y.now ≤ t))
  | .log .. | .finish => inferInstanceAs (Decidable (_ = true))
  | .trackSender ..   => inferInstanceAs (Decidable True)
  | .gather _         => decidable_of_iff (y.call.isNone = true) Option.isNone_iff_eq_none
  | .record ..        => inferInstanceAs (Decidable (_ ∧ _ ∧ _ = true))

def exec (y : Profile D) : ProfileAction D → Except ProfileFault (Profile D)
  | .tick t => return { y with now := t }
  | .log eventName eventValue => do
    let data ← y.data.log F eventName eventValue
    return { y with data, events := (eventName, eventValue) :: y.events }
  | .trackSender eventName threadName =>
    return { y with data := y.data.trackSender eventName threadName }
  | .gather size => do
    let (data, buffer) ← y.data.writeHeader size
    return { y with data, call := some (size, buffer) }
  | .record t t' =>
    match y.call with
    | none                => return y
    | some (size, buffer) => do
      let (data, buffer) ← y.data.writeRecord F size buffer t t'
      return { y with data, now := t', call := some (size, buffer) }
  | .finish =>
    match y.call with
    | none             => return y
    | some (_, buffer) => return { y with call := none, buffers := y.buffers ++ [buffer] }

-- Every record that has been serialized and was not taken back.
def emitted (y : Profile D) : List (Record D) :=
  y.buffers.flatMap (·.records) ++ y.call.elim [] (·.2.records)

end Profile

-- The types of events have addresses of their own.
def profile {D : Type} (F : Double D) : Machine (Profile D) (ProfileAction D) ProfileFault where
  Init y := ∃ dataGroupName eventPushed registered t, (registered.map CString.address).Nodup ∧
            y = ⟨.new F dataGroupName eventPushed registered t, t, none, [], []⟩
  Guard  := Profile.Guard
  exec   := Profile.exec F

instance {D : Type} (F : Double D) (y : Profile D) (a : ProfileAction D) :
    Decidable ((profile F).Guard y a) :=
  inferInstanceAs (Decidable (y.Guard a))

end PipeRT
