import PipeRT.Link.Protocol
import PipeRT.Profile.Data

namespace PipeRT

-- What `Profiler` makes of its URI.
inductive Destination where
  | udp (connection : UDPConnection)
  | file

namespace Destination

-- `max_packet_size` if the constructor of `UDPConnection` is not told otherwise.
def defaultMaxPacketSize : Int :=
  508

-- What `SendToUDP` and `SendToFile` assert of a size.
def Admits (destination : Destination) (size : Nat) : Prop :=
  match destination with
  | .udp connection => connection.Admits size
  | .file           => 0 < size

instance (destination : Destination) (size : Nat) : Decidable (destination.Admits size) :=
  match destination with
  | .udp connection => inferInstanceAs (Decidable (connection.Admits size))
  | .file           => inferInstanceAs (Decidable (0 < size))

-- The size of the buffer that `Profiler` asks for, given its own parameter.
def bufferSize (destination : Destination) (requested : Int) : Int :=
  match destination with
  | .udp _ => if requested = 0 then 508 else requested
  | .file  => if requested = 0 then 4096 else requested

end Destination

structure ProfilerImpl (D : Type) where
  destination     : Destination
  bufferSize      : Nat
  profileData     : List (Profile D)
  -- The number `-1` stands for `none`.
  nextProfileData : Option Nat
  -- How many aggregates the current iteration of the inner loop of `GatherNSend` has been through.
  consumed        : Nat

inductive ProfilerAction (D : Type) where
  -- Something that happens to one of the data in another thread.
  | data (i : Nat) (a : ProfileAction D)
  -- `GatherNSend` is called, calls `GatherNSerialize`, which goes through its loop, and sends what it
  -- returned.
  | gatherNSend
  | gather
  | record (t t' : Time)
  | send

def ProfileAction.isOther {D : Type} : ProfileAction D → Bool
  | .tick _ | .log .. | .trackSender .. => true
  | .gather _ | .record .. | .finish    => false

-- Whether it is a step of the thread that has called `GatherNSend`.
def ProfilerAction.isOwn {D : Type} : ProfilerAction D → Bool
  | .gather | .record .. | .send => true
  | .data .. | .gatherNSend      => false

namespace ProfilerImpl

variable {D : Type} (F : Double D)

-- What the constructor asserts.
def Accepts (bufferSize : Int) : Prop :=
  64 ≤ bufferSize

def current? (y : ProfilerImpl D) : Option (Profile D) :=
  y.nextProfileData.bind fun i => y.profileData[i]?

-- The condition of the outer loop.
def proceed (y : ProfilerImpl D) (i : Nat) : ProfilerImpl D :=
  { y with nextProfileData := if i < y.profileData.length then some i else none }

def act (y : ProfilerImpl D) (i : Nat) (a : ProfileAction D) : Except ProfileFault (ProfilerImpl D) :=
  match y.profileData[i]? with
  | none   => return y
  | some p => do
    let p ← p.exec F a
    return { y with profileData := y.profileData.set i p }

-- What `GatherNSerialize` returns, and how far it got.
def returned (p : Profile D) : Nat × Bool :=
  (p.call.elim 0 (·.2.bytes.length), !p.data.atEnd)

def Guard (y : ProfilerImpl D) : ProfilerAction D → Prop
  | .data i a    => a.isOther = true ∧ (y.profileData[i]?.any fun p => decide (p.Guard a)) = true
  | .gatherNSend => True
  | .gather      => (y.current?.any fun p => decide (p.Guard (.gather y.bufferSize))) = true
  | .record t t' => (y.current?.any fun p => decide (p.Guard (.record t t'))) = true
  | .send        => (y.current?.any fun p => decide (p.Guard .finish)) = true

instance (y : ProfilerImpl D) (a : ProfilerAction D) : Decidable (y.Guard a) :=
  match a with
  | .data ..                     => inferInstanceAs (Decidable (_ = true ∧ _ = true))
  | .gatherNSend                 => inferInstanceAs (Decidable True)
  | .gather | .record .. | .send => inferInstanceAs (Decidable (_ = true))

def exec (y : ProfilerImpl D) : ProfilerAction D → Except ProfileFault (ProfilerImpl D)
  | .data i a    => y.act F i a
  | .gatherNSend => do
    ensure (y.nextProfileData = none) .busy
    return y.proceed 0
  | .gather      =>
    match y.nextProfileData with
    | none   => return y
    | some i => do
      let y ← y.act F i (.gather y.bufferSize)
      return { y with consumed := 0 }
  | .record t t' =>
    match y.nextProfileData with
    | none   => return y
    | some i => do
      let y ← y.act F i (.record t t')
      return { y with consumed := y.consumed + 1 }
  | .send        =>
    match y.nextProfileData with
    | none   => return y
    | some i => do
      let (size, more) := (y.current?.map returned).getD (0, false)
      let y ← y.act F i .finish
      ensure (y.destination.Admits size) .sendSize
      return y.proceed (if more then i else i + 1)

end ProfilerImpl

-- The data of the channels and the size of the buffer are any that the constructors accept.
structure ProfilerImpl.Init {D : Type} (F : Double D) (y : ProfilerImpl D) : Prop where
  profileData     : ∀ p ∈ y.profileData, (profile F).Init p
  bufferSize      : ∃ requested, (y.bufferSize : Int) = y.destination.bufferSize requested
  accepts         : Accepts y.bufferSize
  maxPacketSize   : ∀ connection, y.destination = .udp connection →
                    connection.maxPacketSize = Destination.defaultMaxPacketSize
  nextProfileData : y.nextProfileData = none

def profiler {D : Type} (F : Double D) : Machine (ProfilerImpl D) (ProfilerAction D) ProfileFault where
  Init  := ProfilerImpl.Init F
  Guard := ProfilerImpl.Guard
  exec  := ProfilerImpl.exec F

instance {D : Type} (F : Double D) (y : ProfilerImpl D) (a : ProfilerAction D) :
    Decidable ((profiler F).Guard y a) :=
  inferInstanceAs (Decidable (y.Guard a))

end PipeRT
