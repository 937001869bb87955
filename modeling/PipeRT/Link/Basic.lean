import PipeRT.Link.Protocol

namespace PipeRT

-- What the connection setup sees of the `SchedulerImpl` of a computer.
structure Host where
  running    : Bool
  validState : Bool
  deriving DecidableEq, Repr

namespace Host

def setStateInvalid (host : Host) : Except Fault Host := do
  check (host.running = false)
  return { host with validState := false }

-- `AddReceiver` and `RegisterChannel` only grow lists.
def addReceiver (host : Host) : Except Fault Host := do
  check (host.running = false)
  return host

def registerChannel (host : Host) : Except Fault Host := do
  check (host.running = false)
  return host

def start (host : Host) : Except Fault Host := do
  check (host.running = false)
  check (host.validState = true)
  return { host with running := true }

def stop (host : Host) : Except Fault Host := do
  check (host.running = true)
  return { host with running := false }

end Host

-- A `NetworkPacket<T>` in memory: its timestamp, its unused operation timestamp and its data.
namespace NetworkPacket

variable {T : Type}

def offset (L : Layout T) : Nat :=
  Layout.roundUp 16 L.align

def size (L : Layout T) : Nat :=
  Layout.roundUp (offset L + L.size) (max 8 L.align)

-- The constructor writes to the fields `timestamp_` and `data_`. The rest stays as it was.
def construct (L : Layout T) (memory : List UInt8) (timestamp : Int64) (data : T) : List UInt8 :=
  Bytes.write (Bytes.write memory 0 (Layout.int64.toBytes timestamp)) (offset L) (L.toBytes data)

def timestamp (packet : List UInt8) : Int64 :=
  Layout.int64.ofBytes (Bytes.read packet 0 8)

def data (L : Layout T) (packet : List UInt8) : T :=
  L.ofBytes (Bytes.read packet (offset L) L.size)

end NetworkPacket

-- A call of `CreateSenderChannel`, and of the constructor of `Receiver`, stops where the handshake
-- waits for a datagram. The receiver also sends its answer in a step of its own.
inductive Handshake where
  | ready
  | waiting
  | compared (remoteProperties : CompatibilityChecker)
  | returned (success : Bool)
  deriving DecidableEq, Repr

def Handshake.isCompared : Handshake → Bool
  | .compared _ => true
  | _           => false

def Handshake.isReturned : Handshake → Bool
  | .returned _ => true
  | _           => false

structure Sender (T : Type) where
  host            : Host
  connection      : UDPConnection
  localProperties : CompatibilityChecker
  handshake       : Handshake
  -- What `SendPacket` was called with, and the object that it sent.
  packets         : List ((Int64 × T) × List UInt8)

structure Receiver (T : Type) where
  host            : Host
  connection      : UDPConnection
  localProperties : CompatibilityChecker
  handshake       : Handshake
  -- The properties that the handshake has compared to its own.
  compared        : Option CompatibilityChecker
  running         : Bool
  -- What `ReceivePacket` has called `Acquire` of `ch_to_write_` with.
  acquired        : List (Int64 × T)

structure Link (T : Type) where
  net      : Wire
  sender   : Sender T
  receiver : Receiver T

inductive LinkAction (T : Type) where
  -- The network brings a datagram to a socket.
  | deliver (d : Datagram Side (List UInt8))
  | createSenderChannel
  | answered (buffer : List UInt8)
  | startSender
  | stopSender
  | sendPacket (memory : List UInt8) (timestamp : Int64) (data : T)
  | createReceiver (remoteProperties : List UInt8)
  | answer
  | startReceiver
  | stopReceiver
  -- An iteration of the loop of `ReceivePacket`, with what is in its uninitialised packet.
  | receivePacket (memory : List UInt8) (error : Bool)

namespace Link

variable {T : Type}

-- The memory of an uninitialised object is as large as the object. A call that blocks does not
-- return.
def Guard (L : Layout T) (y : Link T) : LinkAction T → Prop
  | .deliver d                       => d ∈ y.net.sent
  | .createSenderChannel             => y.sender.handshake = .ready
  | .answered buffer                 =>
    y.sender.handshake = .waiting ∧ buffer.length = 9 ∧ ¬y.sender.connection.Blocks .sender y.net
  | .startSender | .stopSender       => True
  | .sendPacket memory _ _           =>
    y.sender.host.running = true ∧ memory.length = NetworkPacket.size L ∧
    y.sender.handshake.isReturned = true
  | .createReceiver remoteProperties =>
    y.receiver.handshake = .ready ∧ remoteProperties.length = CompatibilityChecker.layout.size ∧
    ¬y.receiver.connection.Blocks .receiver y.net
  | .answer                          => y.receiver.handshake.isCompared = true
  | .startReceiver | .stopReceiver   => True
  | .receivePacket memory _          =>
    y.receiver.running = true ∧ memory.length = NetworkPacket.size L

def exec (L : Layout T) (y : Link T) : LinkAction T → Except Fault (Link T)
  | .deliver d => return { y with net := y.net.deliver d }
  | .createSenderChannel => do
    let connection := y.sender.connection.setBlockingMode false
    let net ← Protocol.senderSideHandshake connection y.net y.sender.localProperties
    return { y with net, sender := { y.sender with connection, handshake := .waiting } }
  | .answered buffer => do
    let (success, connection, net) ←
      Protocol.senderSideHandshakeResult y.sender.connection y.net buffer
    let host ← (if !success then y.sender.host.setStateInvalid else .ok y.sender.host)
    let host ← host.registerChannel
    return { y with net, sender := { y.sender with host, connection, handshake := .returned success } }
  | .startSender => do
    let host ← y.sender.host.start
    return { y with sender := { y.sender with host } }
  | .stopSender => do
    let host ← y.sender.host.stop
    return { y with sender := { y.sender with host } }
  | .sendPacket memory timestamp data => do
    let packet := NetworkPacket.construct L memory timestamp data
    let net ← y.sender.connection.send .sender y.net packet
    return { y with
      net
      sender := { y.sender with packets := ((timestamp, data), packet) :: y.sender.packets } }
  | .createReceiver remoteProperties => do
    let (remote, connection, net) ←
      Protocol.receiverSideHandshake y.receiver.connection y.net remoteProperties
    return { y with
      net
      receiver := {
        y.receiver with connection, handshake := .compared remote, compared := some remote } }
  | .answer =>
    match y.receiver.handshake with
    | .compared remote => do
      let (success, net) ← Protocol.receiverSideHandshakeResult y.receiver.connection y.net
        y.receiver.localProperties remote
      let host ← (if success then y.receiver.host.addReceiver else y.receiver.host.setStateInvalid)
      return { y with net, receiver := { y.receiver with host, handshake := .returned success } }
    | _ => return y
  | .startReceiver => do
    let host ← y.receiver.host.start
    -- Only a receiver that was added to the scheduler is started.
    let running := y.receiver.handshake = .returned true
    return { y with receiver := { y.receiver with host, running } }
  | .stopReceiver => do
    let host ← y.receiver.host.stop
    return { y with receiver := { y.receiver with host, running := false } }
  | .receivePacket memory error => do
    if 0 < y.receiver.connection.poll .receiver y.net error then
      let r ← y.receiver.connection.receive .receiver y.net memory error
      let packet := (NetworkPacket.timestamp r.buffer, NetworkPacket.data L r.buffer)
      return { y with
        net      := r.net
        receiver := {
          y.receiver with connection := r.connection, acquired := packet :: y.receiver.acquired } }
    else
      return y

instance (L : Layout T) (y : Link T) (a : LinkAction T) : Decidable (y.Guard L a) :=
  match a with
  | .deliver _ => inferInstanceAs (Decidable (_ ∈ _))
  | .createSenderChannel | .answer => inferInstanceAs (Decidable (_ = _))
  | .answered _ | .sendPacket .. | .createReceiver _ => inferInstanceAs (Decidable (_ ∧ _ ∧ _))
  | .receivePacket .. => inferInstanceAs (Decidable (_ ∧ _))
  | .startSender | .stopSender | .startReceiver | .stopReceiver => inferInstanceAs (Decidable True)

end Link

-- Both computers are set up, and know nothing of each other but the address of the receiver. The
-- socket of the receiver blocks, as every socket does unless it is told not to.
structure Link.Init {T : Type} (y : Link T) : Prop where
  net                : y.net = .silent
  senderHandshake    : y.sender.handshake = .ready
  receiverHandshake  : y.receiver.handshake = .ready
  senderHost         : y.sender.host = ⟨false, true⟩
  receiverHost       : y.receiver.host = ⟨false, true⟩
  senderConnected    : y.sender.connection.isConnected = true
  receiverConnected  : y.receiver.connection.isConnected = true
  remoteAddress      : y.sender.connection.remoteAddress = some .receiver
  blocking           : y.receiver.connection.nonblock = false
  packets            : y.sender.packets = []
  compared           : y.receiver.compared = none
  running            : y.receiver.running = false
  acquired           : y.receiver.acquired = []

-- A sender and a receiver of packets of type `T`, and the network between them.
def link {T : Type} (L : Layout T) : Machine (Link T) (LinkAction T) Fault where
  Init  := Link.Init
  Guard := Link.Guard L
  exec  := Link.exec L

instance {T : Type} (L : Layout T) (y : Link T) (a : LinkAction T) :
    Decidable ((link L).Guard y a) :=
  inferInstanceAs (Decidable (y.Guard L a))

end PipeRT
