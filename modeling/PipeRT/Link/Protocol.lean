import PipeRT.Basic
import PipeRT.Bytes
import PipeRT.Machine
import PipeRT.Network

namespace PipeRT

-- The two computers that a pipeline runs on.
inductive Side where
  | sender
  | receiver
  deriving DecidableEq, Repr

abbrev Wire :=
  Network Side (List UInt8)

structure UDPConnection where
  socketFiledesc : Int
  maxPacketSize  : Int
  -- Where `Send` sends to, unless `sockaddr_in` is still all zeros.
  remoteAddress  : Option Side
  -- The flag `O_NONBLOCK` of the socket.
  nonblock       : Bool
  deriving DecidableEq, Repr

namespace UDPConnection

def isConnected (connection : UDPConnection) : Bool :=
  connection.socketFiledesc != -1

def setBlockingMode (connection : UDPConnection) (isBlocking : Bool) : UDPConnection :=
  if connection.nonblock && !isBlocking || !connection.nonblock && isBlocking then
    connection
  else
    { connection with
      nonblock := if isBlocking then connection.nonblock ^^ true else connection.nonblock || true }

-- What `Send` and `Receive` assert of a size.
def Admits (connection : UDPConnection) (size : Nat) : Prop :=
  0 < size ∧ (size : Int) ≤ connection.maxPacketSize

instance (connection : UDPConnection) (size : Nat) : Decidable (connection.Admits size) :=
  inferInstanceAs (Decidable (_ ∧ _))

-- `Send`, from the socket of `side`.
def send (connection : UDPConnection) (side : Side) (net : Wire) (buffer : List UInt8) :
    Except Fault Wire := do
  check (connection.Admits buffer.length)
  if connection.isConnected then
    match connection.remoteAddress with
    | some destination => return net.send ⟨side, destination, buffer⟩
    | none             => return net
  else
    return net

-- `poll` finds datagrams and errors.
def poll (connection : UDPConnection) (side : Side) (net : Wire) (error : Bool) : Int :=
  if connection.isConnected then
    if error || !(net.inbox side).isEmpty then 1 else 0
  else
    -1

-- Whether `recvfrom` waits for a datagram to arrive.
def Blocks (connection : UDPConnection) (side : Side) (net : Wire) : Prop :=
  connection.isConnected ∧ connection.nonblock = false ∧ net.inbox side = []

instance (connection : UDPConnection) (side : Side) (net : Wire) :
    Decidable (connection.Blocks side net) :=
  inferInstanceAs (Decidable (_ ∧ _ ∧ _))

-- What a call of `Receive` leaves behind.
structure Received where
  result     : Int
  buffer     : List UInt8
  connection : UDPConnection
  net        : Wire

-- `Receive`, at the socket of `side`, when it does not block. The system fills the buffer as far as
-- the datagram goes, and does not touch it if there is no datagram or if there is an error.
def receive (connection : UDPConnection) (side : Side) (net : Wire) (buffer : List UInt8)
    (error : Bool) : Except Fault Received := do
  check (connection.Admits buffer.length)
  if connection.isConnected && !error then
    match net.receive side with
    | some (d, net) =>
      let bytes := d.payload.take buffer.length
      return ⟨bytes.length, Bytes.write buffer 0 bytes,
        { connection with remoteAddress := some d.source }, net⟩
    | none => return ⟨-1, buffer, connection, net⟩
  else
    return ⟨-1, buffer, connection, net⟩

end UDPConnection

-- The properties of a computer, each of them a `size_t`.
structure CompatibilityChecker where
  sizeofInt     : UInt64
  sizeofIntptr  : UInt64
  sizeofBool    : UInt64
  sizeofT       : UInt64
  alignofInt    : UInt64
  alignofIntptr : UInt64
  alignofBool   : UInt64
  alignofT      : UInt64
  deriving DecidableEq, Repr

namespace CompatibilityChecker

-- `operator==`.
def equal (checker other : CompatibilityChecker) : Bool :=
  checker.sizeofInt == other.sizeofInt &&
  checker.sizeofIntptr == other.sizeofIntptr &&
  checker.sizeofBool == other.sizeofBool &&
  checker.sizeofT == other.sizeofT &&
  checker.alignofInt == other.alignofInt &&
  checker.alignofIntptr == other.alignofIntptr &&
  checker.alignofBool == other.alignofBool &&
  checker.alignofT == other.alignofT

theorem equal_iff {checker other : CompatibilityChecker} :
    checker.equal other = true ↔ checker = other := by
  cases checker
  cases other
  simp [equal, and_assoc]

def layout : Layout CompatibilityChecker :=
  let w := Layout.uint64
  (w.prod <| w.prod <| w.prod <| w.prod <| w.prod <| w.prod <| w.prod w).map {
    toFun    := fun ⟨a, b, c, d, e, f, g, h⟩ => ⟨a, b, c, d, e, f, g, h⟩
    invFun   := fun ⟨a, b, c, d, e, f, g, h⟩ => ⟨a, b, c, d, e, f, g, h⟩
  }

end CompatibilityChecker

namespace Protocol

-- "CONN_EST", with the zero at its end.
def kHandshakeSuccessMsg : List UInt8 :=
  [67, 79, 78, 78, 95, 69, 83, 84, 0]

-- "CONN_ERR", with the zero at its end.
def kHandshakeErrorMsg : List UInt8 :=
  [67, 79, 78, 78, 95, 69, 82, 82, 0]

-- Whether `strcmp` finds no difference up to the end of both strings.
def strcmpZero : List UInt8 → List UInt8 → Bool
  | a :: as, b :: bs => a == b && (a == 0 || strcmpZero as bs)
  | _,       _       => false

-- `SenderSideHandshake` until it calls `Receive`.
def senderSideHandshake (connection : UDPConnection) (net : Wire)
    (localProperties : CompatibilityChecker) : Except Fault Wire :=
  connection.send .sender net (CompatibilityChecker.layout.toBytes localProperties)

-- The rest of it, with what the uninitialised buffer has in it.
def senderSideHandshakeResult (connection : UDPConnection) (net : Wire) (buffer : List UInt8) :
    Except Fault (Bool × UDPConnection × Wire) := do
  let r ← connection.receive .sender net buffer false
  return (!strcmpZero r.buffer kHandshakeErrorMsg, r.connection, r.net)

-- `ReceiverSideHandshake` until it has the properties of the sender, with what was in the
-- uninitialised `remote_properties`.
def receiverSideHandshake (connection : UDPConnection) (net : Wire) (remoteProperties : List UInt8) :
    Except Fault (CompatibilityChecker × UDPConnection × Wire) := do
  let r ← connection.receive .receiver net remoteProperties false
  return (CompatibilityChecker.layout.ofBytes r.buffer, r.connection, r.net)

-- The rest of it.
def receiverSideHandshakeResult (connection : UDPConnection) (net : Wire)
    (localProperties remoteProperties : CompatibilityChecker) : Except Fault (Bool × Wire) := do
  if localProperties.equal remoteProperties then
    let net ← connection.send .receiver net kHandshakeSuccessMsg
    return (true, net)
  else
    let net ← connection.send .receiver net kHandshakeErrorMsg
    return (false, net)

end Protocol
end PipeRT
