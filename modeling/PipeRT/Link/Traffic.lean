import PipeRT.Link.Basic

namespace PipeRT

namespace UDPConnection

variable {connection : UDPConnection} {side destination : Side} {net net' : Wire}
variable {buffer : List UInt8} {error : Bool} {r : Received}

theorem setBlockingMode_eq (isBlocking : Bool) :
    connection.setBlockingMode isBlocking = { connection with nonblock := !isBlocking } := by
  cases connection
  case mk _ _ _ nonblock => cases isBlocking <;> cases nonblock <;> rfl

theorem send_eq (hc : connection.isConnected = true) (ha : connection.remoteAddress = some destination)
    (h : connection.send side net buffer = .ok net') : net' = net.send ⟨side, destination, buffer⟩ := by
  have ⟨_, _, h⟩ := bind_eq_ok.mp h
  simpa [hc, ha, eq_comm] using h

-- What `Receive` does if there is a datagram, and if there is none or the call fails.
inductive Receives (connection : UDPConnection) (side : Side) (net : Wire) (buffer : List UInt8)
    (error : Bool) : Received → Prop
  | datagram {d net' result} : error = false → net.receive side = some (d, net') →
    Receives connection side net buffer error ⟨result, Bytes.write buffer 0 (d.payload.take buffer.length),
      { connection with remoteAddress := some d.source }, net'⟩
  | nothing : (error = false → net.inbox side = []) →
    Receives connection side net buffer error ⟨-1, buffer, connection, net⟩

theorem receives_of_receive (hc : connection.isConnected = true)
    (h : connection.receive side net buffer error = .ok r) :
    Receives connection side net buffer error r := by
  obtain ⟨_, _, h⟩ := bind_eq_ok.mp h
  cases error
  case true =>
    obtain rfl : _ = r := by simpa using h
    exact .nothing nofun
  case false =>
    cases hn : net.receive side
    case none =>
      obtain rfl : _ = r := by simpa [hc, hn] using h
      exact .nothing fun _ => Network.receive_eq_none.mp hn
    case some next =>
      obtain rfl : _ = r := by simpa [hc, hn] using h
      exact .datagram rfl hn

end UDPConnection

theorem Protocol.receiverSideHandshakeResult_eq {connection : UDPConnection} {net net' : Wire}
    {destination : Side} {localProperties remoteProperties : CompatibilityChecker} {success : Bool}
    (hc : connection.isConnected = true) (ha : connection.remoteAddress = some destination)
    (h : receiverSideHandshakeResult connection net localProperties remoteProperties =
      .ok (success, net')) :
    success = localProperties.equal remoteProperties ∧
    net' = net.send ⟨.receiver, destination,
      if success then kHandshakeSuccessMsg else kHandshakeErrorMsg⟩ := by
  rw [receiverSideHandshakeResult] at h
  split at h
  case isTrue heq =>
    obtain ⟨_, hs, h⟩ := bind_eq_ok.mp h
    obtain ⟨rfl, rfl⟩ := Prod.mk.inj (Except.ok.inj h)
    exact ⟨heq.symm, UDPConnection.send_eq hc ha hs⟩
  case isFalse heq =>
    obtain ⟨_, hs, h⟩ := bind_eq_ok.mp h
    obtain ⟨rfl, rfl⟩ := Prod.mk.inj (Except.ok.inj h)
    exact ⟨(Bool.eq_false_iff.mpr heq).symm, UDPConnection.send_eq hc ha hs⟩

namespace NetworkPacket

variable {T : Type} {L : Layout T} {memory : List UInt8} {t : Int64} {x : T}

theorem le_offset : 8 ≤ offset L := by
  have h : 16 ≤ offset L := Layout.le_roundUp L.align_pos
  omega

theorem offset_le_size : offset L + L.size ≤ size L :=
  Layout.le_roundUp <| lt_max_of_lt_right L.align_pos

-- The constructor writes the timestamp first.
theorem length_stamped (h : memory.length = size L) :
    (Bytes.write memory 0 (Layout.int64.toBytes t)).length = size L := by
  have := le_offset (L := L)
  have := offset_le_size (L := L)
  have ht : (Layout.int64.toBytes t).length = 8 := Layout.int64.length_toBytes t
  rw [Bytes.length_write, h]
  omega

theorem length_construct (h : memory.length = size L) : (construct L memory t x).length = size L := by
  have := offset_le_size (L := L)
  have hw := length_stamped (t := t) h
  rw [construct, Bytes.length_write, hw]
  rw [hw, L.length_toBytes]
  omega

theorem timestamp_construct (h : memory.length = size L) : timestamp (construct L memory t x) = t := by
  have := le_offset (L := L)
  have := offset_le_size (L := L)
  have hw := length_stamped (t := t) h
  have ht : (Layout.int64.toBytes t).length = 8 := Layout.int64.length_toBytes t
  have hread : Bytes.read (Bytes.write memory 0 (Layout.int64.toBytes t)) 0 8 =
      Layout.int64.toBytes t := by
    rw [← ht]
    exact Bytes.read_write_self (Nat.zero_le _)
  rw [timestamp, construct, Bytes.read_write_below (by omega) (by omega), hread,
    Layout.ofBytes_toBytes]

theorem data_construct (h : memory.length = size L) : data L (construct L memory t x) = x := by
  have := offset_le_size (L := L)
  have hw := length_stamped (t := t) h
  have hread : Bytes.read (construct L memory t x) (offset L) L.size = L.toBytes x := by
    rw [construct, ← L.length_toBytes x]
    exact Bytes.read_write_self <| by omega
  rw [data, hread, Layout.ofBytes_toBytes]

end NetworkPacket

-- What is under way between the two sides: the handshake record of the sender and the objects that
-- `SendPacket` has sent, and anything in the other direction.
structure Traffic {T : Type} (net : Wire) (record : List UInt8)
    (packets : List ((Int64 × T) × List UInt8)) : Prop where
  genuine      : net.Genuine
  fromSender   : ∀ d ∈ net.sent, d.destination = .receiver → d.source = .sender
  fromReceiver : ∀ d ∈ net.sent, d.destination = .sender → d.source = .receiver
  payload      : ∀ d ∈ net.sent, d.destination = .receiver →
                 d.payload = record ∨ ∃ p, (p, d.payload) ∈ packets

namespace Traffic

variable {T : Type} {net net' : Wire} {record buffer : List UInt8} {side : Side}
variable {packets : List ((Int64 × T) × List UInt8)} {d : Datagram Side (List UInt8)}

theorem deliver (h : Traffic net record packets) (hd : d ∈ net.sent) :
    Traffic (net.deliver d) record packets :=
  { h with genuine := h.genuine.deliver hd }

theorem receive (h : Traffic net record packets) (hr : net.receive side = some (d, net')) :
    Traffic net' record packets := by
  have hsent := Network.receive_sent hr
  refine ⟨h.genuine.receive hr, ?_, ?_, ?_⟩
  all_goals rw [hsent]
  · exact h.fromSender
  · exact h.fromReceiver
  · exact h.payload

theorem sendRecord (h : Traffic net record packets) :
    Traffic (net.send ⟨.sender, .receiver, record⟩) record packets where
  genuine      := h.genuine.send
  fromSender   := List.forall_mem_cons.mpr ⟨fun _ => rfl, h.fromSender⟩
  fromReceiver := List.forall_mem_cons.mpr ⟨nofun, h.fromReceiver⟩
  payload      := List.forall_mem_cons.mpr ⟨fun _ => .inl rfl, h.payload⟩

theorem sendPacket (h : Traffic net record packets) (p : Int64 × T) (memory : List UInt8) :
    Traffic (net.send ⟨.sender, .receiver, memory⟩) record ((p, memory) :: packets) where
  genuine      := h.genuine.send
  fromSender   := List.forall_mem_cons.mpr ⟨fun _ => rfl, h.fromSender⟩
  fromReceiver := List.forall_mem_cons.mpr ⟨nofun, h.fromReceiver⟩
  payload      := by
    refine List.forall_mem_cons.mpr ⟨fun _ => .inr ⟨p, List.mem_cons_self⟩, fun d hd hr => ?_⟩
    cases h.payload d hd hr
    case inl hd => exact .inl hd
    case inr hd =>
      obtain ⟨p', hp⟩ := hd
      exact .inr ⟨p', List.mem_cons_of_mem _ hp⟩

theorem answer (h : Traffic net record packets) :
    Traffic (net.send ⟨.receiver, .sender, buffer⟩) record packets where
  genuine      := h.genuine.send
  fromSender   := List.forall_mem_cons.mpr ⟨nofun, h.fromSender⟩
  fromReceiver := List.forall_mem_cons.mpr ⟨fun _ => rfl, h.fromReceiver⟩
  payload      := List.forall_mem_cons.mpr ⟨nofun, h.payload⟩

end Traffic

namespace Link

variable {T : Type} {L : Layout T} {y y' : Link T}

-- The bytes that the sender begins the handshake with.
def record (y : Link T) : List UInt8 :=
  CompatibilityChecker.layout.toBytes y.sender.localProperties

-- Whatever the network does, both sides only ever hear of each other.
structure Wired (L : Layout T) (y : Link T) : Prop where
  traffic           : Traffic y.net y.record y.sender.packets
  senderConnected   : y.sender.connection.isConnected = true
  receiverConnected : y.receiver.connection.isConnected = true
  senderAddress     : y.sender.connection.remoteAddress = some .receiver
  receiverAddress   : y.receiver.handshake ≠ .ready →
                      y.receiver.connection.remoteAddress = some .sender
  blocking          : y.receiver.connection.nonblock = false
  packets           : ∀ a ∈ y.sender.packets, a.2.length = NetworkPacket.size L ∧
                      NetworkPacket.timestamp a.2 = a.1.1 ∧ NetworkPacket.data L a.2 = a.1.2

namespace Wired

theorem init (h : y.Init) : y.Wired L where
  traffic           := by
    rw [h.net]
    exact ⟨.silent, by simp, by simp, by simp⟩
  senderConnected   := h.senderConnected
  receiverConnected := h.receiverConnected
  senderAddress     := h.remoteAddress
  receiverAddress   := fun hr => absurd h.receiverHandshake hr
  blocking          := h.blocking
  packets           := by simp [h.packets]

end Wired

-- What a step that does not fail does.
inductive Effect (L : Layout T) (y : Link T) : LinkAction T → Link T → Prop
  | deliver {d} : d ∈ y.net.sent → Effect L y (.deliver d) { y with net := y.net.deliver d }
  | createSenderChannel : y.sender.handshake = .ready →
    Effect L y .createSenderChannel {
      y with
      net    := y.net.send ⟨.sender, .receiver, y.record⟩
      sender := {
        y.sender with
        connection := { y.sender.connection with nonblock := true }
        handshake  := .waiting } }
  | answered {buffer r host success} : y.sender.handshake = .waiting → buffer.length = 9 →
    y.sender.connection.Receives .sender y.net buffer false r →
    success = !Protocol.strcmpZero r.buffer Protocol.kHandshakeErrorMsg →
    (success = false → host.validState = false) →
    Effect L y (.answered buffer) {
      y with
      net    := r.net
      sender := { y.sender with host, connection := r.connection, handshake := .returned success } }
  | sender {a host} : a = .startSender ∨ a = .stopSender →
    host.validState = y.sender.host.validState →
    Effect L y a { y with sender := { y.sender with host } }
  | sendPacket {memory timestamp data} : memory.length = NetworkPacket.size L →
    y.sender.handshake.isReturned = true →
    Effect L y (.sendPacket memory timestamp data) {
      y with
      net    := y.net.send ⟨.sender, .receiver, NetworkPacket.construct L memory timestamp data⟩
      sender := {
        y.sender with
        packets := ((timestamp, data), NetworkPacket.construct L memory timestamp data) ::
          y.sender.packets } }
  | createReceiver {remoteProperties d net remote} : y.receiver.handshake = .ready →
    remoteProperties.length = CompatibilityChecker.layout.size →
    y.net.receive .receiver = some (d, net) →
    remote = CompatibilityChecker.layout.ofBytes
      (Bytes.write remoteProperties 0 (d.payload.take remoteProperties.length)) →
    Effect L y (.createReceiver remoteProperties) {
      y with
      net
      receiver := {
        y.receiver with
        connection := { y.receiver.connection with remoteAddress := some d.source }
        handshake  := .compared remote
        compared   := some remote } }
  | answer {remote host success} : y.receiver.handshake = .compared remote →
    success = y.receiver.localProperties.equal remote →
    Effect L y .answer {
      y with
      net      := y.net.send ⟨.receiver, .sender,
        if success then Protocol.kHandshakeSuccessMsg else Protocol.kHandshakeErrorMsg⟩
      receiver := { y.receiver with host, handshake := .returned success } }
  | receiver {a host running} : a = .startReceiver ∨ a = .stopReceiver →
    Effect L y a { y with receiver := { y.receiver with host, running } }
  | receivePacket {memory error r} : memory.length = NetworkPacket.size L →
    0 < y.receiver.connection.poll .receiver y.net error →
    y.receiver.connection.Receives .receiver y.net memory error r →
    Effect L y (.receivePacket memory error) {
      y with
      net      := r.net
      receiver := {
        y.receiver with
        connection := r.connection
        acquired   := (NetworkPacket.timestamp r.buffer, NetworkPacket.data L r.buffer) ::
          y.receiver.acquired } }

theorem start_validState {host host' : Host} (h : host.start = .ok host') :
    host'.validState = host.validState := by
  obtain ⟨_, _, h⟩ := bind_eq_ok.mp h
  obtain ⟨_, _, h⟩ := bind_eq_ok.mp h
  exact (congrArg Host.validState (Except.ok.inj h)).symm

theorem stop_validState {host host' : Host} (h : host.stop = .ok host') :
    host'.validState = host.validState := by
  obtain ⟨_, _, h⟩ := bind_eq_ok.mp h
  exact (congrArg Host.validState (Except.ok.inj h)).symm

theorem setStateInvalid_validState {host host' : Host} (h : host.setStateInvalid = .ok host') :
    host'.validState = false := by
  obtain ⟨_, _, h⟩ := bind_eq_ok.mp h
  exact (congrArg Host.validState (Except.ok.inj h)).symm

namespace Wired

theorem createSenderChannel (h : y.Wired L) (hg : y.Guard L .createSenderChannel)
    (he : y.exec L .createSenderChannel = .ok y') : Effect L y .createSenderChannel y' := by
  obtain ⟨net, hs, he⟩ := bind_eq_ok.mp he
  obtain rfl := Except.ok.inj he
  have hc : (y.sender.connection.setBlockingMode false).isConnected = true := by
    rw [UDPConnection.setBlockingMode_eq]
    exact h.senderConnected
  have ha : (y.sender.connection.setBlockingMode false).remoteAddress = some .receiver := by
    rw [UDPConnection.setBlockingMode_eq]
    exact h.senderAddress
  obtain rfl := UDPConnection.send_eq hc ha hs
  rw [UDPConnection.setBlockingMode_eq]
  exact .createSenderChannel hg

theorem answered {buffer : List UInt8} (h : y.Wired L) (hg : y.Guard L (.answered buffer))
    (he : y.exec L (.answered buffer) = .ok y') : Effect L y (.answered buffer) y' := by
  obtain ⟨⟨success, connection, net⟩, hs, he⟩ := bind_eq_ok.mp he
  obtain ⟨host, hh, he⟩ := bind_eq_ok.mp he
  obtain ⟨host', hreg, he⟩ := bind_eq_ok.mp he
  obtain ⟨r, hr, hs⟩ := bind_eq_ok.mp hs
  obtain ⟨hsuccess, hs⟩ := Prod.mk.inj (Except.ok.inj hs)
  obtain ⟨rfl, rfl⟩ := Prod.mk.inj hs
  obtain ⟨_, _, hreg⟩ := bind_eq_ok.mp hreg
  obtain rfl := Except.ok.inj hreg
  obtain rfl := Except.ok.inj he
  refine .answered hg.1 hg.2.1 (UDPConnection.receives_of_receive h.senderConnected hr)
    hsuccess.symm fun hf => ?_
  exact setStateInvalid_validState <| by simpa [hf] using hh

theorem sendPacket {memory : List UInt8} {timestamp : Int64} {data : T} (h : y.Wired L)
    (hg : y.Guard L (.sendPacket memory timestamp data))
    (he : y.exec L (.sendPacket memory timestamp data) = .ok y') :
    Effect L y (.sendPacket memory timestamp data) y' := by
  obtain ⟨net, hs, he⟩ := bind_eq_ok.mp he
  obtain rfl := Except.ok.inj he
  obtain rfl := UDPConnection.send_eq h.senderConnected h.senderAddress hs
  exact .sendPacket hg.2.1 hg.2.2

theorem createReceiver {remoteProperties : List UInt8} (h : y.Wired L)
    (hg : y.Guard L (.createReceiver remoteProperties))
    (he : y.exec L (.createReceiver remoteProperties) = .ok y') :
    Effect L y (.createReceiver remoteProperties) y' := by
  obtain ⟨⟨remote, connection, net⟩, hs, he⟩ := bind_eq_ok.mp he
  obtain ⟨r, hr, hs⟩ := bind_eq_ok.mp hs
  obtain rfl := Except.ok.inj he
  have hreceives := UDPConnection.receives_of_receive h.receiverConnected hr
  obtain ⟨hremote, hs⟩ := Prod.mk.inj (Except.ok.inj hs)
  obtain ⟨rfl, rfl⟩ := Prod.mk.inj hs
  obtain ⟨_, hn⟩ | hn := hreceives
  case datagram => exact .createReceiver hg.1 hg.2.1 hn hremote.symm
  case nothing  => exact absurd ⟨h.receiverConnected, h.blocking, hn rfl⟩ hg.2.2

theorem answer (h : y.Wired L) (hg : y.Guard L .answer) (he : y.exec L .answer = .ok y') :
    Effect L y .answer y' := by
  obtain ⟨remote, hc⟩ : ∃ remote, y.receiver.handshake = .compared remote := by
    change y.receiver.handshake.isCompared = true at hg
    cases hc : y.receiver.handshake
    case compared remote => exact ⟨remote, rfl⟩
    all_goals
      rw [hc] at hg
      contradiction
  have ha : y.receiver.connection.remoteAddress = some .sender := h.receiverAddress <| by simp [hc]
  simp only [exec, hc] at he
  obtain ⟨⟨success, net⟩, hs, he⟩ := bind_eq_ok.mp he
  obtain ⟨host, _, he⟩ := bind_eq_ok.mp he
  obtain rfl := Except.ok.inj he
  obtain ⟨hsuccess, rfl⟩ := Protocol.receiverSideHandshakeResult_eq h.receiverConnected ha hs
  exact .answer hc hsuccess

theorem receivePacket {memory : List UInt8} {error : Bool} (h : y.Wired L)
    (hg : y.Guard L (.receivePacket memory error))
    (he : y.exec L (.receivePacket memory error) = .ok y') :
    y' = y ∨ Effect L y (.receivePacket memory error) y' := by
  rw [exec] at he
  split at he
  case isTrue hp =>
    obtain ⟨r, hr, he⟩ := bind_eq_ok.mp he
    obtain rfl := Except.ok.inj he
    exact .inr <| .receivePacket hg.2 hp <| UDPConnection.receives_of_receive h.receiverConnected hr
  case isFalse => exact .inl (Except.ok.inj he).symm

theorem effect {a : LinkAction T} (h : y.Wired L) (e : (link L).Step y a y') :
    y' = y ∨ Effect L y a y' := by
  have he := e.exec
  cases a
  case deliver d              => exact Except.ok.inj he ▸ .inr (.deliver e.guard)
  case createSenderChannel    => exact .inr <| h.createSenderChannel e.guard he
  case answered buffer        => exact .inr <| h.answered e.guard he
  case sendPacket memory t x  => exact .inr <| h.sendPacket e.guard he
  case createReceiver remote  => exact .inr <| h.createReceiver e.guard he
  case answer                 => exact .inr <| h.answer e.guard he
  case receivePacket memory _ => exact h.receivePacket e.guard he
  case startSender =>
    obtain ⟨_, hs, he⟩ := bind_eq_ok.mp he
    exact Except.ok.inj he ▸ .inr (.sender (.inl rfl) <| start_validState hs)
  case stopSender =>
    obtain ⟨_, hs, he⟩ := bind_eq_ok.mp he
    exact Except.ok.inj he ▸ .inr (.sender (.inr rfl) <| stop_validState hs)
  case startReceiver =>
    obtain ⟨_, _, he⟩ := bind_eq_ok.mp he
    exact Except.ok.inj he ▸ .inr (.receiver <| .inl rfl)
  case stopReceiver =>
    obtain ⟨_, _, he⟩ := bind_eq_ok.mp he
    exact Except.ok.inj he ▸ .inr (.receiver <| .inr rfl)

-- What either side receives tells it where the other one is.
theorem source_eq {side other : Side} {d : Datagram Side (List UInt8)} {net : Wire}
    (h : y.Wired L) (hr : y.net.receive side = some (d, net)) (ho : other ≠ side) :
    d.source = other := by
  have ⟨hd, hdest⟩ := h.traffic.genuine.of_receive hr
  cases side <;> cases other
  case sender.receiver => exact h.traffic.fromReceiver d hd hdest
  case receiver.sender => exact h.traffic.fromSender d hd hdest
  all_goals contradiction

theorem step {a : LinkAction T} (h : y.Wired L) (e : (link L).Step y a y') : y'.Wired L := by
  obtain rfl | e := h.effect e
  case inl => exact h
  case inr =>
    cases e
    case deliver hd => exact { h with traffic := h.traffic.deliver hd }
    case createSenderChannel hr => exact { h with traffic := h.traffic.sendRecord }
    case answered hr _ _ =>
      obtain ⟨_, hn⟩ | _ := hr
      case datagram =>
        exact { h with
          traffic       := h.traffic.receive hn
          senderAddress := congrArg some <| h.source_eq hn nofun }
      case nothing => exact { h with }
    case sender | receiver => exact { h with }
    case sendPacket hm _ =>
      exact { h with
        traffic := h.traffic.sendPacket _ _
        packets := List.forall_mem_cons.mpr ⟨⟨NetworkPacket.length_construct hm,
          NetworkPacket.timestamp_construct hm, NetworkPacket.data_construct hm⟩, h.packets⟩ }
    case createReceiver hn _ =>
      exact { h with
        traffic         := h.traffic.receive hn
        receiverAddress := fun _ => congrArg some <| h.source_eq hn nofun }
    case answer hc _ =>
      exact { h with
        traffic         := h.traffic.answer
        receiverAddress := fun _ => h.receiverAddress <| by simp [hc] }
    case receivePacket hr =>
      obtain ⟨_, hn⟩ | _ := hr
      case datagram =>
        exact { h with
          traffic         := h.traffic.receive hn
          receiverAddress := fun _ => congrArg some <| h.source_eq hn nofun }
      case nothing => exact { h with }

end Wired

theorem wired {ok : Link T → LinkAction T → Prop} (h : (link L).Reachable ok y) : y.Wired L :=
  h.induction (fun _ => .init) fun _ _ _ _ hw _ e => hw.step e

end Link
end PipeRT
