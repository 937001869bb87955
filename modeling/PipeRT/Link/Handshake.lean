import PipeRT.Link.Traffic

namespace PipeRT

namespace Protocol

-- Against a string of the same size, `strcmp` compares every character.
theorem strcmpZero_iff {buffer string : List UInt8} (hs : 0 ∉ string)
    (h : buffer.length = string.length + 1) :
    strcmpZero buffer (string ++ [0]) = true ↔ buffer = string ++ [0] := by
  induction string generalizing buffer
  case nil =>
    obtain ⟨b, rfl⟩ := List.length_eq_one_iff.mp h
    simp [strcmpZero]
  case cons c string ih =>
    cases buffer
    case nil => contradiction
    case cons b buffer =>
      rw [List.mem_cons, not_or] at hs
      obtain ⟨hc, hs⟩ := hs
      have hb : b = c → b ≠ 0 := fun hb => hb ▸ Ne.symm hc
      have ih := ih hs (Nat.succ.inj h)
      grind [strcmpZero]

theorem strcmpZero_error_iff {buffer : List UInt8} (h : buffer.length = 9) :
    strcmpZero buffer kHandshakeErrorMsg = true ↔ buffer = kHandshakeErrorMsg := by
  have h0 : (0 : UInt8) ∉ [67, 79, 78, 78, 95, 69, 82, 82] := by decide
  exact strcmpZero_iff h0 h

end Protocol

namespace Link

variable {T : Type} {L : Layout T} {y y' : Link T} {a : LinkAction T}

-- The sender does not go on without an answer, unless what its buffer has in it by chance reads as
-- one.
def Answered (y : Link T) : LinkAction T → Prop
  | .answered buffer => y.net.inbox .sender ≠ [] ∨ buffer = Protocol.kHandshakeErrorMsg
  | _                => True

instance (y : Link T) (a : LinkAction T) : Decidable (y.Answered a) :=
  match a with
  | .answered _ => inferInstanceAs (Decidable (_ ∨ _))
  | .receivePacket .. | .deliver _ | .createSenderChannel | .startSender | .stopSender
  | .sendPacket .. | .createReceiver _ | .answer | .startReceiver | .stopReceiver =>
    inferInstanceAs (Decidable True)

-- The answer of the receiver.
def answer (success : Bool) : Datagram Side (List UInt8) :=
  ⟨.receiver, .sender,
    if success then Protocol.kHandshakeSuccessMsg else Protocol.kHandshakeErrorMsg⟩

-- The receiver has found the properties of both computers equal, and has said so.
def Confirmed (y : Link T) : Prop :=
  y.receiver.compared = some y.sender.localProperties ∧
  y.receiver.localProperties = y.sender.localProperties ∧ answer true ∈ y.net.sent

-- Until the sender has its answer, there is nothing under way but the handshake.
structure Handshaking (y : Link T) : Prop where
  ready    : y.sender.handshake = .ready → y.net.sent = [] ∧ y.receiver.handshake = .ready
  packets  : y.sender.handshake.isReturned = false → y.sender.packets = []
  compared : y.sender.handshake.isReturned = false → ∀ remote, y.receiver.compared = some remote →
             remote = y.sender.localProperties
  waiting  : ∀ remote, y.receiver.handshake = .compared remote → y.receiver.compared = some remote
  returned : ∀ success, y.receiver.handshake = .returned success →
             (success = true ↔ y.receiver.compared = some y.receiver.localProperties) ∧
             answer success ∈ y.net.sent
  answers  : ∀ d ∈ y.net.sent, d.destination = .sender →
             ∃ success, y.receiver.handshake = .returned success ∧ d = answer success
  success  : y.sender.handshake = .returned true →
             y.receiver.handshake = .returned true ∧ y.Confirmed
  failure  : y.sender.handshake = .returned false → y.sender.host.validState = false

namespace Handshaking

theorem init (h : y.Init) : y.Handshaking where
  ready _   := ⟨by simp [h.net], h.receiverHandshake⟩
  packets _ := h.packets
  compared  := by simp [h.compared]
  waiting   := by simp [h.receiverHandshake]
  returned  := by simp [h.receiverHandshake]
  answers   := by simp [h.net]
  success   := by simp [h.senderHandshake]
  failure   := by simp [h.senderHandshake]

theorem confirmed (h : y.Handshaking) (hn : y.sender.handshake.isReturned = false)
    (hret : y.receiver.handshake = .returned true) : y.Confirmed :=
  have ⟨hc, hmem⟩ := h.returned true hret
  have heq := h.compared hn _ (hc.mp rfl)
  ⟨heq ▸ hc.mp rfl, heq, hmem⟩

-- The sender understands the answer.
theorem strcmpZero_answer {buffer : List UInt8} {success : Bool} (h : buffer.length = 9) :
    (!Protocol.strcmpZero (Bytes.write buffer 0 ((answer success).payload.take buffer.length))
      Protocol.kHandshakeErrorMsg) = success := by
  rw [h]
  cases success <;> rw [Bytes.write_all (by rw [h]; rfl)] <;> rfl

theorem createSenderChannel (h : y.Handshaking) (hr : y.sender.handshake = .ready)
    (connection : UDPConnection) :
    Handshaking {
      y with
      net    := y.net.send ⟨.sender, .receiver, y.record⟩
      sender := { y.sender with connection, handshake := .waiting } } := by
  have hn : y.sender.handshake.isReturned = false := by rw [hr]; rfl
  exact {
    ready      := nofun
    packets  _ := h.packets hn
    compared _ := h.compared hn
    waiting    := h.waiting
    returned   := fun success hs => (h.returned success hs).imp_right (List.mem_cons_of_mem _)
    answers    := List.forall_mem_cons.mpr ⟨nofun, h.answers⟩
    success    := nofun
    failure    := nofun }

theorem answered {buffer : List UInt8} {r : UDPConnection.Received} {host : Host} {success : Bool}
    (h : y.Handshaking) (hw : y.Wired L) (ha : y.Answered (.answered buffer))
    (hh : y.sender.handshake = .waiting) (hlen : buffer.length = 9)
    (hr : y.sender.connection.Receives .sender y.net buffer false r)
    (hs : success = !Protocol.strcmpZero r.buffer Protocol.kHandshakeErrorMsg)
    (hhost : success = false → host.validState = false) :
    Handshaking {
      y with
      net    := r.net
      sender := {
        y.sender with host, connection := r.connection, handshake := .returned success } } := by
  have hn : y.sender.handshake.isReturned = false := by rw [hh]; rfl
  obtain @⟨d, net, _, _, hd⟩ | hempty := hr
  case datagram =>
    obtain ⟨hmem, hdest⟩ := hw.traffic.genuine.of_receive hd
    obtain ⟨answered, hret, rfl⟩ := h.answers d hmem hdest
    obtain rfl := hs.trans <| strcmpZero_answer hlen
    have hsent := Network.receive_sent hd
    refine ⟨nofun, nofun, nofun, h.waiting, ?_, ?_, fun hs => ?_, fun hs => ?_⟩
    · exact hsent ▸ h.returned
    · exact hsent ▸ h.answers
    · obtain rfl := Handshake.returned.inj hs
      obtain ⟨hc, heq, hmem⟩ := h.confirmed hn hret
      exact ⟨hret, hc, heq, hsent ▸ hmem⟩
    · exact hhost <| Handshake.returned.inj hs
  case nothing =>
    obtain rfl : buffer = Protocol.kHandshakeErrorMsg := ha.resolve_left <| by simp [hempty]
    obtain rfl : success = false := hs
    exact {
      ready      := nofun
      packets    := nofun
      compared   := nofun
      waiting    := h.waiting
      returned   := h.returned
      answers    := h.answers
      success    := nofun
      failure  _ := hhost rfl }

theorem sendPacket {memory : List UInt8} (h : y.Handshaking)
    (hr : y.sender.handshake.isReturned = true) (packets : List ((Int64 × T) × List UInt8)) :
    Handshaking {
      y with
      net    := y.net.send ⟨.sender, .receiver, memory⟩
      sender := { y.sender with packets } } where
  ready hs    := absurd ((congrArg Handshake.isReturned hs).symm.trans hr) Bool.false_ne_true
  packets hn  := absurd (hn.symm.trans hr) Bool.false_ne_true
  compared    := h.compared
  waiting     := h.waiting
  returned    := fun success hs => (h.returned success hs).imp_right (List.mem_cons_of_mem _)
  answers     := List.forall_mem_cons.mpr ⟨nofun, h.answers⟩
  success hs  :=
    have ⟨hret, hc, heq, hsent⟩ := h.success hs
    ⟨hret, hc, heq, List.mem_cons_of_mem _ hsent⟩
  failure     := h.failure

theorem createReceiver {memory : List UInt8} {d : Datagram Side (List UInt8)} {net : Wire}
    (h : y.Handshaking) (hw : y.Wired L) (hh : y.receiver.handshake = .ready)
    (hm : memory.length = CompatibilityChecker.layout.size)
    (hd : y.net.receive .receiver = some (d, net)) (connection : UDPConnection) :
    let remote := CompatibilityChecker.layout.ofBytes
      (Bytes.write memory 0 (d.payload.take memory.length))
    Handshaking {
      y with
      net
      receiver := { y.receiver with
        connection, handshake := .compared remote, compared := some remote } } := by
  obtain ⟨hmem, hdest⟩ := hw.traffic.genuine.of_receive hd
  have hsent := Network.receive_sent hd
  refine ⟨fun hs => ?_, h.packets, fun hn remote hr => ?_, fun _ hr => ?_, nofun, ?_, fun hs => ?_,
    h.failure⟩
  · simp [(h.ready hs).1] at hmem
  · obtain rfl := Option.some.inj hr
    obtain hp | ⟨_, hp⟩ := hw.traffic.payload d hmem hdest
    case inl =>
      have hlen : d.payload.length = memory.length := by
        rw [hp, hm]
        exact Layout.length_toBytes _ _
      rw [List.take_of_length_le hlen.le, Bytes.write_all hlen, hp]
      exact Layout.ofBytes_toBytes _ _
    case inr =>
      rw [h.packets hn] at hp
      contradiction
  · exact congrArg some (Handshake.compared.inj hr)
  · intro d' hd' hdest'
    obtain ⟨_, hret, _⟩ := h.answers d' (hsent ▸ hd') hdest'
    simp [hh] at hret
  · exact absurd (hh.symm.trans (h.success hs).1) nofun

theorem answer (h : y.Handshaking) {remote : CompatibilityChecker}
    (hh : y.receiver.handshake = .compared remote) (host : Host) :
    let success := y.receiver.localProperties.equal remote
    Handshaking {
      y with
      net      := y.net.send (answer success)
      receiver := { y.receiver with host, handshake := .returned success } } := by
  have hc := h.waiting remote hh
  refine ⟨fun hs => ?_, h.packets, h.compared, nofun, fun success hs => ?_, fun d hd hdest => ?_,
    fun hs => ?_, h.failure⟩
  · exact absurd (hh.symm.trans (h.ready hs).2) nofun
  · obtain rfl := Handshake.returned.inj hs
    refine ⟨?_, List.mem_cons_self⟩
    rw [CompatibilityChecker.equal_iff, hc, Option.some.injEq, eq_comm]
  · obtain rfl | hd := List.mem_cons.mp hd
    case inl => exact ⟨_, rfl, rfl⟩
    case inr =>
      obtain ⟨_, hret, _⟩ := h.answers d hd hdest
      exact absurd (hh.symm.trans hret) nofun
  · exact absurd (hh.symm.trans (h.success hs).1) nofun

theorem step (h : y.Handshaking) (hw : y.Wired L) (ha : y.Answered a) (e : (link L).Step y a y') :
    y'.Handshaking := by
  obtain rfl | e := hw.effect e
  case inl => exact h
  case inr =>
    cases e
    case deliver                        => exact { h with }
    case createSenderChannel hr         => exact h.createSenderChannel hr _
    case answered hh hlen hr hs hhost   => exact h.answered hw ha hh hlen hr hs hhost
    case sender hv _                    => exact { h with failure := fun hs => hv.trans <| h.failure hs }
    case sendPacket hr                  => exact h.sendPacket hr _
    case createReceiver hh hm hd hr     => exact hr ▸ h.createReceiver hw hh hm hd _
    case answer hh hs                   => exact hs ▸ h.answer hh _
    case receiver                       => exact { h with }
    case receivePacket hr =>
      obtain ⟨_, hd⟩ | _ := hr
      case nothing  => exact { h with }
      case datagram =>
        have hsent := Network.receive_sent hd
        exact {
          ready    := hsent ▸ h.ready
          packets  := h.packets
          compared := h.compared
          waiting  := h.waiting
          returned := hsent ▸ h.returned
          answers  := hsent ▸ h.answers
          success  := fun hs =>
            have ⟨hret, hc, heq, hmem⟩ := h.success hs
            ⟨hret, hc, heq, hsent ▸ hmem⟩
          failure  := h.failure }

end Handshaking

-- What the sender does without an answer does not depend on what the receiver does.
theorem Handshaking.confirmed_iff {buffer : List UInt8} (h : y.Handshaking) (hw : y.Wired L)
    (e : (link L).Step y (.answered buffer) y') :
    (y'.sender.handshake = .returned true → y'.Confirmed) ↔
    y.Answered (.answered buffer) ∨ Link.answer true ∈ y.net.sent := by
  have hh : y.sender.handshake = .waiting := e.guard.1
  have hn : y.sender.handshake.isReturned = false := by rw [hh]; rfl
  have heffect : Effect L y (.answered buffer) y' := hw.answered e.guard e.exec
  constructor
  case mp =>
    intro hc
    by_contra hno
    obtain ⟨hno, hunsent⟩ := not_or.mp hno
    obtain ⟨hempty, hbuffer⟩ := not_or.mp hno
    cases heffect
    case sender ha | receiver ha => simp at ha
    case answered hs _ hlen hr =>
      obtain ⟨_, hd⟩ | _ := hr
      case datagram =>
        obtain ⟨_, hd, _⟩ := Network.receive_eq_some.mp hd
        simp [hd] at hempty
      case nothing =>
        have hz := (not_congr <| Protocol.strcmpZero_error_iff hlen).mpr hbuffer
        exact hunsent (hc <| by simp [hs, hz]).2.2
  case mpr =>
    intro ha hs
    obtain ha | hmem := ha
    case inl => exact ((h.step hw ha e).success hs).2
    case inr =>
      obtain ⟨success, hret, heq⟩ := h.answers _ hmem rfl
      obtain rfl : success = true := by
        cases success
        case true  => rfl
        case false => exact absurd heq (by decide)
      obtain ⟨hc, hequal, _⟩ := h.confirmed hn hret
      cases heffect
      case sender ha | receiver ha => simp at ha
      case answered hs _ hlen hr =>
        obtain ⟨_, hd⟩ | _ := hr
        case nothing  => exact ⟨hc, hequal, hmem⟩
        case datagram => exact ⟨hc, hequal, Network.receive_sent hd ▸ hmem⟩

theorem handshaking (h : (link L).Reachable Answered y) : y.Handshaking :=
  h.induction (fun _ => .init) fun _ _ _ hr hy ha e => hy.step (wired hr) ha e

end Link

variable {T : Type} {L : Layout T} {y : Link T}

-- As long as the sender only goes on with an answer, it trusts the link only if the receiver does.
-- Without an answer it is right only by chance.
theorem confirmed_of_answered (h : (link L).Reachable Link.Answered y) :
    (y.sender.handshake = .returned true → y.Confirmed) ∧
    (∀ success, y.sender.handshake = .returned success → y.sender.host.validState = true →
      y.receiver.handshake ≠ .returned false) ∧
    ∀ buffer y', (link L).Step y (.answered buffer) y' →
      ((y'.sender.handshake = .returned true → y'.Confirmed) ↔
        y.Answered (.answered buffer) ∨ Link.answer true ∈ y.net.sent) := by
  have hy := Link.handshaking h
  refine ⟨fun hs => (hy.success hs).2, fun success hs hv hr => ?_, fun _ _ e =>
    hy.confirmed_iff (Link.wired h) e⟩
  cases success
  case true  => exact absurd (hr.symm.trans (hy.success hs).1) (by simp)
  case false => simp [hy.failure hs] at hv

-- A sender and a receiver on computers of the same kind, which transfer integers.
def integerLink : Link Int64 where
  net      := .silent
  sender   := {
    host            := ⟨false, true⟩
    connection      := ⟨3, 508, some .receiver, false⟩
    localProperties := ⟨4, 8, 1, 8, 4, 8, 1, 8⟩
    handshake       := .ready
    packets         := [] }
  receiver := {
    host            := ⟨false, true⟩
    connection      := ⟨3, 508, none, false⟩
    localProperties := ⟨4, 8, 1, 8, 4, 8, 1, 8⟩
    handshake       := .ready
    compared        := none
    running         := false
    acquired        := [] }

theorem integerLink_init : integerLink.Init := by
  constructor <;> rfl

-- Both handshakes succeed, and the receiver is started.
def establish : List (LinkAction Int64) := [
  .createSenderChannel,
  .deliver ⟨.sender, .receiver, integerLink.record⟩,
  .createReceiver (.replicate 64 0),
  .answer,
  .deliver ⟨.receiver, .sender, Protocol.kHandshakeSuccessMsg⟩,
  .answered (.replicate 9 0),
  .startReceiver
]

theorem confirmed_of_answered_establish :
    ∃ y, (link .int64).Reachable Link.Answered y ∧ y.sender.handshake = .returned true ∧
      y.Confirmed := by
  obtain ⟨y, hr, hh⟩ := Machine.exists_reachable_of_replay (M := link .int64) Link.Answered establish
    (P := fun y => y.sender.handshake = .returned true) integerLink_init (by decide +kernel)
  exact ⟨y, hr, hh, (confirmed_of_answered hr).1 hh⟩

-- The same computers, but for the size of the type that is transferred.
def unequalLink : Link Int64 :=
  { integerLink with
    receiver := { integerLink.receiver with localProperties := ⟨4, 8, 1, 4, 4, 8, 1, 4⟩ } }

theorem unequalLink_init : unequalLink.Init := by
  constructor <;> rfl

-- The sender does not wait for the answer, and takes the zeros in its buffer for a good one.
theorem impatient_sender_disagrees :
    ∃ y, (link .int64).Reachable (fun _ _ => True) y ∧ y.sender.handshake = .returned true ∧
      y.sender.host.validState = true ∧ y.receiver.handshake = .returned false ∧ ¬y.Confirmed := by
  obtain ⟨y, hr, hs, hv, hf, hne⟩ := Machine.exists_reachable_of_replay (M := link .int64)
    (s := unequalLink) (fun _ _ => True) [
      .createSenderChannel,
      .answered (.replicate 9 0),
      .deliver ⟨.sender, .receiver, unequalLink.record⟩,
      .createReceiver (.replicate 64 0),
      .answer]
    (P := fun y => y.sender.handshake = .returned true ∧ y.sender.host.validState = true ∧
      y.receiver.handshake = .returned false ∧
      y.receiver.localProperties ≠ y.sender.localProperties) unequalLink_init (by decide +kernel)
  exact ⟨y, hr, hs, hv, hf, fun hc => hne hc.2.1⟩

end PipeRT
