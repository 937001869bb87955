import PipeRT.Link.Handshake

namespace PipeRT
namespace Link

variable {T : Type} {L : Layout T} {y y' : Link T} {a : LinkAction T}

-- Whatever `ReceivePacket` finds at its socket is an object that `SendPacket` has sent, and `Receive`
-- does not fail.
def Whole (y : Link T) : LinkAction T → Prop
  | .receivePacket _ error => 0 < y.receiver.connection.poll .receiver y.net error →
    error = false ∧ (y.net.inbox .receiver).head?.any
      (fun d => decide (d.payload ∈ y.sender.packets.map Prod.snd)) = true
  | _                      => True

instance (y : Link T) (a : LinkAction T) : Decidable (y.Whole a) :=
  match a with
  | .receivePacket .. => inferInstanceAs (Decidable (_ → _ ∧ _))
  | .deliver _ | .createSenderChannel | .answered _ | .startSender | .stopSender | .sendPacket ..
  | .createReceiver _ | .answer | .startReceiver | .stopReceiver => inferInstanceAs (Decidable True)

-- Every packet that was put on the channel was sent.
def Transferred (y : Link T) : Prop :=
  ∀ packet ∈ y.receiver.acquired, ∃ memory, (packet, memory) ∈ y.sender.packets

-- A whole object fills the packet of `ReceivePacket`.
theorem Wired.packet_eq {memory payload : List UInt8} {p : Int64 × T} (h : y.Wired L)
    (hp : (p, payload) ∈ y.sender.packets) (hm : memory.length = NetworkPacket.size L) :
    (NetworkPacket.timestamp (Bytes.write memory 0 (payload.take memory.length)),
      NetworkPacket.data L (Bytes.write memory 0 (payload.take memory.length))) = p := by
  have ⟨hlen, ht, hx⟩ := h.packets _ hp
  rw [← hm] at hlen
  rw [List.take_of_length_le hlen.le, Bytes.write_all hlen]
  exact Prod.ext ht hx

namespace Transferred

theorem step (h : y.Transferred) (hw : y.Wired L) (ha : y.Whole a) (e : (link L).Step y a y') :
    y'.Transferred := by
  obtain rfl | e := hw.effect e
  case inl => exact h
  case inr =>
    cases e
    case sendPacket =>
      intro packet hp
      obtain ⟨memory, hm⟩ := h packet hp
      exact ⟨memory, List.mem_cons_of_mem _ hm⟩
    case receivePacket hm hp hr =>
      obtain ⟨herror, hwhole⟩ := ha hp
      obtain @⟨d, _, _, _, hn⟩ | hn := hr
      case nothing =>
        rw [hn herror] at hwhole
        contradiction
      case datagram =>
        obtain ⟨rest, hi, _⟩ := Network.receive_eq_some.mp hn
        rw [hi] at hwhole
        obtain ⟨⟨p, _⟩, hd, rfl⟩ := List.mem_map.mp (of_decide_eq_true hwhole)
        refine List.forall_mem_cons.mpr ⟨⟨d.payload, ?_⟩, h⟩
        rw [hw.packet_eq hd hm]
        exact hd
    all_goals exact h

end Transferred
end Link

variable {T : Type} {L : Layout T} {y : Link T}

-- Only the handshake record and failed calls of `Receive` can become packets that nobody sent.
theorem transferred_of_whole (h : (link L).Reachable Link.Whole y) :
    y.Transferred ∧
    ∀ d ∈ y.net.inbox .receiver, d.payload = y.record ∨ ∃ p, (p, d.payload) ∈ y.sender.packets := by
  have hw := Link.wired h
  refine ⟨h.induction (fun y hi => ?_) fun y a y' hr ht ha e => ht.step (Link.wired hr) ha e, ?_⟩
  · simp [Link.Transferred, hi.acquired]
  · intro d hd
    exact hw.traffic.payload d (hw.traffic.genuine.sent _ d hd) (hw.traffic.genuine.destination _ d hd)

-- `SendPacket` sends a packet, and `ReceivePacket` gets it.
def transfer : List (LinkAction Int64) :=
  let packet := NetworkPacket.construct .int64 (.replicate 24 0) 7 9
  establish ++ [
    .startSender,
    .sendPacket (.replicate 24 0) 7 9,
    .deliver ⟨.sender, .receiver, packet⟩,
    .receivePacket (.replicate 24 0) false
  ]

theorem transferred_of_whole_transfer :
    ∃ y, (link .int64).Reachable Link.Whole y ∧ y.receiver.acquired = [(7, 9)] ∧ y.Transferred := by
  obtain ⟨y, hr, ha⟩ := Machine.exists_reachable_of_replay (M := link .int64) Link.Whole transfer
    (P := fun y => y.receiver.acquired = [(7, 9)]) integerLink_init (by decide +kernel)
  exact ⟨y, hr, ha, (transferred_of_whole hr).1⟩

-- The network brings the handshake record a second time, and `ReceivePacket` takes it for a packet.
theorem record_becomes_packet :
    ∃ y, (link .int64).Reachable (fun _ _ => True) y ∧ y.receiver.handshake = .returned true ∧
      y.receiver.acquired = [(4, 1)] ∧ y.sender.packets = [] ∧ ¬y.Transferred := by
  obtain ⟨y, hr, hh, ha, hp⟩ := Machine.exists_reachable_of_replay (M := link .int64)
    (s := integerLink) (fun _ _ => True)
    (establish ++ [.deliver ⟨.sender, .receiver, integerLink.record⟩,
      .receivePacket (.replicate 24 0) false])
    (P := fun y => y.receiver.handshake = .returned true ∧ y.receiver.acquired = [(4, 1)] ∧
      y.sender.packets = []) integerLink_init (by decide +kernel)
  refine ⟨y, hr, hh, ha, hp, fun ht => ?_⟩
  obtain ⟨memory, hm⟩ := ht (4, 1) <| by simp [ha]
  simp [hp] at hm

end PipeRT
