import PipeRT.Link.Transfer

namespace PipeRT

namespace Host

variable {host host' : Host} {handshake : Handshake}

-- A scheduler runs only in a valid state, and a handshake that has failed leaves none.
structure Gated (host : Host) (handshake : Handshake) : Prop where
  valid  : host.running = true → host.validState = true
  failed : handshake = .returned false → host.validState = false

namespace Gated

theorem not_running (h : host.Gated (.returned false)) : host.running = false := by
  rw [← Bool.not_eq_true]
  intro hr
  have := h.valid hr
  simp [h.failed rfl] at this

theorem start (h : host.Gated handshake) (he : host.start = .ok host') : host'.Gated handshake := by
  obtain ⟨_, _, he⟩ := bind_eq_ok.mp he
  obtain ⟨_, hv, he⟩ := bind_eq_ok.mp he
  obtain rfl := Except.ok.inj he
  exact ⟨fun _ => of_check hv, h.failed⟩

theorem stop (h : host.Gated handshake) (he : host.stop = .ok host') : host'.Gated handshake := by
  obtain ⟨_, _, he⟩ := bind_eq_ok.mp he
  obtain rfl := Except.ok.inj he
  exact ⟨nofun, h.failed⟩

-- The call of `CreateSenderChannel` or of the constructor of `Receiver` ends.
theorem returned {success : Bool} (h : host.Gated handshake) (hr : host.running = false)
    (he : if success then host' = host else host' = { host with validState := false }) :
    host'.Gated (.returned success) := by
  cases success
  case true =>
    obtain rfl : host' = host := he
    exact ⟨h.valid, nofun⟩
  case false =>
    obtain rfl : host' = { host with validState := false } := he
    exact ⟨fun hrun => absurd hrun <| by simp [hr], fun _ => rfl⟩

end Gated
end Host

namespace Link

variable {T : Type} {L : Layout T} {y y' : Link T} {a : LinkAction T}

-- Nothing is sent or received unless the handshake of the side in question has succeeded.
structure Gated (y : Link T) : Prop where
  sender   : y.sender.host.Gated y.sender.handshake
  receiver : y.receiver.host.Gated y.receiver.handshake
  packets  : y.sender.packets ≠ [] → y.sender.handshake = .returned true
  running  : y.receiver.running = true →
             y.receiver.host.running = true ∧ y.receiver.handshake = .returned true
  acquired : y.receiver.acquired ≠ [] → y.receiver.handshake = .returned true
  waiting  : ∀ remote, y.receiver.handshake = .compared remote → y.receiver.compared = some remote
  equal    : y.receiver.handshake = .returned true →
             y.receiver.compared = some y.receiver.localProperties

namespace Gated

theorem init (h : y.Init) : y.Gated where
  sender   := ⟨by simp [h.senderHost], by simp [h.senderHandshake]⟩
  receiver := ⟨by simp [h.receiverHost], by simp [h.receiverHandshake]⟩
  packets  := by simp [h.packets]
  running  := by simp [h.running]
  acquired := by simp [h.acquired]
  waiting  := by simp [h.receiverHandshake]
  equal    := by simp [h.receiverHandshake]

theorem answered {buffer : List UInt8} (h : y.Gated) (hg : y.Guard L (.answered buffer))
    (he : y.exec L (.answered buffer) = .ok y') : y'.Gated := by
  obtain ⟨⟨success, connection, net⟩, _, he⟩ := bind_eq_ok.mp he
  obtain ⟨host, hhost, he⟩ := bind_eq_ok.mp he
  obtain ⟨host', hreg, he⟩ := bind_eq_ok.mp he
  obtain rfl := Except.ok.inj he
  obtain ⟨_, hrun, hreg⟩ := bind_eq_ok.mp hreg
  obtain rfl := Except.ok.inj hreg
  have hnone : ¬y.sender.packets ≠ [] := fun hp => by simpa [hg.1] using h.packets hp
  have hsender : host.Gated (.returned success) := by
    cases success
    case true =>
      obtain rfl := Except.ok.inj hhost
      exact h.sender.returned (of_check hrun) rfl
    case false =>
      obtain ⟨_, hr, hhost⟩ := bind_eq_ok.mp hhost
      exact h.sender.returned (of_check hr) (Except.ok.inj hhost).symm
  exact { h with sender := hsender, packets := fun hp => absurd hp hnone }

theorem answer (h : y.Gated) (he : y.exec L .answer = .ok y') : y'.Gated := by
  simp only [exec] at he
  split at he
  case h_2 =>
    obtain rfl := Except.ok.inj he
    exact h
  case h_1 remote hc =>
    obtain ⟨⟨success, net⟩, hs, he⟩ := bind_eq_ok.mp he
    obtain ⟨host, hhost, he⟩ := bind_eq_ok.mp he
    obtain rfl := Except.ok.inj he
    have hnot : y.receiver.handshake ≠ .returned true := by simp [hc]
    have hreceiver : host.Gated (.returned success) := by
      cases success
      all_goals
        obtain ⟨_, hr, hhost⟩ := bind_eq_ok.mp hhost
        exact h.receiver.returned (of_check hr) (Except.ok.inj hhost).symm
    refine { h with
      receiver := hreceiver
      running  := fun hr => absurd (h.running hr).2 hnot
      acquired := fun ha => absurd (h.acquired ha) hnot
      waiting  := by simp
      equal    := fun ht => ?_ }
    obtain rfl : success = true := Handshake.returned.inj ht
    rw [Protocol.receiverSideHandshakeResult] at hs
    split at hs
    case isTrue heq => exact (h.waiting remote hc).trans <| congrArg some (CompatibilityChecker.equal_iff.mp heq).symm
    case isFalse =>
      obtain ⟨_, _, hs⟩ := bind_eq_ok.mp hs
      exact Bool.noConfusion (Prod.mk.inj <| Except.ok.inj hs).1

theorem step (h : y.Gated) (e : (link L).Step y a y') : y'.Gated := by
  have hg : y.Guard L a := e.guard
  have he : y.exec L a = .ok y' := e.exec
  cases a
  case answered => exact h.answered hg he
  case answer   => exact h.answer he
  case deliver =>
    obtain rfl := Except.ok.inj he
    exact { h with }
  case createSenderChannel =>
    have hg : y.sender.handshake = .ready := hg
    obtain ⟨_, _, he⟩ := bind_eq_ok.mp he
    obtain rfl := Except.ok.inj he
    exact { h with
      sender  := ⟨h.sender.valid, nofun⟩
      packets := fun hp => by simpa [hg] using h.packets hp }
  case startSender =>
    obtain ⟨_, hs, he⟩ := bind_eq_ok.mp he
    obtain rfl := Except.ok.inj he
    exact { h with sender := h.sender.start hs }
  case stopSender =>
    obtain ⟨_, hs, he⟩ := bind_eq_ok.mp he
    obtain rfl := Except.ok.inj he
    exact { h with sender := h.sender.stop hs }
  case sendPacket =>
    obtain ⟨hr, _, hret⟩ := hg
    obtain ⟨_, _, he⟩ := bind_eq_ok.mp he
    obtain rfl := Except.ok.inj he
    refine { h with packets := fun _ => ?_ }
    cases hs : y.sender.handshake
    case returned success =>
      cases success
      case true  => rfl
      case false => simp [(hs ▸ h.sender).not_running] at hr
    all_goals simp [hs, Handshake.isReturned] at hret
  case createReceiver =>
    have hnot : y.receiver.handshake ≠ .returned true := by simp [hg.1]
    obtain ⟨⟨remote, connection, net⟩, _, he⟩ := bind_eq_ok.mp he
    obtain rfl := Except.ok.inj he
    exact { h with
      receiver := ⟨h.receiver.valid, nofun⟩
      running  := fun hr => absurd (h.running hr).2 hnot
      acquired := fun ha => absurd (h.acquired ha) hnot
      waiting  := fun _ hr => congrArg some <| Handshake.compared.inj hr
      equal    := nofun }
  case startReceiver =>
    obtain ⟨host, hs, he⟩ := bind_eq_ok.mp he
    obtain rfl := Except.ok.inj he
    have hrunning : host.running = true := by
      obtain ⟨_, _, hs⟩ := bind_eq_ok.mp hs
      obtain ⟨_, _, hs⟩ := bind_eq_ok.mp hs
      exact congrArg Host.running (Except.ok.inj hs).symm
    exact { h with
      receiver := h.receiver.start hs
      running  := fun hr => ⟨hrunning, of_decide_eq_true hr⟩ }
  case stopReceiver =>
    obtain ⟨_, hs, he⟩ := bind_eq_ok.mp he
    obtain rfl := Except.ok.inj he
    exact { h with receiver := h.receiver.stop hs, running := nofun }
  case receivePacket =>
    rw [exec] at he
    split at he
    case isFalse =>
      obtain rfl := Except.ok.inj he
      exact h
    case isTrue =>
      obtain ⟨r, _, he⟩ := bind_eq_ok.mp he
      obtain rfl := Except.ok.inj he
      exact { h with acquired := fun _ => (h.running hg.1).2 }

end Gated

theorem gated {ok : Link T → LinkAction T → Prop} (h : (link L).Reachable ok y) : y.Gated :=
  h.induction (fun _ => .init) fun _ _ _ _ hy _ e => hy.step e

-- The handshake of a side returns once.
theorem returned_step (hw : y.Wired L) (e : (link L).Step y a y') :
    (y.sender.handshake.isReturned = true → y'.sender.handshake = y.sender.handshake) ∧
    (y.receiver.handshake.isReturned = true → y'.receiver.handshake = y.receiver.handshake) := by
  obtain rfl | e := hw.effect e
  case inl => exact ⟨fun _ => rfl, fun _ => rfl⟩
  case inr =>
    cases e
    case createSenderChannel hs => simp [hs, Handshake.isReturned]
    case answered hs _ _ _ _    => simp [hs, Handshake.isReturned]
    case createReceiver hc _ _ _ => simp [hc, Handshake.isReturned]
    case answer hc _            => simp [hc, Handshake.isReturned]
    all_goals exact ⟨fun _ => rfl, fun _ => rfl⟩

-- A side whose handshake has failed.
theorem failed_forever {ok : Link T → LinkAction T → Prop} {as : List (LinkAction T)} (hw : y.Wired L)
    (h : y.Gated) (r : (link L).Run ok y as y') :
    y'.Gated ∧ (y.sender.handshake = .returned false → y'.sender.handshake = .returned false) ∧
    (y.receiver.handshake = .returned false → y'.receiver.handshake = .returned false) := by
  refine (r.preserves (P := fun z => z.Wired L ∧ z.Gated ∧
    (y.sender.handshake = .returned false → z.sender.handshake = .returned false) ∧
    (y.receiver.handshake = .returned false → z.receiver.handshake = .returned false))
    (fun z a z' hz e => ?_) ⟨hw, h, id, id⟩).2
  obtain ⟨hw, hz, hs, hr⟩ := hz
  obtain ⟨hsender, hreceiver⟩ := returned_step hw e.2
  refine ⟨hw.step e.2, hz.step e.2, fun hf => ?_, fun hf => ?_⟩
  · rw [hsender <| by rw [hs hf]; rfl, hs hf]
  · rw [hreceiver <| by rw [hr hf]; rfl, hr hf]

theorem not_start {host host' : Host} (h : host.validState = false) : host.start ≠ .ok host' := by
  intro he
  obtain ⟨_, _, he⟩ := bind_eq_ok.mp he
  obtain ⟨_, hv, _⟩ := bind_eq_ok.mp he
  exact absurd (h.symm.trans <| of_check hv) (by simp)

end Link

variable {T : Type} {L : Layout T} {y : Link T}

-- Whatever the network does, and whoever is impatient, a handshake that fails on one side keeps this
-- side from ever being started, and no packet is sent or acquired there without one that has succeeded.
theorem handshake_gates {ok : Link T → LinkAction T → Prop} (h : (link L).Reachable ok y) :
    (y.sender.packets ≠ [] → y.sender.handshake = .returned true) ∧
    (y.receiver.running = true ∨ y.receiver.acquired ≠ [] →
      y.receiver.handshake = .returned true ∧ y.receiver.compared = some y.receiver.localProperties) ∧
    ∀ as y', (link L).Run ok y as y' →
      (y.sender.handshake = .returned false → y'.sender.host.running = false ∧ y'.sender.packets = [] ∧
        ∀ z, ¬(link L).Step y' .startSender z) ∧
      (y.receiver.handshake = .returned false → y'.receiver.host.running = false ∧
        y'.receiver.running = false ∧ y'.receiver.acquired = [] ∧ ∀ z, ¬(link L).Step y' .startReceiver z) := by
  have hy := Link.gated h
  refine ⟨hy.packets, fun hr => ?_, fun as y' r => ?_⟩
  case refine_1 =>
    have hh : y.receiver.handshake = .returned true := hr.elim (fun hr => (hy.running hr).2) hy.acquired
    exact ⟨hh, hy.equal hh⟩
  case refine_2 =>
    obtain ⟨hy', hs, hr⟩ := Link.failed_forever (Link.wired h) hy r
    refine ⟨fun hf => ?_, fun hf => ?_⟩
    case refine_1 =>
      have hf := hs hf
      have hnot : y'.sender.handshake ≠ .returned true := by simp [hf]
      refine ⟨(hf ▸ hy'.sender).not_running, ?_, fun z e => ?_⟩
      · exact by_contra fun hp => hnot <| hy'.packets hp
      · obtain ⟨_, he, _⟩ := bind_eq_ok.mp e.exec
        exact Link.not_start (hy'.sender.failed hf) he
    case refine_2 =>
      have hf := hr hf
      have hnot : y'.receiver.handshake ≠ .returned true := by simp [hf]
      refine ⟨(hf ▸ hy'.receiver).not_running, ?_, ?_, fun z e => ?_⟩
      · exact Bool.eq_false_iff.mpr fun hp => hnot (hy'.running hp).2
      · exact by_contra fun ha => hnot <| hy'.acquired ha
      · obtain ⟨_, he, _⟩ := bind_eq_ok.mp e.exec
        exact Link.not_start (hy'.receiver.failed hf) he

-- The properties of the two computers differ, and neither of them goes on.
theorem handshake_gates_unequal :
    ∃ y, (link .int64).Reachable (fun _ _ => True) y ∧ y.sender.handshake = .returned false ∧
      y.receiver.handshake = .returned false ∧
      ∀ as y', (link .int64).Run (fun _ _ => True) y as y' →
        y'.sender.packets = [] ∧ y'.receiver.acquired = [] := by
  obtain ⟨y, h, hs, hr⟩ := Machine.exists_reachable_of_replay (M := link .int64) (s := unequalLink)
    (fun _ _ => True) [
      .createSenderChannel,
      .deliver ⟨.sender, .receiver, unequalLink.record⟩,
      .createReceiver (.replicate 64 0),
      .answer,
      .deliver ⟨.receiver, .sender, Protocol.kHandshakeErrorMsg⟩,
      .answered (.replicate 9 0)]
    (P := fun y => y.sender.handshake = .returned false ∧ y.receiver.handshake = .returned false)
    unequalLink_init (by decide +kernel)
  refine ⟨y, h, hs, hr, fun as y' r => ?_⟩
  obtain ⟨hsender, hreceiver⟩ := (handshake_gates h).2.2 as y' r
  exact ⟨(hsender hs).2.1, (hreceiver hr).2.2.1⟩

end PipeRT
