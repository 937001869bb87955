import PipeRT.System.Advance

namespace PipeRT

-- The operations of a channel at time `t`, as the calls of a thread that nobody interrupts.
namespace Channel

-- A turn of the loop in `ChannelImpl::Acquire`.
def takeFree (s : SchedulerImpl) (c : ChannelId) : Except Fault (Option Slot × SchedulerImpl) := do
  let (packet, ch) := (← s.deref c).takeFree
  return (packet, s.setImpl c ch)

-- `ChannelImpl::TryDroppingPacket`
def tryDroppingPacket (s : SchedulerImpl) (c : ChannelId) (t : Time) :
    Except Fault (Bool × SchedulerImpl) := do
  let (packet, s) ← s.getNext c true t
  match packet with
  | none        => return (false, s)
  | some packet =>
    let ch ← (← s.deref c).giveFree packet
    return (true, s.setImpl c <| ch.log .droppedPacket 1)

-- The loop in `ChannelImpl::Acquire`.
def findFree (s : SchedulerImpl) (c : ChannelId) (t : Time) :
    Except Fault (Option Slot × SchedulerImpl) := do
  let (packet, s) ← takeFree s c
  if packet.isSome then
    return (packet, s)
  else
    let (dropped, s) ← tryDroppingPacket s c t
    if dropped then takeFree s c else return (none, s)

-- `Channel<T>::Acquire`, the packet of which is put into the `PacketToFill`.
def acquire (s : SchedulerImpl) (c : ChannelId) (timestamp t : Time) :
    Except Fault (Option Slot × SchedulerImpl) := do
  let (packet, s) ← findFree s c t
  match packet with
  | none        => return (none, s)
  | some packet =>
    let ch ← s.deref c
    check (packet < ch.capacity)
    return (some packet, s.setImpl c <| (ch.stamp packet t).construct packet timestamp)

-- `Channel<T>::Push`
def push (s : SchedulerImpl) (c : ChannelId) (packet : Slot) (t : Time) :
    Except Fault SchedulerImpl := do
  let ch ← s.deref c
  check (t - ch.timestamp packet ≥ 0)
  check (t - ch.opTimestamp packet ≥ 0)
  let ch := ch.log .pushed (t - ch.timestamp packet)
  let ch := ch.log .fillTime (t - ch.opTimestamp packet)
  (s.setImpl c ch).push c packet 0

-- `PolledChannel<T>::Poll`, the packet of which is put into the `PacketToProcess`.
def poll (s : SchedulerImpl) (c : ChannelId) (t : Time) :
    Except Fault (Option Slot × SchedulerImpl) :=
  s.getNext c false t

-- `Channel<T>::Release`
def release (s : SchedulerImpl) (c : ChannelId) (packet : Slot) (t : Time) :
    Except Fault SchedulerImpl := do
  let ch := (← s.deref c).destruct packet
  check (t - ch.opTimestamp packet ≥ 0)
  let ch ← (ch.log .readTime (t - ch.opTimestamp packet)).giveFree packet
  return s.setImpl c ch

end Channel

-- A thread of the user, and the scheduler that it works with.
abbrev Thread := Option Client × SchedulerImpl

def Thread.Step (t : Time) : Thread → Nat → Thread → Prop
  | (some x, s), wake, y => s.advance t wake x = .ok y
  | (none, _), _, _      => False

-- What holds between the steps of a thread, as long as the scheduler is stopped. The other stubs
-- are those of `rest`.
structure Thread.Inv (t : Time) (rest : List Client) (x : Thread) : Prop where
  wf        : x.2.WF
  idle      : x.2.running = false
  accounted : Accounted x.2.impls (x.1.toList ++ rest) t

theorem SchedulerImpl.timestamp_le_of_advance {s : SchedulerImpl} {t : Time} {wake : Nat}
    {c : ChannelId} {p : Slot} {y : Thread} (h : s.advance t wake (.filling c p) = .ok y) :
    s.timestamp c p ≤ t := by
  obtain ⟨_, _⟩ := y
  cases advance_effect h
  case filled hc ht _ => simpa [timestamp, hc] using ht

theorem Thread.Inv.step {t : Time} {rest : List Client} {x y : Thread} {wake : Nat}
    (h : Thread.Inv t rest x) (ht : t < kMaxTime) (hs : Thread.Step t x wake y) :
    Thread.Inv t rest y := by
  have ⟨x, s⟩ := x
  cases x
  case none => contradiction
  case some x =>
    have ⟨x', ch, ch', s', hadv⟩ := SchedulerImpl.advance_spec h.wf h.accounted
      (List.mem_append_left rest <| Option.mem_toList.mpr rfl)
      (fun c p hx => SchedulerImpl.timestamp_le_of_advance <| hx ▸ hs) ht wake
    obtain rfl := Except.ok.inj <| hadv.exec.symm.trans hs
    refine ⟨hadv.wf, ?_, ?_⟩
    · have hframe : s'.running = s.running := by rw [hadv.requeued.frame]; rfl
      exact hframe.trans h.idle
    · change Accounted s'.impls _ t
      rw [hadv.requeued.impls]
      exact h.accounted.move (x := some x) rest hadv.impl (.refl _) hadv.moved

theorem Thread.Inv.execution {t : Time} {rest : List Client} {x y : Thread} {as : List Nat}
    (h : Thread.Inv t rest x) (ht : t < kMaxTime) (p : Execution (Thread.Step t) x as y) :
    Thread.Inv t rest y :=
  p.preserves (fun _ _ _ hx hs => hx.step ht hs) h

-- Every call is an execution of the steps that its thread takes when it is not alone.
namespace Channel

variable {s s' : SchedulerImpl} {c : ChannelId} {ch : ChannelImpl} {packet : Option Slot} {p : Slot}
variable {timestamp t : Time}

theorem setImpl_setImpl (ch' : ChannelImpl) : (s.setImpl c ch).setImpl c ch' = s.setImpl c ch' := by
  simp [SchedulerImpl.setImpl]

theorem takeFree_step (timestamp t : Time) (h : takeFree s c = .ok (packet, s')) (i : Nat) :
    s.advance t 0 (.acquiring c timestamp (.round i)) =
    .ok (match packet with
      | some p => some (.acquiring c timestamp (.acquired p))
      | none   => if i + 1 < 2 then some (.acquiring c timestamp .dropping) else none, s') := by
  have ⟨ch, hd, h⟩ := bind_eq_ok.mp h
  have hc := SchedulerImpl.impl_of_deref hd
  cases hf : ch.freePackets.getLast?
  case none =>
    simp only [ChannelImpl.takeFree, hf, SchedulerImpl.setImpl_self hc] at h
    obtain ⟨rfl, rfl⟩ := Prod.mk.inj (Except.ok.inj h)
    simp [SchedulerImpl.advance, hd, ChannelImpl.takeFree, hf]
  case some p =>
    simp only [ChannelImpl.takeFree, hf] at h
    obtain ⟨rfl, rfl⟩ := Prod.mk.inj (Except.ok.inj h)
    simp [SchedulerImpl.advance, hd, ChannelImpl.takeFree, hf]

theorem tryDroppingPacket_execution {dropped : Bool} (timestamp : Time)
    (h : tryDroppingPacket s c t = .ok (dropped, s')) :
    ∃ as, Execution (Thread.Step t) (some (.acquiring c timestamp .dropping), s) as
      (if dropped then some (.acquiring c timestamp (.round 1)) else none, s') := by
  obtain ⟨⟨packet, s₁⟩, hn, h⟩ := bind_eq_ok.mp h
  cases packet
  case none =>
    obtain ⟨rfl, rfl⟩ := Prod.mk.inj (Except.ok.inj h)
    refine ⟨[0], .step ?_ .refl⟩
    simp [Thread.Step, SchedulerImpl.advance, hn]
  case some p =>
    obtain ⟨ch, hd, h⟩ := bind_eq_ok.mp h
    obtain ⟨ch', hg, h⟩ := bind_eq_ok.mp h
    obtain ⟨rfl, rfl⟩ := Prod.mk.inj (Except.ok.inj h)
    have hdrop : Thread.Step t (some (.acquiring c timestamp .dropping), s) 0
        (some (.acquiring c timestamp (.dropped p)), s₁) := by
      simp [Thread.Step, SchedulerImpl.advance, hn]
    have hgive : Thread.Step t (some (.acquiring c timestamp (.dropped p)), s₁) 0
        (some (.acquiring c timestamp .logging), s₁.setImpl c ch') := by
      simp [Thread.Step, SchedulerImpl.advance, hd, hg]
    refine ⟨[0, 0, 0], .step hdrop <| .step hgive <| .step ?_ .refl⟩
    simp [Thread.Step, SchedulerImpl.advance, setImpl_setImpl]

theorem findFree_execution (timestamp : Time) (h : findFree s c t = .ok (packet, s')) :
    ∃ as, Execution (Thread.Step t) (some (.acquiring c timestamp (.round 0)), s) as
      (packet.map fun p => .acquiring c timestamp (.acquired p), s') := by
  have ⟨⟨packet₁, s₁⟩, ht, h⟩ := bind_eq_ok.mp h
  have hstep := takeFree_step timestamp t ht 0
  cases packet₁
  case some p =>
    obtain ⟨rfl, rfl⟩ := Prod.mk.inj (Except.ok.inj h)
    exact ⟨[0], .step hstep .refl⟩
  case none =>
    have ⟨⟨dropped, s₂⟩, hd, h⟩ := bind_eq_ok.mp h
    have ⟨as, hp⟩ := tryDroppingPacket_execution timestamp hd
    cases dropped
    case false =>
      obtain ⟨rfl, rfl⟩ := Prod.mk.inj (Except.ok.inj h)
      exact ⟨0 :: as, .step hstep hp⟩
    case true =>
      have hround := takeFree_step timestamp t h 1
      refine ⟨0 :: (as ++ [0]), .step hstep <| hp.trans <| .step ?_ .refl⟩
      cases packet <;> exact hround

theorem acquire_execution (h : acquire s c timestamp t = .ok (packet, s')) :
    ∃ as, Execution (Thread.Step t) (some (.acquiring c timestamp (.round 0)), s) as
      (packet.map (.filling c), s') := by
  have ⟨⟨packet₁, s₁⟩, hf, h⟩ := bind_eq_ok.mp h
  have ⟨as, hp⟩ := findFree_execution timestamp hf
  cases packet₁
  case none =>
    obtain ⟨rfl, rfl⟩ := Prod.mk.inj (Except.ok.inj h)
    exact ⟨as, hp⟩
  case some p =>
    have ⟨ch, hd, h⟩ := bind_eq_ok.mp h
    have ⟨_, hlt, h⟩ := bind_eq_ok.mp h
    obtain ⟨rfl, rfl⟩ := Prod.mk.inj (Except.ok.inj h)
    refine ⟨as ++ [0], hp.trans <| .step ?_ .refl⟩
    simp [Thread.Step, SchedulerImpl.advance, hd, hlt]

theorem push_execution (h : push s c p t = .ok s') :
    ∃ as, Execution (Thread.Step t) (some (.filling c p), s) as (none, s') := by
  have ⟨ch, hd, h⟩ := bind_eq_ok.mp h
  have ⟨_, ht, h⟩ := bind_eq_ok.mp h
  have ⟨_, hop, h⟩ := bind_eq_ok.mp h
  have hlog : Thread.Step t (some (.filling c p), s) 0 (some (.pushing c p), s.setImpl c <|
      (ch.log .pushed (t - ch.timestamp p)).log .fillTime (t - ch.opTimestamp p)) := by
    simp only [Thread.Step, SchedulerImpl.advance, hd, ok_bind, ht, hop]
    rfl
  refine ⟨[0, 0], .step hlog <| .step ?_ .refl⟩
  simp only [Thread.Step, SchedulerImpl.advance]
  exact bind_eq_ok.mpr ⟨s', h, rfl⟩

theorem release_execution (h : release s c p t = .ok s') :
    ∃ as, Execution (Thread.Step t) (some (.processing c p), s) as (none, s') := by
  have ⟨ch, hd, h⟩ := bind_eq_ok.mp h
  have ⟨_, hop, h⟩ := bind_eq_ok.mp h
  have ⟨ch', hg, h⟩ := bind_eq_ok.mp h
  obtain rfl := Except.ok.inj h
  have hlog : Thread.Step t (some (.processing c p), s) 0 (some (.releasing c p), s.setImpl c <|
      (ch.destruct p).log .readTime (t - ch.opTimestamp p)) := by
    simp only [Thread.Step, SchedulerImpl.advance, hd, ok_bind, hop]
    rfl
  refine ⟨[0, 0], .step hlog <| .step ?_ .refl⟩
  simp only [Thread.Step, SchedulerImpl.advance, SchedulerImpl.deref_setImpl_self, ok_bind]
  exact bind_eq_ok.mpr ⟨ch', hg, by rw [setImpl_setImpl]; rfl⟩

end Channel
end PipeRT
