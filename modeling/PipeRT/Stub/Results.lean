import PipeRT.Stub.Moves

-- What the calls of a thread that nobody interrupts return, and how they leave the channel.
namespace PipeRT

namespace Accounted

variable {impls : ChannelId → Option ChannelImpl} {clients : List Client} {now : Time}
variable {c : ChannelId} {ch : ChannelImpl} {p : Slot}

theorem lt_capacity_of_free (h : Accounted impls clients now) (hc : impls c = some ch)
    (hp : p ∈ ch.freePackets) : p < ch.capacity :=
  List.mem_range.mp <| (h.slots c ch hc).mem_iff.mp <| by simp [hp]

theorem lt_capacity_of_queued (h : Accounted impls clients now) (hc : impls c = some ch)
    (hp : p ∈ ch.queuedPackets.heap) : p < ch.capacity :=
  List.mem_range.mp <| (h.slots c ch hc).mem_iff.mp <| by simp [hp]

end Accounted

namespace Channel

variable {s : SchedulerImpl} {clients : List Client} {c : ChannelId} {ch : ChannelImpl} {p : Slot}
variable {t : Time} (h : s.WF) (hacc : Accounted s.impls clients t) (hc : s.impls c = some ch)
include h hacc hc

theorem findFree_spec :
    (∃ p free, ch.freePackets = free ++ [p] ∧
      findFree s c t = .ok (some p, s.setImpl c { ch with freePackets := free })) ∨
    (ch.freePackets = [] ∧ ch.queuedPackets.heap = [] ∧ findFree s c t = .ok (none, s)) ∨
    ∃ p rest q s', ch.freePackets = [] ∧ ch.queuedPackets.heap = p :: rest ∧ q.heap.Perm rest ∧
      findFree s c t = .ok (some p, s') ∧
      s'.impls c = some ((ch.popped q p true t).log .droppedPacket 1) := by
  cases hf : ch.freePackets.getLast?
  case some p =>
    refine .inl ⟨p, _, (List.dropLast_append_getLast? p hf).symm, ?_⟩
    simp [findFree, takeFree, SchedulerImpl.deref_eq hc, ChannelImpl.takeFree, hf]
  case none =>
    have hnil := List.getLast?_eq_none_iff.mp hf
    have hfirst : takeFree s c = .ok (none, s) := by
      simp [takeFree, SchedulerImpl.deref_eq hc, ChannelImpl.takeFree, hf, SchedulerImpl.setImpl_self hc]
    cases SchedulerImpl.getNext_spec h hacc hc true
    case inl hn =>
      refine .inr <| .inl ⟨hnil, hn.1, ?_⟩
      simp [findFree, hfirst, tryDroppingPacket, hn.2]
    case inr hn =>
      have ⟨p, rest, q, s₁, hq, hperm, hs₁, _, hr⟩ := hn
      have hlt : p < ch.capacity := hacc.lt_capacity_of_queued hc <| by simp [hq]
      have hc₁ : s₁.impls c = some (ch.popped q p true t) :=
        hr.impls ▸ SchedulerImpl.setImpl_impls_self
      refine .inr <| .inr ⟨p, rest, q, s₁.setImpl c ((ch.popped q p true t).log .droppedPacket 1), hnil,
        hq, hperm, ?_, SchedulerImpl.setImpl_impls_self⟩
      have hpos : 0 < ch.capacity := Nat.zero_lt_of_lt hlt
      have hdrop : tryDroppingPacket s c t = .ok (true, s₁.setImpl c <|
          { ch.popped q p true t with freePackets := [p] }.log .droppedPacket 1) := by
        simp [tryDroppingPacket, hs₁, SchedulerImpl.deref_eq hc₁, ChannelImpl.giveFree, hnil, hlt, hpos]
      have hlast : takeFree (s₁.setImpl c <|
          { ch.popped q p true t with freePackets := [p] }.log .droppedPacket 1) c =
          .ok (some p, s₁.setImpl c <| (ch.popped q p true t).log .droppedPacket 1) := by
        simp only [takeFree, SchedulerImpl.deref_setImpl_self, ok_bind, setImpl_setImpl]
        exact congrArg (fun free => Except.ok (some p, s₁.setImpl c <|
          { ch.popped q p true t with freePackets := free }.log .droppedPacket 1)) hnil.symm
      rw [findFree, hfirst, ok_bind]
      exact bind_eq_ok.mpr ⟨_, hdrop, hlast⟩

-- `Acquire` takes a free slot, or the one of the first packet in the queue.
theorem acquire_spec (timestamp : Time) :
    (∃ p free s', ch.freePackets = free ++ [p] ∧ acquire s c timestamp t = .ok (some p, s') ∧
      s'.impls c = some (({ ch with freePackets := free }.stamp p t).construct p timestamp)) ∨
    (ch.freePackets = [] ∧ ch.queuedPackets.heap = [] ∧ acquire s c timestamp t = .ok (none, s)) ∨
    ∃ p rest q s', ch.freePackets = [] ∧ ch.queuedPackets.heap = p :: rest ∧ q.heap.Perm rest ∧
      acquire s c timestamp t = .ok (some p, s') ∧
      s'.impls c = some ((((ch.popped q p true t).log .droppedPacket 1).stamp p t).construct p timestamp) := by
  have hgot {p : Slot} {s₁ : SchedulerImpl} {ch₁ : ChannelImpl}
      (hf : findFree s c t = .ok (some p, s₁)) (hc₁ : s₁.impls c = some ch₁) (hlt : p < ch₁.capacity) :
      acquire s c timestamp t =
        .ok (some p, s₁.setImpl c <| (ch₁.stamp p t).construct p timestamp) := by
    simp [acquire, hf, SchedulerImpl.deref_eq hc₁, hlt]
  rcases findFree_spec h hacc hc with ⟨p, free, hfree, hf⟩ | ⟨hfree, hq, hf⟩ |
    ⟨p, rest, q, s₁, hfree, hq, hperm, hf, hc₁⟩
  case inl =>
    have hlt := hacc.lt_capacity_of_free hc (p := p) <| by simp [hfree]
    exact .inl ⟨p, free, _, hfree, hgot hf SchedulerImpl.setImpl_impls_self hlt,
      SchedulerImpl.setImpl_impls_self⟩
  case inr.inl => exact .inr <| .inl ⟨hfree, hq, by simp [acquire, hf]⟩
  case inr.inr =>
    have hlt := hacc.lt_capacity_of_queued hc (p := p) <| by simp [hq]
    exact .inr <| .inr ⟨p, rest, q, _, hfree, hq, hperm, hgot hf hc₁ <| by simpa using hlt,
      SchedulerImpl.setImpl_impls_self⟩

-- `Push` puts a packet into the queue whose timestamp is not in the future.
theorem push_spec (hx : .filling c p ∈ clients) (ht : t < kMaxTime) (hp : ch.timestamp p ≤ t) :
    ∃ s' q, push s c p t = .ok s' ∧ q.heap.Perm (p :: ch.queuedPackets.heap) ∧
      s'.impls c = some (((ch.log .pushed (t - ch.timestamp p)).log .fillTime
        (t - ch.opTimestamp p)).setQueued q) := by
  have hop : ch.opTimestamp p ≤ t := hacc.timely _ hx ch hc
  have hq : Quiet ch ((ch.log .pushed (t - ch.timestamp p)).log .fillTime (t - ch.opTimestamp p)) :=
    (Quiet.log ..).trans (.log ..)
  have hroom : ch.queuedPackets.size < ch.capacity := hacc.size_queue_lt hx hc rfl
  have hn : p ∉ ch.queuedPackets.heap := hacc.notMem_queue hx hc rfl
  have ⟨s', q, hs', _, hperm, hr⟩ := SchedulerImpl.push_spec (h.quiet hc hq)
    SchedulerImpl.setImpl_impls_self hroom hn (Int.lt_of_le_of_lt hp ht) 0
  have himpl := hr.impls ▸ SchedulerImpl.setImpl_impls_self
  exact ⟨s', q, by simp [push, SchedulerImpl.deref_eq hc, hp, hop, hs'], hperm, himpl⟩

omit h in
theorem release_spec (hx : .processing c p ∈ clients) :
    release s c p t = .ok (s.setImpl c { (ch.destruct p).log .readTime (t - ch.opTimestamp p) with
      freePackets := ch.freePackets ++ [p] }) := by
  have hop : ch.opTimestamp p ≤ t := hacc.timely _ hx ch hc
  simp [release, SchedulerImpl.deref_eq hc, hop, ChannelImpl.giveFree, hacc.lt_capacity hx hc rfl,
    hacc.length_free_lt hx hc rfl]

end Channel
end PipeRT
