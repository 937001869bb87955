import PipeRT.System.Queues

namespace PipeRT

namespace Client

-- A call of `Acquire` that has got a packet out of the queue to drop it.
def hasDropped : Client → Bool
  | acquiring _ _ (.dropped _) | acquiring _ _ .logging | acquiring _ _ (.round (_ + 1)) => true
  | _                                                                                    => false

-- The slot of that packet is among the free packets again, and it has not looked for one since.
def hasFreed : Client → Bool
  | acquiring _ _ .logging | acquiring _ _ (.round (_ + 1)) => true
  | _                                                       => false

-- How a client goes on.
inductive Next (ch : ChannelImpl) : Client → Option Client → Prop
  | took {c timestamp i p} :
    ch.freePackets ≠ [] →
    Next ch (acquiring c timestamp (.round i)) (some <| acquiring c timestamp (.acquired p))
  | tookNone {c timestamp} :
    ch.freePackets = [] →
    Next ch (acquiring c timestamp (.round 0)) (some <| acquiring c timestamp .dropping)
  | tookNoneAgain {c timestamp i} :
    ch.freePackets = [] →
    Next ch (acquiring c timestamp (.round (i + 1))) none
  | dropped {c timestamp p} :
    Next ch (acquiring c timestamp .dropping) (some <| acquiring c timestamp (.dropped p))
  | droppedNone {c timestamp} :
    Next ch (acquiring c timestamp .dropping) none
  | freed {c timestamp p} :
    Next ch (acquiring c timestamp (.dropped p)) (some <| acquiring c timestamp .logging)
  | logged {c timestamp} :
    Next ch (acquiring c timestamp .logging) (some <| acquiring c timestamp (.round 1))
  | acquired {c timestamp p} :
    Next ch (acquiring c timestamp (.acquired p)) (some <| filling c p)
  | filled {c p} :
    Next ch (filling c p) (some <| pushing c p)
  | pushed {c p} :
    Next ch (pushing c p) none
  | processed {c p} :
    Next ch (processing c p) (some <| releasing c p)
  | released {c p} :
    Next ch (releasing c p) none

end Client

namespace SchedulerImpl

variable {s s' : SchedulerImpl} {t : Time} {wake : Nat} {x : Client} {x' : Option Client}
variable {ch ch' : ChannelImpl}

theorem Advances.next (hadv : s.Advances t wake x x' ch ch' s') : x.Next ch x' := by
  have hc := hadv.impl
  cases advance_effect hadv.exec
  case took hc' hlast =>
    obtain rfl := Option.some.inj <| hc'.symm.trans hc
    exact .took fun hempty => by simp [hempty] at hlast
  case tookNone i _ hc' hempty =>
    obtain rfl := Option.some.inj <| hc'.symm.trans hc
    cases i
    case zero   => exact .tookNone hempty
    case succ i => exact .tookNoneAgain hempty
  case dropped packet _ =>
    cases packet
    case none   => exact .droppedNone
    case some p => exact .dropped
  case freed     => exact .freed
  case logged    => exact .logged
  case acquired  => exact .acquired
  case filled    => exact .filled
  case pushed    => exact .pushed
  case processed => exact .processed
  case released  => exact .released

end SchedulerImpl

-- How many free packets a step of a client takes or gives back.
theorem Moved.length_free {c : ChannelId} {ch ch' : ChannelImpl} {x x' : Option Client} {t : Time}
    (hm : Moved c ch ch' x x' t) :
    ch'.freePackets.length + (Client.slots Client.packet? x').length +
      (Client.slots Client.enters x).length =
    ch.freePackets.length + (Client.slots Client.packet? x).length +
      (Client.slots Client.leaves x').length := by
  have hslots := hm.slots.length_eq
  have hqueue := hm.queue.length_eq
  simp only [List.length_append] at hslots hqueue
  omega

-- The calls of `Acquire` on the channel that have freed a slot and are about to look for one.
def Client.freed (c : ChannelId) (clients : List Client) : Nat :=
  clients.countP fun x => x.channel = c && x.hasFreed

-- There is a free packet for every one of them.
def Client.Covered (impls : ChannelId → Option ChannelImpl) (clients : List Client) : Prop :=
  ∀ c ch, impls c = some ch → freed c clients ≤ ch.freePackets.length

namespace System

-- A call of `Acquire` that has not dropped a packet yet takes a free one only if there is also one
-- for every call that has.
def Spares (y : System) : Action → Prop
  | .advance (.acquiring c _ (.round 0)) _ =>
    (y.sched.impls c).all (fun ch =>
      decide (ch.freePackets = [] ∨ Client.freed c y.clients < ch.freePackets.length)) = true
  | _ => True

instance {y : System} : DecidablePred y.Spares
  | .advance (.acquiring _ _ (.round 0)) _ => inferInstanceAs (Decidable (_ = _))
  | .advance (.acquiring _ _ (.round (_ + 1))) _ | .advance (.acquiring _ _ (.dropped _)) _
  | .advance (.acquiring _ _ .dropping) _
  | .advance (.acquiring _ _ .logging) _ | .advance (.acquiring _ _ (.acquired _)) _
  | .advance (.filling ..) _ | .advance (.pushing ..) _ | .advance (.processing ..) _
  | .advance (.releasing ..) _ | .tick _ | .createChannel .. | .destroyChannel _ | .start | .spawn
  | .stop | .notifyAll | .join | .setStateInvalid | .acquire .. | .poll _ | .enter _ | .serve _
  | .wakeUp _ | .executed .. | .finish _ => .isTrue trivial

end System

namespace Client.Covered

variable {impls : ChannelId → Option ChannelImpl} {clients : List Client} {now : Time}
variable {c : ChannelId} {ch ch' : ChannelImpl} {x x' : Option Client}

theorem move (rest : List Client) (h : Covered impls clients) (hc : impls c = some ch)
    (hx : clients.Perm (x.toList ++ rest)) (hch : ∀ a ∈ x, a.channel = c)
    (hch' : ∀ a ∈ x', a.channel = c)
    (hs : (x.any hasFreed).toNat + freed c rest ≤ ch.freePackets.length →
      (x'.any hasFreed).toNat + freed c rest ≤ ch'.freePackets.length) :
    Covered (Function.update impls c (some ch')) (x'.toList ++ rest) := by
  intro a b ha
  rw [freed]
  by_cases hac : a = c
  case pos =>
    subst hac
    obtain rfl : b = ch' := by simpa using ha.symm
    have hold := h a ch hc
    rw [freed, hx.countP_eq, countP_toList_append hch] at hold
    rw [countP_toList_append hch']
    exact hs hold
  case neg =>
    have hold := h a b (by simpa [hac] using ha)
    rw [freed, hx.countP_eq, countP_toList_append_of_ne hch hac] at hold
    rwa [countP_toList_append_of_ne hch' hac]

theorem acquire (h : Covered impls clients) (timestamp : Time) :
    Covered impls (.acquiring c timestamp (.round 0) :: clients) := by
  intro b ch hb
  simpa [freed, hasFreed] using h b ch hb

theorem create (h : Covered impls clients) (hne : ∀ x ∈ clients, x.channel ≠ c) :
    Covered (Function.update impls c (some ch)) clients := by
  intro b ch' hb
  by_cases hbc : b = c
  case neg => exact h b ch' (by simpa [hbc] using hb)
  case pos =>
    subst hbc
    rw [freed, List.countP_eq_zero.mpr fun x hx => by simp [hne x hx]]
    exact Nat.zero_le _

theorem destroy (h : Covered impls clients) : Covered (Function.update impls c none) clients := by
  intro b ch hb
  by_cases hbc : b = c
  case pos => simp [hbc] at hb
  case neg => exact h b ch (by simpa [hbc] using hb)

section Step

variable {y y' : System} {a : Action}

theorem advance {x : Client} {wake : Nat} {s' : SchedulerImpl}
    (h : Covered y.sched.impls y.clients) (hs : y.Spares (.advance x wake)) (hx : x ∈ y.clients)
    (hadv : y.sched.Advances y.now wake x x' ch ch' s') :
    Covered s'.impls (x'.toList ++ y.clients.erase x) := by
  rw [hadv.requeued.impls]
  refine h.move (x := some x) _ hadv.impl (List.perm_cons_erase hx) hadv.moved.channel
    hadv.moved.channel' fun hold => ?_
  have hlen := hadv.moved.length_free
  have hc := hadv.impl
  cases hadv.next
  case took c timestamp i p hne =>
    simp [packet?, fills, processes, enters, leaves] at hlen
    cases i
    case succ i =>
      simp [hasFreed, channel] at hold ⊢
      omega
    case zero =>
      have hc : y.sched.impls c = some ch := hc
      have hspare : ch.freePackets = [] ∨ freed c y.clients < ch.freePackets.length := by
        simpa [System.Spares, hc] using hs
      have hspare := hspare.resolve_left hne
      have hrest : freed c (y.clients.erase (.acquiring c timestamp (.round 0))) ≤
          freed c y.clients := List.erase_sublist.countP_le
      simp [hasFreed, channel] at hold ⊢
      omega
  all_goals
    simp [packet?, fills, processes, enters, leaves, hasFreed] at hlen hold ⊢
    omega

theorem step (hi : y.Inv) (h : Covered y.sched.impls y.clients) (hs : y.Spares a)
    (ho : System.Outcome y a y') : Covered y'.sched.impls y'.clients := by
  cases ho
  case tick | start | spawned | started | stop | notifiedAll | joined | invalid | entered | slept | left
    | woken | returned => exact h
  case created hn hcr =>
    rw [congrArg SchedulerImpl.impls hcr.frame]
    exact h.create <| hi.accounted.channel_ne hn
  case destroyed hd =>
    rw [congrArg SchedulerImpl.impls hd.frame]
    exact h.destroy
  case acquire => exact h.acquire _
  case polled c ch ch' packet s' hch _ hr hm =>
    rw [hr.impls]
    refine h.move y.clients hch (.refl _) hm.channel hm.channel' fun hold => ?_
    have hlen := hm.length_free
    cases packet <;> simp [packet?, fills, processes, leaves, hasFreed] at hlen hold ⊢ <;> omega
  case advanced hx hadv => exact h.advance hs hx hadv
  case took s' _ hnext _ _ _ htk hm =>
    change Covered s'.impls _
    rw [htk.impls]
    refine h.move y.clients hnext.impl (.refl _) hm.channel hm.channel' fun hold => ?_
    have hlen := hm.length_free
    simp [packet?, fills, processes, leaves, hasFreed] at hlen hold ⊢
    omega
  case executed i t₁ state c p ch hi' hch =>
    have hnone : y.clients.Perm ((none : Option Client).toList ++ y.clients) := .refl _
    have hno : ∀ a ∈ (none : Option Client), a.channel = c := by simp
    refine h.move y.clients hch hnone hno hno fun hold => ?_
    exact hold
  case finished i state s' hi' hn hf =>
    change Covered s'.impls _
    rw [hf.impls]
    exact h

end Step
end Client.Covered

theorem System.covered {y : System} (h : machine.Reachable (fun y a => y.Clean a ∧ y.Spares a) y) :
    Client.Covered y.sched.impls y.clients := by
  refine h.induction (P := fun y => Client.Covered y.sched.impls y.clients) (fun _ => ?_)
    fun y a y' hr hcov ha e => ?_
  · rintro ⟨_, _, _, _, _, rfl⟩
    exact fun _ _ hc => nomatch hc
  · have hi := safe.reachable <| hr.mono fun _ _ => And.left
    exact hcov.step hi ha.2 <| hi.outcome_of_step ha.1 e

-- A call of `Acquire` that has dropped a packet is about to return a null pointer.
def System.Fails (y : System) : Prop :=
  ∃ x ∈ y.clients, x.hasDropped = true ∧
    ∃ wake s', y.sched.advance y.now wake x = .ok (none, s')

section Failure

variable {y : System} {x : Client} {x' : Option Client} {c : ChannelId} {ch ch' : ChannelImpl}
variable {wake : Nat} {s' : SchedulerImpl}

theorem Client.freed_eq (hx : x ∈ y.clients) (hc : x.channel = c) :
    freed c y.clients = x.hasFreed.toNat + freed c (y.clients.erase x) := by
  have hch : ∀ a ∈ some x, a.channel = c := by simpa using hc
  rw [freed, (List.perm_cons_erase hx).countP_eq]
  exact countP_toList_append hch

-- The state after a client has taken its step.
theorem System.Inv.advance (h : y.Inv) (hx : x ∈ y.clients) (hp : y.Punctual x) (wake : Nat) :
    ∃ y' x' ch ch', machine.Step y (.advance x wake) y' ∧ y'.Inv ∧ y'.now = y.now ∧
      y.sched.impls x.channel = some ch ∧ y'.sched.impls x.channel = some ch' ∧
      x.Next ch x' ∧ Moved x.channel ch ch' (some x) x' y.now ∧
      y'.clients = x'.toList ++ y.clients.erase x := by
  have hg : y.Guard (.advance x wake) := ⟨hx, hp⟩
  obtain ⟨y', he, hwf, ho⟩ := System.outcome h hg trivial
  refine ⟨y', ?_⟩
  have hi' := ho.inv h hg hwf
  cases ho
  case advanced x' ch ch' s' _ hadv =>
    exact ⟨x', ch, ch', ⟨hg, he⟩, hi', rfl, hadv.impl, hadv.impl', hadv.next, hadv.moved, rfl⟩

-- A call that has freed a slot gets to its second turn of the loop.
theorem System.Inv.exists_looking (h : y.Inv) (hc : y.sched.impls c = some ch)
    (hlt : ch.freePackets.length < Client.freed c y.clients) :
    ∃ as z ch', machine.Run System.Clean y as z ∧ z.Inv ∧ z.sched.impls c = some ch' ∧
      ch'.freePackets.length = ch.freePackets.length ∧
      Client.freed c z.clients = Client.freed c y.clients ∧
      ∃ timestamp i, .acquiring c timestamp (.round (i + 1)) ∈ z.clients := by
  obtain ⟨x, hx, hown⟩ := List.countP_pos_iff.mp <| Nat.zero_lt_of_lt hlt
  obtain ⟨hxc, hfreed⟩ : x.channel = c ∧ x.hasFreed = true := by simpa using hown
  clear hown
  cases x
  case acquiring b timestamp stage =>
    obtain rfl : b = c := hxc
    cases stage
    case round i =>
      cases i
      case zero   => contradiction
      case succ i => exact ⟨[], y, ch, .refl, h, hc, rfl, rfl, timestamp, i, hx⟩
    case logging =>
      obtain ⟨y', x', ch₁, ch', hs, hi', _, hc₁, hc', hnext, hm, hclients⟩ := h.advance hx trivial 0
      obtain rfl := Option.some.inj <| hc₁.symm.trans hc
      cases hnext
      have hx' : .acquiring b timestamp (.round 1) ∈ y'.clients := by simp [hclients]
      have hclean : y.Clean (.advance (.acquiring b timestamp .logging) 0) := trivial
      refine ⟨_, y', ch', .step ⟨hclean, hs⟩ .refl, hi', hc', ?_, ?_, timestamp, 0, hx'⟩
      · simpa [Client.packet?, Client.fills, Client.processes, Client.enters, Client.leaves]
          using hm.length_free
      · have hold : Client.freed b y.clients = _ := Client.freed_eq hx rfl
        have hnew : Client.freed b y'.clients = _ := Client.freed_eq hx' rfl
        rw [hold, hnew, hclients]
        simp [Client.hasFreed]
    all_goals contradiction
  all_goals contradiction

theorem System.fails_of_empty {timestamp : Time} {i : Nat} (hc : y.sched.impls c = some ch)
    (he : ch.freePackets = []) (hx : .acquiring c timestamp (.round (i + 1)) ∈ y.clients) :
    y.Fails :=
  ⟨_, hx, rfl, 0, y.sched, by
    simp [SchedulerImpl.advance, SchedulerImpl.deref_eq hc, ChannelImpl.takeFree, he]⟩

-- If there are fewer free packets than calls that have freed one, one of the calls can fail.
theorem System.Inv.exists_fails (h : y.Inv) (hc : y.sched.impls c = some ch)
    (hlt : ch.freePackets.length < Client.freed c y.clients) :
    ∃ as z, machine.Run System.Clean y as z ∧ z.Fails := by
  obtain ⟨n, hn⟩ : ∃ n, ch.freePackets.length = n := ⟨_, rfl⟩
  induction n generalizing y ch
  case zero =>
    obtain ⟨as, z, ch', hr, hz, hc', hlen, _, timestamp, i, hx⟩ := h.exists_looking hc hlt
    exact ⟨as, z, hr, System.fails_of_empty hc' (List.length_eq_zero_iff.mp <| hlen.trans hn) hx⟩
  case succ n ih =>
    obtain ⟨as, z, ch', hr, hz, hc', hlen, hfreed, timestamp, i, hx⟩ := h.exists_looking hc hlt
    obtain ⟨z', x', ch₁, ch₂, hs, hz', _, hc₁, hc₂, hnext, hm, hclients⟩ := hz.advance hx trivial 0
    obtain rfl := Option.some.inj <| hc₁.symm.trans hc'
    cases hnext
    case tookNoneAgain hempty =>
      rw [hempty, List.length_nil] at hlen
      omega
    case took p hne =>
      have hfree := hm.length_free
      have hfreed' := Client.freed_eq hx rfl
      simp [Client.packet?, Client.fills, Client.processes, Client.enters, Client.leaves] at hfree
      have hrest : Client.freed c z'.clients = Client.freed c (z.clients.erase
          (.acquiring c timestamp (.round (i + 1)))) := by
        simp [hclients, Client.freed, Client.hasFreed]
      simp [Client.hasFreed, Client.channel] at hfreed'
      have hlt' : ch₂.freePackets.length < Client.freed c z'.clients := by omega
      obtain ⟨bs, w, hr', hf⟩ := ih hz' hc₂ hlt' (by omega)
      have hclean : z.Clean (.advance (.acquiring c timestamp (.round (i + 1))) 0) := trivial
      exact ⟨_, w, hr.trans <| .step ⟨hclean, hs⟩ hr', hf⟩

end Failure

theorem System.eq_of_not_spares {y : System} {a : Action} (h : ¬y.Spares a) :
    ∃ c timestamp wake ch, a = .advance (.acquiring c timestamp (.round 0)) wake ∧
      y.sched.impls c = some ch ∧ ch.freePackets ≠ [] ∧
      ch.freePackets.length ≤ Client.freed c y.clients := by
  rw [Spares.eq_def] at h
  split at h
  case h_1 c timestamp wake =>
    cases hc : y.sched.impls c
    case none => simp [hc] at h
    case some ch =>
      have ⟨hne, hle⟩ : ch.freePackets ≠ [] ∧ ch.freePackets.length ≤ Client.freed c y.clients := by
        simpa [hc] using h
      exact ⟨c, timestamp, wake, ch, rfl, hc, hne, hle⟩
  case h_2 => exact absurd trivial h

-- While every call that has freed a slot is left one, a packet is dropped only for a call that then
-- gets a packet. As soon as one is not, a call that dropped a packet can come back without any.
theorem dropped_for_own_call {y : System}
    (h : machine.Reachable (fun y a => y.Clean a ∧ y.Spares a) y) :
    (∀ x ∈ y.clients, x.hasDropped = true → ∀ wake, ∃ x' s',
      y.sched.advance y.now wake x = .ok (some x', s') ∧
      (x'.hasDropped = true ∨ x'.fills.isSome = true)) ∧
    ∀ a, y.Guard a → ¬y.Spares a →
      ∃ y' as z, machine.Step y a y' ∧ machine.Run System.Clean y' as z ∧ z.Fails := by
  have hi := safe.reachable <| h.mono fun _ _ => And.left
  have hcov := System.covered h
  refine ⟨fun x hx hd wake => ?_, fun a hg hs => ?_⟩
  case refine_1 =>
    obtain ⟨x', ch, ch', s', hadv⟩ := SchedulerImpl.advance_spec hi.wf hi.accounted hx
      (by rintro _ _ rfl; contradiction) hi.clock wake
    have hcov := hcov _ ch hadv.impl
    rw [Client.freed_eq hx rfl] at hcov
    have hexec := hadv.exec
    cases hadv.next
    case tookNoneAgain hempty => simp [hempty, Client.hasFreed] at hcov
    case took   => exact ⟨_, s', hexec, .inr rfl⟩
    case freed  => exact ⟨_, s', hexec, .inl rfl⟩
    case logged => exact ⟨_, s', hexec, .inl rfl⟩
    all_goals contradiction
  case refine_2 =>
    obtain ⟨c, timestamp, wake, ch, rfl, hc, hne, hle⟩ := System.eq_of_not_spares hs
    obtain ⟨hx, hp⟩ := hg
    obtain ⟨y', x', ch₁, ch', hstep, hi', _, hc₁, hc', hnext, hm, hclients⟩ := hi.advance hx hp wake
    obtain rfl := Option.some.inj <| hc₁.symm.trans hc
    cases hnext
    case tookNone hempty => contradiction
    case took p _ =>
      have hlen := hm.length_free
      simp [Client.packet?, Client.fills, Client.processes, Client.enters, Client.leaves] at hlen
      have hold : Client.freed c y.clients = _ := Client.freed_eq hx rfl
      have hnew : Client.freed c y'.clients = Client.freed c y.clients := by
        rw [hold, hclients]
        simp [Client.freed, Client.hasFreed]
      have hc' : y'.sched.impls c = some ch' := hc'
      obtain ⟨as, z, hr, hf⟩ := hi'.exists_fails hc' (by omega)
      exact ⟨y', as, z, hstep, hr, hf⟩

-- Two threads call `Acquire` while the only slot of the channel is queued. One of them drops the
-- packet, and the other one takes the slot.
def raced : List Action := [
  .createChannel 1 "raced" 1 nullptr false,
  .acquire 1 0, .advance (.acquiring 1 0 (.round 0)) 0, .advance (.acquiring 1 0 (.acquired 0)) 0,
  .advance (.filling 1 0) 0, .advance (.pushing 1 0) 0,
  .acquire 1 1, .advance (.acquiring 1 1 (.round 0)) 0, .advance (.acquiring 1 1 .dropping) 0,
  .advance (.acquiring 1 1 (.dropped 0)) 0,
  .acquire 1 2, .advance (.acquiring 1 2 (.round 0)) 0,
  .advance (.acquiring 1 1 .logging) 0]

-- The call that dropped the packet gets nothing.
theorem dropped_for_other_call : ∃ y : System, machine.Reachable System.Clean y ∧
    .acquiring 1 2 (.acquired 0) ∈ y.clients ∧ .acquiring 1 1 (.round 1) ∈ y.clients ∧
    Client.hasDropped (.acquiring 1 1 (.round 1)) = true ∧
    y.sched.advance y.now 0 (.acquiring 1 1 (.round 1)) = .ok (none, y.sched) := by
  obtain ⟨y, hr, ha, hx, hf⟩ := Machine.exists_reachable_of_replay (M := machine)
    (s := .new 1 false 5) System.Clean raced
    (P := fun y => .acquiring 1 2 (.acquired 0) ∈ y.clients ∧
      .acquiring 1 1 (.round 1) ∈ y.clients ∧
      (y.sched.impls 1).any (fun ch => decide (ch.freePackets = [])) = true)
    ⟨1, false, 5, by decide, by decide, rfl⟩ (by decide +kernel)
  obtain ⟨ch, hc, he⟩ := (Option.any_eq_true ..).mp hf
  refine ⟨y, hr, ha, hx, rfl, ?_⟩
  simp [SchedulerImpl.advance, SchedulerImpl.deref_eq hc, ChannelImpl.takeFree, of_decide_eq_true he]

-- The run up to the moment when the slot is free again.
theorem dropped_for_own_call_raced : ∃ y : System, y.clients = [.acquiring 1 2 (.round 0), .acquiring 1 1 .logging] ∧
    (∀ x ∈ y.clients, x.hasDropped = true → ∀ wake, ∃ x' s',
      y.sched.advance y.now wake x = .ok (some x', s') ∧
      (x'.hasDropped = true ∨ x'.fills.isSome = true)) ∧
    ∃ y' as z, machine.Step y (.advance (.acquiring 1 2 (.round 0)) 0) y' ∧
      machine.Run System.Clean y' as z ∧ z.Fails := by
  obtain ⟨y, hr, hx, hs⟩ := Machine.exists_reachable_of_replay (M := machine)
    (s := .new 1 false 5) (fun y a => y.Clean a ∧ y.Spares a) (raced.take 11)
    (P := fun y => y.clients = [.acquiring 1 2 (.round 0), .acquiring 1 1 .logging] ∧
      ¬y.Spares (.advance (.acquiring 1 2 (.round 0)) 0))
    ⟨1, false, 5, by decide, by decide, rfl⟩ (by decide +kernel)
  obtain ⟨hown, hother⟩ := dropped_for_own_call hr
  exact ⟨y, hx, hown, hother _ ⟨by simp [hx], trivial⟩ hs⟩

end PipeRT
