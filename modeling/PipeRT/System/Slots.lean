import PipeRT.System.Queues

namespace PipeRT

variable {y y' : System} {a : Action}

-- Every slot of a pool is in one place, so that the assertions on the lengths of the two containers
-- of a channel hold.
theorem slots_partitioned (h : machine.Reachable System.Clean y) :
    (∀ c ch, y.sched.impls c = some ch →
      (ch.freePackets ++ ch.queuedPackets.heap ++
        (Client.heldBy Client.fills c y.clients ++ Client.heldBy Client.processes c y.clients)).Perm
      (List.range ch.capacity)) ∧
    ∀ a, y.Guard a → y.Clean a → y.exec a ≠ .error .assertion := by
  refine ⟨fun c ch hc => ?_, fun a hg ha => safe.not_error h hg ha _⟩
  refine .trans (.append_left _ ?_) ((safe.reachable h).accounted.slots c ch hc)
  exact (Client.heldBy_packet? c y.clients).symm

theorem slots_partitioned_twoStates :
    ∃ y : System, y.sched.workers = [.executing 7 2 0, .locking] ∧
      (∀ c ch, y.sched.impls c = some ch →
        (ch.freePackets ++ ch.queuedPackets.heap ++
          (Client.heldBy Client.fills c y.clients ++ Client.heldBy Client.processes c y.clients)).Perm
        (List.range ch.capacity)) ∧
      ∀ a, y.Guard a → y.Clean a → y.exec a ≠ .error .assertion :=
  have ⟨y, hr, hw, _⟩ := reachable_twoStates
  ⟨y, hw, slots_partitioned hr⟩

-- Only the thread that drops a packet gets hold of it.
theorem Moved.undropped {c : ChannelId} {ch ch' : ChannelImpl} {x x' : Option Client} {t : Time}
    (hm : Moved c ch ch' x x' t)
    (hq : ∀ timestamp, x = some (.acquiring c timestamp .dropping) → ch.queuedPackets.heap = []) :
    ∀ a ∈ x', a.isDropped = false := by
  intro a ha
  by_contra hd
  have hd := Bool.eq_true_of_not_eq_false hd
  have ⟨timestamp, hx⟩ := hm.drops a ha hd
  have hlen := hm.queue.length_eq
  obtain rfl := Option.mem_def.mp ha
  have hl : a.leaves ≠ none := fun hl => by simp [Client.isDropped_eq_false hl] at hd
  cases hle : a.leaves
  case none   => exact hl hle
  case some p => simp [hx, hq timestamp hx, Client.enters, hle] at hlen

namespace System

-- No packet is dropped: an `Acquire` that finds no free packet finds no queued one either.
def Undropped (y : System) : Action → Prop
  | .advance (.acquiring c _ .dropping) _ => (y.sched.impls c).all (·.queuedPackets.heap = []) = true
  | _                                     => True

instance {y : System} : DecidablePred y.Undropped
  | .advance (.acquiring _ _ .dropping) _ => inferInstanceAs (Decidable (_ = _))
  | .advance (.acquiring _ _ (.round _)) _ | .advance (.acquiring _ _ (.dropped _)) _
  | .advance (.acquiring _ _ .logging) _ | .advance (.acquiring _ _ (.acquired _)) _
  | .advance (.filling ..) _ | .advance (.pushing ..) _ | .advance (.processing ..) _
  | .advance (.releasing ..) _ | .tick _ | .createChannel .. | .destroyChannel _ | .start | .spawn
  | .stop | .notifyAll | .join | .setStateInvalid | .acquire .. | .poll _ | .enter _ | .serve _
  | .wakeUp _ | .executed .. | .finish _ => .isTrue trivial

-- The `Packet<T>` objects that are alive are those of the queued packets and of the stubs.
structure Balanced (impls : ChannelId → Option ChannelImpl) (clients : List Client) : Prop where
  lifetimes : ∀ c ch, impls c = some ch → ∀ p, ch.constructed p =
              ch.destructed p + (ch.queuedPackets.heap ++ Client.heldBy Client.alive c clients).count p
  undropped : ∀ x ∈ clients, x.isDropped = false

namespace Balanced

variable {impls : ChannelId → Option ChannelImpl} {clients : List Client} {now : Time}
variable {c : ChannelId} {ch ch' : ChannelImpl} {x x' : Option Client}

theorem move (rest : List Client) (h : Balanced impls clients) (hc : impls c = some ch) (hx : clients.Perm (x.toList ++ rest)) (hm : Moved c ch ch' x x' now)
    (hd : ∀ a ∈ x', a.isDropped = false) :
    Balanced (Function.update impls c (some ch')) (x'.toList ++ rest) where
  lifetimes a b ha p := by
    have hperm := Client.heldBy_perm (f := Client.alive) (c := a) hx
    by_cases hac : a = c
    case pos =>
      subst hac
      obtain rfl : b = ch' := by simpa using ha.symm
      have hold := h.lifetimes a ch hc p
      have hxd : ∀ a ∈ x, a.isDropped = false := fun y hy =>
        h.undropped y <| hx.mem_iff.mpr <| List.mem_append_left _ <| Option.mem_toList.mpr hy
      have hstep := hm.lifetimes hxd p
      rw [Client.heldBy_toList_append hm.channel] at hperm
      rw [Client.heldBy_toList_append hm.channel']
      simp only [List.count_append, hperm.count_eq] at hold hstep ⊢
      omega
    case neg =>
      have hold := h.lifetimes a b (by simpa [hac] using ha) p
      rw [Client.heldBy_toList_append_of_ne hm.channel hac] at hperm
      rw [Client.heldBy_toList_append_of_ne hm.channel' hac]
      simp only [List.count_append, hperm.count_eq] at hold ⊢
      exact hold
  undropped a ha := by
    cases List.mem_append.mp ha
    case inl ha => exact hd a <| Option.mem_toList.mp ha
    case inr ha => exact h.undropped a <| hx.mem_iff.mpr <| List.mem_append_right _ ha

theorem acquire (h : Balanced impls clients) (timestamp : Time) :
    Balanced impls (.acquiring c timestamp (.round 0) :: clients) where
  lifetimes b ch hb p := by simpa [Client.heldBy, Client.alive] using h.lifetimes b ch hb p
  undropped           := List.forall_mem_cons.mpr ⟨rfl, h.undropped⟩

theorem create (h : Balanced impls clients) (hne : ∀ x ∈ clients, x.channel ≠ c)
    (hl : ∀ p, ch.constructed p = ch.destructed p) (hq : ch.queuedPackets.heap = []) :
    Balanced (Function.update impls c (some ch)) clients where
  lifetimes b ch' hb p := by
    by_cases hbc : b = c
    case neg => exact h.lifetimes b ch' (by simpa [hbc] using hb) p
    case pos =>
      subst hbc
      obtain rfl : ch' = ch := by simpa using hb.symm
      simp [Client.heldBy_of_ne hne, hl, hq]
  undropped            := h.undropped

theorem destroy (h : Balanced impls clients) : Balanced (Function.update impls c none) clients where
  lifetimes b ch hb p := by
    by_cases hbc : b = c
    case pos => simp [hbc] at hb
    case neg => exact h.lifetimes b ch (by simpa [hbc] using hb) p
  undropped           := h.undropped

theorem step (hi : y.Inv) (h : Balanced y.sched.impls y.clients) (hu : y.Undropped a)
    (ho : Outcome y a y') : Balanced y'.sched.impls y'.clients := by
  cases ho
  case tick | start | spawned | started | stop | notifiedAll | joined | invalid | entered | slept | left
    | woken | returned => exact h
  case created hn hcr =>
    rw [congrArg SchedulerImpl.impls hcr.frame]
    exact h.create (hi.accounted.channel_ne hn) (fun _ => rfl) rfl
  case destroyed hd =>
    rw [congrArg SchedulerImpl.impls hd.frame]
    exact h.destroy
  case acquire => exact h.acquire _
  case polled c ch ch' packet s' hch hs' hr hm =>
    rw [hr.impls]
    exact h.move y.clients hch (.refl _) hm <| hm.undropped nofun
  case advanced x x' ch ch' wake s' hx hadv =>
    rw [hadv.requeued.impls]
    refine h.move (x := some x) _ hadv.impl (List.perm_cons_erase hx) hadv.moved <|
      hadv.moved.undropped fun timestamp he => ?_
    have hx := Option.some.inj he
    have hu : (y.sched.impls x.channel).all (·.queuedPackets.heap = []) = true := by
      generalize x.channel = c at hx
      subst hx
      exact hu
    simpa [hadv.impl] using hu
  case took i state c ch p rest q s' hi' hnext hf hperm hserve htk hm =>
    change Balanced s'.impls _
    rw [htk.impls]
    exact h.move y.clients hnext.impl (.refl _) hm <| hm.undropped nofun
  case executed i t₁ state c p ch hi' hch =>
    exact h.move y.clients hch (.refl _) (.log _ _ <| hi.accounted.times c ch hch) nofun
  case finished i state s' hi' hn hf =>
    change Balanced s'.impls _
    rw [hf.impls]
    exact h

end Balanced

theorem balanced (h : machine.Reachable (fun y a => y.Clean a ∧ y.Undropped a) y) :
    Balanced y.sched.impls y.clients := by
  refine h.induction (P := fun y => Balanced y.sched.impls y.clients) (fun _ => ?_) fun y a y' hr hb ha e => ?_
  · rintro ⟨_, _, _, _, _, rfl⟩
    exact ⟨nofun, nofun⟩
  · have hi := safe.reachable <| hr.mono fun _ _ => And.left
    exact hb.step hi ha.2 <| hi.outcome_of_step ha.1 e

end System

open Client in
theorem Client.heldBy_alive_subset {c : ChannelId} {xs : List Client} :
    heldBy alive c xs ⊆ heldBy packet? c xs := by
  intro p hp
  have ⟨x, hx, hf⟩ := List.mem_filterMap.mp hp
  split at hf
  case isFalse => contradiction
  case isTrue hc =>
    refine mem_heldBy hx hc ?_
    cases x
    case acquiring stage => cases stage <;> first | exact hf | contradiction
    all_goals first | exact hf | contradiction

section Lifetimes

variable {c : ChannelId} {ch : ChannelImpl} {p : Slot} {clients : List Client}
variable (hs : (ch.freePackets ++ ch.queuedPackets.heap ++ Client.heldBy Client.packet? c clients).Perm
  (List.range ch.capacity))
include hs

theorem count_alive_of_free (hp : p ∈ ch.freePackets) :
    (ch.queuedPackets.heap ++ Client.heldBy Client.alive c clients).count p = 0 := by
  have hnd := hs.nodup_iff.mpr List.nodup_range
  rw [List.append_assoc] at hnd
  have hne := (List.nodup_append.mp hnd).2.2 p hp
  refine List.count_eq_zero.mpr fun hm => hne p ?_ rfl
  cases List.mem_append.mp hm
  case inl hm => exact List.mem_append_left _ hm
  case inr hm => exact List.mem_append_right _ <| Client.heldBy_alive_subset hm

theorem count_alive_of_acquired {timestamp : Time}
    (hx : .acquiring c timestamp (.acquired p) ∈ clients) :
    (ch.queuedPackets.heap ++ Client.heldBy Client.alive c clients).count p = 0 := by
  have hperm := List.perm_cons_erase hx
  have hch : ∀ a ∈ some (Client.acquiring c timestamp (.acquired p)), a.channel = c := by
    simp [Client.channel]
  have heldBy_perm (f : Client → Option Slot) : (Client.heldBy f c clients).Perm
      (Client.slots f (some (.acquiring c timestamp (.acquired p))) ++
        Client.heldBy f c (clients.erase (.acquiring c timestamp (.acquired p)))) :=
    (Client.heldBy_perm hperm).trans <| .of_eq <| Client.heldBy_toList_append hch
  have hnd := ((heldBy_perm Client.packet?).symm.append_left _ |>.trans hs).nodup_iff.mpr
    List.nodup_range
  have hne := (List.nodup_append.mp hnd).2.2
  have hnd' := (List.nodup_append.mp hnd).2.1
  rw [((heldBy_perm Client.alive).append_left _).count_eq]
  refine List.count_eq_zero.mpr fun hm => ?_
  cases List.mem_append.mp hm
  case inl hm => exact hne p (List.mem_append_right _ hm) p (List.mem_cons_self ..) rfl
  case inr hm => exact (List.nodup_cons.mp hnd').1 <| Client.heldBy_alive_subset hm

theorem sum_count_alive :
    ∑ p ∈ Finset.range ch.capacity,
      (ch.queuedPackets.heap ++ Client.heldBy Client.alive c clients).count p =
    ch.queuedPackets.heap.length + (Client.heldBy Client.alive c clients).length := by
  have hlt : ∀ p ∈ ch.queuedPackets.heap ++ Client.heldBy Client.alive c clients,
      p ∈ Finset.range ch.capacity := fun p hp => by
    refine Finset.mem_range.mpr <| List.mem_range.mp <| hs.mem_iff.mp ?_
    cases List.mem_append.mp hp
    case inl hp => simp [hp]
    case inr hp => exact List.mem_append_right _ <| Client.heldBy_alive_subset hp
  have := Multiset.sum_count_eq_card
    (m := .ofList (ch.queuedPackets.heap ++ Client.heldBy Client.alive c clients)) hlt
  simpa only [Multiset.coe_count, Multiset.coe_card, List.length_append] using this

end Lifetimes

-- Constructions and destructions alternate in every slot of the channel `c`.
structure LifetimesPaired (c : ChannelId) (ch : ChannelImpl) (clients : List Client) : Prop where
  balance  : ∀ p, ch.constructed p = ch.destructed p +
             (ch.queuedPackets.heap ++ Client.heldBy Client.alive c clients).count p
  free     : ∀ p ∈ ch.freePackets, ch.constructed p = ch.destructed p
  acquired : ∀ timestamp p, .acquiring c timestamp (.acquired p) ∈ clients →
             ch.constructed p = ch.destructed p
  total    : ∑ p ∈ Finset.range ch.capacity, ch.constructed p =
             ∑ p ∈ Finset.range ch.capacity, ch.destructed p +
             (ch.queuedPackets.heap.length + (Client.heldBy Client.alive c clients).length)

theorem lifetimesPaired_of_undropped
    (h : machine.Reachable (fun y a => y.Clean a ∧ y.Undropped a) y) {c : ChannelId}
    {ch : ChannelImpl} (hc : y.sched.impls c = some ch) : LifetimesPaired c ch y.clients := by
  have hs := (safe.reachable <| h.mono fun _ _ => And.left).accounted.slots c ch hc
  have hl := (System.balanced h).lifetimes c ch hc
  refine ⟨hl, fun p hp => ?_, fun timestamp p hx => ?_, ?_⟩
  · rw [hl, count_alive_of_free hs hp, Nat.add_zero]
  · rw [hl, count_alive_of_acquired hs hx, Nat.add_zero]
  · rw [← sum_count_alive hs, ← Finset.sum_add_distrib]
    exact Finset.sum_congr rfl fun p _ => hl p

-- One thread after the other uses the only slot of a channel.
def reuse : List Action := [
  .createChannel 1 "reused" 1 nullptr false,
  .acquire 1 0, .advance (.acquiring 1 0 (.round 0)) 0, .advance (.acquiring 1 0 (.acquired 0)) 0,
  .advance (.filling 1 0) 0, .advance (.pushing 1 0) 0,
  .poll 1, .advance (.processing 1 0) 0, .advance (.releasing 1 0) 0,
  .acquire 1 1, .advance (.acquiring 1 1 (.round 0)) 0]

theorem lifetimesPaired_of_undropped_reuse :
    ∃ (y : System) (ch : ChannelImpl), y.sched.impls 1 = some ch ∧
      .acquiring 1 1 (.acquired 0) ∈ y.clients ∧ LifetimesPaired 1 ch y.clients :=
  have ⟨y, hr, hx, hs⟩ := Machine.exists_reachable_of_replay (M := machine)
    (s := .new 1 false 5) (fun y a => y.Clean a ∧ y.Undropped a) reuse
    (P := fun y => .acquiring 1 1 (.acquired 0) ∈ y.clients ∧ (y.sched.impls 1).isSome = true)
    ⟨1, false, 5, by decide, by decide, rfl⟩ (by decide)
  have ⟨ch, hc⟩ := Option.isSome_iff_exists.mp hs
  ⟨y, ch, hc, hx, lifetimesPaired_of_undropped hr hc⟩

-- An `Acquire` drops the only packet of the channel to get its slot.
def overload : List Action := [
  .createChannel 1 "overloaded" 1 nullptr false,
  .acquire 1 0, .advance (.acquiring 1 0 (.round 0)) 0, .advance (.acquiring 1 0 (.acquired 0)) 0,
  .advance (.filling 1 0) 0, .advance (.pushing 1 0) 0,
  .acquire 1 1, .advance (.acquiring 1 1 (.round 0)) 0, .advance (.acquiring 1 1 .dropping) 0,
  .advance (.acquiring 1 1 (.dropped 0)) 0, .advance (.acquiring 1 1 .logging) 0,
  .advance (.acquiring 1 1 (.round 1)) 0]

-- The next object is about to be constructed on top of the dropped one, which nobody destructs.
theorem overload_leaks :
    ∃ (y : System) (ch : ChannelImpl), machine.Reachable System.Clean y ∧
      y.sched.impls 1 = some ch ∧ .acquiring 1 1 (.acquired 0) ∈ y.clients ∧
      ch.constructed 0 = 1 ∧ ch.destructed 0 = 0 ∧ ¬LifetimesPaired 1 ch y.clients := by
  have ⟨y, hr, hx, hs⟩ := Machine.exists_reachable_of_replay (M := machine)
    (s := .new 1 false 5) System.Clean overload
    (P := fun y => .acquiring 1 1 (.acquired 0) ∈ y.clients ∧
      (y.sched.impls 1).any (fun ch => decide (ch.constructed 0 = 1 ∧ ch.destructed 0 = 0)) = true)
    ⟨1, false, 5, by decide, by decide, rfl⟩ (by decide)
  have ⟨ch, hc, hp⟩ := (Option.any_eq_true ..).mp hs
  have ⟨hcon, hdes⟩ := of_decide_eq_true hp
  refine ⟨y, ch, hr, hc, hx, hcon, hdes, fun hpaired => ?_⟩
  have := hpaired.acquired 1 0 hx
  omega

end PipeRT
