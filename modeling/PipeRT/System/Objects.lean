import PipeRT.System.Containers
import PipeRT.System.Pools
import PipeRT.Linked

namespace PipeRT

-- The address of a `ChannelBase` object.
abbrev ObjectId := Nat

-- A thread of the user together with the channel object that it called, which is also the one that
-- its stub refers to.
structure Holder where
  client : Client
  object : ObjectId
  deriving DecidableEq, Repr

-- The channel objects of a program. `impl` has an entry for each object that is alive, with its
-- `impl_`; `base` is the member `base_` of the implementations.
structure Objects where
  sched   : SchedulerImpl
  now     : Time
  control : Control
  impl    : ObjectId → Option (Option ChannelId)
  base    : ChannelId → Option ObjectId
  holders : List Holder

inductive ObjectAction where
  -- `CreateScheduledChannel` and its likes.
  | construct (o : ObjectId) (channel : ChannelId) (name : String) (capacity : Nat) (state : Ptr)
    (callback : Bool)
  | moveConstruct (i o : ObjectId)
  | moveAssign (i o : ObjectId)
  | destruct (o : ObjectId)
  | acquire (o : ObjectId) (timestamp : Time)
  | poll (o : ObjectId)
  | advance (holder : Holder) (wake : Nat)
  -- A worker takes a packet, if it can, and begins to execute it.
  | serve (i : Nat)
  | other (a : Action)
  deriving DecidableEq, Repr

-- The actions that do not involve any channel object.
def Action.isOther : Action → Bool
  | .tick _ | .start | .spawn | .stop | .notifyAll | .join | .setStateInvalid | .enter _ | .wakeUp _
  | .executed .. | .finish _ => true
  | .createChannel .. | .destroyChannel _ | .acquire .. | .poll _ | .advance .. | .serve _ => false

-- The thread needs its channel object, as it has a stub that refers to it or is about to get one.
def Client.refers : Client → Bool
  | acquiring .. | filling .. | processing .. => true
  | pushing .. | releasing ..                 => false

-- The pool that a packet of the channel `c` is from, and its slot there. To a channel, the packets of
-- other pools have indices that lie outside of its own.
def ChannelImpl.origin (ch : ChannelImpl) (c : ChannelId) (p : Slot) : ChannelId × Slot :=
  if p < ch.capacity then (c, p) else (p - ch.capacity).unpair

-- A packet of the channel `c` gets to the channel `c'`, which sees its metadata.
def SchedulerImpl.handOver (s : SchedulerImpl) (c c' : ChannelId) (p : Slot) :
    Except Fault (Slot × SchedulerImpl) :=
  if c' = c then
    .ok (p, s)
  else do
    let ch ← s.deref c
    let ch' ← s.deref c'
    let (a, slot) := ch.origin c p
    let packet := if a = c' then slot else ch'.capacity + Nat.pair a slot
    return (packet, s.setImpl c' { ch' with pool := Function.update ch'.pool packet (ch.pool p) })

namespace Objects

protected def new (workersNumber : Nat) (profiler : Bool) (now : Time) : Objects where
  sched   := .new workersNumber profiler
  now     := now
  control := .stopped
  impl    := fun _ => none
  base    := fun _ => none
  holders := []

def system (y : Objects) : System where
  sched   := y.sched
  now     := y.now
  control := y.control
  clients := y.holders.map (·.client)

-- The object is alive and its `impl_` is not null.
def implOf (y : Objects) (o : ObjectId) : Except Fault ChannelId :=
  match y.impl o with
  | none          => .error .dangling
  | some none     => .error .assertion
  | some (some c) => .ok c

-- `ChannelBase::move` from the object `o` to the object `i`, which may be the same.
def move (y : Objects) (i o : ObjectId) : Except Fault Objects := do
  let c ← y.implOf o
  let impl := Function.update y.impl i (some (some c))
  return { y with impl := Function.update impl o (some none), base := Function.update y.base c (some i) }

-- `Push` and `Release` of a stub call the implementation that its object has by then, whatever pool
-- the packet is from.
def call (y : Objects) (holder : Holder) : Except Fault (Client × SchedulerImpl) :=
  match holder.client with
  | .filling c p    => do
    let c' ← y.implOf holder.object
    let (packet, sched) ← y.sched.handOver c c' p
    return (.filling c' packet, sched)
  | .processing c p => do
    let c' ← y.implOf holder.object
    let (packet, sched) ← y.sched.handOver c c' p
    return (.processing c' packet, sched)
  | client          => return (client, y.sched)

-- `Execute`, which has the callback make a stub for the packet.
def execute (y : Objects) (client : Client) : Except Fault Objects :=
  match y.base client.channel with
  | none   => .error .assertion
  | some o =>
    match y.impl o with
    | none   => .error .dangling
    | some _ => .ok { y with holders := { client, object := o } :: y.holders }

def Guard (y : Objects) : ObjectAction → Prop
  | .construct o c _ _ _ _ => (y.impl o).isNone = true ∧ (y.sched.impls c).isNone = true
  | .moveConstruct i o     => (y.impl i).isNone = true ∧ (y.impl o).isSome = true
  | .moveAssign i o        => (y.impl i).isSome = true ∧ (y.impl o).isSome = true
  | .destruct o            => (y.impl o).isSome = true
  | .acquire o _ | .poll o => (y.impl o).isSome = true
  | .advance holder _      => holder ∈ y.holders
  | .serve i               => y.system.Guard (.serve i)
  | .other a               => a.isOther = true ∧ y.system.Guard a

instance {y : Objects} : DecidablePred y.Guard
  | .construct .. | .moveConstruct .. | .moveAssign .. | .other _ => inferInstanceAs (Decidable (_ ∧ _))
  | .destruct _ | .acquire .. | .poll _ => inferInstanceAs (Decidable (_ = _))
  | .advance .. => inferInstanceAs (Decidable (_ ∈ _))
  | .serve i => inferInstanceAs (Decidable (y.system.Guard (.serve i)))

def exec (y : Objects) : ObjectAction → Except Fault Objects
  | .construct o c name capacity state callback => do
    let sched ← y.sched.createChannel c name capacity state callback
    return { y with
      sched
      impl := Function.update y.impl o (some (some c))
      base := Function.update y.base c (some o) }
  | .moveConstruct i o | .moveAssign i o => y.move i o
  | .destruct o =>
    match y.impl o with
    | some (some c) => do
      let sched ← y.sched.destroyChannel c
      return { y with sched, impl := Function.update y.impl o none }
    | _ => return { y with impl := Function.update y.impl o none }
  | .acquire o timestamp => do
    let c ← y.implOf o
    return { y with holders := { client := .acquiring c timestamp (.round 0), object := o } :: y.holders }
  | .poll o => do
    let c ← y.implOf o
    let (packet, sched) ← y.sched.getNext c false y.now
    let stub := packet.map fun p => { client := .processing c p, object := o }
    return { y with sched, holders := stub.toList ++ y.holders }
  | .advance holder wake => do
    let (client, sched) ← y.call holder
    let (client', sched) ← sched.advance y.now wake client
    let holder' := client'.map ({ client := ·, object := holder.object })
    return { y with sched, holders := holder'.toList ++ y.holders.erase holder }
  | .serve i => do
    let sched ← y.sched.serve i y.now
    match System.retrieved sched i with
    | none        => return { y with sched }
    | some client => execute { y with sched } client
  | .other a => do
    let z ← y.system.exec a
    return { y with sched := z.sched, now := z.now, control := z.control }

-- No stub refers to the object, and no thread is about to get one that does.
def Unattended (y : Objects) (o : ObjectId) : Prop :=
  ∀ holder ∈ y.holders, holder.object = o → holder.client.refers = false

-- Nobody has a packet of the channel that the object owns, or is in a call of one of its methods.
def Unused (y : Objects) (o : ObjectId) : Prop :=
  ∀ holder ∈ y.holders, y.impl o ≠ some (some holder.client.channel)

instance {y : Objects} : DecidablePred y.Unattended :=
  fun _ => inferInstanceAs (Decidable (∀ _ ∈ _, _))

instance {y : Objects} : DecidablePred y.Unused :=
  fun _ => inferInstanceAs (Decidable (∀ _ ∈ _, _))

-- Nothing is assigned to an object that owns an implementation, and no object is moved or destroyed
-- while it is needed.
def Careful (y : Objects) : ObjectAction → Prop
  | .moveConstruct _ o => y.Unattended o
  | .moveAssign i o    => y.impl i = some none ∧ y.Unattended o
  | .destruct o        => y.Unused o
  | _                  => True

instance {y : Objects} : DecidablePred y.Careful
  | .moveConstruct .. => inferInstanceAs (Decidable (y.Unattended _))
  | .moveAssign .. => inferInstanceAs (Decidable (_ ∧ _))
  | .destruct _ => inferInstanceAs (Decidable (y.Unused _))
  | .construct .. | .acquire .. | .poll _ | .advance .. | .serve _ | .other _ => .isTrue trivial

end Objects

def objects : Machine Objects ObjectAction Fault where
  Init y := ∃ workersNumber profiler now, 0 < workersNumber ∧ now < kMaxTime ∧
            y = .new workersNumber profiler now
  Guard  := Objects.Guard
  exec   := Objects.exec

instance (y : Objects) (a : ObjectAction) : Decidable (objects.Guard y a) :=
  inferInstanceAs (Decidable (y.Guard a))

namespace SchedulerImpl

variable {s s' : SchedulerImpl} {t : Time} {wake : Nat} {x : Client} {x' : Option Client}

theorem exists_of_retrieved {i : Nat} {w : Worker} (h : System.retrieved (s.setWorker i w) i = some x) :
    ∃ state c p, w = .executing state c p ∧ x = .processing c p := by
  simp only [System.retrieved, setWorker, List.getElem?_set_self'] at h
  cases hi : s.workers[i]?
  case none => simp [hi] at h
  case some w₀ =>
    cases w
    case executing state c p => exact ⟨state, c, p, rfl, by simpa [hi, eq_comm] using h⟩
    all_goals simp [hi] at h

-- A worker begins to process a packet of the pool of a channel.
theorem hasSlot_of_retrieved {i : Nat} (hin : s.Inside) (h : s.serve i t = .ok s')
    (hx : System.retrieved s' i = some x) : ∃ c p, x = .processing c p ∧ s.HasSlot c p := by
  rw [serve] at h
  split at h
  case isTrue =>
    obtain ⟨_, _, _, hw, _⟩ := exists_of_retrieved (Except.ok.inj h ▸ hx)
    contradiction
  case isFalse =>
    split at h
    case isTrue =>
      obtain ⟨⟨state, c, p, s₁⟩, ht, h⟩ := bind_eq_ok.mp h
      obtain ⟨_, c', p', hw, rfl⟩ := exists_of_retrieved (Except.ok.inj h ▸ hx)
      obtain ⟨_, rfl, rfl⟩ := Worker.executing.inj hw
      exact ⟨c, p, rfl, (hin.takeNext ht).2⟩
    case isFalse =>
      obtain ⟨_, _, _, hw, _⟩ := exists_of_retrieved (Except.ok.inj h ▸ hx)
      contradiction

-- A thread does not come to need a channel object that it did not need before.
theorem refers_of_advance (h : s.advance t wake x = .ok (x', s')) :
    ∀ a ∈ x', a.refers = true → x.refers = true := by
  cases advance_effect h
  case tookNone         => split <;> simp [Client.refers]
  case dropped packet _ => cases packet <;> simp [Client.refers]
  all_goals simp [Client.refers]

theorem HasSlot.isSome {c : ChannelId} {p : Slot} (h : s.HasSlot c p) : (s.impls c).isSome = true := by
  obtain ⟨ch, hc, _⟩ := h
  simp [hc]

-- No channel is registered or destroyed, and none gets a packet of another pool.
structure SameChannels (s s' : SchedulerImpl) : Prop where
  capacity : ∀ c, (s'.impls c).map (·.capacity) = (s.impls c).map (·.capacity)
  channels : s'.channels = s.channels
  inside   : s.Inside → s'.Inside

namespace SameChannels

variable {c : ChannelId} {p : Slot}

theorem refl (s : SchedulerImpl) : s.SameChannels s :=
  ⟨fun _ => rfl, rfl, id⟩

theorem live (h : s.SameChannels s') (c : ChannelId) : (s'.impls c).isSome = (s.impls c).isSome := by
  simpa using congrArg Option.isSome (h.capacity c)

theorem hasSlot (h : s.SameChannels s') (hs : s.HasSlot c p) : s'.HasSlot c p := by
  obtain ⟨ch, hc, hlt⟩ := hs
  have hcap := h.capacity c
  rw [hc] at hcap
  obtain ⟨ch', hc', heq⟩ := Option.map_eq_some_iff.mp hcap
  exact ⟨ch', hc', heq ▸ hlt⟩

end SameChannels

theorem Contained.sameChannels (h : s.Contained s') (hin : s.Inside → s'.Inside) : s.SameChannels s' where
  capacity c := by
    have hlive := h.live c
    cases hc : s.impls c
    case none => simpa [hc] using hlive
    case some ch =>
      obtain ⟨ch', hc'⟩ := Option.isSome_iff_exists.mp <| hlive.trans <| by simp [hc]
      simp [hc', (h.packets c ch ch' hc hc').capacity]
  channels := h.channels
  inside   := hin

-- The channels that are registered are those that are alive.
structure ChannelsLive (s : SchedulerImpl) : Prop where
  nodup : s.channels.Nodup
  live  : ∀ c, c ∈ s.channels ↔ (s.impls c).isSome = true

theorem ChannelsLive.congr (h : s.ChannelsLive) (hs : s.SameChannels s') : s'.ChannelsLive where
  nodup  := hs.channels ▸ h.nodup
  live c := by rw [hs.channels, hs.live, h.live]

theorem createChannel_channels {c : ChannelId} {name : String} {capacity : Nat} {state : Ptr}
    {callback : Bool} (h : s.createChannel c name capacity state callback = .ok s') :
    s'.channels = s.channels ++ [c] := by
  have ⟨_, hr, _⟩ := bind_eq_ok.mp h
  have hr : s.running = false := of_check hr
  obtain rfl := Except.ok.inj <| (createChannel_eq hr rfl).symm.trans h
  rfl

theorem destroyChannel_channels {c : ChannelId} (h : s.destroyChannel c = .ok s') :
    s'.channels.Perm (s.channels.erase c) := by
  obtain ⟨s₁, hu, h⟩ := bind_eq_ok.mp h
  obtain rfl := Except.ok.inj h
  obtain ⟨_, _, hu⟩ := bind_eq_ok.mp hu
  obtain ⟨_, hm, hu⟩ := bind_eq_ok.mp hu
  obtain ⟨ch, _, hu⟩ := bind_eq_ok.mp hu
  have hperm := List.set_idxOf_getLastD_dropLast_perm (d := c) (of_check hm)
  split at hu
  case isTrue =>
    obtain ⟨_, _, hu⟩ := bind_eq_ok.mp hu
    exact Except.ok.inj hu ▸ hperm
  case isFalse => exact Except.ok.inj hu ▸ hperm

theorem isSome_of_create {c : ChannelId} {ch : ChannelImpl}
    (h : s'.impls = Function.update s.impls c (some ch)) (a : ChannelId) :
    (s'.impls a).isSome = true ↔ a = c ∨ (s.impls a).isSome = true := by
  rw [h]
  by_cases hac : a = c <;> simp [hac]

theorem isSome_of_destroy {c : ChannelId} (h : s'.impls = Function.update s.impls c none) (a : ChannelId) :
    (s'.impls a).isSome = true ↔ a ≠ c ∧ (s.impls a).isSome = true := by
  rw [h]
  by_cases hac : a = c <;> simp [hac]

theorem ChannelsLive.create {c : ChannelId} {name : String} {capacity : Nat} {state : Ptr}
    {callback : Bool} (h : s.ChannelsLive) (hc : (s.impls c).isNone = true)
    (he : s.createChannel c name capacity state callback = .ok s') : s'.ChannelsLive := by
  have hch := createChannel_channels he
  obtain ⟨_, _, hi⟩ := createChannel_impls he
  have hm : c ∉ s.channels := fun hm => by
    have hl := (h.live c).mp hm
    simp [Option.isNone_iff_eq_none.mp hc] at hl
  refine ⟨?_, fun a => ?_⟩
  case refine_1 =>
    rw [hch]
    exact (List.perm_append_singleton c _).nodup_iff.mpr <| List.nodup_cons.mpr ⟨hm, h.nodup⟩
  case refine_2 =>
    rw [hch, isSome_of_create hi, ← h.live, List.mem_append, List.mem_singleton, or_comm]

theorem ChannelsLive.destroy {c : ChannelId} (h : s.ChannelsLive) (he : s.destroyChannel c = .ok s') :
    s'.ChannelsLive := by
  have hch := destroyChannel_channels he
  refine ⟨hch.nodup_iff.mpr <| h.nodup.erase c, fun a => ?_⟩
  rw [hch.mem_iff, isSome_of_destroy (destroyChannel_impls he), h.nodup.mem_erase_iff, h.live]

end SchedulerImpl

-- Threads, flags and the queues of the scheduler have nothing to do with it.
theorem SchedulerImpl.SameChannels.of_eq {s s' : SchedulerImpl} (hi : s'.impls = s.impls)
    (hch : s'.channels = s.channels) : s.SameChannels s' where
  capacity c := by rw [hi]
  channels   := hch
  inside h   := h.congr hi

theorem System.sameChannels_of_other {y z : System} {a : Action} (ha : a.isOther = true)
    (he : y.exec a = .ok z) : y.sched.SameChannels z.sched := by
  cases a
  case createChannel | destroyChannel | acquire | poll | advance | serve => contradiction
  case tick | notifyAll | join | enter | wakeUp => exact Except.ok.inj he ▸ .of_eq rfl rfl
  case start =>
    obtain ⟨_, hs, he⟩ := bind_eq_ok.mp he
    obtain ⟨_, _, hs⟩ := bind_eq_ok.mp hs
    obtain ⟨_, _, hs⟩ := bind_eq_ok.mp hs
    exact Except.ok.inj he ▸ Except.ok.inj hs ▸ .of_eq rfl rfl
  case spawn =>
    rw [exec] at he
    split at he <;> exact Except.ok.inj he ▸ .of_eq rfl rfl
  case stop =>
    obtain ⟨_, hs, he⟩ := bind_eq_ok.mp he
    obtain ⟨_, _, hs⟩ := bind_eq_ok.mp hs
    exact Except.ok.inj he ▸ Except.ok.inj hs ▸ .of_eq rfl rfl
  case setStateInvalid =>
    obtain ⟨_, hs, he⟩ := bind_eq_ok.mp he
    obtain ⟨_, _, hs⟩ := bind_eq_ok.mp hs
    exact Except.ok.inj he ▸ Except.ok.inj hs ▸ .of_eq rfl rfl
  case executed i t₁ =>
    rw [exec] at he
    split at he
    case h_1 state c _ _ =>
      obtain ⟨ch, hd, he⟩ := bind_eq_ok.mp he
      have hc := SchedulerImpl.impl_of_deref hd
      obtain rfl := Except.ok.inj he
      have hk : y.sched.Contained (y.sched.setImpl c <| ch.log .executeTime (y.now - t₁)) :=
        .update hc rfl rfl
      refine (hk.setWorker i (.finishing state)).sameChannels fun hin => ?_
      have hlog : (ch.log .executeTime (y.now - t₁)).Inside := (hin c ch hc).congr rfl rfl rfl
      exact (hin.setImpl hlog).congr rfl
    case h_2 => exact Except.ok.inj he ▸ .of_eq rfl rfl
  case finish i =>
    rw [exec] at he
    split at he
    case h_1 state _ =>
      dsimp only at he
      split at he
      case isTrue =>
        obtain ⟨s', hs', he⟩ := bind_eq_ok.mp he
        obtain rfl := Except.ok.inj he
        have hk := (SchedulerImpl.finish_contained hs').setWorker i .looping
        exact hk.sameChannels fun hin => (hin.finish hs').congr rfl
      case isFalse => exact Except.ok.inj he ▸ .of_eq rfl rfl
    case h_2 => exact Except.ok.inj he ▸ .of_eq rfl rfl

namespace Objects

variable {y y' : Objects} {a : ObjectAction} {i o : ObjectId} {c : ChannelId}

theorem implOf_eq_ok : y.implOf o = .ok c ↔ y.impl o = some (some c) := by
  rw [implOf]
  split <;> simp_all

-- A thread has packets of its channel only, and its channel object owns the channel as long as it
-- is needed.
structure Attached (y : Objects) (holder : Holder) : Prop where
  object : holder.client.refers = true → y.impl holder.object = some (some holder.client.channel)
  slot   : ∀ p ∈ holder.client.packet?, y.sched.HasSlot holder.client.channel p

-- Owners, implementations and the stubs of the threads refer to each other.
structure Owned (y : Objects) : Prop where
  live    : y.sched.ChannelsLive
  inside  : y.sched.Inside
  links   : Linked (fun c => (y.sched.impls c).isSome = true) (Option.join ∘ y.impl) y.base
  holders : ∀ holder ∈ y.holders, y.Attached holder

theorem Owned.new (workersNumber : Nat) (profiler : Bool) (now : Time) :
    (Objects.new workersNumber profiler now).Owned where
  live    := ⟨List.nodup_nil, by simp [Objects.new, SchedulerImpl.new]⟩
  inside  := nofun
  links   := ⟨nofun, nofun⟩
  holders := nofun

-- The links do not depend on anything else.
theorem Owned.congr (h : y.Owned) (hc : y.sched.SameChannels y'.sched) (hi : y'.impl = y.impl)
    (hb : y'.base = y.base) (hs : ∀ holder ∈ y'.holders, holder ∈ y.holders ∨ y.Attached holder) :
    y'.Owned where
  live   := h.live.congr hc
  inside := hc.inside h.inside
  links  := hi ▸ hb ▸ h.links.congr fun c => by rw [hc.live]
  holders holder hm := by
    have hat : y.Attached holder := (hs holder hm).elim (h.holders holder) id
    exact ⟨fun hr => hi ▸ hat.object hr, fun p hp => hc.hasSlot (hat.slot p hp)⟩

-- A stub goes to the channel that its packet is from.
theorem Attached.call {holder : Holder} (h : y.Attached holder) :
    y.call holder = .ok (holder.client, y.sched) := by
  have hobject := h.object
  rw [Objects.call]
  cases hx : holder.client
  case acquiring | pushing | releasing => rfl
  all_goals
    rw [hx] at hobject
    rw [implOf_eq_ok.mpr (hobject rfl)]
    simp [SchedulerImpl.handOver, Client.channel]

theorem Owned.construct {name : String} {capacity : Nat} {state : Ptr} {callback : Bool}
    (h : y.Owned) (hg : y.Guard (.construct o c name capacity state callback))
    (he : y.exec (.construct o c name capacity state callback) = .ok y') : y'.Owned := by
  have ⟨hfresh, hnew⟩ := hg
  have ⟨s', hs', he⟩ := bind_eq_ok.mp he
  obtain rfl := Except.ok.inj he
  obtain ⟨ch, _, himpls⟩ := SchedulerImpl.createChannel_impls hs'
  have hfresh := Option.isNone_iff_eq_none.mp hfresh
  refine ⟨h.live.create hnew hs', h.inside.create hs', ?_, fun holder hm => ⟨fun hr => ?_, fun p hp => ?_⟩⟩
  case refine_1 =>
    rw [Function.comp_update]
    exact h.links.add (by simp [hfresh]) (by simpa using hnew) (SchedulerImpl.isSome_of_create himpls)
  case refine_2 =>
    have hold := (h.holders holder hm).object hr
    have hne : holder.object ≠ o := fun heq => by simp [← heq, hold] at hfresh
    simpa [hne] using hold
  case refine_3 =>
    obtain ⟨ch', hc', hlt⟩ := (h.holders holder hm).slot p hp
    have hne : holder.client.channel ≠ c := fun heq => by simp [← heq, hc'] at hnew
    refine ⟨ch', ?_, hlt⟩
    simpa [himpls, hne] using hc'

theorem Owned.move (h : y.Owned) (hi : (y.impl i).join = none) (hu : y.Unattended o)
    (he : y.move i o = .ok y') : y'.Owned := by
  have ⟨c, hc, he⟩ := bind_eq_ok.mp he
  have hc := implOf_eq_ok.mp hc
  obtain rfl := Except.ok.inj he
  refine ⟨h.live, h.inside, ?_, fun holder hm => ⟨fun hr => ?_, (h.holders holder hm).slot⟩⟩
  case refine_1 =>
    rw [Function.comp_update, Function.comp_update]
    exact h.links.transfer (by simp [hc]) (by simpa using hi)
  case refine_2 =>
    have hold := (h.holders holder hm).object hr
    have hne : holder.object ≠ o := fun heq => by simp [hu holder hm heq] at hr
    have hne' : holder.object ≠ i := fun heq => by simp [← heq, hold] at hi
    simpa [hne, hne'] using hold

theorem Owned.destruct (h : y.Owned) (hu : y.Unused o) (he : y.exec (.destruct o) = .ok y') :
    y'.Owned := by
  have hobject : ∀ holder ∈ y.holders, holder.client.refers = true →
      Function.update y.impl o none holder.object = some (some holder.client.channel) := by
    intro holder hm hr
    have hold := (h.holders holder hm).object hr
    have hne : holder.object ≠ o := fun heq => hu holder hm <| heq ▸ hold
    simpa [hne] using hold
  rw [exec] at he
  split at he
  case h_1 c hc =>
    obtain ⟨s', hs', he⟩ := bind_eq_ok.mp he
    obtain rfl := Except.ok.inj he
    have himpls := SchedulerImpl.destroyChannel_impls hs'
    refine ⟨h.live.destroy hs', h.inside.destroy hs', ?_, fun holder hm => ⟨hobject holder hm, fun p hp => ?_⟩⟩
    case refine_1 =>
      rw [Function.comp_update]
      exact h.links.remove (by simp [hc]) (SchedulerImpl.isSome_of_destroy himpls)
    case refine_2 =>
      obtain ⟨ch, hch, hlt⟩ := (h.holders holder hm).slot p hp
      have hne : holder.client.channel ≠ c := fun heq => hu holder hm <| heq ▸ hc
      refine ⟨ch, ?_, hlt⟩
      simpa [himpls, hne] using hch
  case h_2 hn =>
    obtain rfl := Except.ok.inj he
    refine ⟨h.live, h.inside, ?_, fun holder hm => ⟨hobject holder hm, (h.holders holder hm).slot⟩⟩
    have hnone : (y.impl o).join = none := by
      cases ho : y.impl o
      case none   => rfl
      case some c =>
        cases c
        case none   => rfl
        case some c => exact absurd ho (hn c)
    have hsame : Option.join ∘ Function.update y.impl o none = Option.join ∘ y.impl := by
      rw [Function.comp_update]
      exact Function.update_eq_self_iff.mpr hnone.symm
    exact hsame ▸ h.links

theorem Owned.acquire {timestamp : Time} (h : y.Owned) (he : y.exec (.acquire o timestamp) = .ok y') :
    y'.Owned := by
  have ⟨c, hc, he⟩ := bind_eq_ok.mp he
  obtain rfl := Except.ok.inj he
  refine h.congr (.refl _) rfl rfl fun holder hm => ?_
  cases List.mem_cons.mp hm
  case inr hm => exact .inl hm
  case inl hm => exact .inr <| hm ▸ ⟨fun _ => implOf_eq_ok.mp hc, nofun⟩

theorem Owned.poll (h : y.Owned) (he : y.exec (.poll o) = .ok y') : y'.Owned := by
  have ⟨c, hc, he⟩ := bind_eq_ok.mp he
  have ⟨⟨packet, s'⟩, hs', he⟩ := bind_eq_ok.mp he
  obtain rfl := Except.ok.inj he
  have ⟨hin, hp⟩ := h.inside.getNext hs'
  refine h.congr ((SchedulerImpl.getNext_contained hs').sameChannels fun _ => hin) rfl rfl fun holder hm => ?_
  cases List.mem_append.mp hm
  case inr hm => exact .inl hm
  case inl hm =>
    obtain ⟨p, hpacket, rfl⟩ := Option.map_eq_some_iff.mp <| Option.mem_toList.mp hm
    exact .inr ⟨fun _ => implOf_eq_ok.mp hc, fun q hq => Option.some.inj hq ▸ hp p hpacket⟩

theorem Owned.advance {holder : Holder} {wake : Nat} (h : y.Owned) (hm : holder ∈ y.holders)
    (he : y.exec (.advance holder wake) = .ok y') : y'.Owned := by
  have hat := h.holders holder hm
  have ⟨r, hcall, he⟩ := bind_eq_ok.mp he
  obtain rfl := Except.ok.inj <| hat.call.symm.trans hcall
  have ⟨⟨client, s'⟩, hs', he⟩ := bind_eq_ok.mp he
  obtain rfl := Except.ok.inj he
  have ⟨hin, hx⟩ := h.inside.advance hat.slot hs'
  have hrefers := SchedulerImpl.refers_of_advance hs'
  refine h.congr ((SchedulerImpl.advance_contained hs').sameChannels fun _ => hin) rfl rfl fun a ha => ?_
  cases List.mem_append.mp ha
  case inr ha => exact .inl <| List.mem_of_mem_erase ha
  case inl ha =>
    obtain ⟨x, hclient, rfl⟩ := Option.map_eq_some_iff.mp <| Option.mem_toList.mp ha
    have ⟨hchannel, hslot⟩ := hx x hclient
    refine .inr ⟨fun hr => ?_, hchannel ▸ hslot⟩
    exact hchannel ▸ hat.object (hrefers x hclient hr)

theorem Owned.serve (h : y.Owned) (he : y.exec (.serve i) = .ok y') : y'.Owned := by
  have ⟨s', hs', he⟩ := bind_eq_ok.mp he
  have hlive := (SchedulerImpl.serve_contained hs').sameChannels fun _ => h.inside.serve hs'
  split at he
  case h_1 =>
    obtain rfl := Except.ok.inj he
    exact h.congr hlive rfl rfl fun _ hm => .inl hm
  case h_2 x hx =>
    obtain ⟨c, p, rfl, hp⟩ := SchedulerImpl.hasSlot_of_retrieved h.inside hs' hx
    obtain ⟨o, ho, hhas⟩ := h.links.owned c hp.isSome
    have hho : y.impl o = some (some c) := Option.join_eq_some_iff.mp hhas
    have hbase : y.base (Client.processing c p).channel = some o := ho
    simp only [execute, hbase, hho] at he
    obtain rfl := Except.ok.inj he
    refine h.congr hlive rfl rfl fun holder hm => ?_
    cases List.mem_cons.mp hm
    case inr hm => exact .inl hm
    case inl hm => exact .inr <| hm ▸ ⟨fun _ => hho, fun q hq => Option.some.inj hq ▸ hp⟩

theorem Owned.step (h : y.Owned) (hg : y.Guard a) (hc : y.Careful a) (he : y.exec a = .ok y') :
    y'.Owned := by
  cases a
  case construct => exact h.construct hg he
  case moveConstruct i o =>
    have hi := Option.isNone_iff_eq_none.mp hg.1
    exact h.move (by simp [hi]) hc he
  case moveAssign i o        => exact h.move (by simp [hc.1]) hc.2 he
  case destruct o            => exact h.destruct hc he
  case acquire o timestamp   => exact h.acquire he
  case poll o                => exact h.poll he
  case advance holder wake   => exact h.advance hg he
  case serve i               => exact h.serve he
  case other a =>
    have ⟨z, hz, he⟩ := bind_eq_ok.mp he
    obtain rfl := Except.ok.inj he
    exact h.congr (System.sameChannels_of_other hg.1 hz) rfl rfl fun _ hm => .inl hm

end Objects

variable {y : Objects}

theorem Objects.owned (h : objects.Reachable Objects.Careful y) : y.Owned := by
  refine h.induction (fun _ => ?_) fun y a y' _ ho hc e => ho.step e.guard hc e.exec
  rintro ⟨_, _, _, _, _, rfl⟩
  exact .new ..

end PipeRT
