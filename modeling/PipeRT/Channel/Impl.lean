import PipeRT.SteadyHeap

namespace PipeRT

-- The metadata at the start of every slot of a pool.
structure PacketBase where
  timestamp   : Time
  opTimestamp : Time
  deriving DecidableEq, Repr

-- The event types that `ProfileData` predefines.
inductive EventType where
  | pushed
  | retrieved
  | executeTime
  | fillTime
  | readTime
  | droppedPacket
  deriving DecidableEq, Repr

structure LogEvent where
  type  : EventType
  value : Int
  deriving DecidableEq, Repr

-- A `ChannelImpl` object together with the pool that it owns. `constructed` and `destructed` are
-- not data of the program: they count how often a `Packet<T>` was constructed and destructed in
-- each of the slots.
structure ChannelImpl where
  name               : String
  singleThreadObject : Ptr
  callback           : Bool
  capacity           : Nat
  pool               : Slot → PacketBase
  freePackets        : List Slot
  queuedPackets      : SteadyHeap Slot
  profileData        : Option (List LogEvent)
  constructed        : Slot → Nat
  destructed         : Slot → Nat

namespace ChannelImpl

variable {ch : ChannelImpl}

-- The constructor, up to the registration in the scheduler. The free packets are a stack that is
-- used from its end, so the slot with index 0 is the first one to be acquired.
protected def new (name : String) (capacity : Nat) (singleThreadObject : Ptr) (callback : Bool) :
    ChannelImpl where
  name               := name
  singleThreadObject := singleThreadObject
  callback           := callback
  capacity           := capacity
  pool               := fun _ => { timestamp := 0, opTimestamp := 0 }
  freePackets        := (List.range capacity).reverse
  queuedPackets      := SteadyHeap.empty.reserve capacity
  profileData        := none
  constructed        := fun _ => 0
  destructed         := fun _ => 0

def isScheduled (ch : ChannelImpl) : Bool :=
  ch.callback

def timestamp (ch : ChannelImpl) (packet : Slot) : Time :=
  (ch.pool packet).timestamp

def opTimestamp (ch : ChannelImpl) (packet : Slot) : Time :=
  (ch.pool packet).opTimestamp

def packetOrdering (ch : ChannelImpl) : StrictOrdering Slot :=
  fun a b => .ok (decide (ch.timestamp a > ch.timestamp b))

def log (ch : ChannelImpl) (type : EventType) (value : Int) : ChannelImpl :=
  { ch with profileData := ch.profileData.map (· ++ [{ type, value }]) }

def peekNext (ch : ChannelImpl) : Except Fault Time :=
  match ch.queuedPackets.front? with
  | none        => .error .peekEmpty
  | some packet => .ok (ch.timestamp packet)

def getFreeBufferLength (ch : ChannelImpl) : Nat :=
  ch.freePackets.length

def getQueuedBufferLength (ch : ChannelImpl) : Nat :=
  ch.queuedPackets.size

def setProfileData (ch : ChannelImpl) (profileData : Option (List LogEvent)) : ChannelImpl :=
  { ch with profileData }

def setQueued (ch : ChannelImpl) (queuedPackets : SteadyHeap Slot) : ChannelImpl :=
  { ch with queuedPackets }

@[simp] theorem setQueued_isScheduled {q} : (ch.setQueued q).isScheduled = ch.isScheduled := rfl
@[simp] theorem setQueued_timestamp {q} : (ch.setQueued q).timestamp = ch.timestamp := rfl
@[simp] theorem setQueued_queuedPackets {q} : (ch.setQueued q).queuedPackets = q := rfl
@[simp] theorem setQueued_singleThreadObject {q} :
    (ch.setQueued q).singleThreadObject = ch.singleThreadObject := rfl

-- A turn of the loop in `Acquire`, under `free_mutex_`.
def takeFree (ch : ChannelImpl) : Option Slot × ChannelImpl :=
  match ch.freePackets.getLast? with
  | none        => (none, ch)
  | some packet => (some packet, { ch with freePackets := ch.freePackets.dropLast })

-- `Release`, from its assertions about the address of the packet on.
def giveFree (ch : ChannelImpl) (packet : Slot) : Except Fault ChannelImpl := do
  check (packet < ch.capacity)
  check (ch.freePackets.length < ch.capacity)
  return { ch with freePackets := ch.freePackets ++ [packet] }

theorem giveFree_eq_ok {ch ch' : ChannelImpl} {packet : Slot} (h : ch.giveFree packet = .ok ch') :
    packet < ch.capacity ∧ ch.freePackets.length < ch.capacity ∧
      ch' = { ch with freePackets := ch.freePackets ++ [packet] } := by
  obtain ⟨_, hlt, h⟩ := bind_eq_ok.mp h
  obtain ⟨_, hroom, h⟩ := bind_eq_ok.mp h
  exact ⟨of_check hlt, of_check hroom, (Except.ok.inj h).symm⟩

-- The assignment to `op_timestamp_`.
def stamp (ch : ChannelImpl) (packet : Slot) (t : Time) : ChannelImpl :=
  { ch with pool := Function.update ch.pool packet { ch.pool packet with opTimestamp := t } }

-- The placement new of `Packet<T>(timestamp, ...)` in `Channel<T>::Acquire`.
def construct (ch : ChannelImpl) (packet : Slot) (timestamp : Time) : ChannelImpl :=
  { ch with
    pool        := Function.update ch.pool packet { ch.pool packet with timestamp }
    constructed := Function.update ch.constructed packet (ch.constructed packet + 1) }

-- The call of `~Packet()` in `Channel<T>::Release`.
def destruct (ch : ChannelImpl) (packet : Slot) : ChannelImpl :=
  { ch with destructed := Function.update ch.destructed packet (ch.destructed packet + 1) }

section Frame

variable {packet : Slot} {t : Time} {type : EventType} {value : Int}

@[simp] theorem log_queuedPackets : (ch.log type value).queuedPackets = ch.queuedPackets := rfl
@[simp] theorem log_freePackets : (ch.log type value).freePackets = ch.freePackets := rfl
@[simp] theorem log_capacity : (ch.log type value).capacity = ch.capacity := rfl
@[simp] theorem log_isScheduled : (ch.log type value).isScheduled = ch.isScheduled := rfl
@[simp] theorem log_timestamp : (ch.log type value).timestamp = ch.timestamp := rfl
@[simp] theorem log_opTimestamp : (ch.log type value).opTimestamp = ch.opTimestamp := rfl
@[simp] theorem log_singleThreadObject :
    (ch.log type value).singleThreadObject = ch.singleThreadObject := rfl

@[simp] theorem stamp_queuedPackets : (ch.stamp packet t).queuedPackets = ch.queuedPackets := rfl
@[simp] theorem stamp_freePackets : (ch.stamp packet t).freePackets = ch.freePackets := rfl
@[simp] theorem stamp_capacity : (ch.stamp packet t).capacity = ch.capacity := rfl
@[simp] theorem stamp_isScheduled : (ch.stamp packet t).isScheduled = ch.isScheduled := rfl
@[simp] theorem stamp_profileData : (ch.stamp packet t).profileData = ch.profileData := rfl
@[simp] theorem stamp_singleThreadObject :
    (ch.stamp packet t).singleThreadObject = ch.singleThreadObject := rfl

@[simp] theorem construct_queuedPackets : (ch.construct packet t).queuedPackets = ch.queuedPackets := rfl
@[simp] theorem construct_freePackets : (ch.construct packet t).freePackets = ch.freePackets := rfl
@[simp] theorem construct_capacity : (ch.construct packet t).capacity = ch.capacity := rfl
@[simp] theorem construct_isScheduled : (ch.construct packet t).isScheduled = ch.isScheduled := rfl
@[simp] theorem construct_profileData : (ch.construct packet t).profileData = ch.profileData := rfl
@[simp] theorem construct_singleThreadObject :
    (ch.construct packet t).singleThreadObject = ch.singleThreadObject := rfl

@[simp] theorem destruct_queuedPackets : (ch.destruct packet).queuedPackets = ch.queuedPackets := rfl
@[simp] theorem destruct_freePackets : (ch.destruct packet).freePackets = ch.freePackets := rfl
@[simp] theorem destruct_capacity : (ch.destruct packet).capacity = ch.capacity := rfl
@[simp] theorem destruct_isScheduled : (ch.destruct packet).isScheduled = ch.isScheduled := rfl
@[simp] theorem destruct_timestamp : (ch.destruct packet).timestamp = ch.timestamp := rfl
@[simp] theorem destruct_opTimestamp : (ch.destruct packet).opTimestamp = ch.opTimestamp := rfl
@[simp] theorem destruct_profileData : (ch.destruct packet).profileData = ch.profileData := rfl
@[simp] theorem destruct_singleThreadObject :
    (ch.destruct packet).singleThreadObject = ch.singleThreadObject := rfl

@[simp]
theorem log_profileData_isSome :
    (ch.log type value).profileData.isSome = ch.profileData.isSome := by
  simp [log]

@[simp]
theorem stamp_timestamp : (ch.stamp packet t).timestamp = ch.timestamp := by
  funext p
  by_cases hp : p = packet <;> simp [timestamp, stamp, hp]

theorem stamp_opTimestamp (p : Slot) :
    (ch.stamp packet t).opTimestamp p = if p = packet then t else ch.opTimestamp p := by
  by_cases hp : p = packet <;> simp [opTimestamp, stamp, hp]

theorem construct_timestamp (p : Slot) :
    (ch.construct packet t).timestamp p = if p = packet then t else ch.timestamp p := by
  by_cases hp : p = packet <;> simp [timestamp, construct, hp]

@[simp]
theorem construct_opTimestamp : (ch.construct packet t).opTimestamp = ch.opTimestamp := by
  funext p
  by_cases hp : p = packet <;> simp [opTimestamp, construct, hp]

end Frame

-- The order that `PacketOrdering` keeps in the packet queue.
structure Sorted (ch : ChannelImpl) : Prop where
  order : Heap.IsHeap ch.timestamp ch.queuedPackets.heap
  nodup : ch.queuedPackets.heap.Nodup
  below : ∀ p ∈ ch.queuedPackets.heap, ch.timestamp p < kMaxTime

theorem Sorted.congr {ch' : ChannelImpl} (h : ch.Sorted) (hq : ch'.queuedPackets = ch.queuedPackets)
    (ht : ∀ p ∈ ch.queuedPackets.heap, ch'.timestamp p = ch.timestamp p) : ch'.Sorted where
  order := hq ▸ h.order.congr ht
  nodup := hq ▸ h.nodup
  below p hp := by
    rw [hq] at hp
    exact ht p hp ▸ h.below p hp

theorem packetOrdering_agrees (xs : List Slot) :
    Heap.Agrees ch.packetOrdering ch.timestamp xs :=
  fun _ _ _ _ => rfl

-- What `Push` does to the packet queue.
theorem enqueue_spec {packet : Slot} (h : ch.Sorted) (hn : packet ∉ ch.queuedPackets.heap)
    (ht : ch.timestamp packet < kMaxTime) :
    ∃ q, ch.queuedPackets.pushHeap ch.packetOrdering packet = .ok q ∧
      q.Holds ch.timestamp (packet :: ch.queuedPackets.heap) ∧
      q.capacity = (ch.queuedPackets.pushBack packet).capacity ∧
      (ch.setQueued q).Sorted := by
  have ⟨q, hq, hh, hc⟩ := SteadyHeap.pushHeap_spec packet h.order (packetOrdering_agrees _)
  refine ⟨q, hq, hh, hc, hh.order, ?_, ?_⟩
  case refine_1 => exact hh.perm.nodup_iff.mpr <| List.nodup_cons.mpr ⟨hn, h.nodup⟩
  case refine_2 =>
    intro p hp
    cases List.mem_cons.mp <| hh.perm.mem_iff.mp hp
    case inl hp => exact hp ▸ ht
    case inr hp => exact h.below p hp

-- What `PopNext` does to the packet queue.
theorem dequeue_spec {packet : Slot} {rest : List Slot} (h : ch.Sorted)
    (hr : ch.queuedPackets.heap = packet :: rest) :
    ∃ q, ch.queuedPackets.popHeap ch.packetOrdering = .ok q ∧ q.Holds ch.timestamp rest ∧
      q.capacity = ch.queuedPackets.capacity ∧
      (ch.setQueued q).Sorted := by
  have ⟨q, hq, hh, hc⟩ := SteadyHeap.popHeap_spec hr (h.order.holed 0) (packetOrdering_agrees _)
  have hnd := List.nodup_cons.mp (hr ▸ h.nodup)
  refine ⟨q, hq, hh, hc, hh.order, hh.perm.nodup_iff.mpr hnd.2, fun p hp => h.below p ?_⟩
  exact hr ▸ List.mem_cons_of_mem _ (hh.perm.mem_iff.mp hp)

end ChannelImpl
end PipeRT
