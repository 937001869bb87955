import PipeRT.Channel.Impl

namespace PipeRT

-- How far a worker thread is in `SchedulerImpl::RunTasks`.
inductive Worker where
  -- It is about to evaluate the condition of the outer loop.
  | looping
  -- It has found `keep_running_` set, and is about to lock `global_mutex_`.
  | locking
  -- It is blocked in `global_covar_.wait`, and nobody has notified it.
  | waiting
  -- It has been woken up in `global_covar_.wait`, and is about to lock `global_mutex_` again.
  | notified
  -- It has taken a packet of the state, and is inside `ChannelImpl::Execute`.
  | executing (state : Ptr) (channel : ChannelId) (packet : Slot)
  -- It has come back from `Execute`, and is about to enable the state again.
  | finishing (state : Ptr)
  -- It has left `RunTasks`.
  | exited
  deriving DecidableEq, Repr

-- `notify_one`: one of the blocked workers is woken up, if there is any. Which one it is depends on
-- the operating system: it is the one at index `wake` if that one is blocked.
def Worker.notifyOne (workers : List Worker) (wake : Nat) : List Worker :=
  if workers[wake]? = some .waiting then
    workers.set wake .notified
  else if .waiting ∈ workers then
    workers.set (workers.idxOf .waiting) .notified
  else
    workers

structure EnabledChannelHeap where
  enabled : Bool
  heap    : SteadyHeap ChannelId
  deriving DecidableEq, Repr

-- The default constructor.
protected def EnabledChannelHeap.new : EnabledChannelHeap where
  enabled := true
  heap    := .empty

-- A `SchedulerImpl` object, and in `impls` the memory that its pointers point to.
structure SchedulerImpl where
  impls               : ChannelId → Option ChannelImpl
  channels            : List ChannelId
  stateQueue          : SteadyHeap Ptr
  state2channelQueues : Ptr → Option EnabledChannelHeap
  workers             : List Worker
  keepRunning         : Bool
  running             : Bool
  workersNumber       : Nat
  profiler            : Bool
  validState          : Bool

namespace SchedulerImpl

-- The constructor.
protected def new (workersNumber : Nat) (profiler : Bool) : SchedulerImpl where
  impls               := fun _ => none
  channels            := []
  stateQueue          := .empty
  state2channelQueues := fun _ => none
  workers             := []
  keepRunning         := false
  running             := false
  workersNumber       := workersNumber
  profiler            := profiler
  validState          := true

def deref (s : SchedulerImpl) (channel : ChannelId) : Except Fault ChannelImpl :=
  match s.impls channel with
  | none    => .error .dangling
  | some ch => .ok ch

def setImpl (s : SchedulerImpl) (channel : ChannelId) (ch : ChannelImpl) : SchedulerImpl :=
  { s with impls := Function.update s.impls channel (some ch) }

-- `state2channel_queues_[state]`, which makes a new entry for an unknown state.
def subscript (s : SchedulerImpl) (state : Ptr) : EnabledChannelHeap :=
  (s.state2channelQueues state).getD .new

def setQueue (s : SchedulerImpl) (state : Ptr) (chq : EnabledChannelHeap) : SchedulerImpl :=
  { s with state2channelQueues := Function.update s.state2channelQueues state (some chq) }

def setStateQueue (s : SchedulerImpl) (stateQueue : SteadyHeap Ptr) : SchedulerImpl :=
  { s with stateQueue }

def setWorker (s : SchedulerImpl) (i : Nat) (w : Worker) : SchedulerImpl :=
  { s with workers := s.workers.set i w }

def notifyOne (s : SchedulerImpl) (wake : Nat) : SchedulerImpl :=
  { s with workers := Worker.notifyOne s.workers wake }

section Frame

variable {s : SchedulerImpl} {channel : ChannelId} {ch : ChannelImpl} {state : Ptr}
variable {chq : EnabledChannelHeap} {i : Nat} {w : Worker}

@[simp] theorem setImpl_stateQueue : (s.setImpl channel ch).stateQueue = s.stateQueue := rfl
@[simp] theorem setImpl_queues :
    (s.setImpl channel ch).state2channelQueues = s.state2channelQueues := rfl
@[simp] theorem setImpl_workers : (s.setImpl channel ch).workers = s.workers := rfl
@[simp] theorem setImpl_channels : (s.setImpl channel ch).channels = s.channels := rfl
@[simp] theorem setQueue_impls : (s.setQueue state chq).impls = s.impls := rfl
@[simp] theorem setQueue_stateQueue : (s.setQueue state chq).stateQueue = s.stateQueue := rfl
@[simp] theorem setQueue_workers : (s.setQueue state chq).workers = s.workers := rfl
@[simp] theorem setQueue_channels : (s.setQueue state chq).channels = s.channels := rfl

@[simp] theorem setStateQueue_impls {q} : (s.setStateQueue q).impls = s.impls := rfl
@[simp] theorem setStateQueue_stateQueue {q} : (s.setStateQueue q).stateQueue = q := rfl
@[simp] theorem setStateQueue_queues {q} :
    (s.setStateQueue q).state2channelQueues = s.state2channelQueues := rfl
@[simp] theorem setStateQueue_workers {q} : (s.setStateQueue q).workers = s.workers := rfl
@[simp] theorem setStateQueue_channels {q} : (s.setStateQueue q).channels = s.channels := rfl

@[simp]
theorem setImpl_impls_self : (s.setImpl channel ch).impls channel = some ch := by
  simp [setImpl]

theorem setImpl_impls_ne {c : ChannelId} (h : c ≠ channel) :
    (s.setImpl channel ch).impls c = s.impls c := by
  simp [setImpl, h]

@[simp]
theorem setQueue_queues_self : (s.setQueue state chq).state2channelQueues state = some chq := by
  simp [setQueue]

theorem setQueue_queues_ne {x : Ptr} (h : x ≠ state) :
    (s.setQueue state chq).state2channelQueues x = s.state2channelQueues x := by
  simp [setQueue, h]

@[simp]
theorem deref_setImpl_self : (s.setImpl channel ch).deref channel = .ok ch := by
  simp [deref]

theorem deref_eq (h : s.impls channel = some ch) : s.deref channel = .ok ch := by
  simp [deref, h]

theorem impl_of_deref (h : s.deref channel = .ok ch) : s.impls channel = some ch := by
  rw [deref] at h
  split at h
  case h_1    => contradiction
  case h_2 hc => exact Except.ok.inj h ▸ hc

theorem subscript_eq (h : s.state2channelQueues state = some chq) : s.subscript state = chq := by
  simp [subscript, h]

end Frame

-- `channel->PeekNext()`
def peekNext (s : SchedulerImpl) (channel : ChannelId) : Except Fault Time := do
  (← s.deref channel).peekNext

-- `heap.front()->PeekNext()`
def peekFront (s : SchedulerImpl) (heap : SteadyHeap ChannelId) : Except Fault Time :=
  match heap.front? with
  | none     => .error .emptyFront
  | some top => s.peekNext top

def channelOrdering (s : SchedulerImpl) : StrictOrdering ChannelId := fun a b => do
  let ta ← s.peekNext a
  let tb ← s.peekNext b
  return decide (ta > tb)

-- `state2channel_queues_->at(state).heap.front()`, with the assertions before it.
def frontChannel (s : SchedulerImpl) (state : Ptr) : Except Fault ChannelId :=
  match s.state2channelQueues state with
  | none     => .error .unknownState
  | some chq =>
    match chq.heap.front? with
    | none     => .error .emptyState
    | some top => .ok top

def stateOrdering (s : SchedulerImpl) : StrictOrdering Ptr := fun a b => do
  let ca ← s.frontChannel a
  let cb ← s.frontChannel b
  s.channelOrdering ca cb

-- `state_queue_.force_pop_heap(state)`, with the assertion after it.
def forcePopState (s : SchedulerImpl) (state : Ptr) : Except Fault SchedulerImpl := do
  let stateQueue ← s.stateQueue.forcePopHeap s.stateOrdering state
  check (stateQueue.count state = 0)
  return s.setStateQueue stateQueue

-- `state_queue_.push_heap(state)`
def pushState (s : SchedulerImpl) (state : Ptr) : Except Fault SchedulerImpl := do
  let stateQueue ← s.stateQueue.pushHeap s.stateOrdering state
  return s.setStateQueue stateQueue

def jobsArrived (s : SchedulerImpl) (channel : ChannelId) (wake : Nat) :
    Except Fault SchedulerImpl := do
  let state := (← s.deref channel).singleThreadObject
  let chq := s.subscript state
  check (chq.heap.count channel = 0)
  let earliest ← if chq.heap.heap = [] then .ok kMaxTime else s.peekFront chq.heap
  let heap ← chq.heap.pushHeap s.channelOrdering channel
  let s := s.setQueue state { chq with heap }
  if chq.enabled then
    let next ← s.peekFront heap
    if next < earliest then
      if earliest ≠ kMaxTime then
        let s ← s.forcePopState state
        let s ← s.pushState state
        return s.notifyOne wake
      else
        check (s.stateQueue.count state = 0)
        let s ← s.pushState state
        return s.notifyOne wake
    else
      return s
  else
    return s

def jobsUpdated (s : SchedulerImpl) (channel : ChannelId) (wasPush : Bool) (wake : Nat) :
    Except Fault SchedulerImpl := do
  let state := (← s.deref channel).singleThreadObject
  let chq := s.subscript state
  check (chq.heap.heap ≠ [])
  check (chq.heap.count channel = 1)
  let wasTop := chq.heap.front? = some channel
  let earliest ← s.peekFront chq.heap
  let heap ← chq.heap.forcePopHeap s.channelOrdering channel
  let heap ← heap.pushHeap s.channelOrdering channel
  let s := s.setQueue state { chq with heap }
  if chq.enabled then
    let next ← s.peekFront heap
    if next ≠ earliest ∨ wasTop then
      let s ← s.forcePopState state
      let s ← s.pushState state
      return if wasPush then s.notifyOne wake else s
    else
      return s
  else
    return s

def jobsDropped (s : SchedulerImpl) (channel : ChannelId) : Except Fault SchedulerImpl := do
  let state := (← s.deref channel).singleThreadObject
  let chq := s.subscript state
  check (chq.heap.heap ≠ [])
  check (chq.heap.count channel = 1)
  let wasTop := chq.heap.front? = some channel
  let heap ← chq.heap.forcePopHeap s.channelOrdering channel
  let s := s.setQueue state { chq with heap }
  if chq.enabled ∧ wasTop then
    let s ← s.forcePopState state
    if heap.heap ≠ [] then
      s.pushState state
    else
      return s
  else
    return s

-- `ChannelImpl::Push`, from the point where it locks the queue. `wake` is for the `notify_one` of
-- the scheduler.
def push (s : SchedulerImpl) (channel : ChannelId) (packet : Slot) (wake : Nat) :
    Except Fault SchedulerImpl := do
  let ch ← s.deref channel
  check (ch.queuedPackets.size < ch.capacity)
  let earliest ← if ch.queuedPackets.heap = [] then .ok kMaxTime else ch.peekNext
  let queuedPackets ← ch.queuedPackets.pushHeap ch.packetOrdering packet
  let ch := ch.setQueued queuedPackets
  let s := s.setImpl channel ch
  if ch.isScheduled then
    let next ← ch.peekNext
    if next < earliest then
      if earliest = kMaxTime then
        s.jobsArrived channel wake
      else
        s.jobsUpdated channel true wake
    else
      return s
  else
    return s

-- The first half of `ChannelImpl::PopNext`: the packet leaves the queue, and the scheduler is told.
def unqueue (s : SchedulerImpl) (channel : ChannelId) : Except Fault (Slot × SchedulerImpl) := do
  let ch ← s.deref channel
  check (ch.queuedPackets.size ≤ ch.capacity)
  match ch.queuedPackets.front? with
  | none          => .error .assertion
  | some earliest =>
    let queuedPackets ← ch.queuedPackets.popHeap ch.packetOrdering
    let s := s.setImpl channel (ch.setQueued queuedPackets)
    if ch.isScheduled then
      if queuedPackets.heap = [] then
        let s ← s.jobsDropped channel
        return (earliest, s)
      else if queuedPackets.front? ≠ some earliest then
        let s ← s.jobsUpdated channel false 0
        return (earliest, s)
      else
        return (earliest, s)
    else
      return (earliest, s)

-- `ChannelImpl::PopNext` at time `t`.
def popNext (s : SchedulerImpl) (channel : ChannelId) (droppingPacket : Bool) (t : Time) :
    Except Fault (Slot × SchedulerImpl) := do
  let (earliest, s) ← s.unqueue channel
  if droppingPacket then
    return (earliest, s)
  else
    let ch ← s.deref channel
    let ch := ch.stamp earliest t
    check (t - ch.timestamp earliest ≥ 0)
    return (earliest, s.setImpl channel <| ch.log .retrieved (t - ch.timestamp earliest))

-- `ChannelImpl::GetNext` at time `t`.
def getNext (s : SchedulerImpl) (channel : ChannelId) (droppingPacket : Bool) (t : Time) :
    Except Fault (Option Slot × SchedulerImpl) := do
  let ch ← s.deref channel
  if ch.queuedPackets.heap ≠ [] then
    let (packet, s) ← s.popNext channel droppingPacket t
    return (some packet, s)
  else
    return (none, s)

-- The part of `RunTasks` that takes a packet at time `t`, for a non-empty `state_queue_`.
def takeNext (s : SchedulerImpl) (t : Time) :
    Except Fault (Ptr × ChannelId × Slot × SchedulerImpl) := do
  match s.stateQueue.front? with
  | none       => .error .emptyFront
  | some state =>
    match s.state2channelQueues state with
    | none     => .error .assertion
    | some chq =>
      check (chq.enabled = true)
      match chq.heap.front? with
      | none         => .error .assertion
      | some channel =>
        let ch ← s.deref channel
        check (ch.singleThreadObject = state)
        if state ≠ nullptr then
          let s := s.setQueue state { chq with enabled := false }
          let stateQueue ← s.stateQueue.popHeap s.stateOrdering
          let (packet, s) ← (s.setStateQueue stateQueue).popNext channel false t
          return (state, channel, packet, s)
        else
          let (packet, s) ← s.popNext channel false t
          return (state, channel, packet, s)

-- What worker `i` does in `RunTasks` while it holds the lock for the first time, or from one wake-up
-- in `wait` to the next: without work it blocks, unless the scheduler is being stopped.
def serve (s : SchedulerImpl) (i : Nat) (t : Time) : Except Fault SchedulerImpl := do
  if s.keepRunning ∧ s.stateQueue.heap = [] then
    return s.setWorker i .waiting
  else if s.stateQueue.heap ≠ [] then
    let (state, channel, packet, s) ← s.takeNext t
    return s.setWorker i (.executing state channel packet)
  else
    return s.setWorker i .looping

-- What a worker does in `RunTasks` while it holds the lock for the second time.
def finish (s : SchedulerImpl) (state : Ptr) : Except Fault SchedulerImpl := do
  check (s.stateQueue.count state = 0)
  match s.state2channelQueues state with
  | none     => .error .assertion
  | some chq =>
    check (chq.enabled = false)
    let s := s.setQueue state { chq with enabled := true }
    if chq.heap.heap ≠ [] then
      s.pushState state
    else
      return s

def registerChannel (s : SchedulerImpl) (channel : ChannelId) : Except Fault SchedulerImpl := do
  check (s.running = false)
  let ch ← s.deref channel
  let state := ch.singleThreadObject
  let s := { s with channels := s.channels ++ [channel] }
  let s := match s.state2channelQueues state with
    | some chq => s.setQueue state { chq with heap := chq.heap.reserve (chq.heap.capacity + 1) }
    | none     =>
      let s := s.setStateQueue <| s.stateQueue.reserve (s.stateQueue.capacity + 1)
      s.setQueue state { EnabledChannelHeap.new with heap := SteadyHeap.empty.reserve 1 }
  if s.profiler then
    return s.setImpl channel (ch.setProfileData (some []))
  else
    return s

-- The constructor of `ChannelImpl`. `channel` is the address of the new object.
def createChannel (s : SchedulerImpl) (channel : ChannelId) (name : String) (capacity : Nat)
    (state : Ptr) (callback : Bool) : Except Fault SchedulerImpl :=
  (s.setImpl channel (.new name capacity state callback)).registerChannel channel

def unregisterChannel (s : SchedulerImpl) (channel : ChannelId) : Except Fault SchedulerImpl := do
  check (s.running = false)
  check (channel ∈ s.channels)
  let ch ← s.deref channel
  let i := s.channels.idxOf channel
  let channels := (s.channels.set i (s.channels.getLastD channel)).dropLast
  if s.profiler then
    check (ch.profileData.isSome = true)
    return { s.setImpl channel (ch.setProfileData none) with channels }
  else
    return { s with channels }

-- The destructor of `ChannelImpl`.
def destroyChannel (s : SchedulerImpl) (channel : ChannelId) : Except Fault SchedulerImpl := do
  let s ← s.unregisterChannel channel
  return { s with impls := Function.update s.impls channel none }

-- `Start`, up to its loop.
def start (s : SchedulerImpl) : Except Fault SchedulerImpl := do
  check (s.running = false)
  check (s.validState = true)
  return { s with running := true, keepRunning := true }

-- A turn of the loop in `Start`.
def spawn (s : SchedulerImpl) : SchedulerImpl :=
  { s with workers := s.workers ++ [.looping] }

-- `Stop`, up to the end of its critical section.
def stop (s : SchedulerImpl) : Except Fault SchedulerImpl := do
  check (s.running = true)
  return { s with keepRunning := false }

def notifyAll (s : SchedulerImpl) : SchedulerImpl :=
  { s with workers := s.workers.map fun w => if w = .waiting then .notified else w }

-- The rest of `Stop`, once all threads are joined.
def join (s : SchedulerImpl) : SchedulerImpl :=
  { s with running := false, workers := [] }

def setStateInvalid (s : SchedulerImpl) : Except Fault SchedulerImpl := do
  check (s.running = false)
  return { s with validState := false }

end SchedulerImpl
end PipeRT
