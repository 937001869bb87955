import PipeRT.Scheduler.Registration
import PipeRT.Machine

namespace PipeRT

-- How far a thread is in `Channel<T>::Acquire`.
inductive Acquiring where
  -- It is about to lock `free_mutex_`, in turn `i` of the loop.
  | round (i : Nat)
  -- It is about to call `GetNext` in `TryDroppingPacket`.
  | dropping
  -- It is about to release the packet that it dropped.
  | dropped (packet : Slot)
  -- It is about to log that it dropped a packet.
  | logging
  -- It has left the loop with a packet.
  | acquired (packet : Slot)
  deriving DecidableEq, Repr

-- What a thread of the user does with a packet of a channel. Of the two kinds of stubs it may have
-- any number, on any channels, and it may hand them over to other threads.
inductive Client where
  | acquiring (channel : ChannelId) (timestamp : Time) (stage : Acquiring)
  -- It has got a `PacketToFill`.
  | filling (channel : ChannelId) (packet : Slot)
  -- It is in `Push`, about to lock the queue.
  | pushing (channel : ChannelId) (packet : Slot)
  -- It has got a `PacketToProcess`.
  | processing (channel : ChannelId) (packet : Slot)
  -- It is in `Release`, past the destructor of the packet.
  | releasing (channel : ChannelId) (packet : Slot)
  deriving DecidableEq, Repr

namespace Client

def channel : Client → ChannelId
  | acquiring c _ _ | filling c _ | pushing c _ | processing c _ | releasing c _ => c

-- The packet that is being filled, from the moment when it leaves the free packets.
def fills : Client → Option Slot
  | acquiring _ _ (.acquired p) | filling _ p | pushing _ p => some p
  | _                                                       => none

-- The packet that is being processed or dropped, until it gets back to the free packets.
def processes : Client → Option Slot
  | acquiring _ _ (.dropped p) | processing _ p | releasing _ p => some p
  | _                                                           => none

def packet? (x : Client) : Option Slot :=
  x.fills.or x.processes

end Client

namespace SchedulerImpl

def timestamp (s : SchedulerImpl) (channel : ChannelId) (packet : Slot) : Time :=
  match s.impls channel with
  | none    => 0
  | some ch => ch.timestamp packet

-- The next thing that the thread does, up to the point where it leaves a critical section or is
-- about to enter one.
def advance (s : SchedulerImpl) (t : Time) (wake : Nat) :
    Client → Except Fault (Option Client × SchedulerImpl)
  | .acquiring c timestamp (.round i) => do
    let ch ← s.deref c
    match ch.takeFree with
    | (some packet, ch) => return (some (.acquiring c timestamp (.acquired packet)), s.setImpl c ch)
    | (none, _)         => return (if i + 1 < 2 then some (.acquiring c timestamp .dropping) else none, s)
  | .acquiring c timestamp .dropping => do
    let (packet, s) ← s.getNext c true t
    return (packet.map fun p => .acquiring c timestamp (.dropped p), s)
  | .acquiring c timestamp (.dropped packet) => do
    let ch ← (← s.deref c).giveFree packet
    return (some (.acquiring c timestamp .logging), s.setImpl c ch)
  | .acquiring c timestamp .logging => do
    let ch ← s.deref c
    return (some (.acquiring c timestamp (.round 1)), s.setImpl c <| ch.log .droppedPacket 1)
  | .acquiring c timestamp (.acquired packet) => do
    let ch ← s.deref c
    check (packet < ch.capacity)
    return (some (.filling c packet), s.setImpl c <| (ch.stamp packet t).construct packet timestamp)
  | .filling c packet => do
    let ch ← s.deref c
    check (t - ch.timestamp packet ≥ 0)
    check (t - ch.opTimestamp packet ≥ 0)
    let ch := ch.log .pushed (t - ch.timestamp packet)
    let ch := ch.log .fillTime (t - ch.opTimestamp packet)
    return (some (.pushing c packet), s.setImpl c ch)
  | .pushing c packet => do
    let s ← s.push c packet wake
    return (none, s)
  | .processing c packet => do
    let ch := (← s.deref c).destruct packet
    check (t - ch.opTimestamp packet ≥ 0)
    return (some (.releasing c packet), s.setImpl c <| ch.log .readTime (t - ch.opTimestamp packet))
  | .releasing c packet => do
    let ch ← (← s.deref c).giveFree packet
    return (none, s.setImpl c ch)

end SchedulerImpl

-- How far the thread is that starts and stops the scheduler.
inductive Control where
  | stopped
  -- It is in the loop in `Start`, with so many turns left.
  | starting (left : Nat)
  | running
  -- It is in `Stop`, past the critical section.
  | stopping
  -- It is in `Stop`, waiting for the workers to exit.
  | joining
  deriving DecidableEq, Repr

-- A scheduler, the clock that all threads read, and the threads of the user.
structure System where
  sched   : SchedulerImpl
  now     : Time
  control : Control
  clients : List Client

-- The atomic steps of the threads. A step of a worker names its index. `wake` settles which thread
-- `notify_one` wakes up.
inductive Action where
  | tick (t : Time)
  | createChannel (channel : ChannelId) (name : String) (capacity : Nat) (state : Ptr) (callback : Bool)
  | destroyChannel (channel : ChannelId)
  | start
  | spawn
  | stop
  | notifyAll
  | join
  | setStateInvalid
  | acquire (channel : ChannelId) (timestamp : Time)
  | poll (channel : ChannelId)
  | advance (client : Client) (wake : Nat)
  | enter (i : Nat)
  | serve (i : Nat)
  -- A spurious wake-up.
  | wakeUp (i : Nat)
  -- `Execute` returns, which read the time `t₁` when it began.
  | executed (i : Nat) (t₁ : Time)
  | finish (i : Nat)
  deriving DecidableEq, Repr

def Worker.isExecuting : Worker → Bool
  | executing .. => true
  | _            => false

def Worker.isFinishing : Worker → Bool
  | finishing _ => true
  | _           => false

def Control.isStarting : Control → Bool
  | starting _ => true
  | _          => false

namespace System

protected def new (workersNumber : Nat) (profiler : Bool) (now : Time) : System where
  sched   := .new workersNumber profiler
  now     := now
  control := .stopped
  clients := []

-- Nobody pushes a packet with a timestamp that the clock has not reached.
def Punctual (y : System) : Client → Prop
  | .filling c packet => y.sched.timestamp c packet ≤ y.now
  | _                 => True

instance {y : System} : DecidablePred y.Punctual
  | .filling .. => inferInstanceAs (Decidable (_ ≤ _))
  | .acquiring .. | .pushing .. | .processing .. | .releasing .. => .isTrue trivial

-- When the threads take their steps. Channels come and go only while the scheduler is stopped, and
-- none goes that is still in use.
def Guard (y : System) : Action → Prop
  | .tick t                    => y.now ≤ t ∧ t < kMaxTime
  | .createChannel c _ _ _ _   => y.control = .stopped ∧ (y.sched.impls c).isNone = true
  | .destroyChannel c          => y.control = .stopped ∧ (y.sched.impls c).isSome = true ∧
                                  ∀ x ∈ y.clients, x.channel ≠ c
  | .start                     => y.control = .stopped ∧ y.sched.validState = true
  | .spawn                     => y.control.isStarting = true
  | .stop                      => y.control = .running
  | .notifyAll                 => y.control = .stopping
  | .join                      => y.control = .joining ∧ ∀ w ∈ y.sched.workers, w = .exited
  | .setStateInvalid           => y.control = .stopped
  | .acquire c _ | .poll c     => (y.sched.impls c).isSome = true
  | .advance x _               => x ∈ y.clients ∧ y.Punctual x
  | .enter i                   => y.sched.workers[i]? = some .looping
  | .serve i                   => y.sched.workers[i]? = some .locking ∨
                                  y.sched.workers[i]? = some .notified
  | .wakeUp i                  => y.sched.workers[i]? = some .waiting
  | .executed i t₁             => y.sched.workers[i]?.any Worker.isExecuting = true ∧ t₁ ≤ y.now
  | .finish i                  => y.sched.workers[i]?.any Worker.isFinishing = true

instance {y : System} : DecidablePred y.Guard
  | .tick _ | .createChannel .. | .start | .join => inferInstanceAs (Decidable (_ ∧ _))
  | .destroyChannel _ => inferInstanceAs (Decidable (_ ∧ _ ∧ _))
  | .advance .. | .executed .. => inferInstanceAs (Decidable (_ ∧ _))
  | .serve _ => inferInstanceAs (Decidable (_ ∨ _))
  | .spawn | .stop | .notifyAll | .setStateInvalid | .acquire .. | .poll _ | .enter _ | .wakeUp _
  | .finish _ => inferInstanceAs (Decidable (_ = _))

-- The stub that the callback of worker `i` gets, which has just taken its packet.
def retrieved (s : SchedulerImpl) (i : Nat) : Option Client :=
  match s.workers[i]? with
  | some (.executing _ c packet) => some (.processing c packet)
  | _                            => none

def exec (y : System) : Action → Except Fault System
  | .tick t => return { y with now := t }
  | .createChannel c name capacity state callback => do
    let sched ← y.sched.createChannel c name capacity state callback
    return { y with sched }
  | .destroyChannel c => do
    let sched ← y.sched.destroyChannel c
    return { y with sched }
  | .start => do
    let sched ← y.sched.start
    return { y with sched, control := .starting sched.workersNumber }
  | .spawn =>
    match y.control with
    | .starting (left + 1) => return { y with sched := y.sched.spawn, control := .starting left }
    | _                    => return { y with control := .running }
  | .stop => do
    let sched ← y.sched.stop
    return { y with sched, control := .stopping }
  | .notifyAll => return { y with sched := y.sched.notifyAll, control := .joining }
  | .join => return { y with sched := y.sched.join, control := .stopped }
  | .setStateInvalid => do
    let sched ← y.sched.setStateInvalid
    return { y with sched }
  | .acquire c timestamp => return { y with clients := .acquiring c timestamp (.round 0) :: y.clients }
  | .poll c => do
    let (packet, sched) ← y.sched.getNext c false y.now
    return { y with sched, clients := (packet.map (.processing c)).toList ++ y.clients }
  | .advance x wake => do
    let (x', sched) ← y.sched.advance y.now wake x
    return { y with sched, clients := x'.toList ++ y.clients.erase x }
  | .enter i =>
    return { y with sched := y.sched.setWorker i (if y.sched.keepRunning then .locking else .exited) }
  | .serve i => do
    let sched ← y.sched.serve i y.now
    return { y with sched, clients := (retrieved sched i).toList ++ y.clients }
  | .wakeUp i => return { y with sched := y.sched.setWorker i .notified }
  | .executed i t₁ =>
    match y.sched.workers[i]? with
    | some (.executing state c _) => do
      let ch ← y.sched.deref c
      let sched := y.sched.setImpl c <| ch.log .executeTime (y.now - t₁)
      return { y with sched := sched.setWorker i (.finishing state) }
    | _ => return y
  | .finish i =>
    match y.sched.workers[i]? with
    | some (.finishing state) => do
      let sched ← if state ≠ nullptr then y.sched.finish state else .ok y.sched
      return { y with sched := sched.setWorker i .looping }
    | _ => return y

end System

-- A scheduler is made with at least one worker.
def machine : Machine System Action Fault where
  Init y := ∃ workersNumber profiler now, 0 < workersNumber ∧ now < kMaxTime ∧
            y = .new workersNumber profiler now
  Guard  := System.Guard
  exec   := System.exec

end PipeRT
