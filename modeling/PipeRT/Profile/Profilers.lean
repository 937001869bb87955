import PipeRT.Machine
import PipeRT.Profile.Uri

namespace PipeRT

open ProfilerFault

namespace Profilers

-- What `sender_callback_` was bound to.
inductive Bound where
  | file (f : Nat)
  | connection (c : Nat)
  deriving DecidableEq, Repr

-- What is seen of a `ProfilerImpl` here. Its collector thread runs or does not.
structure Impl where
  bound               : Bound
  bufferSize          : Int
  aggregationTimeMsec : Int
  collecting          : Bool
  profileData         : Nat
  deriving DecidableEq, Repr

-- The members of a `Profiler`, all of them pointers.
structure Handle where
  impl            : Option Nat
  destinationFile : Option Nat
  udpConnection   : Option Nat
  deriving DecidableEq, Repr

def Handle.empty : Handle :=
  ⟨none, none, none⟩

-- What is seen of a `Scheduler` and its `SchedulerImpl`, with the pointer that the latter was given.
structure Scheduler where
  profiler : Option Nat
  running  : Bool
  channels : Nat
  deriving DecidableEq, Repr

end Profilers

open Profilers

-- The `Profiler` objects that are alive, with what they have, and the schedulers. A scheduler goes by the
-- name of its member `profiler_`.
structure Profilers (ι : Type) where
  handles     : ι → Option Handle
  impls       : Nat → Option Impl
  files       : Nat → Option (List Char)
  connections : Nat → Option (InAddr × Nat)
  next        : Nat
  schedulers  : ι → Option Scheduler
  -- Not data of the program: what a `Profiler` had when something else was assigned to it.
  lost        : List Nat

inductive ProfilersAction (ι : Type) where
  -- `opened` tells whether the socket or the file is opened.
  | construct (i : ι) (memory uri : List Char) (aggregationTimeMsec bufferSize : Int) (opened : Bool)
  | moveConstruct (i o : ι)
  | moveAssign (i o : ι)
  | destruct (i : ι)
  | gatherNSend (i : ι)
  | createScheduler (i o : ι)
  | destroyScheduler (i : ι)
  | start (i : ι)
  | stop (i : ι)
  | registerChannel (i : ι)
  | unregisterChannel (i : ι)
  -- The collector thread calls `GatherNSend`.
  | collect (k : Nat)
  deriving DecidableEq, Repr

namespace Profilers

variable {ι : Type}

-- The `Profiler` of a scheduler is destroyed with it.
def Guard (y : Profilers ι) : ProfilersAction ι → Prop
  | .construct i memory uri _ _ _ => y.handles i = none ∧ memory.length = 16 ∧ CText.nul ∉ uri
  | .moveConstruct i o            => y.handles i = none ∧ (y.handles o).isSome = true
  | .moveAssign i o               => (y.handles i).isSome = true ∧ (y.handles o).isSome = true
  | .destruct i                   => (y.handles i).isSome = true ∧ y.schedulers i = none
  | .gatherNSend i                => (y.handles i).isSome = true
  | .createScheduler i o          => y.handles i = none ∧ (y.handles o).isSome = true
  | .destroyScheduler i | .start i | .stop i | .registerChannel i | .unregisterChannel i =>
    (y.schedulers i).isSome = true
  | .collect k                    => (y.impls k).any Impl.collecting = true

instance (y : Profilers ι) (a : ProfilersAction ι) : Decidable (y.Guard a) :=
  match a with
  | .construct .. => inferInstanceAs (Decidable (_ ∧ _ ∧ _))
  | .moveConstruct .. | .moveAssign .. | .destruct _ | .createScheduler .. => inferInstanceAs (Decidable (_ ∧ _))
  | .gatherNSend _ | .destroyScheduler _ | .start _ | .stop _ | .registerChannel _ | .unregisterChannel _
  | .collect _ => inferInstanceAs (Decidable (_ = true))

def deref (y : Profilers ι) (k : Nat) : Except ProfilerFault Impl :=
  match y.impls k with
  | none      => .error .dangling
  | some impl => .ok impl

def Open (y : Profilers ι) : Bound → Bool
  | .file f       => (y.files f).isSome
  | .connection c => (y.connections c).isSome

-- `ProfilerImpl::GatherNSend` calls `SendToUDP` or `SendToFile` if there is any data to go through.
def send (y : Profilers ι) (k : Nat) : Except ProfilerFault Unit := do
  let impl ← y.deref k
  if impl.profileData = 0 ∨ y.Open impl.bound then .ok () else .error .dangling

variable [DecidableEq ι]

-- The constructor of `ProfilerImpl`.
def newImpl (y : Profilers ι) (i : ι) (bound : Bound) (handle : Handle)
    (aggregationTimeMsec bufferSize : Int) : Except ProfilerFault (Profilers ι) := do
  demand (64 ≤ bufferSize)
  demand (0 ≤ aggregationTimeMsec)
  return { y with
    handles := Function.update y.handles i (some handle),
    impls   := Function.update y.impls y.next (some ⟨bound, bufferSize, aggregationTimeMsec, false, 0⟩),
    next    := y.next + 1 }

-- The port is cast to a 16-bit number.
def construct (aton : List Char → Option InAddr) (y : Profilers ι) (i : ι) (memory uri : List Char)
    (aggregationTimeMsec bufferSize : Int) (opened : Bool) : Except ProfilerFault (Profilers ι) := do
  let n := y.next
  match ← Profiler.destinationOf memory uri with
  | .none             => return { y with handles := Function.update y.handles i (some .empty) }
  | .udp address port => do
    demand (opened = true)
    match aton address with
    | none      => .error .assertion
    | some addr =>
      newImpl { y with connections := Function.update y.connections n (some (addr, (port % 2 ^ 16).toNat)) } i
        (.connection n) ⟨some n, none, some n⟩ aggregationTimeMsec (if bufferSize = 0 then 508 else bufferSize)
  | .file filename    => do
    demand (opened = true)
    newImpl { y with files := Function.update y.files n (some filename) } i
      (.file n) ⟨some n, some n, none⟩ aggregationTimeMsec (if bufferSize = 0 then 4096 else bufferSize)

def implOf (y : Profilers ι) (i : ι) : Option Nat :=
  (y.handles i).bind Handle.impl

-- `Move`, with `i` and `o` being the same object perhaps.
def move (y : Profilers ι) (i o : ι) : Profilers ι :=
  match y.handles o with
  | none       => y
  | some other => { y with
      handles := Function.update (Function.update y.handles i (some other)) o (some .empty),
      lost    := (y.implOf i).toList ++ y.lost }

-- The destructor of `ProfilerImpl`. When its collector thread still runs, it may already have sent to
-- what was closed before.
def deleteImpl (y : Profilers ι) (k : Nat) : Except ProfilerFault (Profilers ι) := do
  let impl ← y.deref k
  demand (impl.profileData = 0)
  if impl.collecting then
    .error .dangling
  else
    return { y with impls := Function.update y.impls k none }

def closeFile (y : Profilers ι) (f : Nat) : Except ProfilerFault (Profilers ι) :=
  if (y.files f).isSome then .ok { y with files := Function.update y.files f none } else .error .dangling

def deleteConnection (y : Profilers ι) (c : Nat) : Except ProfilerFault (Profilers ι) :=
  if (y.connections c).isSome then
    .ok { y with connections := Function.update y.connections c none }
  else
    .error .dangling

-- The destructor of `Profiler`.
def destruct (y : Profilers ι) (i : ι) : Except ProfilerFault (Profilers ι) :=
  match y.handles i with
  | none        => .ok y
  | some handle => do
    let y ← handle.destinationFile.elim (.ok y) y.closeFile
    let y ← handle.udpConnection.elim (.ok y) y.deleteConnection
    let y ← handle.impl.elim (.ok y) y.deleteImpl
    return { y with handles := Function.update y.handles i none }

def setImpl (y : Profilers ι) (k : Nat) (impl : Impl) : Profilers ι :=
  { y with impls := Function.update y.impls k (some impl) }

def setScheduler (y : Profilers ι) (i : ι) (scheduler : Scheduler) : Profilers ι :=
  { y with schedulers := Function.update y.schedulers i (some scheduler) }

-- What a scheduler calls of its profiler, if there is one.
def onProfiler (y : Profilers ι) (scheduler : Scheduler) (f : Impl → Except ProfilerFault Impl) :
    Except ProfilerFault (Profilers ι) :=
  match scheduler.profiler with
  | none   => .ok y
  | some k => do
    let impl ← f (← y.deref k)
    return y.setImpl k impl

namespace Impl

-- `ProfilerImpl::Start`.
def start (impl : Impl) : Except ProfilerFault Impl := do
  demand (impl.collecting = false)
  return { impl with collecting := impl.aggregationTimeMsec ≠ 0 }

-- `ProfilerImpl::Stop`, which joins the thread.
def stop (impl : Impl) : Except ProfilerFault Impl := do
  demand (impl.aggregationTimeMsec ≠ 0 → impl.collecting = true)
  return { impl with collecting := false }

def addProfileData (impl : Impl) : Except ProfilerFault Impl := do
  demand (impl.collecting = false)
  return { impl with profileData := impl.profileData + 1 }

def removeProfileData (impl : Impl) : Except ProfilerFault Impl := do
  demand (impl.collecting = false)
  demand (0 < impl.profileData)
  return { impl with profileData := impl.profileData - 1 }

end Impl

def stop (y : Profilers ι) (i : ι) (scheduler : Scheduler) : Except ProfilerFault (Profilers ι) := do
  demand (scheduler.running = true)
  let y ← y.onProfiler scheduler Impl.stop
  return y.setScheduler i { scheduler with running := false }

-- The body of the destructor of `Scheduler`, and then its member is destroyed.
def destroyScheduler (y : Profilers ι) (i : ι) (scheduler : Scheduler) : Except ProfilerFault (Profilers ι) := do
  let y ← (if scheduler.running then y.stop i scheduler else .ok y)
  demand (scheduler.channels = 0)
  destruct { y with schedulers := Function.update y.schedulers i none } i

def exec (aton : List Char → Option InAddr) (y : Profilers ι) :
    ProfilersAction ι → Except ProfilerFault (Profilers ι)
  | .construct i memory uri aggregationTimeMsec bufferSize opened =>
    y.construct aton i memory uri aggregationTimeMsec bufferSize opened
  | .moveConstruct i o | .moveAssign i o => .ok <| y.move i o
  | .destruct i => y.destruct i
  | .gatherNSend i => do
    (y.implOf i).elim (.ok ()) y.send
    return y
  | .createScheduler i o =>
    let y := y.move i o
    .ok <| y.setScheduler i ⟨y.implOf i, false, 0⟩
  | .collect k => do
    y.send k
    return y
  | .destroyScheduler i => (y.schedulers i).elim (.ok y) <| y.destroyScheduler i
  | .stop i => (y.schedulers i).elim (.ok y) <| y.stop i
  | .start i => (y.schedulers i).elim (.ok y) fun scheduler => do
    demand (scheduler.running = false)
    let y ← y.onProfiler scheduler Impl.start
    return y.setScheduler i { scheduler with running := true }
  | .registerChannel i => (y.schedulers i).elim (.ok y) fun scheduler => do
    demand (scheduler.running = false)
    let y ← y.onProfiler scheduler Impl.addProfileData
    return y.setScheduler i { scheduler with channels := scheduler.channels + 1 }
  | .unregisterChannel i => (y.schedulers i).elim (.ok y) fun scheduler => do
    demand (scheduler.running = false)
    demand (0 < scheduler.channels)
    let y ← y.onProfiler scheduler Impl.removeProfileData
    return y.setScheduler i { scheduler with channels := scheduler.channels - 1 }

-- Nothing is moved out of the `Profiler` of a scheduler, or into it.
def Careful (y : Profilers ι) : ProfilersAction ι → Prop
  | .moveConstruct _ o | .createScheduler _ o => y.schedulers o = none
  | .moveAssign i o                           => y.schedulers i = none ∧ y.schedulers o = none
  | _                                         => True

instance (y : Profilers ι) (a : ProfilersAction ι) : Decidable (y.Careful a) :=
  match a with
  | .moveConstruct .. | .createScheduler .. => inferInstanceAs (Decidable (_ = none))
  | .moveAssign .. => inferInstanceAs (Decidable (_ ∧ _))
  | .construct .. | .destruct _ | .gatherNSend _ | .destroyScheduler _ | .start _ | .stop _
  | .registerChannel _ | .unregisterChannel _ | .collect _ => .isTrue trivial

-- What `i` had is lost.
def Overwrites (y : Profilers ι) : ProfilersAction ι → Prop
  | .moveAssign i _ => y.implOf i ≠ none
  | _               => False

instance (y : Profilers ι) (a : ProfilersAction ι) : Decidable (y.Overwrites a) :=
  match a with
  | .moveAssign .. => inferInstanceAs (Decidable (_ ≠ none))
  | .construct .. | .moveConstruct .. | .createScheduler .. | .destruct _ | .gatherNSend _
  | .destroyScheduler _ | .start _ | .stop _ | .registerChannel _ | .unregisterChannel _ | .collect _ =>
    .isFalse id

-- Nothing is assigned to a `Profiler` that has a destination, either.
def Tidy (y : Profilers ι) (a : ProfilersAction ι) : Prop :=
  y.Careful a ∧ ¬y.Overwrites a

instance (y : Profilers ι) (a : ProfilersAction ι) : Decidable (y.Tidy a) :=
  inferInstanceAs (Decidable (_ ∧ ¬_))

end Profilers

def profilers (ι : Type) [DecidableEq ι] (aton : List Char → Option InAddr) :
    Machine (Profilers ι) (ProfilersAction ι) ProfilerFault where
  Init y := y = ⟨fun _ => none, fun _ => none, fun _ => none, fun _ => none, 0, fun _ => none, []⟩
  Guard  := Profilers.Guard
  exec   := Profilers.exec aton

instance {ι : Type} [DecidableEq ι] (aton : List Char → Option InAddr) (y : Profilers ι)
    (a : ProfilersAction ι) : Decidable ((profilers ι aton).Guard y a) :=
  inferInstanceAs (Decidable (y.Guard a))

open Profilers

variable {ι : Type} [DecidableEq ι] {aton : List Char → Option InAddr} {y : Profilers ι}

-- The URI that is printed for a computer and a port is taken for this computer and this port again, if
-- `inet_aton` reads what `inet_ntoa` writes.
theorem udp_uri_connects {memory : List Char} {address : InAddr} {port : Nat} {i : ι}
    {aggregationTimeMsec bufferSize : Int} (haton : aton (UDPConnection.inetNtoa address) = some address)
    (hm : memory.length = 16) (hp : 0 < port) (hlt : port < 2 ^ 16) (ht : 0 ≤ aggregationTimeMsec)
    (hb : bufferSize = 0 ∨ 64 ≤ bufferSize) :
    ∃ y', y.construct aton i memory (Profiler.udpUri address port) aggregationTimeMsec bufferSize true = .ok y' ∧
      y'.implOf i = some y.next ∧ y'.connections y.next = some (address, port) ∧
      y'.impls y.next = some ⟨.connection y.next, if bufferSize = 0 then 508 else bufferSize,
        aggregationTimeMsec, false, 0⟩ := by
  have hsize : 64 ≤ if bufferSize = 0 then 508 else bufferSize := by
    split
    case isTrue     => decide
    case isFalse hz => exact hb.resolve_left hz
  have hport : ((port : Int) % 2 ^ 16).toNat = port := by omega
  rw [Profilers.construct, Profiler.destinationOf_udpUri hm hp hlt]
  simp only [ok_bind, demand_of, haton, hport]
  rw [Profilers.newImpl, demand_of hsize, demand_of ht]
  exact ⟨_, rfl, by simp [implOf], Function.update_self .., Function.update_self ..⟩

-- The only address that the examples know.
def localhost (text : List Char) : Option InAddr :=
  if text = UDPConnection.inetNtoa ⟨127, 0, 0, 1⟩ then some ⟨127, 0, 0, 1⟩ else none

theorem udp_uri_connects_default :
    ∃ y' : Profilers Nat, Profilers.construct localhost
        ⟨fun _ => none, fun _ => none, fun _ => none, fun _ => none, 0, fun _ => none, []⟩ 0 (.replicate 16 'x')
        (Profiler.udpUri ⟨127, 0, 0, 1⟩ 65535) 0 0 true = .ok y' ∧
      y'.connections 0 = some (⟨127, 0, 0, 1⟩, 65535) ∧ (y'.impls 0).map Impl.bufferSize = some 508 := by
  have haton : localhost (UDPConnection.inetNtoa ⟨127, 0, 0, 1⟩) = some ⟨127, 0, 0, 1⟩ := if_pos rfl
  have hm : (List.replicate 16 'x').length = 16 := List.length_replicate ..
  obtain ⟨y', hy', _, hc, hi⟩ := udp_uri_connects (i := 0)
    (y := ⟨fun _ => none, fun _ => none, fun _ => none, fun _ => none, 0, fun _ => none, []⟩) haton hm
    (by decide : 0 < 65535) (by decide) le_rfl (.inl rfl)
  exact ⟨y', hy', hc, by rw [hi]; rfl⟩

end PipeRT
