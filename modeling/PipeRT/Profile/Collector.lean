import PipeRT.Profile.Gathering

namespace PipeRT

-- How far the log collector thread is in `SleepNWork`.
inductive CollectorThread where
  -- It is about to evaluate the condition of the loop, for the first time or after it has slept.
  | looping (slept : Bool)
  -- It has called `GatherNSend`.
  | gathering (slept : Bool)
  -- It is in `sleep_for`, until that time at least.
  | sleeping (wakeTime : Time)
  deriving DecidableEq, Repr

namespace CollectorThread

def isLooping : CollectorThread → Bool
  | looping _ => true
  | _         => false

def isGathering : CollectorThread → Bool
  | gathering _ => true
  | _           => false

def isAwake (now : Time) : CollectorThread → Bool
  | sleeping wakeTime => decide (wakeTime ≤ now)
  | _                 => false

end CollectorThread

-- A profiler with its log collector thread, and the clock that all threads read.
structure Collector (D : Type) where
  impl                : ProfilerImpl D
  -- Whether it was another thread that has called `GatherNSend` the last time.
  manual              : Bool
  aggregationTimeMsec : Nat
  workerShutdown      : Bool
  workerThread        : Option CollectorThread
  now                 : Time

inductive CollectorAction (D : Type) where
  | tick (t : Time)
  -- Something that happens to the data, or a step of `GatherNSend`, which any thread may call.
  | profiler (a : ProfilerAction D)
  | start
  | stop
  -- The steps of the log collector thread.
  | loop
  | sleep
  | wake

-- Whether `GatherNSend` is called by somebody else than the log collector thread.
def ProfilerAction.isManual {D : Type} : ProfilerAction D → Bool
  | .gatherNSend => true
  | _            => false

namespace Collector

variable {D : Type} (F : Double D)

-- The clock, as a step of the profiler reads it.
def Reads (now : Time) : ProfilerAction D → Prop
  | .record t _       => now ≤ t
  | .data _ (.tick t) => t ≤ now
  | _                 => True

instance (now : Time) (a : ProfilerAction D) : Decidable (Reads now a) :=
  match a with
  | .record t _       => inferInstanceAs (Decidable (now ≤ t))
  | .data _ (.tick t) => inferInstanceAs (Decidable (t ≤ now))
  | .data _ (.log ..) | .data _ (.trackSender ..) | .data _ (.gather _) | .data _ (.record ..)
  | .data _ .finish | .gatherNSend | .gather | .send => inferInstanceAs (Decidable True)

-- The clock after it.
def clock (now : Time) : ProfilerAction D → Time
  | .record _ t' => t'
  | _            => now

-- What the constructor asserts.
def Accepts (aggregationTimeMsec : Int) : Prop :=
  0 ≤ aggregationTimeMsec

def Guard (y : Collector D) : CollectorAction D → Prop
  | .tick t     => y.now ≤ t
  | .profiler a => y.impl.Guard a ∧ Reads y.now a
  | .start      => y.workerThread.isNone = true
  | .stop       => True
  | .loop       => y.workerThread.any CollectorThread.isLooping = true
  | .sleep      => y.workerThread.any CollectorThread.isGathering = true ∧
    (y.impl.nextProfileData.isNone || y.manual) = true
  | .wake       => y.workerThread.any (CollectorThread.isAwake y.now) = true

instance (y : Collector D) (a : CollectorAction D) : Decidable (y.Guard a) :=
  match a with
  | .tick t                 => inferInstanceAs (Decidable (y.now ≤ t))
  | .profiler _ | .sleep    => inferInstanceAs (Decidable (_ ∧ _))
  | .stop                   => inferInstanceAs (Decidable True)
  | .start | .loop | .wake  => inferInstanceAs (Decidable (_ = true))

def exec (y : Collector D) : CollectorAction D → Except ProfileFault (Collector D)
  | .tick t => return { y with now := t }
  | .profiler a => do
    let impl ← y.impl.exec F a
    return { y with impl, manual := y.manual || a.isManual, now := clock y.now a }
  | .start =>
    return { y with
      workerShutdown := false
      workerThread   := if y.aggregationTimeMsec ≠ 0 then some (.looping false) else none }
  | .stop => return { y with workerShutdown := true }
  | .loop =>
    match y.workerThread with
    | some (.looping slept) =>
      if y.workerShutdown then
        return { y with workerThread := none }
      else do
        let impl ← y.impl.exec F .gatherNSend
        return { y with impl, manual := false, workerThread := some (.gathering slept) }
    | _ => return y
  | .sleep =>
    return { y with workerThread := some (.sleeping (y.now + 1000 * y.aggregationTimeMsec)) }
  | .wake => return { y with workerThread := some (.looping true) }

-- The aggregate that is serialized next.
def serialized? (y : Collector D) : Option (LogAggregate D) := do
  let p ← y.impl.current?
  let (_, aggregate) ← p.data.aggregates[p.data.serializeNext]?
  return aggregate

end Collector

-- The aggregation time is any that the constructor accepts.
structure Collector.Init {D : Type} (F : Double D) (y : Collector D) : Prop where
  impl         : (profiler F).Init y.impl
  clocks       : ∀ p ∈ y.impl.profileData, p.now ≤ y.now
  manual       : y.manual = false
  accepts      : ∃ aggregationTimeMsec : Int, Accepts aggregationTimeMsec ∧ aggregationTimeMsec ≤ kMaxInt ∧
                 (y.aggregationTimeMsec : Int) = aggregationTimeMsec
  workerThread : y.workerThread = none

def collector {D : Type} (F : Double D) : Machine (Collector D) (CollectorAction D) ProfileFault where
  Init  := Collector.Init F
  Guard := Collector.Guard
  exec  := Collector.exec F

instance {D : Type} (F : Double D) (y : Collector D) (a : CollectorAction D) :
    Decidable ((collector F).Guard y a) :=
  inferInstanceAs (Decidable (y.Guard a))

namespace Collector

variable {D : Type} {F : Double D} {y y' : Collector D} {a : CollectorAction D}

-- What a step that does not fail does.
inductive Effect (F : Double D) (y : Collector D) : CollectorAction D → Collector D → Prop
  | tick {t} : y.now ≤ t → Effect F y (.tick t) { y with now := t }
  | profiler {a impl} : (profiler F).Step y.impl a impl → Reads y.now a →
    Effect F y (.profiler a) { y with impl, manual := y.manual || a.isManual, now := clock y.now a }
  | started : y.workerThread = none → y.aggregationTimeMsec ≠ 0 →
    Effect F y .start { y with workerShutdown := false, workerThread := some (.looping false) }
  | unstarted : y.workerThread = none → y.aggregationTimeMsec = 0 →
    Effect F y .start { y with workerShutdown := false, workerThread := none }
  | stop : Effect F y .stop { y with workerShutdown := true }
  | exited {slept} : y.workerThread = some (.looping slept) → Effect F y .loop { y with workerThread := none }
  | called {slept impl} : y.workerThread = some (.looping slept) →
    (PipeRT.profiler F).Step y.impl .gatherNSend impl →
    Effect F y .loop { y with impl, manual := false, workerThread := some (.gathering slept) }
  | sleep {slept} : y.workerThread = some (.gathering slept) →
    (y.manual = false → y.impl.nextProfileData = none) →
    Effect F y .sleep { y with workerThread := some (.sleeping (y.now + 1000 * y.aggregationTimeMsec)) }
  | wake {wakeTime} : y.workerThread = some (.sleeping wakeTime) → wakeTime ≤ y.now →
    Effect F y .wake { y with workerThread := some (.looping true) }

theorem effect (e : (collector F).Step y a y') : Effect F y a y' := by
  have hg : y.Guard a := e.guard
  have he : y.exec F a = .ok y' := e.exec
  cases a
  case tick t => exact Except.ok.inj he ▸ .tick hg
  case stop   => exact Except.ok.inj he ▸ .stop
  case profiler a =>
    obtain ⟨impl, himpl, he⟩ := bind_eq_ok.mp he
    obtain rfl := Except.ok.inj he
    exact .profiler ⟨hg.1, himpl⟩ hg.2
  case start =>
    have hnone := Option.isNone_iff_eq_none.mp hg
    rw [exec] at he
    obtain rfl := Except.ok.inj he
    by_cases hz : y.aggregationTimeMsec = 0
    case pos => simpa [hz] using Effect.unstarted hnone hz
    case neg => simpa [hz] using Effect.started hnone hz
  case loop =>
    obtain ⟨thread, hthread, hlooping⟩ := (Option.any_eq_true ..).mp hg
    cases thread
    case gathering | sleeping => contradiction
    case looping slept =>
      rw [exec, hthread] at he
      simp only at he
      split at he
      case isTrue => exact Except.ok.inj he ▸ .exited hthread
      case isFalse =>
        obtain ⟨impl, himpl, he⟩ := bind_eq_ok.mp he
        exact Except.ok.inj he ▸ .called hthread ⟨trivial, himpl⟩
  case sleep =>
    obtain ⟨thread, hthread, hgathering⟩ := (Option.any_eq_true ..).mp hg.1
    cases thread
    case looping | sleeping => contradiction
    case gathering =>
      refine Except.ok.inj he ▸ .sleep hthread fun hmanual => Option.isNone_iff_eq_none.mp ?_
      simpa [hmanual] using hg.2
  case wake =>
    obtain ⟨thread, hthread, hawake⟩ := (Option.any_eq_true ..).mp hg
    cases thread
    case looping | gathering => contradiction
    case sleeping => exact Except.ok.inj he ▸ .wake hthread (of_decide_eq_true hawake)

end Collector
end PipeRT
