import PipeRT.Locking.AdaptiveSpinLock
import PipeRT.Profile.Conservation
import PipeRT.Profile.Senders

namespace PipeRT

-- The locks of a `ProfileData`: one in the aggregate of every type of event, and the one in its
-- `SenderLogger`.
inductive ProfileLock (ι : Type) where
  | aggregate (i : ι)
  | senderLogger
  deriving DecidableEq, Repr

-- An aggregate, what it has been asked to log, and what `SerializeNClear` has written.
structure AggregateHistory (D : Type) where
  aggregate : LogAggregate D
  events    : List D
  written   : List (List UInt8)

abbrev ProfileLock.Data {ι : Type} (D : Type) : ProfileLock ι → Type
  | aggregate _  => AggregateHistory D
  | senderLogger => SenderHistory

-- What a thread does with a `ProfileData`.
inductive ProfileUser (ι D : Type) where
  | idle
  -- It is in `LogAggregate::Log`.
  | logging (i : ι) (eventValue : D) (threadName : CString)
  -- It is about to call `TrackSender`.
  | logged (i : ι) (threadName : CString)
  -- It is in `TrackSender`, at entry `j`.
  | tracking (threadName : CString) (j : Nat)
  -- It is in `SerializeNClear`, and has written so much. The clock shows that so much time has passed
  -- since the aggregate was cleared, and later what is given.
  | serializing (i : ι) (passed : Int) (t' : Time) (buffer : List UInt8)
  | serializingSender (buffer : List UInt8)

namespace ProfileUser

variable {ι D : Type} [DecidableEq ι] (F : Double D)

def Moves (tracked : ι) : ProfileUser ι D → ProfileUser ι D → Prop
  | idle,                logging ..               => True
  | idle,                serializing _ _ _ buffer => buffer = []
  | idle,                serializingSender buffer => buffer = []
  | logged i threadName, tracking threadName' j   => i = tracked ∧ threadName = threadName' ∧ j = 0
  | logged i _,          idle                     => i ≠ tracked
  | _,                   _                        => False

instance (tracked : ι) : DecidableRel (Moves (D := D) tracked) := fun k k' => by
  cases k <;> cases k' <;> dsimp only [Moves] <;> infer_instance

-- Aggregates are serialized while the time that has passed since they were cleared is still an `int`,
-- as `GetTimePassedInMicroSecs` expects.
def Timely : ProfileUser ι D → Prop
  | serializing _ passed _ _ => passed < kMaxInt
  | _                        => True

instance (k : ProfileUser ι D) : Decidable k.Timely :=
  match k with
  | serializing _ passed _ _ => inferInstanceAs (Decidable (passed < kMaxInt))
  | idle | logging .. | logged .. | tracking .. | serializingSender _ => inferInstanceAs (Decidable True)

-- A statement of `LogAggregate::Log`.
def log (f : LogAggregate D → D → LogAggregate D) :
    Statement (AggregateHistory D) (ProfileUser ι D) Fault
  | h, logging i eventValue threadName =>
    .ok ({ h with aggregate := f h.aggregate eventValue }, logging i eventValue threadName)
  | h, k                               => .ok (h, k)

def returnFromLog : Statement (AggregateHistory D) (ProfileUser ι D) Fault
  | h, logging i eventValue threadName =>
    .ok ({ h with events := h.events ++ [eventValue] }, logged i threadName)
  | h, k                               => .ok (h, k)

def logBody : List (Statement (AggregateHistory D) (ProfileUser ι D) Fault) := [
  log fun aggregate _ => { aggregate with logCount := aggregate.logCount + 1 },
  log fun aggregate eventValue => { aggregate with sum := F.add aggregate.sum eventValue },
  log fun aggregate eventValue =>
    { aggregate with min := if F.lt eventValue aggregate.min then eventValue else aggregate.min },
  log fun aggregate eventValue =>
    { aggregate with max := if F.lt aggregate.max eventValue then eventValue else aggregate.max },
  returnFromLog]

-- A statement of `LogAggregate::Serialize`.
def write (f : LogAggregate D → List UInt8) :
    Statement (AggregateHistory D) (ProfileUser ι D) Fault
  | h, serializing i passed t' buffer => .ok (h, serializing i passed t' (buffer ++ f h.aggregate))
  | h, k                              => .ok (h, k)

def writeTimePassed : Statement (AggregateHistory D) (ProfileUser ι D) Fault
  | h, serializing i passed t' buffer => do
    let t := h.aggregate.aggregationStarted + passed
    check (t - h.aggregate.aggregationStarted < kMaxInt)
    return (h, serializing i passed t' (buffer ++ intImage (t - h.aggregate.aggregationStarted)))
  | h, k                              => .ok (h, k)

-- A statement of `LogAggregate::Clear`.
def clear (f : LogAggregate D → Time → LogAggregate D) :
    Statement (AggregateHistory D) (ProfileUser ι D) Fault
  | h, serializing i passed t' buffer =>
    .ok ({ h with aggregate := f h.aggregate t' }, serializing i passed t' buffer)
  | h, k                              => .ok (h, k)

def returnFromSerializeNClear : Statement (AggregateHistory D) (ProfileUser ι D) Fault
  | h, serializing _ _ _ buffer => .ok ({ h with written := h.written ++ [buffer] }, idle)
  | h, k                        => .ok (h, k)

def serializeBody : List (Statement (AggregateHistory D) (ProfileUser ι D) Fault) := [
  write fun aggregate => intImage aggregate.logCount,
  writeTimePassed,
  write fun aggregate => doubleImage F aggregate.min,
  write fun aggregate => doubleImage F aggregate.max,
  write fun aggregate => doubleImage F (aggregate.getAvg F),
  clear fun aggregate _ => { aggregate with logCount := 0 },
  clear fun aggregate t' => { aggregate with aggregationStarted := t' },
  clear fun aggregate _ => { aggregate with min := F.max },
  clear fun aggregate _ => { aggregate with max := F.min },
  clear fun aggregate _ => { aggregate with sum := F.zero },
  returnFromSerializeNClear]

-- A turn of the loop in `TrackSender`, which no longer turns once it has found its entry.
def seek : Statement SenderHistory (ProfileUser ι D) Fault
  | h, tracking threadName j =>
    match h.logger.senders[j]? with
    | some ⟨some name, _⟩ =>
      .ok (h, tracking threadName (if name.address ≠ threadName.address then j + 1 else j))
    | _                   => .ok (h, tracking threadName j)
  | h, k                     => .ok (h, k)

def count : Statement SenderHistory (ProfileUser ι D) Fault
  | h, tracking threadName j =>
    let calls := threadName :: h.calls
    match h.logger.senders[j]? with
    | none                   => .ok ({ h with calls }, idle)
    | some ⟨none, _⟩         =>
      .ok (⟨{ h.logger with senders := h.logger.senders.set j ⟨some threadName, 1⟩ }, calls⟩, idle)
    | some ⟨some name, sent⟩ => do
      check (name.address = threadName.address)
      return (⟨{ h.logger with senders := h.logger.senders.set j ⟨some name, sent + 1⟩ }, calls⟩, idle)
  | h, k                     => .ok (h, k)

def trackSenderBody : List (Statement SenderHistory (ProfileUser ι D) Fault) :=
  .replicate SenderLogger.kMaxSenders seek ++ [count]

def serializeSender : Statement SenderHistory (ProfileUser ι D) Fault
  | h, serializingSender buffer =>
    let (bytes, logger) := h.logger.serialize
    .ok ({ h with logger }, serializingSender (buffer ++ bytes))
  | h, k                        => .ok (h, k)

def clearTopSenders : Statement SenderHistory (ProfileUser ι D) Fault
  | h, _ => .ok (⟨h.logger.clearTopSenders, []⟩, idle)

def next : ProfileUser ι D →
    Option ((l : ProfileLock ι) × List (Statement (l.Data D) (ProfileUser ι D) Fault))
  | logging i _ _       => some ⟨.aggregate i, logBody F⟩
  | serializing i _ _ _ => some ⟨.aggregate i, serializeBody F⟩
  | tracking ..         => some ⟨.senderLogger, trackSenderBody⟩
  | serializingSender _ => some ⟨.senderLogger, [serializeSender, clearTopSenders]⟩
  | idle | logged ..    => none

end ProfileUser

-- The code of a `ProfileData`, as the threads `τ` run it. It tracks the senders of one type of event.
def profileData (τ : Type) {ι D : Type} [DecidableEq ι] (F : Double D) (tracked : ι) :
    Sections (ProfileLock ι) (ProfileLock.Data D) τ (ProfileUser ι D) Fault where
  Init data locals := (∀ i, ∃ t, data (.aggregate i) = ⟨.clear F t, [], []⟩) ∧
                      (∃ trackEvent, data .senderLogger = ⟨.new trackEvent, []⟩) ∧
                      locals = fun _ => .idle
  Moves            := ProfileUser.Moves tracked
  next             := ProfileUser.next F

-- The same, if nothing is serialized too late.
abbrev timely (τ : Type) {ι D : Type} [DecidableEq ι] (F : Double D) (tracked : ι) :
    Sections (ProfileLock ι) (ProfileLock.Data D) τ (ProfileUser ι D) Fault :=
  (profileData τ F tracked).restrict ProfileUser.Timely

instance (τ : Type) {ι D : Type} [DecidableEq ι] (F : Double D) (tracked : ι) :
    DecidableRel (profileData τ F tracked).Moves :=
  inferInstanceAs (DecidableRel (ProfileUser.Moves tracked))

-- Every event has been told by one of the writings, or is still held in the aggregate.
def AggregateHistory.Told {D : Type} (F : Double D) (h : AggregateHistory D) : Prop :=
  ∃ shares rest, List.Forall₂ (fun bytes values => ∃ (aggregate : LogAggregate D) (t : Time),
      aggregate.Tells F values ∧ aggregate.serialize F t = .ok bytes) h.written shares ∧
    h.aggregate.Tells F rest ∧ h.events = shares.flatten ++ rest

namespace ProfileUser

variable {ι D : Type} {F : Double D} {h : AggregateHistory D} {i : ι} {eventValue : D} {threadName : CString}
variable {passed : Int} {t' : Time} {history : SenderHistory} {j : Nat}

theorem run_logBody : Statement.run (logBody F) h (logging i eventValue threadName) =
    .ok (⟨h.aggregate.log F eventValue, h.events ++ [eventValue], h.written⟩, logged i threadName) :=
  rfl

theorem run_serializeBody (t' : Time) (hp : passed < kMaxInt) :
    ∃ bytes, h.aggregate.serialize F (h.aggregate.aggregationStarted + passed) = .ok bytes ∧
      Statement.run (serializeBody F) h (serializing i passed t' []) =
        .ok (⟨.clear F t', h.events, h.written ++ [bytes]⟩, idle) := by
  have hcheck : h.aggregate.aggregationStarted + passed - h.aggregate.aggregationStarted < kMaxInt := by
    rwa [add_sub_cancel_left]
  have hserialize : h.aggregate.serialize F (h.aggregate.aggregationStarted + passed) =
      .ok (intImage h.aggregate.logCount ++
        intImage (h.aggregate.aggregationStarted + passed - h.aggregate.aggregationStarted) ++
        doubleImage F h.aggregate.min ++ doubleImage F h.aggregate.max ++
        doubleImage F (h.aggregate.getAvg F)) := by
    rw [LogAggregate.serialize, LogAggregate.getTimePassedInMicroSecs, ensure_of hcheck]
    rfl
  refine ⟨_, hserialize, ?_⟩
  simp only [serializeBody, Statement.run, write, writeTimePassed, check_of hcheck, ok_bind, pure,
    Except.pure, List.nil_append]
  rfl

-- The loop in `TrackSender` stops at the entry that `track` changes.
section TrackSender

variable {senders rest : List SenderLogger.Sender} {trackEvent : CString} {calls : List CString} {n : Nat}

theorem run_seek_of_stop (hj : ∀ name sent, senders[j]? = some ⟨some name, sent⟩ →
    name.address = threadName.address) :
    Statement.run (.replicate n seek ++ [count]) ⟨⟨trackEvent, senders⟩, calls⟩
      (tracking (ι := ι) (D := D) threadName j) =
    count ⟨⟨trackEvent, senders⟩, calls⟩ (tracking threadName j) := by
  induction n
  case zero =>
    rw [List.replicate_zero, List.nil_append, Statement.run]
    exact bind_pure _
  case succ n ih =>
    have hstop : seek ⟨⟨trackEvent, senders⟩, calls⟩ (tracking (ι := ι) (D := D) threadName j) =
        .ok (⟨⟨trackEvent, senders⟩, calls⟩, tracking threadName j) := by
      rw [seek]
      split
      case h_1 name sent hs => rw [if_neg (not_not.mpr <| hj name sent hs)]
      case h_2              => rfl
    rw [List.replicate_succ, List.cons_append, Statement.run, hstop, ok_bind]
    exact ih

theorem run_seek (senders : List SenderLogger.Sender) (hn : rest.length ≤ n) (hj : senders.length = j) :
    Statement.run (.replicate n seek ++ [count]) ⟨⟨trackEvent, senders ++ rest⟩, calls⟩
      (tracking (ι := ι) (D := D) threadName j) =
    .ok (⟨⟨trackEvent, senders ++ SenderLogger.trackSender.track threadName rest⟩, threadName :: calls⟩,
      idle) := by
  induction rest generalizing senders j n
  case nil =>
    have hnone : senders[j]? = none := by simp [← hj]
    rw [List.append_nil, run_seek_of_stop (by simp [hnone])]
    simp [count, hnone, SenderLogger.trackSender.track]
  case cons entry rest ih =>
    have hentry : (senders ++ entry :: rest)[j]? = some entry := by simp [← hj]
    have hset (e : SenderLogger.Sender) : (senders ++ entry :: rest).set j e = senders ++ e :: rest := by
      simp [← hj]
    obtain ⟨senderName, sent⟩ := entry
    cases senderName
    case none =>
      rw [run_seek_of_stop (by simp [hentry])]
      simp [count, hentry, hset, SenderLogger.trackSender.track]
    case some name =>
      by_cases hname : name.address = threadName.address
      case pos =>
        rw [run_seek_of_stop fun name' sent' hs => ?_]
        · simp [count, hentry, hset, hname, SenderLogger.trackSender.track]
        · obtain ⟨rfl, _⟩ := by simpa [hentry] using hs
          exact hname
      case neg =>
        obtain ⟨n, rfl⟩ : ∃ m, n = m + 1 := ⟨n - 1, by rw [List.length_cons] at hn; omega⟩
        have hnext : seek ⟨⟨trackEvent, senders ++ ⟨some name, sent⟩ :: rest⟩, calls⟩
            (tracking (ι := ι) (D := D) threadName j) =
            .ok (⟨⟨trackEvent, senders ++ ⟨some name, sent⟩ :: rest⟩, calls⟩,
              tracking threadName (j + 1)) := by
          simp [seek, hentry, hname]
        have hle : rest.length ≤ n := by
          rw [List.length_cons] at hn
          omega
        have hrest := ih (senders ++ [⟨some name, sent⟩]) hle (j := j + 1) (by simp [hj])
        simp only [List.append_assoc, List.singleton_append] at hrest
        rw [List.replicate_succ, List.cons_append, Statement.run, hnext, ok_bind]
        refine hrest.trans ?_
        simp [SenderLogger.trackSender.track, hname]

end TrackSender

theorem run_trackSenderBody (h : history.logger.senders.length = SenderLogger.kMaxSenders) :
    Statement.run trackSenderBody history (tracking (ι := ι) (D := D) threadName 0) =
      .ok (⟨history.logger.trackSender history.logger.trackEvent threadName, threadName :: history.calls⟩,
        idle) := by
  rw [SenderLogger.trackSender, if_neg (not_not.mpr rfl)]
  exact run_seek [] h.le rfl

-- Whoever enters a critical section starts at its beginning.
def Fresh : ProfileUser ι D → Prop
  | serializing _ passed _ buffer => passed < kMaxInt ∧ buffer = []
  | tracking _ j                  => j = 0
  | _                             => True

theorem Moves.fresh {tracked : ι} {k k' : ProfileUser ι D} (h : Moves tracked k k') (hk : k'.Timely) :
    k'.Fresh := by
  cases k <;> cases k'
  case idle.serializing => exact ⟨hk, h⟩
  case logged.tracking  => exact h.2.2
  all_goals trivial

end ProfileUser

namespace AggregateHistory.Told

variable {D : Type} {F : Double D} {h : AggregateHistory D}

theorem log (eventValue : D) (ht : h.Told F) :
    Told F ⟨h.aggregate.log F eventValue, h.events ++ [eventValue], h.written⟩ := by
  obtain ⟨shares, rest, hshares, hrest, hevents⟩ := ht
  exact ⟨shares, rest ++ [eventValue], hshares, hrest.log, by rw [hevents, List.append_assoc]⟩

theorem serializeNClear {t t' : Time} {bytes : List UInt8} (ht : h.Told F)
    (hb : h.aggregate.serialize F t = .ok bytes) :
    Told F ⟨.clear F t', h.events, h.written ++ [bytes]⟩ := by
  obtain ⟨shares, rest, hshares, hrest, hevents⟩ := ht
  refine ⟨shares ++ [rest], [], List.rel_append hshares (.cons ⟨h.aggregate, t, hrest, hb⟩ .nil), .clear, ?_⟩
  simp [hevents]

end AggregateHistory.Told

namespace ProfileData

variable {τ ι D : Type} [DecidableEq τ] [DecidableEq ι] {F : Double D} {tracked : ι}
variable {z z' : Atomic (ProfileLock ι) (ProfileLock.Data D) τ (ProfileUser ι D)} {t : τ}

structure Inv (F : Double D) (z : Atomic (ProfileLock ι) (ProfileLock.Data D) τ (ProfileUser ι D)) :
    Prop where
  told   : ∀ i, (z.data (.aggregate i)).Told F
  tracks : ∃ names, (z.data .senderLogger).Tracks names
  fresh  : ∀ t, (z.locals t).Fresh

namespace Inv

omit [DecidableEq ι] in
theorem fresh_update {k : ProfileUser ι D} (h : Inv F z) (hk : k.Fresh) (t' : τ) :
    (Function.update z.locals t k t').Fresh := by
  by_cases ht : t' = t
  case pos => rwa [ht, Function.update_self]
  case neg => exact Function.update_of_ne ht k z.locals ▸ h.fresh t'

-- A critical section of the lock of an aggregate, after which the thread is in none.
theorem of_aggregate {i : ι} {body : List (Statement (AggregateHistory D) (ProfileUser ι D) Fault)}
    (h : Inv F z) (history : AggregateHistory D) (k : ProfileUser ι D)
    (hn : (z.locals t).next F = some ⟨.aggregate i, body⟩)
    (hrun : Statement.run body (z.data (.aggregate i)) (z.locals t) = .ok (history, k))
    (ht : history.Told F) (hk : k.Fresh) :
    ∃ z', z.exec (timely τ F tracked) (.section t) = .ok z' ∧ Inv F z' := by
  refine ⟨_, Atomic.exec_section hn hrun, fun i' => ?_, by simpa using h.tracks, h.fresh_update hk⟩
  by_cases hi : i' = i
  case pos =>
    subst hi
    simpa using ht
  case neg => simpa [hi] using h.told i'

-- A critical section of the lock of the `SenderLogger`.
theorem of_senderLogger {body : List (Statement SenderHistory (ProfileUser ι D) Fault)}
    (h : Inv F z) (history : SenderHistory) (hn : (z.locals t).next F = some ⟨.senderLogger, body⟩)
    (hrun : Statement.run body (z.data .senderLogger) (z.locals t) = .ok (history, .idle))
    (ht : ∃ names, history.Tracks names) :
    ∃ z', z.exec (timely τ F tracked) (.section t) = .ok z' ∧ Inv F z' :=
  ⟨_, Atomic.exec_section hn hrun, fun i => by simpa using h.told i, by simpa using ht,
    h.fresh_update trivial⟩

theorem logging {i : ι} {eventValue : D} {threadName : CString} (h : Inv F z)
    (ht : z.locals t = .logging i eventValue threadName) :
    ∃ z', z.exec (timely τ F tracked) (.section t) = .ok z' ∧ Inv F z' := by
  refine h.of_aggregate _ (.logged i threadName) (by rw [ht]; rfl) ?_ ((h.told i).log eventValue) trivial
  rw [ht, ProfileUser.run_logBody]

theorem serializing {i : ι} {passed : Int} {t' : Time} {buffer : List UInt8} (h : Inv F z)
    (ht : z.locals t = .serializing i passed t' buffer) :
    ∃ z', z.exec (timely τ F tracked) (.section t) = .ok z' ∧ Inv F z' := by
  have hfresh := h.fresh t
  rw [ht] at hfresh
  obtain ⟨hp, rfl⟩ := hfresh
  obtain ⟨bytes, hb, hrun⟩ := ProfileUser.run_serializeBody (F := F) (h := z.data (.aggregate i)) (i := i)
    t' hp
  refine h.of_aggregate _ .idle (by rw [ht]; rfl) (ht ▸ hrun) ((h.told i).serializeNClear hb) trivial

theorem tracking {threadName : CString} {j : Nat} (h : Inv F z)
    (ht : z.locals t = .tracking threadName j) :
    ∃ z', z.exec (timely τ F tracked) (.section t) = .ok z' ∧ Inv F z' := by
  have hfresh := h.fresh t
  rw [ht] at hfresh
  obtain rfl : j = 0 := hfresh
  obtain ⟨names, htracks⟩ := h.tracks
  have hlength : (z.data .senderLogger).logger.senders.length = SenderLogger.kMaxSenders := by
    have hle := htracks.length_le
    rw [htracks.senders, List.length_append, List.length_map, List.length_replicate]
    omega
  refine h.of_senderLogger ⟨(z.data .senderLogger).logger.trackSender
      (z.data .senderLogger).logger.trackEvent threadName, _⟩ (by rw [ht]; rfl) ?_ (htracks.trackSender rfl)
  rw [ht, ProfileUser.run_trackSenderBody hlength]

theorem serializingSender {buffer : List UInt8} (h : Inv F z)
    (ht : z.locals t = .serializingSender buffer) :
    ∃ z', z.exec (timely τ F tracked) (.section t) = .ok z' ∧ Inv F z' := by
  refine h.of_senderLogger ⟨(z.data .senderLogger).logger.serialize.2.clearTopSenders, []⟩
    (by rw [ht]; rfl) ?_ ⟨[], rfl, .nil⟩
  rw [ht]
  rfl

end Inv

theorem safe : (atomic (timely τ F tracked)).Safe (fun _ _ => True) (Inv F) where
  init z hz := by
    obtain ⟨haggregates, ⟨trackEvent, hlogger⟩, hlocals⟩ := hz
    refine ⟨fun i => ?_, ⟨[], ?_⟩, fun t => ?_⟩
    case refine_1 =>
      obtain ⟨t, ht⟩ := haggregates i
      rw [ht]
      exact ⟨[], [], .nil, .clear, rfl⟩
    case refine_2 =>
      rw [hlogger]
      exact ⟨rfl, .nil⟩
    case refine_3 =>
      rw [hlocals]
      trivial
  step z a h hg _ := by
    cases a
    case move t k =>
      have hm : (z.locals t).Moves tracked k ∧ k.Timely := hg
      exact ⟨_, rfl, h.told, h.tracks, h.fresh_update (hm.1.fresh hm.2)⟩
    case «section» t =>
      have hn : ((profileData τ F tracked).next (z.locals t)).isSome = true := hg
      cases ht : z.locals t
      case logging           => exact h.logging ht
      case serializing       => exact h.serializing ht
      case tracking          => exact h.tracking ht
      case serializingSender => exact h.serializingSender ht
      all_goals
        rw [ht] at hn
        contradiction

end ProfileData

-- Threads that log and threads that collect what was logged, before it is too late to tell the time that
-- has passed, never meet a failed assertion. While nobody is in the critical section of an aggregate,
-- every event that was logged there is either told by one of the writings or still held. While nobody
-- is in that of the sender logger, it tells who called.
theorem profile_data_locked {τ ι D : Type} [DecidableEq τ] [DecidableEq ι] {F : Double D} {tracked : ι}
    {y : Interleaved (ProfileLock ι) (ProfileLock.Data D) τ (ProfileUser ι D) Fault AdaptiveSpinLock Int32}
    (h : (interleaved AdaptiveSpinLock.guard (profileData τ F tracked)).Reachable
      (fun _ a => a.MovesTo ProfileUser.Timely) y) :
    (∀ a f, (interleaved AdaptiveSpinLock.guard (profileData τ F tracked)).Guard y a →
      (interleaved AdaptiveSpinLock.guard (profileData τ F tracked)).exec y a ≠ .error f) ∧
    (∀ l t t', y.Inside t l → y.Inside t' l → t = t') ∧
    (∀ i, (∀ t, ¬y.Inside t (.aggregate i)) → (y.data (.aggregate i)).Told F) ∧
    ((∀ t, ¬y.Inside t .senderLogger) → ∃ names, (y.data .senderLogger).Tracks names) := by
  have hx := AdaptiveSpinLock.guard_lawful
  obtain ⟨z, hz, hc⟩ := Interleaved.completes hx ProfileData.safe (Interleaved.reachable_restrict h)
  have hi : ProfileData.Inv F z := ProfileData.safe.reachable hz
  refine ⟨fun a f hg => hc.not_error hg f, (Interleaved.exclusive hx h).unique, fun i hfree => ?_,
    fun hfree => ?_⟩
  · exact hc.free (.aggregate i) hfree ▸ hi.told i
  · exact hc.free .senderLogger hfree ▸ hi.tracks

-- One thread logs an event, while another one waits to write the aggregate.
theorem profile_data_locked_collecting :
    ∃ y, (interleaved AdaptiveSpinLock.guard (profileData (Fin 2) rationals (0 : Fin 2))).Reachable
        (fun _ a => a.MovesTo ProfileUser.Timely) y ∧
      (y.data (.aggregate 0)).events.length = 1 ∧ (y.data (.aggregate 0)).written.length = 1 ∧
      (y.data (.aggregate 0)).Told rationals ∧ ∃ names, (y.data .senderLogger).Tracks names := by
  let name : CString := ⟨1, [116], by decide⟩
  obtain ⟨y, hr, ⟨he, hw⟩, hout⟩ := Machine.exists_reachable_of_replay
    (M := interleaved AdaptiveSpinLock.guard (profileData (Fin 2) rationals (0 : Fin 2)))
    (fun _ a => a.MovesTo ProfileUser.Timely)
    ([.move 0 (.logging 0 3 name), .lock 0, .attempt 0, .move 1 (.serializing 0 7 9 []), .lock 1,
        .statement 0, .attempt 1] ++ .replicate 4 (.statement 0) ++ [.unlock 0, .attempt 1] ++
      .replicate 11 (.statement 1) ++ [.unlock 1])
    (P := fun y => ((y.data (.aggregate 0)).events.length = 1 ∧
      (y.data (.aggregate 0)).written.length = 1) ∧
      ∀ t, (y.threads t).isInside = false)
    (s := {
      locks   := fun _ => .new 4 2
      data
        | .aggregate _  => ⟨.clear rationals 0, [], []⟩
        | .senderLogger => ⟨.new name, []⟩
      threads := fun _ => .outside .idle })
    ⟨fun _ => rfl, _, ⟨fun _ => ⟨0, rfl⟩, ⟨name, rfl⟩, rfl⟩, rfl⟩ (by decide +kernel)
  have hfree : ∀ l t, ¬y.Inside t l := by
    rintro l t ⟨rest, k, ht⟩
    have hno := hout t
    simp [ht, Thread.isInside] at hno
  obtain ⟨_, _, htold, htracks⟩ := profile_data_locked hr
  exact ⟨y, hr, he, hw, htold 0 (hfree _), htracks (hfree _)⟩

end PipeRT
