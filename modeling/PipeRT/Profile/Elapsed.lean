import PipeRT.Analyzer.Decoded
import PipeRT.Profile.Rested

namespace PipeRT

open PacketDecoder

namespace LogAggregate

variable {D : Type} {F : Double D} {aggregate : LogAggregate D} {t : Time}

-- The aggregate is serialized without failing, and the analyzer reads how much time has passed since it
-- was cleared, whatever type of event stands before it, and whatever comes after it.
def TellsTime (F : Double D) (aggregate : LogAggregate D) (t : Time) : Prop :=
  ∃ written, aggregate.serialize F t = .ok written ∧ ∀ little kw rest, 0 ∉ kw → Utf8.Valid kw →
    ∃ event, getEvent little (kw ++ 0 :: (written ++ rest)) = .ok (event, rest) ∧
      (event.passedTime : Int) = t - aggregate.aggregationStarted

theorem serialize_eq (name : CString) : aggregate.serialize F t =
    if t - aggregate.aggregationStarted < kMaxInt then
      .ok ((aggregate.record F name t).fields F)
    else
      .error .timePassed := by
  rw [serialize, getTimePassedInMicroSecs, ensure]
  split <;> rfl

end LogAggregate

namespace Record

variable {D : Type} {F : Double D} {r : Record D} {little : Bool} {kw rest : List UInt8}

-- The analyzer takes the time that has passed for a number without a sign.
theorem getEvent_fields (hzero : 0 ∉ kw) (hkw : Utf8.Valid kw) :
    ∃ event, getEvent little (kw ++ 0 :: (r.fields F ++ rest)) = .ok (event, rest) ∧
      event.passedTime = (r.passed % 2 ^ 32).toNat := by
  obtain ⟨s, hs⟩ := hkw
  have hlen : 32 ≤ (r.fields F ++ rest).length := by simp
  have hevent : eventOf s (r.fields F ++ rest) = eventOf s (r.fields F) := by
    rw [← eventOf_take, List.take_left' r.length_fields]
  refine ⟨eventOf s (r.fields F), ?_, by rw [eventOf_fields]⟩
  rw [getEvent_eq hzero, decodeUtf8_eq_ok.mpr hs, ok_bind, if_pos hlen, hevent,
    List.drop_left' r.length_fields]

end Record

theorem LogAggregate.tellsTime_iff {D : Type} {F : Double D} {aggregate : LogAggregate D} {t : Time}
    (h : aggregate.aggregationStarted ≤ t) :
    aggregate.TellsTime F t ↔ t - aggregate.aggregationStarted < kMaxInt := by
  refine ⟨fun ⟨written, hw, _⟩ => ?_, fun ht => ?_⟩
  · rw [serialize_eq ⟨0, [], by simp⟩] at hw
    by_contra hn
    rw [if_neg hn] at hw
    contradiction
  · refine ⟨_, (serialize_eq ⟨0, [], by simp⟩).trans (if_pos ht), fun little kw rest hzero hkw => ?_⟩
    obtain ⟨event, hevent, hpassed⟩ :=
      Record.getEvent_fields (r := aggregate.record F ⟨0, [], by simp⟩ t) hzero hkw
    have hnonneg : 0 ≤ t - aggregate.aggregationStarted := sub_nonneg.mpr h
    refine ⟨event, hevent, ?_⟩
    rw [hpassed, record, Int.emod_eq_of_lt hnonneg (ht.trans (by decide)), Int.toNat_of_nonneg hnonneg]

namespace Collector

variable {D : Type} {F : Double D} {y : Collector D} {t t' : Time}

theorem serialized?_eq_some {aggregate : LogAggregate D} : y.serialized? = some aggregate ↔
    ∃ i p name, y.impl.nextProfileData = some i ∧ y.impl.profileData[i]? = some p ∧
      p.data.aggregates[p.data.serializeNext]? = some (name, aggregate) := by
  simp only [serialized?, Option.bind_eq_bind, Option.bind_eq_some_iff, ProfilerImpl.current?_eq_some]
  grind

-- A step that serializes an aggregate.
structure Serializes (y : Collector D) (t : Time) (aggregate : LogAggregate D) : Prop where
  serialized : y.serialized? = some aggregate
  started    : aggregate.aggregationStarted ≤ t
  rested     : ∀ b, y.impl.LeftClearedBy b → aggregate.aggregationStarted ≤ b

theorem Inv.exists_serializes (h : y.Inv F) (hg : y.Guard (.profiler (.record t t'))) :
    ∃ aggregate, y.Serializes t aggregate := by
  have hi := ProfilerImpl.inv h.impl
  obtain ⟨i, p, hn, hat, hp⟩ := ProfilerImpl.exists_current hg.1
  obtain ⟨size, buffer, hc, hgo⟩ := hp.record
  obtain ⟨⟨name, aggregate⟩, hnext⟩ := ProfileData.exists_next (hi.serializeNext_le hat) hgo
  have hinv := Profile.inv <| hi.profiles p (List.mem_of_getElem? hat)
  refine ⟨aggregate, serialized?_eq_some.mpr ⟨i, p, name, hn, hat, hnext⟩, ?_, fun b hb => ?_⟩
  · exact (hinv.counts _ (List.mem_of_getElem? hnext)).2.2.trans hp.1
  · have hdue : p.due = p.data.serializeNext := Profile.due_of_call (by simp [hc])
    exact (hb i hn i p hat).1 rfl _ _ hdue.le hnext

theorem Inv.exists_not_tellsTime (h : y.Inv F) (hg : y.Guard (.profiler (.record t t')))
    (hlate : (y.serialized?.any fun a => decide (t - a.aggregationStarted < kMaxInt)) = false) :
    ∃ aggregate, y.serialized? = some aggregate ∧ ¬aggregate.TellsTime F t := by
  obtain ⟨aggregate, hs⟩ := h.exists_serializes hg
  refine ⟨aggregate, hs.serialized, fun htells => ?_⟩
  have hlt := (LogAggregate.tellsTime_iff hs.started).mp htells
  simp [hs.serialized, hlt] at hlate

end Collector

-- However long the log collector thread sleeps, and whoever calls `GatherNSend`: what is serialized
-- tells the time that has passed if and only if this is less than the greatest `int`. The thread lets at
-- least the aggregation time pass, so that it never does if it sleeps for 2147484 milliseconds or more.
theorem tells_time_iff {D : Type} {F : Double D} {y : Collector D} {t t' : Time}
    (h : (collector F).Reachable (fun _ _ => True) y)
    (hg : (collector F).Guard y (.profiler (.record t t'))) :
    ∃ aggregate, y.serialized? = some aggregate ∧
      (aggregate.TellsTime F t ↔ t - aggregate.aggregationStarted < kMaxInt) ∧
      ((collector F).Reachable Collector.Automatic y → y.workerThread = some (.gathering true) →
        1000 * y.aggregationTimeMsec ≤ t - aggregate.aggregationStarted) := by
  obtain ⟨aggregate, hs⟩ := (Collector.inv h).exists_serializes hg
  refine ⟨aggregate, hs.serialized, LogAggregate.tellsTime_iff hs.started, fun h' hthread => ?_⟩
  obtain ⟨b, hb, hslept⟩ := (Collector.rested h').gathering hthread
  have hstarted := hs.rested b hb
  have hnow : y.now ≤ t := hg.2
  rw [Collector.Slept] at hslept
  linarith

-- A profiler with the data of one channel, and one type of events.
def collectorOf (aggregationTimeMsec : Nat) : Collector ℚ where
  impl           := udpProfiler 508 [dataOf 1]
  manual         := false
  aggregationTimeMsec
  workerShutdown := false
  workerThread   := none
  now            := 5

theorem collectorOf_init {aggregationTimeMsec : Nat} (h : (aggregationTimeMsec : Int) ≤ kMaxInt) :
    (collector rationals).Init (collectorOf aggregationTimeMsec) where
  impl         := udpProfiler_init (by decide) <| by simpa using dataOf_init 1
  clocks p hp  := by
    obtain rfl := List.mem_singleton.mp hp
    exact le_rfl
  manual       := rfl
  accepts      := ⟨aggregationTimeMsec, Int.natCast_nonneg _, h, rfl⟩
  workerThread := rfl

-- The log collector thread gathers, sleeps for that time, and gathers again.
def secondPass (aggregationTimeMsec : Nat) : List (CollectorAction ℚ) :=
  [.start, .loop, .profiler .gather, .profiler (.record 6 7), .profiler .send, .sleep,
    .tick (7 + 1000 * aggregationTimeMsec), .wake, .loop, .profiler .gather]

theorem tells_time_iff_second :
    ∃ y t t', (collector rationals).Reachable Collector.Automatic y ∧ y.aggregationTimeMsec = 1000 ∧
      (collector rationals).Guard y (.profiler (.record t t')) ∧
      ∃ aggregate, y.serialized? = some aggregate ∧ aggregate.TellsTime rationals t ∧
        1000000 ≤ t - aggregate.aggregationStarted := by
  obtain ⟨y, hr, hsetting, hg, hthread, hlt⟩ :=
    Machine.exists_reachable_of_replay (M := collector rationals) (s := collectorOf 1000)
      Collector.Automatic (secondPass 1000)
      (P := fun y => y.aggregationTimeMsec = 1000 ∧
        (collector rationals).Guard y (.profiler (.record 1000008 1000009)) ∧
        y.workerThread = some (.gathering true) ∧
        (y.serialized?.all fun a => decide (1000008 - a.aggregationStarted < kMaxInt)) = true)
      (collectorOf_init (by decide)) (by decide +kernel)
  obtain ⟨aggregate, hs, hiff, hle⟩ := tells_time_iff (hr.mono fun _ _ _ => trivial) hg
  have hle := hle hr hthread
  rw [hsetting] at hle
  refine ⟨y, _, _, hr, hsetting, hg, aggregate, hs, hiff.mpr ?_, hle⟩
  simpa [hs] using hlt

-- The first data of a thread that sleeps for about 36 minutes are told, the next are not. Nor are those
-- that are gathered by hand after as much time.
theorem long_times_fail :
    (∃ y, (collector rationals).Reachable Collector.Automatic y ∧ y.aggregationTimeMsec = 2147484 ∧
      (collector rationals).Guard y (.profiler (.record 2147484008 2147484009)) ∧
      (collector rationals).fault? y (.profiler (.record 2147484008 2147484009)) = some .timePassed ∧
      ∃ aggregate, y.serialized? = some aggregate ∧ ¬aggregate.TellsTime rationals 2147484008) ∧
    ∃ y, (collector rationals).Reachable (fun _ _ => True) y ∧ y.aggregationTimeMsec = 0 ∧
      (collector rationals).Guard y (.profiler (.record 2147484008 2147484009)) ∧
      (collector rationals).fault? y (.profiler (.record 2147484008 2147484009)) = some .timePassed ∧
      ∃ aggregate, y.serialized? = some aggregate ∧ ¬aggregate.TellsTime rationals 2147484008 := by
  refine ⟨?_, ?_⟩
  · obtain ⟨y, hr, hsetting, hg, hfault, hlate⟩ :=
      Machine.exists_reachable_of_replay (M := collector rationals) (s := collectorOf 2147484)
        Collector.Automatic (secondPass 2147484)
        (P := fun y => y.aggregationTimeMsec = 2147484 ∧
          (collector rationals).Guard y (.profiler (.record 2147484008 2147484009)) ∧
          (collector rationals).fault? y (.profiler (.record 2147484008 2147484009)) =
            some .timePassed ∧
          (y.serialized?.any fun a => decide (2147484008 - a.aggregationStarted < kMaxInt)) = false)
        (collectorOf_init (by decide)) (by decide +kernel)
    exact ⟨y, hr, hsetting, hg, hfault, (Collector.inv hr).exists_not_tellsTime hg hlate⟩
  · obtain ⟨y, hr, hsetting, hg, hfault, hlate⟩ :=
      Machine.exists_reachable_of_replay (M := collector rationals) (s := collectorOf 0)
        (fun _ _ => True) [.tick 2147484008, .profiler .gatherNSend, .profiler .gather]
        (P := fun y => y.aggregationTimeMsec = 0 ∧
          (collector rationals).Guard y (.profiler (.record 2147484008 2147484009)) ∧
          (collector rationals).fault? y (.profiler (.record 2147484008 2147484009)) =
            some .timePassed ∧
          (y.serialized?.any fun a => decide (2147484008 - a.aggregationStarted < kMaxInt)) = false)
        (collectorOf_init (by decide)) (by decide +kernel)
    exact ⟨y, hr, hsetting, hg, hfault, (Collector.inv hr).exists_not_tellsTime hg hlate⟩

end PipeRT
