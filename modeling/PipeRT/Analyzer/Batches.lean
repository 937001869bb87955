import PipeRT.Analyzer.Measurements
import PipeRT.Profile.Aggregate

namespace PipeRT

-- An event of the analyzer tells what an aggregate of the values, of which there is at least one,
-- was written as.
def Event.Aggregates (event : Event ℚ) (values : List ℚ) : Prop :=
  values ≠ [] ∧ ∃ (aggregate : LogAggregate ℚ) (name : CString) (t t' : Time) (r : Record ℚ),
    (LogAggregate.clear rationals t).logs rationals values = some aggregate ∧
    r = aggregate.record rationals name t' ∧
    event.logCount = r.logCount ∧ event.passedTime = r.passed ∧
    event.minVal = r.min ∧ event.maxVal = r.max ∧ event.avgVal = r.avg

-- What was logged for a type of event, the oldest event first.
def valuesOf (logged : List (Str × ℚ)) (eventType : Str) : List ℚ :=
  (logged.filter fun event => event.1 = eventType).map Prod.snd

variable {W : Type}

-- What was logged is split into records, type by type.
def Batches (logged : List (Str × ℚ)) (channel : Channel ℚ W) : Prop :=
  ∀ eventType, ∃ chunks, List.Forall₂ Event.Aggregates (channel.getEvent eventType) chunks ∧
    valuesOf logged eventType = chunks.flatten

-- What the measurements should be.
namespace Logged

def drops (logged : List (Str × ℚ)) (eventType : Str) : ℚ :=
  let dropped := (valuesOf logged packetDropped).length
  let count := (valuesOf logged eventType).length
  if dropped = 0 ∧ count = 0 then -1 else if count = 0 then 1 else dropped / count

def mean (logged : List (Str × ℚ)) (eventType : Str) (missing : ℚ) : ℚ :=
  let values := valuesOf logged eventType
  if values = [] then missing else values.sum / values.length

def measures (logged : List (Str × ℚ)) : List ℚ := [
  drops logged executionTime,
  drops logged readTime,
  mean logged executionTime (-1),
  mean logged fillTime 0,
  mean logged readTime 0
]

end Logged

namespace Channel

def computed (channel : Channel ℚ W) : List ℚ := [
  dropRateMeasurement channel,
  dropRatioMeasurement channel,
  executionTimeMeasurement channel,
  fillTimeMeasurement channel,
  readTimeMeasurement channel
]

def logCount (channel : Channel ℚ W) (eventType : Str) : Nat :=
  ((channel.getEvent eventType).map Event.logCount).sum

-- There is nothing to compare, or a record of a drop counts as many events as another one, on average.
def Matches (channel : Channel ℚ W) (eventType : Str) : Prop :=
  channel.getEvent packetDropped = [] ∨ channel.getEvent eventType = [] ∨
    channel.logCount packetDropped * (channel.getEvent eventType).length =
      channel.logCount eventType * (channel.getEvent packetDropped).length

-- The counts of the records are not correlated with their averages.
def Uncorrelated (channel : Channel ℚ W) (eventType : Str) : Prop :=
  (channel.getEvent eventType).length *
      ((channel.getEvent eventType).map fun event : Event ℚ => (event.logCount : ℚ) * event.avgVal).sum =
    channel.logCount eventType * ((channel.getEvent eventType).map Event.avgVal).sum

instance (channel : Channel ℚ W) (eventType : Str) : Decidable (channel.Matches eventType) :=
  inferInstanceAs (Decidable (_ ∨ _ ∨ _))

instance (channel : Channel ℚ W) (eventType : Str) : Decidable (channel.Uncorrelated eventType) :=
  inferInstanceAs (Decidable (_ = _))

structure Even (channel : Channel ℚ W) : Prop where
  executions     : channel.Matches executionTime
  reads          : channel.Matches readTime
  executionTimes : channel.Uncorrelated executionTime
  fillTimes      : channel.Uncorrelated fillTime
  readTimes      : channel.Uncorrelated readTime

end Channel

section

variable {event : Event ℚ} {values : List ℚ} {events : List (Event ℚ)} {chunks : List (List ℚ)}

theorem Event.Aggregates.spec (h : event.Aggregates values) :
    event.logCount = values.length ∧ (event.logCount : ℚ) * event.avgVal = values.sum := by
  obtain ⟨hne, aggregate, name, t, t', r, hlogs, rfl, hcount, _, _, _, havg⟩ := h
  rw [LogAggregate.logs_eq (by simp [LogAggregate.clear, kMaxInt])] at hlogs
  split at hlogs
  case isFalse => contradiction
  case isTrue =>
    obtain rfl := Option.some.inj hlogs
    have htells : (values.foldl (LogAggregate.log rationals) (.clear rationals t)).Tells rationals values :=
      ⟨t, rfl⟩
    have hlen : event.logCount = values.length := by
      rw [LogAggregate.record_logCount, htells.logCount] at hcount
      exact_mod_cast hcount
    refine ⟨hlen, ?_⟩
    have hpos : (values.length : ℚ) ≠ 0 := by simpa using hne
    rw [hlen, havg, LogAggregate.record, LogAggregate.avg_eq hne, mul_div_cancel₀ _ hpos]

theorem sums_of_aggregates (h : List.Forall₂ Event.Aggregates events chunks) :
    (events.map Event.logCount).sum = chunks.flatten.length ∧
      (events.map fun event : Event ℚ => (event.logCount : ℚ) * event.avgVal).sum = chunks.flatten.sum ∧
      (events = [] ↔ chunks.flatten = []) := by
  induction h
  case nil => simp
  case cons event values _ _ he _ ih =>
    obtain ⟨hlen, hsum⟩ := he.spec
    refine ⟨?_, ?_, iff_of_false (by simp) (by simp [he.1])⟩
    · rw [List.map_cons, List.sum_cons, ih.1, hlen, List.flatten_cons, List.length_append]
    · rw [List.map_cons, List.sum_cons, ih.2.1, hsum, List.flatten_cons, List.sum_append]

variable {logged : List (Str × ℚ)} {channel channel' : Channel ℚ W} {eventType : Str}

theorem Batches.logCount (h : Batches logged channel) (eventType : Str) :
    channel.logCount eventType = (valuesOf logged eventType).length ∧
      (channel.logCount eventType = 0 ↔ channel.getEvent eventType = []) := by
  obtain ⟨chunks, hchunks, hvalues⟩ := h eventType
  obtain ⟨hcount, _, hnil⟩ := sums_of_aggregates hchunks
  have hlen : channel.logCount eventType = (valuesOf logged eventType).length := hvalues ▸ hcount
  refine ⟨hlen, ?_⟩
  rw [hlen, List.length_eq_zero_iff, hnil, hvalues]

theorem Batches.drop_iff (h : Batches logged channel) :
    dropMeasurement eventType channel = Logged.drops logged eventType ↔ channel.Matches eventType := by
  obtain ⟨hdropped, hdroppedNil⟩ := h.logCount packetDropped
  obtain ⟨hcount, hcountNil⟩ := h.logCount eventType
  simp only [dropMeasurement, Logged.drops, Channel.Matches, List.length_eq_zero_iff, ← hdropped, ← hcount]
  by_cases hd : channel.getEvent packetDropped = []
  case pos =>
    have hzero := hdroppedNil.mpr hd
    by_cases hc : channel.getEvent eventType = [] <;> simp [hd, hc, hcountNil, hzero]
  case neg =>
    by_cases hc : channel.getEvent eventType = []
    case pos => simp [hd, hc, hcountNil, hdroppedNil]
    case neg =>
      have hlen : ((channel.getEvent eventType).length : ℚ) ≠ 0 := by simpa using hc
      have hpos : (channel.logCount eventType : ℚ) ≠ 0 := by simpa [hcountNil] using hc
      simp only [hd, hc, hcountNil, and_false, if_false, false_or]
      rw [div_eq_div_iff hlen hpos, ← Nat.cast_mul, ← Nat.cast_mul, Nat.cast_inj, eq_comm,
        mul_comm (channel.getEvent packetDropped).length]

theorem Batches.mean_iff (h : Batches logged channel) (missing : ℚ) :
    (if channel.getEvent eventType = [] then missing
      else ((channel.getEvent eventType).map Event.avgVal).sum / (channel.getEvent eventType).length) =
        Logged.mean logged eventType missing ↔ channel.Uncorrelated eventType := by
  obtain ⟨hcount, hcountNil⟩ := h.logCount eventType
  obtain ⟨chunks, hchunks, hvalues⟩ := h eventType
  obtain ⟨_, hsum, _⟩ := sums_of_aggregates hchunks
  rw [← hvalues] at hsum
  simp only [Logged.mean, Channel.Uncorrelated, hsum, ← List.length_eq_zero_iff (l := valuesOf _ _),
    ← hcount, hcountNil]
  by_cases he : channel.getEvent eventType = []
  case pos =>
    have hzero := hcountNil.mpr he
    simp [he, hzero]
  case neg =>
    have hlen : ((channel.getEvent eventType).length : ℚ) ≠ 0 := by simpa using he
    have hpos : (channel.logCount eventType : ℚ) ≠ 0 := by simpa [hcountNil] using he
    simp only [he, if_false]
    rw [div_eq_div_iff hlen hpos, eq_comm, mul_comm, mul_comm _ (channel.logCount eventType : ℚ)]

theorem Batches.executionTime_iff (h : Batches logged channel) :
    executionTimeMeasurement channel = Logged.mean logged executionTime (-1) ↔
      channel.Uncorrelated executionTime := by
  rw [← h.mean_iff (-1), executionTimeMeasurement]
  simp only [List.length_eq_zero_iff]

theorem Batches.average_iff (h : Batches logged channel) :
    averageMeasurement eventType channel = Logged.mean logged eventType 0 ↔
      channel.Uncorrelated eventType := by
  rw [← h.mean_iff 0, averageMeasurement]
  simp only [calcAvg, List.map_eq_nil_iff, List.length_map]
  by_cases he : channel.getEvent eventType = [] <;> simp [he]

theorem Batches.computed_iff (h : Batches logged channel) :
    channel.computed = Logged.measures logged ↔ channel.Even := by
  simp only [Channel.computed, Logged.measures, List.cons.injEq, and_true, dropRateMeasurement,
    dropRatioMeasurement, fillTimeMeasurement, readTimeMeasurement, h.drop_iff, h.executionTime_iff,
    h.average_iff]
  exact ⟨fun h => ⟨h.1, h.2.1, h.2.2.1, h.2.2.2.1, h.2.2.2.2⟩,
    fun h => ⟨h.executions, h.reads, h.executionTimes, h.fillTimes, h.readTimes⟩⟩

end

-- The measurements count the records and take the average of their averages, whatever these count.
theorem computed_eq_iff {logged : List (Str × ℚ)} {channel channel' : Channel ℚ W}
    (h : Batches logged channel) (h' : Batches logged channel') :
    channel.computed = channel'.computed ∧ channel.computed = Logged.measures logged ↔
      channel.Even ∧ channel'.Even := by
  rw [← h.computed_iff, ← h'.computed_iff]
  exact ⟨fun ⟨heq, hm⟩ => ⟨hm, heq ▸ hm⟩, fun ⟨hm, hm'⟩ => ⟨hm.trans hm'.symm, hm⟩⟩

-- The event that stands for an aggregate of some values.
def aggregated (eventType : Str) (values : List ℚ) : Event ℚ :=
  let r := (values.foldl (LogAggregate.log rationals) (.clear rationals 0)).record rationals (nameAt 1) 1
  ⟨['L', 'O', 'G', 'A'] ++ eventType, r.logCount.toNat, r.passed.toNat, r.min, r.max, r.avg⟩

theorem aggregationStarted_foldl {values : List ℚ} {aggregate : LogAggregate ℚ} :
    (values.foldl (LogAggregate.log rationals) aggregate).aggregationStarted =
      aggregate.aggregationStarted := by
  induction values generalizing aggregate
  case nil => rfl
  case cons _ _ ih => exact ih

theorem aggregates_aggregated {eventType : Str} {values : List ℚ} (hne : values ≠ [])
    (hlen : (values.length : Int) ≤ kMaxInt) : (aggregated eventType values).Aggregates values := by
  refine ⟨hne, _, nameAt 1, 0, 1, _, ?_, rfl, ?_, ?_, rfl, rfl, rfl⟩
  · rw [LogAggregate.logs_eq (by simp [LogAggregate.clear, kMaxInt]), if_pos]
    simpa [LogAggregate.clear] using hlen
  · refine Int.toNat_of_nonneg ?_
    rw [LogAggregate.record_logCount, LogAggregate.logCount_foldl]
    simp [LogAggregate.clear]
  · refine Int.toNat_of_nonneg ?_
    simp [LogAggregate.record, aggregationStarted_foldl, LogAggregate.clear]

-- A channel whose records hold the given values.
theorem batches_holding (parts : List (Str × List ℚ))
    (h : ∀ part ∈ parts, part.2 ≠ [] ∧ (part.2.length : Int) ≤ kMaxInt) :
    Batches (parts.flatMap fun part => part.2.map (part.1, ·))
      (holding ['a'] <| parts.map fun part => aggregated part.1 part.2) := by
  intro eventType
  have hevents : (holding ['a'] <| parts.map fun part => aggregated part.1 part.2).getEvent eventType =
      (parts.map fun part => aggregated part.1 part.2).filter fun event => event.getType == eventType := by
    simp [holding, Channel.new, Channel.getEvent]
  rw [hevents]
  refine ⟨(parts.filter fun part => part.1 = eventType).map Prod.snd, ?_, ?_⟩
  · induction parts
    case nil => exact .nil
    case cons part parts ih =>
      obtain ⟨hpart, hparts⟩ := List.forall_mem_cons.mp h
      have hrest := ih hparts <| by simp [holding, Channel.new, Channel.getEvent]
      have htype : ∀ eventType values, (aggregated eventType values).getType = eventType :=
        fun _ _ => rfl
      by_cases he : part.1 = eventType
      case pos =>
        rw [List.map_cons, List.filter_cons_of_pos (by simp [htype, he]),
          List.filter_cons_of_pos (by simp [he])]
        exact .cons (aggregates_aggregated hpart.1 hpart.2) hrest
      case neg => simpa [htype, he] using hrest
  · clear hevents h
    induction parts
    case nil => rfl
    case cons part parts ih =>
      rw [valuesOf] at ih ⊢
      rw [List.flatMap_cons, List.filter_append, List.map_append, ih]
      by_cases he : part.1 = eventType <;> simp [he, List.filter_map, Function.comp_def]

-- Two drops and two executions, each in a record of its own or together.
theorem computed_eq_iff_pairs :
    ∃ (logged : List (Str × ℚ)) (channel channel' : Channel ℚ ℚ), Batches logged channel ∧
      Batches logged channel' ∧ channel.computed = channel'.computed ∧
      channel.computed = Logged.measures logged := by
  have h := batches_holding [(packetDropped, [1]), (packetDropped, [1]), (executionTime, [2]),
    (executionTime, [4])] (by decide +kernel)
  have h' := batches_holding [(packetDropped, [1, 1]), (executionTime, [2, 4])]
    (by decide +kernel)
  refine ⟨_, _, _, h, h', (computed_eq_iff h h').mpr ⟨⟨?_, ?_, ?_, ?_, ?_⟩, ?_, ?_, ?_, ?_, ?_⟩⟩
  all_goals decide +kernel

-- Two drops in one record or in two, and three executions in two records or in three.
theorem batching_shows :
    ∃ (logged : List (Str × ℚ)) (channel channel' : Channel ℚ ℚ), Batches logged channel ∧
      Batches logged channel' ∧ dropRateMeasurement channel = 1 / 2 ∧
      dropRateMeasurement channel' = 2 / 3 ∧ executionTimeMeasurement channel = 7 / 2 ∧
      executionTimeMeasurement channel' = 3 := by
  have h := batches_holding [(packetDropped, [1, 1]), (executionTime, [1, 3]), (executionTime, [5])]
    (by decide +kernel)
  have h' := batches_holding [(packetDropped, [1]), (packetDropped, [1]), (executionTime, [1]),
    (executionTime, [3]), (executionTime, [5])] (by decide +kernel)
  exact ⟨_, _, _, h, h', by decide +kernel, by decide +kernel, by decide +kernel, by decide +kernel⟩

end PipeRT
