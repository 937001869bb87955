import PipeRT.Analyzer.Measurements

namespace PipeRT

-- The least and the greatest of the values in several lists.
section Lists

variable {α β : Type} [LinearOrder β] {f : α → List β} {l : List α}

theorem min?_flatMap : (l.filterMap fun a => (f a).min?).min? = (l.flatMap f).min? := by
  cases h : (l.flatMap f).min?
  case none =>
    rw [List.min?_eq_none_iff, List.flatMap_eq_nil_iff] at h
    rw [List.min?_eq_none_iff, List.filterMap_eq_nil_iff]
    exact fun a ha => List.min?_eq_none_iff.mpr <| h a ha
  case some b =>
    obtain ⟨hm, hle⟩ := List.min?_eq_some_iff.mp h
    obtain ⟨a, ha, hb⟩ := List.mem_flatMap.mp hm
    refine List.min?_eq_some_iff.mpr ⟨?_, fun c hc => ?_⟩
    · refine List.mem_filterMap.mpr ⟨a, ha, List.min?_eq_some_iff.mpr ⟨hb, fun c hc => ?_⟩⟩
      exact hle c <| List.mem_flatMap.mpr ⟨a, ha, hc⟩
    · obtain ⟨a', ha', hc⟩ := List.mem_filterMap.mp hc
      exact hle c <| List.mem_flatMap.mpr ⟨a', ha', (List.min?_eq_some_iff.mp hc).1⟩

theorem max?_flatMap : (l.filterMap fun a => (f a).max?).max? = (l.flatMap f).max? :=
  min?_flatMap (β := βᵒᵈ)

-- The sums of those that are not empty.
theorem sum_filterMap {f : α → List ℚ} {l : List α} :
    (l.filterMap fun a => if f a = [] then none else some (f a).sum).sum = (l.flatMap f).sum ∧
      ((l.filterMap fun a => if f a = [] then none else some (f a).sum) = [] ↔ l.flatMap f = []) := by
  induction l
  case nil => simp
  case cons a l ih =>
    rw [List.filterMap_cons, List.flatMap_cons, List.sum_append, ← ih.1]
    split
    case h_1 h =>
      have hnil : f a = [] := by simpa using h
      simp only [hnil, List.nil_append, List.sum_nil, zero_add, ih.2, true_and]
    case h_2 b h =>
      obtain ⟨hne, rfl⟩ : f a ≠ [] ∧ (f a).sum = b := by simpa using h
      simp [hne]

-- A number that stands for nothing is told apart from those that are not negative.
theorem filter_getD {g : α → Option ℚ} (h : ∀ a ∈ l, ∀ v ∈ g a, 0 ≤ v) :
    (l.map fun a => (g a).getD (-1)).filter (· ≠ -1) = l.filterMap g := by
  induction l
  case nil => rfl
  case cons a l ih =>
    obtain ⟨ha, hl⟩ := List.forall_mem_cons.mp h
    rw [List.map_cons, List.filterMap_cons, List.filter_cons, ih hl]
    cases hg : g a
    case none => simp
    case some v =>
      have hne : v ≠ -1 := by
        have := ha v hg
        linarith
      simp [hne]

end Lists

namespace TotalExecutionTimeRatio

variable {W : Type} {m : ChannelsManager ℚ W}

-- The events of a type in all channels.
def events (m : ChannelsManager ℚ W) (eventType : Str) : List (Event ℚ) :=
  m.channels.flatMap (·.getEvent eventType)

-- The time from the first push to the last retrieval, if there are any.
def pipelineTime (m : ChannelsManager ℚ W) : Option ℚ :=
  match ((events m packetRetrieved).map Event.maxVal).max?,
    ((events m packetPushed).map Event.minVal).min? with
  | some retrieved, some pushed => some (retrieved - pushed)
  | _,              _           => none

def executionTimes (m : ChannelsManager ℚ W) : List ℚ :=
  (events m executionTime).map Event.maxVal

-- The ratio, or the number that stands for none.
def expected (m : ChannelsManager ℚ W) : ℚ :=
  match pipelineTime m with
  | none   => -1
  | some t => if executionTimes m ≠ [] ∧ 0 < t then (executionTimes m).sum / t else -1

-- The events are of channels of the manager, and their numbers are not negative.
def Nonneg (m : ChannelsManager ℚ W) : Prop :=
  ∀ channel ∈ m.channels, ∀ event ∈ channel.events.flatten, 0 ≤ event.minVal ∧ 0 ≤ event.maxVal

theorem Nonneg.of_getEvent (h : Nonneg m) {channel : Channel ℚ W} (hc : channel ∈ m.channels)
    {eventType : Str} {event : Event ℚ} (he : event ∈ channel.getEvent eventType) :
    0 ≤ event.minVal ∧ 0 ≤ event.maxVal :=
  h channel hc event <| List.mem_of_mem_filter he

theorem Nonneg.sum_nonneg (h : Nonneg m) : 0 ≤ (executionTimes m).sum := by
  refine List.sum_nonneg fun v hv => ?_
  obtain ⟨event, he, rfl⟩ := List.mem_map.mp hv
  obtain ⟨channel, hc, he⟩ := List.mem_flatMap.mp he
  exact (h.of_getEvent hc he).2

theorem getPipelineMaximumTotalExecutionTime_eq (h : Nonneg m) :
    getPipelineMaximumTotalExecutionTime m =
      if executionTimes m = [] then -1 else (executionTimes m).sum := by
  have hchannel : ∀ channel : Channel ℚ W, calculateMaxExecutionTime channel =
      (if (channel.getEvent executionTime).map Event.maxVal = [] then none
        else some ((channel.getEvent executionTime).map Event.maxVal).sum).getD (-1) := by
    intro channel
    simp only [calculateMaxExecutionTime, List.length_eq_zero_iff, List.map_eq_nil_iff]
    split <;> rfl
  have hnonneg : ∀ channel ∈ m.channels, ∀ v ∈ (if (channel.getEvent executionTime).map Event.maxVal = []
      then none else some ((channel.getEvent executionTime).map Event.maxVal).sum), 0 ≤ v := by
    intro channel hc v hv
    split at hv
    case isTrue => contradiction
    case isFalse =>
      obtain rfl := Option.some.inj hv
      refine List.sum_nonneg fun v hv => ?_
      obtain ⟨event, he, rfl⟩ := List.mem_map.mp hv
      exact (h.of_getEvent hc he).2
  have htimes : executionTimes m =
      m.channels.flatMap fun channel => (channel.getEvent executionTime).map Event.maxVal := by
    rw [executionTimes, events, List.map_flatMap]
  obtain ⟨hsum, hnil⟩ := sum_filterMap (l := m.channels)
    (f := fun channel => (channel.getEvent executionTime).map Event.maxVal)
  rw [getPipelineMaximumTotalExecutionTime, List.map_congr_left fun channel _ => hchannel channel]
  simp only [filter_getD hnonneg, gt_iff_lt, List.length_pos_iff, ne_eq, hnil, hsum, htimes, ite_not]

theorem getPipelineThrustSpentTime_eq (h : Nonneg m) :
    getPipelineThrustSpentTime m = (pipelineTime m).getD (-2) := by
  have hmin := filter_getD (l := m.channels)
    (g := fun channel => ((channel.getEvent packetPushed).map Event.minVal).min?) fun channel hc v hv => by
      obtain ⟨event, he, rfl⟩ := List.mem_map.mp (List.min?_eq_some_iff.mp hv).1
      exact (h.of_getEvent hc he).1
  have hmax := filter_getD (l := m.channels)
    (g := fun channel => ((channel.getEvent packetRetrieved).map Event.maxVal).max?) fun channel hc v hv => by
      obtain ⟨event, he, rfl⟩ := List.mem_map.mp (List.max?_eq_some_iff.mp hv).1
      exact (h.of_getEvent hc he).2
  have hpushed : ((m.channels.map getMinimumPassedTimeEvent).filter (· ≠ -1)).min? =
      ((events m packetPushed).map Event.minVal).min? := by
    rw [events, List.map_flatMap, ← min?_flatMap, ← hmin]
    rfl
  have hretrieved : ((m.channels.map getMaximumPassedTimeEvent).filter (· ≠ -1)).max? =
      ((events m packetRetrieved).map Event.maxVal).max? := by
    rw [events, List.map_flatMap, ← max?_flatMap, ← hmax]
    rfl
  simp only [getPipelineThrustSpentTime, pipelineTime, hpushed, hretrieved]
  cases ((events m packetRetrieved).map Event.maxVal).max?
  case none => rfl
  case some => cases ((events m packetPushed).map Event.minVal).min? <;> rfl

-- What the measurement should be.
structure Correct (m : ChannelsManager ℚ W) : Prop where
  missing : measure m = -1 ↔ executionTimes m = [] ∨ events m packetPushed = [] ∨
            events m packetRetrieved = [] ∨ ∃ t ∈ pipelineTime m, t ≤ 0
  ratio   : executionTimes m ≠ [] → ∀ t ∈ pipelineTime m, 0 < t →
            measure m = (executionTimes m).sum / t
  nonneg  : measure m = -1 ∨ 0 ≤ measure m

theorem pipelineTime_eq_none_iff :
    pipelineTime m = none ↔ events m packetPushed = [] ∨ events m packetRetrieved = [] := by
  rw [← List.map_eq_nil_iff (f := Event.minVal), ← List.map_eq_nil_iff (f := Event.maxVal),
    ← List.min?_eq_none_iff, ← List.max?_eq_none_iff, pipelineTime]
  cases ((events m packetRetrieved).map Event.maxVal).max?
  case none => simp
  case some => cases ((events m packetPushed).map Event.minVal).min? <;> simp

theorem correct_iff (h : Nonneg m) : Correct m ↔ measure m = expected m := by
  have hsum := h.sum_nonneg
  have hmissing : (executionTimes m = [] ∨ events m packetPushed = [] ∨ events m packetRetrieved = [] ∨
      ∃ t ∈ pipelineTime m, t ≤ 0) ↔
      executionTimes m = [] ∨ pipelineTime m = none ∨ ∃ t ∈ pipelineTime m, t ≤ 0 := by
    rw [pipelineTime_eq_none_iff, or_assoc]
  rw [expected]
  constructor
  case mp =>
    rintro ⟨hm, hr, _⟩
    rw [hmissing] at hm
    cases ht : pipelineTime m
    case none => exact hm.mpr <| .inr <| .inl ht
    case some t =>
      dsimp only
      split
      case isTrue hpos   => exact hr hpos.1 t ht hpos.2
      case isFalse hnpos =>
        rw [not_and_or, not_not, not_lt] at hnpos
        exact hm.mpr <| hnpos.imp id fun hle => .inr ⟨t, ht, hle⟩
  case mpr =>
    intro he
    cases ht : pipelineTime m
    case none =>
      simp only [ht] at he
      refine ⟨iff_of_true he <| hmissing.mpr <| .inr <| .inl ht, by simp [ht], .inl he⟩
    case some t =>
      simp only [ht] at he
      by_cases hpos : executionTimes m ≠ [] ∧ 0 < t
      case pos =>
        rw [if_pos hpos] at he
        have hquot : 0 ≤ measure m := he ▸ div_nonneg hsum hpos.2.le
        refine ⟨iff_of_false (by linarith) ?_, ?_, .inr hquot⟩
        · rw [hmissing]
          simp [ht, hpos.1, hpos.2]
        · intro _ t' ht' _
          obtain rfl := Option.some.inj <| ht.symm.trans ht'
          exact he
      case neg =>
        rw [if_neg hpos] at he
        rw [not_and_or, not_not, not_lt] at hpos
        refine ⟨iff_of_true he <| hmissing.mpr <| hpos.imp id fun hle => .inr ⟨t, ht, hle⟩, ?_, .inl he⟩
        intro hne t' ht' hlt
        obtain rfl := Option.some.inj <| ht.symm.trans ht'
        obtain hnil | hle := hpos
        case inl => contradiction
        case inr => exact absurd hlt hle.not_gt

end TotalExecutionTimeRatio

open TotalExecutionTimeRatio

-- The time of the pipeline is negative or stands for none, or there are no execution times: then a
-- quotient is returned all the same, unless the time is -1 or zero.
theorem ratio_correct_iff {W : Type} {m : ChannelsManager ℚ W} (h : Nonneg m) :
    Correct m ↔
      match pipelineTime m with
      | none   => executionTimes m ≠ [] ∧ (executionTimes m).sum = 2
      | some t =>
        t = 0 ∨ t = -1 ∨ 0 < t ∧ (executionTimes m ≠ [] ∨ t = 1) ∨
          t < 0 ∧ executionTimes m ≠ [] ∧ (executionTimes m).sum = -t := by
  rw [correct_iff h, TotalExecutionTimeRatio.measure, getPipelineThrustSpentTime_eq h,
    getPipelineMaximumTotalExecutionTime_eq h, expected]
  cases pipelineTime m
  case none =>
    by_cases he : executionTimes m = []
    case pos => norm_num [he]
    case neg =>
      have hquot : (executionTimes m).sum / -2 = -1 ↔ (executionTimes m).sum = 2 := by
        rw [div_eq_iff (by norm_num)]
        norm_num
      norm_num [he, hquot]
  case some t =>
    simp only [Option.getD_some]
    by_cases h0 : t = 0
    case pos => norm_num [h0]
    by_cases h1 : t = -1
    case pos => norm_num [h1]
    have hone : ∀ x : ℚ, x / t = -1 ↔ x = -t := by
      intro x
      rw [div_eq_iff h0, neg_one_mul]
    obtain hneg | hpos := lt_or_gt_of_ne h0
    case inl =>
      by_cases he : executionTimes m = []
      case pos =>
        have hne : ¬(-1 : ℚ) = -t := by linarith
        simp [h0, h1, he, hneg.not_gt, hone, hne]
      case neg => simp [h0, h1, he, hneg, hneg.not_gt, hone]
    case inr =>
      by_cases he : executionTimes m = []
      case pos => simp [h0, h1, he, hpos, hpos.not_gt, hone, eq_comm]
      case neg => simp [h0, h1, he, hpos]

instance {W : Type} (m : ChannelsManager ℚ W) : Decidable (Nonneg m) :=
  inferInstanceAs (Decidable (∀ channel ∈ m.channels, ∀ event ∈ channel.events.flatten, _ ∧ _))

theorem ratio_correct_iff_complete :
    ∃ m : ChannelsManager ℚ ℚ, Nonneg m ∧ pipelineTime m = some 4 ∧ Correct m := by
  let m : ChannelsManager ℚ ℚ := ⟨[holding ['a'] [single executionTime 1 2, single packetPushed 1 1,
    single packetRetrieved 3 5]], [], [], false⟩
  have hm : Nonneg m ∧ pipelineTime m = some 4 ∧ executionTimes m = [2] := by decide +kernel
  refine ⟨m, hm.1, hm.2.1, (ratio_correct_iff hm.1).mpr ?_⟩
  rw [hm.2.1, hm.2.2]
  norm_num

-- One execution, and nothing else. Then one push and one retrieval, without any execution.
theorem ratio_not_correct :
    (∃ m : ChannelsManager ℚ ℚ, Nonneg m ∧ TotalExecutionTimeRatio.measure m = -5 / 2 ∧ ¬Correct m) ∧
      ∃ m : ChannelsManager ℚ ℚ, Nonneg m ∧ TotalExecutionTimeRatio.measure m = -1 / 4 ∧ ¬Correct m := by
  let execution : ChannelsManager ℚ ℚ := ⟨[holding ['a'] [single executionTime 5 5]], [], [], false⟩
  let transfer : ChannelsManager ℚ ℚ :=
    ⟨[holding ['a'] [single packetPushed 1 1, single packetRetrieved 3 5]], [], [], false⟩
  have he : Nonneg execution ∧ TotalExecutionTimeRatio.measure execution = -5 / 2 := by decide +kernel
  have ht : Nonneg transfer ∧ TotalExecutionTimeRatio.measure transfer = -1 / 4 := by decide +kernel
  refine ⟨⟨execution, he.1, he.2, fun h => ?_⟩, transfer, ht.1, ht.2, fun h => ?_⟩
  · have hn := h.nonneg
    rw [he.2] at hn
    norm_num at hn
  · have hn := h.nonneg
    rw [ht.2] at hn
    norm_num at hn

end PipeRT
