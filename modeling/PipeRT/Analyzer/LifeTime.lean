import PipeRT.Analyzer.Cycle
import PipeRT.Analyzer.Ratio

namespace PipeRT

-- The body of a loop that never raises.
theorem mapM_eq_ok_map {α β ε : Type} {f : α → Except ε β} {g : α → β} {l : List α}
    (h : ∀ a ∈ l, f a = .ok (g a)) : l.mapM f = .ok (l.map g) := by
  induction l
  case nil => rfl
  case cons a l ih =>
    obtain ⟨ha, hl⟩ := List.forall_mem_cons.mp h
    rw [List.mapM_cons, ha, ih hl]
    rfl

namespace PacketLifeTime

variable {W : Type}

def sumAverageOfEvent (channel : Channel ℚ W) (event : Str) : ℚ :=
  ((channel.getEvent event).map Event.avgVal).sum

def calculateChannelPacketLifeTime (channel : Channel ℚ W) : ℚ :=
  let fillTimeAvg := sumAverageOfEvent channel fillTime
  let readTimeAvg := sumAverageOfEvent channel readTime
  let execTimeAvg := sumAverageOfEvent channel executionTime
  let pushedTimeAvg := sumAverageOfEvent channel packetPushed
  let retrievedTimeAvg := sumAverageOfEvent channel packetRetrieved
  fillTimeAvg + readTimeAvg + execTimeAvg + |retrievedTimeAvg - pushedTimeAvg|

def getItem (channelsPacketLifeTime : List ℚ) (i : Nat) : Except PyError ℚ :=
  match channelsPacketLifeTime[i]? with
  | none   => .error .indexError
  | some t => .ok t

-- The body of the loop, for the channel with the index `i`.
def addTo (measurementKey : Str) (packetCycle : Nat) (channelsPacketLifeTime : List ℚ)
    (totalPacketsLife : ℚ) (i : Nat) (channel : Channel ℚ ℚ) : Except PyError (Channel ℚ ℚ) := do
  let packetLifeTime ← (if totalPacketsLife ≠ 0 then do
    let t ← getItem channelsPacketLifeTime i
    return t / totalPacketsLife * 100
  else
    .ok 0)
  return channel.addMeasure measurementKey (packetCycle, packetLifeTime)

-- This class has a `run` of its own, and no `_measure`.
def run (measurementKey : Str) (packetCycle : Nat) (m : ChannelsManager ℚ ℚ) :
    Except PyError (Nat × ChannelsManager ℚ ℚ) := do
  let channelsPacketLifeTime := m.channels.map calculateChannelPacketLifeTime
  let totalPacketsLife := channelsPacketLifeTime.sum
  let channels ← m.channels.zipIdx.mapM fun entry =>
    addTo measurementKey packetCycle channelsPacketLifeTime totalPacketsLife entry.2 entry.1
  return (packetCycle + 1, { m with channels })

def total (m : ChannelsManager ℚ W) : ℚ :=
  (m.channels.map calculateChannelPacketLifeTime).sum

-- The part that a channel has in the life of all packets.
def share (m : ChannelsManager ℚ W) (channel : Channel ℚ W) : ℚ :=
  if total m ≠ 0 then calculateChannelPacketLifeTime channel / total m * 100 else 0

-- The same as a measurement like all others.
def measurement (measurementKey : Str) (packetCycle : Nat) : ChannelMeasurement ℚ ℚ where
  measurementKey
  packetCycle
  measure m channel := .ok <| share m channel

variable {m : ChannelsManager ℚ W} {channel : Channel ℚ W}

theorem calculate_bare : calculateChannelPacketLifeTime channel.bare = calculateChannelPacketLifeTime channel :=
  rfl

theorem total_bare : total m.bare = total m := by
  rw [total, ChannelsManager.bare, List.map_map]
  rfl

theorem share_bare : share m.bare channel.bare = share m channel := by
  rw [share, total_bare, calculate_bare, share]

-- What both ways of measuring make of the channels.
def measured (measurementKey : Str) (packetCycle : Nat) (m : ChannelsManager ℚ ℚ) : ChannelsManager ℚ ℚ :=
  { m with channels := m.channels.map fun c => c.addMeasure measurementKey (packetCycle, share m c) }

theorem run_eq (measurementKey : Str) (packetCycle : Nat) (m : ChannelsManager ℚ ℚ) :
    run measurementKey packetCycle m = .ok (packetCycle + 1, measured measurementKey packetCycle m) := by
  have hbody : ∀ entry ∈ m.channels.zipIdx,
      addTo measurementKey packetCycle (m.channels.map calculateChannelPacketLifeTime) (total m) entry.2 entry.1 =
        .ok (entry.1.addMeasure measurementKey (packetCycle, share m entry.1)) := by
    intro entry he
    have hi := List.mem_zipIdx_iff_getElem?.mp he
    by_cases ht : total m = 0
    case pos => simp [addTo, ht, share]
    case neg => simp [addTo, ht, share, getItem, hi]
  have hmap : m.channels.zipIdx.map (fun entry => entry.1.addMeasure measurementKey (packetCycle, share m entry.1)) =
      (measured measurementKey packetCycle m).channels := by
    refine Eq.trans ?_ <| congrArg (List.map fun c => c.addMeasure measurementKey (packetCycle, share m c)) <|
      List.zipIdx_map_fst 0 m.channels
    rw [List.map_map]
    rfl
  rw [run, ← total, mapM_eq_ok_map hbody, hmap]
  rfl

theorem measurement_run_eq (measurementKey : Str) (packetCycle : Nat) (m : ChannelsManager ℚ ℚ) :
    (measurement measurementKey packetCycle).run m =
      .ok (measurement measurementKey (packetCycle + 1), measured measurementKey packetCycle m) := by
  have hadd : ∀ c ∈ m.channels, (measurement measurementKey packetCycle).addTo m.bare c =
      .ok (c.addMeasure measurementKey (packetCycle, share m c)) := by
    intro c _
    simp only [ChannelMeasurement.addTo, measurement, share_bare, ok_bind, pure_eq_ok]
  rw [ChannelMeasurement.run, mapM_eq_ok_map hadd]
  rfl

-- All shares are a hundred percent, unless nobody has one.
theorem sum_share (m : ChannelsManager ℚ W) :
    (m.channels.map (share m)).sum = if total m = 0 then 0 else 100 := by
  by_cases ht : total m = 0
  case pos =>
    have hzero : share m = fun _ => 0 := funext fun c => by simp [share, ht]
    simp [hzero, ht]
  case neg =>
    have hshare : share m = fun c => calculateChannelPacketLifeTime c * (100 / total m) := by
      funext c
      rw [share, if_pos ht, div_mul_eq_mul_div, mul_div_assoc]
    rw [hshare, if_neg ht, List.sum_map_mul_right, ← total, mul_div_cancel₀ _ ht]

-- The averages are of events with values that are not negative.
def Nonneg (m : ChannelsManager ℚ W) : Prop :=
  ∀ c ∈ m.channels, ∀ event ∈ c.events.flatten, 0 ≤ event.avgVal

theorem Nonneg.calculate (h : Nonneg m) (hc : channel ∈ m.channels) :
    0 ≤ calculateChannelPacketLifeTime channel := by
  have hsum : ∀ event, 0 ≤ sumAverageOfEvent channel event := by
    intro event
    refine List.sum_nonneg fun v hv => ?_
    obtain ⟨e, he, rfl⟩ := List.mem_map.mp hv
    exact h channel hc e <| List.mem_of_mem_filter he
  rw [calculateChannelPacketLifeTime]
  exact add_nonneg (add_nonneg (add_nonneg (hsum _) (hsum _)) (hsum _)) (abs_nonneg _)

theorem Nonneg.le_total (h : Nonneg m) (hc : channel ∈ m.channels) :
    calculateChannelPacketLifeTime channel ≤ total m := by
  refine List.single_le_sum (fun t ht => ?_) _ <| List.mem_map_of_mem hc
  obtain ⟨c, hc, rfl⟩ := List.mem_map.mp ht
  exact h.calculate hc

theorem Nonneg.share_mem (h : Nonneg m) (hc : channel ∈ m.channels) :
    0 ≤ share m channel ∧ share m channel ≤ 100 := by
  have hnonneg := h.calculate hc
  have hle := h.le_total hc
  rw [share]
  split
  case isFalse => exact ⟨le_rfl, by norm_num⟩
  case isTrue =>
    refine ⟨mul_nonneg (div_nonneg hnonneg (hnonneg.trans hle)) (by norm_num), ?_⟩
    have hdiv := div_le_one_of_le₀ hle (hnonneg.trans hle)
    linarith

end PacketLifeTime

open PacketLifeTime

-- The measurement of the life time of packets never raises and does what a measurement like all others
-- would do that looks at one channel at a time. What it finds is in proportion to the life times, and
-- sums up to a hundred percent unless there is no life time at all, for numbers that are not rounded.
theorem life_times_shared (measurementKey : Str) (packetCycle : Nat) (m : ChannelsManager ℚ ℚ) :
    ∃ (m' : ChannelsManager ℚ ℚ) (values : List ℚ),
      PacketLifeTime.run measurementKey packetCycle m = .ok (packetCycle + 1, m') ∧
      (measurement measurementKey packetCycle).run m =
        .ok (measurement measurementKey (packetCycle + 1), m') ∧
      m'.bare = m.bare ∧
      m'.channels.map (fun c => c.getMeasure (some measurementKey)) = values.map Except.ok ∧
      List.Forall₂ (fun c value => value * total m = 100 * calculateChannelPacketLifeTime c ∨ total m = 0)
        m.channels values ∧
      values.sum = (if total m = 0 then 0 else 100) ∧
      (Nonneg m → (∀ value ∈ values, 0 ≤ value ∧ value ≤ 100) ∧
        (total m = 0 ↔ ∀ c ∈ m.channels, calculateChannelPacketLifeTime c = 0)) := by
  refine ⟨measured measurementKey packetCycle m, m.channels.map (share m), run_eq .., measurement_run_eq ..,
    ?bare, ?found, ?proportion, sum_share m, fun hn => ⟨?between, ?none⟩⟩
  case bare =>
    rw [measured, ChannelsManager.bare, ChannelsManager.bare, List.map_map]
    rfl
  case found =>
    rw [measured, List.map_map, List.map_map]
    refine List.map_congr_left fun c _ => ?_
    exact Channel.getMeasure_eq Dict.add_self
  case proportion =>
    refine List.forall₂_map_right_iff.mpr <| List.forall₂_same.mpr fun c _ => ?_
    by_cases ht : total m = 0
    case pos => exact .inr ht
    case neg =>
      rw [share, if_pos ht, mul_right_comm, div_mul_cancel₀ _ ht, mul_comm]
      exact .inl rfl
  case between =>
    intro value hv
    obtain ⟨c, hc, rfl⟩ := List.mem_map.mp hv
    exact hn.share_mem hc
  case none =>
    refine ⟨fun ht c hc => ?_, fun hall => ?_⟩
    · exact le_antisymm (ht ▸ hn.le_total hc) (hn.calculate hc)
    · exact List.sum_eq_zero fun t ht => by
        obtain ⟨c, hc, rfl⟩ := List.mem_map.mp ht
        exact hall c hc

end PipeRT
