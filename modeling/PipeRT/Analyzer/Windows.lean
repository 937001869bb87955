import PipeRT.Analyzer.Cycle

namespace PipeRT

variable {V W : Type}

-- What the server has got through: the packets that it received, and what the measurements of the
-- cycles looked at.
inductive Seen where
  | packet (packet : Packet (BitVec 64))
  | cycle (m : ChannelsManager (BitVec 64) Empty)

namespace Seen

-- The packets since the last cycle.
def since (log : List Seen) : List (Packet (BitVec 64)) :=
  log.foldl (fun packets seen =>
    match seen with
    | packet p => packets ++ [p]
    | cycle _  => []) []

def cycles (log : List Seen) : List (ChannelsManager (BitVec 64) Empty) :=
  log.filterMap fun
    | packet _ => none
    | cycle m  => some m

-- The events that the packets have for a channel.
def arrived (name : Str) (packets : List (Packet (BitVec 64))) : List (Event (BitVec 64)) :=
  (packets.filter fun packet => packet.receiver = name).flatMap Packet.events

-- The points of the last `n` cycles, if there is a value in them.
def points (value : ChannelsManager (BitVec 64) Empty → Option W) (n : Nat) (log : List Seen) :
    List (Nat × W) :=
  (((cycles log).zipIdx 1).drop ((cycles log).length - n)).filterMap fun c => (value c.1).map (c.2, ·)

section

variable {log : List Seen} {p : Packet (BitVec 64)} {m : ChannelsManager (BitVec 64) Empty}
variable {packets : List (Packet (BitVec 64))} {name : Str} {n : Nat}
variable {value : ChannelsManager (BitVec 64) Empty → Option W}

@[simp]
theorem since_packet : since (log ++ [packet p]) = since log ++ [p] := by
  rw [since, List.foldl_concat, ← since]

@[simp]
theorem since_cycle : since (log ++ [cycle m]) = [] := by
  rw [since, List.foldl_concat]

@[simp]
theorem cycles_packet : cycles (log ++ [packet p]) = cycles log := by
  simp [cycles]

@[simp]
theorem cycles_cycle : cycles (log ++ [cycle m]) = cycles log ++ [m] := by
  simp [cycles]

theorem arrived_concat :
    arrived name (packets ++ [p]) = arrived name packets ++ if p.receiver = name then p.events else [] := by
  rw [arrived, List.filter_append, List.flatMap_append, ← arrived]
  by_cases h : p.receiver = name <;> simp [h]

theorem arrived_eq_nil (h : ∀ p ∈ packets, p.receiver ≠ name) : arrived name packets = [] := by
  rw [arrived, List.filter_eq_nil_iff.mpr fun p hp => by simpa using h p hp]
  rfl

@[simp]
theorem points_packet : points value n (log ++ [packet p]) = points value n log := by
  rw [points, cycles_packet, ← points]

theorem points_zero : points value 0 log = [] := by
  rw [points, Nat.sub_zero, List.drop_eq_nil_of_le (by simp)]
  rfl

theorem points_cycle : points value (n + 1) (log ++ [cycle m]) =
    points value n log ++ ((value m).map ((cycles log).length + 1, ·)).toList := by
  rw [points, cycles_cycle, List.length_append, List.length_singleton, Nat.add_sub_add_right,
    List.zipIdx_append, List.drop_append_of_le_length (by simp), List.filterMap_append, ← points]
  cases hv : value m <;> simp [hv, Nat.add_comm]

theorem points_eq_nil (h : ∀ m ∈ cycles log, value m = none) : points value n log = [] := by
  rw [points, List.filterMap_eq_nil_iff]
  intro c hc
  rw [h c.1 <| List.fst_mem_of_mem_zipIdx <| List.mem_of_mem_drop hc]
  rfl

-- The cycles are numbered from one on.
theorem numbers_eq (log : List Seen) (n : Nat) :
    (((cycles log).zipIdx 1).drop ((cycles log).length - n)).map Prod.snd =
      .range' (1 + ((cycles log).length - n)) ((cycles log).length - ((cycles log).length - n)) := by
  rw [List.map_drop, List.zipIdx_map_snd, List.drop_range', Nat.mul_one]

theorem mem_points {point : Nat × W} (h : point ∈ points value n log) :
    (cycles log).length - n < point.1 ∧ point.1 ≤ (cycles log).length := by
  obtain ⟨c, hc, hv⟩ := List.mem_filterMap.mp h
  obtain ⟨v, _, rfl⟩ := Option.map_eq_some_iff.mp hv
  have hm := List.mem_map_of_mem (f := Prod.snd) hc
  rw [numbers_eq, List.mem_range'_1] at hm
  omega

theorem nodup_points : ((points value n log).map Prod.fst).Nodup := by
  have hd := numbers_eq log n ▸ List.nodup_range'
  rw [List.Nodup, List.pairwise_map] at hd ⊢
  rw [points, List.pairwise_filterMap]
  refine hd.imp fun hne p hp p' hp' => ?_
  obtain ⟨_, _, rfl⟩ := Option.map_eq_some_iff.mp hp
  obtain ⟨_, _, rfl⟩ := Option.map_eq_some_iff.mp hp'
  exact hne

end
end Seen

namespace Channel

-- What a packet does to the channel `c`, or what it makes of nothing.
structure Takes (packet : Packet V) (c : Option (Channel V W)) (c' : Channel V W) : Prop where
  name     : ∀ a ∈ c, c'.name = a.name
  events   : c'.events.flatten = (c.elim [] fun a => a.events.flatten) ++
             if packet.receiver = c'.name then packet.events else []
  measures : c'.measures = c.elim (fun _ => none) Channel.measures

end Channel

namespace ChannelsManager

variable {m : ChannelsManager V W} {packet : Packet V} {packetId : Int} {c c' : Channel V W}
variable {channels : List (Channel V W)}

theorem takes_addTo (hn : (channels.map Channel.name).Nodup)
    (hc : c' ∈ addTo packet.receiver packet.events packetId channels) :
    (∃ c ∈ channels, Channel.Takes packet (some c) c') ∨
      (c'.name = packet.receiver ∧ c'.name ∉ channels.map Channel.name ∧ Channel.Takes packet none c') := by
  induction channels
  case nil =>
    obtain rfl := List.mem_singleton.mp hc
    exact .inr ⟨rfl, List.not_mem_nil, nofun, by simp [Channel.new], rfl⟩
  case cons channel channels ih =>
    obtain ⟨hnew, hn⟩ := List.nodup_cons.mp hn
    rw [addTo] at hc
    split at hc
    case isTrue hr =>
      cases List.mem_cons.mp hc
      case inl hc =>
        subst hc
        refine .inl ⟨channel, List.mem_cons_self, by simp [Channel.addEvents, Channel.setLatestPacketId], ?_, rfl⟩
        simp [Channel.addEvents, Channel.setLatestPacketId, hr]
      case inr hc =>
        have hne : packet.receiver ≠ c'.name := fun he => hnew <| hr ▸ he ▸ List.mem_map_of_mem hc
        exact .inl ⟨c', List.mem_cons_of_mem _ hc, by simp, by simp [hne], rfl⟩
    case isFalse hr =>
      cases List.mem_cons.mp hc
      case inl hc =>
        subst hc
        exact .inl ⟨c', List.mem_cons_self, by simp, by simp [Ne.symm hr], rfl⟩
      case inr hc =>
        obtain ⟨c, hc, ht⟩ | ⟨hname, hc, ht⟩ := ih hn hc
        case inl => exact .inl ⟨c, List.mem_cons_of_mem _ hc, ht⟩
        case inr =>
          refine .inr ⟨hname, fun hm => ?_, ht⟩
          cases List.mem_cons.mp hm
          case inl hm => exact hr <| hm.symm.trans hname
          case inr hm => exact hc hm

theorem mem_addToChannelsMap {receiver sender : Str} {pushedPacketCnt : Nat}
    (hc : c' ∈ (m.addToChannelsMap receiver sender pushedPacketCnt).channels) :
    c' ∈ m.channels ∨ (sender ∉ m.names ∧ c' = .new sender [] (-1)) := by
  by_cases h : pushedPacketCnt = 0 ∨ sender = notAvailable
  case pos =>
    rw [addToChannelsMap, if_pos h] at hc
    exact .inl hc
  case neg =>
    rw [addToChannelsMap, if_neg h, if_neg (not_or.mp h).2, addToChannelsMap.addEdge] at hc
    by_cases hs : sender ∈ m.names
    case pos =>
      simp only [hs, if_true] at hc
      split at hc
      all_goals exact .inl hc
    case neg =>
      simp only [hs, if_false] at hc
      have hc : c' ∈ m.channels ++ [.new sender [] (-1)] := by
        split at hc
        all_goals exact hc
      exact (List.mem_append.mp hc).imp_right fun hc => ⟨hs, List.mem_singleton.mp hc⟩

theorem takes_addPacket (hn : m.names.Nodup) (hc : c' ∈ (m.addPacket packet packetId).channels) :
    (∃ c ∈ m.channels, Channel.Takes packet (some c) c') ∨
      (c'.name ∉ m.names ∧ Channel.Takes packet none c') := by
  cases mem_addToChannelsMap hc
  case inl hc => exact (takes_addTo hn hc).imp_right And.right
  case inr hc =>
    obtain ⟨hs, rfl⟩ := hc
    have hnames : (m.addReceiver packet.receiver packet.events packetId).names =
        addNew m.names packet.receiver := names_addTo
    rw [hnames, mem_addNew, not_or] at hs
    exact .inr ⟨hs.1, nofun, by simp [Channel.new, Ne.symm hs.2], rfl⟩

end ChannelsManager

-- The value of the channel of the given name, if there is one.
def ChannelMeasurement.valueIn (measure : ChannelsManager V Empty → Channel V Empty → Except PyError W)
    (name : Str) (m : ChannelsManager V Empty) : Option W :=
  (m.channels.find? fun channel => channel.name = name).bind fun channel => (measure m channel).toOption

section ValueIn

open ChannelMeasurement

variable {measure : ChannelsManager V Empty → Channel V Empty → Except PyError W} {value : W}
variable {m : ChannelsManager V W} {c : Channel V W} {name : Str}

theorem find?_name {channels : List (Channel V W)} (hn : (channels.map Channel.name).Nodup)
    (hc : c ∈ channels) : channels.find? (fun channel => channel.name = c.name) = some c := by
  induction channels
  case nil => contradiction
  case cons channel channels ih =>
    obtain ⟨hnew, hn⟩ := List.nodup_cons.mp hn
    cases List.mem_cons.mp hc
    case inl hc => simp [hc]
    case inr hc =>
      have hne : channel.name ≠ c.name := fun he => hnew <| he ▸ List.mem_map_of_mem hc
      rw [List.find?_cons_of_neg (by simpa using hne), ih hn hc]

theorem valueIn_eq (hn : m.names.Nodup) (hc : c ∈ m.channels)
    (hv : measure m.bare c.bare = .ok value) : valueIn measure c.name m.bare = some value := by
  rw [← ChannelsManager.names_bare] at hn
  have hfind : m.bare.channels.find? (fun channel => channel.name = c.name) = some c.bare :=
    find?_name hn <| List.mem_map_of_mem hc
  rw [valueIn, hfind, Option.bind_some, hv]
  rfl

theorem valueIn_eq_none {m : ChannelsManager V Empty} (hn : name ∉ m.names) : valueIn measure name m = none := by
  rw [valueIn, List.find?_eq_none.mpr, Option.bind_none]
  intro c hc
  have hne : c.name ≠ name := fun he => hn <| he ▸ List.mem_map_of_mem hc
  simpa using hne

end ValueIn

namespace AnalyzerServer

-- What a step tells.
def seen (little : Bool) (config : Config W) (y : AnalyzerServer W) : ServerAction → List Seen
  | .compare      =>
    if y.flagsCounter = config.packetsCycleThreshold then [.cycle y.channelsManager.bare] else []
  | .receive data =>
    match packetOf little data with
    | .ok packet => [.packet packet]
    | .error _   => []

-- What the state of the server has to do with what it has got through.
structure Inv (config : Config W) (log : List Seen) (y : AnalyzerServer W) : Prop where
  knows                : ∃ as, y.channelsManager.Knows as
  flagsCounter         : y.flagsCounter = (Seen.since log).length
  below                : y.flagsCounter ≤ config.packetsCycleThreshold
  waiting              : y.receiving = true → y.flagsCounter ≠ config.packetsCycleThreshold
  receivers            : ∀ packet ∈ Seen.since log, packet.receiver ∈ y.channelsManager.names
  events               : ∀ c ∈ y.channelsManager.channels,
                         c.events.flatten = Seen.arrived c.name (Seen.since log)
  names                : ∀ m ∈ Seen.cycles log, m.names ⊆ y.channelsManager.names
  measuresCounter      : y.measuresCounter % 10 = (Seen.cycles log).length % 10
  few                  : y.measuresCounter ≤ 10
  channelMeasurements  : y.measurementManager.channelMeasurements =
                         ChannelMeasurement.inCycle ((Seen.cycles log).length + 1) config.channelMeasurements
  pipelineMeasurements : y.measurementManager.pipelineMeasurements =
                         PipelineMeasurement.inCycle ((Seen.cycles log).length + 1) config.pipelineMeasurements
  channelPoints        : ∀ c ∈ y.channelsManager.channels, ∀ measurement ∈ config.channelMeasurements,
                         (c.measures measurement.1).getD [] =
                           Seen.points (ChannelMeasurement.valueIn measurement.2 c.name) y.measuresCounter log
  channelOthers        : ∀ c ∈ y.channelsManager.channels, ∀ key,
                         key ∉ config.channelMeasurements.map Prod.fst → c.measures key = none
  pipelinePoints       : ∀ measurement ∈ config.pipelineMeasurements,
                         (y.measurementManager.pipelineMeasurementsDict measurement.1).getD [] =
                           Seen.points (fun m => (measurement.2 m).toOption) y.measuresCounter log
  pipelineOthers       : ∀ key, key ∉ config.pipelineMeasurements.map Prod.fst →
                         y.measurementManager.pipelineMeasurementsDict key = none

section

variable {config : Config W} {log : List Seen} {y y' : AnalyzerServer W}
variable {packet : Packet (BitVec 64)}

theorem Inv.new : (new config).Inv config [] where
  knows                := ⟨[], rfl, List.nodup_nil, rfl, nofun⟩
  flagsCounter         := rfl
  below                := Nat.zero_le _
  waiting              := nofun
  receivers            := nofun
  events               := nofun
  names                := nofun
  measuresCounter      := rfl
  few                  := Nat.zero_le _
  channelMeasurements  := rfl
  pipelineMeasurements := rfl
  channelPoints        := nofun
  channelOthers        := nofun
  pipelinePoints _ _   := rfl
  pipelineOthers _ _   := rfl

theorem Inv.receive (h : y.Inv config log) (hr : y.receiving = true) : Inv config (log ++ [.packet packet])
    { y with
      channelsManager := y.channelsManager.addPacket packet y.packetsCount
      packetsCount    := y.packetsCount + 1
      flagsCounter    := y.flagsCounter + 1
      receiving       := false } := by
  obtain ⟨as, hk⟩ := h.knows
  have ha := ChannelsManager.adds y.channelsManager packet y.packetsCount
  have hsub := ha.prefix_names.subset
  have htakes : ∀ c' ∈ (y.channelsManager.addPacket packet y.packetsCount).channels,
      (∃ c ∈ y.channelsManager.channels, Channel.Takes packet (some c) c') ∨
        (c'.name ∉ y.channelsManager.names ∧ Channel.Takes packet none c') :=
    fun _ hc' => ChannelsManager.takes_addPacket hk.nodup hc'
  have hunknown : ∀ name, name ∉ y.channelsManager.names → Seen.arrived name (Seen.since log) = [] :=
    fun name hn => Seen.arrived_eq_nil fun p hp he => hn <| he ▸ h.receivers p hp
  constructor
  case knows => exact ⟨as ++ [.addPacket packet y.packetsCount], hk.addPacket ha⟩
  case flagsCounter => simp [h.flagsCounter]
  case below => exact Nat.lt_of_le_of_ne h.below <| h.waiting hr
  case waiting => exact nofun
  case receivers =>
    rw [Seen.since_packet, List.forall_mem_append]
    refine ⟨fun p hp => hsub <| h.receivers p hp, List.forall_mem_singleton.mpr ?_⟩
    rw [ha.names]
    obtain he | he := ChannelsManager.edges_cases packet
    all_goals simp [he, mem_addNew]
  case events =>
    intro c' hc'
    rw [Seen.since_packet, Seen.arrived_concat]
    obtain ⟨c, hc, ht⟩ | ⟨hn, ht⟩ := htakes c' hc'
    case inl =>
      rw [ht.events, ht.name c rfl, Option.elim_some, h.events c hc]
    case inr => rw [ht.events, hunknown c'.name hn, Option.elim_none]
  case names =>
    rw [Seen.cycles_packet]
    exact fun m hm name hname => hsub <| h.names m hm hname
  case measuresCounter => rw [Seen.cycles_packet, h.measuresCounter]
  case few => exact h.few
  case channelMeasurements => rw [Seen.cycles_packet, h.channelMeasurements]
  case pipelineMeasurements => rw [Seen.cycles_packet, h.pipelineMeasurements]
  case channelPoints =>
    intro c' hc' measurement hm
    rw [Seen.points_packet]
    obtain ⟨c, hc, ht⟩ | ⟨hn, ht⟩ := htakes c' hc'
    case inl =>
      rw [ht.measures, Option.elim_some, ht.name c rfl]
      exact h.channelPoints c hc measurement hm
    case inr =>
      rw [ht.measures, Seen.points_eq_nil fun m hm => valueIn_eq_none fun hmem => hn <| h.names m hm hmem]
      rfl
  case channelOthers =>
    intro c' hc' key hkey
    obtain ⟨c, hc, ht⟩ | ⟨_, ht⟩ := htakes c' hc'
    all_goals rw [ht.measures]
    case inl => exact h.channelOthers c hc key hkey
    case inr => rfl
  case pipelinePoints =>
    intro measurement hm
    rw [Seen.points_packet]
    exact h.pipelinePoints measurement hm
  case pipelineOthers => exact h.pipelineOthers

-- The events of the cycle are gone, and its points are there.
theorem Inv.cycled (h : y.Inv config log) (hr : y.receiving = false) (hlt : y.measuresCounter < 10)
    (hc : Cycled ((Seen.cycles log).length + 1) config y y') :
    y'.Inv config (log ++ [.cycle y.channelsManager.bare]) := by
  obtain ⟨as, hk⟩ := h.knows
  have hn := hc.names
  constructor
  case knows => exact ⟨as, hk.congr hn hc.naChannels hc.channelsMap⟩
  case flagsCounter => rw [Seen.since_cycle, hc.flagsCounter, List.length_nil]
  case below => exact hc.flagsCounter ▸ Nat.zero_le _
  case waiting => exact fun hr' => absurd (hc.receiving.symm.trans hr') <| Bool.eq_false_iff.mp hr
  case receivers =>
    rw [Seen.since_cycle]
    exact nofun
  case events =>
    intro c' hc'
    obtain ⟨_, _, _, _, _, he, _⟩ := hc.channels c' hc'
    rw [Seen.since_cycle, he]
    rfl
  case names =>
    rw [Seen.cycles_cycle, List.forall_mem_append, List.forall_mem_singleton, ChannelsManager.names_bare, hn]
    exact ⟨h.names, List.Subset.refl _⟩
  case measuresCounter =>
    rw [Seen.cycles_cycle, List.length_append, List.length_singleton, hc.measuresCounter, Nat.add_mod,
      h.measuresCounter, ← Nat.add_mod]
  case few => exact hc.measuresCounter ▸ hlt
  case channelMeasurements =>
    rw [Seen.cycles_cycle, List.length_append, List.length_singleton, hc.channelMeasurements]
  case pipelineMeasurements =>
    rw [Seen.cycles_cycle, List.length_append, List.length_singleton, hc.pipelineMeasurements]
  case channelPoints =>
    intro c' hc' measurement hm
    obtain ⟨c, hcm, c₁, hg, hname, _, hmeasures⟩ := hc.channels c' hc'
    obtain ⟨value, hv, hpoints⟩ := hg.points measurement hm
    rw [hmeasures, hname, hpoints, hc.measuresCounter, Seen.points_cycle, valueIn_eq hk.nodup hcm hv,
      h.channelPoints c hcm measurement hm]
    rfl
  case channelOthers =>
    intro c' hc' key hkey
    obtain ⟨c, hcm, c₁, hg, _, _, hmeasures⟩ := hc.channels c' hc'
    rw [hmeasures, hg.others key hkey, h.channelOthers c hcm key hkey]
  case pipelinePoints =>
    intro measurement hm
    obtain ⟨value, hv, hpoints⟩ := hc.points measurement hm
    rw [hpoints, hc.measuresCounter, Seen.points_cycle, hv, h.pipelinePoints measurement hm]
    rfl
  case pipelineOthers =>
    intro key hkey
    rw [hc.others key hkey, h.pipelineOthers key hkey]

theorem Inv.sendMeasurement {rdp : List (Nat × W) → List (Nat × W)} (h : y.Inv config log)
    (hten : y.measuresCounter = 10) :
    Inv config log { y.sendMeasurement rdp with measuresCounter := 0 } := by
  have hnames : (y.sendMeasurement rdp).channelsManager.names = y.channelsManager.names := by
    simp [AnalyzerServer.sendMeasurement, ChannelsManager.getChannelsMeasures, ChannelsManager.names,
      Channel.getAllMeasures]
  have hchannels : ∀ c' ∈ (y.sendMeasurement rdp).channelsManager.channels,
      ∃ c ∈ y.channelsManager.channels, c' = (c.getAllMeasures rdp).2 := by
    intro c' hc'
    obtain ⟨c, hc, rfl⟩ := List.mem_map.mp hc'
    exact ⟨c, hc, rfl⟩
  obtain ⟨as, hk⟩ := h.knows
  constructor
  case knows => exact ⟨as, hk.congr hnames rfl rfl⟩
  case flagsCounter => exact h.flagsCounter
  case below => exact h.below
  case waiting => exact h.waiting
  case receivers => exact hnames ▸ h.receivers
  case events =>
    intro c' hc'
    obtain ⟨c, hc, rfl⟩ := hchannels c' hc'
    exact h.events c hc
  case names => exact hnames ▸ h.names
  case measuresCounter =>
    have hmod := h.measuresCounter
    rw [hten, Nat.mod_self] at hmod
    exact (Nat.zero_mod 10).trans hmod
  case few => exact Nat.zero_le _
  case channelMeasurements => exact h.channelMeasurements
  case pipelineMeasurements => exact h.pipelineMeasurements
  case channelPoints =>
    intro c' hc' measurement _
    obtain ⟨c, hc, rfl⟩ := hchannels c' hc'
    change ((c.measures measurement.1).map fun _ => []).getD [] = Seen.points _ 0 _
    rw [Seen.points_zero]
    cases c.measures measurement.1 <;> rfl
  case channelOthers =>
    intro c' hc' key hkey
    obtain ⟨c, hc, rfl⟩ := hchannels c' hc'
    change (c.measures key).map (fun _ => []) = none
    rw [h.channelOthers c hc key hkey, Option.map_none]
  case pipelinePoints =>
    intro measurement _
    change ((y.measurementManager.pipelineMeasurementsDict measurement.1).map fun _ => []).getD [] =
      Seen.points _ 0 _
    rw [Seen.points_zero]
    cases y.measurementManager.pipelineMeasurementsDict measurement.1 <;> rfl
  case pipelineOthers =>
    intro key hkey
    change (y.measurementManager.pipelineMeasurementsDict key).map (fun _ => []) = none
    rw [h.pipelineOthers key hkey, Option.map_none]

theorem Inv.wait (h : y.Inv config log) (hne : y.flagsCounter ≠ config.packetsCycleThreshold) :
    Inv config log { y with receiving := true } :=
  { h with waiting := fun _ => hne }

section Run

variable [LT W] [DecidableLT W] {little : Bool} {rdp : List (Nat × W) → List (Nat × W)}
variable (hT : 0 < config.packetsCycleThreshold)
variable (hk : (config.channelMeasurements.map Prod.fst).Nodup)
variable (hk' : (config.pipelineMeasurements.map Prod.fst).Nodup)
include hT hk hk'

-- After the cycle, the measures are sent if it is time for them.
theorem Inv.due (h : y.Inv config log) (hr : y.receiving = false) (hlt : y.measuresCounter < 10)
    (he : y.cycle rdp config = .ok y') :
    ∃ y₁, Cycled ((Seen.cycles log).length + 1) config y y₁ ∧
      y₁.Inv config (log ++ [.cycle y.channelsManager.bare]) ∧
      y' = (if y₁.measuresCounter = 10 then { y₁.sendMeasurement rdp with measuresCounter := 0 } else y₁) ∧
      Inv config (log ++ [.cycle y.channelsManager.bare]) { y' with receiving := true } ∧
      y'.measuresCounter < 10 := by
  obtain ⟨y₁, hc, rfl⟩ := cycle_spec hk hk' h.channelMeasurements h.pipelineMeasurements he
  have hi := h.cycled hr hlt hc
  have hne : y₁.flagsCounter ≠ config.packetsCycleThreshold := hc.flagsCounter ▸ hT.ne
  refine ⟨y₁, hc, hi, rfl, ?_⟩
  split
  case isTrue hten => exact ⟨(hi.sendMeasurement hten).wait hne, Nat.zero_lt_succ 9⟩
  case isFalse hten => exact ⟨hi.wait hne, Nat.lt_of_le_of_ne hi.few hten⟩

variable {ok : AnalyzerServer W → ServerAction → Prop} {y₀ : AnalyzerServer W} {as : List ServerAction}

theorem inv_of_run (hi : (analyzerServer little rdp config).Init y₀)
    (r : (analyzerServer little rdp config).Run ok y₀ as y) :
    Inv config ((analyzerServer little rdp config).trace (seen little config) y₀ as) y ∧
      y.measuresCounter < 10 := by
  refine Machine.Run.trace_invariant (I := fun log y => Inv config log y ∧ y.measuresCounter < 10) r
    (fun log y a y' h _ e => ?_) ?_
  case refine_2 =>
    obtain rfl := hi
    exact ⟨.new, Nat.zero_lt_succ 9⟩
  case refine_1 =>
    obtain ⟨hinv, hlt⟩ := h
    have he := e.exec
    cases a
    case compare =>
      obtain ⟨y₁, hcycle, he⟩ := bind_eq_ok.mp he
      obtain rfl := Except.ok.inj he
      rw [seen]
      split at hcycle
      case isTrue hd =>
        rw [if_pos hd]
        obtain ⟨_, _, _, _, hinv', hlt'⟩ := hinv.due hT hk hk' e.guard hlt hcycle
        exact ⟨hinv', hlt'⟩
      case isFalse hd =>
        rw [if_neg hd, List.append_nil]
        obtain rfl := Except.ok.inj hcycle
        exact ⟨hinv.wait hd, hlt⟩
    case receive data =>
      obtain ⟨packet, hp, he⟩ := bind_eq_ok.mp he
      obtain rfl := Except.ok.inj he
      rw [seen, hp]
      exact ⟨hinv.receive e.guard, hlt⟩

end Run

-- What is visible in a cycle: the events of the packets since the last one.
structure Visible (config : Config W) (log : List Seen) (m : ChannelsManager (BitVec 64) W) : Prop where
  packets   : (Seen.since log).length = config.packetsCycleThreshold
  names     : m.names.Nodup
  receivers : ∀ packet ∈ Seen.since log, packet.receiver ∈ m.names
  events    : ∀ c ∈ m.channels, c.events.flatten = Seen.arrived c.name (Seen.since log)

-- What is sent of the measures of the last ten cycles.
structure Batch (rdp : List (Nat × W) → List (Nat × W)) (config : Config W) (log : List Seen)
    (names : List Str) (dicts : List (Str × Dict (List (Option W)))) (dict : Dict (List (Option W))) :
    Prop where
  names    : dicts.map Prod.fst = names
  channels : ∀ entry ∈ dicts, ∀ measurement ∈ config.channelMeasurements, ∃ retPoints,
             entry.2 measurement.1 = some retPoints ∧
             Shows (rdp <| Seen.points (ChannelMeasurement.valueIn measurement.2 entry.1) 10 log) retPoints
  pipeline : ∀ measurement ∈ config.pipelineMeasurements, ∃ retPoints,
             dict measurement.1 = some retPoints ∧
             Shows (rdp <| Seen.points (fun m => (measurement.2 m).toOption) 10 log) retPoints

-- The posts of a cycle.
structure Posts (rdp : List (Nat × W) → List (Nat × W)) (config : Config W) (log : List Seen)
    (names : List Str) (posts : List (Post W)) : Prop where
  none  : (Seen.cycles log).length % 10 ≠ 0 →
          posts.filterMap Post.measures? = [] ∧ posts.filterMap Post.pipelineMeasures? = []
  batch : (Seen.cycles log).length % 10 = 0 → ∃ dicts dict, Batch rdp config log names dicts dict ∧
          posts.filterMap Post.measures? = [dicts] ∧ posts.filterMap Post.pipelineMeasures? = [dict]

section Batch

variable {rdp : List (Nat × W) → List (Nat × W)} {n : Nat} {y₁ : AnalyzerServer W}

theorem shows_points (hrdp : ∀ points, (rdp points).Sublist points)
    (value : ChannelsManager (BitVec 64) Empty → Option W) (hn : 10 ≤ (Seen.cycles log).length) :
    Shows (rdp <| Seen.points value 10 log)
      (reducePointsNExtractYAxis rdp <| Seen.points value 10 log) :=
  shows_reduce (n := (Seen.cycles log).length - 10) (hrdp _) Seen.nodup_points fun point hp => by
    have hp := Seen.mem_points hp
    omega

theorem batch_of_cycled (hrdp : ∀ points, (rdp points).Sublist points) (hc : Cycled n config y y₁)
    (h : y₁.Inv config log) (hten : y₁.measuresCounter = 10) (hn : 10 ≤ (Seen.cycles log).length) :
    Batch rdp config log y.channelsManager.names (y₁.channelsManager.getChannelsMeasures rdp).1
      (y₁.measurementManager.getPipelineMeasurements rdp).1 := by
  constructor
  case names =>
    rw [← hc.names]
    simp [ChannelsManager.getChannelsMeasures, ChannelsManager.names]
  case channels =>
    intro entry he measurement hm
    obtain ⟨c', hc', rfl⟩ := List.mem_map.mp he
    obtain ⟨_, _, _, hg, _, _, hmeasures⟩ := hc.channels c' hc'
    obtain ⟨_, _, hsome⟩ := hg.points measurement hm
    have hpoints := h.channelPoints c' hc' measurement hm
    rw [hmeasures, hsome, Option.getD_some, hten] at hpoints
    refine ⟨_, ?_, shows_points hrdp _ hn⟩
    change (c'.measures measurement.1).map _ = _
    rw [hmeasures, hsome, hpoints, Option.map_some]
  case pipeline =>
    intro measurement hm
    obtain ⟨_, _, hsome⟩ := hc.points measurement hm
    have hpoints := h.pipelinePoints measurement hm
    rw [hsome, Option.getD_some, hten] at hpoints
    refine ⟨_, ?_, shows_points hrdp _ hn⟩
    change (y₁.measurementManager.pipelineMeasurementsDict measurement.1).map _ = _
    rw [hsome, hpoints, Option.map_some]

theorem posts_of_cycled (hrdp : ∀ points, (rdp points).Sublist points) (hc : Cycled n config y y₁)
    (h : y₁.Inv config log) (hlen : Seen.cycles log ≠ []) :
    ∃ posts, Posts rdp config log y.channelsManager.names posts ∧
      (if y₁.measuresCounter = 10 then { y₁.sendMeasurement rdp with measuresCounter := 0 } else y₁).sent =
        y.sent ++ posts := by
  obtain ⟨posts, hsent, hposts, hposts'⟩ := hc.sent
  have hmod := h.measuresCounter
  have hfew := h.few
  have hpos := hc.measuresCounter
  by_cases hten : y₁.measuresCounter = 10
  case neg =>
    rw [if_neg hten]
    exact ⟨posts, ⟨fun _ => ⟨hposts, hposts'⟩, fun _ => by omega⟩, hsent⟩
  case pos =>
    rw [if_pos hten]
    have hn : 10 ≤ (Seen.cycles log).length := by
      have := List.length_pos_iff.mpr hlen
      omega
    refine ⟨posts ++ [.measures (y₁.channelsManager.getChannelsMeasures rdp).1,
      .pipelineMeasures (y₁.measurementManager.getPipelineMeasurements rdp).1],
      ⟨fun _ => by omega, fun _ => ⟨_, _, batch_of_cycled hrdp hc h hten hn, ?_, ?_⟩⟩, ?_⟩
    case refine_1 =>
      rw [List.filterMap_append, hposts]
      rfl
    case refine_2 =>
      rw [List.filterMap_append, hposts']
      rfl
    case refine_3 =>
      rw [← List.append_assoc, ← hsent]
      rfl

end Batch

-- The measurements return, for every channel.
structure Returns (config : Config W) (y : AnalyzerServer W) : Prop where
  channels : ∀ measurement ∈ config.channelMeasurements, ∀ c ∈ y.channelsManager.channels,
             ∃ value, measurement.2 y.channelsManager.bare c.bare = .ok value
  pipeline : ∀ measurement ∈ config.pipelineMeasurements,
             ∃ value, measurement.2 y.channelsManager.bare = .ok value

theorem Inv.visible (h : y.Inv config log) (hdue : y.flagsCounter = config.packetsCycleThreshold) :
    Visible config log y.channelsManager where
  packets   := h.flagsCounter.symm.trans hdue
  names     := h.knows.elim fun _ hk => hk.nodup
  receivers := h.receivers
  events    := h.events

-- A checker finds the point of the cycle it runs in.
theorem Inv.getMeasure (h : y.Inv config log) (hk : (config.channelMeasurements.map Prod.fst).Nodup)
    {manager : MeasurementManager (BitVec 64) W} {m : ChannelsManager (BitVec 64) W}
    (hrun : y.measurementManager.run y.channelsManager = .ok (manager, m)) :
    ∀ c ∈ m.channels, ∀ key ∈ config.channelMeasurements.map Prod.fst, ∃ points value,
      c.measures key = some (points ++ [((Seen.cycles log).length + 1, value)]) ∧
      c.getMeasure (some key) = .ok value := by
  obtain ⟨⟨_, m₁⟩, hchannels, hrun⟩ := bind_eq_ok.mp hrun
  obtain ⟨⟨_, _⟩, _, hrun⟩ := bind_eq_ok.mp hrun
  obtain ⟨rfl, rfl⟩ := Prod.mk.inj <| Except.ok.inj hrun
  rw [h.channelMeasurements] at hchannels
  obtain ⟨_, _, hgained⟩ := ChannelMeasurement.runAll_spec hk hchannels
  intro c hc key hkey
  obtain ⟨measurement, hm, rfl⟩ := List.mem_map.mp hkey
  obtain ⟨_, _, hg⟩ := hgained c hc
  obtain ⟨value, _, hpoints⟩ := hg.points measurement hm
  exact ⟨_, value, hpoints, Channel.getMeasure_eq hpoints⟩

end
end AnalyzerServer

open AnalyzerServer

-- A cycle sees the events since the last one and nothing else, its checkers find its points, and the
-- measures of every ten cycles are sent with every point in its place.
theorem windows_exact [LT W] [DecidableLT W] {little : Bool} {rdp : List (Nat × W) → List (Nat × W)}
    {config : Config W} {ok : AnalyzerServer W → ServerAction → Prop} {y₀ y : AnalyzerServer W}
    {as : List ServerAction} (hT : 0 < config.packetsCycleThreshold)
    (hk : (config.channelMeasurements.map Prod.fst).Nodup)
    (hk' : (config.pipelineMeasurements.map Prod.fst).Nodup)
    (hrdp : ∀ points, (rdp points).Sublist points)
    (hi : (analyzerServer little rdp config).Init y₀)
    (r : (analyzerServer little rdp config).Run ok y₀ as y) :
    let log := (analyzerServer little rdp config).trace (seen little config) y₀ as
    (∀ a y', (analyzerServer little rdp config).Step y a y' →
      (a = .compare → y.flagsCounter ≠ config.packetsCycleThreshold) → y'.sent = y.sent) ∧
    (y.receiving = false → y.flagsCounter = config.packetsCycleThreshold →
      Visible config log y.channelsManager ∧
      (∀ manager m, y.measurementManager.run y.channelsManager = .ok (manager, m) →
        ∀ c ∈ m.channels, ∀ key ∈ config.channelMeasurements.map Prod.fst, ∃ points value,
          c.measures key = some (points ++ [((Seen.cycles log).length + 1, value)]) ∧
          c.getMeasure (some key) = .ok value) ∧
      (y.Returns config →
        (∀ checker ∈ config.checkers, checker.Configured <| config.channelMeasurements.map Prod.fst) →
        ∃ y', (analyzerServer little rdp config).Step y .compare y') ∧
      ∀ y', (analyzerServer little rdp config).Step y .compare y' →
        (∀ c ∈ y'.channelsManager.channels, c.events = []) ∧
        ∃ posts, y'.sent = y.sent ++ posts ∧
          Posts rdp config (log ++ [.cycle y.channelsManager.bare]) y.channelsManager.names posts) := by
  intro log
  obtain ⟨hinv, hlt⟩ := inv_of_run hT hk hk' hi r
  refine ⟨fun a y' e hnot => ?_, fun hr hdue => ⟨hinv.visible hdue, fun manager m hrun => ?_, fun hv hc => ?_,
    fun y' e => ?_⟩⟩
  case refine_1 =>
    have he := e.exec
    cases a
    case compare =>
      obtain ⟨_, hcycle, he⟩ := bind_eq_ok.mp he
      rw [if_neg (hnot rfl)] at hcycle
      obtain rfl := Except.ok.inj hcycle
      obtain rfl := Except.ok.inj he
      rfl
    case receive data =>
      obtain ⟨_, _, he⟩ := bind_eq_ok.mp he
      obtain rfl := Except.ok.inj he
      rfl
  case refine_2 => exact hinv.getMeasure hk hrun
  case refine_3 =>
    obtain ⟨as', hknows⟩ := hinv.knows
    have hcycle : ∃ y', y.cycle rdp config = .ok y' :=
      cycle_eq_ok hknows hk hinv.channelMeasurements hinv.pipelineMeasurements hv.channels hv.pipeline hc
    obtain ⟨y', he⟩ := hcycle
    refine ⟨{ y' with receiving := true }, hr, ?_⟩
    change AnalyzerServer.exec little rdp config y .compare = _
    rw [AnalyzerServer.exec, if_pos hdue, he]
    rfl
  case refine_4 =>
    obtain ⟨y'', hcycle, he⟩ := bind_eq_ok.mp e.exec
    rw [if_pos hdue] at hcycle
    obtain rfl := Except.ok.inj he
    obtain ⟨y₁, hc, hinv₁, rfl, _⟩ := hinv.due hT hk hk' hr hlt hcycle
    obtain ⟨posts, hposts, hsent⟩ := posts_of_cycled hrdp hc hinv₁ (by simp)
    refine ⟨fun c hcm => ?_, posts, hsent, hposts⟩
    have hnone : ∀ c ∈ y₁.channelsManager.channels, c.events = [] := by
      intro c hcm
      obtain ⟨_, _, _, _, _, he, _⟩ := hc.channels c hcm
      exact he
    split at hcm
    case isTrue =>
      obtain ⟨c₁, hc₁, rfl⟩ := List.mem_map.mp hcm
      exact hnone c₁ hc₁
    case isFalse => exact hnone c hcm

-- "DGRP", "B", "SENDA" and "DGRP" again, so that there are no events.
def emptyPacket : List UInt8 :=
  [68, 71, 82, 80, 66, 0, 83, 69, 78, 68, 65, 0, 68, 71, 82, 80]

-- As many cycles, if there is one for every packet.
def cyclesOf (n : Nat) : List ServerAction :=
  .compare :: (List.replicate n [.receive emptyPacket, .compare]).flatten

-- What is left of points on a line.
def lineEnds : List (Nat × Nat) → List (Nat × Nat)
  | first :: second :: points => [first, points.getLastD second]
  | points                    => points

theorem lineEnds_sublist (points : List (Nat × Nat)) : (lineEnds points).Sublist points := by
  rw [lineEnds.eq_def]
  split
  case h_1 => exact .cons_cons _ <| List.singleton_sublist.mpr <| List.getLastD_mem_cons ..
  case h_2 => exact .refl _

-- A cycle for every packet, and a measurement that is always 5.
def constantConfig : Config Nat where
  packetsCycleThreshold := 1
  channelMeasurements   := [(['M'], fun _ _ => .ok 5)]
  pipelineMeasurements  := []
  checkers              := [.frozen, .dropRateChecker (some ['M']) fun _ => some 3]

theorem windows_exact_tenth :
    ∃ (y y' : AnalyzerServer Nat) (log : List Seen) (dicts : List (Str × Dict (List (Option Nat)))),
      (analyzerServer true lineEnds constantConfig).Step y .compare y' ∧ (Seen.cycles log).length = 10 ∧
      (∃ posts, y'.sent = y.sent ++ posts ∧ posts.filterMap Post.measures? = [dicts]) ∧
      ∃ dict, Batch lineEnds constantConfig log [['B']] dicts dict := by
  have hrun : ((analyzerServer true lineEnds constantConfig).replay (fun _ _ => True) (.new constantConfig)
      (cyclesOf 9 ++ [.receive emptyPacket])).any (fun y => decide
        (y.receiving = false ∧ y.flagsCounter = 1 ∧ y.channelsManager.names = [['B']])) = true := by
    decide +kernel
  have hcycles : (Seen.cycles <| (analyzerServer true lineEnds constantConfig).trace (seen true constantConfig)
      (.new constantConfig) (cyclesOf 9 ++ [.receive emptyPacket])).length = 9 := by
    decide +kernel
  obtain ⟨y, hy, hp⟩ := (Option.any_eq_true ..).mp hrun
  obtain ⟨hr, hdue, hnames⟩ := of_decide_eq_true hp
  have hinit : (analyzerServer true lineEnds constantConfig).Init (.new constantConfig) := rfl
  obtain ⟨_, hall⟩ := windows_exact (by decide) (by decide) (by decide) lineEnds_sublist hinit
    (Machine.run_of_replay hy)
  obtain ⟨_, _, hok, hposts⟩ := hall hr hdue
  have hreturns : y.Returns constantConfig :=
    ⟨by simp [constantConfig], by simp [constantConfig]⟩
  obtain ⟨y', e⟩ := hok hreturns <| by simp [constantConfig, Checker.dropRateChecker, Checker.Configured]
  obtain ⟨_, posts, hsent, hbatch⟩ := hposts y' e
  have hten : (Seen.cycles <| (analyzerServer true lineEnds constantConfig).trace (seen true constantConfig)
      (.new constantConfig) (cyclesOf 9 ++ [.receive emptyPacket]) ++ [.cycle y.channelsManager.bare]).length = 10 := by
    rw [Seen.cycles_cycle, List.length_append, hcycles]
    rfl
  obtain ⟨dicts, dict, hb, hmeasures, _⟩ := hbatch.batch <| by rw [hten]
  exact ⟨y, y', _, dicts, e, hten, ⟨posts, hsent, hmeasures⟩, dict, hnames ▸ hb⟩

-- Two measurements of a channel with the same key.
def twinConfig : Config Nat where
  packetsCycleThreshold := 1
  channelMeasurements   := [(['M'], fun _ _ => .ok 0), (['M'], fun _ _ => .ok 100)]
  pipelineMeasurements  := []
  checkers              := []

-- Two measurements of the pipeline with the same key.
def pipelineTwinConfig : Config Nat where
  packetsCycleThreshold := 1
  channelMeasurements   := []
  pipelineMeasurements  := [(['P'], fun _ => .ok 0), (['P'], fun _ => .ok 100)]
  checkers              := []

-- A checker that looks for a measurement of the pipeline.
def strayConfig : Config Nat where
  packetsCycleThreshold := 1
  channelMeasurements   := [(['M'], fun _ _ => .ok 5)]
  pipelineMeasurements  := [(['P'], fun _ => .ok 7)]
  checkers              := [.dropRateChecker (some ['P']) fun _ => some 3]

-- Measurements with the same key hide each other's points, and a checker needs the key of a measurement
-- of channels.
theorem twins_collide :
    (∃ (y : AnalyzerServer Nat) (entry : Str × Dict (List (Option Nat))) (retPoints : List (Option Nat)),
      (analyzerServer true id twinConfig).Run (fun _ _ => True) (.new twinConfig) (cyclesOf 10) y ∧
      y.sent.filterMap Post.measures? = [[entry]] ∧ entry.2 ['M'] = some retPoints ∧
      ∃ measurement ∈ twinConfig.channelMeasurements,
        ¬Shows (id <| Seen.points (ChannelMeasurement.valueIn measurement.2 entry.1) 10 <|
          (analyzerServer true id twinConfig).trace (seen true twinConfig) (.new twinConfig) (cyclesOf 10))
          retPoints) ∧
    (∃ (y : AnalyzerServer Nat) (dict : Dict (List (Option Nat))) (retPoints : List (Option Nat)),
      (analyzerServer true id pipelineTwinConfig).Run (fun _ _ => True) (.new pipelineTwinConfig)
        (cyclesOf 10) y ∧
      y.sent.filterMap Post.pipelineMeasures? = [dict] ∧ dict ['P'] = some retPoints ∧
      ∃ measurement ∈ pipelineTwinConfig.pipelineMeasurements,
        ¬Shows (id <| Seen.points (fun m => (measurement.2 m).toOption) 10 <|
          (analyzerServer true id pipelineTwinConfig).trace (seen true pipelineTwinConfig)
            (.new pipelineTwinConfig) (cyclesOf 10)) retPoints) ∧
    ∃ (y : AnalyzerServer Nat) (r : MeasurementManager (BitVec 64) Nat × ChannelsManager (BitVec 64) Nat),
      (analyzerServer true id strayConfig).Run (fun _ _ => True) (.new strayConfig)
        [.compare, .receive emptyPacket] y ∧
      y.flagsCounter = strayConfig.packetsCycleThreshold ∧ y.Returns strayConfig ∧
      y.measurementManager.run y.channelsManager = .ok r ∧
      (∃ c ∈ r.2.channels, c.getMeasure (some ['P']) = .error .typeError) ∧
      (analyzerServer true id strayConfig).fault? y .compare = some .typeError := by
  refine ⟨?channels, ?pipeline, ?checker⟩
  case channels =>
    have hrun : ((analyzerServer true id twinConfig).replay (fun _ _ => True) (.new twinConfig)
        (cyclesOf 10)).any (fun y => decide ((y.sent.filterMap Post.measures?).map (fun dicts =>
          dicts.map fun entry => (entry.1, entry.2 ['M'])) = [[(['B'], some <| .replicate 10 (some 100))]])) = true := by
      decide +kernel
    have hpoints : (1, 0) ∈ Seen.points (ChannelMeasurement.valueIn (fun _ _ => .ok 0) ['B']) 10
        ((analyzerServer true id twinConfig).trace (seen true twinConfig) (.new twinConfig) (cyclesOf 10)) := by
      decide +kernel
    obtain ⟨y, hy, hp⟩ := (Option.any_eq_true ..).mp hrun
    obtain ⟨dicts, hsent, hdicts⟩ := List.map_eq_singleton_iff.mp <| of_decide_eq_true hp
    obtain ⟨entry, rfl, hentry⟩ := List.map_eq_singleton_iff.mp hdicts
    obtain ⟨hname, hdict⟩ := Prod.mk.inj hentry
    refine ⟨y, entry, _, Machine.run_of_replay hy, hsent, hdict, _, List.mem_cons_self, fun hs => ?_⟩
    have hshown := hs.shown (1, 0) <| hname ▸ hpoints
    simp at hshown
  case pipeline =>
    have hrun : ((analyzerServer true id pipelineTwinConfig).replay (fun _ _ => True) (.new pipelineTwinConfig)
        (cyclesOf 10)).any (fun y => decide ((y.sent.filterMap Post.pipelineMeasures?).map (fun dict => dict ['P']) =
          [some <| .replicate 10 (some 100)])) = true := by
      decide +kernel
    have hpoints : (1, 0) ∈ Seen.points (fun _ => (Except.ok 0 : Except PyError Nat).toOption) 10
        ((analyzerServer true id pipelineTwinConfig).trace (seen true pipelineTwinConfig)
          (.new pipelineTwinConfig) (cyclesOf 10)) := by
      decide +kernel
    obtain ⟨y, hy, hp⟩ := (Option.any_eq_true ..).mp hrun
    obtain ⟨dict, hsent, hdict⟩ := List.map_eq_singleton_iff.mp <| of_decide_eq_true hp
    refine ⟨y, dict, _, Machine.run_of_replay hy, hsent, hdict, _, List.mem_cons_self, fun hs => ?_⟩
    have hshown := hs.shown (1, 0) hpoints
    simp at hshown
  case checker =>
    have hrun : ((analyzerServer true id strayConfig).replay (fun _ _ => True) (.new strayConfig)
        [.compare, .receive emptyPacket]).any (fun y => decide (y.flagsCounter = 1 ∧
          (analyzerServer true id strayConfig).fault? y .compare = some .typeError ∧
          ((y.measurementManager.run y.channelsManager).toOption.any fun r =>
            r.2.channels.any fun c => c.getMeasure (some ['P']) = .error .typeError) = true)) = true := by
      decide +kernel
    obtain ⟨y, hy, hp⟩ := (Option.any_eq_true ..).mp hrun
    obtain ⟨hdue, hfault, hm⟩ := of_decide_eq_true hp
    have hreturns : y.Returns strayConfig := ⟨by simp [strayConfig], by simp [strayConfig]⟩
    cases hmeasured : y.measurementManager.run y.channelsManager
    case error => simp [hmeasured, Except.toOption] at hm
    case ok r =>
      obtain ⟨c, hc, hmeasure⟩ : ∃ c ∈ r.2.channels, c.getMeasure (some ['P']) = .error .typeError := by
        simpa [hmeasured, Except.toOption] using hm
      exact ⟨y, r, Machine.run_of_replay hy, hdue, hreturns, hmeasured, ⟨c, hc, hmeasure⟩, hfault⟩

end PipeRT
