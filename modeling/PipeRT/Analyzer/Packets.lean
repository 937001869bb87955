import PipeRT.Analyzer.Observed

namespace PipeRT

variable {V W : Type}

namespace ChannelsManager

-- What becomes of the channels when a packet is added.
inductive Added (m : ChannelsManager V W) (packet : Packet V) (packetId : Int) : Channel V W → Prop
  | kept {c} : c ∈ m.channels → c.name ≠ packet.receiver → Added m packet packetId c
  | received {c} : c ∈ m.channels → c.name = packet.receiver →
    Added m packet packetId ((c.addEvents packet.events).setLatestPacketId packetId)
  | new : packet.receiver ∉ m.names →
    Added m packet packetId (.new packet.receiver packet.events packetId)
  | sender {name} : name ∉ m.names → name ≠ packet.receiver → Added m packet packetId (.new name [] (-1))

variable {m : ChannelsManager V W} {packet : Packet V} {packetId : Int} {c c' : Channel V W}
variable {channels : List (Channel V W)}

theorem mem_addTo (hn : (channels.map Channel.name).Nodup)
    (hc : c' ∈ addTo packet.receiver packet.events packetId channels) :
    (c' ∈ channels ∧ c'.name ≠ packet.receiver) ∨
    (∃ c ∈ channels, c.name = packet.receiver ∧
      c' = (c.addEvents packet.events).setLatestPacketId packetId) ∨
    (packet.receiver ∉ channels.map Channel.name ∧ c' = .new packet.receiver packet.events packetId) := by
  induction channels
  case nil =>
    obtain rfl := List.mem_singleton.mp hc
    exact .inr <| .inr ⟨List.not_mem_nil, rfl⟩
  case cons channel channels ih =>
    obtain ⟨hnew, hn⟩ := List.nodup_cons.mp hn
    rw [addTo] at hc
    split at hc
    case isTrue hr =>
      cases List.mem_cons.mp hc
      case inl hc => exact .inr <| .inl ⟨channel, List.mem_cons_self, hr, hc⟩
      case inr hc =>
        refine .inl ⟨List.mem_cons_of_mem _ hc, fun he => hnew ?_⟩
        exact hr ▸ he ▸ List.mem_map_of_mem hc
    case isFalse hr =>
      cases List.mem_cons.mp hc
      case inl hc => exact .inl ⟨hc ▸ List.mem_cons_self, hc ▸ hr⟩
      case inr hc =>
        obtain ⟨hc, hne⟩ | ⟨c, hc, hname, he⟩ | ⟨hc, he⟩ := ih hn hc
        case inl     => exact .inl ⟨List.mem_cons_of_mem _ hc, hne⟩
        case inr.inl => exact .inr <| .inl ⟨c, List.mem_cons_of_mem _ hc, hname, he⟩
        case inr.inr =>
          refine .inr <| .inr ⟨fun hm => ?_, he⟩
          cases List.mem_cons.mp hm
          case inl hm => exact hr hm.symm
          case inr hm => exact hc hm

theorem added (hn : m.names.Nodup) (hc : c' ∈ (m.addPacket packet packetId).channels) :
    Added m packet packetId c' := by
  cases mem_addToChannelsMap hc
  case inl hc =>
    obtain ⟨hc, hne⟩ | ⟨c, hm, hname, rfl⟩ | ⟨hnew, rfl⟩ := mem_addTo hn hc
    case inl     => exact .kept hc hne
    case inr.inl => exact .received hm hname
    case inr.inr => exact .new hnew
  case inr hc =>
    obtain ⟨hs, rfl⟩ := hc
    have hnames : (m.addReceiver packet.receiver packet.events packetId).names =
        addNew m.names packet.receiver := names_addTo
    rw [hnames, mem_addNew, not_or] at hs
    exact .sender hs.1 hs.2

theorem nodup_addPacket (hn : m.names.Nodup) : (m.addPacket packet packetId).names.Nodup := by
  rw [(adds m packet packetId).names]
  obtain he | he := edges_cases packet
  all_goals rw [he]
  case inl => exact nodup_addNew hn
  case inr => exact nodup_addNew <| nodup_addNew hn

theorem receiver_mem_addPacket : packet.receiver ∈ (m.addPacket packet packetId).names := by
  rw [(adds m packet packetId).names]
  obtain he | he := edges_cases packet
  all_goals simp [he, mem_addNew]

-- The channels and the numbers of their last packets.
def numbers (m : ChannelsManager V W) : List (Str × Int) :=
  m.channels.map fun channel => (channel.name, channel.latestPacketId)

theorem numbers_eq {m' : ChannelsManager V W} (h : m'.bare = m.bare) : m'.numbers = m.numbers := by
  have hbare : ∀ m : ChannelsManager V W, m.bare.numbers = m.numbers := fun m => by
    simp [numbers, bare, Channel.bare]
  rw [← hbare, h, hbare]

theorem names_eq_of_numbers {m' : ChannelsManager V W} (h : m'.numbers = m.numbers) : m'.names = m.names := by
  have hfst : ∀ m : ChannelsManager V W, m.numbers.map Prod.fst = m.names := fun m => by
    simp [numbers, names]
  rw [← hfst, h, hfst]

theorem mem_numbers {m' : ChannelsManager V W} (h : m'.numbers = m.numbers) (hc : c' ∈ m'.channels) :
    ∃ c ∈ m.channels, c'.name = c.name ∧ c'.latestPacketId = c.latestPacketId := by
  have hm : (c'.name, c'.latestPacketId) ∈ m.numbers := h ▸ List.mem_map_of_mem hc
  obtain ⟨c, hc, he⟩ := List.mem_map.mp hm
  obtain ⟨hname, hid⟩ := Prod.mk.inj he
  exact ⟨c, hc, hname.symm, hid.symm⟩

end ChannelsManager

theorem ChannelMeasurement.bare_runAll {ms ms' : List (ChannelMeasurement V W)} {m m' : ChannelsManager V W}
    (h : runAll ms m = .ok (ms', m')) : m'.bare = m.bare := by
  induction ms generalizing m ms'
  case nil =>
    obtain ⟨_, rfl⟩ := Prod.mk.inj <| Except.ok.inj h
    rfl
  case cons measurement ms ih =>
    obtain ⟨⟨_, m₁⟩, hrun, h⟩ := bind_eq_ok.mp h
    obtain ⟨⟨_, m₂⟩, hrest, h⟩ := bind_eq_ok.mp h
    obtain ⟨_, rfl⟩ := Prod.mk.inj <| Except.ok.inj h
    exact (ih hrest).trans (run_spec hrun).2.1

namespace Seen

-- The number of the last packet that was received for a channel. Packets are numbered from 1.
def lastId (name : Str) (packets : List (Packet V)) : Int :=
  (packets.zipIdx 1).foldl (fun id p => if p.1.receiver = name then p.2 else id) (-1)

variable {name : Str} {packets : List (Packet V)} {packet : Packet V}

theorem lastId_concat : lastId name (packets ++ [packet]) =
    if packet.receiver = name then (packets.length : Int) + 1 else lastId name packets := by
  rw [lastId, List.zipIdx_append, List.foldl_append, ← lastId]
  simp [add_comm]

theorem lastId_eq_neg_one (h : ∀ packet ∈ packets, packet.receiver ≠ name) : lastId name packets = -1 := by
  induction packets using List.reverseRecOn
  case nil => rfl
  case append_singleton packets packet ih =>
    obtain ⟨hold, hnew⟩ := List.forall_mem_append.mp h
    rw [lastId_concat, if_neg (hnew packet List.mem_cons_self), ih hold]

end Seen

namespace AnalyzerServer

variable [LT W] [DecidableLT W] {little : Bool} {rdp : List (Nat × W) → List (Nat × W)}
variable {config : Config W} {y y' y₀ : AnalyzerServer W} {as : List ServerAction} {log : List Seen}
variable {ok : AnalyzerServer W → ServerAction → Prop}

theorem cycle_numbers (h : y.cycle rdp config = .ok y') : y'.packetsCount = y.packetsCount ∧
    y'.channelsManager.numbers = y.channelsManager.numbers := by
  obtain ⟨⟨measurementManager, m⟩, hrun, h⟩ := bind_eq_ok.mp h
  obtain ⟨⟨channelMeasurements, m₁⟩, hchannels, hrun⟩ := bind_eq_ok.mp hrun
  obtain ⟨_, _, hrun⟩ := bind_eq_ok.mp hrun
  obtain ⟨rfl, rfl⟩ := Prod.mk.inj <| Except.ok.inj hrun
  obtain ⟨m₂, hcheckers, h⟩ := bind_eq_ok.mp h
  obtain ⟨y₂, hsend, h⟩ := bind_eq_ok.mp h
  obtain ⟨posts, update, rfl, _⟩ := sendFlags_spec hsend
  have hbare := (Checker.runAll_spec hcheckers).1.trans <| ChannelMeasurement.bare_runAll hchannels
  have hnumbers : m₂.numbers = y.channelsManager.numbers := ChannelsManager.numbers_eq hbare
  rw [← hnumbers]
  simp only at h
  split at h
  case isTrue =>
    obtain rfl := Except.ok.inj h
    refine ⟨rfl, ?_⟩
    simp [ChannelsManager.numbers, sendMeasurement, ChannelsManager.getChannelsMeasures,
      Channel.getAllMeasures]
  case isFalse =>
    obtain rfl := Except.ok.inj h
    refine ⟨rfl, ?_⟩
    simp [ChannelsManager.numbers]

-- What the numbers have to do with the packets.
structure Numbered (log : List Seen) (y : AnalyzerServer W) : Prop where
  names     : y.channelsManager.names.Nodup
  receivers : ∀ packet ∈ Seen.packets log, packet.receiver ∈ y.channelsManager.names
  count     : y.packetsCount = (Seen.packets log).length + 1
  ids       : ∀ c ∈ y.channelsManager.channels, c.latestPacketId = Seen.lastId c.name (Seen.packets log)

namespace Numbered

variable {packet : Packet (BitVec 64)}

omit [LT W] [DecidableLT W] in
theorem of_numbers (h : Numbered log y) (hp : Seen.packets log' = Seen.packets log)
    (hc : y'.packetsCount = y.packetsCount)
    (hn : y'.channelsManager.numbers = y.channelsManager.numbers) : Numbered log' y' := by
  have hnames := ChannelsManager.names_eq_of_numbers hn
  refine ⟨hnames ▸ h.names, hp ▸ hnames ▸ h.receivers, hc ▸ hp ▸ h.count, fun c' hc' => ?_⟩
  obtain ⟨c, hc, hname, hid⟩ := ChannelsManager.mem_numbers hn hc'
  rw [hp, hid, hname, h.ids c hc]

omit [LT W] [DecidableLT W] in
theorem receive (h : Numbered log y) : Numbered (log ++ [.packet packet])
    { y with
      channelsManager := y.channelsManager.addPacket packet y.packetsCount
      packetsCount    := y.packetsCount + 1
      flagsCounter    := y.flagsCounter + 1
      receiving       := false } := by
  have hsub := (ChannelsManager.adds y.channelsManager packet y.packetsCount).prefix_names.subset
  have hnone : ∀ name, name ∉ y.channelsManager.names → Seen.lastId name (Seen.packets log) = -1 :=
    fun name hname => Seen.lastId_eq_neg_one fun p hp he => hname <| he ▸ h.receivers p hp
  refine ⟨ChannelsManager.nodup_addPacket h.names, ?_, ?_, fun c hc => ?_⟩
  case refine_1 =>
    rw [Seen.packets_packet, List.forall_mem_append]
    exact ⟨fun p hp => hsub <| h.receivers p hp,
      List.forall_mem_singleton.mpr ChannelsManager.receiver_mem_addPacket⟩
  case refine_2 => simp [h.count]
  case refine_3 =>
    rw [Seen.packets_packet, Seen.lastId_concat]
    have hid : (y.packetsCount : Int) = (Seen.packets log).length + 1 := by rw [h.count]; rfl
    cases ChannelsManager.added h.names hc
    case kept hc hne              => rw [if_neg (Ne.symm hne), h.ids c hc]
    case received c hc hname      => exact hid.trans (if_pos hname.symm).symm
    case new                      => exact hid.trans (if_pos rfl).symm
    case sender name hname hne    => exact (hnone name hname).symm.trans (if_neg (Ne.symm hne)).symm

end Numbered

theorem numbered (hi : (analyzerServer little rdp config).Init y₀)
    (r : (analyzerServer little rdp config).Run ok y₀ as y) :
    Numbered ((analyzerServer little rdp config).trace (seen little config) y₀ as) y := by
  refine r.trace_invariant (I := Numbered) (fun log y a y' h _ e => ?_) ?_
  case refine_2 =>
    obtain rfl := hi
    exact ⟨List.nodup_nil, nofun, rfl, nofun⟩
  case refine_1 =>
    have he := e.exec
    cases a
    case compare =>
      obtain ⟨y₁, hcycle, he⟩ := bind_eq_ok.mp he
      obtain rfl := Except.ok.inj he
      rw [seen]
      split at hcycle
      case isTrue hd =>
        obtain ⟨hcount, hnumbers⟩ := cycle_numbers hcycle
        rw [if_pos hd]
        exact h.of_numbers Seen.packets_cycle hcount hnumbers
      case isFalse hd =>
        obtain rfl := Except.ok.inj hcycle
        rw [if_neg hd, List.append_nil]
        exact h.of_numbers rfl rfl rfl
    case receive data =>
      obtain ⟨packet, hp, he⟩ := bind_eq_ok.mp he
      obtain rfl := Except.ok.inj he
      rw [seen, hp]
      exact h.receive

end AnalyzerServer

-- The packets are numbered as they are received, and every channel knows the number of the last one that
-- was received for it. A channel that has only been named as a sender has no such number.
theorem packets_numbered [LT W] [DecidableLT W] {little : Bool} {rdp : List (Nat × W) → List (Nat × W)}
    {config : Config W} {ok : AnalyzerServer W → ServerAction → Prop} {y₀ y : AnalyzerServer W}
    {as : List ServerAction} (hi : (analyzerServer little rdp config).Init y₀)
    (r : (analyzerServer little rdp config).Run ok y₀ as y) :
    let packets := Seen.packets <|
      (analyzerServer little rdp config).trace (AnalyzerServer.seen little config) y₀ as
    List.Forall₂ (fun data packet => AnalyzerServer.packetOf little data = .ok packet)
      (as.filterMap ServerAction.data?) packets ∧
    y.packetsCount = packets.length + 1 ∧ y.channelsManager.names.Nodup ∧
    ∀ c ∈ y.channelsManager.channels, c.latestPacketId = Seen.lastId c.name packets :=
  have h := AnalyzerServer.numbered hi r
  ⟨AnalyzerServer.received r, h.count, h.names, h.ids⟩

-- The first and the third of three packets are for the same channel.
theorem packets_numbered_three :
    ∃ y : AnalyzerServer Nat, y.packetsCount = 4 ∧ ∃ packets : List (Packet (BitVec 64)),
      packets.length = 3 ∧ y.packetsCount = packets.length + 1 ∧
      y.channelsManager.channels.map Channel.latestPacketId = [3, 2] ∧
      ∀ c ∈ y.channelsManager.channels, c.latestPacketId = Seen.lastId c.name packets := by
  have hrun : ((analyzerServer true lineEnds constantConfig).replay (fun _ _ => True) (.new constantConfig)
      [.compare, .receive emptyPacket, .compare, .receive twoEvents, .compare, .receive emptyPacket]).any
      (fun y => y.channelsManager.channels.map Channel.latestPacketId == [3, 2]) = true := by
    decide +kernel
  obtain ⟨y, hy, hids⟩ := (Option.any_eq_true ..).mp hrun
  have hinit : (analyzerServer true lineEnds constantConfig).Init (.new constantConfig) := rfl
  obtain ⟨hreceived, hcount, _, hall⟩ := packets_numbered hinit (Machine.run_of_replay hy)
  have hlength := hreceived.length_eq.symm
  exact ⟨y, hcount.trans (congrArg _ hlength), _, hlength, hcount, eq_of_beq hids, hall⟩

end PipeRT
