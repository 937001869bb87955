import PipeRT.Analyzer.Packets

namespace PipeRT

variable {V W : Type}

def Post.flags? : Post W → Option (List (Str × Dict Bool))
  | .flags dicts => some dicts
  | _            => none

section Checkers

variable [LT W] [DecidableLT W] {checker : Checker W} {checkers : List (Checker W)}
variable {m m' : ChannelsManager V W} {c c' : Channel V W}

-- What a channel is after all checkers.
structure Channel.Flagged (checkers : List (Checker W)) (c c' : Channel V W) : Prop where
  bare     : c'.bare = c.bare
  measures : c'.measures = c.measures
  flags    : ∀ checker ∈ checkers, ∃ value, checker.check c = .ok value ∧
             c'.flags checker.flagName = some value
  others   : ∀ key, key ∉ checkers.map Checker.flagName → c'.flags key = c.flags key

namespace Checker

-- A checker looks at the events and the measures alone.
theorem check_congr (hb : c'.bare = c.bare) (hm : c'.measures = c.measures) :
    checker.check c' = checker.check c := by
  have he : c'.events = c.events := congrArg (fun c : Channel V Empty => c.events) hb
  cases checker
  case frozen    => rw [check, check, he]
  case threshold => rw [check, check, Channel.getMeasure, Channel.getMeasure, hm]

theorem addTo_spec (h : checker.addTo c = .ok c') :
    ∃ value, checker.check c = .ok value ∧ c' = c.addFlag checker.flagName value := by
  obtain ⟨value, hv, h⟩ := bind_eq_ok.mp h
  exact ⟨value, hv, (Except.ok.inj h).symm⟩

theorem run_flags (h : checker.run m = .ok m') :
    ∀ c' ∈ m'.channels, ∃ c ∈ m.channels, ∃ value, checker.check c = .ok value ∧
      c' = c.addFlag checker.flagName value := by
  obtain ⟨channels, hc, h⟩ := bind_eq_ok.mp h
  obtain rfl := Except.ok.inj h
  have hkeeps : ∀ c c' : Channel V W, checker.addTo c = .ok c' → c'.bare = c.bare := by
    intro c c' h
    obtain ⟨_, _, rfl⟩ := addTo_spec h
    rfl
  intro c' hc'
  obtain ⟨c, hm, ha⟩ := (ChannelsManager.mapM_spec hkeeps hc).2 c' hc'
  exact ⟨c, hm, addTo_spec ha⟩

-- No checker gets in the way of another one if their flags have names of their own.
theorem runAll_flags (hn : (checkers.map flagName).Nodup) (h : runAll checkers m = .ok m') :
    ∀ c' ∈ m'.channels, ∃ c ∈ m.channels, Channel.Flagged checkers c c' := by
  induction checkers generalizing m
  case nil =>
    obtain rfl := Except.ok.inj h
    exact fun c hc => ⟨c, hc, rfl, rfl, nofun, fun _ _ => rfl⟩
  case cons checker checkers ih =>
    obtain ⟨hnew, hn⟩ := List.nodup_cons.mp hn
    obtain ⟨m₁, hrun, h⟩ := bind_eq_ok.mp h
    intro c₂ hc₂
    obtain ⟨c₁, hc₁, hf⟩ := ih hn h c₂ hc₂
    obtain ⟨c, hc, value, hv, rfl⟩ := run_flags hrun c₁ hc₁
    refine ⟨c, hc, hf.bare, hf.measures, List.forall_mem_cons.mpr ⟨⟨value, hv, ?_⟩, fun other ho => ?_⟩,
      fun key hkey => ?_⟩
    case refine_1 => exact (hf.others _ hnew).trans <| Function.update_self ..
    case refine_2 =>
      obtain ⟨value', hv', hflag⟩ := hf.flags other ho
      exact ⟨value', (check_congr rfl rfl).symm.trans hv', hflag⟩
    case refine_3 =>
      rw [List.map_cons, List.mem_cons, not_or] at hkey
      exact (hf.others key hkey.2).trans <| Function.update_of_ne hkey.1 ..

end Checker

end Checkers

namespace ChannelMeasurement

variable {measurement measurement' : ChannelMeasurement V W} {ms ms' : List (ChannelMeasurement V W)}
variable {m m' : ChannelsManager V W}

theorem runAll_flags (h : runAll ms m = .ok (ms', m')) :
    ∀ c' ∈ m'.channels, ∃ c ∈ m.channels, c'.flags = c.flags := by
  induction ms generalizing m ms'
  case nil =>
    obtain ⟨_, rfl⟩ := Prod.mk.inj <| Except.ok.inj h
    exact fun c hc => ⟨c, hc, rfl⟩
  case cons measurement ms ih =>
    obtain ⟨⟨_, m₁⟩, hrun, h⟩ := bind_eq_ok.mp h
    obtain ⟨⟨_, m₂⟩, hrest, h⟩ := bind_eq_ok.mp h
    obtain ⟨_, rfl⟩ := Prod.mk.inj <| Except.ok.inj h
    intro c₂ hc₂
    obtain ⟨c₁, hc₁, hf⟩ := ih hrest c₂ hc₂
    obtain ⟨c, hc, _, _, rfl⟩ := (run_spec hrun).2.2 c₁ hc₁
    exact ⟨c, hc, hf⟩

end ChannelMeasurement

namespace AnalyzerServer

variable {config : Config W} {y y' y₀ : AnalyzerServer W} {log : List Seen}

-- What the flag of a checker has to be in a cycle: whether no event has come for the channel since the
-- last one, or whether the measure of this cycle is above the limit.
def Judged [LT W] (config : Config W) (log : List Seen) (m : ChannelsManager (BitVec 64) Empty) (name : Str)
    (value : Bool) : Checker W → Prop
  | .frozen                                      =>
    value = true ↔ Seen.arrived name (Seen.since log) = []
  | .threshold _ parameter measureKey parameters =>
    ∃ measurement ∈ config.channelMeasurements, measureKey = some measurement.1 ∧ ∃ limit measure,
      parameters parameter = some limit ∧
      ChannelMeasurement.valueIn measurement.2 name m = some measure ∧ (value = true ↔ limit < measure)

-- Every channel has a flag of every checker and no others.
structure Flags [LT W] (config : Config W) (log : List Seen) (m : ChannelsManager (BitVec 64) Empty)
    (flags : List (Str × Dict Bool)) : Prop where
  names  : flags.map Prod.fst = m.names
  judged : ∀ entry ∈ flags, ∀ checker ∈ config.checkers, ∃ value,
           entry.2 checker.flagName = some value ∧ Judged config log m entry.1 value checker
  others : ∀ entry ∈ flags, ∀ key, key ∉ config.checkers.map Checker.flagName → entry.2 key = none

variable [LT W] [DecidableLT W] {little : Bool} {rdp : List (Nat × W) → List (Nat × W)}

theorem judged_of_check {c c₁ : Channel (BitVec 64) W} {checker : Checker W} {value : Bool} {n : Nat}
    (h : y.Inv config log) (hc : c ∈ y.channelsManager.channels)
    (hg : Channel.Gained n config.channelMeasurements y.channelsManager.bare c c₁)
    (hv : checker.check c₁ = .ok value) :
    Judged config log y.channelsManager.bare c₁.name value checker := by
  have hname : c₁.name = c.name := congrArg (fun c : Channel (BitVec 64) Empty => c.name) hg.bare
  have hevents : c₁.events = c.events := congrArg (fun c : Channel (BitVec 64) Empty => c.events) hg.bare
  cases checker
  case frozen =>
    obtain rfl := Except.ok.inj hv
    rw [Judged, hname, hevents, h.events c hc]
    simp
  case threshold flagName parameter measureKey parameters =>
    obtain ⟨measure, hm, hv⟩ := bind_eq_ok.mp hv
    cases hlimit : parameters parameter
    case none => simp [hlimit] at hv
    case some limit =>
      rw [hlimit] at hv
      obtain rfl := Except.ok.inj hv
      cases measureKey
      case none => contradiction
      case some key =>
        -- Without a point there is nothing to be found.
        by_cases hkey : key ∈ config.channelMeasurements.map Prod.fst
        case neg =>
          have hnone : c₁.measures key = none := (hg.others key hkey).trans <| h.channelOthers c hc key hkey
          simp [Channel.getMeasure, hnone] at hm
        case pos =>
          obtain ⟨measurement, hmem, rfl⟩ := List.mem_map.mp hkey
          obtain ⟨value, hvalue, hpoints⟩ := hg.points measurement hmem
          obtain rfl := Except.ok.inj <| hm.symm.trans <| Channel.getMeasure_eq hpoints
          have hnodup : y.channelsManager.names.Nodup := h.knows.elim fun _ hk => hk.nodup
          refine ⟨measurement, hmem, rfl, limit, measure, hlimit, ?_, decide_eq_true_iff⟩
          rw [hname, valueIn_eq hnodup hc hvalue]

-- A flag that no checker sets is never set.
def Blank (config : Config W) (m : ChannelsManager (BitVec 64) W) : Prop :=
  ∀ c ∈ m.channels, ∀ key, key ∉ config.checkers.map Checker.flagName → c.flags key = none

omit [LT W] [DecidableLT W] in
theorem sendFlags_posts (h : y.sendFlagsAndChannelsMap = .ok y') : ∃ posts,
    y'.sent = y.sent ++ posts ∧
    posts.filterMap Post.flags? = [y.channelsManager.channels.map fun c => (c.name, c.flags)] ∧
    y'.channelsManager.channels = y.channelsManager.channels.map fun c => { c with events := [] } := by
  rw [sendFlagsAndChannelsMap] at h
  cases hu : y.channelsManager.updateMap
  case false =>
    simp only [ChannelsManager.getChannelsFlags, ChannelsManager.shouldUpdateMap, hu] at h
    obtain rfl := Except.ok.inj h
    exact ⟨_, rfl, rfl, rfl⟩
  case true =>
    simp only [ChannelsManager.getChannelsFlags, ChannelsManager.shouldUpdateMap, hu] at h
    obtain ⟨⟨uniqueChannels, channelsMap⟩, _, h⟩ := bind_eq_ok.mp h
    obtain rfl := Except.ok.inj h
    exact ⟨_, List.append_assoc .., rfl, rfl⟩

omit [LT W] [DecidableLT W] in
theorem sendMeasurement_flags (rdp : List (Nat × W) → List (Nat × W)) (y : AnalyzerServer W) :
    (∃ posts, (y.sendMeasurement rdp).sent = y.sent ++ posts ∧ posts.filterMap Post.flags? = []) ∧
    ∀ c' ∈ (y.sendMeasurement rdp).channelsManager.channels, ∃ c ∈ y.channelsManager.channels,
      c'.flags = c.flags := by
  refine ⟨⟨_, rfl, rfl⟩, fun c' hc' => ?_⟩
  obtain ⟨c, hc, rfl⟩ := List.mem_map.mp hc'
  exact ⟨c, hc, rfl⟩

theorem cycle_flags (h : y.Inv config log) (hk : (config.channelMeasurements.map Prod.fst).Nodup)
    (hf : (config.checkers.map Checker.flagName).Nodup) (hb : Blank config y.channelsManager)
    (he : y.cycle rdp config = .ok y') :
    Blank config y'.channelsManager ∧ ∃ flags posts, y'.sent = y.sent ++ posts ∧
      posts.filterMap Post.flags? = [flags] ∧ Flags config log y.channelsManager.bare flags := by
  obtain ⟨⟨measurementManager, m⟩, hrun, he⟩ := bind_eq_ok.mp he
  obtain ⟨⟨channelMeasurements, m₁⟩, hchannels, hrun⟩ := bind_eq_ok.mp hrun
  obtain ⟨_, _, hrun⟩ := bind_eq_ok.mp hrun
  obtain ⟨rfl, rfl⟩ := Prod.mk.inj <| Except.ok.inj hrun
  obtain ⟨m₂, hcheckers, he⟩ := bind_eq_ok.mp he
  obtain ⟨y₂, hsend, he⟩ := bind_eq_ok.mp he
  rw [h.channelMeasurements] at hchannels
  have hkept := ChannelMeasurement.runAll_flags hchannels
  obtain ⟨_, hbare, hgained⟩ := ChannelMeasurement.runAll_spec hk hchannels
  have hbare' := (Checker.runAll_spec hcheckers).1
  have hflagged := Checker.runAll_flags hf hcheckers
  have hblank : Blank config m₂ := by
    intro c₂ hc₂ key hkey
    obtain ⟨c₁, hc₁, hflags⟩ := hflagged c₂ hc₂
    obtain ⟨c, hc, hsame⟩ := hkept c₁ hc₁
    rw [hflags.others key hkey, hsame, hb c hc key hkey]
  have hflags : Flags config log y.channelsManager.bare (m₂.channels.map fun c => (c.name, c.flags)) := by
    refine ⟨?_, fun entry hm checker hc => ?_, fun entry hm key hkey => ?_⟩
    case refine_1 =>
      rw [ChannelsManager.names_bare, ← ChannelsManager.names_eq (hbare'.trans hbare)]
      simp [ChannelsManager.names]
    all_goals obtain ⟨c₂, hc₂, rfl⟩ := List.mem_map.mp hm
    case refine_3 => exact hblank c₂ hc₂ key hkey
    case refine_2 =>
      obtain ⟨c₁, hc₁, hflags⟩ := hflagged c₂ hc₂
      obtain ⟨c, hc', hg⟩ := hgained c₁ hc₁
      obtain ⟨value, hv, hflag⟩ := hflags.flags checker hc
      have hname : c₂.name = c₁.name := congrArg (fun c : Channel (BitVec 64) Empty => c.name) hflags.bare
      exact ⟨value, hflag, hname ▸ judged_of_check h hc' hg hv⟩
  obtain ⟨posts, hsent, hposts, hchannels₂⟩ := sendFlags_posts hsend
  have hblank₂ : Blank config y₂.channelsManager := by
    intro c hc key hkey
    rw [hchannels₂] at hc
    obtain ⟨c₂, hc₂, rfl⟩ := List.mem_map.mp hc
    exact hblank c₂ hc₂ key hkey
  simp only at he
  split at he
  case isFalse =>
    obtain rfl := Except.ok.inj he
    exact ⟨hblank₂, _, posts, hsent, hposts, hflags⟩
  case isTrue =>
    obtain rfl := Except.ok.inj he
    obtain ⟨⟨batch, hbatch, hnone⟩, hsame⟩ := sendMeasurement_flags rdp
      { y₂ with flagsCounter := 0, measuresCounter := y₂.measuresCounter + 1 }
    refine ⟨fun c hc key hkey => ?_, _, posts ++ batch, ?_, ?_, hflags⟩
    case refine_1 =>
      obtain ⟨c₂, hc₂, hflags⟩ := hsame c hc
      exact hflags ▸ hblank₂ c₂ hc₂ key hkey
    case refine_2 => exact hbatch.trans <| (congrArg (· ++ batch) hsent).trans <| List.append_assoc ..
    case refine_3 => rw [List.filterMap_append, hposts, hnone, List.append_nil]

omit [LT W] [DecidableLT W] in
theorem Blank.receive {packet : Packet (BitVec 64)} {packetId : Int} (h : Blank config y.channelsManager)
    (hn : y.channelsManager.names.Nodup) : Blank config (y.channelsManager.addPacket packet packetId) := by
  intro c hc key hkey
  cases ChannelsManager.added hn hc
  case kept hm _       => exact h c hm key hkey
  case received c hm _ => exact h c hm key hkey
  case new             => rfl
  case sender          => rfl

theorem blank (hT : 0 < config.packetsCycleThreshold) (hk : (config.channelMeasurements.map Prod.fst).Nodup)
    (hk' : (config.pipelineMeasurements.map Prod.fst).Nodup)
    (hf : (config.checkers.map Checker.flagName).Nodup)
    {ok : AnalyzerServer W → ServerAction → Prop} {as : List ServerAction}
    (hi : (analyzerServer little rdp config).Init y₀)
    (r : (analyzerServer little rdp config).Run ok y₀ as y) : Blank config y.channelsManager := by
  have hinv : ∀ as y, (analyzerServer little rdp config).Run ok y₀ as y →
      Inv config ((analyzerServer little rdp config).trace (seen little config) y₀ as) y :=
    fun _ _ r => (inv_of_run hT hk hk' hi r).1
  refine r.trace_induction (I := fun _ y => Blank config y.channelsManager) hinv
    (fun log y a y' hy h _ e => ?_) ?_
  case refine_2 =>
    obtain rfl := hi
    exact nofun
  case refine_1 =>
    have he := e.exec
    cases a
    case compare =>
      obtain ⟨y₁, hcycle, he⟩ := bind_eq_ok.mp he
      obtain rfl := Except.ok.inj he
      split at hcycle
      case isTrue  => exact (cycle_flags hy hk hf h hcycle).1
      case isFalse => exact Except.ok.inj hcycle ▸ h
    case receive data =>
      obtain ⟨packet, _, he⟩ := bind_eq_ok.mp he
      obtain rfl := Except.ok.inj he
      exact Blank.receive h <| hy.knows.elim fun _ hk => hk.nodup

end AnalyzerServer

open AnalyzerServer

-- The flags that are sent in a cycle are those of all channels, and every one of them tells the truth: a
-- channel is frozen if no event has come for it since the last cycle, and a measure is high if its value
-- in this cycle is above the limit.
theorem flags_posted [LT W] [DecidableLT W] {little : Bool} {rdp : List (Nat × W) → List (Nat × W)}
    {config : Config W} {ok : AnalyzerServer W → ServerAction → Prop} {y₀ y : AnalyzerServer W}
    {as : List ServerAction} (hT : 0 < config.packetsCycleThreshold)
    (hk : (config.channelMeasurements.map Prod.fst).Nodup)
    (hk' : (config.pipelineMeasurements.map Prod.fst).Nodup)
    (hf : (config.checkers.map Checker.flagName).Nodup)
    (hi : (analyzerServer little rdp config).Init y₀)
    (r : (analyzerServer little rdp config).Run ok y₀ as y) :
    let log := (analyzerServer little rdp config).trace (seen little config) y₀ as
    ∀ a y', (analyzerServer little rdp config).Step y a y' → ∃ posts, y'.sent = y.sent ++ posts ∧
      if a = .compare ∧ y.flagsCounter = config.packetsCycleThreshold then
        ∃ flags, posts.filterMap Post.flags? = [flags] ∧ Flags config log y.channelsManager.bare flags
      else
        posts = [] := by
  intro log a y' e
  have hinv := (inv_of_run hT hk hk' hi r).1
  have hblank := blank hT hk hk' hf hi r
  have he := e.exec
  cases a
  case receive data =>
    obtain ⟨packet, _, he⟩ := bind_eq_ok.mp he
    obtain rfl := Except.ok.inj he
    exact ⟨[], (List.append_nil _).symm, by simp⟩
  case compare =>
    obtain ⟨y₁, hcycle, he⟩ := bind_eq_ok.mp he
    obtain rfl := Except.ok.inj he
    by_cases hdue : y.flagsCounter = config.packetsCycleThreshold
    case neg =>
      rw [if_neg hdue] at hcycle
      obtain rfl := Except.ok.inj hcycle
      exact ⟨[], (List.append_nil _).symm, by simp [hdue]⟩
    case pos =>
      rw [if_pos hdue] at hcycle
      obtain ⟨_, flags, posts, hsent, hposts, hflags⟩ := cycle_flags hinv hk hf hblank hcycle
      refine ⟨posts, hsent, ?_⟩
      rw [if_pos ⟨rfl, hdue⟩]
      exact ⟨flags, hposts, hflags⟩

-- No event has come for one of two channels, and the measures of both are high.
theorem flags_posted_two :
    ∃ (y y' : AnalyzerServer Nat) (log : List Seen) (posts : List (Post Nat))
      (flags : List (Str × Dict Bool)), (analyzerServer true lineEnds constantConfig).Step y .compare y' ∧
      y'.sent = y.sent ++ posts ∧ posts.filterMap Post.flags? = [flags] ∧
      Flags constantConfig log y.channelsManager.bare flags ∧
      flags.map (fun entry => (entry.1, entry.2 Checker.frozenFlag, entry.2 ['H'])) =
        [(['B'], some true, none), (['f'], some false, none)] := by
  have hrun : ((analyzerServer true lineEnds constantConfig).replay (fun _ _ => True) (.new constantConfig)
      [.compare, .receive emptyPacket, .compare, .receive twoEvents]).any (fun y => y.flagsCounter == 1 &&
        ((analyzerServer true lineEnds constantConfig).replay (fun _ _ => True) y [.compare]).any fun y' =>
          (((y'.sent.drop y.sent.length).filterMap Post.flags?).map fun flags =>
            flags.map fun entry => (entry.1, entry.2 Checker.frozenFlag, entry.2 ['H'])) ==
              [[(['B'], some true, none), (['f'], some false, none)]]) = true := by
    decide +kernel
  obtain ⟨y, hy, h⟩ := (Option.any_eq_true ..).mp hrun
  obtain ⟨hdue, h⟩ := (Bool.and_eq_true ..).mp h
  obtain ⟨y', hy', h⟩ := (Option.any_eq_true ..).mp h
  have hinit : (analyzerServer true lineEnds constantConfig).Init (.new constantConfig) := rfl
  obtain _ | ⟨⟨_, e⟩, _ | _⟩ := Machine.run_of_replay hy'
  obtain ⟨posts, hsent, hposts⟩ := flags_posted (by decide) (by decide) (by decide) (by decide) hinit
    (Machine.run_of_replay hy) _ _ e
  rw [if_pos ⟨rfl, eq_of_beq hdue⟩] at hposts
  obtain ⟨flags, hflags, hf⟩ := hposts
  refine ⟨y, y', _, posts, flags, e, hsent, hflags, hf, ?_⟩
  have h := eq_of_beq h
  rw [hsent, List.drop_left, hflags] at h
  exact List.head_eq_of_cons_eq h

end PipeRT
