import PipeRT.Analyzer.Server

namespace PipeRT

variable {V W : Type}

section Dict

variable {β : Type} {dict : Dict (List β)} {key key' : Str} {b : β}

@[simp]
theorem Dict.add_self : dict.add key b key = some ((dict key).getD [] ++ [b]) :=
  Function.update_self ..

theorem Dict.add_of_ne (h : key' ≠ key) : dict.add key b key' = dict key' :=
  Function.update_of_ne h ..

-- The first key gets its point, and then the others get theirs.
theorem Dict.points_cons {A : Type} {P : A → W → Prop} {first : Str × A} {rest : List (Str × A)} {n : Nat}
    {dict dict' : Dict (List (Nat × W))} {value : W} (hnew : first.1 ∉ rest.map Prod.fst)
    (hfirst : P first.2 value)
    (hrest : ∀ entry ∈ rest, ∃ value', P entry.2 value' ∧
      dict' entry.1 = some ((dict.add first.1 (n, value) entry.1).getD [] ++ [(n, value')]))
    (hothers : ∀ key, key ∉ rest.map Prod.fst → dict' key = dict.add first.1 (n, value) key) :
    (∀ entry ∈ first :: rest, ∃ value', P entry.2 value' ∧
      dict' entry.1 = some ((dict entry.1).getD [] ++ [(n, value')])) ∧
    ∀ key, key ∉ (first :: rest).map Prod.fst → dict' key = dict key := by
  refine ⟨List.forall_mem_cons.mpr ⟨⟨value, hfirst, ?_⟩, fun entry he => ?_⟩, fun key hkey => ?_⟩
  case refine_1 => exact (hothers _ hnew).trans add_self
  case refine_2 =>
    obtain ⟨value', hv, hpoints⟩ := hrest entry he
    have hne : entry.1 ≠ first.1 := fun h => hnew <| h ▸ List.mem_map_of_mem he
    rw [add_of_ne hne] at hpoints
    exact ⟨value', hv, hpoints⟩
  case refine_3 =>
    rw [List.map_cons, List.mem_cons, not_or] at hkey
    exact (hothers key hkey.2).trans <| add_of_ne hkey.1

end Dict

-- What is in the list that is sent for the points that are kept of a measurement.
structure Shows (kept : List (Nat × W)) (retPoints : List (Option W)) : Prop where
  length : retPoints.length = 10
  apart  : (kept.map fun point => (point.1 - 1) % 10).Nodup
  shown  : ∀ point ∈ kept, retPoints[(point.1 - 1) % 10]? = some (some point.2)
  others : ∀ i y, retPoints[i]? = some (some y) → ∃ point ∈ kept, (point.1 - 1) % 10 = i ∧ point.2 = y

namespace Shows

variable {kept : List (Nat × W)} {retPoints : List (Option W)} {point : Nat × W} {y : W}

-- The index of every tenth cycle is -1.
theorem setItem_eq (hl : retPoints.length = 10) (hp : 0 < point.1) :
    setItem retPoints ((point.1 % 10 : Nat) - 1) y = retPoints.set ((point.1 - 1) % 10) (some y) := by
  rw [setItem, hl]
  congr 1
  split <;> omega

theorem concat (h : Shows kept retPoints) (hp : 0 < point.1)
    (hne : ∀ other ∈ kept, (other.1 - 1) % 10 ≠ (point.1 - 1) % 10) :
    Shows (kept ++ [point]) (setItem retPoints ((point.1 % 10 : Nat) - 1) point.2) := by
  rw [setItem_eq h.length hp]
  have hlt : (point.1 - 1) % 10 < retPoints.length := by
    rw [h.length]
    exact Nat.mod_lt _ (by decide)
  refine ⟨by rw [List.length_set, h.length], ?_, fun other ho => ?_, fun i y hi => ?_⟩
  case refine_1 =>
    rw [List.map_append, List.nodup_append]
    refine ⟨h.apart, List.nodup_singleton _, fun i hi j hj => ?_⟩
    obtain ⟨other, ho, rfl⟩ := List.mem_map.mp hi
    obtain rfl := List.mem_singleton.mp hj
    exact hne other ho
  case refine_2 =>
    cases List.mem_append.mp ho
    case inl ho => rw [List.getElem?_set_ne (hne other ho).symm, h.shown other ho]
    case inr ho =>
      obtain rfl := List.mem_singleton.mp ho
      exact List.getElem?_set_self hlt
  case refine_3 =>
    by_cases he : (point.1 - 1) % 10 = i
    case pos =>
      subst he
      rw [List.getElem?_set_self hlt] at hi
      exact ⟨point, by simp, rfl, by simpa using hi⟩
    case neg =>
      rw [List.getElem?_set_ne he] at hi
      obtain ⟨other, ho, hother⟩ := h.others i y hi
      exact ⟨other, List.mem_append_left _ ho, hother⟩

end Shows

-- Points whose cycles are within ten cycles of each other do not get in each other's way.
theorem shows_reduce {rdp : List (Nat × W) → List (Nat × W)} {points : List (Nat × W)} {n : Nat}
    (hrdp : (rdp points).Sublist points) (hd : (points.map Prod.fst).Nodup)
    (hp : ∀ point ∈ points, n < point.1 ∧ point.1 ≤ n + 10) :
    Shows (rdp points) (reducePointsNExtractYAxis rdp points) := by
  rw [reducePointsNExtractYAxis]
  have hd := hd.sublist <| hrdp.map Prod.fst
  replace hp : ∀ point ∈ rdp points, n < point.1 ∧ point.1 ≤ n + 10 :=
    fun point hm => hp point <| hrdp.subset hm
  generalize rdp points = kept at hd hp
  induction kept using List.reverseRecOn
  case nil =>
    refine ⟨rfl, List.nodup_nil, by simp, fun i y h => ?_⟩
    exact nomatch List.eq_of_mem_replicate <| List.mem_of_getElem? h
  case append_singleton kept point ih =>
    rw [List.foldl_concat]
    rw [List.map_append, List.nodup_append] at hd
    obtain ⟨hold, hnew⟩ := List.forall_mem_append.mp hp
    have hpoint := hnew point (by simp)
    refine (ih hd.1 hold).concat (by omega) fun other ho => ?_
    have hother := hold other ho
    have hne : other.1 ≠ point.1 := hd.2.2 _ (List.mem_map_of_mem ho) _ (by simp)
    omega

namespace ChannelsManager

variable {m m' : ChannelsManager V W} {channels : List (Channel V W)}

-- What goes over the channels and leaves alone what a measurement looks at.
theorem mapM_spec {f : Channel V W → Except PyError (Channel V W)}
    (hf : ∀ c c', f c = .ok c' → c'.bare = c.bare) (h : m.channels.mapM f = .ok channels) :
    ({ m with channels } : ChannelsManager V W).bare = m.bare ∧
      ∀ c' ∈ channels, ∃ c ∈ m.channels, f c = .ok c' := by
  have hall := of_mapM_eq_ok h
  have hbare : channels.map Channel.bare = m.channels.map Channel.bare := by
    rw [← List.forall₂_eq_eq_eq, List.forall₂_map_left_iff, List.forall₂_map_right_iff]
    exact hall.flip.imp fun c' c hc => hf c c' hc
  refine ⟨by rw [bare, bare, hbare], fun c' hc' => ?_⟩
  exact exists_of_forall₂ (R := fun c c' => f c = .ok c') hall hc'

theorem names_bare : m.bare.names = m.names := by
  simp [names, bare, Channel.bare]

theorem names_eq (h : m'.bare = m.bare) : m'.names = m.names := by
  rw [← names_bare, h, names_bare]

theorem naChannels_eq (h : m'.bare = m.bare) : m'.naChannels = m.naChannels :=
  congrArg (fun m : ChannelsManager V Empty => m.naChannels) h

theorem channelsMap_eq (h : m'.bare = m.bare) : m'.channelsMap = m.channelsMap :=
  congrArg (fun m : ChannelsManager V Empty => m.channelsMap) h

end ChannelsManager

-- The last point is the one that is found.
theorem Channel.getMeasure_eq {c : Channel V W} {key : Str} {points : List (Nat × W)} {n : Nat} {value : W}
    (h : c.measures key = some (points ++ [(n, value)])) : c.getMeasure (some key) = .ok value := by
  rw [getMeasure, Option.bind_some, h]
  simp only [List.getLast?_concat]

-- What a channel is after cycle `n`, in which it gained a point of every measurement.
structure Channel.Gained (n : Nat) (measurements : List (ChannelMeasurement.Enabled V W))
    (m : ChannelsManager V Empty) (c c' : Channel V W) : Prop where
  bare   : c'.bare = c.bare
  points : ∀ measurement ∈ measurements, ∃ value, measurement.2 m c.bare = .ok value ∧
           c'.measures measurement.1 = some ((c.measures measurement.1).getD [] ++ [(n, value)])
  others : ∀ key, key ∉ measurements.map Prod.fst → c'.measures key = c.measures key

namespace ChannelMeasurement

variable {n : Nat} {measurements : List (Enabled V W)} {ms : List (ChannelMeasurement V W)}
variable {measurement measurement' : ChannelMeasurement V W} {m m' : ChannelsManager V W}

-- The measurements of the configuration in cycle `n`.
def inCycle (n : Nat) (measurements : List (Enabled V W)) : List (ChannelMeasurement V W) :=
  measurements.map fun measurement => ⟨measurement.1, n, measurement.2⟩

theorem run_spec (h : measurement.run m = .ok (measurement', m')) :
    measurement' = { measurement with packetCycle := measurement.packetCycle + 1 } ∧ m'.bare = m.bare ∧
    ∀ c' ∈ m'.channels, ∃ c ∈ m.channels, ∃ value, measurement.measure m.bare c.bare = .ok value ∧
      c' = c.addMeasure measurement.measurementKey (measurement.packetCycle, value) := by
  obtain ⟨channels, hc, h⟩ := bind_eq_ok.mp h
  obtain ⟨rfl, rfl⟩ := Prod.mk.inj <| Except.ok.inj h
  have hadd : ∀ c c', measurement.addTo m.bare c = .ok c' →
      ∃ value, measurement.measure m.bare c.bare = .ok value ∧
        c' = c.addMeasure measurement.measurementKey (measurement.packetCycle, value) := by
    intro c c' h
    obtain ⟨value, hv, h⟩ := bind_eq_ok.mp h
    exact ⟨value, hv, (Except.ok.inj h).symm⟩
  have hkeeps : ∀ c c', measurement.addTo m.bare c = .ok c' → c'.bare = c.bare := by
    intro c c' h
    obtain ⟨_, _, rfl⟩ := hadd c c' h
    rfl
  obtain ⟨hbare, hchannels⟩ := ChannelsManager.mapM_spec hkeeps hc
  refine ⟨rfl, hbare, fun c' hc' => ?_⟩
  obtain ⟨c, hcm, h⟩ := hchannels c' hc'
  exact ⟨c, hcm, hadd c c' h⟩

theorem runAll_spec (hk : (measurements.map Prod.fst).Nodup)
    (h : runAll (inCycle n measurements) m = .ok (ms, m')) :
    ms = inCycle (n + 1) measurements ∧ m'.bare = m.bare ∧
    ∀ c' ∈ m'.channels, ∃ c ∈ m.channels, Channel.Gained n measurements m.bare c c' := by
  induction measurements generalizing m ms
  case nil =>
    obtain ⟨rfl, rfl⟩ := Prod.mk.inj <| Except.ok.inj h
    exact ⟨rfl, rfl, fun c hc => ⟨c, hc, rfl, nofun, fun _ _ => rfl⟩⟩
  case cons measurement measurements ih =>
    obtain ⟨hnew, hk⟩ := List.nodup_cons.mp hk
    obtain ⟨⟨_, m₁⟩, hrun, h⟩ := bind_eq_ok.mp h
    obtain ⟨⟨ms', m₂⟩, hrest, h⟩ := bind_eq_ok.mp h
    obtain ⟨rfl, rfl⟩ := Prod.mk.inj <| Except.ok.inj h
    obtain ⟨rfl, hbare, hfirst⟩ := run_spec hrun
    obtain ⟨rfl, hbare', hothers⟩ := ih hk hrest
    refine ⟨rfl, hbare'.trans hbare, fun c₂ hc₂ => ?_⟩
    obtain ⟨c₁, hc₁, hgained⟩ := hothers c₂ hc₂
    obtain ⟨c, hc, value, hv, rfl⟩ := hfirst c₁ hc₁
    rw [hbare] at hgained
    obtain ⟨hpoints, hothers⟩ := Dict.points_cons
      (P := fun measure value => measure m.bare c.bare = .ok value) hnew hv hgained.points hgained.others
    exact ⟨c, hc, hgained.bare, hpoints, hothers⟩

theorem runAll_eq_ok
    (h : ∀ measurement ∈ measurements, ∀ c ∈ m.channels, ∃ value, measurement.2 m.bare c.bare = .ok value) :
    ∃ r, runAll (inCycle n measurements) m = .ok r := by
  induction measurements generalizing m
  case nil => exact ⟨_, rfl⟩
  case cons measurement measurements ih =>
    obtain ⟨hfirst, hrest⟩ := List.forall_mem_cons.mp h
    have hadd : ∀ c ∈ m.channels, ∃ c', addTo ⟨measurement.1, n, measurement.2⟩ m.bare c = .ok c' ∧ True := by
      intro c hc
      obtain ⟨value, hv⟩ := hfirst c hc
      exact ⟨c.addMeasure measurement.1 (n, value), by simp only [addTo, hv, ok_bind, pure_eq_ok], trivial⟩
    obtain ⟨channels, hc, _⟩ := exists_mapM_eq_ok hadd
    have hrun : run ⟨measurement.1, n, measurement.2⟩ m =
        .ok (⟨measurement.1, n + 1, measurement.2⟩, { m with channels }) := by
      rw [run, hc]
      rfl
    obtain ⟨_, hbare, hchannels⟩ := run_spec hrun
    have hrest : ∀ other ∈ measurements, ∀ c' ∈ channels, ∃ value,
        other.2 ({ m with channels } : ChannelsManager V W).bare c'.bare = .ok value := by
      intro other ho c' hc'
      obtain ⟨c, hc, _, _, rfl⟩ := hchannels c' hc'
      exact hbare ▸ hrest other ho c hc
    obtain ⟨⟨ms, m'⟩, hr⟩ := ih (m := { m with channels }) hrest
    refine ⟨(⟨measurement.1, n + 1, measurement.2⟩ :: ms, m'), ?_⟩
    rw [inCycle, List.map_cons, runAll, hrun, ← inCycle]
    simp only [ok_bind, hr, pure_eq_ok]

end ChannelMeasurement

namespace PipelineMeasurement

variable {n : Nat} {measurements : List (Enabled V W)} {ms : List (PipelineMeasurement V W)}
variable {m : ChannelsManager V Empty} {dict dict' : Dict (List (Nat × W))}

def inCycle (n : Nat) (measurements : List (Enabled V W)) : List (PipelineMeasurement V W) :=
  measurements.map fun measurement => ⟨measurement.1, n, measurement.2⟩

theorem runAll_spec (hk : (measurements.map Prod.fst).Nodup)
    (h : runAll m (inCycle n measurements) dict = .ok (ms, dict')) :
    ms = inCycle (n + 1) measurements ∧
    (∀ measurement ∈ measurements, ∃ value, measurement.2 m = .ok value ∧
      dict' measurement.1 = some ((dict measurement.1).getD [] ++ [(n, value)])) ∧
    ∀ key, key ∉ measurements.map Prod.fst → dict' key = dict key := by
  induction measurements generalizing dict ms
  case nil =>
    obtain ⟨rfl, rfl⟩ := Prod.mk.inj <| Except.ok.inj h
    exact ⟨rfl, nofun, fun _ _ => rfl⟩
  case cons measurement measurements ih =>
    obtain ⟨hnew, hk⟩ := List.nodup_cons.mp hk
    obtain ⟨⟨_, _⟩, hrun, h⟩ := bind_eq_ok.mp h
    obtain ⟨value, hv, hrun⟩ := bind_eq_ok.mp hrun
    obtain ⟨rfl, rfl⟩ := Prod.mk.inj <| Except.ok.inj hrun
    obtain ⟨⟨ms', _⟩, hrest, h⟩ := bind_eq_ok.mp h
    obtain ⟨rfl, rfl⟩ := Prod.mk.inj <| Except.ok.inj h
    obtain ⟨rfl, hpoints, hothers⟩ := ih hk hrest
    exact ⟨rfl, Dict.points_cons (P := fun measure value => measure m = .ok value) hnew hv hpoints hothers⟩

theorem runAll_eq_ok (h : ∀ measurement ∈ measurements, ∃ value, measurement.2 m = .ok value) :
    ∃ r, runAll m (inCycle n measurements) dict = .ok r := by
  induction measurements generalizing dict
  case nil => exact ⟨_, rfl⟩
  case cons measurement measurements ih =>
    obtain ⟨⟨value, hv⟩, hrest⟩ := List.forall_mem_cons.mp h
    obtain ⟨⟨ms, dict'⟩, hr⟩ : ∃ r, runAll m (inCycle n measurements)
        (dict.add measurement.1 (n, value)) = .ok r := ih hrest
    have hrun : run ⟨measurement.1, n, measurement.2⟩ m =
        .ok ((n, value), ⟨measurement.1, n + 1, measurement.2⟩) := by
      simp only [run, hv, ok_bind, pure_eq_ok]
    refine ⟨(⟨measurement.1, n + 1, measurement.2⟩ :: ms, dict'), ?_⟩
    rw [inCycle, List.map_cons, runAll, hrun, ← inCycle]
    simp only [ok_bind, hr, pure_eq_ok]

end PipelineMeasurement

namespace Checker

variable [LT W] [DecidableLT W] {m m' : ChannelsManager V W} {checker : Checker W}
variable {checkers : List (Checker W)} {keys : List Str}

-- What the checker needs of the configuration.
def Configured (keys : List Str) : Checker W → Prop
  | frozen                                     => True
  | threshold _ parameter measureKey parameters =>
    (∃ key ∈ keys, measureKey = some key) ∧ (parameters parameter).isSome = true

theorem run_spec (h : checker.run m = .ok m') : m'.bare = m.bare ∧
    ∀ c' ∈ m'.channels, ∃ c ∈ m.channels, c'.bare = c.bare ∧ c'.measures = c.measures := by
  obtain ⟨channels, hc, h⟩ := bind_eq_ok.mp h
  obtain rfl := Except.ok.inj h
  have hadd : ∀ c c' : Channel V W, checker.addTo c = .ok c' → c'.bare = c.bare ∧ c'.measures = c.measures := by
    intro c c' h
    obtain ⟨value, _, h⟩ := bind_eq_ok.mp h
    obtain rfl := Except.ok.inj h
    exact ⟨rfl, rfl⟩
  obtain ⟨hbare, hchannels⟩ := ChannelsManager.mapM_spec (fun c c' h => (hadd c c' h).1) hc
  refine ⟨hbare, fun c' hc' => ?_⟩
  obtain ⟨c, hcm, h⟩ := hchannels c' hc'
  exact ⟨c, hcm, hadd c c' h⟩

theorem runAll_spec (h : runAll checkers m = .ok m') : m'.bare = m.bare ∧
    ∀ c' ∈ m'.channels, ∃ c ∈ m.channels, c'.bare = c.bare ∧ c'.measures = c.measures := by
  induction checkers generalizing m
  case nil =>
    obtain rfl := Except.ok.inj h
    exact ⟨rfl, fun c hc => ⟨c, hc, rfl, rfl⟩⟩
  case cons checker checkers ih =>
    obtain ⟨m₁, hrun, h⟩ := bind_eq_ok.mp h
    obtain ⟨hbare, hfirst⟩ := run_spec hrun
    obtain ⟨hbare', hrest⟩ := ih h
    refine ⟨hbare'.trans hbare, fun c₂ hc₂ => ?_⟩
    obtain ⟨c₁, hc₁, hb₁, hm₁⟩ := hrest c₂ hc₂
    obtain ⟨c, hc, hb, hm⟩ := hfirst c₁ hc₁
    exact ⟨c, hc, hb₁.trans hb, hm₁.trans hm⟩

theorem check_eq_ok {c : Channel V W} (hk : checker.Configured keys)
    (hc : ∀ key ∈ keys, ∃ value, c.getMeasure (some key) = .ok value) : ∃ value, checker.check c = .ok value := by
  cases checker
  case frozen => exact ⟨_, rfl⟩
  case threshold flagName parameter measureKey parameters =>
    obtain ⟨⟨key, hkey, rfl⟩, hp⟩ := hk
    obtain ⟨limit, hl⟩ := Option.isSome_iff_exists.mp hp
    obtain ⟨value, hv⟩ := hc key hkey
    exact ⟨decide (limit < value), by simp only [check, hv, hl, ok_bind, pure_eq_ok]⟩

theorem runAll_eq_ok (hk : ∀ checker ∈ checkers, checker.Configured keys)
    (hc : ∀ c ∈ m.channels, ∀ key ∈ keys, ∃ value, c.getMeasure (some key) = .ok value) :
    ∃ m', runAll checkers m = .ok m' := by
  induction checkers generalizing m
  case nil => exact ⟨m, rfl⟩
  case cons checker checkers ih =>
    obtain ⟨hfirst, hrest⟩ := List.forall_mem_cons.mp hk
    have hadd : ∀ c ∈ m.channels, ∃ c', checker.addTo c = .ok c' ∧ True := by
      intro c hm
      obtain ⟨value, hv⟩ := check_eq_ok hfirst <| hc c hm
      exact ⟨c.addFlag checker.flagName value, by rw [addTo, hv]; rfl, trivial⟩
    obtain ⟨channels, hchannels, _⟩ := exists_mapM_eq_ok hadd
    have hrun : checker.run m = .ok { m with channels } := by
      rw [run, hchannels]
      rfl
    obtain ⟨m', hm'⟩ := ih (m := { m with channels }) hrest fun c' hc' key hkey => by
      obtain ⟨c, hm, _, hmeasures⟩ := (run_spec hrun).2 c' hc'
      rw [Channel.getMeasure, hmeasures]
      exact hc c hm key hkey
    exact ⟨m', by rw [runAll, hrun, ok_bind, hm']⟩

end Checker

-- How the server gets through a cycle, up to the point where it may send the measures.
structure AnalyzerServer.Cycled (n : Nat) (config : Config W) (y y' : AnalyzerServer W) : Prop where
  names                : y'.channelsManager.names = y.channelsManager.names
  naChannels           : y'.channelsManager.naChannels = y.channelsManager.naChannels
  channelsMap          : y'.channelsManager.channelsMap = y.channelsManager.channelsMap
  channels             : ∀ c' ∈ y'.channelsManager.channels, ∃ c ∈ y.channelsManager.channels, ∃ c₁,
                         Channel.Gained n config.channelMeasurements y.channelsManager.bare c c₁ ∧
                         c'.name = c.name ∧ c'.events = [] ∧ c'.measures = c₁.measures
  channelMeasurements  : y'.measurementManager.channelMeasurements =
                         ChannelMeasurement.inCycle (n + 1) config.channelMeasurements
  pipelineMeasurements : y'.measurementManager.pipelineMeasurements =
                         PipelineMeasurement.inCycle (n + 1) config.pipelineMeasurements
  points               : ∀ measurement ∈ config.pipelineMeasurements, ∃ value,
                         measurement.2 y.channelsManager.bare = .ok value ∧
                         y'.measurementManager.pipelineMeasurementsDict measurement.1 = some
                           ((y.measurementManager.pipelineMeasurementsDict measurement.1).getD [] ++
                             [(n, value)])
  others               : ∀ key, key ∉ config.pipelineMeasurements.map Prod.fst →
                         y'.measurementManager.pipelineMeasurementsDict key =
                           y.measurementManager.pipelineMeasurementsDict key
  flagsCounter         : y'.flagsCounter = 0
  measuresCounter      : y'.measuresCounter = y.measuresCounter + 1
  receiving            : y'.receiving = y.receiving
  sent                 : ∃ posts, y'.sent = y.sent ++ posts ∧
                         posts.filterMap Post.measures? = [] ∧
                         posts.filterMap Post.pipelineMeasures? = []

namespace AnalyzerServer

variable [LT W] [DecidableLT W] {rdp : List (Nat × W) → List (Nat × W)} {config : Config W}
variable {y y' : AnalyzerServer W} {n : Nat}

omit [LT W] [DecidableLT W] in
theorem sendFlags_spec (h : y.sendFlagsAndChannelsMap = .ok y') : ∃ posts update,
    y' = { y with
      channelsManager := { y.channelsManager with
        channels  := y.channelsManager.channels.map fun channel => { channel with events := [] }
        updateMap := update }
      sent := y.sent ++ posts } ∧
    posts.filterMap Post.measures? = [] ∧ posts.filterMap Post.pipelineMeasures? = [] := by
  rw [sendFlagsAndChannelsMap] at h
  cases hu : y.channelsManager.updateMap
  case false =>
    simp only [ChannelsManager.getChannelsFlags, ChannelsManager.shouldUpdateMap, hu] at h
    obtain rfl := Except.ok.inj h
    exact ⟨_, false, rfl, rfl, rfl⟩
  case true =>
    simp only [ChannelsManager.getChannelsFlags, ChannelsManager.shouldUpdateMap, hu] at h
    obtain ⟨⟨uniqueChannels, channelsMap⟩, _, h⟩ := bind_eq_ok.mp h
    obtain rfl := Except.ok.inj h
    refine ⟨_, false, congrArg _ <| List.append_assoc .., rfl, rfl⟩

omit [LT W] [DecidableLT W] in
theorem sendFlags_eq_ok {as : List (ManagerAction (BitVec 64))} (h : y.channelsManager.Knows as) :
    ∃ y', y.sendFlagsAndChannelsMap = .ok y' := by
  cases hu : y.channelsManager.updateMap
  case false =>
    simp only [sendFlagsAndChannelsMap, ChannelsManager.getChannelsFlags, ChannelsManager.shouldUpdateMap, hu]
    exact ⟨_, rfl⟩
  case true =>
    have hk : ChannelsManager.Knows as { y.channelsManager with
        channels  := y.channelsManager.channels.map fun channel => channel.getFlags.2
        updateMap := false } := h.congr (by simp [ChannelsManager.names, Channel.getFlags]) rfl rfl
    obtain ⟨_, hmap, _⟩ := hk.exists_map
    simp only [sendFlagsAndChannelsMap, ChannelsManager.getChannelsFlags, ChannelsManager.shouldUpdateMap, hu,
      hmap, ok_bind, if_true, pure_eq_ok]
    exact ⟨_, rfl⟩

theorem cycle_spec (hk : (config.channelMeasurements.map Prod.fst).Nodup)
    (hk' : (config.pipelineMeasurements.map Prod.fst).Nodup)
    (hm : y.measurementManager.channelMeasurements =
      ChannelMeasurement.inCycle n config.channelMeasurements)
    (hm' : y.measurementManager.pipelineMeasurements =
      PipelineMeasurement.inCycle n config.pipelineMeasurements)
    (h : y.cycle rdp config = .ok y') :
    ∃ y₁, Cycled n config y y₁ ∧ y' =
      if y₁.measuresCounter = 10 then { y₁.sendMeasurement rdp with measuresCounter := 0 } else y₁ := by
  obtain ⟨⟨measurementManager, m⟩, hrun, h⟩ := bind_eq_ok.mp h
  obtain ⟨⟨channelMeasurements, m₁⟩, hchannels, hrun⟩ := bind_eq_ok.mp hrun
  obtain ⟨⟨pipelineMeasurements, dict⟩, hpipeline, hrun⟩ := bind_eq_ok.mp hrun
  obtain ⟨rfl, rfl⟩ := Prod.mk.inj <| Except.ok.inj hrun
  obtain ⟨m₂, hcheckers, h⟩ := bind_eq_ok.mp h
  obtain ⟨y₂, hsend, h⟩ := bind_eq_ok.mp h
  obtain ⟨posts, update, rfl, hposts, hposts'⟩ := sendFlags_spec hsend
  rw [hm] at hchannels
  rw [hm'] at hpipeline
  obtain ⟨rfl, hbare, hgained⟩ := ChannelMeasurement.runAll_spec hk hchannels
  rw [hbare] at hpipeline
  obtain ⟨rfl, hpoints, hothers⟩ := PipelineMeasurement.runAll_spec hk' hpipeline
  obtain ⟨hbare', hchecked⟩ := Checker.runAll_spec hcheckers
  have hall := hbare'.trans hbare
  refine ⟨{ y with
    channelsManager := { m₂ with
      channels  := m₂.channels.map fun channel => { channel with events := [] }
      updateMap := update }
    measurementManager := ⟨dict, ChannelMeasurement.inCycle (n + 1) config.channelMeasurements,
      PipelineMeasurement.inCycle (n + 1) config.pipelineMeasurements⟩
    flagsCounter    := 0
    measuresCounter := y.measuresCounter + 1
    sent            := y.sent ++ posts }, ?_, ?_⟩
  case refine_1 =>
    refine ⟨?_, ?_, ?_, fun c' hc' => ?_, rfl, rfl, hpoints, hothers, rfl, rfl, rfl, posts, rfl, hposts, hposts'⟩
    · rw [← ChannelsManager.names_eq hall]
      simp [ChannelsManager.names]
    · exact (ChannelsManager.naChannels_eq hall :)
    · exact (ChannelsManager.channelsMap_eq hall :)
    · obtain ⟨c₂, hc₂, rfl⟩ := List.mem_map.mp hc'
      obtain ⟨c₁, hc₁, hb₂, hmeasures⟩ := hchecked c₂ hc₂
      obtain ⟨c, hc, hg⟩ := hgained c₁ hc₁
      have hname : c₂.name = c.name :=
        congrArg (fun c : Channel (BitVec 64) Empty => c.name) (hb₂.trans hg.bare)
      exact ⟨c, hc, c₁, hg, hname, rfl, hmeasures⟩
  case refine_2 =>
    simp only at h
    split at h
    case isTrue hten =>
      rw [if_pos hten]
      exact (Except.ok.inj h).symm
    case isFalse hten =>
      rw [if_neg hten]
      exact (Except.ok.inj h).symm

-- The cycle raises no exception unless a measurement does.
theorem cycle_eq_ok {as : List (ManagerAction (BitVec 64))} (h : y.channelsManager.Knows as)
    (hk : (config.channelMeasurements.map Prod.fst).Nodup)
    (hm : y.measurementManager.channelMeasurements =
      ChannelMeasurement.inCycle n config.channelMeasurements)
    (hm' : y.measurementManager.pipelineMeasurements =
      PipelineMeasurement.inCycle n config.pipelineMeasurements)
    (hv : ∀ measurement ∈ config.channelMeasurements, ∀ c ∈ y.channelsManager.channels,
      ∃ value, measurement.2 y.channelsManager.bare c.bare = .ok value)
    (hv' : ∀ measurement ∈ config.pipelineMeasurements,
      ∃ value, measurement.2 y.channelsManager.bare = .ok value)
    (hc : ∀ checker ∈ config.checkers, checker.Configured <| config.channelMeasurements.map Prod.fst) :
    ∃ y', y.cycle rdp config = .ok y' := by
  obtain ⟨⟨ms, m₁⟩, hrun⟩ := ChannelMeasurement.runAll_eq_ok (n := n) hv
  obtain ⟨rfl, hbare, hgained⟩ := ChannelMeasurement.runAll_spec hk hrun
  obtain ⟨⟨ms', dict⟩, hrun'⟩ : ∃ r, PipelineMeasurement.runAll m₁.bare
      (PipelineMeasurement.inCycle n config.pipelineMeasurements)
      y.measurementManager.pipelineMeasurementsDict = .ok r :=
    PipelineMeasurement.runAll_eq_ok <| hbare ▸ hv'
  obtain ⟨m₂, hcheckers⟩ := Checker.runAll_eq_ok (m := m₁) hc fun c' hc' key hkey => by
    obtain ⟨measurement, hmem, rfl⟩ := List.mem_map.mp hkey
    obtain ⟨c, _, hg⟩ := hgained c' hc'
    obtain ⟨value, _, hpoints⟩ := hg.points measurement hmem
    exact ⟨value, Channel.getMeasure_eq hpoints⟩
  have hall := (Checker.runAll_spec hcheckers).1.trans hbare
  have hknows : m₂.Knows as := h.congr (ChannelsManager.names_eq hall)
    (ChannelsManager.naChannels_eq hall) (ChannelsManager.channelsMap_eq hall)
  have hmanager : y.measurementManager.run y.channelsManager =
      .ok (⟨dict, ChannelMeasurement.inCycle (n + 1) config.channelMeasurements, ms'⟩, m₁) := by
    rw [MeasurementManager.run, hm, hm', hrun]
    simp only [ok_bind, hrun', pure_eq_ok]
  obtain ⟨y₂, hsend⟩ := sendFlags_eq_ok (y := { y with
    measurementManager := ⟨dict, ChannelMeasurement.inCycle (n + 1) config.channelMeasurements, ms'⟩
    channelsManager    := m₂ }) hknows
  rw [cycle, hmanager]
  simp only [ok_bind, hcheckers, hsend]
  split
  all_goals exact ⟨_, rfl⟩

end AnalyzerServer

end PipeRT
