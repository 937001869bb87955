import PipeRT.Profile.Threads

namespace PipeRT

theorem Packet.mem_edges {V : Type} {packet : Packet V} {edge : Str × Str} :
    edge ∈ packet.edges ↔ packet.getEventCount packetPushed ≠ 0 ∧ packet.getSender ≠ notAvailable ∧
      edge = (packet.getSender, packet.receiver) := by
  rw [Packet.edges]
  split
  case isTrue hno => exact iff_of_false List.not_mem_nil fun h => hno.elim h.1 h.2.1
  case isFalse hno =>
    obtain ⟨hcount, hsender⟩ := not_or.mp hno
    rw [List.mem_singleton, and_iff_right hcount, and_iff_right hsender]

theorem ChannelsManager.mem_channelsMap_addPacket {V W : Type} {m : ChannelsManager V W} {packet : Packet V}
    {packetId : Int} {edge : Str × Str} : edge ∈ (m.addPacket packet packetId).channelsMap ↔
      edge ∈ m.channelsMap ∨ edge ∈ packet.edges := by
  rw [(adds m packet packetId).map]
  cases edges_cases packet
  case inl hnone => simp [hnone]
  case inr hone  => simp [hone, mem_addNew]

namespace Seen

variable {W : Type} [LT W] [DecidableLT W] {little : Bool} {rdp : List (Nat × W) → List (Nat × W)}
variable {config : Config W} {ok : AnalyzerServer W → ServerAction → Prop} {as : List ServerAction}
variable {y y₀ : AnalyzerServer W} {edge : Str × Str}

open AnalyzerServer

-- The map is that of the packets, whenever a cycle ends.
theorem mem_channelsMap (hT : 0 < config.packetsCycleThreshold)
    (hk : (config.channelMeasurements.map Prod.fst).Nodup)
    (hk' : (config.pipelineMeasurements.map Prod.fst).Nodup)
    (hi : (analyzerServer little rdp config).Init y₀)
    (r : (analyzerServer little rdp config).Run ok y₀ as y) :
    edge ∈ y.channelsManager.channelsMap ↔
      ∃ data ∈ as.filterMap ServerAction.data?, ∃ packet, packetOf little data = .ok packet ∧
        edge ∈ packet.edges := by
  have hinv : ∀ as y, (analyzerServer little rdp config).Run ok y₀ as y →
      Inv config ((analyzerServer little rdp config).trace (seen little config) y₀ as) y :=
    fun _ _ r => (inv_of_run hT hk hk' hi r).1
  suffices hall : edge ∈ y.channelsManager.channelsMap ↔
      ∃ packet ∈ packets ((analyzerServer little rdp config).trace (seen little config) y₀ as),
        edge ∈ packet.edges by
    rw [hall, packets_trace r]
    simp only [List.mem_filterMap (f := fun data => (packetOf little data).toOption)]
    constructor
    · rintro ⟨packet, ⟨data, hd, hp⟩, he⟩
      refine ⟨data, hd, packet, ?_, he⟩
      cases h : packetOf little data
      case error => simp [h, Except.toOption] at hp
      case ok    => exact congrArg _ <| by simpa [h, Except.toOption] using hp
    · rintro ⟨data, hd, packet, hp, he⟩
      exact ⟨packet, ⟨data, hd, by rw [hp]; rfl⟩, he⟩
  refine r.trace_induction (I := fun log y =>
    edge ∈ y.channelsManager.channelsMap ↔ ∃ packet ∈ packets log, edge ∈ packet.edges) hinv
    (fun log y a y' hy h _ e => ?_) ?_
  case refine_2 =>
    obtain rfl := hi
    exact iff_of_false List.not_mem_nil (by simp [packets])
  case refine_1 =>
    cases a
    case compare =>
      obtain ⟨y₁, hcycle, he⟩ := bind_eq_ok.mp e.exec
      obtain rfl := Except.ok.inj he
      rw [seen]
      split at hcycle
      case isFalse hd => rwa [if_neg hd, List.append_nil, ← Except.ok.inj hcycle]
      case isTrue hd =>
        obtain ⟨y₂, hc, rfl⟩ := cycle_spec hk hk' hy.channelMeasurements hy.pipelineMeasurements hcycle
        rw [if_pos hd, packets_cycle, ← h, ← hc.channelsMap]
        split <;> rfl
    case receive data =>
      obtain ⟨packet, hp, he⟩ := bind_eq_ok.mp e.exec
      obtain rfl := Except.ok.inj he
      rw [seen, hp]
      simp only [ChannelsManager.mem_channelsMap_addPacket, packets_packet, List.mem_append,
        List.mem_singleton, or_and_right, exists_or, exists_eq_left, h]

end Seen

variable {ι τ D : Type} {N : Naming ι τ} {F : Double D}

-- The edge from one channel to another one, with their names as far as they are written.
structure Naming.Shows (N : Naming ι τ) (edge : Str × Str) (i j : ι) : Prop where
  sender   : Utf8.encode edge.1 = (N.channelName i).text.take kMaxNameLength
  receiver : Utf8.encode edge.2 = (N.channelName j).text.take kMaxNameLength

-- What a buffer tells of the pushes since the last one.
structure Naming.Reports (N : Naming ι τ) (buffer : Buffer D) (i : ι) : Prop where
  sender    : buffer.sender = some (some (N.channelName i))
  available : (N.channelName i).text.take kMaxNameLength ≠ N.notAvailable.text
  pushed    : ∃ r ∈ buffer.records, r.name = N.kEventPushed

namespace Packet.Tells

variable {packet : Packet (BitVec 64)} {buffer : Buffer D} {dataGroupName : CString} {names : List CString}
variable {sender : Option CString}

-- A packet names a sender only if its buffer does.
theorem sender_ne (h : packet.Tells F buffer dataGroupName) (hs : buffer.sender = some sender)
    (he : packet.getSender ≠ notAvailable) :
    (SenderLogger.nameOf sender).take kMaxNameLength ≠ N.notAvailable.text := by
  intro hn
  refine he <| Utf8.encode_injective ?_
  rw [h.sender sender hs, hn, N.notAvailable_text]
  decide

theorem getEventCount_ne (h : packet.Tells F buffer dataGroupName)
    (hr : ∀ r ∈ buffer.records, r.Counted names)
    (hpushed : ∃ r ∈ buffer.records, r.name = N.kEventPushed) : packet.getEventCount packetPushed ≠ 0 := by
  have hcounted : ∀ event ∈ packet.events, 0 < event.logCount := by
    intro event hevent
    have htold : List.Forall₂ (fun r event => Event.Tells F event r) buffer.records packet.events :=
      h.events.flip
    obtain ⟨r, hm, ht⟩ := exists_of_forall₂ htold hevent
    have hpos := (hr r hm).count_pos
    have hcount := ht.logCount
    omega
  obtain ⟨r, hm, hname⟩ := hpushed
  obtain ⟨event, hevent, ht⟩ := exists_of_forall₂ h.events hm
  have htype : event.getType = packetPushed := by
    refine Utf8.encode_injective ?_
    rw [ht.name, hname, N.kEventPushed_text]
    decide
  rw [Packet.getEventCount]
  split
  case h_1 found hf => exact (hcounted found <| List.mem_of_find?_eq_some hf).ne'
  case h_2 hf       => exact absurd (List.find?_eq_none.mp hf event hevent) (by simp [htype])

end Packet.Tells

-- The map shows how the packets flow. If whatever the server receives was collected from the channels,
-- every edge leads from a channel to one that a worker has pushed to while it executed a packet of the
-- former, and every buffer that reports such pushes gets its edge.
theorem edges_pushed [DecidableEq ι] [DecidableEq τ] {W : Type} [LT W] [DecidableLT W] {little : Bool}
    {rdp : List (Nat × W) → List (Nat × W)} {config : Config W}
    {ok : AnalyzerServer W → ServerAction → Prop} {y₀ y : AnalyzerServer W} {as : List ServerAction}
    {x : Threads ι τ D} (h : (threads N F).Reachable Threads.Plain x)
    (hT : 0 < config.packetsCycleThreshold) (hk : (config.channelMeasurements.map Prod.fst).Nodup)
    (hk' : (config.pipelineMeasurements.map Prod.fst).Nodup)
    (hi : (analyzerServer little rdp config).Init y₀)
    (r : (analyzerServer little rdp config).Run ok y₀ as y)
    (hreceived : ∀ data ∈ as.filterMap ServerAction.data?, ∃ j, ∃ buffer ∈ (x.profiles j).buffers,
      data = buffer.bytes) :
    (∀ edge ∈ y.channelsManager.channelsMap, ∃ i j, (some i, j) ∈ x.pushes ∧ N.Shows edge i j) ∧
    ∀ i j, ∀ buffer ∈ (x.profiles j).buffers, buffer.bytes ∈ as.filterMap ServerAction.data? →
      N.Reports buffer i → ∃ edge ∈ y.channelsManager.channelsMap, N.Shows edge i j := by
  have hx := Threads.inv h
  have htells : ∀ j, ∀ buffer ∈ (x.profiles j).buffers, ∃ sender packet, buffer.sender = some sender ∧
      AnalyzerServer.packetOf little buffer.bytes = .ok packet ∧
      packet.Tells F buffer (N.channelName j) := by
    intro j buffer hb
    have hlegible := (Profile.legibles (hx.fits j).reachable).legible buffer (.inl hb)
    obtain ⟨sender, hs, _⟩ := hlegible.sender
    obtain ⟨packet, hp, ht⟩ := hlegible.exists_tells little (Profile.inv (hx.fits j).reachable) hb
    exact ⟨sender, packet, hs, hp, (hx.fits j).group ▸ ht⟩
  simp only [Seen.mem_channelsMap hT hk hk' hi r]
  constructor
  case left =>
    rintro edge ⟨data, hd, packet, hp, he⟩
    obtain ⟨j, buffer, hb, rfl⟩ := hreceived data hd
    obtain ⟨sender, packet', hs, hp', ht⟩ := htells j buffer hb
    obtain rfl := Except.ok.inj <| hp.symm.trans hp'
    obtain ⟨_, havailable, rfl⟩ := Packet.mem_edges.mp he
    have hne := ht.sender_ne (N := N) hs havailable
    cases sender
    case none =>
      rw [N.notAvailable_text] at hne
      exact absurd rfl hne
    case some name =>
      obtain rfl | ⟨i, rfl, hpush⟩ := (hx.fits j).named.buffers buffer (.inl hb) name hs
      · simp [SenderLogger.nameOf, N.notAvailable_text, kMaxNameLength] at hne
      · exact ⟨i, j, hpush, ht.sender _ hs, ht.receiver⟩
  case right =>
    intro i j buffer hb hd hreports
    obtain ⟨sender, packet, hs, hp, ht⟩ := htells j buffer hb
    obtain rfl := Option.some.inj <| hs.symm.trans hreports.sender
    have hsender := ht.sender _ hs
    have hcount := ht.getEventCount_ne ((Profile.inv (hx.fits j).reachable).records buffer (.inl hb))
      hreports.pushed
    have havailable : packet.getSender ≠ notAvailable := by
      intro hn
      refine hreports.available ?_
      rw [N.notAvailable_text]
      refine hsender.symm.trans ?_
      rw [hn]
      decide
    have hedge := Packet.mem_edges.mpr ⟨hcount, havailable, rfl⟩
    exact ⟨_, ⟨_, hd, packet, hp, hedge⟩, hsender, ht.receiver⟩

-- The channels "a" and "b", a worker and another thread.
def twoChannels : Naming Bool Bool where
  channelName i     := if i then ⟨1, [98], by decide⟩ else ⟨0, [97], by decide⟩
  worker t          := t
  notAvailable      := ⟨2, [78, 47, 65], by decide⟩
  kEventPushed      := ⟨3, [80, 97, 99, 107, 101, 116, 32, 80, 117, 115, 104, 101, 100], by decide⟩
  kEventRetrieved   := ⟨4, [114], by decide⟩
  kEventExecuteTime := ⟨5, [101], by decide⟩
  registered        := [⟨3, [80, 97, 99, 107, 101, 116, 32, 80, 117, 115, 104, 101, 100], by decide⟩,
                        ⟨4, [114], by decide⟩, ⟨5, [101], by decide⟩]
  notAvailable_text := rfl
  kEventPushed_text := rfl
  retrieved_ne      := by decide
  executeTime_ne    := by decide
  nodup             := by decide

-- The other thread pushes to "a". The worker executes the packet and pushes to "b".
def twoPushes : List (ThreadsAction Bool Bool ℚ) := [
  .log false false twoChannels.kEventPushed 1,
  .trackSender false,
  .take true false 2,
  .trackSender true,
  .setName true,
  .log true true twoChannels.kEventPushed 3,
  .trackSender true,
  .finish true 4,
  .trackSender true,
  .collect false (.gather 512),
  .collect false (.record 5 5),
  .collect false (.record 5 5),
  .collect false (.record 5 5),
  .collect false .finish,
  .collect true (.gather 512),
  .collect true (.record 5 5),
  .collect true (.record 5 5),
  .collect true (.record 5 5),
  .collect true .finish]

-- What is received then.
def pushedToA : List UInt8 :=
  groupTag ++ serializeString [97] ++ senderTag ++ serializeString [78, 47, 65] ++ recordTag ++
    serializeString twoChannels.kEventPushed.text ++ intImage 1 ++ .replicate 28 0 ++ recordTag ++
    serializeString [114] ++ intImage 1 ++ .replicate 28 0 ++ recordTag ++
    serializeString [101] ++ intImage 1 ++ .replicate 28 0

def pushedToB : List UInt8 :=
  groupTag ++ serializeString [98] ++ senderTag ++ serializeString [97] ++ recordTag ++
    serializeString twoChannels.kEventPushed.text ++ intImage 1 ++ .replicate 28 0

theorem edges_pushed_two :
    ∃ (x : Threads Bool Bool ℚ) (y : AnalyzerServer Nat), (some false, true) ∈ x.pushes ∧
      (none, false) ∈ x.pushes ∧ y.channelsManager.channelsMap = [(['a'], ['b'])] ∧
      ∀ edge ∈ y.channelsManager.channelsMap, ∃ i j, (some i, j) ∈ x.pushes ∧ twoChannels.Shows edge i j := by
  let x₀ : Threads Bool Bool ℚ := {
    profiles i   := ⟨.new rationals (twoChannels.channelName i) twoChannels.kEventPushed
                      twoChannels.registered 5, 5, none, [], []⟩
    threadName _ := twoChannels.notAvailable
    place _      := .idle
    tracking _   := none
    pushes       := [] }
  obtain ⟨x, hx, hpush, hpush', ha, hb⟩ := Machine.exists_reachable_of_replay
    (M := threads twoChannels rationals) (s := x₀) Threads.Plain twoPushes
    (P := fun x => (some false, true) ∈ x.pushes ∧ (none, false) ∈ x.pushes ∧
      (x.profiles false).buffers.map Buffer.bytes = [pushedToA] ∧
      (x.profiles true).buffers.map Buffer.bytes = [pushedToB])
    ⟨fun _ => ⟨5, rfl⟩, rfl, rfl, rfl, rfl⟩ (by decide +kernel)
  obtain ⟨y, hy, hmap⟩ : ∃ y, (analyzerServer true lineEnds constantConfig).Run (fun _ _ => True)
      (.new constantConfig) [.compare, .receive pushedToB, .compare, .receive pushedToA] y ∧
      y.channelsManager.channelsMap = [(['a'], ['b'])] := by
    have hreplay : ((analyzerServer true lineEnds constantConfig).replay (fun _ _ => True)
        (.new constantConfig) [.compare, .receive pushedToB, .compare, .receive pushedToA]).any
          (fun y => decide (y.channelsManager.channelsMap = [(['a'], ['b'])])) = true := by
      decide +kernel
    obtain ⟨y, hy, hmap⟩ := (Option.any_eq_true ..).mp hreplay
    exact ⟨y, Machine.run_of_replay hy, of_decide_eq_true hmap⟩
  have hinit : (analyzerServer true lineEnds constantConfig).Init (.new constantConfig) := rfl
  have hall := edges_pushed hx (by decide) (by decide) (by decide) hinit hy fun data hd => by
    have hcases : pushedToB = data ∨ pushedToA = data := by simpa [ServerAction.data?] using hd
    obtain rfl | rfl := hcases
    · obtain ⟨buffer, hbuffer, he⟩ := List.mem_map.mp (hb ▸ List.mem_singleton_self pushedToB)
      exact ⟨true, buffer, hbuffer, he.symm⟩
    · obtain ⟨buffer, hbuffer, he⟩ := List.mem_map.mp (ha ▸ List.mem_singleton_self pushedToA)
      exact ⟨false, buffer, hbuffer, he.symm⟩
  exact ⟨x, y, hpush, hpush', hmap, hall.1⟩

end PipeRT
