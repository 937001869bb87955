import PipeRT.Analyzer.Decoded
import PipeRT.Analyzer.Windows
import PipeRT.Profile.Sending

namespace PipeRT

open PacketDecoder

variable {D W : Type} {F : Double D}

namespace Seen

-- All packets, also those from before the last cycle.
def packets (log : List Seen) : List (Packet (BitVec 64)) :=
  log.filterMap fun
    | packet p => some p
    | cycle _  => none

-- The events of a channel that a measurement finds.
def held (name : Str) (m : ChannelsManager (BitVec 64) W) : List (Event (BitVec 64)) :=
  (m.channels.filter fun channel => channel.name = name).flatMap fun channel => channel.events.flatten

-- What the measurements have found in the cycles, and what they will find in the next one.
def observed (name : Str) (log : List Seen) (m : ChannelsManager (BitVec 64) W) : List (Event (BitVec 64)) :=
  (cycles log).flatMap (held name) ++ held name m

section

variable {log : List Seen} {p : Packet (BitVec 64)} {m : ChannelsManager (BitVec 64) W} {name : Str}
variable {ps ps' : List (Packet (BitVec 64))} {channels : List (Channel (BitVec 64) W)}
variable {channel : Channel (BitVec 64) W}

theorem packets_append {log' : List Seen} : packets (log ++ log') = packets log ++ packets log' :=
  List.filterMap_append ..

@[simp]
theorem packets_packet : packets (log ++ [packet p]) = packets log ++ [p] := by
  simp [packets]

@[simp]
theorem packets_cycle {m : ChannelsManager (BitVec 64) Empty} :
    packets (log ++ [cycle m]) = packets log := by
  simp [packets]

theorem arrived_append : arrived name (ps ++ ps') = arrived name ps ++ arrived name ps' := by
  rw [arrived, List.filter_append, List.flatMap_append, ← arrived, ← arrived]

theorem arrived_perm (h : ps.Perm ps') : (arrived name ps).Perm (arrived name ps') :=
  (h.filter _).flatMap_right _

theorem held_bare : held name m.bare = held name m := by
  rw [held, held, ChannelsManager.bare, List.filter_map, List.flatMap_map]
  rfl

theorem filter_name (hn : (channels.map Channel.name).Nodup) (hc : channel ∈ channels) :
    channels.filter (fun c => c.name = channel.name) = [channel] := by
  induction channels
  case nil => contradiction
  case cons first channels ih =>
    obtain ⟨hnew, hn⟩ := List.nodup_cons.mp hn
    cases List.mem_cons.mp hc
    case inl hc =>
      subst hc
      rw [List.filter_cons_of_pos (by simp), List.filter_eq_nil_iff.mpr]
      intro c hc
      have hne : c.name ≠ channel.name := fun he => hnew <| he ▸ List.mem_map_of_mem hc
      simpa using hne
    case inr hc =>
      have hne : first.name ≠ channel.name := fun he => hnew <| he ▸ List.mem_map_of_mem hc
      rw [List.filter_cons_of_neg (by simpa using hne), ih hn hc]

end

end Seen

namespace AnalyzerServer

open Seen

variable {config : Config W} {log : List Seen} {y y₀ : AnalyzerServer W} {name : Str}

theorem Inv.held_eq (h : y.Inv config log) : held name y.channelsManager = arrived name (since log) := by
  obtain ⟨as, hk⟩ := h.knows
  by_cases hname : name ∈ y.channelsManager.names
  case pos =>
    obtain ⟨channel, hc, rfl⟩ := List.mem_map.mp hname
    rw [held, filter_name hk.nodup hc, List.flatMap_singleton, h.events channel hc]
  case neg =>
    have hnone : ∀ c ∈ y.channelsManager.channels, ¬decide (c.name = name) = true := fun c hc he =>
      hname <| of_decide_eq_true he ▸ List.mem_map_of_mem hc
    have hother : ∀ p ∈ since log, p.receiver ≠ name := fun p hp he => hname <| he ▸ h.receivers p hp
    rw [arrived_eq_nil hother, held, List.filter_eq_nil_iff.mpr hnone, List.flatMap_nil]

variable [LT W] [DecidableLT W] {little : Bool} {rdp : List (Nat × W) → List (Nat × W)}
variable {ok : AnalyzerServer W → ServerAction → Prop} {as : List ServerAction}

-- Every event is found in one cycle, or will be.
theorem arrived_eq_observed (hT : 0 < config.packetsCycleThreshold)
    (hk : (config.channelMeasurements.map Prod.fst).Nodup)
    (hk' : (config.pipelineMeasurements.map Prod.fst).Nodup)
    (hi : (analyzerServer little rdp config).Init y₀)
    (r : (analyzerServer little rdp config).Run ok y₀ as y) :
    let log := (analyzerServer little rdp config).trace (seen little config) y₀ as
    arrived name (packets log) = observed name log y.channelsManager := by
  intro log
  have hinv : ∀ as y, (analyzerServer little rdp config).Run ok y₀ as y →
      Inv config ((analyzerServer little rdp config).trace (seen little config) y₀ as) y :=
    fun _ _ r => (inv_of_run hT hk hk' hi r).1
  suffices hall : arrived name (packets log) = (cycles log).flatMap (held name) ++ arrived name (since log) by
    rw [hall, observed, (hinv as y r).held_eq]
  refine r.trace_induction
    (I := fun log _ => arrived name (packets log) =
      (cycles log).flatMap (held name) ++ arrived name (since log)) hinv
    (fun log y a y' hy h _ e => ?_) rfl
  cases a
  case compare =>
    rw [seen]
    split
    case isFalse => rwa [List.append_nil]
    case isTrue =>
      rw [packets_cycle, cycles_cycle, since_cycle, h, List.flatMap_append, List.flatMap_singleton,
        held_bare, hy.held_eq]
      exact (List.append_nil _).symm
  case receive data =>
    obtain ⟨p, hp, _⟩ := bind_eq_ok.mp e.exec
    rw [seen, hp]
    simp only [packets_packet, cycles_packet, since_packet, arrived_append, h, List.append_assoc]

end AnalyzerServer

-- What `recvfrom` returns in a step.
def ServerAction.data? : ServerAction → Option (List UInt8)
  | .compare      => none
  | .receive data => some data

namespace AnalyzerServer

variable [LT W] [DecidableLT W] {little : Bool} {rdp : List (Nat × W) → List (Nat × W)}
variable {config : Config W} {ok : AnalyzerServer W → ServerAction → Prop} {as : List ServerAction}
variable {y y₀ : AnalyzerServer W}

-- Whatever is received is decoded, or the server would have stopped.
theorem received (r : (analyzerServer little rdp config).Run ok y₀ as y) :
    List.Forall₂ (fun data packet => packetOf little data = .ok packet) (as.filterMap ServerAction.data?)
      (Seen.packets ((analyzerServer little rdp config).trace (seen little config) y₀ as)) := by
  induction r
  case refl => exact .nil
  case step a as e _ ih =>
    rw [Machine.trace_cons e.2, Seen.packets_append]
    cases a
    case compare =>
      rw [seen]
      split
      case isTrue  => exact ih
      case isFalse => exact ih
    case receive data =>
      obtain ⟨p, hp, _⟩ := bind_eq_ok.mp e.2.exec
      rw [seen, hp]
      exact .cons hp ih

theorem packets_trace (r : (analyzerServer little rdp config).Run ok y₀ as y) :
    Seen.packets ((analyzerServer little rdp config).trace (seen little config) y₀ as) =
      (as.filterMap ServerAction.data?).filterMap fun data => (packetOf little data).toOption := by
  have hall := received r
  generalize Seen.packets _ = packets at hall ⊢
  generalize as.filterMap _ = datas at hall ⊢
  induction hall
  case nil => rfl
  case cons hp _ ih => rw [List.filterMap_cons_some (by rw [hp]; rfl), ← ih]

end AnalyzerServer

namespace Profile

-- Every call of `GatherNSerialize` begins a pass, with names that can be read, and what it fills is
-- received as a whole.
def Plain (y : Profile D) : ProfileAction D → Prop
  | .gather size => y.data.atEnd = true ∧ y.Readable ∧ size ≤ 512
  | _            => True

instance (y : Profile D) (a : ProfileAction D) : Decidable (y.Plain a) :=
  match a with
  | .gather _ => inferInstanceAs (Decidable (_ ∧ _ ∧ _))
  | .tick _ | .log .. | .trackSender .. | .record .. | .finish => inferInstanceAs (Decidable True)

structure Legible (y : Profile D) (buffer : Buffer D) : Prop where
  length : buffer.bytes.length ≤ 512
  group  : Utf8.Valid (y.data.dataGroupName.text.take kMaxNameLength)
  names  : ∀ name ∈ y.data.names, Utf8.Valid (name.text.take kMaxNameLength)
  sender : ∃ sender, buffer.sender = some sender ∧
           Utf8.Valid ((SenderLogger.nameOf sender).take kMaxNameLength)

structure Legibles (y : Profile D) : Prop where
  limit   : ∀ c ∈ y.call, c.1 ≤ 512
  legible : ∀ buffer, y.Holds buffer → y.Legible buffer

variable {y y' : Profile D} {a : ProfileAction D}

namespace Legibles

theorem of_legible (hg : y'.data.dataGroupName = y.data.dataGroupName) (hn : y'.data.names = y.data.names)
    (hb : ∀ buffer ∈ y'.buffers, y.Legible buffer)
    (hc : ∀ c ∈ y'.call, c.1 ≤ 512 ∧ y.Legible c.2) : y'.Legibles := by
  refine ⟨fun c hm => (hc c hm).1, fun buffer hholds => ?_⟩
  have h : y.Legible buffer := by
    cases hholds
    case inl hm => exact hb buffer hm
    case inr hm =>
      obtain ⟨c, hcall, rfl⟩ := Option.map_eq_some_iff.mp hm
      exact (hc c hcall).2
  exact ⟨h.length, hg ▸ h.group, hn ▸ h.names, h.sender⟩

theorem step (h : y.Legibles) (ha : y.Plain a) (e : Effect F y a y') : y'.Legibles := by
  have hbuffers : ∀ buffer ∈ y.buffers, y.Legible buffer := fun b hb => h.legible b (.inl hb)
  have hcall : ∀ c ∈ y.call, c.1 ≤ 512 ∧ y.Legible c.2 := fun c hc =>
    ⟨h.limit c hc, h.legible c.2 <| .inr <| Option.map_eq_some_iff.mpr ⟨c, hc, rfl⟩⟩
  cases e
  case tick | trackSender => exact of_legible (y := y) rfl rfl hbuffers hcall
  case log                => exact of_legible (y := y) rfl ProfileData.names_logged hbuffers hcall
  case gather size _ hc =>
    obtain ⟨hend, hr, hsize⟩ := ha
    refine of_legible (y := y) rfl rfl hbuffers fun c hm => ?_
    obtain rfl := Option.some.inj hm
    refine ⟨hsize, ProfileData.length_header_le.trans (by decide), hr.group, hr.names, _, ?_, hr.sender⟩
    simp [ProfileData.header, hend]
  case record t t' size buffer name aggregate _ _ hc hgo hat _ =>
    obtain ⟨hsize, hold⟩ := hcall _ hc
    refine of_legible (y := y) rfl (ProfileData.names_advanced hat) hbuffers fun c hm => ?_
    obtain rfl := Option.some.inj hm
    refine ⟨hsize, ?_⟩
    by_cases hz : Bytes.toNat (intImage aggregate.logCount) = 0
    case pos => rwa [if_pos hz]
    case neg =>
      have hlength := ProfileData.length_append_image_le (F := F) (r := aggregate.record F name t) hgo
      rw [if_neg hz]
      exact ⟨hlength.trans hsize, hold.group, hold.names, hold.sender⟩
  case finish size buffer hc _ =>
    refine of_legible (y := y) rfl rfl (fun b hb => ?_) (by simp)
    cases List.mem_append.mp hb
    case inl hb => exact hbuffers b hb
    case inr hb => exact List.mem_singleton.mp hb ▸ (hcall _ hc).2

end Legibles

theorem legibles (h : (profile F).Reachable Plain y) : y.Legibles := by
  refine h.induction (fun y hy => ?_) fun y _ _ hr hy ha e => hy.step ha <| effect (inv hr).next e
  obtain ⟨_, _, _, _, _, rfl⟩ := hy
  exact ⟨nofun, fun b hb => hb.elim nofun nofun⟩

variable {buffer : Buffer D} {little : Bool}

theorem Legible.exists_tells (little : Bool) (hi : y.Inv F) (h : y.Legible buffer) (hb : buffer ∈ y.buffers) :
    ∃ packet, AnalyzerServer.packetOf little buffer.bytes = .ok packet ∧
      packet.Tells F buffer y.data.dataGroupName := by
  obtain ⟨sender, hs, hsender⟩ := h.sender
  obtain ⟨packet, ha, ht⟩ := Buffer.exists_tells hs (hi.records buffer (.inl hb)) h.names h.group hsender
  refine ⟨packet, ?_, ht⟩
  rw [AnalyzerServer.packetOf, List.take_of_length_le h.length, hi.images buffer (.inl hb)]
  exact decodePacket_eq_ok.mpr ha

-- The packets in the buffers.
theorem exists_packets (little : Bool) (hi : y.Inv F) (h : y.Legibles) :
    ∃ packets, (y.buffers.map Buffer.bytes).filterMap
        (fun data => (AnalyzerServer.packetOf little data).toOption) = packets ∧
      List.Forall₂ (fun packet buffer => Packet.Tells F packet buffer y.data.dataGroupName) packets y.buffers := by
  suffices hall : ∀ buffers ⊆ y.buffers, ∃ packets, (buffers.map Buffer.bytes).filterMap
        (fun data => (AnalyzerServer.packetOf little data).toOption) = packets ∧
      List.Forall₂ (fun packet buffer => Packet.Tells F packet buffer y.data.dataGroupName) packets buffers from
    hall _ fun _ => id
  intro buffers hsub
  induction buffers
  case nil => exact ⟨[], rfl, .nil⟩
  case cons buffer buffers ih =>
    obtain ⟨hb, hsub⟩ := List.cons_subset.mp hsub
    obtain ⟨packets, hpackets, htells⟩ := ih hsub
    obtain ⟨packet, hp, ht⟩ := (h.legible buffer (.inl hb)).exists_tells little hi hb
    refine ⟨packet :: packets, ?_, .cons ht htells⟩
    rw [List.map_cons, List.filterMap_cons_some (by rw [hp]; rfl), hpackets]

-- The records of a type of event are those that bear its name, if no other name reads like it.
theorem recordsOf_eq_filter (hi : y.Inv F) (hc : y.call = none) {name : CString} (hname : name ∈ y.data.names)
    (hown : ∀ name' ∈ y.data.names, name'.text.take kMaxNameLength = name.text.take kMaxNameLength →
      name'.address = name.address) :
    y.recordsOf name = (y.buffers.flatMap Buffer.records).filter fun r =>
      r.name.text.take kMaxNameLength = name.text.take kMaxNameLength := by
  have hemitted : y.emitted = y.buffers.flatMap Buffer.records := by simp [emitted, hc]
  rw [recordsOf, hemitted]
  refine List.filter_congr fun r hr => decide_eq_decide.mpr ⟨fun ha => ?_, fun ht => ?_⟩
  all_goals
    obtain ⟨buffer, hb, hr⟩ := List.mem_flatMap.mp hr
    have hmem := (hi.records buffer (.inl hb) r hr).name
  · rw [List.inj_on_of_nodup_map hi.names hmem hname ha]
  · exact hown r.name hmem ht

end Profile

section Tells

variable {packets : List (Packet (BitVec 64))} {buffers : List (Buffer D)} {dataGroupName : CString}
variable {name : Str}

theorem arrived_eq_flatMap (hs : Utf8.encode name = dataGroupName.text.take kMaxNameLength)
    (h : List.Forall₂ (fun packet buffer => Packet.Tells F packet buffer dataGroupName) packets buffers) :
    Seen.arrived name packets = packets.flatMap Packet.events := by
  have hreceivers : ∀ packet ∈ packets, packet.receiver = name :=
    (List.forall₂_and_left _ _).mp (h.imp fun packet buffer ht =>
      ⟨Utf8.encode_injective <| ht.receiver.trans hs.symm, ht⟩) |>.1
  rw [Seen.arrived, List.filter_eq_self.mpr fun packet hp => decide_eq_true (hreceivers packet hp)]

-- The events tell the records.
theorem sum_filter_eq {M : Type} [AddCommMonoid M] {f : Event (BitVec 64) → M} {g : Record D → M}
    (text : List UInt8)
    (h : List.Forall₂ (fun packet buffer => Packet.Tells F packet buffer dataGroupName) packets buffers)
    (hf : ∀ event r, Event.Tells F event r → f event = g r) :
    (((packets.flatMap Packet.events).filter fun event => Utf8.encode event.getType = text).map f).sum =
      (((buffers.flatMap Buffer.records).filter fun r => r.name.text.take kMaxNameLength = text).map g).sum := by
  have hevents : List.Forall₂ (Event.Tells F) (packets.flatMap Packet.events) (buffers.flatMap Buffer.records) :=
    List.rel_flatMap h fun _ _ ht => ht.events
  have hfilter : List.Forall₂ (Event.Tells F)
      ((packets.flatMap Packet.events).filter fun event => Utf8.encode event.getType = text)
      ((buffers.flatMap Buffer.records).filter fun r => r.name.text.take kMaxNameLength = text) :=
    List.rel_filter (fun event r ht => by simp [ht.name]) hevents
  have hmap := List.rel_map (P := Eq) (fun event r ht => hf event r ht) hfilter
  rw [List.forall₂_eq_eq_eq] at hmap
  rw [hmap]

end Tells

-- What is logged on one computer is found in the measurements on the other one. If every buffer is
-- received once, whatever else is received and whenever a cycle ends, the events of a type that were
-- logged are those that the measurements find in the channel, and those that the aggregate still holds.
theorem events_observed [LT W] [DecidableLT W] {little : Bool} {rdp : List (Nat × W) → List (Nat × W)}
    {config : Config W} {ok : AnalyzerServer W → ServerAction → Prop} {y₀ y : AnalyzerServer W}
    {as : List ServerAction} {p : Profile D} {others : List (List UInt8)} {name : Str}
    (h : (profile F).Reachable Profile.Plain p) (hc : p.call = none)
    (hname : Utf8.encode name = p.data.dataGroupName.text.take kMaxNameLength)
    (hT : 0 < config.packetsCycleThreshold) (hk : (config.channelMeasurements.map Prod.fst).Nodup)
    (hk' : (config.pipelineMeasurements.map Prod.fst).Nodup)
    (hi : (analyzerServer little rdp config).Init y₀)
    (r : (analyzerServer little rdp config).Run ok y₀ as y)
    (hreceived : (as.filterMap ServerAction.data?).Perm (p.buffers.map Buffer.bytes ++ others))
    (hothers : ∀ data ∈ others, ∀ packet, AnalyzerServer.packetOf little data = .ok packet →
      packet.receiver ≠ name) :
    let log := (analyzerServer little rdp config).trace (AnalyzerServer.seen little config) y₀ as
    ∀ a ∈ p.data.aggregates, (∀ other ∈ p.data.names,
        other.text.take kMaxNameLength = a.1.text.take kMaxNameLength → other.address = a.1.address) →
      let found := (Seen.observed name log y.channelsManager).filter fun event =>
        Utf8.encode event.getType = a.1.text.take kMaxNameLength
      ((p.eventsOf a.1).length : Int) = (found.map fun event => (event.logCount : Int)).sum + a.2.logCount ∧
      ∀ (value : D → ℚ) (double : BitVec 64 → ℚ), F.Exact value → (∀ d, double (F.bits d) = value d) →
        ((p.eventsOf a.1).map value).sum =
          (found.map fun event => event.logCount * double event.avgVal).sum + value a.2.sum := by
  intro log a ha hown found
  have hinv := Profile.inv h
  obtain ⟨hcount, hsum⟩ := (events_conserved h).1 a ha
  obtain ⟨packets, hpackets, htells⟩ := Profile.exists_packets little hinv (Profile.legibles h)
  have hnone : Seen.arrived name
      (others.filterMap fun data => (AnalyzerServer.packetOf little data).toOption) = [] := by
    refine Seen.arrived_eq_nil fun packet hp => ?_
    obtain ⟨data, hd, hp⟩ := List.mem_filterMap.mp hp
    cases hdata : AnalyzerServer.packetOf little data
    case error => simp [hdata, Except.toOption] at hp
    case ok packet' =>
      obtain rfl : packet' = packet := by simpa [hdata, Except.toOption] using hp
      exact hothers data hd packet' hdata
  have hperm : (Seen.observed name log y.channelsManager).Perm (packets.flatMap Packet.events) := by
    rw [← AnalyzerServer.arrived_eq_observed hT hk hk' hi r, AnalyzerServer.packets_trace r,
      ← arrived_eq_flatMap hname htells]
    refine (Seen.arrived_perm <| hreceived.filterMap _).trans ?_
    rw [List.filterMap_append, hpackets, Seen.arrived_append, hnone, List.append_nil]
  have hfound : ∀ {M : Type} [AddCommMonoid M] {f : Event (BitVec 64) → M} {g : Record D → M},
      (∀ event r, Event.Tells F event r → f event = g r) →
      (found.map f).sum = ((p.recordsOf a.1).map g).sum := by
    intro M _ f g hf
    have hmem : a.1 ∈ p.data.names := List.mem_map_of_mem ha
    rw [((hperm.filter _).map f).sum_eq, sum_filter_eq _ htells hf,
      Profile.recordsOf_eq_filter hinv hc hmem hown]
  refine ⟨?_, fun value double he hd => ?_⟩
  · rw [hcount, hfound fun event r ht => ht.logCount]
  · rw [hsum value he, hfound (g := fun r => r.logCount * value r.avg) fun event r ht => ?_]
    rw [ht.avgVal, hd, ← ht.logCount]
    rfl

-- The channel "f" tells of two events, of the type "f".
def twoEvents : List UInt8 :=
  groupTag ++ serializeString [102] ++ senderTag ++ serializeString [78, 47, 65] ++ recordTag ++
    serializeString [102] ++ intImage 2 ++ intImage 2 ++ .replicate 24 0

-- Two of three events are received, and another channel tells of none.
theorem events_observed_two :
    ∃ (p : Profile ℚ) (y : AnalyzerServer Nat) (log : List Seen), (p.eventsOf (nameAt 1)).length = 3 ∧
      (Seen.cycles log).length = 1 ∧ ∀ a ∈ p.data.aggregates, a.1 = nameAt 1 ∧
      ((p.eventsOf a.1).length : Int) = (((Seen.observed ['f'] log y.channelsManager).filter fun event =>
        Utf8.encode event.getType = a.1.text.take kMaxNameLength).map fun event =>
          (event.logCount : Int)).sum + a.2.logCount := by
  obtain ⟨p, hr, hc, hgroup, hbuffers, hevents, hnames⟩ := Machine.exists_reachable_of_replay
    (M := profile rationals) (s := dataOf 1) Profile.Plain
    [.log (nameAt 1) 3, .log (nameAt 1) 4, .gather 128, .record 7 7, .finish, .log (nameAt 1) 5]
    (P := fun p => p.call.isNone = true ∧ p.data.dataGroupName = nameAt 0 ∧
      p.buffers.map Buffer.bytes = [twoEvents] ∧ (p.eventsOf (nameAt 1)).length = 3 ∧
      p.data.names = [nameAt 1]) (dataOf_init 1) (by decide +kernel)
  have hrun : ((analyzerServer true lineEnds constantConfig).replay (fun _ _ => True) (.new constantConfig)
      [.compare, .receive emptyPacket, .compare, .receive twoEvents]).isSome = true := by
    decide +kernel
  have hcycles : (Seen.cycles <| (analyzerServer true lineEnds constantConfig).trace
      (AnalyzerServer.seen true constantConfig) (.new constantConfig)
      [.compare, .receive emptyPacket, .compare, .receive twoEvents]).length = 1 := by
    decide +kernel
  obtain ⟨y, hy⟩ := Option.isSome_iff_exists.mp hrun
  have hother : ∀ data ∈ [emptyPacket], ∀ packet, AnalyzerServer.packetOf true data = .ok packet →
      packet.receiver ≠ ['f'] := by
    intro data hd packet hp
    obtain rfl := List.mem_singleton.mp hd
    have hpacket : (AnalyzerServer.packetOf true emptyPacket).map Packet.receiver = .ok ['B'] := by
      decide +kernel
    rw [hp] at hpacket
    rw [Except.ok.inj hpacket]
    decide
  have hinit : (analyzerServer true lineEnds constantConfig).Init (.new constantConfig) := rfl
  have hall := events_observed hr (Option.isNone_iff_eq_none.mp hc) (by rw [hgroup]; decide +kernel)
    (by decide) (by decide) (by decide) hinit (Machine.run_of_replay hy)
    (by rw [hbuffers]; exact .swap ..) hother
  refine ⟨p, y, _, hevents, hcycles, fun a ha => ?_⟩
  have hname : a.1 ∈ p.data.names := List.mem_map_of_mem ha
  rw [hnames, List.mem_singleton] at hname
  refine ⟨hname, (hall a ha fun other ho _ => ?_).1⟩
  rw [hnames, List.mem_singleton] at ho
  rw [ho, hname]

end PipeRT
