import PipeRT.Analyzer.ChannelsMap
import PipeRT.Analyzer.Measurements

namespace PipeRT
namespace TimeToBufferAverage

variable {W : Type} {m : ChannelsManager ℚ W} {channel : Channel ℚ W} {as : List (ManagerAction ℚ)}

def isExternal (name : Str) : Bool :=
  externalWord.isPrefixOf name

-- The sender of the first edge into the channel that is not an external one.
def previousChannel (m : ChannelsManager ℚ W) (channel : Channel ℚ W) : Option (Channel ℚ W) := do
  let edge ← m.channelsMap.find? fun edge => edge.2 == channel.name && !isExternal edge.1
  m.channels.find? fun c => c.name == edge.1

-- What is taken for it: the first channel, if the given one is the second.
def assumedChannel (m : ChannelsManager ℚ W) (channel : Channel ℚ W) : Option (Channel ℚ W) :=
  match m.channels with
  | first :: second :: _ =>
    if second.name = channel.name ∧ isExternal first.name = false then some first else none
  | _ => none

-- What the measurement should be if the previous channel is the given one.
def timeFrom (channel : Channel ℚ W) (previousChannel : Option (Channel ℚ W)) : ℚ :=
  previousChannel.elim 0 (result channel)

-- How much later than the previous channel was executed a packet is pushed, for the time to be zero.
def wait (previousChannel : Channel ℚ W) : ℚ :=
  average (previousChannel.getEvent packetRetrieved) - average (previousChannel.getEvent executionTime)

-- The events of the channels do not tell them apart: the waits agree, or both times would be negative.
-- Without a previous channel, the time is zero.
def Coincide (channel : Channel ℚ W) : Option (Channel ℚ W) → Option (Channel ℚ W) → Prop
  | none,   none   => True
  | some p, none   => average (channel.getEvent packetPushed) = wait p
  | none,   some q => average (channel.getEvent packetPushed) = wait q
  | some p, some q => wait p = wait q ∨
    average (channel.getEvent packetPushed) < wait p ∧ average (channel.getEvent packetPushed) < wait q

instance (channel : Channel ℚ W) : DecidableRel (Coincide channel)
  | none,   none   => inferInstanceAs (Decidable True)
  | some _, none   => inferInstanceAs (Decidable (_ = _))
  | none,   some _ => inferInstanceAs (Decidable (_ = _))
  | some _, some _ => inferInstanceAs (Decidable (_ ∨ _ ∧ _))

theorem result_eq (channel previousChannel : Channel ℚ W) : result channel previousChannel =
    if average (channel.getEvent packetPushed) < wait previousChannel then -1
    else average (channel.getEvent packetPushed) - wait previousChannel := by
  have htime : average (channel.getEvent packetPushed) - average (previousChannel.getEvent packetRetrieved) +
      average (previousChannel.getEvent executionTime) =
      average (channel.getEvent packetPushed) - wait previousChannel := by rw [wait]; ring
  simp only [result, htime, sub_neg]

theorem result_eq_zero_iff {p : Channel ℚ W} :
    result channel p = 0 ↔ average (channel.getEvent packetPushed) = wait p := by
  rw [result_eq]
  split
  case isTrue h  => exact iff_of_false (by norm_num) h.ne
  case isFalse h => exact sub_eq_zero

theorem result_eq_result_iff {p q : Channel ℚ W} : result channel p = result channel q ↔
    wait p = wait q ∨
      average (channel.getEvent packetPushed) < wait p ∧ average (channel.getEvent packetPushed) < wait q := by
  rw [result_eq, result_eq]
  split <;> split
  case isTrue.isTrue hp hq => exact iff_of_true rfl <| .inr ⟨hp, hq⟩
  case isTrue.isFalse hp hq =>
    refine iff_of_false (fun he => ?_) (not_or.mpr ⟨fun he => hq <| he ▸ hp, fun h => hq h.2⟩)
    linarith
  case isFalse.isTrue hp hq =>
    refine iff_of_false (fun he => ?_) (not_or.mpr ⟨fun he => hp <| he ▸ hq, fun h => hp h.1⟩)
    linarith
  case isFalse.isFalse hp hq =>
    rw [sub_right_inj, or_iff_left fun h => hp h.1]

theorem timeFrom_eq_iff {p q : Option (Channel ℚ W)} :
    timeFrom channel p = timeFrom channel q ↔ Coincide channel p q := by
  cases p <;> cases q
  case none.none => exact iff_of_true rfl trivial
  case none.some => exact eq_comm.trans result_eq_zero_iff
  case some.none => exact result_eq_zero_iff
  case some.some => exact result_eq_result_iff

-- The previous channel is there whenever there is an edge.
theorem isSome_previousChannel (h : m.Knows as) :
    (previousChannel m channel).isSome = true ↔
      ∃ edge ∈ m.channelsMap, edge.2 = channel.name ∧ isExternal edge.1 = false := by
  rw [previousChannel]
  cases hf : m.channelsMap.find? fun edge => edge.2 == channel.name && !isExternal edge.1
  case none =>
    refine iff_of_false (by simp) fun ⟨edge, hm, hname, he⟩ => ?_
    have hn := List.find?_eq_none.mp hf edge hm
    simp [hname, he] at hn
  case some edge =>
    have hm := List.mem_of_find?_eq_some hf
    obtain ⟨hname, he⟩ : edge.2 = channel.name ∧ isExternal edge.1 = false := by
      simpa using List.find?_some hf
    refine iff_of_true ?_ ⟨edge, hm, hname, he⟩
    obtain ⟨c, hc, hcname⟩ := List.mem_map.mp (h.ends edge hm).1
    simp only [Option.bind_eq_bind, Option.bind_some, List.find?_isSome]
    exact ⟨c, hc, by simpa using hcname⟩

theorem measure_eq (h : m.Knows as) :
    measure m channel =
      if 2 ≤ m.channels.length ∧ 2 ≤ m.channelsMap.length then
        .ok (timeFrom channel (assumedChannel m channel))
      else
        .error .indexError := by
  obtain ⟨connections, hmap, hresolve⟩ := h.exists_map
  have hlen : connections.length = m.channelsMap.length := by
    simpa using congrArg List.length hresolve
  rw [measure, hmap, ok_bind, ← hlen]
  rcases hc : m.channels with _ | ⟨first, _ | ⟨second, channels⟩⟩
  case nil => simp [ChannelsManager.names, hc, isNames, bind, Except.bind]
  case cons.nil => simp [ChannelsManager.names, hc, isNames, bind, Except.bind]
  case cons.cons =>
    have hnames : m.names = first.name :: second.name :: channels.map Channel.name := by
      rw [ChannelsManager.names, hc]
      rfl
    rcases connections with _ | ⟨_, _ | ⟨_, connections⟩⟩
    case nil => simp [hnames, isNames, isConnections, bind, Except.bind]
    case cons.nil => simp [hnames, isNames, isConnections, bind, Except.bind]
    case cons.cons =>
      simp only [hnames, isNames, isConnections, ok_bind, assumedChannel, hc, isExternal]
      by_cases hs : second.name = channel.name ∧ externalWord.isPrefixOf first.name = false
      case pos => simp [hs, timeFrom]
      case neg =>
        have hnot : (second.name == channel.name && !externalWord.isPrefixOf first.name) = false := by
          simpa using hs
        simp [hs, hnot, timeFrom]

end TimeToBufferAverage

open TimeToBufferAverage

-- The map is taken for a list of edges, but it is a pair of two lists. With fewer than two entries in
-- one of them the measurement fails, and otherwise it only depends on the first two names. It is right
-- if they happen to be those of the first edge into the channel, or if their events do not differ.
theorem time_to_buffer_iff {W : Type} {ok : ChannelsManager ℚ W → ManagerAction ℚ → Prop}
    {m₀ m : ChannelsManager ℚ W} {as : List (ManagerAction ℚ)} (hi : (channelsManager ℚ W).Init m₀)
    (r : (channelsManager ℚ W).Run ok m₀ as m) (channel : Channel ℚ W) :
    ((previousChannel m channel).isSome = true ↔
      ∃ edge ∈ m.channelsMap, edge.2 = channel.name ∧ isExternal edge.1 = false) ∧
    (TimeToBufferAverage.measure m channel = .ok (timeFrom channel (previousChannel m channel)) ↔
      2 ≤ m.channels.length ∧ 2 ≤ m.channelsMap.length ∧
        (assumedChannel m channel = previousChannel m channel ∨
          Coincide channel (assumedChannel m channel) (previousChannel m channel))) := by
  have hk := (ChannelsManager.knows hi r).1
  refine ⟨isSome_previousChannel hk, ?_⟩
  have hsame (h : assumedChannel m channel = previousChannel m channel) :
      Coincide channel (assumedChannel m channel) (previousChannel m channel) :=
    timeFrom_eq_iff.mp <| congrArg (timeFrom channel) h
  rw [measure_eq hk, or_iff_right_of_imp hsame, ← timeFrom_eq_iff, ← and_assoc]
  split
  case isTrue h  => simp [h]
  case isFalse h => simp [h]

section Examples

-- Packets that channels have pushed to each other.
def pushed (receiver sender : Str) : ManagerAction ℚ :=
  .addPacket ⟨receiver, ['S', 'E', 'N', 'D'] ++ sender, [single packetPushed 0 4]⟩ 1

theorem time_to_buffer_iff_second :
    ∃ (m : ChannelsManager ℚ ℚ) (channel : Channel ℚ ℚ), channel ∈ m.channels ∧
      TimeToBufferAverage.measure m channel = .ok (timeFrom channel (previousChannel m channel)) := by
  obtain ⟨m, r, hm⟩ : ∃ m : ChannelsManager ℚ ℚ, (channelsManager ℚ ℚ).Run (fun _ _ => True) .new
      [pushed ['a'] ['b'], pushed ['b'] ['a']] m ∧ (m.channels[1]?.any fun channel =>
        2 ≤ m.channels.length ∧ 2 ≤ m.channelsMap.length ∧
          Coincide channel (assumedChannel m channel) (previousChannel m channel)) = true :=
    ⟨_, .step ⟨trivial, trivial, rfl⟩ <| .step ⟨trivial, trivial, rfl⟩ .refl, by decide +kernel⟩
  obtain ⟨channel, hc, hm⟩ := (Option.any_eq_true ..).mp hm
  obtain ⟨hlen, hlen', hcoincide⟩ := of_decide_eq_true hm
  exact ⟨m, channel, List.mem_of_getElem? hc,
    (time_to_buffer_iff rfl r channel).2.mpr ⟨hlen, hlen', .inr hcoincide⟩⟩

-- One edge is too few. With two of them, the previous channel of the first channel is not found.
theorem time_to_buffer_fails :
    (∃ m : ChannelsManager ℚ ℚ, (channelsManager ℚ ℚ).Run (fun _ _ => True) .new
      [pushed ['a'] ['b']] m ∧ ∀ channel, TimeToBufferAverage.measure m channel = .error .indexError) ∧
      ∃ (m : ChannelsManager ℚ ℚ) (channel : Channel ℚ ℚ), (channelsManager ℚ ℚ).Run (fun _ _ => True) .new
        [pushed ['a'] ['b'], pushed ['b'] ['a']] m ∧ channel ∈ m.channels ∧
        TimeToBufferAverage.measure m channel = .ok 0 ∧
        timeFrom channel (previousChannel m channel) = 2 := by
  constructor
  case left =>
    obtain ⟨m, r, hm⟩ : ∃ m : ChannelsManager ℚ ℚ, (channelsManager ℚ ℚ).Run (fun _ _ => True) .new
        [pushed ['a'] ['b']] m ∧ m.channelsMap.length = 1 :=
      ⟨_, .step ⟨trivial, trivial, rfl⟩ .refl, by decide +kernel⟩
    refine ⟨m, r, fun channel => ?_⟩
    rw [measure_eq (ChannelsManager.knows rfl r).1, if_neg]
    omega
  case right =>
    obtain ⟨m, r, hm⟩ : ∃ m : ChannelsManager ℚ ℚ, (channelsManager ℚ ℚ).Run (fun _ _ => True) .new
        [pushed ['a'] ['b'], pushed ['b'] ['a']] m ∧ (m.channels[0]?.any fun channel =>
          2 ≤ m.channels.length ∧ 2 ≤ m.channelsMap.length ∧
            timeFrom channel (assumedChannel m channel) = 0 ∧
            timeFrom channel (previousChannel m channel) = 2) = true :=
      ⟨_, .step ⟨trivial, trivial, rfl⟩ <| .step ⟨trivial, trivial, rfl⟩ .refl, by decide +kernel⟩
    obtain ⟨channel, hc, hm⟩ := (Option.any_eq_true ..).mp hm
    obtain ⟨hlen, hlen', hassumed, hprevious⟩ := of_decide_eq_true hm
    refine ⟨m, channel, r, List.mem_of_getElem? hc, ?_, hprevious⟩
    rw [measure_eq (ChannelsManager.knows rfl r).1, if_pos ⟨hlen, hlen'⟩, hassumed]

end Examples

end PipeRT
