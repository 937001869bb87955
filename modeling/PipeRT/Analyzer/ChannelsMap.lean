import PipeRT.Analyzer.Channels
import PipeRT.FirstSeen

namespace PipeRT

variable {V W : Type}

-- The edge of the map that a packet stands for, if it does.
def Packet.edges (packet : Packet V) : List (Str × Str) :=
  if packet.getEventCount packetPushed = 0 ∨ packet.getSender = notAvailable then
    []
  else
    [(packet.getSender, packet.receiver)]

def ManagerAction.edges : ManagerAction V → List (Str × Str)
  | .addPacket packet _               => packet.edges
  | .shouldUpdateMap | .getChannelsMap => []

namespace ChannelsManager

variable {m m' : ChannelsManager V W} {a : ManagerAction V} {as : List (ManagerAction V)}

section Names

variable {receiver sender name : Str} {events : List (Event V)} {packetId : Int} {i : Nat}
variable {channels : List (Channel V W)} {names : List Str} {pushedPacketCnt : Nat}

theorem names_addTo :
    (addTo receiver events packetId channels).map Channel.name =
      addNew (channels.map Channel.name) receiver := by
  induction channels
  case nil => rfl
  case cons channel channels ih =>
    rw [addTo]
    split
    case isTrue h =>
      rw [addNew, if_pos (by simp [h])]
      rfl
    case isFalse h => rw [List.map_cons, List.map_cons, ih, addNew_cons h]

theorem names_addToChannelsMap (h : ¬(pushedPacketCnt = 0 ∨ sender = notAvailable)) :
    (m.addToChannelsMap receiver sender pushedPacketCnt).names = addNew m.names sender := by
  rw [addToChannelsMap, if_neg h, if_neg (not_or.mp h).2, addToChannelsMap.addEdge]
  by_cases hm : sender ∈ m.names
  all_goals
    simp only [hm, if_true, if_false, addNew]
    split
    all_goals simp [ChannelsManager.names, Channel.new]

theorem channelsMap_addToChannelsMap (m : ChannelsManager V W) (receiver : Str)
    (h : ¬(pushedPacketCnt = 0 ∨ sender = notAvailable)) :
    (m.addToChannelsMap receiver sender pushedPacketCnt).channelsMap =
      addNew m.channelsMap (sender, receiver) ∧
    ((m.addToChannelsMap receiver sender pushedPacketCnt).updateMap = true ↔
      m.updateMap = true ∨ (sender, receiver) ∉ m.channelsMap) ∧
    (m.addToChannelsMap receiver sender pushedPacketCnt).naChannels = m.naChannels := by
  rw [addToChannelsMap, if_neg h, if_neg (not_or.mp h).2, addToChannelsMap.addEdge]
  by_cases hm : sender ∈ m.names
  all_goals
    by_cases he : (sender, receiver) ∈ m.channelsMap
    all_goals simp [hm, he, addNew]

end Names

-- What a packet adds.
structure Adds (packet : Packet V) (m m' : ChannelsManager V W) : Prop where
  names     : m'.names = (packet.edges.map Prod.fst).foldl addNew (addNew m.names packet.receiver)
  map       : m'.channelsMap = packet.edges.foldl addNew m.channelsMap
  updateMap : m'.updateMap = true ↔ m.updateMap = true ∨ ∃ edge ∈ packet.edges, edge ∉ m.channelsMap
  na        : m'.naChannels = m.naChannels

theorem adds (m : ChannelsManager V W) (packet : Packet V) (packetId : Int) :
    Adds packet m (m.addPacket packet packetId) := by
  have hnames : (m.addReceiver packet.receiver packet.events packetId).names =
      addNew m.names packet.receiver := names_addTo
  rw [addPacket]
  by_cases h : packet.getEventCount packetPushed = 0 ∨ packet.getSender = notAvailable
  case pos =>
    rw [addToChannelsMap, if_pos h]
    refine ⟨hnames.trans ?_, ?_, ?_, rfl⟩
    all_goals simp [Packet.edges, h, addReceiver]
  case neg =>
    obtain ⟨hmap, hupdate, hna⟩ := channelsMap_addToChannelsMap
      (m.addReceiver packet.receiver packet.events packetId) packet.receiver h
    refine ⟨?_, ?_, ?_, hna⟩
    · rw [names_addToChannelsMap h, hnames, Packet.edges, if_neg h]
      rfl
    · rw [hmap, Packet.edges, if_neg h]
      rfl
    · rw [hupdate, Packet.edges, if_neg h]
      simp [addReceiver]

-- What the manager knows of the packets.
structure Knows (as : List (ManagerAction V)) (m : ChannelsManager V W) : Prop where
  na    : m.naChannels = []
  nodup : m.names.Nodup
  map   : m.channelsMap = (as.flatMap ManagerAction.edges).eraseDups
  ends  : ∀ edge ∈ m.channelsMap, edge.1 ∈ m.names ∧ edge.2 ∈ m.names

theorem Knows.congr (h : Knows as m) (hnames : m'.names = m.names)
    (hna : m'.naChannels = m.naChannels) (hmap : m'.channelsMap = m.channelsMap) : Knows as m' where
  na    := hna.trans h.na
  nodup := hnames ▸ h.nodup
  map   := hmap.trans h.map
  ends  := by
    rw [hmap, hnames]
    exact h.ends

section Packets

variable {packet : Packet V} {packetId : Int}

theorem edges_cases (packet : Packet V) :
    packet.edges = [] ∨ packet.edges = [(packet.getSender, packet.receiver)] := by
  rw [Packet.edges]
  split
  case isTrue  => exact .inl rfl
  case isFalse => exact .inr rfl

theorem Adds.prefix_names (h : Adds packet m m') : m.names <+: m'.names := by
  rw [h.names]
  obtain he | he := edges_cases packet
  all_goals rw [he]
  case inl => exact prefix_addNew
  case inr => exact prefix_addNew.trans prefix_addNew

theorem Knows.addPacket (h : Knows as m) (ha : Adds packet m m') :
    Knows (as ++ [.addPacket packet packetId]) m' := by
  have hna := ha.na.trans h.na
  have hmap := ha.map
  have hnames := ha.names
  have hsub := ha.prefix_names.subset
  have hedges : (as ++ [ManagerAction.addPacket packet packetId]).flatMap ManagerAction.edges =
      as.flatMap ManagerAction.edges ++ packet.edges := by
    simp [ManagerAction.edges]
  obtain he | he := edges_cases packet
  case inl =>
    rw [he] at hmap hnames hedges
    simp only [List.map_nil, List.foldl_nil] at hmap hnames
    refine ⟨hna, hnames ▸ nodup_addNew h.nodup, ?_, fun edge hm => ?_⟩
    · rw [hedges, List.append_nil, ← h.map]
      exact hmap
    · obtain ⟨hs, hr⟩ := h.ends edge <| hmap ▸ hm
      exact ⟨hsub hs, hsub hr⟩
  case inr =>
    rw [he] at hmap hnames hedges
    simp only [List.map_cons, List.map_nil, List.foldl_cons, List.foldl_nil] at hmap hnames
    refine ⟨hna, hnames ▸ nodup_addNew (nodup_addNew h.nodup), ?_, fun edge hm => ?_⟩
    · rw [hedges, eraseDups_concat, ← h.map]
      exact hmap
    · rw [hmap, mem_addNew] at hm
      obtain hm | rfl := hm
      case inl =>
        obtain ⟨hs, hr⟩ := h.ends edge hm
        exact ⟨hsub hs, hsub hr⟩
      case inr =>
        rw [hnames]
        exact ⟨mem_addNew.mpr <| .inr rfl, prefix_addNew.subset <| mem_addNew.mpr <| .inr rfl⟩

end Packets

theorem Knows.step (h : Knows as m) (e : (channelsManager V W).Step m a m') :
    Knows (as ++ [a]) m' ∧ m.names <+: m'.names := by
  have he := e.exec
  cases a
  case addPacket packet packetId =>
    obtain rfl := Except.ok.inj he
    exact ⟨h.addPacket <| adds .., (adds ..).prefix_names⟩
  case shouldUpdateMap =>
    obtain rfl := Except.ok.inj he
    refine ⟨⟨h.na, h.nodup, h.map.trans ?_, h.ends⟩, List.prefix_rfl⟩
    simp [ManagerAction.edges]
  case getChannelsMap =>
    obtain ⟨_, _, he⟩ := bind_eq_ok.mp he
    obtain rfl := Except.ok.inj he
    refine ⟨⟨h.na, h.nodup, h.map.trans ?_, h.ends⟩, List.prefix_rfl⟩
    simp [ManagerAction.edges]

section Lookup

variable {names : List Str} {name : Str}

-- A name that is there is found where it stands.
theorem exists_lookup (h : name ∈ names) :
    ∃ i, lookup (channelsDict names) name = .ok i ∧ names[i]? = some name := by
  suffices hall : ∀ l : List (Str × Nat), name ∈ l.map Prod.fst →
      ∃ i, l.foldl (fun (dict : Dict Nat) c => Function.update dict c.1 (some c.2)) (fun _ => none) name =
        some i ∧ (name, i) ∈ l by
    obtain ⟨i, hi, hm⟩ := hall names.zipIdx <| by simpa using h
    exact ⟨i, by rw [lookup, channelsDict, hi], by simpa using List.mem_zipIdx_iff_getElem?.mp hm⟩
  intro l hl
  induction l using List.reverseRecOn
  case nil => simp at hl
  case append_singleton l c ih =>
    rw [List.foldl_concat]
    by_cases hc : c.1 = name
    case pos =>
      obtain rfl := hc
      exact ⟨c.2, Function.update_self .., by simp⟩
    case neg =>
      rw [List.map_append, List.mem_append, List.map_singleton, List.mem_singleton,
        or_iff_left (Ne.symm hc)] at hl
      obtain ⟨i, hi, hm⟩ := ih hl
      exact ⟨i, by rw [Function.update_of_ne (Ne.symm hc), hi], List.mem_append_left _ hm⟩

end Lookup

-- The names that a map is resolved with.
def resolve (names : List Str) (connection : Nat × Nat) : Option Str × Option Str :=
  (names[connection.1]?, names[connection.2]?)

theorem Knows.exists_map (h : Knows as m) :
    ∃ connections, m.getChannelsMap = .ok (m.names, connections) ∧
      connections.map (resolve m.names) = m.channelsMap.map (Prod.map some some) := by
  have hbody : ∀ edge ∈ m.channelsMap, ∃ connection : Nat × Nat,
      (do
        let s ← lookup (channelsDict m.names) edge.1
        let r ← lookup (channelsDict m.names) edge.2
        return (s, r)) = Except.ok connection ∧
        Prod.map some some edge = resolve m.names connection := by
    intro edge hm
    obtain ⟨hs, hr⟩ := h.ends edge hm
    obtain ⟨s, hs, hs'⟩ := exists_lookup hs
    obtain ⟨r, hr, hr'⟩ := exists_lookup hr
    exact ⟨(s, r), by rw [hs, hr]; rfl, by rw [resolve, hs', hr']; rfl⟩
  obtain ⟨connections, hc, hresolve⟩ := exists_mapM_eq_ok hbody
  refine ⟨connections, ?_, ?_⟩
  · rw [getChannelsMap, h.na, List.append_nil]
    rw [hc]
    rfl
  · rw [← List.forall₂_eq_eq_eq, List.forall₂_map_left_iff, List.forall₂_map_right_iff]
    exact hresolve.flip.imp fun _ _ he => he.symm

-- The actions up to the last call of `should_update_map`, and those since then. It returns whether
-- there is a new edge among the latter.
def Flags (as : List (ManagerAction V)) (m : ChannelsManager V W) : Prop :=
  ∃ before since, as = before ++ since ∧
    (before = [] ∨ ∃ bs, before = bs ++ [ManagerAction.shouldUpdateMap]) ∧
    ManagerAction.shouldUpdateMap ∉ since ∧
    (m.shouldUpdateMap.1 = true ↔
      ∃ edge ∈ since.flatMap ManagerAction.edges, edge ∉ before.flatMap ManagerAction.edges)

theorem Flags.step (h : Flags as m) (hk : Knows as m) (e : (channelsManager V W).Step m a m') :
    Flags (as ++ [a]) m' := by
  obtain ⟨before, since, rfl, hlast, hsince, hflag⟩ := h
  have he := e.exec
  cases a
  case addPacket packet packetId =>
    obtain rfl := Except.ok.inj he
    refine ⟨before, since ++ [.addPacket packet packetId], List.append_assoc .., hlast, by simpa using hsince, ?_⟩
    have hmem : ∀ edge, edge ∈ m.channelsMap ↔
        edge ∈ before.flatMap ManagerAction.edges ∨ edge ∈ since.flatMap ManagerAction.edges := by
      intro edge
      rw [hk.map, List.mem_eraseDups, List.flatMap_append, List.mem_append]
    have hupdate := (adds m packet packetId).updateMap
    rw [List.flatMap_append, List.flatMap_singleton]
    simp only [shouldUpdateMap, ManagerAction.edges, hmem] at hflag hupdate ⊢
    rw [hupdate, hflag]
    grind
  case shouldUpdateMap =>
    obtain rfl := Except.ok.inj he
    refine ⟨_, [], (List.append_nil _).symm, .inr ⟨_, rfl⟩, by simp, ?_⟩
    simp [shouldUpdateMap]
  case getChannelsMap =>
    obtain ⟨_, _, he⟩ := bind_eq_ok.mp he
    obtain rfl := Except.ok.inj he
    refine ⟨before, since ++ [.getChannelsMap], List.append_assoc .., hlast, by simpa using hsince, ?_⟩
    simpa [ManagerAction.edges] using hflag

variable {ok : ChannelsManager V W → ManagerAction V → Prop} {m₀ : ChannelsManager V W}

theorem knows (hi : (channelsManager V W).Init m₀) (r : (channelsManager V W).Run ok m₀ as m) :
    Knows as m ∧ Flags as m := by
  refine r.invariant (I := fun as m => Knows as m ∧ Flags as m)
    (fun _ _ _ _ h e => ⟨(h.1.step e.2).1, h.2.step h.1 e.2⟩) ?_
  obtain rfl := hi
  refine ⟨⟨rfl, List.nodup_nil, rfl, by simp [ChannelsManager.new]⟩, [], [], rfl, .inl rfl, by simp, ?_⟩
  simp [shouldUpdateMap, ChannelsManager.new]

end ChannelsManager

-- The map is always that of the packets so far, and its indices stay what they are.
theorem channels_mapped {ok : ChannelsManager V W → ManagerAction V → Prop} {m₀ m : ChannelsManager V W}
    {as : List (ManagerAction V)} (hi : (channelsManager V W).Init m₀)
    (r : (channelsManager V W).Run ok m₀ as m) :
    m.names.Nodup ∧
    (∃ connections, m.getChannelsMap = .ok (m.names, connections) ∧ connections.Nodup ∧
      connections.map (ChannelsManager.resolve m.names) =
        (as.flatMap ManagerAction.edges).eraseDups.map (Prod.map some some)) ∧
    (∀ as' m' names connections, (channelsManager V W).Run ok m as' m' →
      m'.getChannelsMap = .ok (names, connections) → m.names <+: names) ∧
    m.Flags as := by
  obtain ⟨hk, hf⟩ := ChannelsManager.knows hi r
  obtain ⟨connections, hmap, hresolve⟩ := hk.exists_map
  rw [hk.map] at hresolve
  refine ⟨hk.nodup, ⟨connections, hmap, ?_, hresolve⟩, fun as' m' names connections' r' h => ?_, hf⟩
  · refine List.Nodup.of_map (ChannelsManager.resolve m.names) <| hresolve ▸ nodup_eraseDups.map ?_
    exact (Option.some_injective _).prodMap (Option.some_injective _)
  · have hk' := (ChannelsManager.knows hi <| r.trans r').1
    obtain ⟨_, hmap', _⟩ := hk'.exists_map
    obtain ⟨rfl, _⟩ := Prod.mk.inj <| Except.ok.inj <| hmap'.symm.trans h
    refine (r'.invariant (I := fun bs m' => m'.Knows (as ++ bs) ∧ m.names <+: m'.names)
      (fun bs m₁ a m₂ hb e => ?_) ⟨(List.append_nil as).symm ▸ hk, List.prefix_rfl⟩).2
    obtain ⟨hnext, hprefix⟩ := hb.1.step e.2
    exact ⟨List.append_assoc as bs [a] ▸ hnext, hb.2.trans hprefix⟩

-- Two packets from the channel "b", of which the second one tells nothing new.
theorem channels_mapped_twice :
    ∃ (as : List (ManagerAction ℚ)) (m : ChannelsManager ℚ ℚ), m.names = [['a'], ['b']] ∧
      (∃ connections, m.getChannelsMap = .ok (m.names, connections) ∧ connections.length = 1) ∧
      m.Flags as := by
  let event : Event ℚ := ⟨['L', 'O', 'G', 'A'] ++ packetPushed, 1, 1, 1, 1, 1⟩
  let packet : Packet ℚ := ⟨['a'], ['S', 'E', 'N', 'D', 'b'], [event]⟩
  let as : List (ManagerAction ℚ) := [.addPacket packet 1, .shouldUpdateMap, .addPacket packet 2]
  have hedges : (as.flatMap ManagerAction.edges).eraseDups = [(['b'], ['a'])] := by decide +kernel
  obtain ⟨m, r, hnames⟩ : ∃ m : ChannelsManager ℚ ℚ,
      (channelsManager ℚ ℚ).Run (fun _ _ => True) .new as m ∧ m.names = [['a'], ['b']] :=
    ⟨_, .step ⟨trivial, trivial, rfl⟩ <| .step ⟨trivial, trivial, rfl⟩ <| .step ⟨trivial, trivial, rfl⟩ .refl,
      by decide +kernel⟩
  obtain ⟨_, ⟨connections, hmap, _, hresolve⟩, _, hflags⟩ := channels_mapped rfl r
  refine ⟨as, m, hnames, ⟨connections, hmap, ?_⟩, hflags⟩
  rw [← connections.length_map, hresolve, hedges]
  rfl

end PipeRT
