import PipeRT.System.Basic

open Heap

namespace PipeRT

namespace Client

-- A packet whose `Packet<T>` object is alive.
def alive : Client → Option Slot
  | acquiring _ _ (.dropped p) | filling _ p | pushing _ p | processing _ p => some p
  | _                                                                       => none

-- The packet that the client is about to put into the queue.
def enters : Client → Option Slot
  | pushing _ p => some p
  | _           => none

-- The packet that the client has just got out of the queue.
def leaves : Client → Option Slot
  | acquiring _ _ (.dropped p) | processing _ p => some p
  | _                                           => none

-- The client is about to release a packet that it dropped.
def isDropped : Client → Bool
  | acquiring _ _ (.dropped _) => true
  | _                          => false

-- What the client's next assertions about times rely on.
def Timely (ch : ChannelImpl) (t : Time) : Client → Prop
  | filling _ p | processing _ p => ch.opTimestamp p ≤ t
  | pushing _ p                  => ch.timestamp p ≤ t
  | acquiring .. | releasing ..  => True

variable {f : Client → Option Slot} {c : ChannelId} {x : Client} {xs ys : List Client} {p : Slot}

def slots (f : Client → Option Slot) (x : Option Client) : List Slot :=
  (x.bind f).toList

@[simp]
theorem slots_none : slots f none = [] :=
  rfl

@[simp]
theorem slots_some : slots f (some x) = (f x).toList :=
  rfl

-- What the clients of a channel have, according to `f`.
def heldBy (f : Client → Option Slot) (c : ChannelId) (xs : List Client) : List Slot :=
  xs.filterMap fun x => if x.channel = c then f x else none

theorem heldBy_perm (h : xs.Perm ys) : (heldBy f c xs).Perm (heldBy f c ys) :=
  h.filterMap _

theorem heldBy_of_ne (h : ∀ a ∈ xs, a.channel ≠ c) : heldBy f c xs = [] :=
  List.filterMap_eq_nil_iff.mpr fun a ha => by simp [h a ha]

section Append

variable {x : Option Client} (hx : ∀ a ∈ x, a.channel = c)
include hx

theorem heldBy_toList_append : heldBy f c (x.toList ++ xs) = slots f x ++ heldBy f c xs := by
  rw [heldBy, List.filterMap_append]
  cases x
  case none => rfl
  case some a =>
    have ha := hx a rfl
    cases hf : f a <;> simp [heldBy, ha, hf]

theorem heldBy_toList_append_of_ne {b : ChannelId} (hb : b ≠ c) :
    heldBy f b (x.toList ++ xs) = heldBy f b xs := by
  rw [heldBy, List.filterMap_append]
  refine (congrArg (· ++ _) <| heldBy_of_ne fun a ha hab => ?_).trans (List.nil_append _)
  exact hb <| hab.symm.trans <| hx a <| Option.mem_toList.mp ha

variable {own : Client → Bool}

theorem countP_toList_append : (x.toList ++ xs).countP (fun a => a.channel = c && own a) =
    (x.any own).toNat + xs.countP fun a => a.channel = c && own a := by
  rw [List.countP_append]
  cases x
  case none   => rfl
  case some a => cases ho : own a <;> simp [ho, hx a rfl]

theorem countP_toList_append_of_ne {b : ChannelId} (hb : b ≠ c) :
    (x.toList ++ xs).countP (fun a => a.channel = b && own a) =
    xs.countP fun a => a.channel = b && own a := by
  rw [List.countP_append]
  refine (congrArg (· + _) <| List.countP_eq_zero.mpr fun a ha => ?_).trans (Nat.zero_add _)
  simp [hx a <| Option.mem_toList.mp ha, hb.symm]

end Append

theorem mem_heldBy (hx : x ∈ xs) (hc : x.channel = c) (hf : f x = some p) : p ∈ heldBy f c xs :=
  List.mem_filterMap.mpr ⟨x, hx, by simp [hc, hf]⟩

theorem packet?_eq (x : Client) :
    x.packet?.toList.Perm (x.fills.toList ++ x.processes.toList) := by
  cases x
  case acquiring stage => cases stage <;> exact .refl _
  all_goals exact .refl _

-- Every held packet is either being filled or being processed.
theorem heldBy_packet? (c : ChannelId) (xs : List Client) :
    (heldBy packet? c xs).Perm (heldBy fills c xs ++ heldBy processes c xs) := by
  have hcons (f : Client → Option Slot) (x : Client) (xs : List Client) (hx : x.channel = c) :
      heldBy f c (x :: xs) = (f x).toList ++ heldBy f c xs := by
    cases hf : f x <;> simp [heldBy, hx, hf]
  induction xs
  case nil => exact .refl _
  case cons x xs ih =>
    by_cases hx : x.channel = c
    case pos =>
      rw [hcons _ x xs hx, hcons _ x xs hx, hcons _ x xs hx]
      refine ((packet?_eq x).append ih).trans ?_
      rw [List.append_assoc, List.append_assoc]
      exact (List.perm_append_comm_assoc ..).append_left _
    case neg => simpa [heldBy, hx] using ih

theorem isDropped_eq_false (h : x.leaves = none) : x.isDropped = false := by
  cases x
  case acquiring stage => cases stage <;> first | rfl | contradiction
  all_goals rfl

theorem Timely.mono {ch : ChannelImpl} {t t' : Time} (h : x.Timely ch t) (ht : t ≤ t') :
    x.Timely ch t' := by
  cases x
  case acquiring | releasing => trivial
  all_goals exact Int.le_trans h ht

theorem Timely.congr {ch ch' : ChannelImpl} {t : Time} (h : x.Timely ch t)
    (hp : ∀ p ∈ x.packet?, ch'.timestamp p = ch.timestamp p ∧ ch'.opTimestamp p = ch.opTimestamp p) :
    x.Timely ch' t := by
  cases x
  case acquiring | releasing => trivial
  case pushing c p    => exact (hp p rfl).1.trans_le h
  case filling c p    => exact (hp p rfl).2.trans_le h
  case processing c p => exact (hp p rfl).2.trans_le h

end Client

-- All that a step of a client does to its channel. The client is `x` before and `x'` after the step.
structure Moved (c : ChannelId) (ch ch' : ChannelImpl) (x x' : Option Client) (t : Time) : Prop where
  capacity    : ch'.capacity = ch.capacity
  isScheduled : ch'.isScheduled = ch.isScheduled
  state       : ch'.singleThreadObject = ch.singleThreadObject
  channel     : ∀ a ∈ x, a.channel = c
  channel'    : ∀ a ∈ x', a.channel = c
  slots       : (ch'.freePackets ++ ch'.queuedPackets.heap ++ Client.slots Client.packet? x').Perm
                (ch.freePackets ++ ch.queuedPackets.heap ++ Client.slots Client.packet? x)
  queue       : (ch'.queuedPackets.heap ++ Client.slots Client.leaves x').Perm
                (ch.queuedPackets.heap ++ Client.slots Client.enters x)
  timestamps  : ∀ p ∈ ch.queuedPackets.heap ++ Client.slots Client.enters x,
                ch'.timestamp p = ch.timestamp p
  times       : ∀ p ∈ ch'.queuedPackets.heap, ch'.timestamp p ≤ t
  others      : ∀ p, p ∉ ch.queuedPackets.heap → p ∉ Client.slots Client.packet? x →
                ch'.timestamp p = ch.timestamp p ∧ ch'.opTimestamp p = ch.opTimestamp p
  timely      : ∀ a ∈ x', a.Timely ch' t
  drops       : ∀ a ∈ x', a.isDropped = true → ∃ timestamp, x = some (.acquiring c timestamp .dropping)
  lifetimes   : (∀ a ∈ x, a.isDropped = false) → ∀ p,
                ch'.constructed p + ch.destructed p +
                  (ch.queuedPackets.heap ++ Client.slots Client.alive x).count p =
                ch.constructed p + ch'.destructed p +
                  (ch'.queuedPackets.heap ++ Client.slots Client.alive x').count p

-- The slots of every pool are where they should be, and their times are not in the future.
structure Accounted (impls : ChannelId → Option ChannelImpl) (clients : List Client) (now : Time) :
    Prop where
  slots  : ∀ c ch, impls c = some ch →
           (ch.freePackets ++ ch.queuedPackets.heap ++ Client.heldBy Client.packet? c clients).Perm
           (List.range ch.capacity)
  live   : ∀ x ∈ clients, ∃ ch, impls x.channel = some ch
  times  : ∀ c ch, impls c = some ch → ∀ p ∈ ch.queuedPackets.heap, ch.timestamp p ≤ now
  timely : ∀ x ∈ clients, ∀ ch, impls x.channel = some ch → x.Timely ch now

namespace Accounted

variable {impls : ChannelId → Option ChannelImpl} {clients : List Client} {now t : Time}
variable {c : ChannelId} {ch ch' : ChannelImpl} {x x' : Option Client} {p : Slot}

theorem move (rest : List Client) (h : Accounted impls clients now) (hc : impls c = some ch)
    (hx : clients.Perm (x.toList ++ rest)) (hm : Moved c ch ch' x x' now) :
    Accounted (Function.update impls c (some ch')) (x'.toList ++ rest) now := by
  have hslots : (ch.freePackets ++ ch.queuedPackets.heap ++
      (Client.slots Client.packet? x ++ Client.heldBy Client.packet? c rest)).Perm (List.range ch.capacity) := by
    rw [← Client.heldBy_toList_append hm.channel]
    exact ((Client.heldBy_perm hx).symm.append_left _).trans (h.slots c ch hc)
  have hrest : ∀ a ∈ rest, a ∈ clients := fun a ha => hx.mem_iff.mpr <| List.mem_append_right _ ha
  refine ⟨fun a b ha => ?_, fun a ha => ?_, fun a b ha p hp => ?_, fun a ha b hb => ?_⟩
  case refine_1 =>
    by_cases hac : a = c
    case pos =>
      subst hac
      obtain rfl : b = ch' := by simpa using ha.symm
      rw [Client.heldBy_toList_append hm.channel', ← List.append_assoc, hm.capacity]
      refine (hm.slots.append_right _).trans ?_
      rwa [List.append_assoc]
    case neg =>
      have := h.slots a b (by simpa [hac] using ha)
      refine .trans (.append_left _ ?_) this
      rw [Client.heldBy_toList_append_of_ne hm.channel' hac,
        ← Client.heldBy_toList_append_of_ne hm.channel hac]
      exact (Client.heldBy_perm hx).symm
  case refine_2 =>
    by_cases hac : a.channel = c
    case pos => simp [hac]
    case neg =>
      cases List.mem_append.mp ha
      case inl ha => exact absurd (hm.channel' a <| Option.mem_toList.mp ha) hac
      case inr ha => simpa [hac] using h.live a (hrest a ha)
  case refine_3 =>
    by_cases hac : a = c
    case pos =>
      subst hac
      obtain rfl : b = ch' := by simpa using ha.symm
      exact hm.times p hp
    case neg => exact h.times a b (by simpa [hac] using ha) p hp
  case refine_4 =>
    cases List.mem_append.mp ha
    case inl ha =>
      have ha := Option.mem_toList.mp ha
      obtain rfl : b = ch' := by simpa [hm.channel' a ha] using hb.symm
      exact hm.timely a ha
    case inr ha =>
      by_cases hac : a.channel = c
      case neg => exact h.timely a (hrest a ha) b (by simpa [hac] using hb)
      case pos =>
        obtain rfl : b = ch' := by simpa [hac] using hb.symm
        -- The packets of the other clients are others than the one that is moved.
        refine (h.timely a (hrest a ha) ch (hac ▸ hc)).congr fun p hp => ?_
        have hnd := hslots.nodup_iff.mpr List.nodup_range
        have hp := Client.mem_heldBy ha hac hp
        rw [← List.append_assoc] at hnd
        have hne := (List.nodup_append.mp hnd).2.2
        exact hm.others p (fun hq => hne p (by simp [hq]) p hp rfl) fun hs => hne p (by simp [hs]) p hp rfl

theorem perm {clients' : List Client} (h : Accounted impls clients now) (hp : clients.Perm clients') :
    Accounted impls clients' now where
  slots c ch hc      := ((Client.heldBy_perm hp).symm.append_left _).trans (h.slots c ch hc)
  live x hx          := h.live x (hp.mem_iff.mpr hx)
  times              := h.times
  timely x hx ch hc  := h.timely x (hp.mem_iff.mpr hx) ch hc

-- A thread calls `Acquire`.
theorem acquire (h : Accounted impls clients now) (hc : impls c = some ch) (timestamp : Time) :
    Accounted impls (.acquiring c timestamp (.round 0) :: clients) now where
  slots b ch' hb    := by simpa [Client.heldBy, Client.packet?, Client.fills, Client.processes] using h.slots b ch' hb
  live              := List.forall_mem_cons.mpr ⟨⟨ch, hc⟩, h.live⟩
  times             := h.times
  timely            := List.forall_mem_cons.mpr ⟨fun _ _ => trivial, h.timely⟩

theorem tick (h : Accounted impls clients now) (ht : now ≤ t) : Accounted impls clients t where
  slots            := h.slots
  live             := h.live
  times c ch hc p hp := Int.le_trans (h.times c ch hc p hp) ht
  timely x hx ch hc  := (h.timely x hx ch hc).mono ht

theorem channel_ne (h : Accounted impls clients now) (hc : impls c = none) :
    ∀ x ∈ clients, x.channel ≠ c := fun x hx hxc => by
  have ⟨_, hch⟩ := h.live x hx
  simp [hxc, hc] at hch

theorem create (h : Accounted impls clients now) (hc : impls c = none)
    (hf : ch.freePackets.Perm (List.range ch.capacity)) (hq : ch.queuedPackets.heap = []) :
    Accounted (Function.update impls c (some ch)) clients now := by
  have hne := h.channel_ne hc
  refine ⟨fun a b ha => ?_, fun x hx => ?_, fun a b ha p hp => ?_, fun x hx b hb => ?_⟩
  case refine_1 =>
    by_cases hac : a = c
    case pos =>
      subst hac
      obtain rfl : b = ch := by simpa using ha.symm
      simpa [hq, Client.heldBy_of_ne hne] using hf
    case neg => exact h.slots a b (by simpa [hac] using ha)
  case refine_2 => simpa [hne x hx] using h.live x hx
  case refine_3 =>
    by_cases hac : a = c
    case pos =>
      subst hac
      obtain rfl : b = ch := by simpa using ha.symm
      simp [hq] at hp
    case neg => exact h.times a b (by simpa [hac] using ha) p hp
  case refine_4 => exact h.timely x hx b (by simpa [hne x hx] using hb)

theorem destroy (h : Accounted impls clients now) (hne : ∀ x ∈ clients, x.channel ≠ c) :
    Accounted (Function.update impls c none) clients now := by
  have himpl : ∀ a b, Function.update impls c none a = some b → impls a = some b := by
    intro a b ha
    by_cases hac : a = c
    case pos => simp [hac] at ha
    case neg => simpa [hac] using ha
  exact ⟨fun a b ha => h.slots a b (himpl a b ha), fun x hx => by simpa [hne x hx] using h.live x hx,
    fun a b ha => h.times a b (himpl a b ha), fun x hx b hb => h.timely x hx b (himpl _ b hb)⟩

-- What is known of the packet of one of the clients.
section Packet

variable {a : Client} (h : Accounted impls clients now) (ha : a ∈ clients)
variable (hc : impls a.channel = some ch) (hp : a.packet? = some p)
include h ha hc hp

theorem slots_cons :
    ∃ ps, (p :: (ch.freePackets ++ ch.queuedPackets.heap ++ ps)).Perm (List.range ch.capacity) := by
  have ⟨ps, qs, hqs⟩ := List.mem_iff_append.mp <| Client.mem_heldBy ha rfl hp
  refine ⟨ps ++ qs, .trans ?_ (h.slots _ ch hc)⟩
  rw [hqs, ← List.append_assoc, ← List.append_assoc]
  exact List.perm_middle.symm

theorem lt_capacity : p < ch.capacity := by
  have ⟨_, hs⟩ := h.slots_cons ha hc hp
  exact List.mem_range.mp <| hs.mem_iff.mp <| List.mem_cons_self ..

theorem notMem_queue : p ∉ ch.queuedPackets.heap := by
  have ⟨_, hs⟩ := h.slots_cons ha hc hp
  have hnd := hs.nodup_iff.mpr List.nodup_range
  exact fun hq => (List.nodup_cons.mp hnd).1 <| by simp [hq]

theorem length_free_lt : ch.freePackets.length < ch.capacity := by
  have ⟨_, hs⟩ := h.slots_cons ha hc hp
  have := hs.length_eq
  simp at this
  omega

theorem size_queue_lt : ch.queuedPackets.size < ch.capacity := by
  have ⟨_, hs⟩ := h.slots_cons ha hc hp
  have := hs.length_eq
  simp at this
  exact Nat.lt_of_lt_of_eq (by simp only [SteadyHeap.size]; omega) this

end Packet

theorem size_free_queue_le (h : Accounted impls clients now) (hc : impls c = some ch) :
    ch.freePackets.length + ch.queuedPackets.size ≤ ch.capacity := by
  have := (h.slots c ch hc).length_eq
  simp at this
  simp only [SteadyHeap.size]
  omega

theorem size_queue_le (h : Accounted impls clients now) (hc : impls c = some ch) :
    ch.queuedPackets.size ≤ ch.capacity :=
  (Nat.le_add_left ..).trans <| h.size_free_queue_le hc

end Accounted
end PipeRT
