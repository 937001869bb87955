import PipeRT.Locking.AdaptiveSpinLock
import PipeRT.SteadyHeap

open Heap

namespace PipeRT

-- A packet in the pool of a channel, with its timestamp. Only who has the packet gets at it.
abbrev StampedSlot :=
  Slot × Time

-- The locks of a polled channel.
inductive ChannelLock where
  | free
  | queued
  deriving DecidableEq, Repr

abbrev ChannelLock.Data : ChannelLock → Type
  | free   => List Slot
  | queued => SteadyHeap StampedSlot

-- What a thread does with a packet. A thread that has several of them counts as several threads.
inductive ChannelUser where
  | idle
  -- It is about to lock `free_mutex_` in `Acquire`, in turn `i` of the loop.
  | acquiring (timestamp : Time) (i : Nat)
  -- It has looked whether there is a free packet.
  | looked (timestamp : Time) (i : Nat) (packet : Option Slot)
  -- It is about to lock the queue in `GetNext`, called by `TryDroppingPacket` or by `Poll`.
  | dropping (timestamp : Time)
  | polling
  -- It has looked whether there is a packet in the queue, for an `Acquire` with the given timestamp.
  | found (timestamp : Option Time) (packet : Option StampedSlot)
  | filling (packet : StampedSlot)
  -- It is about to lock the queue in `Push`.
  | pushing (packet : StampedSlot)
  | processing (packet : StampedSlot)
  -- It is about to lock `free_mutex_` in `Release`, called by an `Acquire` with the given timestamp.
  | releasing (timestamp : Option Time) (packet : Slot)
  deriving DecidableEq, Repr

namespace ChannelUser

-- The packet that is neither free nor queued because of the thread.
def packet? : ChannelUser → Option Slot
  | filling packet | pushing packet | processing packet => some packet.1
  | releasing _ packet                                  => some packet
  | _                                                   => none

-- What a thread does outside of the critical sections, and what it is called to do.
def Moves : ChannelUser → ChannelUser → Prop
  | idle,              acquiring _ i      => i = 0
  | idle,              polling            => True
  | filling packet,    pushing packet'    => packet = packet'
  | processing packet, releasing none slot => packet.1 = slot
  | _,                 _                  => False

instance : DecidableRel Moves := fun k k' => by
  cases k <;> cases k' <;> (try cases ‹Option Time›) <;> unfold Moves <;> infer_instance

-- The statements of `Acquire` under `free_mutex_`. The assertions about the address of the packet
-- come right after it.
def lookForFree : Statement (List Slot) ChannelUser Fault
  | freePackets, acquiring timestamp i => .ok (freePackets, looked timestamp i freePackets.getLast?)
  | freePackets, k                     => .ok (freePackets, k)

def takeFree (capacity : Nat) : Statement (List Slot) ChannelUser Fault
  | freePackets, looked timestamp _ (some packet) => do
    check (packet < capacity)
    return (freePackets.dropLast, filling (packet, timestamp))
  | freePackets, looked timestamp i none =>
    .ok (freePackets, if i + 1 < 2 then dropping timestamp else idle)
  | freePackets, k => .ok (freePackets, k)

-- The statements of `Release` under `free_mutex_`, and the assertions right before it.
def checkReleased (capacity : Nat) : Statement (List Slot) ChannelUser Fault
  | freePackets, releasing timestamp packet => do
    check (packet < capacity)
    check (freePackets.length < capacity)
    return (freePackets, releasing timestamp packet)
  | freePackets, k => .ok (freePackets, k)

def giveFree : Statement (List Slot) ChannelUser Fault
  | freePackets, releasing timestamp packet =>
    .ok (freePackets ++ [packet], timestamp.elim idle (acquiring · 1))
  | freePackets, k                          => .ok (freePackets, k)

-- `PacketOrdering`.
def packetOrdering : StrictOrdering StampedSlot :=
  fun a b => .ok (decide (a.2 > b.2))

-- The statements of `GetNext` under the lock of the queue.
def lookForQueued (capacity : Nat) : Statement (SteadyHeap StampedSlot) ChannelUser Fault
  | queuedPackets, k => do
    let timestamp := match k with
      | dropping timestamp => some timestamp
      | _                  => none
    check (queuedPackets.size ≤ capacity)
    return (queuedPackets, found timestamp queuedPackets.front?)

def popQueued : Statement (SteadyHeap StampedSlot) ChannelUser Fault
  | queuedPackets, found timestamp (some packet) => do
    let queuedPackets ← queuedPackets.popHeap packetOrdering
    return (queuedPackets, timestamp.elim (processing packet) fun t => releasing (some t) packet.1)
  | queuedPackets, _                             => .ok (queuedPackets, idle)

-- The statements of `Push` under the lock of the queue.
def checkPushed (capacity : Nat) : Statement (SteadyHeap StampedSlot) ChannelUser Fault
  | queuedPackets, k => do
    check (queuedPackets.size < capacity)
    return (queuedPackets, k)

def pushQueued : Statement (SteadyHeap StampedSlot) ChannelUser Fault
  | queuedPackets, pushing packet => do
    let queuedPackets ← queuedPackets.pushHeap packetOrdering packet
    return (queuedPackets, idle)
  | queuedPackets, k              => .ok (queuedPackets, k)

def next (capacity : Nat) :
    ChannelUser → Option ((l : ChannelLock) × List (Statement l.Data ChannelUser Fault))
  | acquiring ..         => some ⟨.free, [lookForFree, takeFree capacity]⟩
  | releasing ..         => some ⟨.free, [checkReleased capacity, giveFree]⟩
  | dropping _ | polling => some ⟨.queued, [lookForQueued capacity, popQueued]⟩
  | pushing _            => some ⟨.queued, [checkPushed capacity, pushQueued]⟩
  | _                    => none

end ChannelUser

-- The code of a polled channel of the given capacity, as the threads `τ` run it. No profile data are set,
-- so `Log` does nothing. There is no clock, and no assertion on what it shows.
def polledChannel (τ : Type) (capacity : Nat) :
    Sections ChannelLock ChannelLock.Data τ ChannelUser Fault where
  Init data locals := data .free = (List.range capacity).reverse ∧
                      data .queued = SteadyHeap.empty.reserve capacity ∧ locals = fun _ => .idle
  Moves            := ChannelUser.Moves
  next             := ChannelUser.next capacity

instance (τ : Type) (capacity : Nat) : DecidableRel (polledChannel τ capacity).Moves :=
  inferInstanceAs (DecidableRel ChannelUser.Moves)

-- Where a slot is.
inductive Place (τ : Type) where
  | free
  | queued
  | held (t : τ)
  deriving DecidableEq, Repr

-- Every slot is in one place.
structure Placed {τ : Type} (capacity : Nat) (place : Slot → Place τ) (freePackets : List Slot)
    (queuedPackets : List Slot) (locals : τ → ChannelUser) : Prop where
  freeNodup   : freePackets.Nodup
  free        : ∀ p, p ∈ freePackets ↔ p < capacity ∧ place p = .free
  queuedNodup : queuedPackets.Nodup
  queued      : ∀ p, p ∈ queuedPackets ↔ p < capacity ∧ place p = .queued
  held        : ∀ t p, (locals t).packet? = some p ↔ p < capacity ∧ place p = .held t

namespace Placed

variable {τ : Type} [DecidableEq τ] {capacity : Nat} {place : Slot → Place τ} {t : τ} {k : ChannelUser}
variable {freePackets queuedPackets queuedPackets' : List Slot} {locals : τ → ChannelUser} {p : Slot}

-- Slots that are all different are not more than there are.
theorem length_lt {l : List Slot} (hl : l.Nodup) (hlt : ∀ x ∈ l, x < capacity) (hp : p < capacity)
    (hn : p ∉ l) : l.length < capacity := by
  have hsub : (p :: l) ⊆ List.range capacity := by
    intro x hx
    cases List.mem_cons.mp hx
    case inl hx => exact List.mem_range.mpr (hx ▸ hp)
    case inr hx => exact List.mem_range.mpr (hlt x hx)
  have hle := ((List.nodup_cons.mpr ⟨hn, hl⟩).subperm hsub).length_le
  simpa using hle

theorem length_le {l : List Slot} (hl : l.Nodup) (hlt : ∀ x ∈ l, x < capacity) : l.length ≤ capacity := by
  have hsub : l ⊆ List.range capacity := fun x hx => List.mem_range.mpr (hlt x hx)
  simpa using (hl.subperm hsub).length_le

-- The thread goes on without a change to what it has.
theorem moved (h : Placed capacity place freePackets queuedPackets locals)
    (hk : k.packet? = (locals t).packet?) :
    Placed capacity place freePackets queuedPackets (Function.update locals t k) := by
  refine ⟨h.freeNodup, h.free, h.queuedNodup, h.queued, fun t' p => ?_⟩
  by_cases ht : t' = t
  case pos => rw [ht, Function.update_self, hk, h.held]
  case neg => rw [Function.update_of_ne ht, h.held]

-- A slot changes its place.
omit [DecidableEq τ] in
theorem update_iff {a b : Place τ} {p' : Slot} (hp : p < capacity) :
    (p' < capacity ∧ Function.update place p b p' = a) ↔
      (p' = p ∧ b = a) ∨ (p' ≠ p ∧ p' < capacity ∧ place p' = a) := by
  by_cases hp' : p' = p
  case pos => simp [hp', hp]
  case neg => simp [hp']

-- The thread gets a slot that it did not have.
theorem got (h : Placed capacity place freePackets queuedPackets locals) (hp : p < capacity)
    (hn : (locals t).packet? = none) (hk : k.packet? = some p) (hplace : ∀ t, place p ≠ .held t)
    (t' : τ) (p' : Slot) : (Function.update locals t k t').packet? = some p' ↔
      p' < capacity ∧ Function.update place p (.held t) p' = .held t' := by
  have hno := h.held t p'
  have hother := h.held t' p'
  rw [update_iff hp]
  by_cases ht : t' = t
  case pos =>
    subst ht
    rw [Function.update_self, hk]
    rw [hn] at hno
    grind
  case neg =>
    rw [Function.update_of_ne ht]
    have := hplace t'
    grind

theorem gave {b : Place τ} (h : Placed capacity place freePackets queuedPackets locals)
    (ht : (locals t).packet? = some p) (hk : k.packet? = none) (hb : ∀ t, b ≠ .held t)
    (t' : τ) (p' : Slot) : (Function.update locals t k t').packet? = some p' ↔
      p' < capacity ∧ Function.update place p b p' = .held t' := by
  have hold := (h.held t p).mp ht
  have hother := h.held t' p'
  rw [update_iff hold.1]
  by_cases he : t' = t
  case pos =>
    subst he
    rw [Function.update_self, hk]
    rw [ht] at hother
    have := hb t'
    grind
  case neg =>
    rw [Function.update_of_ne he]
    have := hb t'
    grind

theorem taken (h : Placed capacity place (freePackets ++ [p]) queuedPackets locals)
    (hn : (locals t).packet? = none) (hk : k.packet? = some p) :
    Placed capacity (Function.update place p (.held t)) freePackets queuedPackets
      (Function.update locals t k) := by
  obtain ⟨hp, hplace⟩ := (h.free p).mp (by simp)
  have hnodup := List.nodup_append.mp h.freeNodup
  refine ⟨hnodup.1, fun p' => ?_, h.queuedNodup, fun p' => ?_, h.got hp hn hk (by simp [hplace])⟩
  case refine_1 =>
    have hmem := h.free p'
    have hne := hnodup.2.2 p' 
    rw [update_iff hp]
    grind
  case refine_2 =>
    have hmem := h.queued p'
    rw [update_iff hp]
    grind

theorem given (h : Placed capacity place freePackets queuedPackets locals)
    (ht : (locals t).packet? = some p) (hk : k.packet? = none) :
    Placed capacity (Function.update place p .free) (freePackets ++ [p]) queuedPackets
      (Function.update locals t k) := by
  obtain ⟨hp, hplace⟩ := (h.held t p).mp ht
  refine ⟨?_, fun p' => ?_, h.queuedNodup, fun p' => ?_, h.gave ht hk nofun⟩
  case refine_1 =>
    have hnot : p ∉ freePackets := fun hm => by simp [((h.free p).mp hm).2] at hplace
    exact List.nodup_append.mpr ⟨h.freeNodup, List.nodup_singleton p, by grind⟩
  case refine_2 =>
    have hmem := h.free p'
    rw [update_iff hp]
    grind
  case refine_3 =>
    have hmem := h.queued p'
    rw [update_iff hp]
    grind

theorem pushed (h : Placed capacity place freePackets queuedPackets locals)
    (ht : (locals t).packet? = some p) (hk : k.packet? = none) (hq : queuedPackets'.Perm (p :: queuedPackets)) :
    Placed capacity (Function.update place p .queued) freePackets queuedPackets'
      (Function.update locals t k) := by
  obtain ⟨hp, hplace⟩ := (h.held t p).mp ht
  refine ⟨h.freeNodup, fun p' => ?_, ?_, fun p' => ?_, h.gave ht hk nofun⟩
  case refine_1 =>
    have hmem := h.free p'
    rw [update_iff hp]
    grind
  case refine_2 =>
    have hnot : p ∉ queuedPackets := fun hm => by simp [((h.queued p).mp hm).2] at hplace
    exact hq.nodup_iff.mpr <| List.nodup_cons.mpr ⟨hnot, h.queuedNodup⟩
  case refine_3 =>
    have hmem := h.queued p'
    rw [hq.mem_iff, update_iff hp]
    grind

theorem popped (h : Placed capacity place freePackets queuedPackets locals)
    (hn : (locals t).packet? = none) (hk : k.packet? = some p) (hq : queuedPackets.Perm (p :: queuedPackets')) :
    Placed capacity (Function.update place p (.held t)) freePackets queuedPackets'
      (Function.update locals t k) := by
  obtain ⟨hp, hplace⟩ := (h.queued p).mp (hq.mem_iff.mpr List.mem_cons_self)
  have hnodup := List.nodup_cons.mp <| hq.nodup_iff.mp h.queuedNodup
  refine ⟨h.freeNodup, fun p' => ?_, hnodup.2, fun p' => ?_, h.got hp hn hk (by simp [hplace])⟩
  case refine_1 =>
    have hmem := h.free p'
    rw [update_iff hp]
    grind
  case refine_2 =>
    have hmem := h.queued p'
    rw [hq.mem_iff] at hmem
    rw [update_iff hp]
    grind

end Placed

theorem ChannelUser.Moves.packet?_eq {k k' : ChannelUser} (h : Moves k k') : k'.packet? = k.packet? := by
  cases k <;> cases k'
  all_goals try rfl
  all_goals try contradiction
  case filling.pushing =>
    obtain rfl := h
    rfl
  case processing.releasing packet timestamp slot =>
    cases timestamp
    case some => contradiction
    case none =>
      obtain rfl := h
      rfl

namespace PolledChannel

variable {τ : Type} [DecidableEq τ] {capacity : Nat} {t : τ} {k : ChannelUser}
variable {z z' : Atomic ChannelLock ChannelLock.Data τ ChannelUser}

structure Inv (capacity : Nat) (z : Atomic ChannelLock ChannelLock.Data τ ChannelUser) : Prop where
  placed : ∃ place, Placed capacity place (z.data .free) ((z.data .queued).heap.map Prod.fst) z.locals
  order  : IsHeap Prod.snd (z.data .queued).heap

namespace Inv

omit [DecidableEq τ] in
theorem length_free_lt {p : Slot} (h : Inv capacity z) (ht : (z.locals t).packet? = some p) :
    p < capacity ∧ (z.data .free).length < capacity := by
  obtain ⟨place, hp⟩ := h.placed
  obtain ⟨hlt, hplace⟩ := (hp.held t p).mp ht
  refine ⟨hlt, Placed.length_lt hp.freeNodup (fun x hx => ((hp.free x).mp hx).1) hlt fun hm => ?_⟩
  rw [((hp.free p).mp hm).2] at hplace
  contradiction

omit [DecidableEq τ] in
theorem length_queued_lt {p : Slot} (h : Inv capacity z) (ht : (z.locals t).packet? = some p) :
    (z.data .queued).size < capacity := by
  obtain ⟨place, hp⟩ := h.placed
  obtain ⟨hlt, hplace⟩ := (hp.held t p).mp ht
  rw [SteadyHeap.size, ← List.length_map Prod.fst]
  refine Placed.length_lt hp.queuedNodup (fun x hx => ((hp.queued x).mp hx).1) hlt fun hm => ?_
  rw [((hp.queued p).mp hm).2] at hplace
  contradiction

omit [DecidableEq τ] in
theorem length_queued_le (h : Inv capacity z) : (z.data .queued).size ≤ capacity := by
  obtain ⟨place, hp⟩ := h.placed
  rw [SteadyHeap.size, ← List.length_map Prod.fst]
  exact Placed.length_le hp.queuedNodup fun x hx => ((hp.queued x).mp hx).1

-- A critical section of `free_mutex_`.
theorem of_free {body : List (Statement (List Slot) ChannelUser Fault)} (h : Inv capacity z)
    (freePackets : List Slot) (k : ChannelUser) (hn : ChannelUser.next capacity (z.locals t) = some ⟨.free, body⟩)
    (hrun : Statement.run body (z.data .free) (z.locals t) = .ok (freePackets, k))
    (hp : ∀ place, Placed capacity place (z.data .free) ((z.data .queued).heap.map Prod.fst) z.locals →
      ∃ place', Placed capacity place' freePackets ((z.data .queued).heap.map Prod.fst)
        (Function.update z.locals t k)) :
    ∃ z', z.exec (polledChannel τ capacity) (.section t) = .ok z' ∧ Inv capacity z' := by
  obtain ⟨place, hplace⟩ := h.placed
  obtain ⟨place', hplace'⟩ := hp place hplace
  exact ⟨_, Atomic.exec_section hn hrun, ⟨place', by simpa using hplace'⟩, by simpa using h.order⟩

-- A critical section of the lock of the queue.
theorem of_queued {body : List (Statement (SteadyHeap StampedSlot) ChannelUser Fault)} (h : Inv capacity z)
    (queuedPackets : SteadyHeap StampedSlot) (k : ChannelUser)
    (hn : ChannelUser.next capacity (z.locals t) = some ⟨.queued, body⟩)
    (hrun : Statement.run body (z.data .queued) (z.locals t) = .ok (queuedPackets, k))
    (ho : IsHeap Prod.snd queuedPackets.heap)
    (hp : ∀ place, Placed capacity place (z.data .free) ((z.data .queued).heap.map Prod.fst) z.locals →
      ∃ place', Placed capacity place' (z.data .free) (queuedPackets.heap.map Prod.fst)
        (Function.update z.locals t k)) :
    ∃ z', z.exec (polledChannel τ capacity) (.section t) = .ok z' ∧ Inv capacity z' := by
  obtain ⟨place, hplace⟩ := h.placed
  obtain ⟨place', hplace'⟩ := hp place hplace
  exact ⟨_, Atomic.exec_section hn hrun, ⟨place', by simpa using hplace'⟩, by simpa using ho⟩

theorem acquiring {timestamp : Time} {i : Nat} (h : Inv capacity z)
    (ht : z.locals t = .acquiring timestamp i) :
    ∃ z', z.exec (polledChannel τ capacity) (.section t) = .ok z' ∧ Inv capacity z' := by
  have hn : ChannelUser.next capacity (z.locals t) =
      some ⟨.free, [ChannelUser.lookForFree, ChannelUser.takeFree capacity]⟩ := by rw [ht]; rfl
  cases hlast : (z.data .free).getLast?
  case none =>
    refine h.of_free (z.data .free) (if i + 1 < 2 then .dropping timestamp else .idle) hn ?_
      fun place hp => ⟨place, hp.moved ?_⟩
    · simp [Statement.run, ht, ChannelUser.lookForFree, ChannelUser.takeFree, hlast]
    · rw [ht]
      split <;> rfl
  case some p =>
    have hsplit := List.dropLast_append_getLast? p hlast
    have hlt : p < capacity := by
      obtain ⟨place, hp⟩ := h.placed
      exact ((hp.free p).mp <| List.mem_of_getLast? hlast).1
    refine h.of_free (z.data .free).dropLast (.filling (p, timestamp)) hn ?_ fun place hp =>
      ⟨_, .taken (hsplit.symm ▸ hp) ?_ rfl⟩
    · simp [Statement.run, ht, ChannelUser.lookForFree, ChannelUser.takeFree, hlast, hlt]
    · rw [ht]
      rfl

theorem releasing {timestamp : Option Time} {p : Slot} (h : Inv capacity z)
    (ht : z.locals t = .releasing timestamp p) :
    ∃ z', z.exec (polledChannel τ capacity) (.section t) = .ok z' ∧ Inv capacity z' := by
  have hn : ChannelUser.next capacity (z.locals t) =
      some ⟨.free, [ChannelUser.checkReleased capacity, ChannelUser.giveFree]⟩ := by rw [ht]; rfl
  have hpacket : (z.locals t).packet? = some p := by rw [ht]; rfl
  obtain ⟨hlt, hroom⟩ := h.length_free_lt hpacket
  refine h.of_free (z.data .free ++ [p]) (timestamp.elim .idle (.acquiring · 1)) hn ?_ fun place hp =>
    ⟨_, hp.given hpacket ?_⟩
  · simp [Statement.run, ht, ChannelUser.checkReleased, ChannelUser.giveFree, hlt, hroom]
  · cases timestamp <;> rfl

theorem pushing {packet : StampedSlot} (h : Inv capacity z) (ht : z.locals t = .pushing packet) :
    ∃ z', z.exec (polledChannel τ capacity) (.section t) = .ok z' ∧ Inv capacity z' := by
  have hn : ChannelUser.next capacity (z.locals t) =
      some ⟨.queued, [ChannelUser.checkPushed capacity, ChannelUser.pushQueued]⟩ := by rw [ht]; rfl
  have hpacket : (z.locals t).packet? = some packet.1 := by rw [ht]; rfl
  have hroom := h.length_queued_lt hpacket
  have hagrees : Agrees ChannelUser.packetOrdering Prod.snd (packet :: (z.data .queued).heap) :=
    fun _ _ _ _ => rfl
  obtain ⟨q, hq, hholds, _⟩ := SteadyHeap.pushHeap_spec packet h.order hagrees
  refine h.of_queued q .idle hn ?_ hholds.order fun place hp =>
    ⟨_, hp.pushed hpacket rfl (hholds.perm.map Prod.fst)⟩
  simp [Statement.run, ht, ChannelUser.checkPushed, ChannelUser.pushQueued, hroom, hq]

-- `GetNext`, for either of its callers.
theorem getting (h : Inv capacity z) (timestamp : Option Time)
    (ht : z.locals t = timestamp.elim .polling .dropping) :
    ∃ z', z.exec (polledChannel τ capacity) (.section t) = .ok z' ∧ Inv capacity z' := by
  have hn : ChannelUser.next capacity (z.locals t) =
      some ⟨.queued, [ChannelUser.lookForQueued capacity, ChannelUser.popQueued]⟩ := by
    rw [ht]
    cases timestamp <;> rfl
  have hpacket : (z.locals t).packet? = none := by
    rw [ht]
    cases timestamp <;> rfl
  have hlook : ChannelUser.lookForQueued capacity (z.data .queued) (z.locals t) =
      .ok (z.data .queued, .found timestamp (z.data .queued).front?) := by
    rw [ht]
    cases timestamp <;> simp [ChannelUser.lookForQueued, h.length_queued_le]
  cases hfront : (z.data .queued).front?
  case none =>
    refine h.of_queued (z.data .queued) .idle hn ?_ h.order fun place hp => ⟨place, hp.moved hpacket.symm⟩
    simp [Statement.run, hlook, ChannelUser.popQueued, hfront]
  case some packet =>
    obtain ⟨rest, hrest⟩ := List.head?_eq_some_iff.mp hfront
    have hagrees : Agrees ChannelUser.packetOrdering Prod.snd rest := fun _ _ _ _ => rfl
    obtain ⟨q, hq, hholds, _⟩ := SteadyHeap.popHeap_spec hrest (h.order.holed 0) hagrees
    have hperm : ((z.data .queued).heap.map Prod.fst).Perm (packet.1 :: q.heap.map Prod.fst) := by
      rw [hrest, List.map_cons]
      exact (hholds.perm.symm.map Prod.fst).cons packet.1
    refine h.of_queued q (timestamp.elim (.processing packet) fun t => .releasing (some t) packet.1) hn ?_
      hholds.order fun place hp => ⟨_, hp.popped hpacket ?_ hperm⟩
    · simp [Statement.run, hlook, ChannelUser.popQueued, hfront, hq]
    · cases timestamp <;> rfl

end Inv

-- Critical sections that take a single step keep every packet in one place, and none of their
-- assertions fails.
theorem safe : (atomic (polledChannel τ capacity)).Safe (fun _ _ => True) (Inv capacity) where
  init z hz := by
    obtain ⟨hfree, hqueued, hlocals⟩ := hz
    refine ⟨⟨fun _ => .free, ?_, fun p => ?_, ?_, fun p => ?_, fun t p => ?_⟩, ?_⟩
    all_goals simp only [hfree, hqueued, hlocals]
    case refine_1 => exact List.nodup_reverse.mpr List.nodup_range
    case refine_2 => simp
    case refine_3 => exact List.nodup_nil
    case refine_4 => simp [SteadyHeap.empty, SteadyHeap.reserve]
    case refine_5 => simp [ChannelUser.packet?]
    case refine_6 => exact Heap.IsHeap.nil
  step z a h hg _ := by
    cases a
    case move t k =>
      have hm : (z.locals t).Moves k := hg
      obtain ⟨place, hp⟩ := h.placed
      exact ⟨_, rfl, ⟨place, hp.moved hm.packet?_eq⟩, h.order⟩
    case «section» t =>
      have hn : ((polledChannel τ capacity).next (z.locals t)).isSome = true := hg
      cases ht : z.locals t
      case acquiring => exact h.acquiring ht
      case releasing => exact h.releasing ht
      case pushing   => exact h.pushing ht
      case dropping timestamp => exact h.getting (some timestamp) ht
      case polling            => exact h.getting none ht
      all_goals
        rw [ht] at hn
        contradiction

end PolledChannel

-- A thread takes a packet while another one waits for the lock.
def contendedAcquire : List (InterleavedAction (Fin 2) ChannelUser) :=
  [.move 0 (.acquiring 5 0), .lock 0, .attempt 0, .statement 0, .move 1 (.acquiring 6 0), .lock 1,
    .attempt 1, .statement 0]

def idleChannel : Interleaved ChannelLock ChannelLock.Data (Fin 2) ChannelUser Fault AdaptiveSpinLock Int32 where
  locks _ := .new 4 2
  data
    | .free   => (List.range 2).reverse
    | .queued => SteadyHeap.empty.reserve 2
  threads _ := .outside .idle

-- Whoever waits for one of the locks gets it and gets through its critical section, if nobody goes on
-- until then but itself and the thread that holds the lock. There is no deadlock.
theorem polled_channel_progress {τ : Type} [DecidableEq τ] {capacity : Nat}
    {ok : Interleaved ChannelLock ChannelLock.Data τ ChannelUser Fault AdaptiveSpinLock Int32 →
      InterleavedAction τ ChannelUser → Prop}
    {y : Interleaved ChannelLock ChannelLock.Data τ ChannelUser Fault AdaptiveSpinLock Int32} {t : τ}
    {k : ChannelUser} {countdown : Int32}
    (h : (interleaved AdaptiveSpinLock.guard (polledChannel τ capacity)).Reachable ok y)
    (ht : y.threads t = .waiting k countdown) :
    ∃ l body as y' k', ChannelUser.next capacity k = some ⟨l, body⟩ ∧
      (interleaved AdaptiveSpinLock.guard (polledChannel τ capacity)).Run (fun _ _ => True) y
        (as ++ .attempt t :: (.replicate body.length (.statement t) ++ [.unlock t])) y' ∧
      y'.threads t = .outside k' ∧ (y'.locks l).mutex = false ∧
      ∀ a ∈ as, ∃ t', y.Inside t' l ∧ (a = .statement t' ∨ a = .unlock t') :=
  Interleaved.leaves AdaptiveSpinLock.guard_lawful PolledChannel.safe h ht

theorem polled_channel_progress_contended :
    ∃ y, (interleaved AdaptiveSpinLock.guard (polledChannel (Fin 2) 2)).Reachable (fun _ _ => True) y ∧
      (y.locks .free).mutex = true ∧ ∃ as y' k',
        (interleaved AdaptiveSpinLock.guard (polledChannel (Fin 2) 2)).Run (fun _ _ => True) y as y' ∧
        y'.threads 1 = .outside k' := by
  obtain ⟨y, hr, hy, ht⟩ := Machine.exists_reachable_of_replay
    (M := interleaved AdaptiveSpinLock.guard (polledChannel (Fin 2) 2)) (fun _ _ => True)
    contendedAcquire (P := fun y => (y.locks .free).mutex = true ∧ (y.threads 1).isWaiting = true)
    (s := idleChannel)
    ⟨fun _ => rfl, _, ⟨rfl, rfl, rfl⟩, rfl⟩ (by decide)
  cases h1 : y.threads 1
  case waiting k countdown =>
    obtain ⟨_, _, _, y', k', _, hrun, hk', _⟩ := polled_channel_progress hr h1
    exact ⟨y, hr, hy, _, y', k', hrun, hk'⟩
  all_goals simp [h1, Thread.isWaiting] at ht

end PipeRT
