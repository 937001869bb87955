import PipeRT.Stub.Polled
import PipeRT.Channel.Pool

namespace PipeRT

-- A thread with a polled channel, together with the memory of the channel. The code has the addresses
-- in `pool` where the channel has their slots.
structure Pooled (T : Type) where
  user : Poller T
  pool : Pool

inductive PooledFault where
  | fault (f : Fault)
  | pool (f : PoolFault)
  deriving DecidableEq, Repr

-- `ChannelImpl::Acquire`, which releases the first packet in the queue if there is no free one.
def Pool.acquireOrDrop (pool : Pool) (first : Option Slot) : Except PoolFault Pool := do
  let (packet, pool) ← pool.acquire
  match packet, first with
  | none, some slot => do
    let pool ← pool.release (offset pool.packetSize slot)
    let (_, pool) ← pool.acquire
    return pool
  | _, _ => return pool

namespace Pooled

variable {T : Type}

-- What a call does to the memory.
def access (c : ChannelId) (y : Pooled T) : Call T → Except PoolFault Pool
  | .acquire .. => y.pool.acquireOrDrop <| (y.user.owner.sched.impls c).bind (·.queuedPackets.front?)
  | .release i  =>
    match y.user.packet? i with
    | none      => return y.pool
    | some slot => y.pool.release (Pool.offset y.pool.packetSize slot)
  | _           => return y.pool

def exec (c : ChannelId) (y : Pooled T) (call : Call T) : Except PooledFault (Pooled T) := do
  let user ← (y.user.exec c call).mapError .fault
  let pool ← (y.access c call).mapError .pool
  return { user, pool }

end Pooled

def pooled (T : Type) (c : ChannelId) (capacity packetSize : Int32) :
    Machine (Pooled T) (Call T) PooledFault where
  Init y := (poller T c capacity.toInt.toNat).Init y.user ∧ Pool.new capacity packetSize = .ok y.pool
  Guard y := y.user.Guard
  exec    := Pooled.exec c

instance {T : Type} {c : ChannelId} {capacity packetSize : Int32} (y : Pooled T) (call : Call T) :
    Decidable ((pooled T c capacity packetSize).Guard y call) :=
  inferInstanceAs (Decidable (y.user.Guard call))

-- What the thread has got from a channel by its calls is what a bounded priority queue gives it, and
-- this goes on.
structure Pooled.Serves {T : Type} (c : ChannelId) (capacity : Nat) (calls : List (Call T)) (y : Pooled T) :
    Prop where
  execution : Execution (Bounded.Queue.Step Prod.fst) (.new capacity) (calls.map Call.event)
              (y.user.bounded c)
  free      : y.pool.freePackets.length = (y.user.bounded c).free
  queued    : (y.user.owner.sched.impls c).map (·.getQueuedBufferLength) =
              some (y.user.bounded c).queued.card
  returns   : ∀ call, y.user.Guard call → y.user.Proper c call → ∃ y', y.exec c call = .ok y'
  refuses   : ∀ timestamp args y', y.exec c (.acquire timestamp args) = .ok y' →
              ((y'.user.bounded c).handles.getLast? = some ⟨true, none⟩ ↔
                (y.user.bounded c).held = capacity)

namespace Pool

variable {capacity packetSize : Int32} {pool : Pool} {ch ch' : ChannelImpl} {packets : List Int} {slot : Slot}

theorem Represents.congr (h : Represents ch pool) (hcap : ch'.capacity = ch.capacity)
    (hfree : ch'.freePackets = ch.freePackets) : Represents ch' pool :=
  ⟨hcap.trans h.capacity, hfree ▸ h.freePackets⟩

variable (hp : 0 < packetSize) (h : Pool.new capacity packetSize = .ok pool) (hf : Fits capacity packetSize)
include hp h hf

theorem Represents.acquireOrDrop {first : Option Slot}
    (hr : Represents ch { pool with freePackets := packets })
    (hlt : ∀ slot ∈ ch.freePackets, slot < ch.capacity) (hfirst : ∀ slot ∈ first, slot < ch.capacity)
    (hcap : ch'.capacity = ch.capacity) (hfree : ch'.freePackets = ch.freePackets.dropLast) :
    ∃ packets', ({ pool with freePackets := packets } : Pool).acquireOrDrop first =
        .ok { pool with freePackets := packets' } ∧
      Represents ch' { pool with freePackets := packets' } := by
  obtain ⟨_, rfl⟩ := eq_of_new h
  obtain ⟨packets₁, htake, hr₁⟩ := hr.takeFree hp h hf hlt
  rw [Pool.acquireOrDrop, htake]
  cases hlast : ch.freePackets.getLast?
  case some packet =>
    rw [ChannelImpl.takeFree, hlast] at hr₁ ⊢
    exact ⟨packets₁, rfl, hr₁.congr hcap hfree⟩
  case none =>
    have hnil := List.getLast?_eq_none_iff.mp hlast
    rw [ChannelImpl.takeFree, hlast] at hr₁ ⊢
    cases first
    case none => exact ⟨packets₁, rfl, hr₁.congr hcap <| by simp [hfree, hnil]⟩
    case some slot =>
      have hslot := hfirst slot rfl
      have hgive : ch.giveFree slot = .ok { ch with freePackets := [slot] } := by
        simp [ChannelImpl.giveFree, hnil, hslot, Nat.zero_lt_of_lt hslot]
      obtain ⟨packets₂, hrelease, hr₂⟩ := hr₁.giveFree hp h hf hgive
      obtain ⟨packets₃, hagain, hr₃⟩ := hr₂.takeFree hp h hf <| by simpa using hslot
      refine ⟨packets₃, ?_, hr₃.congr hcap <| by simp [ChannelImpl.takeFree, hfree, hnil]⟩
      simp only [Option.map_none, ok_bind, hrelease, hagain, pure_eq_ok]

end Pool

namespace Poller

variable {T : Type} {c : ChannelId} {y y' : Poller T} {ch : ChannelImpl}

theorem Inv.lt_of_free (h : y.Inv c) (hc : y.owner.sched.impls c = some ch) :
    ∀ slot ∈ ch.freePackets, slot < ch.capacity :=
  fun _ hm => h.owner.accounted.lt_capacity_of_free hc hm

theorem Inv.lt_of_front (h : y.Inv c) (hc : y.owner.sched.impls c = some ch) :
    ∀ slot ∈ ch.queuedPackets.front?, slot < ch.capacity :=
  fun _ hm => h.owner.accounted.lt_capacity_of_queued hc <| List.mem_of_head? hm

-- A packet that is released has not been free.
theorem Inv.exists_of_release {i : Nat} (h : y.Inv c) (hc : y.owner.sched.impls c = some ch)
    (hg : y.Guard (.release i)) (he : y.exec c (.release i) = .ok y') :
    ∃ slot ch', y.packet? i = some slot ∧ ch.giveFree slot = .ok ch' := by
  obtain ⟨owner, ho, _⟩ := bind_eq_ok.mp he
  obtain ⟨stub, hi, hk⟩ := Option.map_eq_some_iff.mp hg
  obtain ⟨slot, _, hp, _⟩ := exists_of_finish hi ho
  have hx := h.mem_clients hi hp (x := .processing c slot) <| by rw [hk]
  refine ⟨slot, { ch with freePackets := ch.freePackets ++ [slot] }, by simp [packet?, hi, hp], ?_⟩
  simp [ChannelImpl.giveFree, h.owner.accounted.lt_capacity hx hc rfl,
    h.owner.accounted.length_free_lt hx hc rfl]

end Poller

namespace Pooled

variable {T : Type} {c : ChannelId} {capacity packetSize : Int32} {pool : Pool} {y y' : Pooled T}
variable {call : Call T} {calls : List (Call T)}

theorem exec_eq_ok : y.exec c call = .ok y' ↔
    y.user.exec c call = .ok y'.user ∧ y.access c call = .ok y'.pool := by
  constructor
  case mp =>
    intro h
    obtain ⟨user, huser, h⟩ := bind_eq_ok.mp h
    obtain ⟨pool, hpool, h⟩ := bind_eq_ok.mp h
    obtain rfl := Except.ok.inj h
    exact ⟨mapError_eq_ok.mp huser, mapError_eq_ok.mp hpool⟩
  case mpr =>
    rintro ⟨huser, hpool⟩
    rw [exec, mapError_eq_ok.mpr huser, ok_bind, mapError_eq_ok.mpr hpool]
    rfl

-- The memory is the one that the channel was created with, and its free packets have the slots that
-- are free.
structure Backed (c : ChannelId) (pool : Pool) (y : Pooled T) : Prop where
  user   : y.user.Inv c
  memory : ∃ ch packets, y.user.owner.sched.impls c = some ch ∧
           y.pool = { pool with freePackets := packets } ∧
           Pool.Represents ch { pool with freePackets := packets }

section Fitting

variable (hp : 0 < packetSize) (h : Pool.new capacity packetSize = .ok pool) (hf : Pool.Fits capacity packetSize)
include hp h hf

-- The memory does not get in the way.
theorem Backed.exec (hb : y.Backed c pool) (hg : y.user.Guard call) {user : Poller T}
    (he : y.user.exec c call = .ok user) :
    ∃ y', y.exec c call = .ok y' ∧ y'.user = user ∧ y'.Backed c pool := by
  obtain ⟨_, rfl⟩ := Pool.eq_of_new h
  obtain ⟨ch, packets, hc, hpool, hr⟩ := hb.memory
  obtain ⟨ch', hc', hcap, hfree⟩ := (hb.user.refines hg he).live ch hc
  suffices hmemory : ∃ packets', y.access c call = .ok { pool with freePackets := packets' } ∧
      Pool.Represents ch' { pool with freePackets := packets' } by
    obtain ⟨packets', haccess, hr'⟩ := hmemory
    have hinv := hb.user.step hg he
    exact ⟨⟨user, _⟩, exec_eq_ok.mpr ⟨he, haccess⟩, rfl, hinv, ch', packets', hc', rfl, hr'⟩
  cases call
  case acquire timestamp args =>
    simp only [access, hpool, hc, Option.bind_some]
    exact hr.acquireOrDrop hp h hf (hb.user.lt_of_free hc) (hb.user.lt_of_front hc) hcap hfree
  case release i =>
    obtain ⟨slot, ch₁, hslot, hgive⟩ := hb.user.exists_of_release hc hg he
    obtain ⟨packets', hrelease, hr'⟩ := hr.giveFree hp h hf hgive
    obtain ⟨_, _, rfl⟩ := ChannelImpl.giveFree_eq_ok hgive
    simp only [access, hpool, hslot]
    refine ⟨packets', hrelease, hr'.congr hcap ?_⟩
    rw [hfree, Poller.freeAfter, hslot]
    rfl
  all_goals exact ⟨packets, congrArg Except.ok hpool, hr.congr hcap hfree⟩

theorem Backed.step (hb : y.Backed c pool) (hg : y.user.Guard call) (he : y.exec c call = .ok y') :
    y'.Backed c pool := by
  obtain ⟨_, he', _, hb'⟩ := hb.exec hp h hf hg (exec_eq_ok.mp he).1
  obtain rfl := Except.ok.inj <| he.symm.trans he'
  exact hb'

theorem serves_of_fits {y₀ : Pooled T} (hi : (pooled T c capacity packetSize).Init y₀)
    (r : (pooled T c capacity packetSize).Run (fun _ _ => True) y₀ calls y) :
    y.Serves c capacity.toInt.toNat calls := by
  obtain ⟨hinit, hnew⟩ := hi
  obtain rfl := Except.ok.inj <| h.symm.trans hnew
  have hb : y.Backed c y₀.pool := by
    refine r.preserves (fun _ _ _ hb e => hb.step hp h hf e.2.guard e.2.exec) ?_
    obtain ⟨hinv, _, name, state, profileData, hc⟩ := poller_init hinit
    exact ⟨hinv, _, _, hc, rfl, (Pool.represents_new name state false h).congr rfl rfl⟩
  have hrun : (poller T c capacity.toInt.toNat).Run (fun _ _ => True) y₀.user (calls.map id) y.user :=
    r.map (P := fun _ => True) (fun _ _ _ _ _ => trivial)
      (fun _ _ _ _ e => ⟨trivial, e.2.guard, (exec_eq_ok.mp e.2.exec).1⟩) trivial
  rw [List.map_id] at hrun
  obtain ⟨hexec, hfree, hqueued, hreturns, hrefuses⟩ := polled_refines hinit hrun
  obtain ⟨ch, packets, hc, hpool, hr⟩ := hb.memory
  refine ⟨hexec, ?_, hqueued, fun call hg hproper => ?_, fun timestamp args y' he => ?_⟩
  case refine_1 =>
    rw [hc] at hfree
    rw [← Option.some.inj hfree, hpool, hr.freePackets, List.length_map]
    rfl
  case refine_2 =>
    obtain ⟨user, he⟩ := hreturns call hg hproper
    obtain ⟨y', he', _⟩ := hb.exec hp h hf hg he
    exact ⟨y', he'⟩
  case refine_3 => exact hrefuses timestamp args y'.user (exec_eq_ok.mp he).1

end Fitting

-- A thread with a new channel.
theorem exists_init [Inhabited T] (c : ChannelId) (h : Pool.new capacity packetSize = .ok pool) :
    ∃ y : Pooled T, (pooled T c capacity packetSize).Init y ∧ y.pool = pool := by
  obtain ⟨s, hs⟩ : ∃ s, (SchedulerImpl.new 1 false).createChannel c "PolledChannel" capacity.toInt.toNat nullptr
      false = .ok s := ⟨_, SchedulerImpl.createChannel_eq rfl rfl⟩
  have hstep : owner.Step (.new 1 false 0) (.createChannel c "PolledChannel" capacity.toInt.toNat nullptr false)
      { Owner.new 1 false 0 with sched := s } := ⟨rfl, bind_eq_ok.mpr ⟨s, hs, rfl⟩⟩
  have hreachable : owner.Reachable Owner.Careful (.new 1 false 0) := ⟨_, [], ⟨1, false, 0, by decide, rfl⟩, .refl⟩
  exact ⟨⟨⟨_, fun _ => default⟩, pool⟩, ⟨⟨_, _, _, hreachable, rfl, hstep⟩, h⟩, rfl⟩

section Overflow

variable {first : Option Slot} {pool' : Pool} {packets : List Int} {packet : Int}

-- A free packet is looked at before it is given out.
theorem checkPacket_of_acquireOrDrop (hfree : pool.freePackets = packets ++ [packet])
    (h : pool.acquireOrDrop first = .ok pool') :
    pool.checkPacket packet = .ok () ∧ pool' = { pool with freePackets := packets } := by
  obtain ⟨r, hacquire, h⟩ := bind_eq_ok.mp h
  simp only [Pool.acquire, hfree, List.getLast?_concat, List.dropLast_concat] at hacquire
  obtain ⟨_, hcheck, hr⟩ := bind_eq_ok.mp hacquire
  obtain rfl := Except.ok.inj hr
  exact ⟨hcheck, (Except.ok.inj h).symm⟩

-- If every packet can be acquired, then the addresses of all slots pass the assertions.
theorem checkPacket_of_serves [Inhabited T] (h : Pool.new capacity packetSize = .ok pool)
    (hs : ∀ (y₀ : Pooled T) calls y, (pooled T c capacity packetSize).Init y₀ →
      (pooled T c capacity packetSize).Run (fun _ _ => True) y₀ calls y →
      y.Serves c capacity.toInt.toNat calls) {k : Nat} (hk : k ≤ capacity.toInt.toNat) :
    (∀ i < k, pool.checkPacket (Pool.offset packetSize i) = .ok ()) ∧
    ∃ (y₀ : Pooled T) (calls : List (Call T)) (y : Pooled T), (pooled T c capacity packetSize).Init y₀ ∧
      (pooled T c capacity packetSize).Run (fun _ _ => True) y₀ calls y ∧
      y.pool = { pool with freePackets :=
        ((List.range capacity.toInt.toNat).drop k).reverse.map <| Pool.offset packetSize } := by
  induction k
  case zero =>
    obtain ⟨y₀, hi, hpool⟩ := exists_init (T := T) c h
    refine ⟨nofun, y₀, [], y₀, hi, .refl, ?_⟩
    obtain ⟨_, _, rfl⟩ := Pool.new_eq_ok h
    exact hpool
  case succ k ih =>
    obtain ⟨hbefore, y₀, calls, y, hi, r, hpool⟩ := ih (Nat.le_of_succ_le hk)
    obtain ⟨y', he⟩ := (hs y₀ calls y hi r).returns (.acquire 0 default) trivial trivial
    have haccess := (exec_eq_ok.mp he).2
    rw [access, hpool] at haccess
    obtain ⟨hcheck, hpool'⟩ := checkPacket_of_acquireOrDrop (Pool.reverse_drop_range _ hk) haccess
    refine ⟨fun i hi => ?_, y₀, calls ++ [.acquire 0 default], y', hi, ?_, hpool'⟩
    case refine_1 =>
      cases Nat.lt_succ_iff_lt_or_eq.mp hi
      case inl hi => exact hbefore i hi
      case inr hi => exact hi ▸ hcheck
    case refine_2 =>
      have hstep : (pooled T c capacity packetSize).Step y (.acquire 0 default) y' := ⟨trivial, he⟩
      exact r.trans <| .step ⟨trivial, hstep⟩ .refl

end Overflow
end Pooled

-- Whatever the thread calls, it gets what a bounded priority queue gives it, if the whole memory of
-- the channel can be addressed with an `int`. If it cannot, then some packet is never acquired.
theorem polled_refines_iff {T : Type} [Inhabited T] {c : ChannelId} {capacity packetSize : Int32} {pool : Pool}
    (hp : 0 < packetSize) (h : Pool.new capacity packetSize = .ok pool) :
    (∀ (y₀ : Pooled T) calls y, (pooled T c capacity packetSize).Init y₀ →
      (pooled T c capacity packetSize).Run (fun _ _ => True) y₀ calls y →
      y.Serves c capacity.toInt.toNat calls) ↔ Pool.Fits capacity packetSize := by
  refine ⟨fun hs => ?_, fun hf y₀ calls y hi r => Pooled.serves_of_fits hp h hf hi r⟩
  by_contra hf
  obtain ⟨i, hi, hneg⟩ := Pool.exists_offset_neg hp h hf
  have hcheck := (Pooled.checkPacket_of_serves h hs (Nat.le_refl _)).1 i hi
  rw [Pool.checkPacket, if_pos hneg] at hcheck
  contradiction

-- A thread with a channel that has just been created.
def freshPooled (capacity packetSize : Int32) : Pooled Nat where
  user := {
    owner := {
      Owner.new 1 false 5 with
      sched := ((SchedulerImpl.new 1 false).createChannel 1 "PolledChannel" capacity.toInt.toNat nullptr
        false).toOption.getD (.new 1 false) }
    data  := fun _ => 0 }
  pool := (Pool.new capacity packetSize).toOption.getD ⟨capacity, packetSize, 0, []⟩

-- The second packet takes the place of the first one, and is polled with what was written to it.
def pollAfterDrop : List (Call Nat) :=
  [.acquire 0 32, .push 0, .acquire 1 40, .write 1 42, .push 1, .poll]

theorem polled_refines_iff_pollAfterDrop :
    ∃ y : Pooled Nat, (y.user.bounded 1).handles.getLast? = some ⟨false, some (1, 42)⟩ ∧
      y.Serves 1 1 pollAfterDrop := by
  obtain ⟨pool, h⟩ : ∃ pool, Pool.new 1 32 = .ok pool := ⟨_, rfl⟩
  have hi : (pooled Nat 1 1 32).Init (freshPooled 1 32) :=
    ⟨⟨.new 1 false 5, "PolledChannel", nullptr,
      ⟨_, [], ⟨1, false, 5, by decide, rfl⟩, .refl⟩, rfl, rfl, rfl⟩, rfl⟩
  have ⟨y, hr, hy⟩ : ∃ y, (pooled Nat 1 1 32).replay (fun _ _ => True) (freshPooled 1 32)
      pollAfterDrop = some y ∧
      decide ((y.user.bounded 1).handles.getLast? = some ⟨false, some (1, 42)⟩) = true :=
    (Option.any_eq_true ..).mp (by decide)
  have hp : (0 : Int32) < 32 := by decide
  have hf : Pool.Fits 1 32 := by decide
  exact ⟨y, of_decide_eq_true hy, (polled_refines_iff hp h).mpr hf _ _ y hi (Machine.run_of_replay hr)⟩

-- For 257 packets of 16 MiB each there are 16 MiB of memory, and only one of them can be acquired.
theorem polled_refuses_second :
    ∃ y₀ y : Pooled Nat, (pooled Nat 1 257 16777216).Init y₀ ∧
      (pooled Nat 1 257 16777216).Run (fun _ _ => True) y₀ [.acquire 0 0] y ∧
      (y.user.bounded 1).free = 256 ∧ y.exec 1 (.acquire 0 0) = .error (.pool .abovePool) ∧
      ¬y.Serves 1 257 [.acquire 0 0] := by
  have hi : (pooled Nat 1 257 16777216).Init (freshPooled 257 16777216) :=
    ⟨⟨.new 1 false 5, "PolledChannel", nullptr,
      ⟨_, [], ⟨1, false, 5, by decide, rfl⟩, .refl⟩, rfl, rfl, rfl⟩, rfl⟩
  have ⟨y, hr, hy⟩ : ∃ y, (pooled Nat 1 257 16777216).replay (fun _ _ => True)
      (freshPooled 257 16777216) [.acquire 0 0] = some y ∧
      decide ((y.user.bounded 1).free = 256 ∧ (pooled Nat 1 257 16777216).fault? y (.acquire 0 0) =
        some (.pool .abovePool)) = true :=
    (Option.any_eq_true ..).mp (by decide +kernel)
  obtain ⟨hfree, hfault⟩ := of_decide_eq_true hy
  have hexec := Machine.exec_eq_of_fault? hfault
  refine ⟨_, y, hi, Machine.run_of_replay hr, hfree, hexec, fun hs => ?_⟩
  obtain ⟨y', he⟩ := hs.returns (.acquire 0 0) trivial trivial
  exact nomatch hexec.symm.trans he

end PipeRT
