import PipeRT.Channel.Impl
import PipeRT.Machine

namespace PipeRT

-- The ways in which the memory of a channel gives trouble.
inductive PoolFault where
  -- `new` is asked for a negative number of bytes.
  | badArrayNewLength
  -- `reserve` is asked for a negative capacity.
  | lengthError
  -- The assertions about the address of a packet, in their order.
  | belowPool
  | abovePool
  | misaligned
  -- `free_packets_.size() < capacity_` in `Release`.
  | full
  deriving DecidableEq, Repr

-- The memory of a channel. The addresses of packets are relative to `pool_`.
structure Pool where
  capacity    : Int32
  packetSize  : Int32
  size        : Nat
  freePackets : List Int

namespace Pool

-- `packet_size_ * i`.
def offset (packetSize : Int32) (i : Nat) : Int :=
  (packetSize * Int32.ofNat i).toInt

-- What the constructor of `ChannelImpl` does about its memory.
protected def new (capacity packetSize : Int32) : Except PoolFault Pool :=
  if capacity * packetSize < 0 then
    .error .badArrayNewLength
  else if capacity < 0 then
    .error .lengthError
  else
    .ok {
      capacity, packetSize
      size        := (capacity * packetSize).toInt.toNat
      freePackets := (List.range capacity.toInt.toNat).reverse.map <| offset packetSize
    }

-- The assertions that `Acquire` and `Release` have in common.
def checkPacket (pool : Pool) (packet : Int) : Except PoolFault Unit :=
  if packet < 0 then
    .error .belowPool
  else if (pool.packetSize * pool.capacity).toInt ≤ packet then
    .error .abovePool
  else if packet.tmod pool.packetSize.toInt ≠ 0 then
    .error .misaligned
  else
    .ok ()

-- `Acquire`, if there is a free packet.
def acquire (pool : Pool) : Except PoolFault (Option Int × Pool) :=
  match pool.freePackets.getLast? with
  | none        => .ok (none, pool)
  | some packet => do
    pool.checkPacket packet
    return (some packet, { pool with freePackets := pool.freePackets.dropLast })

def release (pool : Pool) (packet : Int) : Except PoolFault Pool := do
  pool.checkPacket packet
  if pool.freePackets.length < pool.capacity.toInt then
    return { pool with freePackets := pool.freePackets ++ [packet] }
  else
    .error .full

end Pool

-- A pool, and the packets that are somewhere else: being filled, queued or being processed.
structure PoolUse where
  pool  : Pool
  taken : List Int

inductive PoolAction where
  | acquire
  | release (packet : Int)
  deriving DecidableEq, Repr

namespace PoolUse

def Guard (y : PoolUse) : PoolAction → Prop
  | .acquire        => True
  | .release packet => packet ∈ y.taken

instance (y : PoolUse) (a : PoolAction) : Decidable (y.Guard a) :=
  match a with
  | .acquire        => inferInstanceAs (Decidable True)
  | .release packet => inferInstanceAs (Decidable (packet ∈ y.taken))

def exec (y : PoolUse) : PoolAction → Except PoolFault PoolUse
  | .acquire        => do
    let (packet, pool) ← y.pool.acquire
    return ⟨pool, packet.toList ++ y.taken⟩
  | .release packet => do
    let pool ← y.pool.release packet
    return ⟨pool, y.taken.erase packet⟩

end PoolUse

-- All that is ever done to the pool of a channel.
def poolUse (pool : Pool) : Machine PoolUse PoolAction PoolFault where
  Init y := y = ⟨pool, []⟩
  Guard  := PoolUse.Guard
  exec   := PoolUse.exec

instance (pool : Pool) (y : PoolUse) (a : PoolAction) : Decidable ((poolUse pool).Guard y a) :=
  inferInstanceAs (Decidable (y.Guard a))

namespace Pool

variable {capacity packetSize : Int32} {pool : Pool} {i j : Nat}

-- The whole pool can be addressed with an `int`.
def Fits (capacity packetSize : Int32) : Prop :=
  capacity.toInt * packetSize.toInt < 2 ^ 31

instance : Decidable (Fits capacity packetSize) :=
  inferInstanceAs (Decidable (_ < _))

theorem pos_toInt (hp : 0 < packetSize) : 0 < packetSize.toInt :=
  Int32.lt_iff_toInt_lt.mp hp

theorem toInt_mul_of_lt {a b : Int32} (h : 0 ≤ a.toInt * b.toInt) (h' : a.toInt * b.toInt < 2 ^ 31) :
    (a * b).toInt = a.toInt * b.toInt := by
  rw [Int32.toInt_mul]
  exact Int.bmod_eq_of_le_mul_two (by omega) (by omega)

-- The product wraps around once.
theorem toInt_mul_neg {a b : Int32} (h : 2 ^ 31 ≤ a.toInt * b.toInt) (h' : a.toInt * b.toInt < 2 ^ 32) :
    (a * b).toInt < 0 := by
  have hcast : ((2 ^ 32 : Nat) : Int) = 2 ^ 32 := rfl
  rw [Int32.toInt_mul, Int.bmod_def, hcast, Int.emod_eq_of_lt (by omega) h']
  omega

theorem new_eq_ok (h : Pool.new capacity packetSize = .ok pool) :
    0 ≤ (capacity * packetSize).toInt ∧ 0 ≤ capacity.toInt ∧ pool = {
      capacity, packetSize
      size        := (capacity * packetSize).toInt.toNat
      freePackets := (List.range capacity.toInt.toNat).reverse.map <| offset packetSize } := by
  rw [Pool.new] at h
  split at h
  case isTrue => contradiction
  case isFalse hsize =>
    split at h
    case isTrue => contradiction
    case isFalse hcapacity =>
      rw [Int32.lt_iff_toInt_lt] at hsize hcapacity
      exact ⟨Int.not_lt.mp hsize, Int.not_lt.mp hcapacity, (Except.ok.inj h).symm⟩

theorem eq_of_new (h : Pool.new capacity packetSize = .ok pool) :
    pool.capacity = capacity ∧ pool.packetSize = packetSize := by
  obtain ⟨_, _, rfl⟩ := new_eq_ok h
  exact ⟨rfl, rfl⟩

theorem toInt_index (hi : i < capacity.toInt.toNat) : (Int32.ofNat i).toInt = i := by
  have hlt := capacity.toInt_lt
  exact Int32.toInt_ofNat_of_lt (by omega)

theorem offset_eq (hp : 0 < packetSize) (hi : i < capacity.toInt.toNat)
    (h : packetSize.toInt * i < 2 ^ 31) : offset packetSize i = packetSize.toInt * i := by
  have hpos := pos_toInt hp
  have hnonneg : 0 ≤ packetSize.toInt * i := by positivity
  rw [offset, toInt_mul_of_lt, toInt_index hi]
  all_goals rwa [toInt_index hi]

-- The first slot that is too far away for an `int` comes to lie before the pool. There is one, as the
-- end of the pool would be the first one otherwise.
theorem exists_offset_neg (hp : 0 < packetSize) (h : Pool.new capacity packetSize = .ok pool)
    (hf : ¬Fits capacity packetSize) : ∃ i < capacity.toInt.toNat, offset packetSize i < 0 := by
  obtain ⟨hsize, hcapacity, _⟩ := new_eq_ok h
  have hpos := pos_toInt hp
  have hmax := packetSize.toInt_lt
  have hcast : (capacity.toInt.toNat : Int) = capacity.toInt := Int.toNat_of_nonneg hcapacity
  have hfar : ∃ i : Nat, 2 ^ 31 ≤ packetSize.toInt * i := by
    refine ⟨capacity.toInt.toNat, ?_⟩
    rw [hcast, mul_comm]
    exact Int.not_lt.mp hf
  obtain ⟨i, hi, hfirst⟩ := Nat.findX hfar
  have hle : i ≤ capacity.toInt.toNat := by
    by_contra hgt
    refine hfirst _ (Nat.lt_of_not_le hgt) ?_
    rw [hcast, mul_comm]
    exact Int.not_lt.mp hf
  have hnear : packetSize.toInt * i < 2 ^ 32 := by
    cases i
    case zero   => simp at hi
    case succ i =>
      have hlt := Int.not_le.mp <| hfirst i (Nat.lt_succ_self i)
      push_cast
      rw [mul_add, mul_one]
      omega
  have hlt : i < capacity.toInt.toNat := by
    refine Nat.lt_of_le_of_ne hle fun he => ?_
    rw [he, hcast, mul_comm] at hi hnear
    exact absurd (toInt_mul_neg hi hnear) (Int.not_lt.mpr hsize)
  refine ⟨i, hlt, ?_⟩
  rw [offset]
  apply toInt_mul_neg
  all_goals rwa [toInt_index hlt]

-- The slots do not overlap, and lie in the pool.
structure Spaced (pool : Pool) : Prop where
  apart  : ∀ i < pool.capacity.toInt.toNat, ∀ j < pool.capacity.toInt.toNat, i ≠ j →
           pool.packetSize.toInt ≤ |offset pool.packetSize i - offset pool.packetSize j|
  inside : ∀ i < pool.capacity.toInt.toNat, 0 ≤ offset pool.packetSize i ∧
           offset pool.packetSize i + pool.packetSize.toInt ≤ pool.size

-- No assertion about a packet fails, whatever happens to the pool.
def Checked (pool : Pool) : Prop :=
  ∀ y, (poolUse pool).Reachable (fun _ _ => True) y → ∀ a, y.Guard a → ∀ f, y.exec a ≠ .error f

structure Correct (pool : Pool) : Prop where
  size    : (pool.size : Int) = pool.capacity.toInt * pool.packetSize.toInt
  spaced  : pool.Spaced
  checked : pool.Checked

-- Every slot ends before all of them do.
theorem add_le_mul (hp : 0 < packetSize) (hi : i < capacity.toInt.toNat) :
    packetSize.toInt * i + packetSize.toInt ≤ capacity.toInt * packetSize.toInt := by
  have hpos := pos_toInt hp
  have hle : (i : Int) + 1 ≤ capacity.toInt := by omega
  calc
    packetSize.toInt * i + packetSize.toInt = ((i : Int) + 1) * packetSize.toInt := by ring
    _ ≤ capacity.toInt * packetSize.toInt := Int.mul_le_mul_of_nonneg_right hle hpos.le

theorem offset_of_fits (hp : 0 < packetSize) (hf : Fits capacity packetSize) (hi : i < capacity.toInt.toNat) :
    offset packetSize i = packetSize.toInt * i := by
  have hpos := pos_toInt hp
  have hle := add_le_mul hp hi
  exact offset_eq hp hi <| by
    rw [Fits] at hf
    omega

section Fitting

variable (hp : 0 < packetSize) (h : Pool.new capacity packetSize = .ok pool) (hf : Fits capacity packetSize)
include hp h hf

theorem size_of_fits : (pool.size : Int) = capacity.toInt * packetSize.toInt := by
  obtain ⟨hsize, hcapacity, rfl⟩ := new_eq_ok h
  have hnonneg : 0 ≤ capacity.toInt * packetSize.toInt := Int.mul_nonneg hcapacity (pos_toInt hp).le
  rw [← toInt_mul_of_lt hnonneg hf]
  exact Int.toNat_of_nonneg hsize

theorem spaced_of_fits : pool.Spaced := by
  have hpos := pos_toInt hp
  have hsize := size_of_fits hp h hf
  obtain ⟨_, _, rfl⟩ := new_eq_ok h
  constructor
  case apart =>
    intro i hi j hj hne
    rw [offset_of_fits hp hf hi, offset_of_fits hp hf hj, ← mul_sub, abs_mul, abs_of_pos hpos]
    have hone : 1 ≤ |(i : Int) - j| := Int.one_le_abs (by omega)
    exact le_mul_of_one_le_right hpos.le hone
  case inside =>
    intro i hi
    rw [hsize, offset_of_fits hp hf hi]
    exact ⟨by positivity, add_le_mul hp hi⟩

theorem checkPacket_of_fits {packets : List Int} (hi : i < capacity.toInt.toNat) :
    ({ pool with freePackets := packets } : Pool).checkPacket (offset packetSize i) = .ok () := by
  have hpos := pos_toInt hp
  have hle := add_le_mul hp hi
  have hnonneg : 0 ≤ packetSize.toInt * i := by positivity
  obtain ⟨_, hcapacity, rfl⟩ := new_eq_ok h
  have hend : (packetSize * capacity).toInt = packetSize.toInt * capacity.toInt := by
    refine toInt_mul_of_lt (Int.mul_nonneg hpos.le hcapacity) ?_
    rw [mul_comm]
    exact hf
  have hmod : (packetSize.toInt * (i : Int)).tmod packetSize.toInt = 0 := Int.mul_tmod_right ..
  rw [offset_of_fits hp hf hi, checkPacket, if_neg (Int.not_lt.mpr hnonneg), if_neg, if_neg (not_not.mpr hmod)]
  rw [hend, mul_comm packetSize.toInt capacity.toInt]
  omega

-- What stays the same of a pool in use. Every slot is in one place.
structure Kept (pool : Pool) (y : PoolUse) : Prop where
  same  : y.pool = { pool with freePackets := y.pool.freePackets }
  slots : (y.pool.freePackets ++ y.taken).Perm <|
          (List.range pool.capacity.toInt.toNat).map <| offset pool.packetSize

theorem Kept.checkPacket {y : PoolUse} {packet : Int} (hy : Kept pool y)
    (hm : packet ∈ y.pool.freePackets ++ y.taken) : y.pool.checkPacket packet = .ok () := by
  obtain ⟨hcapacity, hsize⟩ := eq_of_new h
  have hslot := hy.slots.subset hm
  rw [hcapacity, hsize] at hslot
  obtain ⟨i, hi, rfl⟩ := List.mem_map.mp hslot
  rw [hy.same]
  exact checkPacket_of_fits hp h hf (List.mem_range.mp hi)

theorem Kept.acquire {y : PoolUse} (hy : Kept pool y) : ∃ y', y.exec .acquire = .ok y' ∧ Kept pool y' := by
  cases hlast : y.pool.freePackets.getLast?
  case none =>
    have hacquire : y.pool.acquire = .ok (none, y.pool) := by rw [Pool.acquire, hlast]
    exact ⟨y, by rw [PoolUse.exec, hacquire]; rfl, hy⟩
  case some packet =>
    have hsplit := List.dropLast_append_getLast? packet hlast
    have hcheck := hy.checkPacket hp h hf <| List.mem_append_left _ <| List.mem_of_getLast? hlast
    have hacquire : y.pool.acquire =
        .ok (some packet, { y.pool with freePackets := y.pool.freePackets.dropLast }) := by
      rw [Pool.acquire, hlast]
      simp only [hcheck, ok_bind, pure_eq_ok]
    refine ⟨_, by rw [PoolUse.exec, hacquire]; rfl, ?_, ?_⟩
    case refine_1 => rw [hy.same]
    case refine_2 =>
      refine .trans ?_ hy.slots
      conv_rhs => rw [← hsplit, List.append_assoc]
      exact .refl _

theorem Kept.release {y : PoolUse} {packet : Int} (hy : Kept pool y) (hm : packet ∈ y.taken) :
    ∃ y', y.exec (.release packet) = .ok y' ∧ Kept pool y' := by
  have hcheck := hy.checkPacket hp h hf <| List.mem_append_right _ hm
  have hperm := List.perm_cons_erase hm
  have hroom : (y.pool.freePackets.length : Int) < y.pool.capacity.toInt := by
    have hlen := hy.slots.length_eq
    have htaken := List.length_pos_of_mem hm
    have hcapacity : y.pool.capacity = pool.capacity := by rw [hy.same]
    rw [List.length_append, List.length_map, List.length_range] at hlen
    rw [hcapacity]
    omega
  have hrelease : y.pool.release packet =
      .ok { y.pool with freePackets := y.pool.freePackets ++ [packet] } := by
    rw [Pool.release]
    simp only [hcheck, hroom, ok_bind, pure_eq_ok, if_true]
  refine ⟨_, by rw [PoolUse.exec, hrelease]; rfl, ?_, ?_⟩
  case refine_1 => rw [hy.same]
  case refine_2 =>
    refine .trans ?_ hy.slots
    rw [List.append_assoc]
    exact hperm.symm.append_left _

theorem safe_of_fits : (poolUse pool).Safe (fun _ _ => True) (Kept pool) where
  init y hi := by
    obtain rfl := hi
    obtain ⟨_, _, rfl⟩ := new_eq_ok h
    refine ⟨rfl, ?_⟩
    rw [List.append_nil]
    exact (List.reverse_perm _).map _
  step y a hy hg _ := by
    cases a
    case acquire        => exact hy.acquire hp h hf
    case release packet => exact hy.release hp h hf hg

theorem checked_of_fits : pool.Checked :=
  fun _ hr _ hg f => (safe_of_fits hp h hf).not_error hr hg trivial f

end Fitting

-- A channel whose slots stand for the addresses of packets.
structure Represents (ch : ChannelImpl) (pool : Pool) : Prop where
  capacity    : ch.capacity = pool.capacity.toInt.toNat
  freePackets : pool.freePackets = ch.freePackets.map (offset pool.packetSize)

section Represents

variable {ch ch' : ChannelImpl} {packets : List Int} {packet : Slot}
variable (hp : 0 < packetSize) (h : Pool.new capacity packetSize = .ok pool) (hf : Fits capacity packetSize)

theorem represents_new (name : String) (singleThreadObject : Ptr) (callback : Bool)
    (h : Pool.new capacity packetSize = .ok pool) :
    Represents (.new name capacity.toInt.toNat singleThreadObject callback) pool := by
  obtain ⟨_, _, rfl⟩ := new_eq_ok h
  exact ⟨rfl, rfl⟩

include hp h hf

theorem Represents.takeFree (hr : Represents ch { pool with freePackets := packets })
    (hlt : ∀ packet ∈ ch.freePackets, packet < ch.capacity) :
    ∃ packets', ({ pool with freePackets := packets } : Pool).acquire =
        .ok (ch.takeFree.1.map <| offset packetSize, { pool with freePackets := packets' }) ∧
      Represents ch.takeFree.2 { pool with freePackets := packets' } := by
  obtain ⟨hcapacity, hpacketSize⟩ := eq_of_new h
  have hfree : packets = ch.freePackets.map (offset packetSize) := hpacketSize ▸ hr.freePackets
  rw [Pool.acquire, ChannelImpl.takeFree]
  simp only [hfree, List.getLast?_map]
  cases hlast : ch.freePackets.getLast?
  case none => exact ⟨_, rfl, hr.capacity, hpacketSize.symm ▸ rfl⟩
  case some packet =>
    have hlt : packet < capacity.toInt.toNat :=
      hcapacity ▸ hr.capacity ▸ hlt packet (List.mem_of_getLast? hlast)
    simp only [Option.map_some, checkPacket_of_fits hp h hf hlt, ok_bind, pure_eq_ok]
    refine ⟨_, rfl, hr.capacity, ?_⟩
    rw [List.map_dropLast, hpacketSize]

theorem Represents.giveFree (hr : Represents ch { pool with freePackets := packets })
    (hg : ch.giveFree packet = .ok ch') :
    ∃ packets', ({ pool with freePackets := packets } : Pool).release (offset packetSize packet) =
        .ok { pool with freePackets := packets' } ∧
      Represents ch' { pool with freePackets := packets' } := by
  obtain ⟨hcapacity, hpacketSize⟩ := eq_of_new h
  have hfree : packets = ch.freePackets.map (offset packetSize) := hpacketSize ▸ hr.freePackets
  obtain ⟨hlt, hroom, rfl⟩ := ChannelImpl.giveFree_eq_ok hg
  have hchannel := hr.capacity
  simp only [hchannel, hcapacity] at hlt hroom
  have hlen : ((packets.length : Nat) : Int) < pool.capacity.toInt := by
    rw [hfree, List.length_map, hcapacity]
    omega
  rw [Pool.release]
  simp only [checkPacket_of_fits hp h hf hlt, ok_bind, hlen, if_true, pure_eq_ok]
  refine ⟨_, rfl, hr.capacity, ?_⟩
  rw [hfree, List.map_append, List.map_singleton, hpacketSize]

end Represents

-- The free slots once `k` of them are acquired, which are the first ones.
theorem reverse_drop_range {β : Type} {k : Nat} (f : Nat → β) (hk : k < i) :
    ((List.range i).drop k).reverse.map f = ((List.range i).drop (k + 1)).reverse.map f ++ [f k] := by
  have hlt : k < (List.range i).length := by rwa [List.length_range]
  rw [List.drop_eq_getElem_cons hlt, List.getElem_range, List.reverse_cons, List.map_append, List.map_singleton]

-- The packets are acquired in the order of their slots.
theorem exec_acquire_eq (pool : Pool) (packetSize : Int32) {k : Nat} (taken : List Int) (hk : k < i) :
    PoolUse.exec ⟨{ pool with freePackets := ((List.range i).drop k).reverse.map <| offset packetSize }, taken⟩
        .acquire = (do
      pool.checkPacket (offset packetSize k)
      return ⟨{ pool with freePackets := ((List.range i).drop (k + 1)).reverse.map <| offset packetSize },
        offset packetSize k :: taken⟩) := by
  rw [PoolUse.exec, Pool.acquire]
  simp only [reverse_drop_range _ hk, List.getLast?_concat, List.dropLast_concat]
  change (((pool.checkPacket _) >>= _) >>= _) = _
  cases pool.checkPacket (offset packetSize k) <;> rfl

-- So many packets are acquired, as long as their addresses pass the assertions.
theorem exists_run {k : Nat} (h : Pool.new capacity packetSize = .ok pool) (hk : k ≤ capacity.toInt.toNat)
    (hc : ∀ i < k, pool.checkPacket (offset packetSize i) = .ok ()) :
    ∃ as taken, (poolUse pool).Run (fun _ _ => True) ⟨pool, []⟩ as ⟨{ pool with
      freePackets := ((List.range capacity.toInt.toNat).drop k).reverse.map <| offset packetSize }, taken⟩ := by
  induction k
  case zero =>
    have hpool : pool = { pool with
        freePackets := ((List.range capacity.toInt.toNat).drop 0).reverse.map <| offset packetSize } := by
      obtain ⟨_, _, rfl⟩ := new_eq_ok h
      rfl
    exact ⟨[], [], hpool ▸ .refl⟩
  case succ k ih =>
    obtain ⟨as, taken, r⟩ := ih (Nat.le_of_succ_le hk) fun i hi => hc i <| Nat.lt_succ_of_lt hi
    have hexec := exec_acquire_eq pool packetSize taken hk
    rw [hc k (Nat.lt_succ_self k), ok_bind] at hexec
    have hstep : (poolUse pool).Step _ .acquire _ := ⟨trivial, hexec⟩
    exact ⟨as ++ [.acquire], _, r.trans <| .step ⟨trivial, hstep⟩ .refl⟩

-- The first slot whose address does not pass them cannot be acquired.
theorem not_checked (h : Pool.new capacity packetSize = .ok pool)
    (hf : ∃ i, i < capacity.toInt.toNat ∧ pool.checkPacket (offset packetSize i) ≠ .ok ()) :
    ¬pool.Checked := by
  obtain ⟨k, ⟨hk, hfail⟩, hfirst⟩ := Nat.findX hf
  have hbefore : ∀ i < k, pool.checkPacket (offset packetSize i) = .ok () := by
    intro i hi
    by_contra hne
    exact hfirst i hi ⟨hi.trans hk, hne⟩
  obtain ⟨as, taken, r⟩ := exists_run h hk.le hbefore
  have hexec := exec_acquire_eq pool packetSize taken hk
  cases hcheck : pool.checkPacket (offset packetSize k)
  case ok       => exact absurd hcheck hfail
  case error f =>
    rw [hcheck] at hexec
    exact fun hc => hc _ ⟨_, as, rfl, r⟩ .acquire trivial f hexec

section Overflow

variable (hp : 0 < packetSize) (h : Pool.new capacity packetSize = .ok pool) (hf : ¬Fits capacity packetSize)
include h hf

theorem size_ne_of_overflow : (pool.size : Int) ≠ capacity.toInt * packetSize.toInt := by
  obtain ⟨hsize, _, rfl⟩ := new_eq_ok h
  have hlt := (capacity * packetSize).toInt_lt
  rw [Fits] at hf
  simp only
  omega

include hp

theorem not_spaced_of_overflow : ¬pool.Spaced := by
  obtain ⟨hcapacity, hsize⟩ := eq_of_new h
  obtain ⟨i, hi, hneg⟩ := exists_offset_neg hp h hf
  intro hs
  have hnonneg := (hs.inside i (hcapacity.symm ▸ hi)).1
  rw [hsize] at hnonneg
  exact absurd hneg (Int.not_lt.mpr hnonneg)

theorem not_checked_of_overflow : ¬pool.Checked := by
  obtain ⟨i, hi, hneg⟩ := exists_offset_neg hp h hf
  refine not_checked h ⟨i, hi, ?_⟩
  rw [checkPacket, if_pos hneg]
  exact nofun

end Overflow
end Pool

open Pool

-- The memory of a channel is what it is meant to be if all of it can be addressed with an `int`. If
-- it cannot, then its size is wrong, there are packets outside of it, and one of them is acquired.
theorem pool_correct_iff {capacity packetSize : Int32} {pool : Pool} (hp : 0 < packetSize)
    (h : Pool.new capacity packetSize = .ok pool) :
    (pool.Correct ↔ Fits capacity packetSize) ∧
    ((pool.size : Int) = capacity.toInt * packetSize.toInt ↔ Fits capacity packetSize) ∧
    (pool.Spaced ↔ Fits capacity packetSize) ∧ (pool.Checked ↔ Fits capacity packetSize) := by
  have hsize : (pool.size : Int) = capacity.toInt * packetSize.toInt ↔ Fits capacity packetSize :=
    ⟨fun hs => not_imp_not.mp (fun hf => size_ne_of_overflow h hf) hs, size_of_fits hp h⟩
  have hspaced : pool.Spaced ↔ Fits capacity packetSize :=
    ⟨fun hs => not_imp_not.mp (fun hf => not_spaced_of_overflow hp h hf) hs, spaced_of_fits hp h⟩
  have hchecked : pool.Checked ↔ Fits capacity packetSize :=
    ⟨fun hc => not_imp_not.mp (fun hf => not_checked_of_overflow hp h hf) hc, checked_of_fits hp h⟩
  refine ⟨⟨fun hc => hspaced.mp hc.spaced, fun hf => ?_⟩, hsize, hspaced, hchecked⟩
  obtain ⟨hcapacity, hpacketSize⟩ := eq_of_new h
  exact ⟨hcapacity ▸ hpacketSize ▸ hsize.mpr hf, hspaced.mpr hf, hchecked.mpr hf⟩

-- A buffer of 1024 packets of 1 MiB each.
theorem pool_correct_iff_gigabyte : ∃ pool, Pool.new 1024 1048576 = .ok pool ∧ pool.Correct := by
  have hp : (0 : Int32) < 1048576 := by decide
  have hf : Fits 1024 1048576 := by decide
  exact ⟨_, rfl, (pool_correct_iff hp rfl).1.mpr hf⟩

-- For 65537 packets of 64 KiB each, there are only 64 KiB of memory.
theorem pool_wraps : ∃ pool, Pool.new 65537 65536 = .ok pool ∧ pool.size = 65536 ∧ ¬pool.Correct :=
  ⟨_, rfl, by decide, fun hc => absurd hc.size (by decide)⟩

end PipeRT
