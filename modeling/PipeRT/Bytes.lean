import Mathlib

-- Numbers and objects as bytes in memory.
namespace Bytes

-- The `width` lowest bytes of a number, the least significant one first.
def ofNat : Nat → Nat → List UInt8
  | 0,         _ => []
  | width + 1, n => UInt8.ofNat n :: ofNat width (n / 256)

def toNat (bytes : List UInt8) : Nat :=
  Nat.ofDigits 256 (bytes.map UInt8.toNat)

-- The bytes `bytes` overwrite those at `offset`.
def write (memory : List UInt8) (offset : Nat) (bytes : List UInt8) : List UInt8 :=
  memory.take offset ++ bytes ++ memory.drop (offset + bytes.length)

def read (memory : List UInt8) (offset size : Nat) : List UInt8 :=
  (memory.drop offset).take size

section Numbers

variable {width n : Nat} {bytes : List UInt8}

@[simp]
theorem length_ofNat : (ofNat width n).length = width := by
  induction width generalizing n
  case zero          => rfl
  case succ width ih => simp [ofNat, ih]

theorem toNat_cons {b : UInt8} : toNat (b :: bytes) = b.toNat + 256 * toNat bytes :=
  Nat.ofDigits_cons

theorem toNat_lt : toNat bytes < 256 ^ bytes.length := by
  have h : ∀ x ∈ bytes.map UInt8.toNat, x < 256 := by
    intro x hx
    have ⟨b, _, hb⟩ := List.mem_map.mp hx
    exact hb ▸ b.toNat_lt
  simpa [toNat] using Nat.ofDigits_lt_base_pow_length (by decide) h

theorem toNat_ofNat (h : n < 256 ^ width) : toNat (ofNat width n) = n := by
  induction width generalizing n
  case zero => simp_all [ofNat, toNat]
  case succ width ih =>
    have hdiv : n / 256 < 256 ^ width := Nat.div_lt_of_lt_mul <| by rwa [← pow_succ']
    rw [ofNat, toNat_cons, ih hdiv, UInt8.toNat_ofNat']
    exact Nat.mod_add_div n 256

theorem ofNat_toNat : ofNat bytes.length (toNat bytes) = bytes := by
  induction bytes
  case nil => rfl
  case cons b bytes ih =>
    have hb := b.toNat_lt
    have hmod : UInt8.ofNat (b.toNat + 256 * toNat bytes) = b := by
      apply UInt8.toNat_inj.mp
      rw [UInt8.toNat_ofNat']
      omega
    have hdiv : (b.toNat + 256 * toNat bytes) / 256 = toNat bytes := by omega
    rw [List.length_cons, toNat_cons, ofNat, hmod, hdiv, ih]

theorem toNat_eq_zero_iff : toNat bytes = 0 ↔ ∀ b ∈ bytes, b = 0 := by
  induction bytes
  case nil => simp [toNat]
  case cons b bytes ih =>
    rw [toNat_cons, List.forall_mem_cons, ← ih, ← UInt8.toNat_inj]
    have h0 : (0 : UInt8).toNat = 0 := rfl
    omega

-- The bytes that are cut off do not matter.
theorem ofNat_mod : ofNat width (n % 256 ^ width) = ofNat width n := by
  induction width generalizing n
  case zero => rfl
  case succ width ih =>
    have hlow : UInt8.ofNat (n % 256 ^ (width + 1)) = UInt8.ofNat n := by
      apply UInt8.toNat_inj.mp
      rw [UInt8.toNat_ofNat', UInt8.toNat_ofNat', pow_succ']
      exact Nat.mod_mul_right_mod n 256 _
    have hhigh : n % 256 ^ (width + 1) / 256 = n / 256 % 256 ^ width := by
      rw [pow_succ']
      exact Nat.mod_mul_right_div_self n 256 _
    rw [ofNat, ofNat, hlow, hhigh, ih]

-- The most significant byte is the last one.
theorem ofNat_succ_eq_concat : ofNat (width + 1) n = ofNat width n ++ [UInt8.ofNat (n / 256 ^ width)] := by
  induction width generalizing n
  case zero => simp [ofNat]
  case succ width ih =>
    rw [ofNat, ih, Nat.div_div_eq_div_mul, ← pow_succ']
    rfl

section Network

variable {bytes' : List UInt8}

-- Bytes in network byte order.
theorem toNat_reverse_inj (hlen : bytes.length = bytes'.length)
    (h : toNat bytes.reverse = toNat bytes'.reverse) : bytes = bytes' := by
  have hofNat := congrArg (ofNat bytes.reverse.length) h
  rw [ofNat_toNat, List.length_reverse, hlen, ← List.length_reverse, ofNat_toNat] at hofNat
  exact List.reverse_injective hofNat

-- The same for eight bytes that are taken for a `double`.
theorem ofNat_toNat_reverse_inj (hlen : bytes.length = 8) (hlen' : bytes'.length = 8)
    (h : BitVec.ofNat 64 (toNat bytes.reverse) = .ofNat 64 (toNat bytes'.reverse)) :
    bytes = bytes' := by
  have hlt : ∀ b : List UInt8, b.length = 8 → toNat b.reverse < 2 ^ 64 := by
    intro b hb
    have hlt : toNat b.reverse < 256 ^ b.reverse.length := toNat_lt
    rw [List.length_reverse, hb] at hlt
    exact hlt.trans_eq (by norm_num)
  have hnat := congrArg BitVec.toNat h
  rw [BitVec.toNat_ofNat, BitVec.toNat_ofNat, Nat.mod_eq_of_lt (hlt _ hlen),
    Nat.mod_eq_of_lt (hlt _ hlen')] at hnat
  exact toNat_reverse_inj (hlen.trans hlen'.symm) hnat

end Network
end Numbers

section Memory

variable {memory bytes : List UInt8} {offset offset' size : Nat}

theorem length_write (h : offset + bytes.length ≤ memory.length) :
    (write memory offset bytes).length = memory.length := by
  simp only [write, List.length_append, List.length_take, List.length_drop]
  omega

theorem length_read (h : offset + size ≤ memory.length) : (read memory offset size).length = size := by
  simp only [read, List.length_take, List.length_drop]
  omega

theorem read_write_self (h : offset ≤ memory.length) :
    read (write memory offset bytes) offset bytes.length = bytes := by
  have hlen : (memory.take offset).length = offset := by simpa using h
  rw [read, write, List.append_assoc, List.drop_left' hlen, List.take_left' rfl]

-- What lies below the written bytes is still there.
theorem read_write_below (h : offset' + size ≤ offset) (hm : offset ≤ memory.length) :
    read (write memory offset bytes) offset' size = read memory offset' size := by
  have hlen : (memory.take offset).length = offset := by simpa using hm
  rw [read, read, write, List.append_assoc, List.drop_append_of_le_length (by omega),
    List.take_append_of_le_length (by simp only [List.length_drop]; omega), List.drop_take,
    List.take_take, Nat.min_eq_left (by omega)]

-- Bytes that fill the memory replace it.
theorem write_all (h : bytes.length = memory.length) : write memory 0 bytes = bytes := by
  simp [write, h]

variable {memory' bytes' bytes'' : List UInt8}

-- What is read one after the other is all there is.
theorem drop_eq_of_read
    (h : read memory offset size = read memory' offset size)
    (h' : memory.drop (offset + size) = memory'.drop (offset + size)) :
    memory.drop offset = memory'.drop offset := by
  rw [← List.take_append_drop size (memory.drop offset), ← List.take_append_drop size (memory'.drop offset),
    List.drop_drop, List.drop_drop, h']
  exact congrArg (· ++ _) h

-- Images one after the other, of which the first ones have been read.
theorem read_append (h : bytes.length = size) : read (bytes ++ bytes') 0 size = bytes := by
  rw [read, List.drop_zero, List.take_left' h]

theorem read_append_add {n : Nat} (h : bytes.length = n) (h' : read bytes' offset size = bytes'') :
    read (bytes ++ bytes') (n + offset) size = bytes'' := by
  rw [← h', read, read, ← List.drop_drop, List.drop_left' h]

end Memory
end Bytes

-- How the objects of a type stand in memory.
structure Layout (α : Type) where
  size            : Nat
  align           : Nat
  toBytes         : α → List UInt8
  ofBytes         : List UInt8 → α
  align_pos       : 0 < align
  length_toBytes  : ∀ a, (toBytes a).length = size
  ofBytes_toBytes : ∀ a, ofBytes (toBytes a) = a

namespace Layout

variable {α β : Type}

attribute [simp] length_toBytes ofBytes_toBytes

def uint64 : Layout UInt64 where
  size               := 8
  align              := 8
  toBytes a          := Bytes.ofNat 8 a.toNat
  ofBytes bytes      := .ofNat (Bytes.toNat bytes)
  align_pos          := by decide
  length_toBytes _   := Bytes.length_ofNat
  ofBytes_toBytes a  := by rw [Bytes.toNat_ofNat a.toNat_lt, UInt64.ofNat_toNat]

-- The same bytes, read as another type.
def map (L : Layout α) (e : α ≃ β) : Layout β where
  size              := L.size
  align             := L.align
  toBytes b         := L.toBytes (e.symm b)
  ofBytes bytes     := e (L.ofBytes bytes)
  align_pos         := L.align_pos
  length_toBytes _  := L.length_toBytes _
  ofBytes_toBytes _ := by simp

-- Two's complement.
def int64 : Layout Int64 :=
  uint64.map {
    toFun  := Int64.ofUInt64
    invFun := Int64.toUInt64
  }

-- Two objects right after each other.
def prod (L : Layout α) (M : Layout β) : Layout (α × β) where
  size              := L.size + M.size
  align             := max L.align M.align
  toBytes a         := L.toBytes a.1 ++ M.toBytes a.2
  ofBytes bytes     := (L.ofBytes (bytes.take L.size), M.ofBytes (bytes.drop L.size))
  align_pos         := lt_max_of_lt_left L.align_pos
  length_toBytes _  := by simp
  ofBytes_toBytes _ := by simp

-- The next multiple of an alignment.
def roundUp (n align : Nat) : Nat :=
  (n + align - 1) / align * align

theorem le_roundUp {n align : Nat} (h : 0 < align) : n ≤ roundUp n align := by
  have hlt := Nat.lt_div_mul_add (a := n + align - 1) h
  rw [roundUp]
  omega

end Layout
