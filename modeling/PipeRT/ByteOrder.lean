import PipeRT.Bytes

theorem Bytes.ofNat_toNat_of_length {bytes : List UInt8} {width : Nat} (h : bytes.length = width) :
    ofNat width (toNat bytes) = bytes :=
  h ▸ ofNat_toNat

-- The order in which a computer keeps the bytes of an integer in memory.
inductive ByteOrder where
  | littleEndian
  | bigEndian
  deriving DecidableEq, Repr

namespace ByteOrder

variable {order : ByteOrder} {n : Nat} {val : BitVec (8 * n)} {bytes : List UInt8}

-- From the least significant byte on, or back to it.
def arrange (order : ByteOrder) (bytes : List UInt8) : List UInt8 :=
  match order with
  | littleEndian => bytes
  | bigEndian    => bytes.reverse

-- An integer of `n` bytes as it stands in memory, and what stands there as an integer.
def image (order : ByteOrder) (val : BitVec (8 * n)) : List UInt8 :=
  order.arrange <| Bytes.ofNat n val.toNat

def value (order : ByteOrder) (n : Nat) (bytes : List UInt8) : BitVec (8 * n) :=
  .ofNat _ <| Bytes.toNat <| order.arrange bytes

@[simp]
theorem arrange_arrange : order.arrange (order.arrange bytes) = bytes := by
  cases order
  case littleEndian => rfl
  case bigEndian    => exact List.reverse_reverse bytes

@[simp]
theorem length_arrange : (order.arrange bytes).length = bytes.length := by
  cases order
  case littleEndian => rfl
  case bigEndian    => exact List.length_reverse

@[simp]
theorem length_image : (order.image val).length = n := by
  rw [image, length_arrange, Bytes.length_ofNat]

theorem pow_eq (n : Nat) : 2 ^ (8 * n) = 256 ^ n := by
  rw [pow_mul]
  rfl

theorem value_image : order.value n (order.image val) = val := by
  have hlt : val.toNat < 256 ^ n := pow_eq n ▸ val.isLt
  rw [value, image, arrange_arrange, Bytes.toNat_ofNat hlt, BitVec.ofNat_toNat, BitVec.setWidth_eq]

theorem image_value (h : bytes.length = n) : order.image (order.value n bytes) = bytes := by
  have hlen : (order.arrange bytes).length = n := length_arrange.trans h
  have hlt : Bytes.toNat (order.arrange bytes) < 2 ^ (8 * n) := by
    rw [pow_eq, ← hlen]
    exact Bytes.toNat_lt
  rw [image, value, BitVec.toNat_ofNat, Nat.mod_eq_of_lt hlt, Bytes.ofNat_toNat_of_length hlen, arrange_arrange]

end ByteOrder

-- A byte is put below the others.
theorem BitVec.shiftLeft_or_byte {w m : Nat} {byte : UInt8} :
    BitVec.ofNat w m <<< 8 ||| .ofNat w byte.toNat = .ofNat w (byte.toNat + 256 * m) := by
  apply BitVec.eq_of_toNat_eq
  have hor : byte.toNat + 256 * m = m <<< 8 ||| byte.toNat := by
    rw [← Nat.shiftLeft_add_eq_or_of_lt byte.toNat_lt, Nat.shiftLeft_eq]
    omega
  have hshift : (m % 2 ^ w) <<< 8 % 2 ^ w = m <<< 8 % 2 ^ w := by
    rw [Nat.shiftLeft_eq, Nat.shiftLeft_eq, Nat.mod_mul_mod]
  rw [BitVec.toNat_or, BitVec.toNat_shiftLeft, BitVec.toNat_ofNat, BitVec.toNat_ofNat, BitVec.toNat_ofNat,
    hshift, hor, Nat.or_mod_two_pow]

-- An integral type of C++. A signed one is in two's complement.
structure IntegralType where
  size     : Nat
  isSigned : Bool
  deriving DecidableEq, Repr

namespace IntegralType

abbrev Value (T : IntegralType) :=
  BitVec (8 * T.size)

def int : IntegralType where
  size     := 4
  isSigned := true

def uint8 : IntegralType where
  size     := 1
  isSigned := false

variable {T U : IntegralType}

def toInt (val : T.Value) : Int :=
  if T.isSigned then BitVec.toInt val else BitVec.toNat val

-- The value modulo what the other type can hold.
def convert (U : IntegralType) (val : T.Value) : U.Value :=
  if T.isSigned then BitVec.signExtend _ val else BitVec.setWidth _ val

-- The types that are smaller than `int` have all of their values in it.
def promoted (T : IntegralType) : IntegralType :=
  if T.size < int.size then int else T

def promote (val : T.Value) : T.promoted.Value :=
  convert T.promoted val

-- A shift to the right fills up with the sign, if there is one.
def shiftRight (val : T.Value) (k : Nat) : T.Value :=
  if T.isSigned then BitVec.sshiftRight val k else BitVec.ushiftRight val k

def shiftLeft (val : T.Value) (k : Nat) : T.Value :=
  BitVec.shiftLeft val k

-- A value modulo the number of values of its type.
theorem toInt_emod {val : T.Value} : toInt val % 2 ^ (8 * T.size) = val.toNat := by
  have hlt : (val.toNat : Int) < 2 ^ (8 * T.size) := by exact_mod_cast val.isLt
  have hmod : (val.toNat : Int) % 2 ^ (8 * T.size) = val.toNat := Int.emod_eq_of_lt (Int.natCast_nonneg _) hlt
  rw [toInt]
  split
  case isTrue =>
    have hcast : (2 : Int) ^ (8 * T.size) = (2 ^ (8 * T.size) : Nat) := by push_cast; rfl
    rw [BitVec.toInt_eq_toNat_bmod, hcast, Int.bmod_emod, ← hcast, hmod]
  case isFalse => exact hmod

-- Nothing is lost of a byte on its way to another type.
theorem convert_promote_byte {byte : UInt8} :
    convert U (promote (T := uint8) (.ofNat _ byte.toNat)) = .ofNat (8 * U.size) byte.toNat := by
  have hlt : byte.toNat < 2 ^ 32 := byte.toNat_lt.trans (by decide)
  have hwide : BitVec.setWidth 32 (BitVec.ofNat 8 byte.toNat) = .ofNat 32 byte.toNat := by
    apply BitVec.eq_of_toNat_eq
    rw [BitVec.toNat_setWidth, BitVec.toNat_ofNat, BitVec.toNat_ofNat, Nat.mod_eq_of_lt byte.toNat_lt]
  have hmsb : (BitVec.ofNat 32 byte.toNat).msb = false := by
    have hbyte := byte.toNat_lt
    rw [BitVec.msb_eq_false_iff_two_mul_lt, BitVec.toNat_ofNat]
    omega
  change BitVec.signExtend (8 * U.size) (BitVec.setWidth 32 (BitVec.ofNat 8 byte.toNat)) = _
  apply BitVec.eq_of_toNat_eq
  rw [hwide, BitVec.signExtend_eq_setWidth_of_msb_false hmsb, BitVec.toNat_setWidth, BitVec.toNat_ofNat,
    BitVec.toNat_ofNat, Nat.mod_eq_of_lt hlt]

section Bits

variable {val : T.Value} {i k : Nat}

theorem getLsbD_convert (h : i < 8 * T.size) (h' : i < 8 * U.size) :
    (convert U val).getLsbD i = val.getLsbD i := by
  rw [convert]
  split
  case isTrue  => rw [BitVec.getLsbD_signExtend, decide_eq_true h', if_pos h, Bool.true_and]
  case isFalse => rw [BitVec.getLsbD_setWidth, decide_eq_true h', Bool.true_and]

theorem size_le_promoted : T.size ≤ T.promoted.size := by
  rw [promoted]
  split
  case isTrue h => exact h.le
  case isFalse  => exact le_rfl

theorem getLsbD_promote (h : i < 8 * T.size) : (promote val).getLsbD i = val.getLsbD i :=
  getLsbD_convert h <| h.trans_le <| Nat.mul_le_mul_left 8 size_le_promoted

theorem getLsbD_shiftLeft (h : i < 8 * T.size) :
    (shiftLeft val k).getLsbD i = (!decide (i < k) && val.getLsbD (i - k)) := by
  change (val <<< k).getLsbD i = _
  rw [BitVec.getLsbD_shiftLeft, decide_eq_true h, Bool.true_and]

-- The bits that are filled up are not looked at.
theorem getLsbD_shiftRight (h : k + i < 8 * T.size) : (shiftRight val k).getLsbD i = val.getLsbD (k + i) := by
  rw [shiftRight]
  split
  case isTrue =>
    have hi : ¬8 * T.size ≤ i := by omega
    rw [BitVec.getLsbD_sshiftRight, decide_eq_false hi, if_pos h, Bool.not_false, Bool.true_and]
  case isFalse =>
    change (val >>> k).getLsbD i = _
    rw [BitVec.getLsbD_ushiftRight]

end Bits

end IntegralType
