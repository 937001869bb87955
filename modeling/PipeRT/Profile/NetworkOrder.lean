import PipeRT.ByteOrder
import PipeRT.Profile.Endianness

namespace PipeRT

namespace Endianness

open IntegralType

variable {T : IntegralType} {order : ByteOrder} {val ret : T.Value} {bytes : List UInt8}

-- `(std::uint8_t)(val >> (sizeof(T) * 8 - 8))`.
def highestByte (val : T.Value) : UInt8 :=
  .ofNat <| (convert uint8 <| shiftRight (promote val) (T.size * 8 - 8)).toNat

-- `val <<= 8`.
def shifted (val : T.Value) : T.Value :=
  convert T <| shiftLeft (promote val) 8

-- `ConvertHostToNetworkByteOrder`, as it is for all types that it is not specialized for. The loop
-- writes to the memory of `ret`.
def convertHostToNetworkByteOrder (order : ByteOrder) (val : T.Value) : T.Value :=
  order.value T.size <| write T.size val <| order.image (n := T.size) 0
where
  -- So many bytes are left to be written.
  write : Nat → T.Value → List UInt8 → List UInt8
    | 0,        _,   bytes => bytes
    | left + 1, val, bytes => write left (shifted val) <| bytes.set (T.size - (left + 1)) (highestByte val)

-- `((ret << 8) | bytes[i])`. The byte becomes an `int` first, and then what `ret` is.
def accumulate (ret : T.Value) (byte : UInt8) : T.Value :=
  let byte := promote (T := uint8) (.ofNat _ byte.toNat)
  convert T <| shiftLeft (promote ret) 8 ||| convert T.promoted byte

-- `ConvertNetworkToHostByteOrder`, which reads the memory of `val`.
def convertNetworkToHostByteOrder (order : ByteOrder) (val : T.Value) : T.Value :=
  (order.image val).foldl accumulate 0

theorem highestByte_eq (h : 0 < T.size) :
    highestByte val = .ofNat (BitVec.sshiftRight val (8 * T.size - 8)).toNat := by
  apply UInt8.toNat_inj.mp
  rw [highestByte, UInt8.toNat_ofNat', UInt8.toNat_ofNat']
  apply Nat.eq_of_testBit_eq
  intro i
  rw [Nat.testBit_mod_two_pow, Nat.testBit_mod_two_pow]
  by_cases hi : i < 8
  case neg => simp [hi]
  case pos =>
    have hle := size_le_promoted (T := T)
    have hlt : 8 * T.size - 8 + i < 8 * T.size := by omega
    have hi' : ¬8 * T.size ≤ i := by omega
    have hi₁ : i < 8 * uint8.size := hi
    rw [BitVec.testBit_toNat, BitVec.testBit_toNat, getLsbD_convert (by omega) hi₁, Nat.mul_comm T.size 8,
      getLsbD_shiftRight (by omega), getLsbD_promote hlt, BitVec.getLsbD_sshiftRight, decide_eq_false hi',
      if_pos hlt, Bool.not_false, Bool.true_and]

theorem shifted_eq : shifted val = val <<< 8 := by
  have hle := size_le_promoted (T := T)
  apply BitVec.eq_of_getLsbD_eq
  intro i hi
  rw [shifted, getLsbD_convert (by omega) hi, getLsbD_shiftLeft (by omega), getLsbD_promote (by omega),
    BitVec.getLsbD_shiftLeft, decide_eq_true hi, Bool.true_and]

theorem accumulate_eq {m : Nat} {byte : UInt8} :
    accumulate (T := T) (.ofNat _ m) byte = .ofNat _ (byte.toNat + 256 * m) := by
  have hle := size_le_promoted (T := T)
  rw [← BitVec.shiftLeft_or_byte]
  apply BitVec.eq_of_getLsbD_eq
  intro i hi
  rw [accumulate, convert_promote_byte, getLsbD_convert (by omega) hi, BitVec.getLsbD_or, BitVec.getLsbD_or,
    getLsbD_shiftLeft (by omega), getLsbD_promote (by omega), BitVec.getLsbD_shiftLeft, BitVec.getLsbD_ofNat,
    BitVec.getLsbD_ofNat, BitVec.getLsbD_ofNat]
  simp [hi, hi.trans_le <| Nat.mul_le_mul_left 8 hle]

-- The bytes that are read are taken for digits, the most significant one first.
theorem foldl_accumulate : bytes.foldl (accumulate (T := T)) 0 = .ofNat _ (Bytes.toNat bytes.reverse) := by
  induction bytes using List.reverseRecOn
  case nil => rfl
  case append_singleton bytes byte ih =>
    rw [List.foldl_concat, ih, accumulate_eq, List.reverse_concat, Bytes.toNat_cons]

-- The bytes that are written are those that come out of the top one after the other.
theorem write_eq {left : Nat} (hl : left ≤ T.size) (hb : bytes.length = T.size) :
    convertHostToNetworkByteOrder.write left val bytes =
      bytes.take (T.size - left) ++ PipeRT.convertHostToNetworkByteOrder.bytes left val := by
  induction left generalizing val bytes
  case zero =>
    rw [convertHostToNetworkByteOrder.write, PipeRT.convertHostToNetworkByteOrder.bytes, Nat.sub_zero,
      List.append_nil, ← hb, List.take_length]
  case succ left ih =>
    have hlt : T.size - (left + 1) < bytes.length := by omega
    have hnext : T.size - left = T.size - (left + 1) + 1 := by omega
    rw [convertHostToNetworkByteOrder.write, ih (by omega) (by rwa [List.length_set]), shifted_eq,
      highestByte_eq (by omega), PipeRT.convertHostToNetworkByteOrder.bytes, hnext, List.take_add_one,
      List.getElem?_set_self hlt, List.take_set_of_le le_rfl, List.append_assoc]
    rfl

theorem image_hostToNetwork :
    order.image (convertHostToNetworkByteOrder order val) = (Bytes.ofNat T.size val.toNat).reverse := by
  have hlen : (PipeRT.convertHostToNetworkByteOrder.bytes T.size val).length = T.size := by
    rw [PipeRT.convertHostToNetworkByteOrder.bytes_eq le_rfl, List.length_reverse, Bytes.length_ofNat]
  rw [convertHostToNetworkByteOrder, write_eq le_rfl ByteOrder.length_image, Nat.sub_self, List.take_zero,
    List.nil_append, ByteOrder.image_value hlen]
  exact PipeRT.convertHostToNetworkByteOrder_eq

theorem networkToHost_eq :
    convertNetworkToHostByteOrder order val = .ofNat _ (Bytes.toNat (order.image val).reverse) :=
  foldl_accumulate

theorem networkToHost_hostToNetwork :
    convertNetworkToHostByteOrder order (convertHostToNetworkByteOrder order val) = val := by
  have hlt : val.toNat < 256 ^ T.size := ByteOrder.pow_eq T.size ▸ val.isLt
  rw [networkToHost_eq, image_hostToNetwork, List.reverse_reverse, Bytes.toNat_ofNat hlt, BitVec.ofNat_toNat,
    BitVec.setWidth_eq]

theorem hostToNetwork_networkToHost :
    convertHostToNetworkByteOrder order (convertNetworkToHostByteOrder order val) = val := by
  have hlen : (order.image val).reverse.length = T.size := by
    rw [List.length_reverse, ByteOrder.length_image]
  have hlt : Bytes.toNat (order.image val).reverse < 2 ^ (8 * T.size) :=
    Bytes.toNat_lt.trans_eq <| by rw [hlen, ByteOrder.pow_eq]
  have himage : order.image (convertHostToNetworkByteOrder order (convertNetworkToHostByteOrder order val)) =
      order.image val := by
    rw [image_hostToNetwork, networkToHost_eq, BitVec.toNat_ofNat, Nat.mod_eq_of_lt hlt,
      Bytes.ofNat_toNat_of_length hlen, List.reverse_reverse]
  calc
    _ = order.value T.size (order.image _) := ByteOrder.value_image.symm
    _ = order.value T.size (order.image val) := by rw [himage]
    _ = val := ByteOrder.value_image

end Endianness

-- The two conversions, for all types and all values of them, on either kind of computer.
theorem converts_both_ways {T : IntegralType} {order : ByteOrder} {val : T.Value} :
    order.image (Endianness.convertHostToNetworkByteOrder order val) =
      (Bytes.ofNat T.size (T.toInt val % 2 ^ (8 * T.size)).toNat).reverse ∧
    Endianness.convertNetworkToHostByteOrder order (Endianness.convertHostToNetworkByteOrder order val) = val ∧
    Endianness.convertHostToNetworkByteOrder order (Endianness.convertNetworkToHostByteOrder order val) = val := by
  refine ⟨?_, Endianness.networkToHost_hostToNetwork, Endianness.hostToNetwork_networkToHost⟩
  rw [Endianness.image_hostToNetwork, IntegralType.toInt_emod, Int.toNat_natCast]

-- A `short`.
example :
    ByteOrder.littleEndian.image
      (Endianness.convertHostToNetworkByteOrder (T := ⟨2, true⟩) .littleEndian (-2)) = [0xff, 0xfe] := by
  decide

end PipeRT
