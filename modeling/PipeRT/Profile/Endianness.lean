import PipeRT.ByteOrder

namespace PipeRT

-- `ConvertHostToNetworkByteOrder`, for integers of `n` bytes: the bytes of the result as they stand in
-- memory. The shift to the right keeps the sign of a signed integer, but the cast only takes its
-- lowest byte.
def convertHostToNetworkByteOrder {n : Nat} (val : BitVec (8 * n)) : List UInt8 :=
  bytes n val
where
  bytes : Nat → BitVec (8 * n) → List UInt8
    | 0,     _   => []
    | i + 1, val => UInt8.ofNat (val.sshiftRight (8 * n - 8)).toNat :: bytes i (val <<< 8)

namespace convertHostToNetworkByteOrder

variable {n : Nat} {val : BitVec (8 * n)}

-- The byte that is taken is the highest one, whether the shift keeps the sign or not.
theorem highest_byte (hn : 0 < n) :
    UInt8.ofNat (val.sshiftRight (8 * n - 8)).toNat = UInt8.ofNat (val.toNat / 256 ^ (n - 1)) := by
  have hpow : 256 ^ (n - 1) = 2 ^ (8 * n - 8) := by
    rw [← ByteOrder.pow_eq]
    congr 1
    omega
  apply UInt8.toNat_inj.mp
  rw [UInt8.toNat_ofNat', UInt8.toNat_ofNat', hpow, ← Nat.shiftRight_eq_div_pow]
  apply Nat.eq_of_testBit_eq
  intro i
  rw [Nat.testBit_mod_two_pow, Nat.testBit_mod_two_pow, Nat.testBit_shiftRight]
  by_cases hi : i < 8
  case neg => simp [hi]
  case pos =>
    have hlt : 8 * n - 8 + i < 8 * n := by omega
    have hin : ¬8 * n ≤ i := by omega
    rw [BitVec.testBit_toNat, BitVec.getLsbD_sshiftRight, BitVec.testBit_toNat]
    simp [hi, hlt, hin]

theorem bytes_eq {i : Nat} (hi : i ≤ n) :
    bytes i val = (Bytes.ofNat i (val.toNat / 256 ^ (n - i))).reverse := by
  induction i generalizing val
  case zero => rfl
  case succ i ih =>
    have hhead : val.toNat / 256 ^ (n - (i + 1)) / 256 ^ i = val.toNat / 256 ^ (n - 1) := by
      rw [Nat.div_div_eq_div_mul, ← pow_add]
      congr 2
      omega
    have htail : (val <<< 8).toNat / 256 ^ (n - i) = val.toNat / 256 ^ (n - (i + 1)) % 256 ^ i := by
      have hn : 256 ^ n = 256 ^ (n - i) * 256 ^ i := by
        rw [← pow_add]
        congr 1
        omega
      have hi' : 256 ^ (n - i) = 256 ^ (n - (i + 1)) * 256 := by
        rw [← pow_succ]
        congr 1
        omega
      rw [BitVec.toNat_shiftLeft, Nat.shiftLeft_eq, ByteOrder.pow_eq, hn, Nat.mod_mul_right_div_self, hi',
        Nat.mul_div_mul_right _ _ (by decide)]
    rw [bytes, highest_byte (by omega), ih (by omega), htail, Bytes.ofNat_mod,
      Bytes.ofNat_succ_eq_concat, List.reverse_append, hhead]
    rfl

end convertHostToNetworkByteOrder

-- The most significant byte stands first.
theorem convertHostToNetworkByteOrder_eq {n : Nat} {val : BitVec (8 * n)} :
    convertHostToNetworkByteOrder val = (Bytes.ofNat n val.toNat).reverse := by
  rw [convertHostToNetworkByteOrder, convertHostToNetworkByteOrder.bytes_eq le_rfl, Nat.sub_self,
    pow_zero, Nat.div_one]

end PipeRT
