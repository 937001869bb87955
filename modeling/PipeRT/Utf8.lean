import Mathlib

-- Strings as lists of characters, and their encodings in UTF-8.
namespace Utf8

def encode (s : List Char) : List UInt8 :=
  s.flatMap String.utf8EncodeChar

def decode (bytes : List UInt8) : Option (List Char) :=
  bytes.toByteArray.utf8Decode?.map Array.toList

variable {s t : List Char} {bytes : List UInt8}

theorem toByteArray_encode : (encode s).toByteArray = s.utf8Encode :=
  rfl

theorem toByteArray_injective : Function.Injective List.toByteArray := by
  intro _ _ h
  have hdata := congrArg (fun b : ByteArray => b.data.toList) h
  simpa using hdata

theorem decode_encode : decode (encode s) = some s := by
  rw [decode, toByteArray_encode, List.utf8Decode?_utf8Encode]
  rfl

theorem encode_injective : Function.Injective encode :=
  fun _ _ h => Option.some.inj <| decode_encode.symm.trans <| h ▸ decode_encode

-- What is decoded is what has been encoded.
theorem decode_eq_some : decode bytes = some s ↔ encode s = bytes := by
  refine ⟨fun h => ?_, fun h => h ▸ decode_encode⟩
  obtain ⟨chars, hc, rfl⟩ := Option.map_eq_some_iff.mp h
  have hsome : bytes.toByteArray.utf8Decode?.isSome = true := by simp [hc]
  have hbytes := ByteArray.utf8Encode_get_utf8Decode? (h := hsome)
  simp only [hc, Option.get_some] at hbytes
  exact toByteArray_injective hbytes

@[simp]
theorem encode_append : encode (s ++ t) = encode s ++ encode t :=
  List.flatMap_append

@[simp]
theorem encode_nil : encode [] = [] :=
  rfl

-- The encodings among the lists of bytes.
def Valid (bytes : List UInt8) : Prop :=
  ∃ s, encode s = bytes

instance : DecidablePred Valid := fun bytes =>
  decidable_of_iff ((decode bytes).isSome = true) <| by
    simp only [Option.isSome_iff_exists, decode_eq_some, Valid]

theorem decode_eq_none : decode bytes = none ↔ ¬Valid bytes := by
  simp [Option.eq_none_iff_forall_ne_some, decode_eq_some, Valid]

end Utf8
