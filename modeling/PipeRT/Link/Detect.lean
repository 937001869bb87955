import PipeRT.Link.Protocol
import PipeRT.Profile.Basic

namespace PipeRT

-- The ways in which the detection of the packet size goes wrong.
inductive DetectFault where
  -- A text does not fit into its array.
  | overrun
  -- `max_packet_size_` gets too large for an `int`.
  | overflow
  deriving DecidableEq, Repr

-- A value of `max_packet_size_` that is tried.
structure PacketSize where
  val : Int
  pos : 0 < val
  le  : val ≤ kMaxInt

def PacketSize.twice (size : PacketSize) (h : size.val * 2 ≤ kMaxInt) : PacketSize where
  val := size.val * 2
  pos := Int.mul_pos size.pos (by decide)
  le  := h

-- `in_addr`.
structure InAddr where
  a : UInt8
  b : UInt8
  c : UInt8
  d : UInt8
  deriving DecidableEq, Repr

namespace UDPConnection

-- What "%d" makes of a number that is not negative.
def decimal (n : Nat) : List Char :=
  Nat.toDigits 10 n

def inetNtoa (address : InAddr) : List Char :=
  decimal address.a.toNat ++ '.' :: decimal address.b.toNat ++ '.' :: decimal address.c.toNat ++
    '.' :: decimal address.d.toNat

-- `strcat`, to an array of `size` characters. One of them is the zero at the end.
def strcat (size : Nat) (dest src : List Char) : Except DetectFault (List Char) :=
  if (dest ++ src).length < size then .ok (dest ++ src) else .error .overrun

-- `snprintf` cuts off what does not fit.
def snprintf (size : Nat) (text : List Char) : List Char :=
  text.take (size - 1)

def cmdPrefix (address : InAddr) : Except DetectFault (List Char) := do
  let cmdPrefix ← strcat 64 "ping ".toList <| inetNtoa address
  strcat 64 cmdPrefix " -c3 -w3 -M do -s ".toList

def cmd (cmdPrefix : List Char) (size : PacketSize) : Except DetectFault (List Char) := do
  let cmdPostfix := snprintf 32 <| decimal size.val.toNat ++ " > /dev/null 2>&1".toList
  let cmd ← strcat 128 [] cmdPrefix
  strcat 128 cmd cmdPostfix

-- The loop, from the moment when the command for `size` is put together.
def probe (system : List Char → Int) (cmdPrefix : List Char) (size : PacketSize) :
    Except DetectFault PacketSize :=
  match cmd cmdPrefix size with
  | .error f => .error f
  | .ok cmd  =>
    if system cmd = 0 then
      if h : size.val * 2 ≤ kMaxInt then
        probe system cmdPrefix (size.twice h)
      else
        .error .overflow
    else
      .ok size
termination_by (kMaxInt - size.val).toNat
decreasing_by
  have := size.pos
  simp only [PacketSize.twice]
  omega

-- `system` runs a command and returns 0 if it succeeds.
def detectMaxPacketSize (system : List Char → Int) (address : InAddr) (connection : UDPConnection) :
    Except DetectFault UDPConnection := do
  let cmdPrefix ← cmdPrefix address
  let size ← probe system cmdPrefix ⟨512, by decide, by decide⟩
  return { connection with maxPacketSize := size.val }

-- The command that asks for packets of a size not to be fragmented.
def pingCommand (address : InAddr) (size : Nat) : List Char :=
  "ping ".toList ++ inetNtoa address ++ " -c3 -w3 -M do -s ".toList ++
    (decimal size ++ " > /dev/null 2>&1".toList)

-- A path that lets packets through up to a size of `limit`.
def Limits (system : List Char → Int) (address : InAddr) (limit : Int) : Prop :=
  ∀ size : PacketSize, system (pingCommand address size.val.toNat) = 0 ↔ size.val ≤ limit

section Texts

variable {address : InAddr} {n : Nat} {size : PacketSize}

theorem length_decimal_byte {byte : UInt8} : (decimal byte.toNat).length ≤ 3 :=
  (Nat.length_toDigits_le_iff (by decide) (by decide)).mpr <| byte.toNat_lt.trans (by decide)

theorem length_inetNtoa : (inetNtoa address).length ≤ 15 := by
  have ha : (decimal address.a.toNat).length ≤ 3 := length_decimal_byte
  have hb : (decimal address.b.toNat).length ≤ 3 := length_decimal_byte
  have hc : (decimal address.c.toNat).length ≤ 3 := length_decimal_byte
  have hd : (decimal address.d.toNat).length ≤ 3 := length_decimal_byte
  simp only [inetNtoa, List.length_append, List.length_cons]
  omega

theorem cmdPrefix_eq : cmdPrefix address =
    .ok ("ping ".toList ++ inetNtoa address ++ " -c3 -w3 -M do -s ".toList) := by
  have hlen : (inetNtoa address).length ≤ 15 := length_inetNtoa
  have hping : "ping ".toList.length = 5 := rfl
  have hoptions : " -c3 -w3 -M do -s ".toList.length = 18 := rfl
  rw [cmdPrefix, strcat, if_pos (by rw [List.length_append, hping]; omega), ok_bind, strcat, if_pos]
  rw [List.length_append, List.length_append, hping, hoptions]
  omega

theorem length_decimal_size : (decimal size.val.toNat).length ≤ 10 := by
  refine (Nat.length_toDigits_le_iff (by decide) (by decide)).mpr ?_
  have hle := size.le
  simp only [kMaxInt] at hle
  omega

-- The arrays are large enough for all of the texts.
theorem cmd_eq : cmd ("ping ".toList ++ inetNtoa address ++ " -c3 -w3 -M do -s ".toList) size =
    .ok (pingCommand address size.val.toNat) := by
  have haddress : (inetNtoa address).length ≤ 15 := length_inetNtoa
  have hsize : (decimal size.val.toNat).length ≤ 10 := length_decimal_size
  have hping : "ping ".toList.length = 5 := rfl
  have hoptions : " -c3 -w3 -M do -s ".toList.length = 18 := rfl
  have hnull : " > /dev/null 2>&1".toList.length = 17 := rfl
  have hpostfix : snprintf 32 (decimal size.val.toNat ++ " > /dev/null 2>&1".toList) =
      decimal size.val.toNat ++ " > /dev/null 2>&1".toList := by
    refine List.take_of_length_le ?_
    rw [List.length_append, hnull]
    omega
  have hprefix : ("ping ".toList ++ inetNtoa address ++ " -c3 -w3 -M do -s ".toList).length < 128 := by
    simp only [List.length_append, hping, hoptions]
    omega
  have hfits : ("ping ".toList ++ inetNtoa address ++ " -c3 -w3 -M do -s ".toList ++
      (decimal size.val.toNat ++ " > /dev/null 2>&1".toList)).length < 128 := by
    simp only [List.length_append, hping, hoptions, hnull]
    omega
  rw [cmd, hpostfix, strcat, List.nil_append, if_pos hprefix, ok_bind, strcat, if_pos hfits]
  rfl

end Texts

-- How the loop ends: with a size that does not get through after smaller ones that do, or when the
-- next size is too large for an `int`.
inductive Probed (limit : Int) (size : PacketSize) : Except DetectFault PacketSize → Prop
  | stopped {last : PacketSize} (k : Nat) :
    last.val = size.val * 2 ^ k → limit < last.val → (∀ i < k, size.val * 2 ^ i ≤ limit) →
    Probed limit size (.ok last)
  | overflow (k : Nat) :
    size.val * 2 ^ k ≤ limit → kMaxInt < size.val * 2 ^ (k + 1) → Probed limit size (.error .overflow)

section Loop

variable {system : List Char → Int} {address : InAddr} {limit : Int} {size : PacketSize}
variable {r : Except DetectFault PacketSize}

theorem val_twice_mul_pow {h : size.val * 2 ≤ kMaxInt} {k : Nat} :
    (size.twice h).val * 2 ^ k = size.val * 2 ^ (k + 1) := by
  rw [PacketSize.twice, pow_succ', mul_assoc]

-- One more turn of the loop.
theorem Probed.of_twice {h : size.val * 2 ≤ kMaxInt} (hsize : size.val ≤ limit)
    (hp : Probed limit (size.twice h) r) : Probed limit size r := by
  cases hp
  case stopped last k hlast hlimit hsmaller =>
    refine .stopped (k + 1) (hlast.trans val_twice_mul_pow) hlimit fun i hi => ?_
    cases i
    case zero   => rwa [pow_zero, mul_one]
    case succ i => exact val_twice_mul_pow ▸ hsmaller i (Nat.lt_of_succ_lt_succ hi)
  case overflow k hlimit hmax =>
    exact .overflow (k + 1) (val_twice_mul_pow ▸ hlimit) (val_twice_mul_pow ▸ hmax)

theorem probed (hl : Limits system address limit) : Probed limit size
    (probe system ("ping ".toList ++ inetNtoa address ++ " -c3 -w3 -M do -s ".toList) size) := by
  induction hn : (kMaxInt - size.val).toNat using Nat.strong_induction_on generalizing size
  case h n ih =>
    rw [probe, cmd_eq]
    have hlimit := hl size
    simp only
    split
    case isFalse hs =>
      refine .stopped 0 (by rw [pow_zero, mul_one]) ?_ nofun
      exact Int.lt_of_not_ge fun hle => hs <| hlimit.mpr hle
    case isTrue hs =>
      split
      case isFalse hmax =>
        refine .overflow 0 (by rw [pow_zero, mul_one]; exact hlimit.mp hs) ?_
        rw [zero_add, pow_one]
        exact Int.lt_of_not_ge hmax
      case isTrue hmax =>
        refine .of_twice (hlimit.mp hs) <| ih _ ?_ rfl
        have hpos := size.pos
        simp only [← hn, PacketSize.twice]
        omega

-- What the detection leaves behind, as it is.
theorem detectMaxPacketSize_cases (hl : Limits system address limit) (hlimit : 512 ≤ limit)
    (connection : UDPConnection) :
    (∃ k, detectMaxPacketSize system address connection =
        .ok { connection with maxPacketSize := 512 * 2 ^ (k + 1) } ∧
      512 * 2 ^ k ≤ limit ∧ limit < 512 * 2 ^ (k + 1)) ∨
    (2 ^ 30 ≤ limit ∧ detectMaxPacketSize system address connection = .error .overflow) := by
  have hp : Probed limit ⟨512, by decide, by decide⟩ _ := probed hl
  rw [detectMaxPacketSize, cmdPrefix_eq, ok_bind]
  generalize probe _ _ _ = r at hp ⊢
  cases hp
  case stopped last k hlast hlt hsmaller =>
    cases k
    case zero =>
      simp only [pow_zero, mul_one] at hlast
      omega
    case succ k =>
      rw [ok_bind, hlast]
      exact .inl ⟨k, rfl, hsmaller k (Nat.lt_succ_self k), hlast ▸ hlt⟩
  case overflow k hle hmax =>
    refine .inr ⟨?_, rfl⟩
    have hk : 21 ≤ k := by
      by_contra hk
      have hpow : (2 : Int) ^ (k + 1) ≤ 2 ^ 21 := pow_le_pow_right₀ (by decide) (by omega)
      simp only [kMaxInt] at hmax
      omega
    have hpow : (2 : Int) ^ 21 ≤ 2 ^ k := pow_le_pow_right₀ (by decide) hk
    simp only at hle
    omega

end Loop

-- The largest size among those that are tried is found, and whatever `Send` admits gets through.
structure Detects (system : List Char → Int) (address : InAddr) (limit : Int) (connection : UDPConnection) :
    Prop where
  returns      : limit < 2 ^ 30 → detectMaxPacketSize system address connection ≠ .error .overflow
  largest      : ∃ connection', detectMaxPacketSize system address connection = .ok connection' ∧
                 ∃ k, connection'.maxPacketSize = 512 * 2 ^ k ∧ 512 * 2 ^ k ≤ limit ∧
                   limit < 512 * 2 ^ (k + 1)
  unfragmented : ∀ connection', detectMaxPacketSize system address connection = .ok connection' →
                 ∀ size, connection'.Admits size → (size : Int) ≤ limit

end UDPConnection

open UDPConnection

-- The size that is left is the first one that fails to get through. `Send` admits it.
theorem never_detects {system : List Char → Int} {address : InAddr} {limit : Int}
    (hlimit : 512 ≤ limit) (hl : Limits system address limit) (connection : UDPConnection) :
    ¬Detects system address limit connection ∧
    (limit < 2 ^ 30 → ∃ connection' size, detectMaxPacketSize system address connection = .ok connection' ∧
      connection'.Admits size ∧ limit < size) := by
  obtain ⟨k, hdetect, hle, hlt⟩ | ⟨hlarge, herror⟩ := detectMaxPacketSize_cases hl hlimit connection
  case inl =>
    have hpos : 0 < 512 * 2 ^ (k + 1) := Nat.mul_pos (by decide) (Nat.two_pow_pos _)
    refine ⟨fun hd => ?_, fun _ => ⟨_, 512 * 2 ^ (k + 1), hdetect, ⟨hpos, ?_⟩, ?_⟩⟩
    case refine_1 =>
      have hsize := hd.unfragmented _ hdetect (512 * 2 ^ (k + 1)) ⟨hpos, by push_cast; exact le_rfl⟩
      push_cast at hsize
      omega
    case refine_2 =>
      push_cast
      exact le_rfl
    case refine_3 =>
      push_cast
      exact hlt
  case inr =>
    refine ⟨fun hd => ?_, fun hsmall => absurd hlarge hsmall.not_ge⟩
    obtain ⟨_, hdetect, _⟩ := hd.largest
    exact nomatch herror.symm.trans hdetect

-- `ping`, on a path to 10.0.0.1 that lets packets through up to a size of `limit`.
def pingTo10001 (limit : Int) (cmd : List Char) : Int :=
  let size := Nat.ofDigitChars 10 ((cmd.drop 31).takeWhile Char.isDigit) 0
  if (size : Int) ≤ limit then 0 else 256

theorem limits_pingTo10001 {limit : Int} : Limits (pingTo10001 limit) ⟨10, 0, 0, 1⟩ limit := by
  intro size
  have hdigits : ∀ c ∈ decimal size.val.toNat, c.isDigit = true :=
    fun c hc => Nat.isDigit_of_mem_toDigits (by decide) (by decide) hc
  have hdrop : (pingCommand ⟨10, 0, 0, 1⟩ size.val.toNat).drop 31 =
      decimal size.val.toNat ++ " > /dev/null 2>&1".toList :=
    rfl
  have hsize : Nat.ofDigitChars 10 (decimal size.val.toNat) 0 = size.val.toNat := Nat.ofDigitChars_ten_toDigits
  have hcast : (size.val.toNat : Int) = size.val := Int.toNat_of_nonneg size.pos.le
  have hspace : " > /dev/null 2>&1".toList.takeWhile Char.isDigit = [] := rfl
  rw [pingTo10001, hdrop, List.takeWhile_append_of_pos hdigits, hspace, List.append_nil, hsize, hcast]
  split
  case isTrue h  => exact iff_of_true rfl h
  case isFalse h => exact iff_of_false (by decide) h

def defaultConnection : UDPConnection where
  socketFiledesc := 3
  maxPacketSize  := 508
  remoteAddress  := some .receiver
  nonblock       := false

-- What gets through an Ethernet.
theorem never_detects_ethernet :
    ¬Detects (pingTo10001 1472) ⟨10, 0, 0, 1⟩ 1472 defaultConnection ∧
    ∃ connection' size,
      detectMaxPacketSize (pingTo10001 1472) ⟨10, 0, 0, 1⟩ defaultConnection = .ok connection' ∧
      connection'.Admits size ∧ 1472 < size := by
  have hlimits : Limits (pingTo10001 1472) ⟨10, 0, 0, 1⟩ 1472 := limits_pingTo10001
  obtain ⟨hnever, hsize⟩ := never_detects (by decide) hlimits defaultConnection
  obtain ⟨connection', size, hdetect, hadmits, hlt⟩ := hsize (by decide)
  exact ⟨hnever, connection', size, hdetect, hadmits, by omega⟩

-- It should be 1024 there.
theorem detects_2048 :
    detectMaxPacketSize (pingTo10001 1472) ⟨10, 0, 0, 1⟩ defaultConnection =
      .ok { defaultConnection with maxPacketSize := 2048 } ∧
    ¬Detects (pingTo10001 1472) ⟨10, 0, 0, 1⟩ 1472 defaultConnection := by
  have hdetect : detectMaxPacketSize (pingTo10001 1472) ⟨10, 0, 0, 1⟩ defaultConnection =
      .ok { defaultConnection with maxPacketSize := 2048 } := by
    have hlimits : Limits (pingTo10001 1472) ⟨10, 0, 0, 1⟩ 1472 := limits_pingTo10001
    obtain ⟨k, hdetect, hle, hlt⟩ | ⟨hlarge, _⟩ :=
      detectMaxPacketSize_cases hlimits (by decide) defaultConnection
    case inr => exact absurd hlarge (by decide)
    case inl =>
      rw [hdetect]
      have hk : k = 1 := by
        have hpow : 1 < k → (2 : Int) ^ 2 ≤ 2 ^ k := pow_le_pow_right₀ (by decide)
        by_contra hne
        cases k
        case zero   => exact absurd hlt (by decide)
        case succ k => omega
      rw [hk]
      rfl
  refine ⟨hdetect, fun hd => ?_⟩
  have hsize := hd.unfragmented _ hdetect 2048 ⟨by decide, le_rfl⟩
  omega

end PipeRT
