import PipeRT.Basic
import PipeRT.Bytes
import PipeRT.Utf8

namespace PipeRT

-- The exceptions that the log analyzer can run into.
inductive PyError where
  | valueError
  -- A kind of `ValueError`.
  | unicodeDecodeError
  | indexError
  | keyError
  | typeError
  deriving DecidableEq, Repr

def PyError.isValueError : PyError → Bool
  | .valueError | .unicodeDecodeError   => true
  | .indexError | .keyError | .typeError => false

-- A `str`.
abbrev Str :=
  List Char

-- The numbers of an event are of type `V`.
structure Event (V : Type) where
  eventType  : Str
  logCount   : Nat
  passedTime : Nat
  minVal     : V
  maxVal     : V
  avgVal     : V
  deriving DecidableEq

structure Packet (V : Type) where
  receiver : Str
  sender   : Str
  events   : List (Event V)
  deriving DecidableEq

namespace Event

variable {V : Type}

-- The tag that the type stands behind is cut off.
def getType (event : Event V) : Str :=
  event.eventType.drop 4

end Event

namespace Packet

variable {V : Type}

def getSender (packet : Packet V) : Str :=
  packet.sender.drop 4

def getEventCount (packet : Packet V) (eventType : Str) : Nat :=
  match packet.events.find? fun event => event.getType == eventType with
  | some event => event.logCount
  | none       => 0

end Packet

-- A position in the packet is given by what is left of it from there.
namespace PacketDecoder

-- "DGRP".
def groupWord : Str :=
  ['D', 'G', 'R', 'P']

def decodeUtf8 (bytes : List UInt8) : Except PyError Str :=
  match Utf8.decode bytes with
  | some s => .ok s
  | none   => .error .unicodeDecodeError

def checkForCorrectPacket (beginning : List UInt8) : Except PyError Bool := do
  let actual ← decodeUtf8 beginning
  return actual == groupWord

def getKeyword (rest : List UInt8) : Except PyError (Str × List UInt8) :=
  scan [] rest
where
  scan (keyword : List UInt8) : List UInt8 → Except PyError (Str × List UInt8)
    | []        => .error .indexError
    | b :: rest =>
      if b = 0 then do
        let s ← decodeUtf8 keyword
        return (s, rest)
      else
        scan (keyword ++ [b]) rest

-- The loops of `__get_int_val` and `__get_float_val`.
def getBytes : Nat → List UInt8 → Except PyError (List UInt8 × List UInt8)
  | 0,     rest      => .ok ([], rest)
  | _ + 1, []        => .error .indexError
  | n + 1, b :: rest => do
    let (ret, rest) ← getBytes n rest
    return (b :: ret, rest)

def getIntVal (rest : List UInt8) : Except PyError (Nat × List UInt8) := do
  let (ret, rest) ← getBytes 4 rest
  return (Bytes.toNat ret.reverse, rest)

-- `struct.unpack`, on a computer that may have its bytes in either order.
def unpack (little : Bool) (ret : List UInt8) : BitVec 64 :=
  .ofNat 64 <| Bytes.toNat <| if little then ret else ret.reverse

def getFloatVal (little : Bool) (rest : List UInt8) : Except PyError (BitVec 64 × List UInt8) := do
  let (ret, rest) ← getBytes 8 rest
  return (unpack little <| if little then ret.reverse else ret, rest)

def getEvent (little : Bool) (rest : List UInt8) : Except PyError (Event (BitVec 64) × List UInt8) := do
  let (eventType, rest) ← getKeyword rest
  let (logCount, rest) ← getIntVal rest
  let (passedTime, rest) ← getIntVal rest
  let (minVal, rest) ← getFloatVal little rest
  let (maxVal, rest) ← getFloatVal little rest
  let (avgVal, rest) ← getFloatVal little rest
  return ({ eventType, logCount, passedTime, minVal, maxVal, avgVal }, rest)

section Specification

variable {kw rest bytes : List UInt8} {little : Bool} {n : Nat}

theorem decodeUtf8_eq_ok {s : Str} : decodeUtf8 bytes = .ok s ↔ Utf8.encode s = bytes := by
  rw [decodeUtf8, ← Utf8.decode_eq_some]
  cases Utf8.decode bytes <;> simp

theorem decodeUtf8_eq_error (h : ¬Utf8.Valid bytes) :
    decodeUtf8 bytes = .error .unicodeDecodeError := by
  rw [decodeUtf8, Utf8.decode_eq_none.mpr h]

theorem getKeyword.scan_eq {keyword : List UInt8} (h : 0 ∉ kw) :
    scan keyword (kw ++ 0 :: rest) = do
      let s ← decodeUtf8 (keyword ++ kw)
      return (s, rest) := by
  induction kw generalizing keyword
  case nil => simp [scan]
  case cons b kw ih =>
    rw [List.mem_cons, not_or] at h
    rw [List.cons_append, scan, if_neg (Ne.symm h.1), ih h.2, List.append_assoc]
    rfl

theorem getKeyword_eq (h : 0 ∉ kw) :
    getKeyword (kw ++ 0 :: rest) = do
      let s ← decodeUtf8 kw
      return (s, rest) :=
  getKeyword.scan_eq h

-- A name that does not end.
theorem getKeyword_eq_error (h : 0 ∉ rest) : getKeyword rest = .error .indexError := by
  suffices hscan : ∀ keyword, getKeyword.scan keyword rest = .error .indexError from hscan []
  induction rest
  case nil => exact fun _ => rfl
  case cons b rest ih =>
    rw [List.mem_cons, not_or] at h
    intro keyword
    rw [getKeyword.scan, if_neg (Ne.symm h.1), ih h.2]

theorem getBytes_eq (h : n ≤ rest.length) : getBytes n rest = .ok (rest.take n, rest.drop n) := by
  induction n generalizing rest
  case zero => rfl
  case succ n ih =>
    cases rest
    case nil => contradiction
    case cons b rest =>
      rw [getBytes, ih (Nat.le_of_succ_le_succ h)]
      rfl

theorem getBytes_eq_error (h : rest.length < n) : getBytes n rest = .error .indexError := by
  induction n generalizing rest
  case zero => contradiction
  case succ n ih =>
    cases rest
    case nil => rfl
    case cons b rest =>
      rw [getBytes, ih (Nat.lt_of_succ_lt_succ h)]
      rfl

-- The order of the bytes of the computer makes no difference.
theorem unpack_eq : (unpack little <| if little then bytes.reverse else bytes) =
    .ofNat 64 (Bytes.toNat bytes.reverse) := by
  cases little <;> rfl

end Specification

-- The event that 32 bytes stand for.
def eventOf (eventType : Str) (fields : List UInt8) : Event (BitVec 64) where
  eventType
  logCount   := Bytes.toNat (Bytes.read fields 0 4).reverse
  passedTime := Bytes.toNat (Bytes.read fields 4 4).reverse
  minVal     := .ofNat 64 (Bytes.toNat (Bytes.read fields 8 8).reverse)
  maxVal     := .ofNat 64 (Bytes.toNat (Bytes.read fields 16 8).reverse)
  avgVal     := .ofNat 64 (Bytes.toNat (Bytes.read fields 24 8).reverse)

section Specification

variable {kw rest bytes : List UInt8} {little : Bool} {n : Nat}

theorem getIntVal_eq : getIntVal rest =
    if 4 ≤ rest.length then .ok (Bytes.toNat (rest.take 4).reverse, rest.drop 4)
    else .error .indexError := by
  rw [getIntVal]
  by_cases h : 4 ≤ rest.length
  case pos =>
    rw [getBytes_eq h, if_pos h]
    rfl
  case neg =>
    rw [getBytes_eq_error (Nat.lt_of_not_le h), if_neg h]
    rfl

theorem getFloatVal_eq : getFloatVal little rest =
    if 8 ≤ rest.length then .ok (.ofNat 64 (Bytes.toNat (rest.take 8).reverse), rest.drop 8)
    else .error .indexError := by
  rw [getFloatVal]
  by_cases h : 8 ≤ rest.length
  case pos =>
    rw [getBytes_eq h, if_pos h]
    exact congrArg (fun v => Except.ok (v, rest.drop 8)) unpack_eq
  case neg =>
    rw [getBytes_eq_error (Nat.lt_of_not_le h), if_neg h]
    rfl

theorem read_take {offset size : Nat} (h : offset + size ≤ n) :
    Bytes.read (rest.take n) offset size = Bytes.read rest offset size := by
  rw [Bytes.read, Bytes.read, List.drop_take, List.take_take, min_eq_left (by omega)]

theorem eventOf_take {s : Str} : eventOf s (rest.take 32) = eventOf s rest := by
  simp (disch := omega) only [eventOf, read_take]

theorem getEvent_eq (h : 0 ∉ kw) :
    getEvent little (kw ++ 0 :: rest) = decodeUtf8 kw >>= fun s =>
      if 32 ≤ rest.length then .ok (eventOf s rest, rest.drop 32) else .error .indexError := by
  rw [getEvent, getKeyword_eq h]
  cases decodeUtf8 kw
  case error => rfl
  case ok s =>
    simp only [ok_bind, pure_eq_ok, getIntVal_eq, getFloatVal_eq]
    by_cases hlen : 32 ≤ rest.length
    case pos =>
      simp (disch := omega) only [if_pos, ok_bind, List.length_drop, List.drop_drop]
      rfl
    case neg =>
      -- The bytes end in one of the numbers.
      obtain h | h | h | h | h : rest.length < 4 ∨ (4 ≤ rest.length ∧ rest.length < 8) ∨
          (8 ≤ rest.length ∧ rest.length < 16) ∨ (16 ≤ rest.length ∧ rest.length < 24) ∨
          (24 ≤ rest.length ∧ rest.length < 32) := by omega
      all_goals
        simp (disch := omega) only [if_pos, if_neg, ok_bind, List.length_drop, List.drop_drop]
        rfl

theorem getEvent_eq_error (h : 0 ∉ rest) : getEvent little rest = .error .indexError := by
  rw [getEvent, getKeyword_eq_error h]
  rfl

-- What is taken for an event.
theorem of_getEvent {event : Event (BitVec 64)} {bytes rest : List UInt8}
    (h : getEvent little bytes = .ok (event, rest)) :
    ∃ kw fields s, bytes = kw ++ 0 :: (fields ++ rest) ∧ 0 ∉ kw ∧ fields.length = 32 ∧
      Utf8.encode s = kw ∧ event = eventOf s fields := by
  by_cases hz : 0 ∈ bytes
  case neg =>
    rw [getEvent_eq_error hz] at h
    contradiction
  case pos =>
    obtain ⟨kw, tail, rfl, hkw⟩ := List.eq_append_cons_of_mem hz
    rw [getEvent_eq hkw] at h
    obtain ⟨s, hs, h⟩ := bind_eq_ok.mp h
    split at h
    case isFalse => contradiction
    case isTrue hlen =>
      obtain ⟨rfl, rfl⟩ := Prod.mk.inj <| Except.ok.inj h
      refine ⟨kw, tail.take 32, s, by rw [List.take_append_drop], hkw, ?_, decodeUtf8_eq_ok.mp hs,
        eventOf_take.symm⟩
      rw [List.length_take]
      omega

end Specification

-- The loop of `decode_packet`, in which every event takes away from what is left.
def getEvents (little : Bool) (rest : List UInt8) : Except PyError (List (Event (BitVec 64))) :=
  if rest = [] then
    .ok []
  else
    match _h : getEvent little rest with
    | .error e          => .error e
    | .ok (event, rest) => do
      let events ← getEvents little rest
      return event :: events
termination_by rest.length
decreasing_by
  obtain ⟨kw, fields, s, hrest, _⟩ := of_getEvent _h
  rw [hrest, List.length_append, List.length_cons, List.length_append]
  omega

def decodePacket (little : Bool) (packet : List UInt8) : Except PyError (Packet (BitVec 64)) := do
  let correct ← checkForCorrectPacket (packet.take 4)
  if correct then
    let (receiver, rest) ← getKeyword (packet.drop 4)
    let (sender, rest) ← getKeyword rest
    let correctPacket ← checkForCorrectPacket (rest.take 4)
    let events ← (if correctPacket then .ok [] else getEvents little rest)
    return { receiver, sender, events }
  else
    .error .valueError

-- What the loop takes for events.
inductive Events : List UInt8 → List (Event (BitVec 64)) → Prop
  | nil : Events [] []
  | cons {kw fields rest s events} : 0 ∉ kw → Utf8.encode s = kw → fields.length = 32 →
    Events rest events → Events (kw ++ 0 :: (fields ++ rest)) (eventOf s fields :: events)

-- What the loop fails on because of a type that is not encoded in UTF-8.
inductive Garbled : List UInt8 → Prop
  | here {kw rest} : 0 ∉ kw → ¬Utf8.Valid kw → Garbled (kw ++ 0 :: rest)
  | later {kw fields rest} : 0 ∉ kw → Utf8.Valid kw → fields.length = 32 → Garbled rest →
    Garbled (kw ++ 0 :: (fields ++ rest))

section Specification

variable {kw fields rest bytes : List UInt8} {little : Bool} {s : Str}
variable {events : List (Event (BitVec 64))}

theorem getEvents_nil : getEvents little [] = .ok [] := by
  rw [getEvents, if_pos rfl]

theorem getEvents_eq_error {e : PyError} (hne : rest ≠ []) (h : getEvent little rest = .error e) :
    getEvents little rest = .error e := by
  rw [getEvents, if_neg hne]
  split
  case h_1 he => exact congrArg _ <| Except.error.inj <| he.symm.trans h
  case h_2 he => simp [he] at h

theorem getEvents_cons (h : 0 ∉ kw) (hs : Utf8.encode s = kw) (hf : fields.length = 32) :
    getEvents little (kw ++ 0 :: (fields ++ rest)) = do
      let events ← getEvents little rest
      return eventOf s fields :: events := by
  have hlen : 32 ≤ (fields ++ rest).length := by
    rw [List.length_append]
    omega
  have hevent : getEvent little (kw ++ 0 :: (fields ++ rest)) = .ok (eventOf s fields, rest) := by
    rw [getEvent_eq h, decodeUtf8_eq_ok.mpr hs, ok_bind, if_pos hlen, ← eventOf_take,
      List.take_left' hf, List.drop_left' hf]
  rw [getEvents, if_neg (by simp)]
  split
  case h_1 he => simp [hevent] at he
  case h_2 he =>
    obtain ⟨rfl, rfl⟩ := Prod.mk.inj <| Except.ok.inj <| he.symm.trans hevent
    rfl

theorem getEvents_of_events (h : Events rest events) : getEvents little rest = .ok events := by
  induction h
  case nil => exact getEvents_nil
  case cons hz hs hf _ ih => rw [getEvents_cons hz hs hf, ih]; rfl

theorem getEvents_of_garbled (h : Garbled rest) :
    getEvents little rest = .error .unicodeDecodeError := by
  induction h
  case here hz hv =>
    refine getEvents_eq_error (by simp) ?_
    rw [getEvent_eq hz, decodeUtf8_eq_error hv]
    rfl
  case later hz hv hf _ ih =>
    obtain ⟨s, hs⟩ := hv
    rw [getEvents_cons hz hs hf, ih]
    rfl

-- The loop comes to its end, fails because of a type, or runs out of bytes.
theorem getEvents_cases (little : Bool) (rest : List UInt8) :
    (∃ events, Events rest events ∧ getEvents little rest = .ok events) ∨
    (Garbled rest ∧ getEvents little rest = .error .unicodeDecodeError) ∨
    getEvents little rest = .error .indexError := by
  induction hn : rest.length using Nat.strong_induction_on generalizing rest
  case h n ih =>
    by_cases hnil : rest = []
    case pos => exact .inl ⟨[], hnil ▸ .nil, hnil ▸ getEvents_nil⟩
    by_cases hz : 0 ∈ rest
    case neg => exact .inr <| .inr <| getEvents_eq_error hnil <| getEvent_eq_error hz
    case pos =>
      obtain ⟨kw, tail, rfl, hkw⟩ := List.eq_append_cons_of_mem hz
      by_cases hv : Utf8.Valid kw
      case neg => exact .inr <| .inl ⟨.here hkw hv, getEvents_of_garbled <| .here hkw hv⟩
      case pos =>
        obtain ⟨s, hs⟩ := id hv
        by_cases hlen : 32 ≤ tail.length
        case neg =>
          refine .inr <| .inr <| getEvents_eq_error hnil ?_
          rw [getEvent_eq hkw, decodeUtf8_eq_ok.mpr hs, ok_bind, if_neg hlen]
        case pos =>
          have hf : (tail.take 32).length = 32 := by
            rw [List.length_take]
            omega
          have hsplit : kw ++ 0 :: tail = kw ++ 0 :: (tail.take 32 ++ tail.drop 32) := by
            rw [List.take_append_drop]
          have hlt : (tail.drop 32).length < n := by
            rw [← hn, List.length_drop, List.length_append, List.length_cons]
            omega
          rw [hsplit, getEvents_cons hkw hs hf]
          obtain ⟨events, hev, he⟩ | ⟨hg, he⟩ | he := ih _ hlt (tail.drop 32) rfl
          all_goals rw [he]
          · exact .inl ⟨_, .cons hkw hs hf hev, rfl⟩
          · exact .inr <| .inl ⟨.later hkw hv hf hg, rfl⟩
          · exact .inr <| .inr rfl

end Specification

end PacketDecoder
end PipeRT
