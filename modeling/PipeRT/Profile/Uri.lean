import PipeRT.CText
import PipeRT.Link.Detect

namespace PipeRT

open CText

-- The ways in which the use of a `Profiler` goes wrong.
inductive ProfilerFault where
  | assertion
  -- The end of `addr` is passed.
  | overrun
  -- `atoi` is called with a number that is too large.
  | undefined
  -- Something is used or destroyed that does not exist any more.
  | dangling
  deriving DecidableEq, Repr

namespace ProfilerFault

def demand (p : Prop) [Decidable p] : Except ProfilerFault Unit :=
  if p then .ok () else .error .assertion

theorem demand_of {p : Prop} [Decidable p] (h : p) : demand p = .ok () :=
  if_pos h

theorem of_demand {p : Prop} [Decidable p] {u : Unit} (h : demand p = .ok u) : p := by
  by_contra hp
  simp [demand, hp] at h

theorem eq_assertion {p : Prop} [Decidable p] {fault : ProfilerFault} (h : demand p = .error fault) :
    fault = .assertion := by
  rw [demand] at h
  split at h
  case isTrue  => contradiction
  case isFalse => exact (Except.error.inj h).symm

end ProfilerFault

-- Where a profiler sends its data to.
inductive Target where
  | none
  | udp (address : List Char) (port : Int)
  | file (filename : List Char)
  deriving DecidableEq, Repr

namespace Profiler

open ProfilerFault

-- "udp:".
def kDestinationUDPScheme : List Char :=
  ['u', 'd', 'p', ':']

-- "file:".
def kDestinationFileScheme : List Char :=
  ['f', 'i', 'l', 'e', ':']

-- What becomes of the array `addr`, with what was in it before.
def addrOf (memory address : List Char) (separator : Nat) : Except ProfilerFault (List Char) := do
  let addr ← strncpy .overrun memory address separator
  let addr ← setChar .overrun addr separator nul
  setChar .overrun addr 15 nul

-- The first branch of the constructor, up to the `UDPConnection`.
def udpTarget (memory address : List Char) : Except ProfilerFault Target := do
  demand (0 < address.length)
  match strstr [':'] address with
  | none           => .error .assertion
  | some separator =>
    demand (0 < separator)
    let port := address.drop (separator + 1)
    demand (0 < port.length)
    let portNum ← atoi .undefined port
    demand (portNum ≠ 0)
    demand (0 < separator ∧ separator < 16)
    let addr ← addrOf memory address separator
    let text ← textOf .overrun addr
    demand (text.length < 16)
    return .udp text portNum

def destinationOf (memory destinationUri : List Char) : Except ProfilerFault Target :=
  if strstr kDestinationUDPScheme destinationUri = some 0 then
    udpTarget memory <| destinationUri.drop kDestinationUDPScheme.length
  else if strstr kDestinationFileScheme destinationUri = some 0 then do
    let filename := destinationUri.drop kDestinationFileScheme.length
    demand (0 < filename.length)
    return .file filename
  else
    return .none

-- What a URI says. The address has room for 15 characters.
inductive Means : List Char → Target → Prop
  | udp {address port portNum} : ':' ∉ address → address ≠ [] → address.length < 16 → port ≠ [] →
    number port = portNum → portNum ≠ 0 → -2 ^ 31 ≤ portNum → portNum < 2 ^ 31 →
    Means (kDestinationUDPScheme ++ address ++ ':' :: port) (.udp address portNum)
  | file {filename} : filename ≠ [] → Means (kDestinationFileScheme ++ filename) (.file filename)
  | none {uri} : ¬kDestinationUDPScheme <+: uri → ¬kDestinationFileScheme <+: uri → Means uri .none

variable {memory address port uri : List Char} {target : Target} {fault : ProfilerFault}

-- The array has room for the address and for the zero behind it.
theorem addrOf_eq (port : List Char) (hm : memory.length = 16) (hl : address.length < 16) :
    ∃ rest, addrOf memory (address ++ port) address.length = .ok (address ++ nul :: rest) := by
  have hcopy : strncpy ProfilerFault.overrun memory (address ++ port) address.length =
      .ok (address ++ memory.drop address.length) := by
    rw [strncpy, if_pos (by omega), List.take_left, List.length_append]
    simp
  obtain ⟨c, rest, hrest⟩ := List.exists_cons_of_length_pos (l := memory.drop address.length) <| by
    rw [List.length_drop]
    omega
  have hlength : address.length + (rest.length + 1) = 16 := by
    rw [← List.length_cons (a := c), ← hrest, List.length_drop]
    omega
  have hset : setChar ProfilerFault.overrun (address ++ c :: rest) address.length nul =
      .ok (address ++ nul :: rest) := by
    rw [setChar, if_pos (by simp), List.set_append_right _ _ le_rfl, Nat.sub_self, List.set_cons_zero]
  have hlast : setChar ProfilerFault.overrun (address ++ nul :: rest) 15 nul =
      .ok ((address ++ nul :: rest).set 15 nul) := if_pos <| by
    rw [List.length_append, List.length_cons]
    omega
  rw [addrOf, hcopy, hrest]
  simp only [ok_bind, hset, hlast]
  rw [List.set_append_right _ _ (by omega)]
  cases h : 15 - address.length
  case zero   => exact ⟨rest, by rw [List.set_cons_zero]⟩
  case succ n => exact ⟨rest.set n nul, by rw [List.set_cons_succ]⟩

-- What the first branch does, for every text behind the scheme.
theorem udpTarget_eq (hm : memory.length = 16) (ha : ':' ∉ address) (hn : nul ∉ address) :
    udpTarget memory (address ++ ':' :: port) = (do
      demand (0 < address.length)
      demand (0 < port.length)
      let portNum ← atoi .undefined port
      demand (portNum ≠ 0)
      demand (0 < address.length ∧ address.length < 16)
      return .udp address portNum) := by
  have hsep : strstr [':'] (address ++ ':' :: port) = some address.length :=
    strstr_singleton_eq_some_iff.mpr ⟨address, port, rfl, ha, rfl⟩
  have hport : (address ++ ':' :: port).drop (address.length + 1) = port := by
    rw [← List.drop_drop, List.drop_left, List.drop_one, List.tail_cons]
  have hpos : demand (0 < (address ++ ':' :: port).length) = .ok () := demand_of (by simp)
  rw [udpTarget, hpos]
  simp only [ok_bind, hsep, hport]
  refine bind_congr fun _ => bind_congr fun _ => bind_congr fun portNum => bind_congr fun _ => ?_
  by_cases hl : 0 < address.length ∧ address.length < 16
  case neg => simp [demand, hl, bind, Except.bind]
  case pos =>
    obtain ⟨rest, haddr⟩ := addrOf_eq (':' :: port) hm hl.2
    simp only [demand_of hl, ok_bind, haddr, textOf_append _ hn, demand_of hl.2, pure_eq_ok]

theorem udpTarget_none (h : ':' ∉ address) : udpTarget memory address = .error .assertion := by
  rw [udpTarget, strstr_singleton_eq_none_iff.mpr h]
  by_cases hl : 0 < address.length
  case pos => rw [demand_of hl, ok_bind]
  case neg => simp [demand, hl, bind, Except.bind]

theorem exists_separator (h : ':' ∈ uri) : ∃ address port, uri = address ++ ':' :: port ∧ ':' ∉ address := by
  cases hs : strstr [':'] uri
  case none => exact absurd h <| strstr_singleton_eq_none_iff.mp hs
  case some =>
    obtain ⟨address, port, huri, ha, _⟩ := strstr_singleton_eq_some_iff.mp hs
    exact ⟨address, port, huri, ha⟩

-- The array is never passed.
theorem udpTarget_error (hm : memory.length = 16) (hn : nul ∉ uri) (h : udpTarget memory uri = .error fault) :
    fault = .assertion ∨ fault = .undefined := by
  by_cases hc : ':' ∈ uri
  case neg => exact .inl <| Except.error.inj <| h.symm.trans <| udpTarget_none hc
  case pos =>
    obtain ⟨address, port, rfl, ha⟩ := exists_separator hc
    rw [udpTarget_eq hm ha fun hmem => hn <| List.mem_append_left _ hmem] at h
    simp only [bind_eq_error] at h
    obtain h | ⟨_, _, h | ⟨_, _, h | ⟨_, _, h | ⟨_, _, h | ⟨_, _, h⟩⟩⟩⟩⟩ := h
    case inr.inr.inl =>
      rw [atoi] at h
      split at h
      case isTrue  => contradiction
      case isFalse => exact .inr (Except.error.inj h).symm
    all_goals first | exact .inl <| eq_assertion h | contradiction

theorem udpTarget_eq_ok_iff (hm : memory.length = 16) (hn : nul ∉ uri) :
    udpTarget memory uri = .ok target ↔ Means (kDestinationUDPScheme ++ uri) target := by
  constructor
  · intro h
    by_cases hc : ':' ∈ uri
    case neg => simp [udpTarget_none hc] at h
    case pos =>
      obtain ⟨address, port, rfl, ha⟩ := exists_separator hc
      rw [udpTarget_eq hm ha fun hmem => hn <| List.mem_append_left _ hmem] at h
      obtain ⟨_, hpos, h⟩ := bind_eq_ok.mp h
      obtain ⟨_, hport, h⟩ := bind_eq_ok.mp h
      obtain ⟨portNum, hnum, h⟩ := bind_eq_ok.mp h
      obtain ⟨_, hne, h⟩ := bind_eq_ok.mp h
      obtain ⟨_, hlt, h⟩ := bind_eq_ok.mp h
      obtain rfl := Except.ok.inj h
      rw [atoi] at hnum
      split at hnum
      case isFalse => contradiction
      case isTrue hrange =>
        obtain rfl := Except.ok.inj hnum
        exact List.append_assoc .. ▸ .udp ha (List.ne_nil_of_length_pos <| of_demand hpos)
          (of_demand hlt).2 (List.ne_nil_of_length_pos <| of_demand hport) rfl (of_demand hne) hrange.1 hrange.2
  · intro h
    generalize hwhole : kDestinationUDPScheme ++ uri = whole at h
    cases h
    case udp address port portNum ha hne hlt hport hnum hzero hlo hhi =>
      rw [List.append_assoc] at hwhole
      obtain rfl := List.append_cancel_left hwhole
      subst hnum
      rw [udpTarget_eq hm ha fun hmem => hn <| List.mem_append_left _ hmem, atoi, if_pos ⟨hlo, hhi⟩,
        demand_of (List.length_pos_of_ne_nil hne), demand_of (List.length_pos_of_ne_nil hport)]
      simp only [ok_bind]
      rw [demand_of hzero, demand_of ⟨List.length_pos_of_ne_nil hne, hlt⟩]
      rfl
    case file => exact absurd (List.cons.inj hwhole).1 (by decide)
    case none hnot _ => exact absurd ⟨uri, hwhole⟩ hnot

-- The URI of a computer and one of its ports.
def udpUri (address : InAddr) (port : Nat) : List Char :=
  kDestinationUDPScheme ++ UDPConnection.inetNtoa address ++ ':' :: UDPConnection.decimal port

theorem isDigit_or_dot {c : Char} {address : InAddr} (h : c ∈ UDPConnection.inetNtoa address) :
    c.isDigit = true ∨ c = '.' := by
  have hdigit : ∀ n, c ∈ UDPConnection.decimal n → c.isDigit = true :=
    fun n hc => Nat.isDigit_of_mem_toDigits (by decide) (by decide) hc
  simp only [UDPConnection.inetNtoa, List.mem_append, List.mem_cons] at h
  obtain ((h | h | h) | h | h) | h | h := h
  all_goals first | exact .inl <| hdigit _ h | exact .inr h

theorem nul_notMem_udpUri {address : InAddr} {port : Nat} : nul ∉ udpUri address port := by
  intro h
  rw [udpUri, List.append_assoc, List.mem_append, List.mem_append, List.mem_cons] at h
  obtain h | h | h | h := h
  case inl => exact absurd h (by decide)
  case inr.inl => exact (isDigit_or_dot h).elim (absurd · (by decide)) (absurd · (by decide))
  case inr.inr.inl => exact absurd h (by decide)
  case inr.inr.inr => exact absurd (Nat.isDigit_of_mem_toDigits (by decide) (by decide) h) (by decide)

theorem means_udpUri {address : InAddr} {port : Nat} (hp : 0 < port) (hlt : port < 2 ^ 16) :
    Means (udpUri address port) (.udp (UDPConnection.inetNtoa address) port) := by
  have hcolon : ':' ∉ UDPConnection.inetNtoa address := fun h =>
    (isDigit_or_dot h).elim (absurd · (by decide)) (absurd · (by decide))
  have hlength : (UDPConnection.inetNtoa address).length ≤ 15 := UDPConnection.length_inetNtoa
  exact .udp hcolon (by simp [UDPConnection.inetNtoa]) (by omega) Nat.toDigits_ne_nil (number_toDigits port)
    (by omega) (by omega) (by omega)

theorem destinationOf_udp : destinationOf memory (kDestinationUDPScheme ++ uri) = udpTarget memory uri := by
  rw [destinationOf, if_pos <| strstr_eq_zero_iff.mpr <| List.prefix_append .., List.drop_left]

theorem destinationOf_file : destinationOf memory (kDestinationFileScheme ++ uri) = (do
    demand (0 < uri.length)
    return .file uri) := by
  have hnot : ¬strstr kDestinationUDPScheme (kDestinationFileScheme ++ uri) = some 0 := fun h => by
    obtain ⟨_, h⟩ := strstr_eq_zero_iff.mp h
    exact absurd (List.cons.inj h).1 (by decide)
  rw [destinationOf, if_neg hnot, if_pos <| strstr_eq_zero_iff.mpr <| List.prefix_append ..]
  simp only [List.drop_left]

theorem destinationOf_file_error (h : destinationOf memory (kDestinationFileScheme ++ uri) = .error fault) :
    fault = .assertion := by
  rw [destinationOf_file] at h
  obtain h | ⟨_, _, h⟩ := bind_eq_error.mp h
  · exact eq_assertion h
  · contradiction

theorem destinationOf_other (hudp : ¬kDestinationUDPScheme <+: uri) (hfile : ¬kDestinationFileScheme <+: uri) :
    destinationOf memory uri = .ok .none := by
  rw [destinationOf, if_neg <| hudp ∘ strstr_eq_zero_iff.mp, if_neg <| hfile ∘ strstr_eq_zero_iff.mp]
  rfl

theorem destinationOf_error (hm : memory.length = 16) (hn : nul ∉ uri)
    (h : destinationOf memory uri = .error fault) : fault = .assertion ∨ fault = .undefined := by
  by_cases hudp : kDestinationUDPScheme <+: uri
  case pos =>
    obtain ⟨rest, rfl⟩ := hudp
    exact udpTarget_error hm (fun hmem => hn <| List.mem_append_right _ hmem) <| destinationOf_udp ▸ h
  case neg =>
    by_cases hfile : kDestinationFileScheme <+: uri
    case pos =>
      obtain ⟨filename, rfl⟩ := hfile
      exact .inl <| destinationOf_file_error h
    case neg => exact nomatch (destinationOf_other hudp hfile).symm.trans h

theorem destinationOf_udpUri {address : InAddr} {port : Nat} (hm : memory.length = 16) (hp : 0 < port)
    (hlt : port < 2 ^ 16) :
    destinationOf memory (udpUri address port) = .ok (.udp (UDPConnection.inetNtoa address) port) := by
  have huri : udpUri address port = kDestinationUDPScheme ++
      (UDPConnection.inetNtoa address ++ ':' :: UDPConnection.decimal port) := List.append_assoc ..
  have hmeans : Means (udpUri address port) (.udp (UDPConnection.inetNtoa address) port) := means_udpUri hp hlt
  have hn : nul ∉ udpUri address port := nul_notMem_udpUri
  rw [huri] at hmeans hn ⊢
  rw [destinationOf_udp]
  exact (udpTarget_eq_ok_iff hm fun h => hn <| List.mem_append_right _ h).mpr hmeans

theorem means_file_iff : Means (kDestinationFileScheme ++ uri) target ↔ uri ≠ [] ∧ target = .file uri := by
  refine ⟨fun h => ?_, fun ⟨hne, ht⟩ => ht ▸ .file hne⟩
  generalize hwhole : kDestinationFileScheme ++ uri = whole at h
  cases h
  case udp        => exact absurd (List.cons.inj hwhole).1 (by decide)
  case file hne   =>
    obtain rfl := List.append_cancel_left hwhole
    exact ⟨hne, rfl⟩
  case none _ hno => exact absurd ⟨uri, hwhole⟩ hno

theorem means_other_iff (hudp : ¬kDestinationUDPScheme <+: uri) (hfile : ¬kDestinationFileScheme <+: uri) :
    Means uri target ↔ target = .none := by
  refine ⟨fun h => ?_, fun ht => ht ▸ .none hudp hfile⟩
  cases h
  case udp  => exact absurd (List.append_assoc .. ▸ List.prefix_append ..) hudp
  case file => exact absurd (List.prefix_append ..) hfile
  case none => rfl

end Profiler

open Profiler

variable {memory uri : List Char}

open ProfilerFault in
-- The constructor goes on to open a destination exactly if the URI says where to send to, and it is this
-- destination. Whatever the URI is, it never passes the end of its array.
theorem destination_uri_parsed (hm : memory.length = 16) (hn : nul ∉ uri) :
    (∀ target, destinationOf memory uri = .ok target ↔ Means uri target) ∧
    ∀ fault, destinationOf memory uri = .error fault → fault = .assertion ∨ fault = .undefined := by
  refine ⟨fun target => ?_, fun _ => destinationOf_error hm hn⟩
  by_cases hudp : kDestinationUDPScheme <+: uri
  case pos =>
    obtain ⟨rest, rfl⟩ := hudp
    rw [destinationOf_udp]
    exact udpTarget_eq_ok_iff hm fun h => hn <| List.mem_append_right _ h
  case neg =>
    by_cases hfile : kDestinationFileScheme <+: uri
    case neg =>
      rw [destinationOf_other hudp hfile, means_other_iff hudp hfile]
      exact ⟨fun h => (Except.ok.inj h).symm, fun h => congrArg Except.ok h.symm⟩
    case pos =>
      obtain ⟨filename, rfl⟩ := hfile
      rw [destinationOf_file, means_file_iff, bind_eq_ok]
      refine ⟨?_, fun ⟨hne, ht⟩ => ⟨(), demand_of <| List.length_pos_of_ne_nil hne, ht ▸ rfl⟩⟩
      rintro ⟨_, hpos, h⟩
      exact ⟨List.ne_nil_of_length_pos <| of_demand hpos, (Except.ok.inj h).symm⟩

-- The array is full of other characters before, and the address fills it up to the last one.
theorem destination_uri_parsed_longest :
    destinationOf (.replicate 16 'x') (udpUri ⟨192, 168, 100, 200⟩ 8888) =
      .ok (.udp (UDPConnection.inetNtoa ⟨192, 168, 100, 200⟩) 8888) := by
  exact (destination_uri_parsed (List.length_replicate ..) nul_notMem_udpUri).1 _ |>.mpr <|
    means_udpUri (by decide) (by decide)

end PipeRT
