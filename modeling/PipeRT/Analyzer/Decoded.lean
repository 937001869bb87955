import PipeRT.Analyzer.Accepted
import PipeRT.Profile.Pass

namespace PipeRT

open PacketDecoder

variable {D : Type} {F : Double D}

-- An event tells what stands in the record.
structure Event.Tells (F : Double D) (event : Event (BitVec 64)) (r : Record D) : Prop where
  name       : Utf8.encode event.getType = r.name.text.take kMaxNameLength
  logCount   : (event.logCount : Int) = r.logCount
  passedTime : (event.passedTime : Int) = r.passed
  minVal     : event.minVal = F.bits r.min
  maxVal     : event.maxVal = F.bits r.max
  avgVal     : event.avgVal = F.bits r.avg

structure Packet.Tells (F : Double D) (packet : Packet (BitVec 64)) (buffer : Buffer D)
    (dataGroupName : CString) : Prop where
  receiver : Utf8.encode packet.receiver = dataGroupName.text.take kMaxNameLength
  sender   : ∀ sender ∈ buffer.sender,
             Utf8.encode packet.getSender = (SenderLogger.nameOf sender).take kMaxNameLength
  events   : List.Forall₂ (Event.Tells F) packet.events buffer.records

-- The names that may be written next are encoded in UTF-8, also after they are cut off.
structure Profile.Readable (y : Profile D) : Prop where
  group  : Utf8.Valid (y.data.dataGroupName.text.take kMaxNameLength)
  sender : Utf8.Valid
           ((SenderLogger.nameOf y.data.senderLogger.getTopSender.1).take kMaxNameLength)
  names  : ∀ name ∈ y.data.names, Utf8.Valid (name.text.take kMaxNameLength)

section Fields

variable {fields fields' bytes bytes' : List UInt8} {offset size : Nat} {s s' : Str} {r : Record D}

theorem toNat_doubleImage {val : D} : Bytes.toNat (doubleImage F val).reverse = (F.bits val).toNat := by
  rw [doubleImage, convertHostToNetworkByteOrder_eq, List.reverse_reverse,
    Bytes.toNat_ofNat (BitVec.isLt _)]

namespace Record

theorem read_fields :
    Bytes.read (r.fields F) 0 4 = intImage r.logCount ∧ Bytes.read (r.fields F) 4 4 = intImage r.passed ∧
      Bytes.read (r.fields F) 8 8 = doubleImage F r.min ∧
      Bytes.read (r.fields F) 16 8 = doubleImage F r.max ∧
      Bytes.read (r.fields F) 24 8 = doubleImage F r.avg := by
  have hfields : r.fields F = intImage r.logCount ++ (intImage r.passed ++ (doubleImage F r.min ++
      (doubleImage F r.max ++ (doubleImage F r.avg ++ [])))) := by
    simp only [fields, List.append_assoc, List.append_nil]
  have hint : ∀ {val}, (intImage val).length = 4 := length_intImage
  have hdouble : ∀ {val}, (doubleImage F val).length = 8 := length_doubleImage
  rw [hfields]
  refine ⟨Bytes.read_append hint, ?_, ?_, ?_, ?_⟩
  · exact Bytes.read_append_add hint <| Bytes.read_append hint
  · exact Bytes.read_append_add hint <| Bytes.read_append_add hint <| Bytes.read_append hdouble
  · exact Bytes.read_append_add hint <| Bytes.read_append_add hint <| Bytes.read_append_add hdouble <|
      Bytes.read_append hdouble
  · exact Bytes.read_append_add hint <| Bytes.read_append_add hint <| Bytes.read_append_add hdouble <|
      Bytes.read_append_add hdouble <| Bytes.read_append hdouble

theorem eventOf_fields :
    eventOf s (r.fields F) = {
      eventType  := s
      logCount   := (r.logCount % 2 ^ 32).toNat
      passedTime := (r.passed % 2 ^ 32).toNat
      minVal     := F.bits r.min
      maxVal     := F.bits r.max
      avgVal     := F.bits r.avg } := by
  obtain ⟨hcount, hpassed, hmin, hmax, havg⟩ := read_fields (F := F) (r := r)
  simp only [eventOf, hcount, hpassed, hmin, hmax, havg, toNat_intImage, toNat_doubleImage,
    BitVec.ofNat_toNat, BitVec.setWidth_eq]

-- The numbers determine the bytes.
theorem fields_eq (h : fields.length = 32) (he : eventOf s fields = eventOf s (r.fields F)) :
    fields = r.fields F := by
  have hread : ∀ {offset size}, offset + size ≤ 32 → (Bytes.read fields offset size).length = size ∧
      (Bytes.read (r.fields F) offset size).length = size := fun hle =>
    ⟨Bytes.length_read <| h ▸ hle, Bytes.length_read <| r.length_fields (F := F) ▸ hle⟩
  have hint : ∀ {offset}, offset + 4 ≤ 32 →
      Bytes.toNat (Bytes.read fields offset 4).reverse =
        Bytes.toNat (Bytes.read (r.fields F) offset 4).reverse →
      Bytes.read fields offset 4 = Bytes.read (r.fields F) offset 4 := fun hle =>
    Bytes.toNat_reverse_inj <| (hread hle).1.trans (hread hle).2.symm
  have hdouble : ∀ {offset}, offset + 8 ≤ 32 →
      BitVec.ofNat 64 (Bytes.toNat (Bytes.read fields offset 8).reverse) =
        .ofNat 64 (Bytes.toNat (Bytes.read (r.fields F) offset 8).reverse) →
      Bytes.read fields offset 8 = Bytes.read (r.fields F) offset 8 := fun hle =>
    Bytes.ofNat_toNat_reverse_inj (hread hle).1 (hread hle).2
  obtain ⟨-, hcount, hpassed, hmin, hmax, havg⟩ := (Event.mk.injEq ..).mp he
  rw [← fields.drop_zero, ← (r.fields F).drop_zero]
  refine Bytes.drop_eq_of_read (hint (by decide) hcount) ?_
  refine Bytes.drop_eq_of_read (hint (by decide) hpassed) ?_
  refine Bytes.drop_eq_of_read (hdouble (by decide) hmin) ?_
  refine Bytes.drop_eq_of_read (hdouble (by decide) hmax) ?_
  refine Bytes.drop_eq_of_read (hdouble (by decide) havg) ?_
  rw [List.drop_of_length_le h.le, List.drop_of_length_le r.length_fields.le]

variable {names : List CString} {event : Event (BitVec 64)}

theorem tells_eventOf (h : r.Counted names)
    (hs : Utf8.encode (s.drop 4) = r.name.text.take kMaxNameLength) :
    (eventOf s (r.fields F)).Tells F r := by
  obtain ⟨_, hcount, hpassed, hpassed', _⟩ := h
  rw [kMaxInt] at hcount hpassed'
  rw [eventOf_fields]
  refine ⟨hs, ?_, ?_, rfl, rfl, rfl⟩
  all_goals
    simp only
    omega

theorem fields_eq_of_tells (h : r.Counted names) (hlen : fields.length = 32)
    (ht : (eventOf s fields).Tells F r) : fields = r.fields F := by
  obtain ⟨_, hcount, hpassed, hpassed', _⟩ := h
  rw [kMaxInt] at hcount hpassed'
  have htc := ht.logCount
  have htp := ht.passedTime
  refine fields_eq (s := s) hlen ?_
  rw [eventOf_fields]
  refine (Event.mk.injEq ..).mpr ⟨rfl, ?_, ?_, ht.minVal, ht.maxVal, ht.avgVal⟩
  all_goals
    simp only [eventOf] at htc htp
    omega

end Record

end Fields

section Records

variable {records : List (Record D)} {names : List CString} {events : List (Event (BitVec 64))}
variable {bytes : List UInt8}

-- How many of the bytes of the records are zero: the end of every name, and those in the numbers.
def zeros (F : Double D) (records : List (Record D)) : Nat :=
  (records.map fun r => 1 + (r.fields F).count 0).sum

theorem count_records : (records.flatMap (·.image F)).count 0 = zeros F records := by
  rw [List.count_flatMap, zeros]
  congr 1
  refine List.map_congr_left fun r _ => ?_
  have hname : (recordTag ++ r.name.text.take kMaxNameLength).count 0 = 0 :=
    List.count_eq_zero.mpr <| notMem_append (by decide) r.name.truncate.nul
  have himage : r.image F = recordTag ++ r.name.text.take kMaxNameLength ++ ([0] ++ r.fields F) := by
    simp [Record.image, serializeString]
  rw [Function.comp, himage, List.count_append, hname, List.count_append, zero_add]
  rfl

theorem count_of_events (h : Events bytes events) (hr : ∀ r ∈ records, r.Counted names)
    (ht : List.Forall₂ (Event.Tells F) events records) : bytes.count 0 = zeros F records := by
  induction h generalizing records
  case nil =>
    cases ht
    rfl
  case cons hz _ hlen _ ih =>
    cases ht
    case cons r records he ht =>
      obtain ⟨hr, hrest⟩ := List.forall_mem_cons.mp hr
      have hcount := ih hrest ht
      rw [List.count_append, List.count_eq_zero.mpr hz, List.count_cons_self, List.count_append,
        hcount, Record.fields_eq_of_tells hr hlen he, zeros, zeros, List.map_cons, List.sum_cons]
      omega

end Records

section Buffers

variable {buffer : Buffer D} {dataGroupName : CString} {names : List CString} {little : Bool}
variable {packet : Packet (BitVec 64)} {records : List (Record D)} {bytes : List UInt8}

theorem count_of_accepts (h : Accepts bytes packet) (hr : ∀ r ∈ records, r.Counted names)
    (ht : List.Forall₂ (Event.Tells F) packet.events records) : 2 + zeros F records ≤ bytes.count 0 := by
  cases h
  case repeated =>
    cases ht
    simp only [List.count_append, List.count_cons_self, zeros, List.map_nil, List.sum_nil]
    omega
  case events hevents =>
    have hcount := count_of_events hevents hr ht
    simp only [List.count_append, List.count_cons_self]
    omega

-- A packet that tells the buffer takes its second name from the sender.
theorem Buffer.isSome_sender (hr : ∀ r ∈ buffer.records, r.Counted names)
    (h : Accepts (buffer.image F dataGroupName) packet) (ht : packet.Tells F buffer dataGroupName) :
    buffer.sender.isSome = true := by
  have hle := count_of_accepts h hr ht.events
  have hgroup : (groupTag ++ serializeString dataGroupName.text).count 0 = 1 := by
    rw [serializeString, ← List.append_assoc, List.count_append, List.count_eq_zero.mpr]
    · rfl
    · exact notMem_append (by decide) dataGroupName.truncate.nul
  cases hs : buffer.sender
  case some => rfl
  case none =>
    rw [Buffer.image, List.count_append, List.count_append, hgroup, count_records, hs] at hle
    simp at hle

theorem Buffer.exists_tells {sender : Option CString} (hs : buffer.sender = some sender)
    (hr : ∀ r ∈ buffer.records, r.Counted names)
    (hv : ∀ name ∈ names, Utf8.Valid (name.text.take kMaxNameLength))
    (hg : Utf8.Valid (dataGroupName.text.take kMaxNameLength))
    (hsender : Utf8.Valid ((SenderLogger.nameOf sender).take kMaxNameLength)) :
    ∃ packet, Accepts (buffer.image F dataGroupName) packet ∧ packet.Tells F buffer dataGroupName := by
  have hm : (buffer.message F dataGroupName).sender =
      some (.truncate _ <| SenderLogger.nul_notMem_nameOf sender) := by
    rw [Buffer.message, hs]
    rfl
  have hreadable : (buffer.message F dataGroupName).Readable := by
    refine ⟨hg, fun name hname => ?_, fun entry he => ?_⟩
    · obtain rfl := Option.some.inj <| hm.symm.trans hname
      exact hsender
    · obtain ⟨r, hmem, rfl⟩ := List.mem_map.mp he
      exact hv r.name (hr r hmem).name
  obtain ⟨packet, ha, hreceiver, hname, hevents⟩ := hreadable.accepts hm
  refine ⟨packet, buffer.image_eq F dataGroupName ▸ ha, hreceiver, fun sender' hs' => ?_, ?_⟩
  · obtain rfl : sender = sender' := by simpa [hs] using hs'
    exact hname
  · have hreads := List.forall₂_map_right_iff.mp hevents
    have hcounted := (List.forall₂_and_left _ _).mpr ⟨hr, hreads.flip (R := fun _ _ => _)⟩
    refine hcounted.flip.imp fun event r h => ?_
    obtain ⟨hcounted, hname, s, rfl⟩ := h
    exact Record.tells_eventOf hcounted hname

end Buffers

namespace Profile

variable {y₀ y₁ y y' : Profile D} {a : ProfileAction D} {as : List (ProfileAction D)} {size : Nat}

-- What the call that is under way has begun with.
def Fills (y₀ y : Profile D) : Prop :=
  ∀ c ∈ y.call, y.buffers = y₀.buffers ∧ c.2.sender = y₀.data.header.sender

theorem Fills.step (h : Fills y₀ y) (hi : y.Inv F) (ha : y.Stays a) (e : (profile F).Step y a y') :
    Fills y₀ y' := by
  replace e := effect hi.next e
  cases e
  case tick | log | trackSender => exact h
  case gather => contradiction
  case finish => simp [Fills]
  case record hc _ _ _ =>
    obtain ⟨hbuffers, hsender⟩ := h _ hc
    intro c hm
    obtain rfl := Option.some.inj hm
    refine ⟨hbuffers, ?_⟩
    split
    case isTrue  => exact hsender
    case isFalse => exact hsender

-- The buffer that a call has filled when it returns.
theorem exists_buffer (hi : y₀.Inv F) (e : (profile F).Step y₀ (.gather size) y₁)
    (r : (profile F).Run Stays y₁ as y) (e' : (profile F).Step y .finish y') :
    ∃ buffer, y'.buffers = y₀.buffers ++ [buffer] ∧ buffer.sender = y₀.data.header.sender ∧
      buffer.bytes = buffer.image F y₀.data.dataGroupName ∧
      ∀ r ∈ buffer.records, r.Counted y₀.data.names := by
  have hi₁ := hi.step e
  have hbegun : y₁.data.dataGroupName = y₀.data.dataGroupName ∧ y₁.data.names = y₀.data.names ∧
      Fills y₀ y₁ := by
    replace e := effect hi.next e
    cases e
    case gather =>
      refine ⟨rfl, rfl, fun c hm => ?_⟩
      obtain rfl := Option.some.inj hm
      exact ⟨rfl, rfl⟩
  have hx := extends_of_run hi₁ <| r.mono fun _ _ ha hg => absurd (ha.symm.trans hg) Bool.false_ne_true
  obtain ⟨hiy, hfills⟩ := r.preserves (P := fun y => y.Inv F ∧ Fills y₀ y)
    (fun _ _ _ h e => ⟨h.1.step e.2, h.2.step h.1 e.1 e.2⟩) ⟨hi₁, hbegun.2.2⟩
  have hfinish := effect hiy.next e'
  cases hfinish
  case finish size buffer hc _ =>
    obtain ⟨hbuffers, hsender⟩ := hfills _ hc
    have hholds : y.Holds buffer := .inr <| by simp [hc]
    refine ⟨_, by rw [hbuffers], hsender, ?_, ?_⟩
    · rw [hiy.images _ hholds, hx.group, hbegun.1]
    · rw [← hbegun.2.1, ← hx.names]
      exact hiy.records _ hholds

instance (y : Profile D) : Decidable y.Readable :=
  decidable_of_iff
    (Utf8.Valid (y.data.dataGroupName.text.take kMaxNameLength) ∧
      Utf8.Valid ((SenderLogger.nameOf y.data.senderLogger.getTopSender.1).take kMaxNameLength) ∧
      ∀ name ∈ y.data.names, Utf8.Valid (name.text.take kMaxNameLength))
    ⟨fun h => ⟨h.1, h.2.1, h.2.2⟩, fun h => ⟨h.group, h.sender, h.names⟩⟩

instance (y : Profile D) (a : ProfileAction D) : Decidable (y.Stays a) :=
  inferInstanceAs (Decidable (_ = _))

-- A call in a run that can be computed.
theorem exists_call {s : Profile ℚ} (hi : (profile rationals).Init s)
    (before during : List (ProfileAction ℚ)) (size : Nat) {P : Profile ℚ → Profile ℚ → Prop}
    [∀ y₀ y, Decidable (P y₀ y)]
    (h : (((profile rationals).replay (fun _ _ => True) s before).any fun y₀ =>
      ((profile rationals).replay (fun _ _ => True) y₀ [.gather size]).any fun y₁ =>
        ((profile rationals).replay Stays y₁ during).any fun y =>
          ((profile rationals).replay (fun _ _ => True) y [.finish]).any fun y' =>
            decide (P y₀ y')) = true) :
    ∃ y₀ y₁ y y', (profile rationals).Reachable (fun _ _ => True) y₀ ∧
      (profile rationals).Step y₀ (.gather size) y₁ ∧ (profile rationals).Run Stays y₁ during y ∧
      (profile rationals).Step y .finish y' ∧ P y₀ y' := by
  obtain ⟨y₀, hy₀, h⟩ := (Option.any_eq_true ..).mp h
  obtain ⟨y₁, hy₁, h⟩ := (Option.any_eq_true ..).mp h
  obtain ⟨y, hy, h⟩ := (Option.any_eq_true ..).mp h
  obtain ⟨y', hy', h⟩ := (Option.any_eq_true ..).mp h
  cases Machine.run_of_replay hy₁
  case step e hrefl =>
    cases hrefl
    cases Machine.run_of_replay hy'
    case step e' hrefl =>
      cases hrefl
      exact ⟨y₀, y₁, y, y', ⟨s, before, hi, Machine.run_of_replay hy₀⟩, e.2, Machine.run_of_replay hy, e'.2,
        of_decide_eq_true h⟩

end Profile

-- The buffer of a call is decoded into what was written to it if and only if the call begins a pass.
-- Otherwise it names no sender, and the decoder takes something else for one.
theorem decodes_iff {ok : Profile D → ProfileAction D → Prop} {y₀ y₁ y y' : Profile D} {size : Nat}
    {as : List (ProfileAction D)} (h : (profile F).Reachable ok y₀)
    (e : (profile F).Step y₀ (.gather size) y₁) (r : (profile F).Run Profile.Stays y₁ as y)
    (e' : (profile F).Step y .finish y') (hv : y₀.Readable) (little : Bool) :
    ∃ buffer, y'.buffers = y₀.buffers ++ [buffer] ∧
      (∀ m : Message, m.image = buffer.bytes ↔ m = buffer.message F y₀.data.dataGroupName) ∧
      ((∃ packet, decodePacket little buffer.bytes = .ok packet ∧
        packet.Tells F buffer y₀.data.dataGroupName) ↔ y₀.data.atEnd = true) := by
  obtain ⟨buffer, hbuffers, hsender, himage, hr⟩ := Profile.exists_buffer (Profile.inv h) e r e'
  refine ⟨buffer, hbuffers, fun m => ?_, ?_⟩
  · rw [himage, Buffer.image_eq]
    exact Message.image_injective.eq_iff
  simp only [himage, decodePacket_eq_ok]
  constructor
  case mp =>
    rintro ⟨packet, ha, ht⟩
    have hsome := Buffer.isSome_sender hr ha ht
    cases hend : y₀.data.atEnd
    case true  => rfl
    case false => simp [hsender, ProfileData.header, hend] at hsome
  case mpr =>
    intro hend
    have hs : buffer.sender = some y₀.data.senderLogger.getTopSender.1 := by
      simp [hsender, ProfileData.header, hend]
    exact Buffer.exists_tells hs hr hv.names hv.group hv.sender

theorem decodes_iff_gathered :
    ∃ y₀ y' : Profile ℚ, y₀.data.atEnd = true ∧ ∃ buffer, y'.buffers = y₀.buffers ++ [buffer] ∧
      ∃ packet, decodePacket true buffer.bytes = .ok packet ∧
        packet.Tells rationals buffer y₀.data.dataGroupName := by
  obtain ⟨y₀, y₁, y, y', h, e, r, e', hv, hend⟩ := Profile.exists_call (s := channelData)
    ⟨_, _, _, _, by decide, rfl⟩ [.log (nameAt 1) 3, .log (nameAt 1) 4] [.record 7 7, .record 7 8] 128
    (P := fun y₀ _ => y₀.Readable ∧ y₀.data.atEnd = true) (by decide +kernel)
  obtain ⟨buffer, hbuffers, _, hiff⟩ := decodes_iff h e r e' hv true
  exact ⟨y₀, y', hend, buffer, hbuffers, hiff.mpr hend⟩

-- The data of a channel with three types of events, all of which are logged.
def crowdedData : Profile ℚ where
  data    := .new rationals (nameAt 0) (nameAt 3) [nameAt 1, nameAt 2, nameAt 4] 5
  now     := 5
  call    := none
  buffers := []
  events  := []

-- The record that is left for a second buffer of the pass is not found there.
theorem second_buffer_fails :
    ∃ y₀ y₁ y y' : Profile ℚ, (profile rationals).Reachable (fun _ _ => True) y₀ ∧
      (profile rationals).Step y₀ (.gather 128) y₁ ∧ (profile rationals).Run Profile.Stays y₁ [.record 9 9] y ∧
      (profile rationals).Step y .finish y' ∧ y₀.Readable ∧
      ∃ buffer, y'.buffers = y₀.buffers ++ [buffer] ∧ buffer.records.length = 1 ∧
        ∀ packet, decodePacket true buffer.bytes ≠ .ok packet := by
  obtain ⟨y₀, y₁, y, y', h, e, r, e', hv, hy⟩ := Profile.exists_call (s := crowdedData)
    ⟨_, _, _, _, by decide, rfl⟩
    [.log (nameAt 1) 3, .log (nameAt 2) 4, .log (nameAt 4) 5, .gather 128, .record 7 7, .record 7 8, .finish]
    [.record 9 9] 128
    (P := fun y₀ y' => y₀.Readable ∧ (y'.buffers.drop y₀.buffers.length).map (fun buffer =>
      (buffer.records.length, (decodePacket true buffer.bytes).isOk)) = [(1, false)])
    (by decide +kernel)
  obtain ⟨buffer, hbuffers, _, _⟩ := Profile.exists_buffer (Profile.inv h) e r e'
  rw [hbuffers, List.drop_left, List.map_singleton, List.singleton_inj, Prod.mk.injEq] at hy
  refine ⟨y₀, y₁, y, y', h, e, r, e', hv, buffer, hbuffers, hy.1, fun packet hp => ?_⟩
  rw [hp] at hy
  exact absurd hy.2 (by simp [Except.isOk, Except.toBool])

end PipeRT
