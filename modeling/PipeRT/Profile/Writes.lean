import PipeRT.Profile.Data

namespace PipeRT

section Images

variable {D : Type} {F : Double D} {val : Int}

theorem length_image {n : Nat} {val : BitVec (8 * n)} :
    (convertHostToNetworkByteOrder val).length = n := by
  rw [convertHostToNetworkByteOrder_eq, List.length_reverse, Bytes.length_ofNat]

@[simp]
theorem length_intImage : (intImage val).length = 4 :=
  length_image

@[simp]
theorem length_doubleImage {val : D} : (doubleImage F val).length = 8 :=
  length_image

theorem length_serializeString_le (text : List UInt8) : (serializeString text).length ≤ 28 := by
  simp only [serializeString, kMaxNameLength, List.length_append, List.length_take,
    List.length_singleton]
  omega

theorem toNat_intImage : Bytes.toNat (intImage val).reverse = (val % 2 ^ 32).toNat := by
  rw [intImage, convertHostToNetworkByteOrder_eq, List.reverse_reverse,
    Bytes.toNat_ofNat (BitVec.isLt _), BitVec.toNat_ofInt]
  rfl

-- The count reads as zero if it is zero, in whatever order its bytes are read.
theorem toNat_intImage_eq_zero_iff (h : 0 ≤ val) (h' : val ≤ kMaxInt) :
    Bytes.toNat (intImage val) = 0 ↔ val = 0 := by
  have hmod : (val % 2 ^ 32).toNat = 0 ↔ val = 0 := by
    rw [kMaxInt] at h'
    omega
  rw [← hmod, ← toNat_intImage, Bytes.toNat_eq_zero_iff, Bytes.toNat_eq_zero_iff]
  simp

end Images

namespace Record

variable {D : Type} (F : Double D)

def image (r : Record D) : List UInt8 :=
  recordTag ++ serializeString r.name.text ++ r.fields F

variable {F} {r : Record D}

@[simp]
theorem length_fields : (r.fields F).length = 32 := by
  simp [fields]

theorem length_image_le : (r.image F).length ≤ 64 := by
  have := length_serializeString_le r.name.text
  simp only [image, recordTag, List.length_append, List.length_cons, List.length_nil, length_fields]
  omega

end Record

namespace Buffer

variable {D : Type} (F : Double D)

-- The bytes of a buffer, from what was written there.
def image (buffer : Buffer D) (dataGroupName : CString) : List UInt8 :=
  groupTag ++ serializeString dataGroupName.text ++
    buffer.sender.elim [] (fun sender => senderTag ++ serializeString (SenderLogger.nameOf sender)) ++
    buffer.records.flatMap (·.image F)

end Buffer

namespace LogAggregate

variable {D : Type} {F : Double D} {aggregate : LogAggregate D} {t t' : Time} {name : CString}

@[simp]
theorem record_name : (aggregate.record F name t).name = name :=
  rfl

@[simp]
theorem record_logCount : (aggregate.record F name t).logCount = aggregate.logCount :=
  rfl

theorem serializeNClear_eq (name : CString) :
    aggregate.serializeNClear F t t' =
      if t - aggregate.aggregationStarted < kMaxInt then
        .ok ((aggregate.record F name t).fields F, clear F t')
      else
        .error .timePassed := by
  rw [serializeNClear, serialize, getTimePassedInMicroSecs, ensure]
  split <;> rfl

end LogAggregate

namespace ProfileData

variable {D : Type} {F : Double D} {data data' : ProfileData D} {buffer buffer' : Buffer D}
variable {size : Nat} {t t' : Time} {name : CString} {aggregate : LogAggregate D}

-- The header that is written next, with the sender if a pass begins.
def header (data : ProfileData D) : Buffer D where
  bytes   := groupTag ++ serializeString data.dataGroupName.text ++
             if data.atEnd then data.senderLogger.serializeNClear.1 else []
  sender  := if data.atEnd then some data.senderLogger.getTopSender.1 else none
  records := []

-- What is left of the data after an event.
def logged (F : Double D) (data : ProfileData D) (eventName : CString) (eventValue : D) :
    ProfileData D :=
  { data with
    aggregates := data.aggregates.map fun a =>
      if a.1.address = eventName.address then (a.1, a.2.log F eventValue) else a }

-- What is left of the pass after its header.
def begun (data : ProfileData D) : ProfileData D :=
  { data with
    senderLogger  := if data.atEnd then data.senderLogger.serializeNClear.2 else data.senderLogger
    serializeNext := if data.atEnd then 0 else data.serializeNext }

theorem header_image : data.header.bytes = data.header.image F data.dataGroupName := by
  cases hend : data.atEnd
  case false => simp [header, Buffer.image, hend]
  case true =>
    simp only [header, Buffer.image, hend, if_true, List.flatMap_nil, List.append_nil]
    rfl

theorem length_header_le : data.header.bytes.length ≤ 64 := by
  have := length_serializeString_le data.dataGroupName.text
  have := length_serializeString_le <|
    SenderLogger.nameOf data.senderLogger.getTopSender.1
  have hsender : data.senderLogger.serializeNClear.1 =
    senderTag ++ serializeString (SenderLogger.nameOf data.senderLogger.getTopSender.1) := rfl
  cases hend : data.atEnd <;>
    simp only [header, hend, hsender, groupTag, senderTag, List.length_append, List.length_cons,
      List.length_nil, if_true, Bool.false_eq_true, if_false]
  all_goals omega

theorem writeHeader_eq_error (h : size < 128) : data.writeHeader size = .error .safetyLimit := by
  have hn : ¬(64 : Int) ≤ (size : Int) - 64 := by omega
  rw [writeHeader, ensure, if_neg hn]
  rfl

theorem writeHeader_eq_ok (h : 128 ≤ size) : data.writeHeader size = .ok (data.begun, data.header) := by
  have hsize : (64 : Int) ≤ (size : Int) - 64 := by omega
  have hlen : data.header.bytes.length ≤ 64 := length_header_le
  have hname : (groupTag ++ serializeString data.dataGroupName.text).length ≤ size := by
    simp only [header, List.length_append] at hlen ⊢
    omega
  simp only [writeHeader, ensure_of hsize, ensure_of hname, ok_bind]
  cases hend : data.atEnd
  case false => simp [header, begun, hend]
  case true =>
    have hall : (groupTag ++ serializeString data.dataGroupName.text ++
        data.senderLogger.serializeNClear.1).length ≤ size := by
      simp only [header, hend, if_true] at hlen
      omega
    rw [if_pos rfl]
    simp only [ensure_of hall]
    simp [header, begun, hend]

-- A record fits wherever the loop goes on.
theorem length_append_image_le {r : Record D} (h : data.goesOn size buffer = true) :
    (buffer.bytes ++ r.image F).length ≤ size := by
  have himage := r.length_image_le (F := F)
  have hlen := of_decide_eq_true (Bool.and_eq_true_iff.mp h).1
  rw [List.length_append]
  omega

-- The loop is entered if there is anything to go through.
theorem begun_goesOn (h : 128 ≤ size) :
    data.begun.goesOn size data.header = true ∨ data.begun.aggregates = [] := by
  have hlen : data.header.bytes.length ≤ 64 := length_header_le
  have hsize : (data.header.bytes.length : Int) ≤ (size : Int) - 64 := by omega
  by_cases hnil : data.aggregates = []
  case pos => exact .inr hnil
  case neg =>
    refine .inl <| Bool.and_eq_true_iff.mpr ⟨decide_eq_true hsize, ?_⟩
    by_cases hend : data.serializeNext = data.aggregates.length
    case pos =>
      have hpos := List.length_pos_iff.mpr hnil
      simp [begun, atEnd, hend, hpos.ne]
    case neg => simp [begun, atEnd, hend]

-- The loop only goes on while there is another aggregate.
theorem exists_next (hn : data.serializeNext ≤ data.aggregates.length)
    (h : data.goesOn size buffer = true) : ∃ a, data.aggregates[data.serializeNext]? = some a := by
  have hend := (Bool.and_eq_true_iff.mp h).2
  have hlt : data.serializeNext < data.aggregates.length := by
    simp only [atEnd, Bool.not_eq_true', beq_eq_false_iff_ne] at hend
    omega
  exact ⟨_, List.getElem?_eq_getElem hlt⟩

-- What is left after a record.
def advanced (F : Double D) (data : ProfileData D) (name : CString) (t' : Time) : ProfileData D :=
  { data with
    aggregates    := data.aggregates.set data.serializeNext (name, .clear F t')
    serializeNext := data.serializeNext + 1 }

theorem writeRecord_eq (hnext : data.aggregates[data.serializeNext]? = some (name, aggregate))
    (h : data.goesOn size buffer = true) :
    data.writeRecord F size buffer t t' =
      if t - aggregate.aggregationStarted < kMaxInt then
        .ok (data.advanced F name t',
          if Bytes.toNat (intImage aggregate.logCount) = 0 then buffer else {
            buffer with
            bytes   := buffer.bytes ++ (aggregate.record F name t).image F
            records := buffer.records ++ [aggregate.record F name t] })
      else
        .error .timePassed := by
  have hbytes := length_append_image_le (r := aggregate.record F name t) (F := F) h
  have hnamed : (buffer.bytes ++ recordTag ++ serializeString name.text).length ≤ size := by
    simp only [Record.image, LogAggregate.record_name, List.length_append] at hbytes ⊢
    omega
  have hall : (buffer.bytes ++ recordTag ++ serializeString name.text ++
      (aggregate.record F name t).fields F).length ≤ size := by
    simpa only [Record.image, LogAggregate.record_name, List.append_assoc] using hbytes
  have hread : Bytes.read (buffer.bytes ++ recordTag ++ serializeString name.text ++
      (aggregate.record F name t).fields F)
      (buffer.bytes ++ recordTag ++ serializeString name.text).length 4 = intImage aggregate.logCount := by
    rw [Bytes.read, List.drop_left' rfl]
    simp only [Record.fields, List.append_assoc]
    exact List.take_left' length_intImage
  simp only [writeRecord, hnext, ensure_of hnamed, ok_bind, LogAggregate.serializeNClear_eq name]
  split
  case isTrue ht =>
    simp only [ok_bind, ensure_of hall, hread, pure_eq_ok]
    split
    case isTrue  => rfl
    case isFalse => simp [advanced, Record.image]
  case isFalse ht => rfl

end ProfileData

namespace Profile

variable {D : Type} {F : Double D} {y y' : Profile D} {a : ProfileAction D}

-- What a step that does not fail does.
inductive Effect (F : Double D) (y : Profile D) : ProfileAction D → Profile D → Prop
  | tick {t} : y.now ≤ t → Effect F y (.tick t) { y with now := t }
  | log {eventName eventValue} :
    (∀ a, y.data.find? eventName = some a → a.2.logCount < kMaxInt) →
    Effect F y (.log eventName eventValue)
      { y with
        data   := y.data.logged F eventName eventValue
        events := (eventName, eventValue) :: y.events }
  | trackSender {eventName threadName} :
    Effect F y (.trackSender eventName threadName)
      { y with data := y.data.trackSender eventName threadName }
  | gather {size} : 128 ≤ size → y.call = none →
    Effect F y (.gather size) { y with data := y.data.begun, call := some (size, y.data.header) }
  | record {t t' size buffer name aggregate} : y.now ≤ t → t ≤ t' → y.call = some (size, buffer) →
    y.data.goesOn size buffer = true →
    y.data.aggregates[y.data.serializeNext]? = some (name, aggregate) →
    t - aggregate.aggregationStarted < kMaxInt →
    Effect F y (.record t t') {
      y with
      data := y.data.advanced F name t'
      now  := t'
      call := some (size,
        if Bytes.toNat (intImage aggregate.logCount) = 0 then buffer else {
          buffer with
          bytes   := buffer.bytes ++ (aggregate.record F name t).image F
          records := buffer.records ++ [aggregate.record F name t] }) }
  | finish {size buffer} : y.call = some (size, buffer) → y.data.goesOn size buffer = false →
    Effect F y .finish { y with call := none, buffers := y.buffers ++ [buffer] }

-- A call is under way, and its loop goes on, or it does not.
theorem Guard.record {t t' : Time} (h : y.Guard (.record t t')) :
    ∃ size buffer, y.call = some (size, buffer) ∧ y.data.goesOn size buffer = true := by
  obtain ⟨⟨size, buffer⟩, hc, hgo⟩ := (Option.any_eq_true ..).mp h.2.2
  exact ⟨size, buffer, hc, hgo⟩

theorem Guard.finish (h : y.Guard .finish) :
    ∃ size buffer, y.call = some (size, buffer) ∧ y.data.goesOn size buffer = false := by
  obtain ⟨⟨size, buffer⟩, hc, hgo⟩ := (Option.any_eq_true ..).mp h
  exact ⟨size, buffer, hc, by simpa using hgo⟩

theorem effect (hnext : y.data.serializeNext ≤ y.data.aggregates.length)
    (e : (profile F).Step y a y') : Effect F y a y' := by
  have hg : y.Guard a := e.guard
  have he : y.exec F a = .ok y' := e.exec
  cases a
  case tick t => exact Except.ok.inj he ▸ .tick hg
  case trackSender eventName threadName => exact Except.ok.inj he ▸ .trackSender
  case log eventName eventValue =>
    obtain ⟨data, hd, he⟩ := bind_eq_ok.mp he
    obtain ⟨_, _, hd⟩ := bind_eq_ok.mp hd
    obtain rfl := Except.ok.inj hd
    obtain rfl := Except.ok.inj he
    refine .log fun a ha => ?_
    simpa [Guard, ha] using hg
  case gather size =>
    by_cases hsize : 128 ≤ size
    case neg =>
      simp [exec, ProfileData.writeHeader_eq_error (Nat.lt_of_not_le hsize), bind, Except.bind] at he
    case pos =>
      simp only [exec, ProfileData.writeHeader_eq_ok hsize, ok_bind] at he
      obtain rfl := Except.ok.inj he
      exact .gather hsize hg
  case record t t' =>
    obtain ⟨size, buffer, hc, hgo⟩ := hg.record
    obtain ⟨hnow, htt, _⟩ := hg
    obtain ⟨⟨name, aggregate⟩, hat⟩ := ProfileData.exists_next hnext hgo
    by_cases ht : t - aggregate.aggregationStarted < kMaxInt
    case neg =>
      simp [exec, hc, ProfileData.writeRecord_eq hat hgo, ht, bind, Except.bind] at he
    case pos =>
      simp only [exec, hc, ProfileData.writeRecord_eq hat hgo, if_pos ht, ok_bind, pure_eq_ok] at he
      obtain rfl := Except.ok.inj he
      exact .record hnow htt hc hgo hat ht
  case finish =>
    obtain ⟨size, buffer, hc, hgo⟩ := hg.finish
    simp only [exec, hc] at he
    obtain rfl := Except.ok.inj he
    exact .finish hc hgo

-- The assertions about the buffer hold if it is big enough for the precondition.
theorem exec_eq_error {f : ProfileFault} (hn : y.data.serializeNext ≤ y.data.aggregates.length)
    (hg : y.Guard a) (ha : ∀ size, a = .gather size → 128 ≤ size) (he : y.exec F a = .error f) :
    f = .unregistered ∨ f = .timePassed := by
  cases a
  case tick | trackSender => contradiction
  case log eventName eventValue =>
    rw [exec, ProfileData.log, ensure] at he
    split at he
    case isTrue  => contradiction
    case isFalse => exact .inl (Except.error.inj he).symm
  case gather size =>
    rw [exec, ProfileData.writeHeader_eq_ok (ha size rfl)] at he
    contradiction
  case record t t' =>
    obtain ⟨size, buffer, hc, hgo⟩ := hg.record
    obtain ⟨⟨name, aggregate⟩, hat⟩ := ProfileData.exists_next hn hgo
    simp only [exec, hc, ProfileData.writeRecord_eq hat hgo] at he
    split at he
    case isTrue  => contradiction
    case isFalse => exact .inr (Except.error.inj he).symm
  case finish =>
    obtain ⟨size, buffer, hc, _⟩ := hg.finish
    simp [exec, hc] at he

end Profile
end PipeRT
