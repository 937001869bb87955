import PipeRT.Profile.Writes

namespace PipeRT

-- A record of an event type that is registered, whose numbers are in the range of an `int`.
structure Record.Counted {D : Type} (names : List CString) (r : Record D) : Prop where
  count_pos     : 0 < r.logCount
  count_le      : r.logCount ≤ kMaxInt
  passed_nonneg : 0 ≤ r.passed
  passed_lt     : r.passed < kMaxInt
  name          : r.name ∈ names

namespace ProfileData

variable {D : Type} {F : Double D} {data : ProfileData D} {name : CString} {t' : Time}
variable {a : CString × LogAggregate D}

def names (data : ProfileData D) : List CString :=
  data.aggregates.map Prod.fst

-- The hash finds what is in it.
theorem find?_eq_some (h : (data.names.map CString.address).Nodup) (ha : a ∈ data.aggregates)
    (he : a.1.address = name.address) : data.find? name = some a := by
  rw [names, List.map_map] at h
  cases hf : data.find? name
  case none =>
    have hn := List.find?_eq_none.mp hf a ha
    simp [he] at hn
  case some a' =>
    have he' : a'.1.address = name.address := by simpa using List.find?_some hf
    have hinj := List.inj_on_of_nodup_map h
    exact congrArg some <| hinj (List.mem_of_find?_eq_some hf) ha (he'.trans he.symm)

theorem names_logged {eventValue : D} : (data.logged F name eventValue).names = data.names := by
  rw [names, names, logged, List.map_map]
  refine List.map_congr_left fun a _ => ?_
  rw [Function.comp]
  split <;> rfl

theorem names_advanced {aggregate : LogAggregate D}
    (h : data.aggregates[data.serializeNext]? = some (name, aggregate)) :
    (data.advanced F name t').names = data.names := by
  obtain ⟨hlt, hat⟩ := List.getElem?_eq_some_iff.mp h
  rw [names, names, advanced, List.map_set]
  apply List.ext_getElem?
  intro i
  rw [List.getElem?_set]
  grind

end ProfileData

namespace Profile

variable {D : Type} {F : Double D} {y y' : Profile D} {a : ProfileAction D} {buffer : Buffer D}

-- A buffer that is filled, or being filled.
def Holds (y : Profile D) (buffer : Buffer D) : Prop :=
  buffer ∈ y.buffers ∨ buffer ∈ y.call.map Prod.snd

structure Inv (F : Double D) (y : Profile D) : Prop where
  names   : (y.data.names.map CString.address).Nodup
  next    : y.data.serializeNext ≤ y.data.aggregates.length
  counts  : ∀ a ∈ y.data.aggregates, 0 ≤ a.2.logCount ∧ a.2.logCount ≤ kMaxInt ∧
            a.2.aggregationStarted ≤ y.now
  images  : ∀ buffer, y.Holds buffer → buffer.bytes = buffer.image F y.data.dataGroupName
  records : ∀ buffer, y.Holds buffer → ∀ r ∈ buffer.records, r.Counted y.data.names

namespace Inv

theorem init (h : (profile F).Init y) : y.Inv F := by
  obtain ⟨dataGroupName, eventPushed, registered, t, hr, rfl⟩ := h
  have hnames : (ProfileData.new F dataGroupName eventPushed registered t).names = registered := by
    simp [ProfileData.names, ProfileData.new, Function.comp_def]
  refine ⟨hnames.symm ▸ hr, by simp [ProfileData.new], fun a ha => ?_, ?_, ?_⟩
  · obtain ⟨name, _, rfl⟩ := List.mem_map.mp ha
    simp [LogAggregate.clear, kMaxInt]
  · simp [Holds]
  · simp [Holds]

theorem log {eventName : CString} {eventValue : D} (h : y.Inv F)
    (hlt : ∀ a, y.data.find? eventName = some a → a.2.logCount < kMaxInt) :
    Inv F
      { y with
        data   := y.data.logged F eventName eventValue
        events := (eventName, eventValue) :: y.events } := by
  have hnames : (y.data.logged F eventName eventValue).names = y.data.names :=
    ProfileData.names_logged
  refine ⟨hnames.symm ▸ h.names, ?_, fun a ha => ?_, h.images, hnames.symm ▸ h.records⟩
  · simpa [ProfileData.logged] using h.next
  · obtain ⟨b, hb, rfl⟩ := List.mem_map.mp ha
    have hcounts := h.counts b hb
    split
    case isFalse => exact hcounts
    case isTrue he =>
      have hb := hlt b <| ProfileData.find?_eq_some h.names hb he
      exact ⟨hcounts.1.trans (Int.le_add_one le_rfl), hb, hcounts.2.2⟩

theorem record {t t' : Time} {size : Nat} {name : CString} {aggregate : LogAggregate D}
    (h : y.Inv F) (hnow : y.now ≤ t) (htt : t ≤ t') (hc : y.call = some (size, buffer))
    (hat : y.data.aggregates[y.data.serializeNext]? = some (name, aggregate))
    (ht : t - aggregate.aggregationStarted < kMaxInt) :
    Inv F {
      y with
      data := y.data.advanced F name t'
      now  := t'
      call := some (size,
        if Bytes.toNat (intImage aggregate.logCount) = 0 then buffer else {
          buffer with
          bytes   := buffer.bytes ++ (aggregate.record F name t).image F
          records := buffer.records ++ [aggregate.record F name t] }) } := by
  have hnames : (y.data.advanced F name t').names = y.data.names :=
    ProfileData.names_advanced hat
  have hmem := List.mem_of_getElem? hat
  have hcounts : 0 ≤ aggregate.logCount ∧ aggregate.logCount ≤ kMaxInt ∧
    aggregate.aggregationStarted ≤ y.now := h.counts _ hmem
  have hold : y.Holds buffer := .inr <| by simp [hc]
  have hlt := (List.getElem?_eq_some_iff.mp hat).1
  refine ⟨hnames.symm ▸ h.names, ?_, fun a ha => ?_, fun b hb => ?_, fun b hb => ?_⟩
  · simpa [ProfileData.advanced] using hlt
  · obtain ha | rfl := List.mem_or_eq_of_mem_set ha
    case inl =>
      have hcounts := h.counts a ha
      exact ⟨hcounts.1, hcounts.2.1, hcounts.2.2.trans <| hnow.trans htt⟩
    case inr => simp [LogAggregate.clear, kMaxInt]
  · obtain hb | hb := hb
    case inl => exact h.images b (.inl hb)
    case inr =>
      obtain rfl := Option.some.inj hb
      have himage := h.images buffer hold
      split
      case isTrue  => exact himage
      case isFalse =>
        simp only [himage, Buffer.image, List.flatMap_append, List.append_assoc]
        simp [ProfileData.advanced]
  · rw [hnames]
    obtain hb | hb := hb
    case inl => exact h.records b (.inl hb)
    case inr =>
      obtain rfl := Option.some.inj hb
      split
      case isTrue     => exact h.records buffer hold
      case isFalse hz =>
        refine List.forall_mem_append.mpr ⟨h.records buffer hold, List.forall_mem_singleton.mpr ?_⟩
        rw [toNat_intImage_eq_zero_iff hcounts.1 hcounts.2.1] at hz
        have hpos : 0 < aggregate.logCount := by omega
        have hpassed : 0 ≤ t - aggregate.aggregationStarted := sub_nonneg.mpr (hcounts.2.2.trans hnow)
        exact ⟨hpos, hcounts.2.1, hpassed, ht, List.mem_map_of_mem hmem⟩

theorem step (h : y.Inv F) (e : (profile F).Step y a y') : y'.Inv F := by
  cases effect h.next e
  case tick ht =>
    refine { h with counts := fun a ha => ?_ }
    have hcounts := h.counts a ha
    exact ⟨hcounts.1, hcounts.2.1, hcounts.2.2.trans ht⟩
  case log hlt                     => exact h.log hlt
  case trackSender                 => exact { h with }
  case record hnow htt hc _ hat ht => exact h.record hnow htt hc hat ht
  case gather hc _ =>
    refine { h with next := ?_, images := fun b hb => ?_, records := fun b hb => ?_ }
    · simp only [ProfileData.begun]
      split
      case isTrue  => exact Nat.zero_le _
      case isFalse => exact h.next
    · obtain hb | hb := hb
      case inl => exact h.images b (.inl hb)
      case inr => exact Option.some.inj hb ▸ ProfileData.header_image
    · obtain hb | hb := hb
      case inl => exact h.records b (.inl hb)
      case inr => simp [← Option.some.inj hb, ProfileData.header]
  case finish buffer hc _ =>
    have hold : ∀ b, b ∈ y.buffers ++ [buffer] ∨ b ∈ (none : Option (Buffer D)) → y.Holds b := by
      intro b hb
      rw [List.mem_append, List.mem_singleton] at hb
      obtain (hb | rfl) | hb := hb
      case inl.inl => exact .inl hb
      case inl.inr => exact .inr <| by simp [hc]
      case inr     => contradiction
    exact { h with
      images  := fun b hb => h.images b (hold b hb)
      records := fun b hb => h.records b (hold b hb) }

end Inv

theorem inv {ok : Profile D → ProfileAction D → Prop} (h : (profile F).Reachable ok y) : y.Inv F :=
  h.induction (fun _ => .init) fun _ _ _ _ hy _ e => hy.step e

end Profile
end PipeRT
