import PipeRT.Profile.Invariant

namespace PipeRT

-- Calculation that does not round, on values that stand for rational numbers.
structure Double.Exact {D : Type} (F : Double D) (value : D → ℚ) : Prop where
  zero   : value F.zero = 0
  add    : ∀ a b, value (F.add a b) = value a + value b
  divInt : ∀ a n, value (F.divInt a n) = value a / n

variable {D : Type} {F : Double D} {value : D → ℚ}

namespace LogAggregate

variable {aggregate : LogAggregate D} {values : List D} {t : Time} {name : CString} {eventValue : D}

-- What was logged since the aggregate was cleared.
def Tells (F : Double D) (aggregate : LogAggregate D) (values : List D) : Prop :=
  ∃ t, aggregate = values.foldl (log F) (clear F t)

theorem logCount_foldl : (values.foldl (log F) aggregate).logCount = aggregate.logCount + values.length := by
  induction values generalizing aggregate
  case nil => simp
  case cons _ _ ih =>
    rw [List.foldl_cons, ih, List.length_cons, log]
    push_cast
    ring

theorem sum_foldl (he : F.Exact value) :
    value (values.foldl (log F) aggregate).sum = value aggregate.sum + (values.map value).sum := by
  induction values generalizing aggregate
  case nil => simp
  case cons _ _ ih => rw [List.foldl_cons, ih, log, he.add, List.map_cons, List.sum_cons, add_assoc]

namespace Tells

theorem clear : (clear F t).Tells F [] :=
  ⟨t, rfl⟩

theorem log (h : aggregate.Tells F values) : (aggregate.log F eventValue).Tells F (values ++ [eventValue]) := by
  obtain ⟨t, rfl⟩ := h
  exact ⟨t, List.foldl_concat .. |>.symm⟩

theorem logCount (h : aggregate.Tells F values) : aggregate.logCount = values.length := by
  obtain ⟨t, rfl⟩ := h
  rw [logCount_foldl, LogAggregate.clear, zero_add]

theorem sum (h : aggregate.Tells F values) (he : F.Exact value) :
    value aggregate.sum = (values.map value).sum := by
  obtain ⟨t, rfl⟩ := h
  rw [sum_foldl he, LogAggregate.clear, he.zero, zero_add]

-- The average of no values at all is zero, so that its multiple still is their sum.
theorem mul_avg (h : aggregate.Tells F values) (he : F.Exact value) :
    aggregate.logCount * value (aggregate.getAvg F) = (values.map value).sum := by
  rw [getAvg]
  split
  case isTrue hn =>
    rw [he.divInt, mul_div_cancel₀ _ (Int.cast_ne_zero.mpr hn), h.sum he]
  case isFalse hn =>
    have hvalues : values = [] := by
      have := h.logCount
      exact List.length_eq_zero_iff.mp (by omega)
    simp [hvalues, he.zero]

end Tells
end LogAggregate

-- What was logged in an aggregate when it was written to the record.
def Record.Tells (F : Double D) (r : Record D) (values : List D) : Prop :=
  ∃ (aggregate : LogAggregate D) (name : CString) (t : Time),
    aggregate.Tells F values ∧ r = aggregate.record F name t

-- What the records tell together.
theorem sum_map_eq_of_tells {M : Type} [AddCommMonoid M] {records : List (Record D)}
    {shares : List (List D)} {f : Record D → M} {g : D → M}
    (h : List.Forall₂ (Record.Tells F) records shares)
    (hf : ∀ r values, r.Tells F values → f r = (values.map g).sum) :
    (records.map f).sum = (shares.flatten.map g).sum := by
  induction h
  case nil => rfl
  case cons hr _ ih =>
    rw [List.map_cons, List.sum_cons, hf _ _ hr, ih, List.flatten_cons, List.map_append, List.sum_append]

namespace Profile

variable {ok : Profile D → ProfileAction D → Prop} {y y' : Profile D} {a : ProfileAction D}
variable {name : CString} {aggregate : LogAggregate D} {values : List D}

-- What was logged for a type of event, the oldest event first.
def eventsOf (y : Profile D) (name : CString) : List D :=
  (y.events.reverse.filter fun e => e.1.address = name.address).map Prod.snd

def recordsOf (y : Profile D) (name : CString) : List (Record D) :=
  y.emitted.filter fun r => r.name.address = name.address

-- Every event has been told by one of the records, or is still held in the aggregate.
def Accounts (F : Double D) (y : Profile D) (name : CString) (aggregate : LogAggregate D) : Prop :=
  ∃ shares rest, List.Forall₂ (Record.Tells F) (y.recordsOf name) shares ∧ aggregate.Tells F rest ∧
    y.eventsOf name = shares.flatten ++ rest

def Accounted (F : Double D) (y : Profile D) : Prop :=
  ∀ (i : Nat) (name : CString) (aggregate : LogAggregate D),
    y.data.aggregates[i]? = some (name, aggregate) → y.Accounts F name aggregate

theorem Accounts.of_eq (h : y.Accounts F name aggregate) (hr : y'.emitted = y.emitted)
    (he : y'.events = y.events) : y'.Accounts F name aggregate := by
  rw [Accounts, recordsOf, eventsOf, hr, he]
  exact h

theorem recordsOf_eq {records : List (Record D)} (h : y'.emitted = y.emitted ++ records) :
    y'.recordsOf name =
      y.recordsOf name ++ records.filter fun r => decide (r.name.address = name.address) := by
  rw [recordsOf, h, List.filter_append, recordsOf]

section Emitted

variable {buffer : Buffer D} {size : Nat} {t t' : Time}

theorem emitted_finish (hc : y.call = some (size, buffer)) :
    emitted { y with call := none, buffers := y.buffers ++ [buffer] } = y.emitted := by
  simp [emitted, hc]

theorem emitted_gather {data : ProfileData D} (hc : y.call = none) :
    emitted { y with data := data.begun, call := some (size, data.header) } = y.emitted := by
  simp [emitted, hc, ProfileData.header]

-- A record is left out of the buffer if and only if nothing was logged.
theorem emitted_record {data : ProfileData D} (hc : y.call = some (size, buffer))
    (h : 0 ≤ aggregate.logCount) (h' : aggregate.logCount ≤ kMaxInt) :
    emitted {
      y with
      data
      now  := t'
      call := some (size,
        if Bytes.toNat (intImage aggregate.logCount) = 0 then buffer else {
          buffer with
          bytes   := buffer.bytes ++ (aggregate.record F name t).image F
          records := buffer.records ++ [aggregate.record F name t] }) } =
      y.emitted ++ if aggregate.logCount = 0 then [] else [aggregate.record F name t] := by
  simp only [toNat_intImage_eq_zero_iff h h', emitted, hc]
  split
  case isTrue  => simp
  case isFalse => simp

theorem emitted_eq (h : (profile F).Reachable ok y) (e : (profile F).Step y (.record t t') y') :
    ∃ name aggregate, y.data.aggregates[y.data.serializeNext]? = some (name, aggregate) ∧
      y'.emitted = y.emitted ++ if aggregate.logCount = 0 then [] else [aggregate.record F name t] := by
  have hi := inv h
  cases effect hi.next e
  case record name aggregate hc _ hat _ _ _ =>
    have hcounts := hi.counts _ (List.mem_of_getElem? hat)
    exact ⟨name, aggregate, hat, emitted_record hc hcounts.1 hcounts.2.1⟩

end Emitted

namespace Accounted

theorem log {eventName : CString} {eventValue : D} (h : y.Accounted F) :
    Accounted F
      { y with
        data   := y.data.logged F eventName eventValue
        events := (eventName, eventValue) :: y.events } := by
  intro i name aggregate hat
  rw [ProfileData.logged, List.getElem?_map] at hat
  obtain ⟨⟨name', aggregate'⟩, hat, ha⟩ := Option.map_eq_some_iff.mp hat
  obtain ⟨shares, rest, hshares, hrest, hevents⟩ := h i name' aggregate' hat
  split at ha
  case isTrue hname =>
    obtain ⟨rfl, rfl⟩ := Prod.mk.inj ha
    refine ⟨shares, rest ++ [eventValue], hshares, hrest.log, ?_⟩
    rw [← List.append_assoc, ← hevents]
    simp [eventsOf, hname.symm]
  case isFalse hname =>
    obtain ⟨rfl, rfl⟩ := Prod.mk.inj ha
    refine ⟨shares, rest, hshares, hrest, ?_⟩
    rw [← hevents]
    simp [eventsOf, Ne.symm hname]

theorem record {t t' : Time} (h : y.Accounted F) (hi : y.Inv F)
    (hat : y.data.aggregates[y.data.serializeNext]? = some (name, aggregate))
    (hdata : y'.data = y.data.advanced F name t') (hev : y'.events = y.events)
    (hem : y'.emitted =
      y.emitted ++ if aggregate.logCount = 0 then [] else [aggregate.record F name t]) :
    y'.Accounted F := by
  intro i name' aggregate' hat'
  rw [hdata, ProfileData.advanced, List.getElem?_set] at hat'
  rw [Accounts, recordsOf_eq hem, eventsOf, hev, ← eventsOf]
  split at hat'
  case isTrue hidx =>
    obtain ⟨rfl, rfl⟩ : name = name' ∧ .clear F t' = aggregate' := by
      simpa [← hidx, (List.getElem?_eq_some_iff.mp hat).1] using hat'
    obtain ⟨shares, rest, hshares, hrest, hevents⟩ := h _ name aggregate hat
    split
    case isTrue hz =>
      have hnil : rest = [] := List.length_eq_zero_iff.mp <| by
        have := hrest.logCount
        omega
      refine ⟨shares, [], ?_, .clear, hnil ▸ hevents⟩
      simpa using hshares
    case isFalse =>
      refine ⟨shares ++ [rest], [], ?_, .clear, ?_⟩
      · have hr : (aggregate.record F name t).Tells F rest := ⟨aggregate, name, t, hrest, rfl⟩
        simpa using List.rel_append hshares (.cons hr .nil)
      · simpa using hevents
  case isFalse hidx =>
    -- Another type of event has another name.
    have hne : name.address ≠ name'.address := by
      intro he
      have hlt := (List.getElem?_eq_some_iff.mp hat).1
      refine hidx <| (List.getElem?_inj (by simpa [ProfileData.names] using hlt) hi.names).mp ?_
      simp [ProfileData.names, hat, hat', he]
    have hnil : (if aggregate.logCount = 0 then [] else [aggregate.record F name t]).filter
        (fun r => decide (r.name.address = name'.address)) = [] := by
      split <;> simp [hne]
    rw [hnil, List.append_nil]
    exact h i name' aggregate' hat'

theorem step (h : y.Accounted F) (hi : y.Inv F) (e : (profile F).Step y a y') : y'.Accounted F := by
  cases effect hi.next e
  case tick        => exact h
  case trackSender => exact h
  case log         => exact h.log
  case gather _ hc =>
    exact fun i name aggregate hat => (h i name aggregate hat).of_eq (emitted_gather hc) rfl
  case finish hc _ =>
    exact fun i name aggregate hat => (h i name aggregate hat).of_eq (emitted_finish hc) rfl
  case record _ _ hc _ hat _ =>
    have hcounts := hi.counts _ (List.mem_of_getElem? hat)
    exact h.record hi hat rfl rfl <| emitted_record hc hcounts.1 hcounts.2.1

end Accounted

theorem accounted (h : (profile F).Reachable ok y) : y.Accounted F := by
  refine h.induction (fun y hy => ?_) fun y _ _ hr hy _ e => hy.step (inv hr) e
  obtain ⟨dataGroupName, eventPushed, registered, t, _, rfl⟩ := hy
  intro i name aggregate hat
  obtain ⟨_, _, ha⟩ := List.mem_map.mp <| List.mem_of_getElem? hat
  obtain ⟨rfl, rfl⟩ := Prod.mk.inj ha
  exact ⟨[], [], .nil, .clear, rfl⟩

end Profile

-- What was logged for a type of event is told by the records that were written or is still held. A
-- record that is taken back has nothing to tell.
theorem events_conserved {ok : Profile D → ProfileAction D → Prop} {y : Profile D}
    (h : (profile F).Reachable ok y) :
    (∀ a ∈ y.data.aggregates,
      ((y.eventsOf a.1).length : Int) = ((y.recordsOf a.1).map (·.logCount)).sum + a.2.logCount ∧
      ∀ value, F.Exact value → ((y.eventsOf a.1).map value).sum =
        ((y.recordsOf a.1).map fun r => r.logCount * value r.avg).sum + value a.2.sum) ∧
    (∀ buffer ∈ y.buffers, buffer.bytes = buffer.image F y.data.dataGroupName) ∧
    ∀ t t' y', (profile F).Step y (.record t t') y' →
      ∃ name aggregate, y.data.aggregates[y.data.serializeNext]? = some (name, aggregate) ∧
        y'.emitted =
          y.emitted ++ if aggregate.logCount = 0 then [] else [aggregate.record F name t] := by
  refine ⟨fun ⟨name, aggregate⟩ ha => ?_, fun buffer hb => ?_, fun t t' y' e => Profile.emitted_eq h e⟩
  · obtain ⟨i, hat⟩ := List.getElem?_of_mem ha
    obtain ⟨shares, rest, hshares, hrest, hevents⟩ := Profile.accounted h i name aggregate hat
    rw [hevents]
    refine ⟨?_, fun value he => ?_⟩
    · have hcount := sum_map_eq_of_tells (f := Record.logCount) (g := fun _ => (1 : Int)) hshares ?_
      · rw [hcount, hrest.logCount, List.length_append, List.map_const', List.sum_replicate]
        simp
      · rintro _ values ⟨aggregate, name, t, hr, rfl⟩
        simpa using hr.logCount
    · have hsum := sum_map_eq_of_tells (f := fun r => r.logCount * value r.avg) (g := value) hshares ?_
      · rw [hsum, hrest.sum he, List.map_append, List.sum_append]
      · rintro _ values ⟨aggregate, name, t, hr, rfl⟩
        exact hr.mul_avg he
  · exact (Profile.inv h).images buffer (.inl hb)

-- Rational numbers in the place of doubles.
def rationals : Double ℚ where
  zero       := 0
  max        := (2 - 1 / 2 ^ 52) * 2 ^ 1023
  min        := 1 / 2 ^ 1022
  add a b    := a + b
  lt a b     := a < b
  divInt a n := a / n
  bits _     := 0

theorem rationals_exact : rationals.Exact id :=
  ⟨rfl, fun _ _ => rfl, fun _ _ => rfl⟩

-- A short name at the given address.
def nameAt (address : Nat) : CString :=
  ⟨address, [102], by decide⟩

-- The data of a channel with two types of events.
def channelData : Profile ℚ where
  data    := .new rationals (nameAt 0) (nameAt 3) [nameAt 1, nameAt 2] 5
  now     := 5
  call    := none
  buffers := []
  events  := []

-- An event that was logged twice is told by one record, and the record of the other one is taken back.
def gathered : List (ProfileAction ℚ) := [
  .log (nameAt 1) 3,
  .log (nameAt 1) 4,
  .gather 128,
  .record 7 7,
  .record 7 8,
  .finish
]

theorem events_conserved_gathered :
    ∃ y, (profile rationals).Reachable (fun _ _ => True) y ∧ y.emitted.map Record.logCount = [2] ∧
      ∀ a ∈ y.data.aggregates,
        ((y.eventsOf a.1).length : Int) = ((y.recordsOf a.1).map (·.logCount)).sum + a.2.logCount ∧
        ((y.eventsOf a.1).map id).sum =
          ((y.recordsOf a.1).map fun r => (r.logCount : ℚ) * r.avg).sum + a.2.sum := by
  obtain ⟨y, hr, hy⟩ := Machine.exists_reachable_of_replay (M := profile rationals) (s := channelData)
    (fun _ _ => True) gathered (P := fun y => y.emitted.map Record.logCount = [2])
    ⟨_, _, _, _, by decide, rfl⟩ (by decide +kernel)
  have hc := (events_conserved hr).1
  exact ⟨y, hr, hy, fun a ha => ⟨(hc a ha).1, (hc a ha).2 id rationals_exact⟩⟩

end PipeRT
