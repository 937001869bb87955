import PipeRT.Profile.Conservation
import PipeRT.Profile.Gathering

namespace PipeRT

namespace Destination

-- The limit of `Send`.
def AtMost (destination : Destination) (size : Nat) : Prop :=
  match destination with
  | .udp connection => (size : Int) ≤ connection.maxPacketSize
  | .file           => True

instance (destination : Destination) (size : Nat) : Decidable (destination.AtMost size) :=
  match destination with
  | .udp connection => inferInstanceAs (Decidable ((size : Int) ≤ connection.maxPacketSize))
  | .file           => inferInstanceAs (Decidable True)

theorem admits_iff {destination : Destination} {size : Nat} :
    destination.Admits size ↔ 0 < size ∧ destination.AtMost size := by
  cases destination
  case udp  => rfl
  case file => simp [Admits, AtMost]

end Destination

namespace Profile

variable {D : Type} {F : Double D} {p p' : Profile D}

-- How far the buffer is filled after the next record.
def lengthAfter (p : Profile D) : Nat :=
  match p.call, p.data.aggregates[p.data.serializeNext]? with
  | some (_, buffer), some (name, aggregate) =>
    if aggregate.logCount = 0 then
      buffer.bytes.length
    else
      buffer.bytes.length + (recordTag.length + (serializeString name.text).length + 32)
  | _, _ => 0

theorem lengthAfter_le {size : Nat} {buffer : Buffer D} (hc : p.call = some (size, buffer))
    (hgo : p.data.goesOn size buffer = true) : p.lengthAfter ≤ size := by
  have hlen := of_decide_eq_true (Bool.and_eq_true_iff.mp hgo).1
  cases hat : p.data.aggregates[p.data.serializeNext]?
  case none => simp [lengthAfter, hat]
  case some a =>
    have hname := length_serializeString_le a.1.text
    have htag : recordTag.length = 4 := rfl
    simp only [lengthAfter, hc, hat, htag]
    split <;> omega

-- The length of the buffer that is being filled.
def length (p : Profile D) : Nat :=
  p.call.elim 0 (·.2.bytes.length)

theorem length_record {t t' : Time} (h : p.Inv F) (e : Effect F p (.record t t') p') :
    p'.length = p.lengthAfter := by
  cases e
  case record hc _ hat _ _ _ =>
    have hcounts := h.counts _ (List.mem_of_getElem? hat)
    simp only [length, lengthAfter, hc, hat, toNat_intImage_eq_zero_iff hcounts.1 hcounts.2.1]
    split
    case isTrue => rfl
    case isFalse =>
      simp only [Option.elim_some, Record.image, LogAggregate.record_name, List.length_append,
        Record.length_fields]

-- No buffer is empty.
theorem length_pos (h : p.Inv F) (hc : p.call.isSome = true) : 0 < p.length := by
  obtain ⟨⟨size, buffer⟩, hc⟩ := Option.isSome_iff_exists.mp hc
  have himage := h.images buffer <| .inr <| by simp [hc]
  simp [length, hc, himage, Buffer.image, groupTag]

end Profile

namespace ProfilerImpl

variable {D : Type} {F : Double D} {y y' : ProfilerImpl D} {a : ProfilerAction D} {i : Nat}
variable {p p' : Profile D} {ok : ProfilerImpl D → ProfilerAction D → Prop} {f : ProfileFault}

-- The buffer is big enough to call `GatherNSerialize`, and not filled with more than `Send` admits.
def Fitting (y : ProfilerImpl D) : ProfilerAction D → Prop
  | .gather    => 128 ≤ y.bufferSize
  | .record .. => (y.current?.all fun p => decide (y.destination.AtMost p.lengthAfter)) = true
  | .data .. | .gatherNSend | .send => True

instance (y : ProfilerImpl D) (a : ProfilerAction D) : Decidable (y.Fitting a) :=
  match a with
  | .gather    => inferInstanceAs (Decidable (_ ≤ _))
  | .record .. => inferInstanceAs (Decidable (_ = true))
  | .data .. | .gatherNSend | .send => inferInstanceAs (Decidable True)

theorem inv (h : (profiler F).Reachable ok y) : y.Inv F :=
  h.induction (fun _ => .init) fun _ _ _ _ hy _ e => hy.step e

-- What is in a buffer can be sent.
structure Fits (y : ProfilerImpl D) : Prop where
  limit  : ∀ connection, y.destination = .udp connection →
           connection.maxPacketSize = Destination.defaultMaxPacketSize
  length : ∀ p ∈ y.profileData, p.call.isSome = true → y.destination.AtMost p.length

theorem Fits.atMost {size : Nat} (h : y.Fits) (hsize : size ≤ 508) : y.destination.AtMost size := by
  cases hd : y.destination
  case file => trivial
  case udp connection =>
    have := h.limit connection hd
    simp only [Destination.AtMost, this, Destination.defaultMaxPacketSize]
    omega

theorem Fits.setProfile (h : y.Fits) (hp : p.call.isSome = true → y.destination.AtMost p.length) :
    (y.setProfile i p).Fits := by
  refine ⟨h.limit, fun q hq hc => ?_⟩
  obtain hq | rfl := List.mem_or_eq_of_mem_set hq
  case inl => exact h.length q hq hc
  case inr => exact hp hc

theorem Fits.step (h : y.Fits) (hi : y.Inv F) (ha : y.Fitting a) (e : (profiler F).Step y a y') :
    y'.Fits := by
  replace e := effect e
  cases e
  case data i a p p' ha' hp e =>
    have hs := Profile.same (hi.serializeNext_le hp) ha' e
    refine h.setProfile fun hc => ?_
    rw [Profile.length, hs.call]
    exact h.length p (List.mem_of_getElem? hp) (hs.call ▸ hc)
  case gatherNSend => exact ⟨h.limit, h.length⟩
  case gather i p p' hn hp e =>
    have hfits : (y.setProfile i p').Fits := h.setProfile fun _ => by
      cases Profile.effect (hi.serializeNext_le hp) e
      exact h.atMost <| ProfileData.length_header_le.trans (by decide)
    exact ⟨hfits.limit, hfits.length⟩
  case record i _ _ p p' hn hp e =>
    have hinv := Profile.inv (hi.profiles p (List.mem_of_getElem? hp))
    have hfits : (y.setProfile i p').Fits := h.setProfile fun _ => by
      rw [Profile.length_record hinv (Profile.effect (hi.serializeNext_le hp) e)]
      have hall := (Option.all_eq_true ..).mp ha p (current?_eq_some.mpr ⟨i, hn, hp⟩)
      exact of_decide_eq_true hall
    exact ⟨hfits.limit, hfits.length⟩
  case send i p p' hn hp e ha =>
    have hfits : (y.setProfile i p').Fits := h.setProfile fun hc => by
      cases Profile.effect (hi.serializeNext_le hp) e
      contradiction
    exact ⟨hfits.limit, hfits.length⟩

theorem fits (h : (profiler F).Reachable Fitting y) : y.Fits := by
  refine h.induction (fun y hy => ?_) fun y _ _ hr hy ha e => hy.step (inv hr) ha e
  have hi : Init F y := hy
  refine ⟨hi.maxPacketSize, fun p hp hc => ?_⟩
  obtain ⟨_, _, _, _, _, rfl⟩ := hi.profileData p hp
  contradiction

theorem error_of_bind_pure {α β : Type} {x : Except ProfileFault α} {g : α → β}
    (h : (x >>= fun a => pure (g a)) = .error f) : x = .error f := by
  obtain h | ⟨_, _, h⟩ := bind_eq_error.mp h
  case inl => exact h
  case inr => contradiction

-- Where a step fails.
theorem exec_eq_error (hg : y.Guard a) (he : y.exec F a = .error f) :
    (a = .gatherNSend ∧ f = .busy) ∨
    (∃ (i : Nat) (p : Profile D) (b : ProfileAction D), y.profileData[i]? = some p ∧ p.Guard b ∧
      p.exec F b = .error f ∧ ∀ size, b = .gather size → a = .gather ∧ size = y.bufferSize) ∨
    a = .send ∧ f = .sendSize ∧
      ∃ p, y.current? = some p ∧ p.Guard .finish ∧ ¬y.destination.Admits p.length := by
  cases a
  case data i a =>
    obtain ⟨ha, hg⟩ := hg
    obtain ⟨p, hp, hg⟩ := (Option.any_eq_true ..).mp hg
    rw [exec, act_eq hp] at he
    refine .inr <| .inl ⟨i, p, a, hp, of_decide_eq_true hg, error_of_bind_pure he, ?_⟩
    rintro size rfl
    contradiction
  case gatherNSend =>
    rw [exec, ensure] at he
    split at he
    case isTrue  => contradiction
    case isFalse => exact .inl ⟨rfl, (Except.error.inj he).symm⟩
  case gather =>
    obtain ⟨i, p, hi, hp, hg⟩ := exists_current hg
    simp only [exec, hi, act_eq hp, bind_assoc, pure_bind] at he
    refine .inr <| .inl ⟨i, p, _, hp, hg, error_of_bind_pure he, ?_⟩
    rintro size ⟨⟩
    exact ⟨rfl, rfl⟩
  case record t t' =>
    obtain ⟨i, p, hi, hp, hg⟩ := exists_current hg
    simp only [exec, hi, act_eq hp, bind_assoc, pure_bind] at he
    exact .inr <| .inl ⟨i, p, _, hp, hg, error_of_bind_pure he, by simp⟩
  case send =>
    obtain ⟨i, p, hi, hat, hg⟩ := exists_current hg
    have hp : y.current? = some p := current?_eq_some.mpr ⟨i, hi, hat⟩
    simp only [exec, hi, hp, act_eq hat, bind_assoc, pure_bind] at he
    obtain he | ⟨_, _, he⟩ := bind_eq_error.mp he
    case inl => exact .inr <| .inl ⟨i, p, _, hat, hg, he, by simp⟩
    case inr =>
      rw [ensure] at he
      split at he
      case isTrue  => contradiction
      case isFalse hn =>
        exact .inr <| .inr ⟨rfl, (Except.error.inj he).symm, p, hp, hg, hn⟩

-- The thread that has called `GatherNSend` always has a next step.
theorem Inv.exists_own (h : y.Inv F) (hn : y.nextProfileData.isSome = true) :
    ∃ a, a.isOwn = true ∧ (profiler F).Guard y a := by
  obtain ⟨i, hi⟩ := Option.isSome_iff_exists.mp hn
  obtain ⟨p, hp⟩ : ∃ p, y.profileData[i]? = some p := ⟨_, List.getElem?_eq_getElem (h.next i hi)⟩
  have hguard : ∀ b, p.Guard b → (y.current?.any fun p => decide (p.Guard b)) = true := fun b hb =>
    (Option.any_eq_true ..).mpr ⟨p, current?_eq_some.mpr ⟨i, hi, hp⟩, decide_eq_true hb⟩
  cases hc : p.call
  case none => exact ⟨.gather, rfl, hguard _ hc⟩
  case some call =>
    cases hgo : p.data.goesOn call.1 call.2
    case true =>
      refine ⟨.record p.now p.now, rfl, hguard _ ⟨le_rfl, le_rfl, ?_⟩⟩
      simp [hc, hgo]
    case false =>
      refine ⟨.send, rfl, hguard _ ?_⟩
      simp [Profile.Guard, hc, hgo]

-- A record always fits if the buffer is as big as `GatherNSerialize` needs it and no bigger than what
-- `Send` admits.
theorem fitting_of_bufferSize (h : (profiler F).Reachable ok y) (hl : y.Fits) (hsize : 128 ≤ y.bufferSize)
    (hlimit : y.bufferSize ≤ 508) (hg : (profiler F).Guard y a) : y.Fitting a := by
  cases a
  case data | gatherNSend | send => trivial
  case gather => exact hsize
  case record t t' =>
    obtain ⟨i, p, hi, hat, hg⟩ := exists_current hg
    have hp : y.current? = some p := current?_eq_some.mpr ⟨i, hi, hat⟩
    obtain ⟨size, buffer, hc, hgo⟩ := hg.record
    refine (Option.all_eq_true ..).mpr fun q hq => decide_eq_true <| hl.atMost ?_
    obtain rfl := Option.some.inj <| hp.symm.trans hq
    obtain rfl := ((inv h).called i p size buffer hat hc).2.1
    exact (Profile.lengthAfter_le hc hgo).trans hlimit

-- Nothing else is left out: the call fails if the buffer is too small for it, and a record that does not
-- fit leaves a buffer that `Send` does not admit.
theorem not_admits_of_not_fitting (h : (profiler F).Reachable ok y) (hn : ¬y.Fitting a)
    (e : (profiler F).Step y a y') :
    ∃ p, y'.current? = some p ∧ ¬y'.destination.Admits p.length := by
  have hi := inv h
  replace e := effect e
  cases e
  case data | gatherNSend | send => exact absurd trivial hn
  case gather hp e =>
    cases Profile.effect (hi.serializeNext_le hp) e
    case gather hsize => exact absurd hsize hn
  case record i _ _ p p' hnext hp e =>
    have hlt := (List.getElem?_eq_some_iff.mp hp).1
    have hcurrent : y.current? = some p := current?_eq_some.mpr ⟨i, hnext, hp⟩
    have hinv := Profile.inv (hi.profiles p (List.mem_of_getElem? hp))
    have hlength := Profile.length_record hinv (Profile.effect (hi.serializeNext_le hp) e)
    refine ⟨p', current?_eq_some.mpr ⟨i, hnext, List.getElem?_set_self hlt⟩, fun ha => hn ?_⟩
    have hmost : y.destination.AtMost p'.length := (Destination.admits_iff.mp ha).2
    simpa [Fitting, hcurrent, ← hlength] using hmost

end ProfilerImpl

-- If the buffer is big enough to call `GatherNSerialize` and is not filled with more than `Send` admits,
-- nothing that is asserted of it fails. `GatherNSend` comes to its end whatever else is done to the
-- data, and every iteration of its inner loop goes through an aggregate if there is one.
theorem gathers_of_fitting {D : Type} {F : Double D} {y : ProfilerImpl D}
    (h : (profiler F).Reachable ProfilerImpl.Fitting y) :
    (∀ a f, (profiler F).Guard y a → y.Fitting a → (profiler F).exec y a = .error f →
      f ≠ .safetyLimit ∧ f ≠ .overrun ∧ f ≠ .sendSize) ∧
    (∀ as y', (profiler F).Run (fun _ _ => True) y as y' → .gatherNSend ∉ as →
      as.countP (·.isOwn) ≤ y.remaining) ∧
    (y.nextProfileData.isSome = true → ∃ a, a.isOwn = true ∧ (profiler F).Guard y a) ∧
    ((profiler F).Guard y .send →
      0 < y.consumed ∨ ∀ p, y.current? = some p → p.data.aggregates = []) := by
  have hi := ProfilerImpl.inv h
  refine ⟨fun a f hg ha he => ?_, fun as y' r has => ?_, hi.exists_own, fun hg => ?_⟩
  · obtain ⟨_, rfl⟩ | ⟨i, p, b, hp, hb, he, hgather⟩ | ⟨_, _, p, hp, hfinish, hn⟩ :=
      ProfilerImpl.exec_eq_error hg he
    case inl => simp
    case inr.inl =>
      have hsize : ∀ size, b = .gather size → 128 ≤ size := fun size hb => by
        obtain ⟨rfl, rfl⟩ := hgather size hb
        exact ha
      obtain rfl | rfl := Profile.exec_eq_error (hi.serializeNext_le hp) hb hsize he <;> simp
    case inr.inr =>
      obtain ⟨i, _, hp⟩ := ProfilerImpl.current?_eq_some.mp hp
      have hmem := List.mem_of_getElem? hp
      have hc : p.call.isSome = true := by
        obtain ⟨_, _, hc, _⟩ := hfinish.finish
        simp [hc]
      refine absurd (Destination.admits_iff.mpr ⟨?_, (ProfilerImpl.fits h).length p hmem hc⟩) hn
      exact Profile.length_pos (Profile.inv <| hi.profiles p hmem) hc
  · refine r.countP_le (P := ProfilerImpl.Inv F) (m := ProfilerImpl.remaining)
      (fun _ _ _ hy e => hy.step e.2) (fun s a s' ha hy e => hy.remaining_step ?_ e.2) hi
    exact fun hne => has (hne ▸ ha)
  · obtain ⟨i, p, hnext, hat, hg⟩ := ProfilerImpl.exists_current hg
    have hp : y.current? = some p := ProfilerImpl.current?_eq_some.mpr ⟨i, hnext, hat⟩
    refine (hi.consumed_pos hat hg).imp_right fun hnil q hq => ?_
    obtain rfl := Option.some.inj <| hp.symm.trans hq
    exact hnil

-- The data of channels that are sent to another computer.
def udpProfiler (bufferSize : Nat) (profileData : List (Profile ℚ)) : ProfilerImpl ℚ where
  destination     := .udp ⟨3, 508, some .receiver, false⟩
  bufferSize
  profileData
  nextProfileData := none
  consumed        := 0

theorem udpProfiler_init {bufferSize : Nat} {profileData : List (Profile ℚ)} (hsize : 64 ≤ bufferSize)
    (h : ∀ p ∈ profileData, (profile rationals).Init p) :
    (profiler rationals).Init (udpProfiler bufferSize profileData) where
  profileData       := h
  bufferSize        := ⟨bufferSize, (if_neg (by omega)).symm⟩
  accepts           := Int.ofNat_le.mpr hsize
  maxPacketSize _ h := by
    cases h
    rfl
  nextProfileData   := rfl

-- The data of a channel with the given number of types of events.
def dataOf (types : Nat) : Profile ℚ where
  data    := .new rationals (nameAt 0) (nameAt 1) ((List.range types).map fun i => nameAt (i + 1)) 5
  now     := 5
  call    := none
  buffers := []
  events  := []

theorem dataOf_init (types : Nat) : (profile rationals).Init (dataOf types) := by
  refine ⟨_, _, _, _, ?_, rfl⟩
  rw [List.map_map]
  exact List.nodup_range.map fun i j h => by simpa [nameAt] using h

theorem gathers_of_fitting_gather :
    ∃ y, (profiler rationals).Reachable ProfilerImpl.Fitting y ∧ y.consumed = 1 ∧
      (profiler rationals).Guard y .send ∧
      ∀ f, (profiler rationals).exec y .send = .error f → f ≠ .sendSize := by
  obtain ⟨y, hr, hc, hg⟩ := Machine.exists_reachable_of_replay (M := profiler rationals)
    (s := udpProfiler 508 [dataOf 1]) ProfilerImpl.Fitting
    [.data 0 (.log (nameAt 1) 3), .gatherNSend, .gather, .record 6 7]
    (P := fun y => y.consumed = 1 ∧ (profiler rationals).Guard y .send)
    (udpProfiler_init (by decide) <| by simpa using dataOf_init 1) (by decide +kernel)
  exact ⟨y, hr, hc, hg, fun f he => ((gathers_of_fitting hr).1 .send f hg trivial he).2.2⟩

-- Fourteen types of events are logged and written to one buffer.
def flood : List (ProfilerAction ℚ) :=
  (List.range 14).map (fun i => .data 0 (.log (nameAt (i + 1)) 3)) ++
    [.gatherNSend, .gather] ++ .replicate 14 (.record 7 7)

-- A buffer of 64 bytes is accepted, but too small for `GatherNSerialize`. A buffer of 4096 bytes is
-- filled with more than `Send` admits.
theorem accepted_buffers_fail :
    (∃ y, (profiler rationals).Reachable (fun _ _ => True) y ∧ y.bufferSize = 64 ∧
      (profiler rationals).Guard y .gather ∧
      (profiler rationals).fault? y .gather = some .safetyLimit) ∧
    ∃ y, (profiler rationals).Reachable (fun _ _ => True) y ∧ y.bufferSize = 4096 ∧
      (profiler rationals).Guard y .send ∧ (profiler rationals).fault? y .send = some .sendSize := by
  refine ⟨?_, ?_⟩
  · exact Machine.exists_reachable_of_replay (M := profiler rationals)
      (s := udpProfiler 64 [dataOf 1]) (fun _ _ => True) [.gatherNSend]
      (P := fun y => y.bufferSize = 64 ∧ (profiler rationals).Guard y .gather ∧
        (profiler rationals).fault? y .gather = some .safetyLimit)
      (udpProfiler_init (by decide) <| by simpa using dataOf_init 1) (by decide +kernel)
  · exact Machine.exists_reachable_of_replay (M := profiler rationals)
      (s := udpProfiler 4096 [dataOf 14]) (fun _ _ => True)
      flood
      (P := fun y => y.bufferSize = 4096 ∧ (profiler rationals).Guard y .send ∧
        (profiler rationals).fault? y .send = some .sendSize)
      (udpProfiler_init (by decide) <| by simpa using dataOf_init 14) (by decide +kernel)

end PipeRT
