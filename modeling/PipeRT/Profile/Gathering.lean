import PipeRT.Profile.Impl
import PipeRT.Profile.Invariant

namespace PipeRT

namespace Profile

variable {D : Type} {F : Double D} {p p' : Profile D} {a : ProfileAction D}

-- What the other threads leave alone.
structure Same (p p' : Profile D) : Prop where
  call          : p'.call = p.call
  serializeNext : p'.data.serializeNext = p.data.serializeNext
  length        : p'.data.aggregates.length = p.data.aggregates.length

theorem Same.atEnd (h : Same p p') : p'.data.atEnd = p.data.atEnd := by
  rw [ProfileData.atEnd, h.serializeNext, h.length, ProfileData.atEnd]

theorem Same.goesOn {size : Nat} {buffer : Buffer D} (h : Same p p') :
    p'.data.goesOn size buffer = p.data.goesOn size buffer := by
  rw [ProfileData.goesOn, h.atEnd, ProfileData.goesOn]

theorem same (hn : p.data.serializeNext ≤ p.data.aggregates.length) (ha : a.isOther = true)
    (e : (profile F).Step p a p') : Same p p' := by
  cases effect hn e
  case tick | trackSender => exact ⟨rfl, rfl, rfl⟩
  case log                => exact ⟨rfl, rfl, by simp [ProfileData.logged]⟩
  all_goals contradiction

-- How many aggregates are left of a pass. A pass that is over begins anew.
def remaining (p : Profile D) : Nat :=
  if p.call.isNone && p.data.atEnd then
    p.data.aggregates.length
  else
    p.data.aggregates.length - p.data.serializeNext

theorem remaining_le : p.remaining ≤ p.data.aggregates.length := by
  rw [remaining]
  split
  case isTrue  => exact le_rfl
  case isFalse => exact Nat.sub_le ..

theorem Same.remaining (h : Same p p') : p'.remaining = p.remaining := by
  rw [Profile.remaining, h.call, h.atEnd, h.length, h.serializeNext, Profile.remaining]

section Remaining

variable {size : Nat} {t t' : Time}

theorem Effect.gather_remaining (e : Effect F p (.gather size) p') :
    p.call.isNone = true ∧ p'.call.isNone = false ∧ p'.remaining = p.remaining := by
  cases e
  case gather hc _ =>
    refine ⟨by simp [hc], rfl, ?_⟩
    by_cases hend : p.data.serializeNext = p.data.aggregates.length
    case pos => simp [remaining, hc, ProfileData.begun, ProfileData.atEnd, hend]
    case neg => simp [remaining, hc, ProfileData.begun, ProfileData.atEnd, hend]

theorem Effect.record_remaining (e : Effect F p (.record t t') p') :
    p.call.isNone = false ∧ p'.call.isNone = false ∧ p'.remaining + 1 = p.remaining := by
  cases e
  case record hc _ hat _ _ _ =>
    have hlt := (List.getElem?_eq_some_iff.mp hat).1
    refine ⟨by simp [hc], rfl, ?_⟩
    simp only [remaining, hc, ProfileData.advanced, List.length_set, Option.isNone_some,
      Bool.false_and, Bool.false_eq_true, if_false]
    omega

theorem Effect.finish_remaining (e : Effect F p .finish p') (hend : p.data.atEnd = false) :
    p.call.isNone = false ∧ p'.call.isNone = true ∧ p'.remaining = p.remaining := by
  cases e
  case finish hc _ => exact ⟨by simp [hc], rfl, by simp [remaining, hc, hend]⟩

end Remaining
end Profile

namespace ProfilerImpl

variable {D : Type} {F : Double D} {y y' : ProfilerImpl D} {a : ProfilerAction D}

def setProfile (y : ProfilerImpl D) (i : Nat) (p : Profile D) : ProfilerImpl D :=
  { y with profileData := y.profileData.set i p }

-- What a step that does not fail does.
inductive Effect (F : Double D) (y : ProfilerImpl D) : ProfilerAction D → ProfilerImpl D → Prop
  | data {i a p p'} : a.isOther = true → y.profileData[i]? = some p → (profile F).Step p a p' →
    Effect F y (.data i a) (y.setProfile i p')
  | gatherNSend : y.nextProfileData = none → Effect F y .gatherNSend (y.proceed 0)
  | gather {i p p'} : y.nextProfileData = some i → y.profileData[i]? = some p →
    (profile F).Step p (.gather y.bufferSize) p' →
    Effect F y .gather { y.setProfile i p' with consumed := 0 }
  | record {i t t' p p'} : y.nextProfileData = some i → y.profileData[i]? = some p →
    (profile F).Step p (.record t t') p' →
    Effect F y (.record t t') { y.setProfile i p' with consumed := y.consumed + 1 }
  | send {i p p'} : y.nextProfileData = some i → y.profileData[i]? = some p →
    (profile F).Step p .finish p' → y.destination.Admits (returned p).1 →
    Effect F y .send ((y.setProfile i p').proceed (if (returned p).2 then i else i + 1))

variable {i : Nat} {p p' : Profile D}

theorem current?_eq_some : y.current? = some p ↔
    ∃ i, y.nextProfileData = some i ∧ y.profileData[i]? = some p :=
  Option.bind_eq_some_iff

-- What the thread that has called `GatherNSend` is at.
theorem exists_current {b : ProfileAction D} (h : (y.current?.any fun p => decide (p.Guard b)) = true) :
    ∃ i p, y.nextProfileData = some i ∧ y.profileData[i]? = some p ∧ p.Guard b := by
  obtain ⟨p, hp, hg⟩ := (Option.any_eq_true ..).mp h
  obtain ⟨i, hi, hp⟩ := current?_eq_some.mp hp
  exact ⟨i, p, hi, hp, of_decide_eq_true hg⟩

theorem act_eq {a : ProfileAction D} (hp : y.profileData[i]? = some p) :
    y.act F i a = do
      let p' ← p.exec F a
      return y.setProfile i p' := by
  rw [act, hp]
  rfl

theorem effect (e : (profiler F).Step y a y') : Effect F y a y' := by
  have hg : y.Guard a := e.guard
  have he : y.exec F a = .ok y' := e.exec
  cases a
  case data i a =>
    obtain ⟨ha, hg⟩ := hg
    obtain ⟨p, hp, hg⟩ := (Option.any_eq_true ..).mp hg
    rw [exec, act_eq hp] at he
    obtain ⟨p', hp', he⟩ := bind_eq_ok.mp he
    obtain rfl := Except.ok.inj he
    exact .data ha hp ⟨of_decide_eq_true hg, hp'⟩
  case gatherNSend =>
    obtain ⟨_, hn, he⟩ := bind_eq_ok.mp he
    obtain rfl := Except.ok.inj he
    exact .gatherNSend (of_ensure hn)
  case gather =>
    obtain ⟨i, p, hi, hp, hg⟩ := exists_current hg
    simp only [exec, hi, act_eq hp, bind_assoc] at he
    obtain ⟨p', hp', he⟩ := bind_eq_ok.mp he
    obtain rfl := Except.ok.inj he
    exact .gather hi hp ⟨hg, hp'⟩
  case record t t' =>
    obtain ⟨i, p, hi, hp, hg⟩ := exists_current hg
    simp only [exec, hi, act_eq hp, bind_assoc] at he
    obtain ⟨p', hp', he⟩ := bind_eq_ok.mp he
    obtain rfl := Except.ok.inj he
    exact .record hi hp ⟨hg, hp'⟩
  case send =>
    obtain ⟨i, p, hi, hat, hg⟩ := exists_current hg
    have hp : y.current? = some p := current?_eq_some.mpr ⟨i, hi, hat⟩
    simp only [exec, hi, hp, act_eq hat, bind_assoc, pure_bind] at he
    obtain ⟨p', hp', he⟩ := bind_eq_ok.mp he
    obtain ⟨_, ha, he⟩ := bind_eq_ok.mp he
    obtain rfl := Except.ok.inj he
    exact .send hi hat ⟨hg, hp'⟩ (of_ensure ha)

theorem setProfile_getElem? {j : Nat} {q : Profile D} (hp : y.profileData[i]? = some p)
    (hq : (y.setProfile i p').profileData[j]? = some q) :
    (j = i ∧ q = p') ∨ (j ≠ i ∧ y.profileData[j]? = some q) := by
  have hlt := (List.getElem?_eq_some_iff.mp hp).1
  rw [setProfile, List.getElem?_set, if_pos hlt] at hq
  split at hq
  case isTrue hji =>
    exact .inl ⟨hji.symm, (Option.some.inj hq).symm⟩
  case isFalse hji => exact .inr ⟨Ne.symm hji, hq⟩

-- `GatherNSerialize` is only under way for the data that the outer loop is at. It goes through its loop
-- at least once, unless there is nothing to go through.
structure Inv (F : Double D) (y : ProfilerImpl D) : Prop where
  profiles : ∀ p ∈ y.profileData, (profile F).Reachable (fun _ _ => True) p
  next     : ∀ i, y.nextProfileData = some i → i < y.profileData.length
  called   : ∀ i p size buffer, y.profileData[i]? = some p → p.call = some (size, buffer) →
             y.nextProfileData = some i ∧ size = y.bufferSize ∧
             (y.consumed = 0 → p.data.goesOn size buffer = true ∨ p.data.aggregates = [])

namespace Inv

theorem init (h : (profiler F).Init y) : y.Inv F := by
  have hi : Init F y := h
  refine ⟨fun p hp => ⟨p, [], hi.profileData p hp, .refl⟩, fun i hn => ?_, fun i p size buffer hp hc => ?_⟩
  · simp [hi.nextProfileData] at hn
  · obtain ⟨_, _, _, _, _, rfl⟩ := hi.profileData p (List.mem_of_getElem? hp)
    simp at hc

-- The data themselves only take steps of their own.
theorem setProfile {a : ProfileAction D} (h : y.Inv F) (hp : y.profileData[i]? = some p)
    (e : (profile F).Step p a p') :
    ∀ q ∈ (y.setProfile i p').profileData, (profile F).Reachable (fun _ _ => True) q := by
  intro q hq
  obtain hq | rfl := List.mem_or_eq_of_mem_set hq
  case inl => exact h.profiles q hq
  case inr => exact (h.profiles p (List.mem_of_getElem? hp)).step trivial e

theorem serializeNext_le (h : y.Inv F) (hp : y.profileData[i]? = some p) :
    p.data.serializeNext ≤ p.data.aggregates.length :=
  (Profile.inv (h.profiles p (List.mem_of_getElem? hp))).next

-- Nobody else is called.
theorem call_eq_none {j : Nat} {q : Profile D} (h : y.Inv F) (hn : y.nextProfileData ≠ some j)
    (hq : y.profileData[j]? = some q) : q.call = none := by
  cases hc : q.call
  case none => rfl
  case some c => exact absurd (h.called j q c.1 c.2 hq hc).1 hn

theorem proceed (h : y.Inv F) (hc : ∀ p ∈ y.profileData, p.call = none) : (y.proceed i).Inv F := by
  refine ⟨h.profiles, fun j hj => ?_, fun j p size buffer hp hcall => ?_⟩
  · rw [ProfilerImpl.proceed] at hj
    split at hj
    case isTrue hlt => exact Option.some.inj hj ▸ hlt
    case isFalse    => contradiction
  · rw [hc p (List.mem_of_getElem? hp)] at hcall
    contradiction

theorem step (h : y.Inv F) (e : (profiler F).Step y a y') : y'.Inv F := by
  replace e := effect e
  cases e
  case data i a p p' ha hp e =>
    have hs := Profile.same (h.serializeNext_le hp) ha e
    refine ⟨h.setProfile hp e, fun j hj => ?_, fun j q size buffer hq hc => ?_⟩
    · simpa [ProfilerImpl.setProfile] using h.next j hj
    · obtain ⟨rfl, rfl⟩ | ⟨_, hq⟩ := setProfile_getElem? hp hq
      case inl =>
        have hcalled := h.called j p size buffer hp (hs.call ▸ hc)
        rw [← hs.goesOn, ← List.length_eq_zero_iff, ← hs.length, List.length_eq_zero_iff] at hcalled
        exact hcalled
      case inr => exact h.called j q size buffer hq hc
  case gatherNSend hn =>
    refine h.proceed fun p hp => ?_
    obtain ⟨j, hj⟩ := List.getElem?_of_mem hp
    exact h.call_eq_none (by simp [hn]) hj
  case gather i p p' hi hp e =>
    refine ⟨h.setProfile hp e, fun j hj => ?_, fun j q size buffer hq hc => ?_⟩
    · simpa [ProfilerImpl.setProfile] using h.next j hj
    · obtain ⟨rfl, rfl⟩ | ⟨hne, hq⟩ := setProfile_getElem? hp hq
      case inl =>
        cases Profile.effect (h.serializeNext_le hp) e
        case gather _ hsize =>
          obtain ⟨rfl, rfl⟩ := Prod.mk.inj <| Option.some.inj hc
          exact ⟨hi, rfl, fun _ => ProfileData.begun_goesOn hsize⟩
      case inr =>
        rw [h.call_eq_none (by simpa [hi] using hne.symm) hq] at hc
        contradiction
  case record i _ _ p p' hi hp e =>
    refine ⟨h.setProfile hp e, fun j hj => ?_, fun j q size buffer hq hc => ?_⟩
    · simpa [ProfilerImpl.setProfile] using h.next j hj
    · obtain ⟨rfl, rfl⟩ | ⟨hne, hq⟩ := setProfile_getElem? hp hq
      case inl =>
        replace e := Profile.effect (h.serializeNext_le hp) e
        cases e
        case record hcall _ _ _ _ _ =>
          obtain ⟨rfl, rfl⟩ := Prod.mk.inj <| Option.some.inj hc
          exact ⟨hi, (h.called _ p _ _ hp hcall).2.1, nofun⟩
      case inr =>
        rw [h.call_eq_none (by simpa [hi] using hne.symm) hq] at hc
        contradiction
  case send i p p' hi hp e ha =>
    have hnone : p'.call = none := by
      cases Profile.effect (h.serializeNext_le hp) e
      rfl
    have hall : ∀ q ∈ (y.setProfile i p').profileData, q.call = none := by
      intro q hq
      obtain ⟨j, hj⟩ := List.getElem?_of_mem hq
      obtain ⟨rfl, rfl⟩ | ⟨hne, hq⟩ := setProfile_getElem? hp hj
      case inl => exact hnone
      case inr => exact h.call_eq_none (by simpa [hi] using hne.symm) hq
    refine Inv.proceed ⟨h.setProfile hp e, fun j hj => ?_, fun j q size buffer hq hc => ?_⟩ hall
    · simpa [ProfilerImpl.setProfile] using h.next j hj
    · rw [hall q (List.mem_of_getElem? hq)] at hc
      contradiction

-- Every iteration of the inner loop goes through one aggregate at least.
theorem consumed_pos (h : y.Inv F) (hp : y.profileData[i]? = some p) (hg : p.Guard .finish) :
    0 < y.consumed ∨ p.data.aggregates = [] := by
  obtain ⟨size, buffer, hc, hgo⟩ := hg.finish
  obtain hz | hpos := Nat.eq_zero_or_pos y.consumed
  case inr => exact .inl hpos
  case inl =>
    obtain hgo' | hnil := (h.called i p size buffer hp hc).2.2 hz
    case inl => simp [hgo'] at hgo
    case inr => exact .inr hnil

theorem consumed_ne_zero (h : y.Inv F) (hp : y.profileData[i]? = some p) (hg : p.Guard .finish)
    (hend : p.data.atEnd = false) : y.consumed ≠ 0 := by
  obtain hpos | hnil := h.consumed_pos hp hg
  case inl => exact hpos.ne'
  case inr =>
    have hn := h.serializeNext_le hp
    simp only [hnil, List.length_nil, ProfileData.atEnd, beq_eq_false_iff_ne] at hn hend
    omega

end Inv

section Termination

-- How many steps of its own a pass takes through one of the data, at most.
def toDo (consumed : Nat) (p : Profile D) : Nat :=
  if p.call.isNone then
    3 * p.remaining + 2
  else if consumed = 0 then
    3 * p.remaining + 1
  else
    3 * p.remaining + 3

theorem toDo_pos {consumed : Nat} : 0 < toDo consumed p := by
  rw [toDo]
  split <;> (try split) <;> omega

theorem toDo_le {consumed : Nat} : toDo consumed p ≤ 3 * p.data.aggregates.length + 3 := by
  have := p.remaining_le
  rw [toDo]
  split <;> (try split) <;> omega

-- The same if nothing of the pass is done yet.
def most (p : Profile D) : Nat :=
  3 * p.data.aggregates.length + 3

-- How many steps `GatherNSend` takes until it returns, at most.
def remaining (y : ProfilerImpl D) : Nat :=
  y.nextProfileData.elim 0 fun i =>
    (y.profileData.map (toDo y.consumed))[i]?.getD 0 + ((y.profileData.map most).drop (i + 1)).sum

theorem remaining_eq (hi : y.nextProfileData = some i) (hp : y.profileData[i]? = some p) :
    y.remaining = toDo y.consumed p + ((y.profileData.map most).drop (i + 1)).sum := by
  simp [remaining, hi, hp]

theorem map_set_eq {M : Type} {f : Profile D → M} (hp : y.profileData[i]? = some p) (hf : f p' = f p) :
    (y.profileData.set i p').map f = y.profileData.map f := by
  obtain ⟨hlt, rfl⟩ := List.getElem?_eq_some_iff.mp hp
  rw [List.map_set, hf, ← List.map_set, List.set_getElem_self]

theorem remaining_setProfile_other (hp : y.profileData[i]? = some p) (hs : Profile.Same p p') :
    (y.setProfile i p').remaining = y.remaining := by
  have htoDo : toDo y.consumed p' = toDo y.consumed p := by
    rw [toDo, hs.call, hs.remaining, toDo]
  have hmost : most p' = most p := by
    rw [most, hs.length, most]
  simp only [remaining, setProfile, map_set_eq hp htoDo, map_set_eq hp hmost]

-- A step of the pass through the current data.
theorem remaining_setProfile_own {consumed : Nat} (hi : y.nextProfileData = some i)
    (hp : y.profileData[i]? = some p) (h : toDo consumed p' < toDo y.consumed p) :
    ProfilerImpl.remaining { y.setProfile i p' with consumed } + 1 ≤ y.remaining := by
  have hlt := (List.getElem?_eq_some_iff.mp hp).1
  have hat : (y.profileData.set i p')[i]? = some p' := List.getElem?_set_self hlt
  have hdrop : ((y.profileData.set i p').map most).drop (i + 1) =
      (y.profileData.map most).drop (i + 1) := by
    rw [List.map_set, List.drop_set_of_lt (Nat.lt_succ_self i)]
  have hnew : ProfilerImpl.remaining { y.setProfile i p' with consumed } =
      toDo consumed p' + ((y.profileData.map most).drop (i + 1)).sum :=
    hdrop ▸ remaining_eq (y := { y.setProfile i p' with consumed }) hi hat
  rw [hnew, remaining_eq hi hp]
  omega

-- The outer loop goes on to the next data.
theorem remaining_proceed (hi : y.nextProfileData = some i) (hp : y.profileData[i]? = some p) :
    ((y.setProfile i p').proceed (i + 1)).remaining + 1 ≤ y.remaining := by
  rw [remaining_eq hi hp]
  have hpos : 0 < toDo y.consumed p := toDo_pos
  suffices h : ((y.setProfile i p').proceed (i + 1)).remaining ≤
      ((y.profileData.map most).drop (i + 1)).sum by omega
  by_cases hlt : i + 1 < y.profileData.length
  case neg =>
    have hn : ((y.setProfile i p').proceed (i + 1)).nextProfileData = none :=
      if_neg <| by simpa [setProfile] using hlt
    simp [remaining, hn]
  case pos =>
    have hn : ((y.setProfile i p').proceed (i + 1)).nextProfileData = some (i + 1) :=
      if_pos <| by simpa [setProfile] using hlt
    have hq : ((y.setProfile i p').proceed (i + 1)).profileData[i + 1]? = some y.profileData[i + 1] := by
      change (y.profileData.set i p')[i + 1]? = _
      rw [List.getElem?_set_ne (Nat.succ_ne_self i).symm, List.getElem?_eq_getElem hlt]
    have hdrop : ((y.profileData.set i p').map most).drop (i + 1 + 1) =
        (y.profileData.map most).drop (i + 1 + 1) := by
      rw [List.map_set, List.drop_set_of_lt (by omega)]
    have hsplit : (y.profileData.map most).drop (i + 1) =
        most y.profileData[i + 1] :: (y.profileData.map most).drop (i + 1 + 1) := by
      rw [List.drop_eq_getElem_cons (by simpa using hlt), List.getElem_map]
    rw [remaining_eq hn hq, hsplit, List.sum_cons]
    change _ + (((y.profileData.set i p').map most).drop (i + 1 + 1)).sum ≤ _
    rw [hdrop]
    exact Nat.add_le_add_right toDo_le _

-- The other threads do not keep `GatherNSend` from coming to its end.
theorem Inv.remaining_step (h : y.Inv F) (ha : a ≠ .gatherNSend) (e : (profiler F).Step y a y') :
    y'.remaining + (if a.isOwn then 1 else 0) ≤ y.remaining := by
  replace e := effect e
  cases e
  case data i a p p' ha' hp e =>
    exact (remaining_setProfile_other hp <| Profile.same (h.serializeNext_le hp) ha' e).le
  case gatherNSend => contradiction
  case gather i p p' hi hp e =>
    have ⟨hc, hc', hrem⟩ := (Profile.effect (h.serializeNext_le hp) e).gather_remaining
    refine remaining_setProfile_own hi hp ?_
    simp [toDo, hc, hc', hrem]
  case record i _ _ p p' hi hp e =>
    have ⟨hc, hc', hrem⟩ := (Profile.effect (h.serializeNext_le hp) e).record_remaining
    refine remaining_setProfile_own hi hp ?_
    by_cases hz : y.consumed = 0
    all_goals
      simp [toDo, hc, hc', hz]
      omega
  case send i p p' hi hp e ha =>
    have he := Profile.effect (h.serializeNext_le hp) e
    cases hend : p.data.atEnd
    case true =>
      simp only [returned, hend]
      exact remaining_proceed hi hp
    case false =>
      have ⟨hc, hc', hrem⟩ := he.finish_remaining hend
      have hlt := (List.getElem?_eq_some_iff.mp hp).1
      have hstay : (y.setProfile i p').proceed i = { y.setProfile i p' with consumed := y.consumed } := by
        simp [ProfilerImpl.proceed, ProfilerImpl.setProfile, hlt, hi]
      simp only [returned, hend, Bool.not_false, if_true, hstay]
      refine remaining_setProfile_own hi hp ?_
      have hpos : y.consumed ≠ 0 := h.consumed_ne_zero hp e.guard hend
      simp [toDo, hc, hc', hrem, hpos]

end Termination
end ProfilerImpl
end PipeRT
