import PipeRT.Profile.Collector
import PipeRT.Profile.Sending

namespace PipeRT

namespace Profile

variable {D : Type} {F : Double D} {p p' : Profile D} {a : ProfileAction D} {b : Time} {n n' : Nat}

-- The aggregates from the given one on were last cleared at that time, or before.
def ClearedBy (b : Time) (n : Nat) (p : Profile D) : Prop :=
  ∀ (k : Nat) (a : CString × LogAggregate D), n ≤ k → p.data.aggregates[k]? = some a →
    a.2.aggregationStarted ≤ b

-- The aggregate from which on a pass is still to serialize them.
def due (p : Profile D) : Nat :=
  if p.call.isNone && p.data.atEnd then 0 else p.data.serializeNext

theorem due_of_call (h : p.call.isNone = false) : p.due = p.data.serializeNext := by
  simp [due, h]

theorem due_of_not_atEnd (h : p.data.atEnd = false) : p.due = p.data.serializeNext := by
  simp [due, h]

theorem Same.due (h : Same p p') : p'.due = p.due := by
  rw [Profile.due, h.call, h.atEnd, h.serializeNext, Profile.due]

namespace ClearedBy

theorem mono (h : p.ClearedBy b n) (hn : n ≤ n') : p.ClearedBy b n' :=
  fun k a hk => h k a (hn.trans hk)

theorem now (h : p.Inv F) (hb : p.now ≤ b) : p.ClearedBy b n :=
  fun _ _ _ ha => (h.counts _ (List.mem_of_getElem? ha)).2.2.trans hb

-- The other threads do not clear anything.
theorem other (h : p.ClearedBy b n) (ha : a.isOther = true) (e : Effect F p a p') :
    p'.ClearedBy b n := by
  cases e
  case tick | trackSender => exact h
  case log =>
    intro k a hk hat
    simp only [ProfileData.logged, List.getElem?_map, Option.map_eq_some_iff] at hat
    obtain ⟨a', ha', rfl⟩ := hat
    have hstarted := h k a' hk ha'
    split
    case isTrue  => exact hstarted
    case isFalse => exact hstarted
  all_goals contradiction

theorem gather {size : Nat} (h : p.ClearedBy b p.due) (e : Effect F p (.gather size) p') :
    p'.ClearedBy b p'.due := by
  cases e
  case gather hc _ =>
    have hdue : ({ p with data := p.data.begun, call := some (size, p.data.header) } : Profile D).due =
        p.due := by
      simp [due, hc, ProfileData.begun]
    exact hdue ▸ h

-- Of the aggregates, only the one that is serialized is cleared.
theorem record {t t' : Time} (h : p.ClearedBy b p.due) (e : Effect F p (.record t t') p') :
    p'.ClearedBy b p'.due := by
  cases e
  case record hc _ _ _ _ _ =>
    intro k a hk hat
    rw [due_of_call (by simp [hc])] at h
    rw [due_of_call rfl] at hk
    have hne : p.data.serializeNext ≠ k := Nat.ne_of_lt hk
    refine h k a (Nat.le_of_succ_le hk) ?_
    simpa only [ProfileData.advanced, List.getElem?_set_ne hne] using hat

theorem finish (h : p.ClearedBy b p.due) (e : Effect F p .finish p') (hend : p.data.atEnd = false) :
    p'.ClearedBy b p'.due := by
  have hdata : p'.data = p.data := by
    cases e
    rfl
  have hend' : p'.data.atEnd = false := hdata ▸ hend
  rw [due_of_not_atEnd hend] at h
  rwa [due_of_not_atEnd hend', ClearedBy, hdata]

end ClearedBy
end Profile

namespace ProfilerImpl

variable {D : Type} {F : Double D} {y y' : ProfilerImpl D} {a : ProfilerAction D} {b : Time}

theorem proceed_eq_some {i j : Nat} (h : (y.proceed i).nextProfileData = some j) : j = i := by
  by_cases hlt : i < y.profileData.length
  case pos => simpa [proceed, hlt, eq_comm] using h
  case neg => simp [proceed, hlt] at h

def ClearedBy (b : Time) (y : ProfilerImpl D) : Prop :=
  ∀ p ∈ y.profileData, p.ClearedBy b 0

-- The same for the aggregates that the pass is still to serialize, if one is under way.
def LeftClearedBy (b : Time) (y : ProfilerImpl D) : Prop :=
  ∀ i, y.nextProfileData = some i → ∀ (j : Nat) (p : Profile D), y.profileData[j]? = some p →
    (j = i → p.ClearedBy b p.due) ∧ (i < j → p.ClearedBy b 0)

-- If nobody has called `GatherNSend`, nothing is cleared.
theorem ClearedBy.step (h : y.ClearedBy b) (hi : y.Inv F) (hn : y.nextProfileData = none)
    (ha : a ≠ .gatherNSend) (e : (profiler F).Step y a y') : y'.ClearedBy b ∧ y'.nextProfileData = none := by
  replace e := effect e
  cases e
  case gatherNSend => contradiction
  case data i a p p' ha' hp e =>
    have he := Profile.effect (hi.serializeNext_le hp) e
    refine ⟨fun q hq => ?_, hn⟩
    obtain hq | rfl := List.mem_or_eq_of_mem_set hq
    case inl => exact h q hq
    case inr => exact (h p (List.mem_of_getElem? hp)).other ha' he
  case gather hi _ _ | record hi _ _ | send hi _ _ _ =>
    rw [hn] at hi
    contradiction

theorem ClearedBy.gatherNSend (h : y.ClearedBy b) (e : (profiler F).Step y .gatherNSend y') :
    y'.LeftClearedBy b := by
  replace e := effect e
  cases e
  intro i _ j p hp
  have hcleared := h p (List.mem_of_getElem? hp)
  exact ⟨fun _ => hcleared.mono (Nat.zero_le _), fun _ => hcleared⟩

namespace LeftClearedBy

-- A step of the pass through the data that it is at.
theorem setProfile {i : Nat} {p p' : Profile D} (h : y.LeftClearedBy b) (hi : y.nextProfileData = some i)
    (hp : y.profileData[i]? = some p) (hleft : p.ClearedBy b p.due → p'.ClearedBy b p'.due) :
    (y.setProfile i p').LeftClearedBy b := by
  intro i' hi' j q hq
  obtain rfl : i = i' := Option.some.inj <| hi.symm.trans hi'
  obtain ⟨rfl, rfl⟩ | ⟨_, hq⟩ := setProfile_getElem? hp hq
  case inl =>
    have hcleared := (h j hi j p hp).1 rfl
    exact ⟨fun _ => hleft hcleared, fun hlt => absurd hlt (Nat.lt_irrefl j)⟩
  case inr => exact h i hi j q hq

theorem send {i : Nat} {p p' : Profile D} (h : y.LeftClearedBy b) (hi : y.nextProfileData = some i)
    (hp : y.profileData[i]? = some p) (e : Profile.Effect F p .finish p') :
    ((y.setProfile i p').proceed (if (returned p).2 then i else i + 1)).LeftClearedBy b := by
  intro i' hi'
  obtain rfl := proceed_eq_some hi'
  cases hend : p.data.atEnd
  case false =>
    simp only [returned, hend, Bool.not_false, if_true]
    exact h.setProfile hi hp (fun hleft => hleft.finish e hend) i hi
  case true =>
    -- The pass is through with the data, and comes to the next.
    simp only [returned, hend, Bool.not_true, Bool.false_eq_true, if_false]
    intro j q hq
    obtain ⟨rfl, _⟩ | ⟨_, hq⟩ := setProfile_getElem? hp hq
    case inl => exact ⟨fun hj => absurd hj (Nat.ne_add_one j), fun hj => absurd hj (by omega)⟩
    case inr =>
      have hcleared : i < j → q.ClearedBy b 0 := (h i hi j q hq).2
      exact ⟨fun hj => (hcleared (hj ▸ Nat.lt_add_one i)).mono (Nat.zero_le _),
        fun hj => hcleared (Nat.lt_of_succ_lt hj)⟩

theorem step (h : y.LeftClearedBy b) (hi : y.Inv F) (ha : a ≠ .gatherNSend)
    (e : (profiler F).Step y a y') : y'.LeftClearedBy b := by
  replace e := effect e
  cases e
  case gatherNSend => contradiction
  case data i a p p' ha' hp e =>
    have hs := Profile.same (hi.serializeNext_le hp) ha' e
    have he := Profile.effect (hi.serializeNext_le hp) e
    intro i' hi' j q hq
    obtain ⟨rfl, rfl⟩ | ⟨_, hq⟩ := setProfile_getElem? hp hq
    case inl =>
      have hcleared := h i' hi' j p hp
      exact ⟨fun hj => hs.due ▸ (hcleared.1 hj).other ha' he, fun hj => (hcleared.2 hj).other ha' he⟩
    case inr => exact h i' hi' j q hq
  case gather i p p' hn hp e =>
    exact h.setProfile hn hp fun hleft => hleft.gather <| Profile.effect (hi.serializeNext_le hp) e
  case record i _ _ p p' hn hp e =>
    exact h.setProfile hn hp fun hleft => hleft.record <| Profile.effect (hi.serializeNext_le hp) e
  case send i p p' hn hp e _ => exact h.send hn hp <| Profile.effect (hi.serializeNext_le hp) e

end LeftClearedBy
end ProfilerImpl

namespace Collector

variable {D : Type} {F : Double D} {y y' : Collector D} {a : CollectorAction D} {b : Time}
variable {ok : Collector D → CollectorAction D → Prop}

structure Inv (F : Double D) (y : Collector D) : Prop where
  impl   : (profiler F).Reachable (fun _ _ => True) y.impl
  clocks : ∀ p ∈ y.impl.profileData, p.now ≤ y.now

namespace Inv

theorem cleared (h : y.Inv F) : y.impl.ClearedBy y.now := by
  intro p hp
  have hinv := Profile.inv <| (ProfilerImpl.inv h.impl).profiles p hp
  exact .now hinv (h.clocks p hp)

theorem setProfile {i : Nat} {p : Profile D} {now : Time} (h : y.Inv F) (hnow : y.now ≤ now)
    (hp : p.now ≤ now) : ∀ q ∈ (y.impl.setProfile i p).profileData, q.now ≤ now := by
  intro q hq
  obtain hq | rfl := List.mem_or_eq_of_mem_set hq
  case inl => exact (h.clocks q hq).trans hnow
  case inr => exact hp

theorem profiler {a : ProfilerAction D} {impl : ProfilerImpl D} (h : y.Inv F)
    (e : ProfilerImpl.Effect F y.impl a impl) (ha : Reads y.now a) :
    ∀ p ∈ impl.profileData, p.now ≤ clock y.now a := by
  have hi := ProfilerImpl.inv h.impl
  cases e
  case gatherNSend => exact h.clocks
  case data i a p p' ha' hp e =>
    have hmem := List.mem_of_getElem? hp
    refine h.setProfile le_rfl ?_
    cases Profile.effect (hi.serializeNext_le hp) e
    case tick              => exact ha
    case log | trackSender => exact h.clocks p hmem
    all_goals contradiction
  case gather i p p' _ hp e =>
    refine h.setProfile le_rfl ?_
    cases Profile.effect (hi.serializeNext_le hp) e
    exact h.clocks p (List.mem_of_getElem? hp)
  case record i t t' p p' _ hp e =>
    have htt : t ≤ t' := e.guard.2.1
    cases Profile.effect (hi.serializeNext_le hp) e
    exact h.setProfile (le_trans ha htt) le_rfl
  case send i p p' _ hp e _ =>
    refine h.setProfile le_rfl ?_
    cases Profile.effect (hi.serializeNext_le hp) e
    exact h.clocks p (List.mem_of_getElem? hp)

theorem step (h : y.Inv F) (e : (collector F).Step y a y') : y'.Inv F := by
  replace e := effect e
  cases e
  case tick ht          => exact ⟨h.impl, fun p hp => (h.clocks p hp).trans ht⟩
  case profiler e ha    => exact ⟨h.impl.step trivial e, h.profiler (ProfilerImpl.effect e) ha⟩
  case called e         => exact ⟨h.impl.step trivial e, h.profiler (ProfilerImpl.effect e) trivial⟩
  all_goals exact ⟨h.impl, h.clocks⟩

end Inv

theorem inv (h : (collector F).Reachable ok y) : y.Inv F := by
  refine h.induction (fun y hy => ?_) fun _ _ _ _ hy _ e => hy.step e
  have hi : Init F y := hy
  exact ⟨⟨y.impl, [], hi.impl, .refl⟩, hi.clocks⟩

-- `GatherNSend` is only called by the log collector thread.
def Automatic (_ : Collector D) : CollectorAction D → Prop
  | .profiler a => a.isManual = false
  | _           => True

instance (y : Collector D) (a : CollectorAction D) : Decidable (y.Automatic a) :=
  match a with
  | .profiler _ => inferInstanceAs (Decidable (_ = false))
  | .tick _ | .start | .stop | .loop | .sleep | .wake => inferInstanceAs (Decidable True)

-- The thread has begun to sleep at that time or later, and sleeps until then.
def Slept (y : Collector D) (b wakeTime : Time) : Prop :=
  b + 1000 * y.aggregationTimeMsec ≤ wakeTime

theorem Slept.mono {u u' : Time} (h : y.Slept b u) (hu : u ≤ u') : y.Slept b u' :=
  h.trans hu

-- Nothing is cleared between two passes of the thread, nor before a pass comes to it.
structure Rested (y : Collector D) : Prop where
  automatic : y.manual = false
  idle      : (∀ slept, y.workerThread ≠ some (.gathering slept)) → y.impl.nextProfileData = none
  sleeping  : ∀ u, y.workerThread = some (.sleeping u) → ∃ b, y.impl.ClearedBy b ∧ y.Slept b u
  looping   : y.workerThread = some (.looping true) → ∃ b, y.impl.ClearedBy b ∧ y.Slept b y.now
  gathering : y.workerThread = some (.gathering true) → ∃ b, y.impl.LeftClearedBy b ∧ y.Slept b y.now

namespace Rested

theorem init (h : Init F y) : y.Rested where
  automatic   := h.manual
  idle _      := h.impl.nextProfileData
  sleeping    := by simp [h.workerThread]
  looping     := by simp [h.workerThread]
  gathering   := by simp [h.workerThread]

theorem idle_of {thread : CollectorThread} (h : y.Rested) (hthread : y.workerThread = some thread)
    (hg : thread.isGathering = false) : y.impl.nextProfileData = none := by
  refine h.idle fun slept hslept => ?_
  obtain rfl := Option.some.inj <| hthread.symm.trans hslept
  contradiction

theorem tick {t : Time} (h : y.Rested) (ht : y.now ≤ t) : Rested { y with now := t } where
  automatic := h.automatic
  idle      := h.idle
  sleeping  := h.sleeping
  looping hthread := by
    obtain ⟨b, hb, hs⟩ := h.looping hthread
    exact ⟨b, hb, hs.mono ht⟩
  gathering hthread := by
    obtain ⟨b, hb, hs⟩ := h.gathering hthread
    exact ⟨b, hb, hs.mono ht⟩

theorem le_clock {a : ProfilerAction D} {impl : ProfilerImpl D} (ha : Reads y.now a)
    (e : (PipeRT.profiler F).Step y.impl a impl) : y.now ≤ clock y.now a := by
  cases a
  case record t t' =>
    obtain ⟨_, _, _, _, hg⟩ := ProfilerImpl.exists_current e.guard
    exact le_trans ha hg.2.1
  all_goals exact le_rfl

theorem profiler {a : ProfilerAction D} {impl : ProfilerImpl D} (h : y.Rested) (hi : y.Inv F)
    (hauto : a.isManual = false) (ha : Reads y.now a) (e : (PipeRT.profiler F).Step y.impl a impl) :
    Rested { y with impl, manual := y.manual || a.isManual, now := clock y.now a } := by
  have hne : a ≠ .gatherNSend := by
    rintro rfl
    contradiction
  have hinv := ProfilerImpl.inv hi.impl
  have hclock := le_clock ha e
  refine ⟨?_, fun hidle => ?_, fun u hthread => ?_, fun hthread => ?_, fun hthread => ?_⟩
  · simp [h.automatic, hauto]
  · exact (hi.cleared.step hinv (h.idle hidle) hne e).2
  · obtain ⟨b, hb, hs⟩ := h.sleeping u hthread
    have hidle := h.idle_of hthread rfl
    exact ⟨b, (hb.step hinv hidle hne e).1, hs⟩
  · obtain ⟨b, hb, hs⟩ := h.looping hthread
    have hidle := h.idle_of hthread rfl
    exact ⟨b, (hb.step hinv hidle hne e).1, hs.mono hclock⟩
  · obtain ⟨b, hb, hs⟩ := h.gathering hthread
    exact ⟨b, hb.step hinv hne e, hs.mono hclock⟩

theorem step (h : y.Rested) (hi : y.Inv F) (ha : y.Automatic a) (e : (collector F).Step y a y') :
    y'.Rested := by
  replace e := effect e
  cases e
  case tick ht => exact h.tick ht
  case profiler e hreads => exact h.profiler hi ha hreads e
  case stop => exact ⟨h.automatic, h.idle, h.sleeping, h.looping, h.gathering⟩
  case started hnone _ | unstarted hnone _ =>
    exact ⟨h.automatic, fun _ => h.idle (by simp [hnone]), by simp, by simp, by simp⟩
  case exited hthread => exact ⟨h.automatic, fun _ => h.idle_of hthread rfl, by simp, by simp, by simp⟩
  case called slept impl hthread e =>
    refine ⟨rfl, fun hidle => absurd rfl (hidle slept), by simp, by simp, fun hslept => ?_⟩
    simp only [Option.some.injEq, CollectorThread.gathering.injEq] at hslept
    obtain ⟨b, hb, hs⟩ := h.looping (hslept ▸ hthread)
    exact ⟨b, hb.gatherNSend e, hs⟩
  case sleep hidle =>
    refine ⟨h.automatic, fun _ => hidle h.automatic, fun u hu => ?_, by simp, by simp⟩
    simp only [Option.some.injEq, CollectorThread.sleeping.injEq] at hu
    exact ⟨y.now, hi.cleared, hu.le⟩
  case wake wakeTime hthread hnow =>
    refine ⟨h.automatic, fun _ => h.idle_of hthread rfl, by simp, fun _ => ?_, by simp⟩
    obtain ⟨b, hb, hs⟩ := h.sleeping wakeTime hthread
    exact ⟨b, hb, hs.mono hnow⟩

end Rested

theorem rested (h : (collector F).Reachable Automatic y) : y.Rested :=
  h.induction (fun _ => .init) fun _ _ _ hr hy ha e => hy.step (inv hr) ha e

end Collector
end PipeRT
