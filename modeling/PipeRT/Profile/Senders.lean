import PipeRT.Machine
import PipeRT.Profile.Basic

namespace PipeRT

-- A `SenderLogger` and the names of the threads that tracked calls came from since it was cleared, the
-- latest call first.
structure SenderHistory where
  logger : SenderLogger
  calls  : List CString

inductive SenderAction where
  | trackSender (eventName threadName : CString)
  | getTopSender
  | serialize
  | clearTopSenders
  | serializeNClear

namespace SenderHistory

-- An `int` that overflows has no meaning.
def Guard (y : SenderHistory) : SenderAction → Prop
  | .trackSender eventName threadName =>
    eventName.address = y.logger.trackEvent.address → ∀ entry ∈ y.logger.senders,
      entry.senderName.map CString.address = some threadName.address → entry.sentPackets < kMaxInt
  | .getTopSender | .serialize | .clearTopSenders | .serializeNClear => True

instance (y : SenderHistory) (a : SenderAction) : Decidable (y.Guard a) :=
  match a with
  | .trackSender .. => inferInstanceAs (Decidable (_ → ∀ entry ∈ _, _ → _))
  | .getTopSender | .serialize | .clearTopSenders | .serializeNClear =>
    inferInstanceAs (Decidable True)

def exec (y : SenderHistory) : SenderAction → SenderHistory
  | .trackSender eventName threadName => {
    logger := y.logger.trackSender eventName threadName
    calls  :=
      if eventName.address = y.logger.trackEvent.address then threadName :: y.calls else y.calls }
  | .getTopSender    => { y with logger := y.logger.getTopSender.2 }
  | .serialize       => { y with logger := y.logger.serialize.2 }
  | .clearTopSenders => ⟨y.logger.clearTopSenders, []⟩
  | .serializeNClear => ⟨y.logger.serializeNClear.2, []⟩

end SenderHistory

def senderLogger : Machine SenderHistory SenderAction Unit where
  Init y := ∃ trackEvent, y = ⟨.new trackEvent, []⟩
  Guard  := SenderHistory.Guard
  exec y a := .ok (y.exec a)

instance (y : SenderHistory) (a : SenderAction) : Decidable (senderLogger.Guard y a) :=
  inferInstanceAs (Decidable (y.Guard a))

namespace SenderHistory

-- How many of the calls came from the thread.
def count (calls : List CString) (name : CString) : Nat :=
  calls.countP fun call => call.address = name.address

-- The threads, in the order of their first calls.
def distinct : List CString → List CString
  | []            => []
  | call :: calls => if count calls call = 0 then distinct calls ++ [call] else distinct calls

def entry (calls : List CString) (name : CString) : SenderLogger.Sender :=
  ⟨some name, count calls name⟩

-- The entries of the array that are in use.
structure Tracks (y : SenderHistory) (names : List CString) : Prop where
  senders : y.logger.senders =
            names.map (entry y.calls) ++ .replicate (SenderLogger.kMaxSenders - names.length) ⟨none, 0⟩
  first   : names.Perm ((distinct y.calls).take SenderLogger.kMaxSenders)

variable {y y' : SenderHistory} {a : SenderAction} {calls : List CString} {call name : CString}
variable {names : List CString} {k : Nat}

theorem count_cons :
    count (call :: calls) name = count calls name + if call.address = name.address then 1 else 0 := by
  rw [count, List.countP_cons, count]
  simp

theorem count_eq_zero_iff : count calls name = 0 ↔ name.address ∉ calls.map CString.address := by
  simp [count, List.countP_eq_zero]

theorem mem_distinct {address : Nat} :
    address ∈ (distinct calls).map CString.address ↔ address ∈ calls.map CString.address := by
  induction calls
  case nil => rfl
  case cons call calls ih =>
    rw [distinct, List.map_cons, List.mem_cons]
    split
    case isTrue => rw [List.map_append, List.mem_append, ih, List.map_singleton, List.mem_singleton, or_comm]
    case isFalse hz =>
      rw [count_eq_zero_iff, not_not] at hz
      rw [ih]
      exact ⟨.inr, fun h => h.elim (fun h => h ▸ hz) id⟩

theorem distinct_nodup : ((distinct calls).map CString.address).Nodup := by
  induction calls
  case nil => simp [distinct]
  case cons call calls ih =>
    rw [distinct]
    split
    case isFalse => exact ih
    case isTrue hz =>
      rw [count_eq_zero_iff, ← mem_distinct] at hz
      rw [List.map_append, List.map_singleton]
      exact List.nodup_append.mpr ⟨ih, by simp, by simpa using hz⟩

-- The call of a thread that has an entry already.
theorem track_of_mem (h : call.address ∈ names.map CString.address)
    (hn : (names.map CString.address).Nodup) {entries : List SenderLogger.Sender} :
    SenderLogger.trackSender.track call (names.map (entry calls) ++ entries) =
      names.map (entry (call :: calls)) ++ entries := by
  induction names
  case nil => simp at h
  case cons name names ih =>
    obtain ⟨hname, hn⟩ := List.nodup_cons.mp hn
    rw [List.map_cons, List.cons_append, SenderLogger.trackSender.track]
    simp only [entry]
    split
    case isTrue he =>
      have hrest : names.map (entry calls) = names.map (entry (call :: calls)) := by
        refine List.map_congr_left fun n hm => ?_
        have hne : call.address ≠ n.address := fun hc =>
          hname <| he ▸ hc ▸ List.mem_map_of_mem hm
        simp [entry, count_cons, hne]
      rw [hrest]
      simp [entry, count_cons, he]
    case isFalse he =>
      have hm : call.address ∈ names.map CString.address := by
        simpa [Ne.symm he] using h
      rw [ih hm hn]
      simp [entry, count_cons, Ne.symm he]

-- The call of a thread that has none. It may take the first one that is empty.
theorem track_of_notMem (calls : List CString) (k : Nat) (h : call.address ∉ names.map CString.address) :
    SenderLogger.trackSender.track call (names.map (entry calls) ++ .replicate k ⟨none, 0⟩) =
      names.map (entry (call :: calls)) ++
        if k = 0 then [] else ⟨some call, 1⟩ :: .replicate (k - 1) ⟨none, 0⟩ := by
  induction names
  case nil => cases k <;> rfl
  case cons name names ih =>
    rw [List.map_cons, List.mem_cons, not_or] at h
    rw [List.map_cons, List.cons_append, SenderLogger.trackSender.track]
    simp only [entry, Ne.symm h.1, if_false]
    rw [ih h.2]
    simp [entry, count_cons, h.1]

section Sorting

theorem partialSort_replicate (k : Nat) (entry : SenderLogger.Sender) (h : 0 ≤ entry.sentPackets) :
    SenderLogger.partialSort entry (.replicate k ⟨none, 0⟩) = (entry, .replicate k ⟨none, 0⟩) := by
  induction k
  case zero => rfl
  case succ k ih =>
    rw [List.replicate_succ, SenderLogger.partialSort, if_neg (by simpa using h), ih]
    rfl

-- The entries only change their places, and the first one has become the greatest.
theorem partialSort_spec (calls : List CString) (name : CString) (names : List CString) (k : Nat) :
    ∃ top rest,
    SenderLogger.partialSort (entry calls name) (names.map (entry calls) ++ .replicate k ⟨none, 0⟩) =
      (entry calls top, rest.map (entry calls) ++ .replicate k ⟨none, 0⟩) ∧
    (top :: rest).Perm (name :: names) ∧ ∀ n ∈ name :: names, count calls n ≤ count calls top := by
  induction names generalizing name
  case nil =>
    refine ⟨name, [], partialSort_replicate k _ (Int.natCast_nonneg _), .refl _, ?_⟩
    simp
  case cons n names ih =>
    rw [List.map_cons, List.cons_append, SenderLogger.partialSort]
    split
    case isTrue hlt =>
      obtain ⟨top, rest, hsort, hperm, hmax⟩ := ih n
      have hless : count calls name ≤ count calls n := by
        simp only [entry] at hlt
        omega
      refine ⟨top, name :: rest, by rw [hsort]; rfl, ?_, fun m hm => ?_⟩
      · exact (List.Perm.swap name top rest).trans <| (hperm.cons name)
      · obtain rfl | hm := List.mem_cons.mp hm
        case inl => exact hless.trans <| hmax n List.mem_cons_self
        case inr => exact hmax m hm
    case isFalse hge =>
      obtain ⟨top, rest, hsort, hperm, hmax⟩ := ih name
      have hless : count calls n ≤ count calls name := by
        simp only [entry] at hge
        omega
      refine ⟨top, n :: rest, by rw [hsort]; rfl, ?_, fun m hm => ?_⟩
      · exact (List.Perm.swap n top rest).trans <| (hperm.cons n).trans <| .swap name n names
      · obtain rfl | rfl | hm : m = name ∨ m = n ∨ m ∈ names := by simpa using hm
        case inl      => exact hmax m List.mem_cons_self
        case inr.inl  => exact hless.trans <| hmax name List.mem_cons_self
        case inr.inr  => exact hmax m <| List.mem_cons_of_mem _ hm

end Sorting

namespace Tracks

theorem nodup (h : y.Tracks names) : (names.map CString.address).Nodup := by
  refine (h.first.map _).nodup_iff.mpr ?_
  rw [List.map_take]
  exact distinct_nodup.sublist <| List.take_sublist ..

theorem length_le (h : y.Tracks names) : names.length ≤ SenderLogger.kMaxSenders :=
  h.first.length_eq.trans_le <| (List.length_take_le ..)

theorem nil_iff (h : y.Tracks names) : names = [] ↔ y.calls = [] := by
  have hlen := h.first.length_eq
  rw [List.length_take] at hlen
  have hdistinct : distinct y.calls = [] ↔ y.calls = [] := by
    cases hc : y.calls
    case nil => simp [distinct]
    case cons call calls =>
      have hmem : call.address ∈ (distinct (call :: calls)).map CString.address :=
        mem_distinct.mpr <| by simp
      refine iff_of_false (fun hnil => ?_) (by simp)
      simp [hnil] at hmem
  rw [← hdistinct, ← List.length_eq_zero_iff, ← List.length_eq_zero_iff]
  simp only [SenderLogger.kMaxSenders] at hlen
  omega

-- What `GetTopSender` finds, and what it leaves.
theorem getTopSender (h : y.Tracks names) :
    (∃ names', Tracks { y with logger := y.logger.getTopSender.2 } names') ∧
    (y.logger.getTopSender.1 = none ↔ y.calls = []) ∧
    ∀ top, y.logger.getTopSender.1 = some top →
      top ∈ names ∧ ∀ name ∈ names, count y.calls name ≤ count y.calls top := by
  rw [← h.nil_iff]
  rcases names with _ | ⟨name, names⟩
  case nil =>
    have hs : y.logger.senders = ⟨none, 0⟩ :: .replicate 3 ⟨none, 0⟩ := h.senders
    have hsort := partialSort_replicate 3 ⟨none, 0⟩ le_rfl
    rw [SenderLogger.getTopSender, hs]
    simp only [hsort]
    exact ⟨⟨[], rfl, h.first⟩, by simp, by simp⟩
  case cons =>
    have hs := h.senders
    obtain ⟨top, rest, hsort, hperm, hmax⟩ := partialSort_spec y.calls name names
      (SenderLogger.kMaxSenders - (name :: names).length)
    rw [List.map_cons, List.cons_append] at hs
    rw [SenderLogger.getTopSender, hs]
    simp only [hsort]
    refine ⟨⟨top :: rest, ?_, hperm.trans h.first⟩, by simp [entry], fun top' ht => ?_⟩
    · rw [hperm.length_eq]
      rfl
    · obtain rfl := Option.some.inj ht
      exact ⟨hperm.mem_iff.mp List.mem_cons_self, hmax⟩

theorem trackSender {eventName threadName : CString} (h : y.Tracks names)
    (he : eventName.address = y.logger.trackEvent.address) :
    ∃ names', Tracks ⟨y.logger.trackSender eventName threadName, threadName :: y.calls⟩ names' := by
  have hlogger : (y.logger.trackSender eventName threadName).senders =
      SenderLogger.trackSender.track threadName y.logger.senders := by
    rw [SenderLogger.trackSender, if_neg (not_not.mpr he)]
  have hlen := h.first.length_eq
  rw [List.length_take] at hlen
  by_cases hm : threadName.address ∈ names.map CString.address
  case pos =>
    have hcount : count y.calls threadName ≠ 0 := by
      rw [Ne, count_eq_zero_iff, not_not, ← mem_distinct]
      have hsub := (h.first.map CString.address).mem_iff.mp hm
      exact List.map_subset _ (List.take_subset ..) hsub
    refine ⟨names, ?_, ?_⟩
    · rw [hlogger, h.senders, track_of_mem hm h.nodup]
    · rw [distinct, if_neg hcount]
      exact h.first
  case neg =>
    have hsenders := (congrArg _ h.senders).trans <| track_of_notMem y.calls
      (SenderLogger.kMaxSenders - names.length) hm
    rw [← hlogger] at hsenders
    by_cases hfull : names.length = SenderLogger.kMaxSenders
    case pos =>
      -- There is no entry left, and four threads have called before.
      have hall : SenderLogger.kMaxSenders ≤ (distinct y.calls).length := by omega
      refine ⟨names, ?_, ?_⟩
      · rw [hsenders, hfull]
        rfl
      · rw [distinct]
        split
        case isTrue  => exact List.take_append_of_le_length hall ▸ h.first
        case isFalse => exact h.first
    case neg =>
      have hle := h.length_le
      have hshort : (distinct y.calls).length < SenderLogger.kMaxSenders := by omega
      have hperm := h.first
      rw [List.take_of_length_le hshort.le] at hperm
      have hzero : count y.calls threadName = 0 := by
        rwa [count_eq_zero_iff, ← mem_distinct, ← (hperm.map CString.address).mem_iff]
      refine ⟨names ++ [threadName], ?_, ?_⟩
      · rw [hsenders, if_neg (by omega), List.map_append, List.append_assoc]
        simp [entry, count_cons, hzero, Nat.sub_add_eq]
      · rw [distinct, if_pos hzero, List.take_of_length_le (by simpa using hshort)]
        exact hperm.append_right _

end Tracks

theorem tracks {ok : SenderHistory → SenderAction → Prop} (h : senderLogger.Reachable ok y) :
    ∃ names, y.Tracks names := by
  refine h.induction (P := fun y => ∃ names, y.Tracks names) (fun y hy => ?_) fun y a y' _ hy _ e => ?_
  · obtain ⟨trackEvent, rfl⟩ := hy
    exact ⟨[], rfl, .nil⟩
  · obtain ⟨names, hy⟩ := hy
    obtain rfl : y.exec a = y' := Except.ok.inj e.exec
    clear e
    cases a
    case trackSender eventName threadName _ =>
      by_cases he : eventName.address = y.logger.trackEvent.address
      case pos =>
        rw [exec, if_pos he]
        exact hy.trackSender he
      case neg =>
        refine ⟨names, ?_⟩
        rw [exec, if_neg he, SenderLogger.trackSender, if_pos he]
        exact hy
    case getTopSender | serialize => exact hy.getTopSender.1
    case clearTopSenders | serializeNClear => exact ⟨[], rfl, .nil⟩

end SenderHistory

-- The entries in use tell the first senders and how often they called. The one that is found called as
-- often as any of them.
theorem top_sender {ok : SenderHistory → SenderAction → Prop} {y : SenderHistory}
    (h : senderLogger.Reachable ok y) :
    ∃ names, y.Tracks names ∧ (names.map CString.address).Nodup ∧
      (y.logger.getTopSender.1 = none ↔ y.calls = []) ∧
      ∀ top, y.logger.getTopSender.1 = some top → top ∈ names ∧ ∀ name ∈ names,
        SenderHistory.count y.calls name ≤ SenderHistory.count y.calls top := by
  obtain ⟨names, hy⟩ := SenderHistory.tracks h
  exact ⟨names, hy, hy.nodup, hy.getTopSender.2⟩

-- Five threads call, the third of them twice.
theorem top_sender_five :
    ∃ y, senderLogger.Reachable (fun _ _ => True) y ∧ y.logger.getTopSender.1.isSome = true ∧
      ∃ names, y.Tracks names ∧ ∀ top, y.logger.getTopSender.1 = some top →
        top ∈ names ∧ ∀ name ∈ names,
          SenderHistory.count y.calls name ≤ SenderHistory.count y.calls top := by
  let event : CString := ⟨9, [112], by decide⟩
  obtain ⟨y, hr, hy⟩ := Machine.exists_reachable_of_replay (M := senderLogger)
    (s := ⟨.new event, []⟩) (fun _ _ => True)
    ([1, 2, 3, 3, 4, 5].map fun i => .trackSender event ⟨i, [116], by decide⟩)
    (P := fun y => y.logger.getTopSender.1.isSome = true) ⟨event, rfl⟩ (by decide +kernel)
  obtain ⟨names, hn, _, _, htop⟩ := top_sender hr
  exact ⟨y, hr, hy, names, hn, htop⟩

end PipeRT
