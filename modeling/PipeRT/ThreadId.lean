import PipeRT.Basic
import PipeRT.Machine

namespace PipeRT

-- A `ThreadId`, as `GetCurrentThread` returns it.
structure ThreadId where
  threadId   : Int32
  threadName : String
  deriving DecidableEq, Repr

namespace ThreadId

def kUntaggedValue : Int32 :=
  0

-- The constructor.
def new (threadId : Int32) (threadName : String) : Except Fault ThreadId := do
  check (threadId ≠ kUntaggedValue)
  return ⟨threadId, threadName⟩

def isHandTagged (id : ThreadId) : Bool :=
  decide (id.threadId > kUntaggedValue)

def isAutoTagged (id : ThreadId) : Bool :=
  decide (id.threadId < kUntaggedValue)

end ThreadId

-- The threads `τ` with their `thread_local` variables, and the two counters that they share.
structure ThreadTags (τ : Type) where
  currentThreadId   : τ → Int32
  currentThreadName : τ → String
  handTagNext       : Int32
  autoTagNext       : Int32
  -- The threads that have got a tag by hand or automatically, in this order.
  handTagged        : List τ
  autoTagged        : List τ

-- Each of them is atomic, since a thread shares but one access to a counter with the others.
inductive ThreadTagsAction (τ : Type) where
  | getCurrentThread (t : τ)
  | tagCurrentThread (t : τ)
  | setNameOfCurrentThread (t : τ) (threadName : String)
  deriving DecidableEq, Repr

namespace ThreadTags

open ThreadId (kUntaggedValue)

variable {τ : Type} [DecidableEq τ]

def isCurrentThreadUntagged (y : ThreadTags τ) (t : τ) : Bool :=
  decide (y.currentThreadId t = kUntaggedValue)

def getCurrentThread (y : ThreadTags τ) (t : τ) : Except Fault (ThreadId × ThreadTags τ) := do
  let y := if y.isCurrentThreadUntagged t then
    { y with
      currentThreadId := Function.update y.currentThreadId t y.autoTagNext,
      autoTagNext     := y.autoTagNext - 1,
      autoTagged      := y.autoTagged ++ [t] }
  else
    y
  let id ← ThreadId.new (y.currentThreadId t) (y.currentThreadName t)
  return (id, y)

def tagCurrentThread (y : ThreadTags τ) (t : τ) : Except Fault (ThreadTags τ) := do
  check (y.isCurrentThreadUntagged t = true)
  return { y with
    currentThreadId := Function.update y.currentThreadId t y.handTagNext,
    handTagNext     := y.handTagNext + 1,
    handTagged      := y.handTagged ++ [t] }

def setNameOfCurrentThread (y : ThreadTags τ) (t : τ) (threadName : String) :
    Except Fault (ThreadTags τ) := do
  check (y.currentThreadId t > kUntaggedValue)
  return { y with currentThreadName := Function.update y.currentThreadName t threadName }

def exec (y : ThreadTags τ) : ThreadTagsAction τ → Except Fault (ThreadTags τ)
  | .getCurrentThread t                  => Prod.snd <$> y.getCurrentThread t
  | .tagCurrentThread t                  => y.tagCurrentThread t
  | .setNameOfCurrentThread t threadName => y.setNameOfCurrentThread t threadName

end ThreadTags

def threadTags (τ : Type) [DecidableEq τ] : Machine (ThreadTags τ) (ThreadTagsAction τ) Fault where
  Init y    := y = ⟨fun _ => ThreadId.kUntaggedValue, fun _ => "N/A", ThreadId.kUntaggedValue + 1,
                    ThreadId.kUntaggedValue - 1, [], []⟩
  Guard _ _ := True
  exec      := ThreadTags.exec

instance {τ : Type} [DecidableEq τ] (y : ThreadTags τ) (a : ThreadTagsAction τ) :
    Decidable ((threadTags τ).Guard y a) :=
  inferInstanceAs (Decidable True)

-- The threads of a list got their tags one after the other.
def Numbered {τ : Type} (ids : τ → Int32) (l : List τ) (number : Nat → Int) : Prop :=
  ∀ (k : Nat) (t : τ), l[k]? = some t → ids t = Int32.ofInt (number k)

namespace Numbered

variable {τ : Type} [DecidableEq τ] {ids : τ → Int32} {l : List τ} {number : Nat → Int} {t : τ} {id : Int32}

theorem of_notMem (h : Numbered ids l number) (ht : t ∉ l) : Numbered (Function.update ids t id) l number := by
  intro k t' hk
  have hne : t' ≠ t := by
    rintro rfl
    exact ht <| List.mem_of_getElem? hk
  rw [Function.update_of_ne hne, h k t' hk]

theorem append (h : Numbered ids l number) (ht : t ∉ l) (hid : id = Int32.ofInt (number l.length)) :
    Numbered (Function.update ids t id) (l ++ [t]) number := by
  intro k t' hk
  by_cases hlt : k < l.length
  case pos =>
    rw [List.getElem?_append_left hlt] at hk
    exact h.of_notMem ht k t' hk
  case neg =>
    rw [List.getElem?_append_right (not_lt.mp hlt), List.getElem?_singleton] at hk
    split at hk
    case isFalse => contradiction
    case isTrue hz =>
      obtain rfl := Option.some.inj hk
      rw [Function.update_self, hid, show k = l.length by omega]

end Numbered

namespace ThreadTags

open ThreadId (kUntaggedValue)

variable {τ : Type} [DecidableEq τ] {y y' : ThreadTags τ} {a : ThreadTagsAction τ}

-- What a step does that does not fail.
inductive Effect (y : ThreadTags τ) : ThreadTagsAction τ → ThreadTags τ → Prop
  | autoTagged {t} : y.currentThreadId t = kUntaggedValue →
    Effect y (.getCurrentThread t) { y with
      currentThreadId := Function.update y.currentThreadId t y.autoTagNext,
      autoTagNext     := y.autoTagNext - 1,
      autoTagged      := y.autoTagged ++ [t] }
  | got {t} : y.currentThreadId t ≠ kUntaggedValue → Effect y (.getCurrentThread t) y
  | handTagged {t} : y.currentThreadId t = kUntaggedValue →
    Effect y (.tagCurrentThread t) { y with
      currentThreadId := Function.update y.currentThreadId t y.handTagNext,
      handTagNext     := y.handTagNext + 1,
      handTagged      := y.handTagged ++ [t] }
  | named {t threadName} : y.currentThreadId t > kUntaggedValue →
    Effect y (.setNameOfCurrentThread t threadName)
      { y with currentThreadName := Function.update y.currentThreadName t threadName }

theorem effect (e : (threadTags τ).Step y a y') : Effect y a y' := by
  have he : y.exec a = .ok y' := e.exec
  cases a
  case getCurrentThread t =>
    obtain ⟨⟨id, y₁⟩, hget, rfl⟩ : ∃ r, y.getCurrentThread t = .ok r ∧ r.2 = y' := by
      cases hr : y.getCurrentThread t
      case error => simp [exec, hr] at he
      case ok r  => exact ⟨r, rfl, by simpa [exec, hr] using he⟩
    obtain ⟨_, _, hr⟩ := bind_eq_ok.mp hget
    obtain ⟨_, rfl⟩ := Prod.mk.inj <| Except.ok.inj hr
    by_cases ht : y.currentThreadId t = kUntaggedValue
    case pos =>
      simp only [isCurrentThreadUntagged, ht, decide_true, if_true]
      exact .autoTagged ht
    case neg =>
      simp only [isCurrentThreadUntagged, ht, decide_false, Bool.false_eq_true, if_false]
      exact .got ht
  case tagCurrentThread t =>
    obtain ⟨_, hc, hr⟩ := bind_eq_ok.mp he
    exact Except.ok.inj hr ▸ .handTagged (of_decide_eq_true <| of_check hc)
  case setNameOfCurrentThread t threadName =>
    obtain ⟨_, hc, hr⟩ := bind_eq_ok.mp he
    exact Except.ok.inj hr ▸ .named (of_check hc)

-- Neither of the counters has run out of numbers.
def Fits (y : ThreadTags τ) : Prop :=
  y.handTagged.length < 2 ^ 31 ∧ y.autoTagged.length ≤ 2 ^ 31

theorem Effect.fits (e : Effect y a y') (h : y'.Fits) : y.Fits := by
  obtain ⟨hh, ha⟩ := h
  cases e
  case autoTagged =>
    rw [List.length_append] at ha
    exact ⟨hh, by omega⟩
  case handTagged =>
    rw [List.length_append] at hh
    exact ⟨by omega, ha⟩
  case got   => exact ⟨hh, ha⟩
  case named => exact ⟨hh, ha⟩

structure Inv (y : ThreadTags τ) : Prop where
  handTagNext : y.handTagNext = Int32.ofInt (y.handTagged.length + 1)
  autoTagNext : y.autoTagNext = Int32.ofInt (-(y.autoTagged.length + 1))
  hand        : Numbered y.currentThreadId y.handTagged fun k => k + 1
  auto        : Numbered y.currentThreadId y.autoTagged fun k => -(k + 1)
  nodup       : (y.handTagged ++ y.autoTagged).Nodup
  untagged    : ∀ t, y.currentThreadId t = kUntaggedValue ↔ t ∉ y.handTagged ++ y.autoTagged
  named       : ∀ t, y.currentThreadName t ≠ "N/A" → t ∈ y.handTagged

namespace Inv

variable {t : τ}

omit [DecidableEq τ] in
theorem toInt_hand (h : y.Inv) (hf : y.Fits) {k : Nat} (ht : y.handTagged[k]? = some t) :
    (y.currentThreadId t).toInt = k + 1 := by
  obtain ⟨hlt, _⟩ := List.getElem?_eq_some_iff.mp ht
  rw [h.hand k t ht]
  change (Int32.ofInt (k + 1)).toInt = _
  exact Int32.toInt_ofInt_of_le (by omega) (by have := hf.1; omega)

omit [DecidableEq τ] in
theorem toInt_auto (h : y.Inv) (hf : y.Fits) {k : Nat} (ht : y.autoTagged[k]? = some t) :
    (y.currentThreadId t).toInt = -(k + 1) := by
  obtain ⟨hlt, _⟩ := List.getElem?_eq_some_iff.mp ht
  rw [h.auto k t ht]
  change (Int32.ofInt (-(k + 1))).toInt = _
  exact Int32.toInt_ofInt_of_le (by have := hf.2; omega) (by omega)

omit [DecidableEq τ] in
theorem zero_iff (h : y.Inv) : (y.currentThreadId t).toInt = 0 ↔ t ∉ y.handTagged ++ y.autoTagged := by
  rw [← h.untagged t, ← Int32.toInt_inj]
  rfl

omit [DecidableEq τ] in
theorem pos_iff (h : y.Inv) (hf : y.Fits) : 0 < (y.currentThreadId t).toInt ↔ t ∈ y.handTagged := by
  by_cases hh : t ∈ y.handTagged
  case pos =>
    obtain ⟨k, hk⟩ := List.getElem?_of_mem hh
    exact iff_of_true (by rw [h.toInt_hand hf hk]; omega) hh
  case neg =>
    refine iff_of_false ?_ hh
    by_cases ha : t ∈ y.autoTagged
    case pos =>
      obtain ⟨k, hk⟩ := List.getElem?_of_mem ha
      rw [h.toInt_auto hf hk]
      omega
    case neg => rw [h.zero_iff.mpr (by simp [hh, ha])]; decide

omit [DecidableEq τ] in
theorem neg_iff (h : y.Inv) (hf : y.Fits) : (y.currentThreadId t).toInt < 0 ↔ t ∈ y.autoTagged := by
  have hpos := h.pos_iff hf (t := t)
  have hzero := h.zero_iff (t := t)
  have hdisjoint := List.disjoint_of_nodup_append h.nodup
  rw [List.mem_append, not_or] at hzero
  constructor
  case mp =>
    intro hlt
    by_contra ha
    have hh : t ∉ y.handTagged := fun hh => by
      have := hpos.mpr hh
      omega
    have := hzero.mpr ⟨hh, ha⟩
    omega
  case mpr =>
    intro ha
    have hne : (y.currentThreadId t).toInt ≠ 0 := fun hz => (hzero.mp hz).2 ha
    have hle : ¬0 < (y.currentThreadId t).toInt := fun hgt => hdisjoint (hpos.mp hgt) ha
    omega

-- A thread that has no tag gets one that is not zero.
theorem untagged_update {id : Int32} {l : List τ} (h : y.Inv) (hid : id ≠ kUntaggedValue)
    (hl : ∀ t', t' ∈ l ↔ t' = t ∨ t' ∈ y.handTagged ++ y.autoTagged) (t' : τ) :
    Function.update y.currentThreadId t id t' = kUntaggedValue ↔ t' ∉ l := by
  rw [hl]
  by_cases ht : t' = t
  case pos => simp [ht, hid]
  case neg => rw [Function.update_of_ne ht, h.untagged, or_iff_right ht]

omit [DecidableEq τ] in
theorem autoTagNext_ne (h : y.Inv) (hlen : y.autoTagged.length + 1 ≤ 2 ^ 31) :
    y.autoTagNext ≠ kUntaggedValue := by
  rw [h.autoTagNext, ne_eq, ← Int32.toInt_inj, Int32.toInt_ofInt_of_le (by omega) (by omega)]
  change ¬_ = (0 : Int)
  omega

theorem step (h : y.Inv) (e : Effect y a y') (hf : y'.Fits) : y'.Inv := by
  have hfits := e.fits hf
  cases e
  case got => exact h
  case named t threadName hid =>
    refine ⟨h.handTagNext, h.autoTagNext, h.hand, h.auto, h.nodup, h.untagged, fun t' hn => ?_⟩
    by_cases ht : t' = t
    case pos =>
      rw [ht]
      exact (h.pos_iff hfits).mp <| Int32.lt_iff_toInt_lt.mp hid
    case neg =>
      refine h.named t' ?_
      rwa [← Function.update_of_ne ht threadName y.currentThreadName]
  case handTagged t hu =>
    have hn := (h.untagged t).mp hu
    have hid : y.handTagNext ≠ kUntaggedValue := by
      obtain ⟨hlen, _⟩ := hf
      rw [List.length_append, List.length_singleton] at hlen
      rw [h.handTagNext, ne_eq, ← Int32.toInt_inj, Int32.toInt_ofInt_of_le (by omega) (by omega)]
      change ¬_ = (0 : Int)
      omega
    refine {
      handTagNext := ?next
      autoTagNext := h.autoTagNext
      hand        := h.hand.append (fun hm => hn (List.mem_append_left _ hm)) h.handTagNext
      auto        := h.auto.of_notMem fun hm => hn (List.mem_append_right _ hm)
      nodup       := ?nodup
      untagged    := h.untagged_update hid ?tagged
      named       := fun t' hne => List.mem_append_left _ (h.named t' hne) }
    case next =>
      change y.handTagNext + 1 = _
      rw [h.handTagNext, List.length_append, List.length_singleton]
      simp
    case nodup =>
      change ((y.handTagged ++ [t]) ++ y.autoTagged).Nodup
      rw [List.append_assoc, List.singleton_append, List.nodup_middle]
      exact List.nodup_cons.mpr ⟨hn, h.nodup⟩
    case tagged =>
      intro t'
      simp only [List.mem_append, List.mem_singleton]
      tauto
  case autoTagged t hu =>
    have hn := (h.untagged t).mp hu
    have hid : y.autoTagNext ≠ kUntaggedValue := by
      obtain ⟨_, hlen⟩ := hf
      rw [List.length_append, List.length_singleton] at hlen
      exact h.autoTagNext_ne hlen
    refine {
      handTagNext := h.handTagNext
      autoTagNext := ?next
      hand        := h.hand.of_notMem fun hm => hn (List.mem_append_left _ hm)
      auto        := h.auto.append (fun hm => hn (List.mem_append_right _ hm)) h.autoTagNext
      nodup       := ?nodup
      untagged    := h.untagged_update hid ?tagged
      named       := h.named }
    case next =>
      change y.autoTagNext - 1 = _
      have hone : (1 : Int32) = Int32.ofInt 1 := rfl
      rw [h.autoTagNext, List.length_append, List.length_singleton, hone, ← Int32.ofInt_sub]
      congr 1
    case nodup =>
      change (y.handTagged ++ (y.autoTagged ++ [t])).Nodup
      rw [← List.append_assoc, List.nodup_append_comm, List.singleton_append]
      exact List.nodup_cons.mpr ⟨hn, h.nodup⟩
    case tagged =>
      intro t'
      simp only [List.mem_append, List.mem_singleton]
      tauto

end Inv

variable {ok : ThreadTags τ → ThreadTagsAction τ → Prop}

theorem inv (h : (threadTags τ).Reachable ok y) (hf : y.Fits) : y.Inv := by
  revert hf
  refine h.induction (P := fun y => y.Fits → y.Inv) (fun y hy _ => ?_) fun y _ y' _ hy _ e hf =>
    (hy ((effect e).fits hf)).step (effect e) hf
  obtain rfl := hy
  exact ⟨by simp [kUntaggedValue], by simp [kUntaggedValue], nofun, nofun, List.nodup_nil,
    fun _ => iff_of_true rfl List.not_mem_nil, fun _ hn => absurd rfl hn⟩

end ThreadTags

-- Threads that are tagged by hand have the ids 1, 2, and so on, in the order of their calls. Threads
-- that are tagged automatically have the ids -1, -2, and so on. No two have the same id, no id ever
-- changes, and only threads that are tagged by hand have got a name.
theorem thread_ids_distinct {τ : Type} [DecidableEq τ] {ok : ThreadTags τ → ThreadTagsAction τ → Prop}
    {y : ThreadTags τ} (h : (threadTags τ).Reachable ok y) (hf : y.Fits) :
    (∀ t, (y.currentThreadId t).toInt = if t ∈ y.handTagged then (y.handTagged.idxOf t : Int) + 1
      else if t ∈ y.autoTagged then -((y.autoTagged.idxOf t : Int) + 1) else 0) ∧
    (∀ t t', y.currentThreadId t = y.currentThreadId t' →
      y.currentThreadId t ≠ ThreadId.kUntaggedValue → t = t') ∧
    (∀ t, y.currentThreadName t ≠ "N/A" → t ∈ y.handTagged) ∧
    ∀ a y', (threadTags τ).Step y a y' → ∀ t, y.currentThreadId t ≠ ThreadId.kUntaggedValue →
      y'.currentThreadId t = y.currentThreadId t := by
  have hi := ThreadTags.inv h hf
  have hids : ∀ t, (y.currentThreadId t).toInt = if t ∈ y.handTagged then (y.handTagged.idxOf t : Int) + 1
      else if t ∈ y.autoTagged then -((y.autoTagged.idxOf t : Int) + 1) else 0 := by
    intro t
    split
    case isTrue ht => exact hi.toInt_hand hf <| List.getElem?_idxOf ht
    case isFalse hh =>
      split
      case isTrue ht  => exact hi.toInt_auto hf <| List.getElem?_idxOf ht
      case isFalse ha => exact hi.zero_iff.mpr (by simp [hh, ha])
  refine ⟨hids, fun t t' he hn => ?_, hi.named, fun a y' e t hn => ?_⟩
  case refine_1 =>
    have hmem := mt (hi.untagged t).mpr hn
    rw [not_not, List.mem_append] at hmem
    have htoInt := congrArg Int32.toInt he
    cases hmem
    case inl hh =>
      have hh' : t' ∈ y.handTagged := (hi.pos_iff hf).mp <| htoInt ▸ (hi.pos_iff hf).mpr hh
      rw [hids, hids, if_pos hh, if_pos hh'] at htoInt
      exact (List.idxOf_inj hh).mp (by omega)
    case inr ha =>
      have ha' : t' ∈ y.autoTagged := (hi.neg_iff hf).mp <| htoInt ▸ (hi.neg_iff hf).mpr ha
      have hdisjoint := List.disjoint_of_nodup_append hi.nodup
      rw [hids, hids, if_neg fun hm => hdisjoint hm ha, if_neg fun hm => hdisjoint hm ha', if_pos ha,
        if_pos ha'] at htoInt
      exact (List.idxOf_inj ha).mp (by omega)
  case refine_2 =>
    have hne : ∀ t', y.currentThreadId t' = ThreadId.kUntaggedValue → t ≠ t' := by
      rintro t' ht' rfl
      exact hn ht'
    replace e := ThreadTags.effect e
    cases e
    case got | named    => rfl
    case autoTagged hu => exact Function.update_of_ne (hne _ hu) ..
    case handTagged hu => exact Function.update_of_ne (hne _ hu) ..

-- Two threads are tagged by hand, and another one automatically.
def tagged : List (ThreadTagsAction (Fin 4)) :=
  [.tagCurrentThread 2, .getCurrentThread 0, .tagCurrentThread 1, .setNameOfCurrentThread 1 "channel"]

theorem thread_ids_distinct_tagged :
    ∃ y : ThreadTags (Fin 4), y.handTagged = [2, 1] ∧ (y.currentThreadId 1).toInt = 2 ∧
      ∀ t t', y.currentThreadId t = y.currentThreadId t' →
        y.currentThreadId t ≠ ThreadId.kUntaggedValue → t = t' := by
  obtain ⟨y, hr, hh, hf⟩ := Machine.exists_reachable_of_replay (M := threadTags (Fin 4))
    (s := ⟨_, _, _, _, _, _⟩) (fun _ _ => True) tagged
    (P := fun y => y.handTagged = [2, 1] ∧ y.handTagged.length < 2 ^ 31 ∧ y.autoTagged.length ≤ 2 ^ 31)
    rfl (by decide)
  have h := thread_ids_distinct hr hf
  refine ⟨y, hh, ?_, h.2.1⟩
  rw [h.1, hh, if_pos (by decide)]
  decide

-- `TagCurrentThread` fails in a thread that has a tag, `SetNameOfCurrentThread` in one that was not
-- tagged by hand. `GetCurrentThread` fails in none, and what it returns is classified in one way.
theorem thread_calls_fail_iff {τ : Type} [DecidableEq τ] {ok : ThreadTags τ → ThreadTagsAction τ → Prop}
    {y : ThreadTags τ} (h : (threadTags τ).Reachable ok y) (hf : y.Fits) (t : τ) :
    ((∃ f, y.tagCurrentThread t = .error f) ↔ t ∈ y.handTagged ++ y.autoTagged) ∧
    (∀ name, (∃ f, y.setNameOfCurrentThread t name = .error f) ↔ t ∉ y.handTagged) ∧
    (y.autoTagged.length < 2 ^ 31 → ∃ id y', y.getCurrentThread t = .ok (id, y') ∧
      (id.isHandTagged = true ↔ t ∈ y'.handTagged) ∧ (id.isAutoTagged = true ↔ t ∈ y'.autoTagged) ∧
      id.isHandTagged = !id.isAutoTagged) := by
  have hi := ThreadTags.inv h hf
  refine ⟨?_, fun name => ?_, fun hlen => ?_⟩
  case refine_1 =>
    have hu := hi.untagged t
    rw [← not_iff_not, not_not] at hu
    rw [← hu]
    by_cases ht : y.currentThreadId t = ThreadId.kUntaggedValue
    case pos => simp [ThreadTags.tagCurrentThread, ThreadTags.isCurrentThreadUntagged, ht]
    case neg =>
      simp [ThreadTags.tagCurrentThread, ThreadTags.isCurrentThreadUntagged, ht, check, bind, Except.bind]
  case refine_2 =>
    rw [← hi.pos_iff hf]
    have hlt : y.currentThreadId t > ThreadId.kUntaggedValue ↔ 0 < (y.currentThreadId t).toInt :=
      Int32.lt_iff_toInt_lt
    by_cases ht : 0 < (y.currentThreadId t).toInt
    case pos => simp [ThreadTags.setNameOfCurrentThread, hlt.mpr ht, ht]
    case neg =>
      simp [ThreadTags.setNameOfCurrentThread, mt hlt.mp ht, ht, check, bind, Except.bind]
  case refine_3 =>
    -- The thread has got a tag by the time when the object is constructed.
    obtain ⟨y', e, hne, hf'⟩ : ∃ y', y.getCurrentThread t = .ok
        (⟨y'.currentThreadId t, y'.currentThreadName t⟩, y') ∧
        y'.currentThreadId t ≠ ThreadId.kUntaggedValue ∧ y'.Fits := by
      by_cases ht : y.currentThreadId t = ThreadId.kUntaggedValue
      case neg =>
        refine ⟨y, ?_, ht, hf⟩
        simp [ThreadTags.getCurrentThread, ThreadTags.isCurrentThreadUntagged, ht, ThreadId.new]
      case pos =>
        have hid := hi.autoTagNext_ne hlen
        refine ⟨{ y with
          currentThreadId := Function.update y.currentThreadId t y.autoTagNext,
          autoTagNext     := y.autoTagNext - 1,
          autoTagged      := y.autoTagged ++ [t] }, ?_, ?_, hf.1, ?_⟩
        · simp [ThreadTags.getCurrentThread, ThreadTags.isCurrentThreadUntagged, ht, ThreadId.new, hid]
        · simpa using hid
        · rwa [List.length_append]
    have hstep : (threadTags τ).Step y (.getCurrentThread t) y' :=
      ⟨trivial, by change Prod.snd <$> y.getCurrentThread t = _; rw [e]; rfl⟩
    have hi' := hi.step (ThreadTags.effect hstep) hf'
    have hpos := hi'.pos_iff hf' (t := t)
    have hneg := hi'.neg_iff hf' (t := t)
    have hzero : (y'.currentThreadId t).toInt ≠ 0 := fun hz => hne <| Int32.toInt_inj.mp hz
    have hhand : (⟨y'.currentThreadId t, y'.currentThreadName t⟩ : ThreadId).isHandTagged =
        decide (0 < (y'.currentThreadId t).toInt) := decide_eq_decide.mpr Int32.lt_iff_toInt_lt
    have hauto : (⟨y'.currentThreadId t, y'.currentThreadName t⟩ : ThreadId).isAutoTagged =
        decide ((y'.currentThreadId t).toInt < 0) := decide_eq_decide.mpr Int32.lt_iff_toInt_lt
    refine ⟨_, y', e, by rw [hhand, decide_eq_true_iff, hpos], by rw [hauto, decide_eq_true_iff, hneg], ?_⟩
    rw [hhand, hauto, ← decide_not]
    exact decide_eq_decide.mpr (by omega)

theorem thread_calls_fail_iff_tagged :
    ∃ y : ThreadTags (Fin 4), y.handTagged = [2, 1] ∧ y.autoTagged = [0] ∧
      (∃ f, y.tagCurrentThread 0 = .error f) ∧ ∃ f, y.setNameOfCurrentThread 0 "channel" = .error f := by
  obtain ⟨y, hr, hh, ha, hf⟩ := Machine.exists_reachable_of_replay (M := threadTags (Fin 4))
    (s := ⟨_, _, _, _, _, _⟩) (fun _ _ => True) tagged
    (P := fun y => y.handTagged = [2, 1] ∧ y.autoTagged = [0] ∧
      y.handTagged.length < 2 ^ 31 ∧ y.autoTagged.length ≤ 2 ^ 31) rfl (by decide)
  have h := thread_calls_fail_iff hr hf 0
  exact ⟨y, hh, ha, h.1.mpr (by simp [ha]), (h.2.1 "channel").mpr (by simp [hh])⟩

end PipeRT
