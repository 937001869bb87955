import PipeRT.Basic
import PipeRT.Machine

namespace PipeRT

-- How far a thread is in `AddProfileData`, `RemoveProfileData` or `GatherNSend`.
inductive ProfilerCaller (P : Type) where
  | idle
  -- It has changed `next_profile_data_` from `-1` to `-2`.
  | adding (profileData : P)
  | removing (profileData : P)
  -- It is about to change it back.
  | leaving
  -- `registered` and `visited` are not data of the program: what was registered when the thread
  -- began, and what it has been through since.
  | gathering (registered visited : List P)
  deriving DecidableEq, Repr

namespace ProfilerCaller

variable {P : Type}

-- It is past the compare-and-exchange, and has not touched the vector yet.
def isAboutToEdit : ProfilerCaller P → Bool
  | adding _ | removing _ => true
  | _                     => false

def isEditing : ProfilerCaller P → Bool
  | adding _ | removing _ | leaving => true
  | _                               => false

def isGathering : ProfilerCaller P → Bool
  | gathering .. => true
  | _            => false

end ProfilerCaller

-- How far the thread is that runs `SleepNWork`.
inductive CollectorStage where
  -- It is about to look at `worker_shutdown_`.
  | looping
  -- It is to call `GatherNSend`, or is in it.
  | calling
  | sleeping
  | exited
  deriving DecidableEq, Repr

-- A `ProfilerImpl`, and the threads that use it. The collector thread is the caller `none`.
structure Registry (P τ : Type) where
  aggregationTimeMsec : Nat
  profileData         : List P
  nextProfileData     : Int
  workerShutdown      : Bool
  -- The thread is joinable if there is one.
  worker              : Option CollectorStage
  callers             : Option τ → ProfilerCaller P
  -- What was added and removed, and what every `GatherNSend` that has returned found and went through.
  added               : List P
  removed             : List P
  passes              : List (List P × List P)

inductive RegistryAction (P τ : Type) where
  -- `AddProfileData` or `RemoveProfileData` is called, changes the vector, and returns.
  | add (t : τ) (profileData : P)
  | remove (t : τ) (profileData : P)
  | edit (t : τ)
  | leave (t : τ)
  -- `GatherNSend` is called, goes through its outer loop once, and returns.
  | gather (t : Option τ)
  | visit (t : Option τ)
  | finish (t : Option τ)
  | start
  | stop
  | join
  | loop
  | wake
  deriving DecidableEq, Repr

namespace Registry

variable {P τ : Type}

def Guard (y : Registry P τ) : RegistryAction P τ → Prop
  | .add t _ | .remove t _ => y.callers (some t) = .idle
  | .edit t                => (y.callers (some t)).isAboutToEdit = true
  | .leave t               => y.callers (some t) = .leaving
  | .gather t              => y.callers t = .idle ∧ (t = none → y.worker = some .calling)
  | .visit t               => (y.callers t).isGathering = true ∧ y.nextProfileData < y.profileData.length
  | .finish t              => (y.callers t).isGathering = true ∧ ¬y.nextProfileData < y.profileData.length
  | .start | .stop         => True
  | .join                  => y.worker = some .exited
  | .loop                  => y.worker = some .looping
  | .wake                  => y.worker = some .sleeping

variable [DecidableEq P]

instance [DecidableEq τ] (y : Registry P τ) (a : RegistryAction P τ) : Decidable (y.Guard a) :=
  match a with
  | .add .. | .remove .. | .edit _ | .leave _ => inferInstanceAs (Decidable (_ = _))
  | .gather _                                 => inferInstanceAs (Decidable (_ ∧ (_ → _)))
  | .visit _                                  => inferInstanceAs (Decidable (_ ∧ _))
  | .finish _                                 => inferInstanceAs (Decidable (_ ∧ ¬_))
  | .start | .stop                            => inferInstanceAs (Decidable True)
  | .join | .loop | .wake                     => inferInstanceAs (Decidable (_ = _))

-- `*iter = profile_data_.back(); profile_data_.pop_back();`
def eraseUnordered (l : List P) (p : P) : List P :=
  match l.getLast? with
  | none      => l
  | some back => (l.set (l.idxOf p) back).dropLast

variable [DecidableEq τ]

def setCaller (y : Registry P τ) (t : Option τ) (caller : ProfilerCaller P) : Registry P τ :=
  { y with callers := Function.update y.callers t caller }

def exec (y : Registry P τ) : RegistryAction P τ → Except Fault (Registry P τ)
  | .add t profileData    => do
    check (y.worker = none)
    check (y.nextProfileData = -1)
    return { y.setCaller (some t) (.adding profileData) with nextProfileData := -2 }
  | .remove t profileData => do
    check (y.worker = none)
    check (y.nextProfileData = -1)
    return { y.setCaller (some t) (.removing profileData) with nextProfileData := -2 }
  | .edit t               =>
    match y.callers (some t) with
    | .adding profileData   => do
      check (profileData ∉ y.profileData)
      return { y.setCaller (some t) .leaving with
        profileData := y.profileData ++ [profileData], added := profileData :: y.added }
    | .removing profileData => do
      check (profileData ∈ y.profileData)
      return { y.setCaller (some t) .leaving with
        profileData := eraseUnordered y.profileData profileData, removed := profileData :: y.removed }
    | _                     => return y
  | .leave t              => return { y.setCaller (some t) .idle with nextProfileData := -1 }
  | .gather t             => do
    check (y.nextProfileData = -1)
    return { y.setCaller t (.gathering y.profileData []) with nextProfileData := 0 }
  | .visit t              =>
    match y.callers t, y.profileData[y.nextProfileData.toNat]? with
    | .gathering registered visited, some profileData =>
      return { y.setCaller t (.gathering registered (visited ++ [profileData])) with
        nextProfileData := y.nextProfileData + 1 }
    | _, _                                            => return y
  | .finish t             =>
    match y.callers t with
    | .gathering registered visited =>
      return { y.setCaller t .idle with
        nextProfileData := -1,
        worker          := if t = none then y.worker.map fun _ => .sleeping else y.worker,
        passes          := y.passes ++ [(registered, visited)] }
    | _                             => return y
  | .start                => do
    check (y.worker = none)
    return { y with
      workerShutdown := false,
      worker         := if y.aggregationTimeMsec ≠ 0 then some .looping else none }
  -- `Stop` waits for the thread after that, and joins it.
  | .stop                 => do
    check (y.aggregationTimeMsec ≠ 0 ↔ y.worker ≠ none)
    return { y with workerShutdown := true }
  | .join                 => return { y with worker := none }
  | .loop                 =>
    return { y with worker := some (if y.workerShutdown then .exited else .calling) }
  | .wake                 => return { y with worker := some .looping }

end Registry

def registry (P τ : Type) [DecidableEq P] [DecidableEq τ] :
    Machine (Registry P τ) (RegistryAction P τ) Fault where
  Init y := ∃ aggregationTimeMsec,
            y = ⟨aggregationTimeMsec, [], -1, false, none, fun _ => .idle, [], [], []⟩
  Guard  := Registry.Guard
  exec   := Registry.exec

instance {P τ : Type} [DecidableEq P] [DecidableEq τ] (y : Registry P τ) (a : RegistryAction P τ) :
    Decidable ((registry P τ).Guard y a) :=
  inferInstanceAs (Decidable (y.Guard a))

namespace Registry

variable {P τ : Type} [DecidableEq P] [DecidableEq τ]

theorem eraseUnordered_perm {l : List P} {p : P} (h : p ∈ l) : (eraseUnordered l p).Perm (l.erase p) := by
  rw [eraseUnordered]
  cases hlast : l.getLast?
  case none =>
    rw [List.getLast?_eq_none_iff.mp hlast] at h
    contradiction
  case some back =>
    have hlt := List.idxOf_lt_length_of_mem h
    -- The last element stays where it is.
    have hback : (l.set (l.idxOf p) back).getLast? = some back := by
      rw [List.getLast?_eq_getElem?] at hlast ⊢
      rw [List.length_set, List.getElem?_set, hlast]
      split <;> simp_all
    have hsplit := List.dropLast_append_getLast? back hback
    have herase : l.erase p = l.eraseIdx (l.idxOf p) := List.erase_eq_eraseIdx_of_idxOf rfl
    have hperm := List.set_perm_cons_eraseIdx hlt back
    rw [← hsplit, ← herase] at hperm
    exact (List.perm_append_singleton ..).symm.trans hperm |>.cons_inv

variable {y y' : Registry P τ} {a : RegistryAction P τ}

-- What a step does that does not fail.
inductive Effect (y : Registry P τ) : RegistryAction P τ → Registry P τ → Prop
  | adds {t p} : y.callers (some t) = .idle → y.worker = none → y.nextProfileData = -1 →
    Effect y (.add t p) { y.setCaller (some t) (.adding p) with nextProfileData := -2 }
  | removes {t p} : y.callers (some t) = .idle → y.worker = none → y.nextProfileData = -1 →
    Effect y (.remove t p) { y.setCaller (some t) (.removing p) with nextProfileData := -2 }
  | added {t p} : y.callers (some t) = .adding p → p ∉ y.profileData →
    Effect y (.edit t) { y.setCaller (some t) .leaving with
      profileData := y.profileData ++ [p], added := p :: y.added }
  | removed {t p} : y.callers (some t) = .removing p → p ∈ y.profileData →
    Effect y (.edit t) { y.setCaller (some t) .leaving with
      profileData := eraseUnordered y.profileData p, removed := p :: y.removed }
  | left {t} : y.callers (some t) = .leaving →
    Effect y (.leave t) { y.setCaller (some t) .idle with nextProfileData := -1 }
  | gathers {t} : y.callers t = .idle → (t = none → y.worker = some .calling) →
    y.nextProfileData = -1 →
    Effect y (.gather t) { y.setCaller t (.gathering y.profileData []) with nextProfileData := 0 }
  | visited {t registered visited p} : y.callers t = .gathering registered visited →
    y.profileData[y.nextProfileData.toNat]? = some p →
    Effect y (.visit t) { y.setCaller t (.gathering registered (visited ++ [p])) with
      nextProfileData := y.nextProfileData + 1 }
  -- There is none at a negative position.
  | missed {t} : Effect y (.visit t) y
  | finished {t registered visited} : y.callers t = .gathering registered visited →
    ¬y.nextProfileData < y.profileData.length →
    Effect y (.finish t) { y.setCaller t .idle with
      nextProfileData := -1,
      worker          := if t = none then y.worker.map fun _ => .sleeping else y.worker,
      passes          := y.passes ++ [(registered, visited)] }
  | started : y.worker = none → Effect y .start { y with
      workerShutdown := false,
      worker         := if y.aggregationTimeMsec ≠ 0 then some .looping else none }
  | stopped : Effect y .stop { y with workerShutdown := true }
  | joined : y.worker = some .exited → Effect y .join { y with worker := none }
  | looped : y.worker = some .looping →
    Effect y .loop { y with worker := some (if y.workerShutdown then .exited else .calling) }
  | woken : y.worker = some .sleeping → Effect y .wake { y with worker := some .looping }

theorem effect (e : (registry P τ).Step y a y') : Effect y a y' := by
  have hg : y.Guard a := e.guard
  have he : y.exec a = .ok y' := e.exec
  cases a
  case add t p =>
    obtain ⟨_, hw, he⟩ := bind_eq_ok.mp he
    obtain ⟨_, hn, he⟩ := bind_eq_ok.mp he
    exact Except.ok.inj he ▸ .adds hg (of_check hw) (of_check hn)
  case remove t p =>
    obtain ⟨_, hw, he⟩ := bind_eq_ok.mp he
    obtain ⟨_, hn, he⟩ := bind_eq_ok.mp he
    exact Except.ok.inj he ▸ .removes hg (of_check hw) (of_check hn)
  case edit t =>
    cases hc : y.callers (some t)
    case adding p =>
      simp only [exec, hc] at he
      obtain ⟨_, hm, he⟩ := bind_eq_ok.mp he
      exact Except.ok.inj he ▸ .added hc (of_check hm)
    case removing p =>
      simp only [exec, hc] at he
      obtain ⟨_, hm, he⟩ := bind_eq_ok.mp he
      exact Except.ok.inj he ▸ .removed hc (of_check hm)
    all_goals simp [Guard, hc, ProfilerCaller.isAboutToEdit] at hg
  case leave t => exact Except.ok.inj he ▸ .left hg
  case gather t =>
    obtain ⟨_, hn, he⟩ := bind_eq_ok.mp he
    exact Except.ok.inj he ▸ .gathers hg.1 hg.2 (of_check hn)
  case visit t =>
    cases hc : y.callers t
    case gathering registered visited =>
      cases hp : y.profileData[y.nextProfileData.toNat]?
      case none =>
        simp only [exec, hc, hp] at he
        exact Except.ok.inj he ▸ .missed
      case some p =>
        simp only [exec, hc, hp] at he
        exact Except.ok.inj he ▸ .visited hc hp
    all_goals simp [Guard, hc, ProfilerCaller.isGathering] at hg
  case finish t =>
    cases hc : y.callers t
    case gathering registered visited =>
      simp only [exec, hc] at he
      exact Except.ok.inj he ▸ .finished hc hg.2
    all_goals simp [Guard, hc, ProfilerCaller.isGathering] at hg
  case start =>
    obtain ⟨_, hw, he⟩ := bind_eq_ok.mp he
    exact Except.ok.inj he ▸ .started (of_check hw)
  case stop =>
    obtain ⟨_, _, he⟩ := bind_eq_ok.mp he
    exact Except.ok.inj he ▸ .stopped
  case join => exact Except.ok.inj he ▸ .joined hg
  case loop => exact Except.ok.inj he ▸ .looped hg
  case wake => exact Except.ok.inj he ▸ .woken hg

variable {t : Option τ} {ok : Registry P τ → RegistryAction P τ → Prop}

-- Who is past the compare-and-exchange is there alone, and `next_profile_data_` says what it does.
structure Inv (y : Registry P τ) : Prop where
  alone     : ∀ t t', y.callers t ≠ .idle → y.callers t' ≠ .idle → t = t'
  free      : y.nextProfileData = -1 ↔ ∀ t, y.callers t = .idle
  editing   : ∀ t, (y.callers t).isEditing = true → y.nextProfileData = -2
  gathering : ∀ t registered visited, y.callers t = .gathering registered visited →
              registered = y.profileData ∧ y.nextProfileData = visited.length ∧
              visited = y.profileData.take visited.length
  collector : (y.callers none).isEditing = false ∧ (y.callers none ≠ .idle → y.worker = some .calling)
  nodup     : y.profileData.Nodup
  count     : ∀ p, y.added.count p = y.removed.count p + y.profileData.count p
  passes    : ∀ pass ∈ y.passes, pass.2 = pass.1 ∧ pass.1.Nodup

namespace Inv

omit [DecidableEq τ] in
theorem others (h : y.Inv) (ht : y.callers t ≠ .idle) (t' : Option τ) (ht' : t' ≠ t) :
    y.callers t' = .idle := by
  by_contra hn
  exact ht' <| h.alone t' t hn ht

-- A thread goes on while the others are outside.
theorem of_update (caller : ProfilerCaller P) (others : ∀ t', t' ≠ t → y.callers t' = .idle)
    (callers : y'.callers = Function.update y.callers t caller)
    (free : y'.nextProfileData = -1 ↔ caller = .idle)
    (editing : caller.isEditing = true → y'.nextProfileData = -2)
    (gathering : ∀ registered visited, caller = .gathering registered visited →
      registered = y'.profileData ∧ y'.nextProfileData = visited.length ∧
      visited = y'.profileData.take visited.length)
    (collector : t = none → caller.isEditing = false ∧ (caller ≠ .idle → y'.worker = some .calling))
    (nodup : y'.profileData.Nodup)
    (count : ∀ p, y'.added.count p = y'.removed.count p + y'.profileData.count p)
    (passes : ∀ pass ∈ y'.passes, pass.2 = pass.1 ∧ pass.1.Nodup) : y'.Inv := by
  have hself : y'.callers t = caller := by rw [callers, Function.update_self]
  have hne : ∀ t', t' ≠ t → y'.callers t' = .idle := fun t' ht' => by
    rw [callers, Function.update_of_ne ht', others t' ht']
  have hidle : ∀ t', y'.callers t' ≠ .idle → t' = t := fun t' ht' => by
    by_contra hn
    exact ht' (hne t' hn)
  refine {
    alone     := fun t₁ t₂ h₁ h₂ => (hidle t₁ h₁).trans (hidle t₂ h₂).symm
    free      := ?free
    editing   := fun t' ht' => ?editing
    gathering := fun t' registered visited ht' => ?gathering
    collector := ?collector
    nodup, count, passes }
  case free =>
    rw [free]
    refine ⟨fun hc t' => ?_, fun hall => hself.symm.trans (hall t)⟩
    by_cases ht' : t' = t
    case pos => rw [ht', hself, hc]
    case neg => exact hne t' ht'
  case editing =>
    obtain rfl := hidle t' fun hi => by rw [hi] at ht'; contradiction
    exact editing (hself ▸ ht')
  case gathering =>
    obtain rfl := hidle t' fun hi => by rw [hi] at ht'; contradiction
    exact gathering _ _ (hself.symm.trans ht')
  case collector =>
    by_cases ht : t = none
    case pos =>
      rw [← ht, hself]
      exact collector ht
    case neg =>
      rw [hne none (Ne.symm ht)]
      exact ⟨rfl, fun hn => absurd rfl hn⟩

-- Nothing changes but the collector thread, which is not in `GatherNSend`.
omit [DecidableEq τ] in
theorem of_worker (h : y.Inv) (hw : y.worker ≠ some .calling) (hc : y'.callers = y.callers)
    (hn : y'.nextProfileData = y.nextProfileData) (hp : y'.profileData = y.profileData)
    (hl : (y'.added, y'.removed, y'.passes) = (y.added, y.removed, y.passes)) : y'.Inv := by
  obtain ⟨ha, hl⟩ := Prod.mk.inj hl
  obtain ⟨hr, hs⟩ := Prod.mk.inj hl
  have hidle : y.callers none = .idle := by
    by_contra hi
    exact hw (h.collector.2 hi)
  refine ⟨hc ▸ h.alone, by rw [hn, hc, h.free], by rw [hn, hc]; exact h.editing,
    by rw [hn, hc, hp]; exact h.gathering, ?_, hp ▸ h.nodup, by rw [ha, hr, hp]; exact h.count,
    hs ▸ h.passes⟩
  rw [hc, hidle]
  exact ⟨rfl, fun hi => absurd rfl hi⟩

theorem step (h : y.Inv) (e : Effect y a y') : y'.Inv := by
  cases e
  case adds t p _ _ hn =>
    have hidle := h.free.mp hn
    exact of_update (.adding p) (fun t' _ => hidle t') rfl (iff_of_false nofun nofun) (fun _ => rfl)
      nofun nofun h.nodup h.count h.passes
  case removes t p _ _ hn =>
    have hidle := h.free.mp hn
    exact of_update (.removing p) (fun t' _ => hidle t') rfl (iff_of_false nofun nofun) (fun _ => rfl)
      nofun nofun h.nodup h.count h.passes
  case added t p ht hp =>
    have hnext := h.editing (some t) (by rw [ht]; rfl)
    have hfree : y.nextProfileData = -1 ↔ (.leaving : ProfilerCaller P) = .idle := by simp [hnext]
    refine of_update .leaving (h.others (by rw [ht]; nofun)) rfl hfree (fun _ => hnext) nofun nofun ?_
      (fun q => ?_) h.passes
    · exact List.nodup_append.mpr ⟨h.nodup, List.nodup_singleton p, fun q hq q' hq' he =>
        hp (List.mem_singleton.mp hq' ▸ he ▸ hq)⟩
    · have := h.count q
      simp only [setCaller, List.count_append, List.count_cons, List.count_nil]
      omega
  case removed t p ht hp =>
    have hnext := h.editing (some t) (by rw [ht]; rfl)
    have hfree : y.nextProfileData = -1 ↔ (.leaving : ProfilerCaller P) = .idle := by simp [hnext]
    have hperm := eraseUnordered_perm hp
    refine of_update .leaving (h.others (by rw [ht]; nofun)) rfl hfree (fun _ => hnext) nofun nofun
      (hperm.nodup_iff.mpr <| h.nodup.erase p) (fun q => ?_) h.passes
    have := h.count q
    have hpos := List.count_pos_iff.mpr hp
    simp only [setCaller, hperm.count_eq, List.count_cons, List.count_erase]
    split
    case isTrue hq =>
      obtain rfl := eq_of_beq hq
      omega
    case isFalse => omega
  case left t ht =>
    exact of_update .idle (h.others (by rw [ht]; nofun)) rfl (iff_of_true rfl rfl) nofun nofun nofun
      h.nodup h.count h.passes
  case gathers t ht hc hn =>
    have hidle := h.free.mp hn
    refine of_update (.gathering y.profileData []) (fun t' _ => hidle t') rfl (iff_of_false nofun nofun)
      nofun (fun registered visited he => ?_) (fun hnone => ⟨rfl, fun _ => hc hnone⟩) h.nodup h.count h.passes
    obtain ⟨rfl, rfl⟩ := ProfilerCaller.gathering.inj he
    exact ⟨rfl, rfl, rfl⟩
  case visited t registered visited p ht hp =>
    obtain ⟨rfl, hn, hv⟩ := h.gathering t _ _ ht
    rw [hn, Int.toNat_natCast] at hp
    refine of_update (.gathering y.profileData (visited ++ [p])) (h.others (by rw [ht]; nofun)) rfl ?_
      nofun (fun registered' visited' he => ?_) (fun hnone => ⟨rfl, fun _ => ?_⟩) h.nodup h.count h.passes
    · refine iff_of_false ?_ nofun
      simp only [hn]
      omega
    · obtain ⟨rfl, rfl⟩ := ProfilerCaller.gathering.inj he
      refine ⟨rfl, by simp [hn], ?_⟩
      change _ = y.profileData.take _
      rw [List.length_append, List.length_singleton, List.take_add_one, ← hv, hp]
      rfl
    · exact h.collector.2 (by rw [← hnone, ht]; nofun)
  case missed => exact h
  case finished t registered visited ht hn =>
    obtain ⟨rfl, hnext, hv⟩ := h.gathering t _ _ ht
    have hall : visited = y.profileData := by
      rw [hv]
      exact List.take_of_length_le (by omega)
    refine of_update .idle (h.others (by rw [ht]; nofun)) rfl (iff_of_true rfl rfl) nofun nofun
      (fun _ => ⟨rfl, fun hi => absurd rfl hi⟩) h.nodup h.count fun pass hpass => ?_
    cases List.mem_append.mp hpass
    case inl hpass => exact h.passes pass hpass
    case inr hpass =>
      obtain rfl := List.mem_singleton.mp hpass
      exact ⟨hall, h.nodup⟩
  case started hw => exact h.of_worker (by rw [hw]; nofun) rfl rfl rfl rfl
  case stopped =>
    exact ⟨h.alone, h.free, h.editing, h.gathering, h.collector, h.nodup, h.count, h.passes⟩
  case joined hw => exact h.of_worker (by rw [hw]; nofun) rfl rfl rfl rfl
  case looped hw => exact h.of_worker (by rw [hw]; nofun) rfl rfl rfl rfl
  case woken hw => exact h.of_worker (by rw [hw]; nofun) rfl rfl rfl rfl

end Inv

theorem inv (h : (registry P τ).Reachable ok y) : y.Inv := by
  refine h.induction (fun y hy => ?_) fun y _ _ _ hy _ e => hy.step (effect e)
  obtain ⟨_, rfl⟩ := hy
  exact ⟨fun _ _ hi => absurd rfl hi, iff_of_true rfl fun _ => rfl, nofun, nofun,
    ⟨rfl, fun hi => absurd rfl hi⟩, List.nodup_nil, fun _ => rfl, nofun⟩

namespace Inv

variable (h : y.Inv)
include h

omit [DecidableEq τ] in
theorem busy_iff : y.nextProfileData ≠ -1 ↔ ∃ t, y.callers t ≠ .idle := by
  rw [ne_eq, h.free, not_forall]

omit [DecidableEq τ] in
theorem editing_iff : y.nextProfileData = -2 ↔ ∃ t, (y.callers t).isEditing = true := by
  refine ⟨fun hn => ?_, fun ⟨t, ht⟩ => h.editing t ht⟩
  obtain ⟨t, ht⟩ := h.busy_iff.mp (by rw [hn]; decide)
  refine ⟨t, ?_⟩
  cases hc : y.callers t
  case idle => exact absurd hc ht
  case gathering registered visited =>
    have := (h.gathering t _ _ hc).2.1
    omega
  all_goals rfl

omit [DecidableEq τ] in
theorem gathering_iff (n : Nat) : y.nextProfileData = n ↔
    ∃ t registered visited, y.callers t = .gathering registered visited ∧ visited.length = n := by
  constructor
  case mpr =>
    rintro ⟨t, registered, visited, ht, rfl⟩
    exact (h.gathering t _ _ ht).2.1
  case mp =>
    intro hn
    obtain ⟨t, ht⟩ := h.busy_iff.mp (by rw [hn]; omega)
    cases hc : y.callers t
    case idle => exact absurd hc ht
    case gathering registered visited =>
      exact ⟨t, registered, visited, hc, by have := (h.gathering t _ _ hc).2.1; omega⟩
    all_goals
      have := h.editing t (by rw [hc]; rfl)
      omega

-- The vector stays as it is while a thread goes through it.
theorem profileData_eq {registered visited : List P} (ht : y.callers t = .gathering registered visited)
    (e : Effect y a y') : y'.profileData = y.profileData := by
  have hnext := (h.gathering t _ _ ht).2.1
  cases e
  case added hc _ =>
    have := h.editing _ (by rw [hc]; rfl)
    omega
  case removed hc _ =>
    have := h.editing _ (by rw [hc]; rfl)
    omega
  all_goals rfl

end Inv
end Registry

-- One thread at a time is in `AddProfileData`, `RemoveProfileData` or `GatherNSend`, past the
-- compare-and-exchange. It fails for the others, and `next_profile_data_` says what is going on.
theorem registry_exclusive {P τ : Type} [DecidableEq P] [DecidableEq τ]
    {ok : Registry P τ → RegistryAction P τ → Prop} {y : Registry P τ}
    (h : (registry P τ).Reachable ok y) :
    (∀ t t', y.callers t ≠ .idle → y.callers t' ≠ .idle → t = t') ∧
    (y.nextProfileData = -1 ↔ ∀ t, y.callers t = .idle) ∧
    (y.nextProfileData = -2 ↔ ∃ t, (y.callers t).isEditing = true) ∧
    (∀ n : Nat, y.nextProfileData = n ↔
      ∃ t registered visited, y.callers t = .gathering registered visited ∧ visited.length = n) ∧
    ∀ t, (registry P τ).Guard y (.gather t) →
      ((∃ f, (registry P τ).exec y (.gather t) = .error f) ↔ ∃ t', y.callers t' ≠ .idle) := by
  have hi := Registry.inv h
  refine ⟨hi.alone, hi.free, hi.editing_iff, hi.gathering_iff, fun t _ => ?_⟩
  rw [← hi.busy_iff]
  change (∃ f, y.exec (.gather t) = .error f) ↔ _
  by_cases hn : y.nextProfileData = -1
  case pos => simp [Registry.exec, hn]
  case neg => simp [Registry.exec, hn, check, bind, Except.bind]

-- Two channels are registered, and the collector thread is with the second one.
def collecting : List (RegistryAction Nat Bool) :=
  [.add false 7, .edit false, .leave false, .add true 8, .edit true, .leave true, .add false 9,
    .edit false, .leave false, .remove false 7, .edit false, .leave false, .start, .loop, .gather none, .visit none]

theorem registry_exclusive_collecting :
    ∃ y, (registry Nat Bool).Reachable (fun _ _ => True) y ∧ y.profileData = [9, 8] ∧
      y.nextProfileData = 1 ∧
      (∃ f, (registry Nat Bool).exec y (.gather (some false)) = .error f) ∧
      ∃ t registered visited, y.callers t = .gathering registered visited ∧ visited.length = 1 := by
  obtain ⟨y, hr, hp, hn, hg, hc⟩ := Machine.exists_reachable_of_replay (M := registry Nat Bool)
    (s := ⟨5, [], -1, false, none, fun _ => .idle, [], [], []⟩) (fun _ _ => True) collecting
    (P := fun y => y.profileData = [9, 8] ∧ y.nextProfileData = 1 ∧
      (registry Nat Bool).Guard y (.gather (some false)) ∧ y.callers none ≠ .idle)
    ⟨5, rfl⟩ (by decide)
  have h := registry_exclusive hr
  exact ⟨y, hr, hp, hn, (h.2.2.2.2 _ hg).mpr ⟨none, hc⟩, (h.2.2.2.1 1).mp hn⟩

-- The collector thread and manual calls go through exactly what is registered, each of them once and
-- in order, and what is registered is what was added and not removed since.
theorem registry_passes {P τ : Type} [DecidableEq P] [DecidableEq τ]
    {ok : Registry P τ → RegistryAction P τ → Prop} {y : Registry P τ}
    (h : (registry P τ).Reachable ok y) :
    y.profileData.Nodup ∧
    (∀ p, y.added.count p = y.removed.count p + y.profileData.count p) ∧
    (∀ registered visited, (registered, visited) ∈ y.passes → visited = registered ∧ registered.Nodup) ∧
    ∀ t registered visited, y.callers t = .gathering registered visited →
      registered = y.profileData ∧ visited <+: y.profileData ∧
      ∀ a y', (registry P τ).Step y a y' → y'.profileData = y.profileData := by
  have hi := Registry.inv h
  refine ⟨hi.nodup, hi.count, fun registered visited => hi.passes _, fun t registered visited ht => ?_⟩
  obtain ⟨hr, _, hv⟩ := hi.gathering t _ _ ht
  refine ⟨hr, ?_, fun a y' e => hi.profileData_eq ht (Registry.effect e)⟩
  rw [hv]
  exact List.take_prefix ..

theorem registry_passes_collecting :
    ∃ y, (registry Nat Bool).Reachable (fun _ _ => True) y ∧ y.passes = [([9, 8], [9, 8])] ∧
      y.profileData.Nodup ∧ ∀ p, y.added.count p = y.removed.count p + y.profileData.count p := by
  obtain ⟨y, hr, hp⟩ := Machine.exists_reachable_of_replay (M := registry Nat Bool)
    (s := ⟨5, [], -1, false, none, fun _ => .idle, [], [], []⟩) (fun _ _ => True)
    (collecting ++ [.visit none, .finish none]) (P := fun y => y.passes = [([9, 8], [9, 8])])
    ⟨5, rfl⟩ (by decide)
  have h := registry_passes hr
  exact ⟨y, hr, hp, h.1, h.2.1⟩

end PipeRT
