import PipeRT.Linked
import PipeRT.Profile.Profilers

namespace PipeRT

open ProfilerFault

namespace Profilers

variable {ι : Type} {aton : List Char → Option InAddr} {y y' : Profilers ι} {a : ProfilersAction ι}
variable {i o : ι} {k : Nat} {fault : ProfilerFault}

-- What the `Profiler` has that owns the implementation `k`.
def handleOf (k : Nat) : Bound → Handle
  | .file f       => ⟨some k, some f, none⟩
  | .connection c => ⟨some k, none, some c⟩

@[simp]
theorem handleOf_impl {bound : Bound} : (handleOf k bound).impl = some k := by
  cases bound <;> rfl

-- Every implementation that is alive is lost or belongs to one `Profiler`, and goes together with the
-- file or the connection that it sends to. A scheduler uses that of its own `Profiler`.
structure Owned (y : Profilers ι) : Prop where
  bound  : ∀ k impl, y.impls k = some impl →
           (impl.bound = .file k ∨ impl.bound = .connection k) ∧ y.Open impl.bound = true
  opened : ∀ bound, y.Open bound = true → ∃ k impl, y.impls k = some impl ∧ impl.bound = bound
  handle : ∀ i handle, y.handles i = some handle →
           handle = .empty ∨ ∃ k impl, y.impls k = some impl ∧ handle = handleOf k impl.bound
  links  : ∃ holder, Linked (fun k => (y.impls k).isSome = true ∧ k ∉ y.lost) y.implOf holder
  lost   : ∀ k ∈ y.lost, (y.impls k).isSome = true
  fresh  : ∀ k, (y.impls k).isSome = true → k < y.next
  member : ∀ i scheduler, y.schedulers i = some scheduler →
           (y.handles i).isSome = true ∧ scheduler.profiler = y.implOf i
  used   : ∀ i scheduler k impl, y.schedulers i = some scheduler → scheduler.profiler = some k →
           y.impls k = some impl → impl.profileData = scheduler.channels ∧
           (impl.collecting = true ↔ scheduler.running = true ∧ impl.aggregationTimeMsec ≠ 0)
  idle   : ∀ k impl, y.impls k = some impl →
           (∀ i scheduler, y.schedulers i = some scheduler → scheduler.profiler ≠ some k) →
           impl.profileData = 0 ∧ impl.collecting = false

namespace Owned

theorem init : Owned (⟨fun _ => none, fun _ => none, fun _ => none, fun _ => none, 0, fun _ => none, []⟩ :
    Profilers ι) where
  bound    := nofun
  opened b := by cases b <;> exact nofun
  handle   := nofun
  links    := ⟨fun _ => none, nofun, nofun⟩
  lost     := nofun
  fresh    := nofun
  member   := nofun
  used     := nofun
  idle     := nofun

theorem send (h : y.Owned) (hk : (y.impls k).isSome = true) : y.send k = .ok () := by
  obtain ⟨impl, himpl⟩ := Option.isSome_iff_exists.mp hk
  rw [Profilers.send, deref, himpl]
  exact if_pos <| .inr (h.bound k impl himpl).2

-- What a `Profiler` has is alive.
theorem isSome_implOf (h : y.Owned) (hi : y.implOf i = some k) : (y.impls k).isSome = true := by
  obtain ⟨_, hlinks⟩ := h.links
  exact (hlinks.back i k hi).1.1

theorem implOf_unique (h : y.Owned) (hi : y.implOf i = some k) (ho : y.implOf o = some k) : i = o := by
  obtain ⟨_, hlinks⟩ := h.links
  exact hlinks.owner_unique hi ho

theorem no_scheduler (h : y.Owned) (hi : y.handles i = none) : y.schedulers i = none := by
  by_contra hs
  obtain ⟨scheduler, hs⟩ := Option.ne_none_iff_exists'.mp hs
  simpa [hi] using (h.member i scheduler hs).1

-- Nobody else uses what a `Profiler` has that is of no scheduler.
theorem idle_implOf {impl : Impl} (h : y.Owned) (hs : y.schedulers i = none) (hi : y.implOf i = some k)
    (hk : y.impls k = some impl) : impl.profileData = 0 ∧ impl.collecting = false := by
  refine h.idle k impl hk fun j scheduler hj hp => ?_
  have hne : j ≠ i := fun he => by simp [he, hs] at hj
  exact hne <| h.implOf_unique ((h.member j scheduler hj).2.symm.trans hp) hi

end Owned

variable [DecidableEq ι]

theorem implOf_update (handle : Option Handle) :
    implOf { y with handles := Function.update y.handles i handle } =
      Function.update y.implOf i (handle.bind Handle.impl) := by
  funext j
  by_cases hj : j = i
  case pos =>
    subst hj
    simp [implOf]
  case neg => simp [implOf, hj]

omit [DecidableEq ι] in
theorem update_some_eq_some {α β : Type} [DecidableEq α] {f : α → Option β} {a a' : α} {b c : β} :
    Function.update f a (some b) a' = some c ↔ a' = a ∧ c = b ∨ a' ≠ a ∧ f a' = some c := by
  by_cases ha : a' = a
  case pos => simp [ha, eq_comm]
  case neg => simp [ha]

-- A file or a connection is opened.
structure Opens (y z : Profilers ι) (bound : Bound) : Prop where
  frame  : z = { y with files := z.files, connections := z.connections }
  isOpen : ∀ other, z.Open other = true ↔ other = bound ∨ y.Open other = true

omit [DecidableEq ι] in
theorem opens_file {f : Nat} {filename : List Char} :
    Opens y { y with files := Function.update y.files f (some filename) } (.file f) := by
  refine ⟨rfl, fun other => ?_⟩
  cases other
  case connection => simp [Open]
  case file f' =>
    by_cases hf : f' = f
    case pos => simp [Open, hf]
    case neg => simp [Open, hf]

omit [DecidableEq ι] in
theorem opens_connection {c : Nat} {address : InAddr × Nat} :
    Opens y { y with connections := Function.update y.connections c (some address) } (.connection c) := by
  refine ⟨rfl, fun other => ?_⟩
  cases other
  case file => simp [Open]
  case connection c' =>
    by_cases hc : c' = c
    case pos => simp [Open, hc]
    case neg => simp [Open, hc]

-- `i` gets an implementation that is made for it.
theorem Owned.newImpl {z z' : Profilers ι} {bound : Bound} {aggregationTimeMsec bufferSize : Int} (h : y.Owned)
    (hi : y.handles i = none) (hb : bound = .file y.next ∨ bound = .connection y.next) (hz : Opens y z bound)
    (he : z.newImpl i bound (handleOf y.next bound) aggregationTimeMsec bufferSize = .ok z') : z'.Owned := by
  obtain ⟨_, _, he⟩ := bind_eq_ok.mp he
  obtain ⟨_, _, he⟩ := bind_eq_ok.mp he
  obtain rfl := Except.ok.inj he
  have hisOpen := hz.isOpen
  obtain ⟨files, connections, rfl⟩ : ∃ files connections, z = { y with files, connections } :=
    ⟨_, _, hz.frame⟩
  have hne : ∀ k, (y.impls k).isSome = true → k ≠ y.next := fun k hk => (h.fresh k hk).ne
  have hnone : y.impls y.next = none := by
    by_contra hs
    exact hne y.next (Option.isSome_iff_ne_none.mpr hs) rfl
  have hused : ∀ j k, y.implOf j = some k → k ≠ y.next := fun j k hj => hne k <| h.isSome_implOf hj
  refine {
    bound  := fun k impl hk => ?bound
    opened := fun other ho => ?opened
    handle := fun j handle hj => ?handle
    links  := ?links
    lost   := fun k hk => ?lost
    fresh  := fun k hk => ?fresh
    member := fun j scheduler hj => ?member
    used   := fun j scheduler k impl hj hp hk => ?used
    idle   := fun k impl hk hp => ?idle }
  case bound =>
    by_cases hkn : k = y.next
    case pos =>
      subst hkn
      obtain rfl : _ = impl := by simpa using hk
      exact ⟨hb, (hisOpen _).mpr <| .inl rfl⟩
    case neg =>
      have hk : y.impls k = some impl := by simpa [hkn] using hk
      exact ⟨(h.bound k impl hk).1, (hisOpen _).mpr <| .inr (h.bound k impl hk).2⟩
  case opened =>
    cases (hisOpen other).mp ho
    case inl ho =>
      subst ho
      exact ⟨y.next, _, Function.update_self .., rfl⟩
    case inr ho =>
      obtain ⟨k, impl, hk, hbound⟩ := h.opened other ho
      have hkn : k ≠ y.next := hne k <| by simp [hk]
      exact ⟨k, impl, by simpa [hkn] using hk, hbound⟩
  case handle =>
    by_cases hji : j = i
    case pos =>
      subst hji
      obtain rfl : _ = handle := by simpa using hj
      exact .inr ⟨y.next, _, Function.update_self .., rfl⟩
    case neg =>
      obtain rfl | ⟨k, impl, hk, rfl⟩ := h.handle j handle <| by simpa [hji] using hj
      case inl => exact .inl rfl
      case inr =>
        have hkn : k ≠ y.next := hne k <| by simp [hk]
        exact .inr ⟨k, impl, by simpa [hkn] using hk, rfl⟩
  case links =>
    obtain ⟨holder, hlinks⟩ := h.links
    refine ⟨Function.update holder y.next (some i), ?_⟩
    have himpl := implOf_update (y := y) (i := i) <| some <| handleOf y.next bound
    rw [Option.bind_some, handleOf_impl] at himpl
    refine himpl ▸ hlinks.add (by simp [implOf, hi]) (by simp [hnone]) fun k => ?_
    by_cases hkn : k = y.next
    case pos =>
      have hlost : y.next ∉ y.lost := fun hm => hne _ (h.lost _ hm) rfl
      simp [hkn, hlost]
    case neg => simp [hkn]
  case lost => simpa [hne k <| h.lost k hk] using h.lost k hk
  case fresh =>
    by_cases hkn : k = y.next
    case pos => exact hkn ▸ Nat.lt_succ_self _
    case neg => exact (h.fresh k <| by simpa [hkn] using hk).trans <| Nat.lt_succ_self _
  case member =>
    obtain ⟨hs, hp⟩ := h.member j scheduler hj
    have hji : j ≠ i := fun he => by simp [he, hi] at hs
    exact ⟨by simpa [hji] using hs, hp.trans <| by simp [implOf, hji]⟩
  case used =>
    have hkn := hused j k <| (h.member j scheduler hj).2.symm.trans hp
    exact h.used j scheduler k impl hj hp <| by simpa [hkn] using hk
  case idle =>
    by_cases hkn : k = y.next
    case pos =>
      subst hkn
      obtain rfl : _ = impl := by simpa using hk
      exact ⟨rfl, rfl⟩
    case neg => exact h.idle k impl (by simpa [hkn] using hk) hp

-- A `Profiler` without a destination is made or destroyed.
theorem Owned.setEmpty {handle : Option Handle} (h : y.Owned) (hi : y.implOf i = none)
    (hs : y.schedulers i = none) (hh : ∀ h ∈ handle, h = .empty) :
    Owned { y with handles := Function.update y.handles i handle } := by
  have himpl : implOf { y with handles := Function.update y.handles i handle } = y.implOf := by
    rw [implOf_update]
    refine Function.update_eq_self_iff.mpr ?_
    cases handle
    case none   => exact hi.symm
    case some h => exact hh h rfl ▸ hi.symm
  refine { h with
    handle := fun j other hj => ?handle
    links  := ?links
    member := fun j scheduler hj => ?member }
  case handle =>
    by_cases hji : j = i
    case pos =>
      subst hji
      exact .inl <| hh other <| by simpa using hj
    case neg => exact h.handle j other <| by simpa [hji] using hj
  case links =>
    rw [himpl]
    exact h.links
  case member =>
    have hji : j ≠ i := fun he => by simp [he, hs] at hj
    rw [himpl]
    simpa [hji] using h.member j scheduler hj

theorem Owned.construct {memory uri : List Char} {aggregationTimeMsec bufferSize : Int} {opened : Bool}
    (h : y.Owned) (hi : y.handles i = none)
    (he : y.construct aton i memory uri aggregationTimeMsec bufferSize opened = .ok y') : y'.Owned := by
  obtain ⟨target, _, he⟩ := bind_eq_ok.mp he
  cases target
  case none =>
    obtain rfl := Except.ok.inj he
    exact h.setEmpty (by simp [implOf, hi]) (h.no_scheduler hi) fun _ he => (Option.some.inj he).symm
  case udp address port _ =>
    obtain ⟨_, _, he⟩ := bind_eq_ok.mp he
    cases haddr : aton address
    case none => simp [haddr] at he
    case some addr =>
      simp only [haddr] at he
      exact h.newImpl hi (.inr rfl) opens_connection he
  case file filename _ =>
    obtain ⟨_, _, he⟩ := bind_eq_ok.mp he
    exact h.newImpl hi (.inl rfl) opens_file he

-- What `i` has is lost, and then it gets what `o` has.
theorem Owned.move (h : y.Owned) (hi : y.schedulers i = none) (ho : y.schedulers o = none) :
    (y.move i o).Owned := by
  cases hother : y.handles o
  case none => simpa only [Profilers.move, hother] using h
  case some other =>
    simp only [Profilers.move, hother]
    obtain ⟨holder, hlinks⟩ := h.links
    have hlose : Linked (fun k => (y.impls k).isSome = true ∧ k ∉ (y.implOf i).toList ++ y.lost)
        (Function.update y.implOf i none) holder := by
      cases hk : y.implOf i
      case none =>
        rw [Function.update_eq_self_iff.mpr hk.symm]
        simpa using hlinks
      case some k => exact hlinks.remove hk fun r => by simp [and_left_comm]
    have himpl : y.implOf o = other.impl := by simp [implOf, hother]
    have hmoved : ∃ holder, Linked (fun k => (y.impls k).isSome = true ∧ k ∉ (y.implOf i).toList ++ y.lost)
        (Function.update (Function.update y.implOf i other.impl) o none) holder := by
      by_cases hio : o = i
      case pos =>
        subst hio
        rw [Function.update_idem]
        exact ⟨holder, hlose⟩
      case neg =>
        cases hk : other.impl
        case none =>
          have hnone : none = Function.update y.implOf i none o := by simp [hio, himpl, hk]
          rw [Function.update_eq_self_iff.mpr hnone]
          exact ⟨holder, hlose⟩
        case some k =>
          have htransfer := hlose.transfer (o := o) (r := k) (by simp [hio, himpl, hk])
            (Function.update_self i none y.implOf)
          rw [Function.update_idem] at htransfer
          exact ⟨_, htransfer⟩
    have hnew : implOf { y with
        handles := Function.update (Function.update y.handles i (some other)) o (some .empty),
        lost    := (y.implOf i).toList ++ y.lost } =
          Function.update (Function.update y.implOf i other.impl) o none := by
      have hi := implOf_update (y := y) (i := i) <| some other
      have ho := implOf_update (y := { y with handles := Function.update y.handles i (some other) }) (i := o)
        (some .empty)
      rw [hi] at ho
      exact ho
    refine { h with
      handle := fun j handle hj => ?handle
      links  := hnew ▸ hmoved
      lost   := fun k hk => ?lost
      member := fun j scheduler hj => ?member }
    case handle =>
      by_cases hjo : j = o
      case pos =>
        subst hjo
        exact .inl <| by simpa [eq_comm] using hj
      case neg =>
        by_cases hji : j = i
        case pos =>
          subst hji
          exact h.handle o handle <| hother.trans <| by simpa [hjo] using hj
        case neg => exact h.handle j handle <| by simpa [hjo, hji] using hj
    case lost =>
      cases List.mem_append.mp hk
      case inl hk => exact h.isSome_implOf <| Option.mem_toList.mp hk
      case inr hk => exact h.lost k hk
    case member =>
      have hji : j ≠ i := fun he => by simp [he, hi] at hj
      have hjo : j ≠ o := fun he => by simp [he, ho] at hj
      rw [hnew]
      simpa [hji, hjo] using h.member j scheduler hj

-- A file or a connection is closed.
structure Closes (y z : Profilers ι) (bound : Bound) : Prop where
  frame  : z = { y with files := z.files, connections := z.connections }
  isOpen : ∀ other, z.Open other = true ↔ other ≠ bound ∧ y.Open other = true

omit [DecidableEq ι] in
theorem closes_file {f : Nat} : Closes y { y with files := Function.update y.files f none } (.file f) := by
  refine ⟨rfl, fun other => ?_⟩
  cases other
  case connection => simp [Open]
  case file f' =>
    by_cases hf : f' = f
    case pos => simp [Open, hf]
    case neg => simp [Open, hf]

omit [DecidableEq ι] in
theorem closes_connection {c : Nat} :
    Closes y { y with connections := Function.update y.connections c none } (.connection c) := by
  refine ⟨rfl, fun other => ?_⟩
  cases other
  case file => simp [Open]
  case connection c' =>
    by_cases hc : c' = c
    case pos => simp [Open, hc]
    case neg => simp [Open, hc]

-- `i` goes together with what it has.
theorem Owned.removed {z : Profilers ι} {impl : Impl} (h : y.Owned) (hs : y.schedulers i = none)
    (hi : y.implOf i = some k) (hk : y.impls k = some impl) (hz : Closes y z impl.bound) :
    Owned { z with impls := Function.update z.impls k none, handles := Function.update z.handles i none } := by
  have hisOpen := hz.isOpen
  obtain ⟨files, connections, rfl⟩ : ∃ files connections, z = { y with files, connections } :=
    ⟨_, _, hz.frame⟩
  have hbound : ∀ k' impl', y.impls k' = some impl' → impl'.bound = impl.bound → k' = k := by
    intro k' impl' hk' he
    obtain hb | hb := (h.bound k impl hk).1
    all_goals
      obtain hb' | hb' := (h.bound k' impl' hk').1
      all_goals simp_all
  have hlost : k ∉ y.lost := by
    obtain ⟨_, hlinks⟩ := h.links
    exact (hlinks.back i k hi).1.2
  have hold : ∀ k' impl', Function.update y.impls k none k' = some impl' → k' ≠ k ∧ y.impls k' = some impl' := by
    intro k' impl' hk'
    have hne : k' ≠ k := fun he => by simp [he] at hk'
    exact ⟨hne, by simpa [hne] using hk'⟩
  have hnew : implOf { y with
      files, connections, impls := Function.update y.impls k none,
      handles := Function.update y.handles i none } = Function.update y.implOf i none :=
    implOf_update (y := y) none
  refine {
    bound  := fun k' impl' hk' => ?bound
    opened := fun other ho => ?opened
    handle := fun j handle hj => ?handle
    links  := ?links
    lost   := fun k' hk' => ?lost
    fresh  := fun k' hk' => ?fresh
    member := fun j scheduler hj => ?member
    used   := fun j scheduler k' impl' hj hp hk' => ?used
    idle   := fun k' impl' hk' hp => ?idle }
  case bound =>
    obtain ⟨hne, hk'⟩ := hold k' impl' hk'
    obtain ⟨hb, ho⟩ := h.bound k' impl' hk'
    exact ⟨hb, (hisOpen _).mpr ⟨fun he => hne <| hbound k' impl' hk' he, ho⟩⟩
  case opened =>
    obtain ⟨hne, ho⟩ := (hisOpen other).mp ho
    obtain ⟨k', impl', hk', rfl⟩ := h.opened other ho
    have hkk : k' ≠ k := by
      rintro rfl
      exact hne <| congrArg Impl.bound <| Option.some.inj <| hk'.symm.trans hk
    exact ⟨k', impl', by simpa [hkk] using hk', rfl⟩
  case handle =>
    have hji : j ≠ i := fun he => by simp [he] at hj
    have hhandle : y.handles j = some handle := by simpa [hji] using hj
    obtain rfl | ⟨k', impl', hk', rfl⟩ := h.handle j handle hhandle
    case inl => exact .inl rfl
    case inr =>
      have hkk : k' ≠ k := by
        rintro rfl
        exact hji <| h.implOf_unique (by simp [implOf, hhandle]) hi
      exact .inr ⟨k', impl', by simpa [hkk] using hk', rfl⟩
  case links =>
    obtain ⟨holder, hlinks⟩ := h.links
    refine ⟨holder, hnew ▸ hlinks.remove hi fun r => ?_⟩
    by_cases hr : r = k
    case pos => simp [hr]
    case neg => simp [hr]
  case lost =>
    have hne : k' ≠ k := fun he => hlost <| he ▸ hk'
    simpa [hne] using h.lost k' hk'
  case fresh =>
    obtain ⟨impl', hk'⟩ := Option.isSome_iff_exists.mp hk'
    exact h.fresh k' <| Option.isSome_iff_exists.mpr ⟨impl', (hold k' impl' hk').2⟩
  case member =>
    have hji : j ≠ i := fun he => by simp [he, hs] at hj
    rw [hnew]
    simpa [hji] using h.member j scheduler hj
  case used => exact h.used j scheduler k' impl' hj hp (hold k' impl' hk').2
  case idle => exact h.idle k' impl' (hold k' impl' hk').2 hp

-- The destructor finds everything that it destroys.
theorem Owned.destruct (h : y.Owned) (hi : (y.handles i).isSome = true) (hs : y.schedulers i = none) :
    ∃ y', y.destruct i = .ok y' ∧ y'.Owned := by
  obtain ⟨handle, hhandle⟩ := Option.isSome_iff_exists.mp hi
  obtain rfl | ⟨k, impl, hk, rfl⟩ := h.handle i handle hhandle
  case inl =>
    have hnone : y.implOf i = none := by simp [implOf, hhandle, Handle.empty]
    have howned : Owned { y with handles := Function.update y.handles i none } :=
      h.setEmpty hnone hs (by simp)
    exact ⟨_, by rw [Profilers.destruct, hhandle]; rfl, howned⟩
  case inr =>
    have himpl : y.implOf i = some k := by simp [implOf, hhandle]
    obtain ⟨hdata, hcollecting⟩ := h.idle_implOf hs himpl hk
    have hopen := (h.bound k impl hk).2
    have hdelete : ∀ z : Profilers ι, z.impls = y.impls →
        z.deleteImpl k = .ok { z with impls := Function.update z.impls k none } := by
      intro z hz
      rw [deleteImpl, deref, hz, hk]
      simp [demand_of hdata, hcollecting]
    cases hb : impl.bound
    case file f =>
      rw [hb] at hopen
      have hclose : y.closeFile f = .ok { y with files := Function.update y.files f none } := if_pos hopen
      refine ⟨_, ?_, h.removed hs himpl hk (hb ▸ closes_file)⟩
      rw [Profilers.destruct, hhandle, hb]
      simp only [handleOf, Option.elim_some, Option.elim_none, hclose, ok_bind, hdelete, pure_eq_ok]
    case connection c =>
      rw [hb] at hopen
      have hclose : y.deleteConnection c = .ok { y with connections := Function.update y.connections c none } :=
        if_pos hopen
      refine ⟨_, ?_, h.removed hs himpl hk (hb ▸ closes_connection)⟩
      rw [Profilers.destruct, hhandle, hb]
      simp only [handleOf, Option.elim_some, Option.elim_none, hclose, ok_bind, hdelete, pure_eq_ok]

-- A scheduler changes what it has a profiler for, and remembers that it did.
theorem Owned.setImpl {scheduler scheduler' : Scheduler} {impl impl' : Impl} (h : y.Owned)
    (hs : y.schedulers i = some scheduler) (hi : scheduler.profiler = some k)
    (hi' : scheduler'.profiler = some k) (hk : y.impls k = some impl) (hb : impl'.bound = impl.bound)
    (hu : impl'.profileData = scheduler'.channels ∧
      (impl'.collecting = true ↔ scheduler'.running = true ∧ impl'.aggregationTimeMsec ≠ 0)) :
    ((y.setImpl k impl').setScheduler i scheduler').Owned := by
  have hmember := h.member i scheduler hs
  have himpls : ∀ {k' impl''}, Function.update y.impls k (some impl') k' = some impl'' →
      k' = k ∧ impl'' = impl' ∨ k' ≠ k ∧ y.impls k' = some impl'' := update_some_eq_some.mp
  have hschedulers : ∀ {j other}, Function.update y.schedulers i (some scheduler') j = some other →
      j = i ∧ other = scheduler' ∨ j ≠ i ∧ y.schedulers j = some other := update_some_eq_some.mp
  have hlive : ∀ k', (Function.update y.impls k (some impl') k').isSome = (y.impls k').isSome := by
    intro k'
    by_cases hkk : k' = k
    case pos => simp [hkk, hk]
    case neg => simp [hkk]
  have hkept : ∀ k' impl'', y.impls k' = some impl'' →
      ∃ new, Function.update y.impls k (some impl') k' = some new ∧ new.bound = impl''.bound := by
    intro k' impl'' hk'
    by_cases hkk : k' = k
    case neg => exact ⟨impl'', by simpa [hkk] using hk', rfl⟩
    case pos =>
      obtain rfl : impl = impl'' := Option.some.inj <| hk.symm.trans <| hkk ▸ hk'
      exact ⟨impl', by simp [hkk], hb⟩
  refine {
    bound  := fun k' impl'' hk' => ?bound
    opened := fun bound ho => ?opened
    handle := fun j handle hj => ?handle
    links  := ?links
    lost   := fun k' hk' => ?lost
    fresh  := fun k' hk' => ?fresh
    member := fun j other hj => ?member
    used   := fun j other k' impl'' hj hp hk' => ?used
    idle   := fun k' impl'' hk' hp => ?idle }
  case bound =>
    obtain ⟨rfl, rfl⟩ | ⟨_, hk'⟩ := himpls hk'
    case inl => exact hb ▸ h.bound k' impl hk
    case inr => exact h.bound k' impl'' hk'
  case opened =>
    obtain ⟨k', impl'', hk', rfl⟩ := h.opened bound ho
    exact ⟨k', hkept k' impl'' hk'⟩
  case handle =>
    obtain rfl | ⟨k', impl'', hk', rfl⟩ := h.handle j handle hj
    case inl => exact .inl rfl
    case inr =>
      obtain ⟨new, hnew, hbound⟩ := hkept k' impl'' hk'
      exact .inr ⟨k', new, hnew, by rw [hbound]⟩
  case links =>
    obtain ⟨holder, hlinks⟩ := h.links
    exact ⟨holder, hlinks.congr fun r => and_congr_left' <| by rw [← hlive r]; rfl⟩
  case lost => exact (hlive k').trans <| h.lost k' hk'
  case fresh => exact h.fresh k' <| (hlive k').symm.trans hk'
  case member =>
    obtain ⟨rfl, rfl⟩ | ⟨_, hold⟩ := hschedulers hj
    case inl => exact ⟨hmember.1, hi'.trans <| hi.symm.trans hmember.2⟩
    case inr => exact h.member j other hold
  case used =>
    obtain ⟨rfl, rfl⟩ | ⟨hji, hold⟩ := hschedulers hj
    all_goals obtain ⟨rfl, rfl⟩ | ⟨hkk, hk'⟩ := himpls hk'
    case inl.inl => exact hu
    case inl.inr => exact absurd (Option.some.inj <| hp.symm.trans hi') hkk
    case inr.inl =>
      exact absurd (h.implOf_unique ((h.member j other hold).2.symm.trans hp) <| hmember.2.symm.trans hi) hji
    case inr.inr => exact h.used j other k' impl'' hold hp hk'
  case idle =>
    obtain ⟨rfl, rfl⟩ | ⟨hkk, hk'⟩ := himpls hk'
    case inl => exact absurd hi' <| hp i scheduler' <| Function.update_self ..
    case inr =>
      refine h.idle k' impl'' hk' fun j other hj he => ?_
      by_cases hji : j = i
      case pos =>
        subst hji
        obtain rfl : scheduler = other := Option.some.inj <| hs.symm.trans hj
        exact hkk <| Option.some.inj <| he.symm.trans hi
      case neg => exact hp j other (update_some_eq_some.mpr <| .inr ⟨hji, hj⟩) he

-- A scheduler without a profiler.
theorem Owned.setScheduler {scheduler scheduler' : Scheduler} (h : y.Owned)
    (hs : y.schedulers i = some scheduler) (hi : scheduler.profiler = none)
    (hi' : scheduler'.profiler = none) : (y.setScheduler i scheduler').Owned := by
  have hschedulers : ∀ {j other}, Function.update y.schedulers i (some scheduler') j = some other →
      j = i ∧ other = scheduler' ∨ j ≠ i ∧ y.schedulers j = some other := update_some_eq_some.mp
  refine { h with
    member := fun j other hj => ?member
    used   := fun j other k impl hj hp hk => ?used
    idle   := fun k impl hk hp => h.idle k impl hk fun j other hj he => ?idle }
  case member =>
    obtain ⟨rfl, rfl⟩ | ⟨_, hj⟩ := hschedulers hj
    case inl => exact ⟨(h.member j scheduler hs).1, hi'.trans <| hi.symm.trans (h.member j scheduler hs).2⟩
    case inr => exact h.member j other hj
  case used =>
    obtain ⟨rfl, rfl⟩ | ⟨_, hj⟩ := hschedulers hj
    case inl => exact absurd (hp.symm.trans hi') nofun
    case inr => exact h.used j other k impl hj hp hk
  case idle =>
    by_cases hji : j = i
    case pos =>
      subst hji
      obtain rfl : scheduler = other := Option.some.inj <| hs.symm.trans hj
      exact absurd (he.symm.trans hi) nofun
    case neg => exact hp j other (update_some_eq_some.mpr <| .inr ⟨hji, hj⟩) he

end Profilers
end PipeRT
