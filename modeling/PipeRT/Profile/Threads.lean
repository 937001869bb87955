import PipeRT.Analyzer.Observed

namespace PipeRT

-- The channels `ι` and the threads `τ` with the names that are told of them.
structure Naming (ι τ : Type) where
  channelName       : ι → CString
  -- The threads that go through `RunTasks`.
  worker            : τ → Bool
  -- The name of a thread that was never given one.
  notAvailable      : CString
  kEventPushed      : CString
  kEventRetrieved   : CString
  kEventExecuteTime : CString
  -- What is in the `LogEventTypeRegistrar`.
  registered        : List CString
  -- "N/A".
  notAvailable_text : notAvailable.text = [78, 47, 65]
  -- "Packet Pushed".
  kEventPushed_text : kEventPushed.text = [80, 97, 99, 107, 101, 116, 32, 80, 117, 115, 104, 101, 100]
  retrieved_ne      : kEventRetrieved.address ≠ kEventPushed.address
  executeTime_ne    : kEventExecuteTime.address ≠ kEventPushed.address
  nodup             : (registered.map CString.address).Nodup

-- Where a worker is in `RunTasks`. Every other thread is outside of it.
inductive WorkerPlace (ι : Type) where
  | idle
  -- It has a packet of the channel, but not its name yet.
  | taken (i : ι)
  | executing (i : ι)
  deriving DecidableEq

namespace WorkerPlace

variable {ι : Type}

def taken? : WorkerPlace ι → Option ι
  | taken i           => some i
  | idle | executing _ => none

def executing? : WorkerPlace ι → Option ι
  | executing i    => some i
  | idle | taken _ => none

theorem executing?_eq_some {place : WorkerPlace ι} {i : ι} (h : place.executing? = some i) :
    place = executing i := by
  cases place
  case executing => exact congrArg _ <| Option.some.inj h
  all_goals contradiction

theorem taken?_eq_some {place : WorkerPlace ι} {i : ι} (h : place.taken? = some i) : place = taken i := by
  cases place
  case taken => exact congrArg _ <| Option.some.inj h
  all_goals contradiction

end WorkerPlace

-- The threads that log to the data of the channels, which are collected meanwhile.
structure Threads (ι τ D : Type) where
  profiles   : ι → Profile D
  -- `current_thread_name_`.
  threadName : τ → CString
  place      : τ → WorkerPlace ι
  -- The channel and the type of the event in the call of `Log` that comes to `TrackSender` next.
  tracking   : τ → Option (ι × CString)
  -- Who pushed to which channel: a worker that executes a packet of the first one, or another thread.
  pushes     : List (Option ι × ι)

inductive ThreadsAction (ι τ D : Type) where
  -- A callback or another thread logs, as in `Push`.
  | log (t : τ) (i : ι) (eventName : CString) (eventValue : D)
  | trackSender (t : τ)
  -- A worker takes a packet, which is logged in `PopNext`.
  | take (t : τ) (i : ι) (eventValue : D)
  | setName (t : τ)
  -- The callback returns, and `Execute` logs how long it took.
  | finish (t : τ) (eventValue : D)
  | collect (i : ι) (a : ProfileAction D)

-- What the clock does, and the thread that collects.
def ProfileAction.isCollecting {D : Type} : ProfileAction D → Bool
  | tick _ | gather _ | record .. | finish => true
  | log .. | trackSender ..                => false

namespace Threads

variable {ι τ D : Type} (N : Naming ι τ) (F : Double D)

def Guard (y : Threads ι τ D) : ThreadsAction ι τ D → Prop
  | .log t i eventName eventValue =>
    y.tracking t = none ∧ (N.worker t = true → (y.place t).executing?.isSome = true) ∧
    (y.profiles i).Guard (.log eventName eventValue)
  | .trackSender t => (y.tracking t).isSome = true
  | .take t i eventValue =>
    N.worker t = true ∧ (y.place t = .idle ∧ y.tracking t = none) ∧
    (y.profiles i).Guard (.log N.kEventRetrieved eventValue)
  | .setName t => y.tracking t = none ∧ (y.place t).taken?.isSome = true
  | .finish t eventValue =>
    y.tracking t = none ∧ ((y.place t).executing?.any fun i =>
      decide ((y.profiles i).Guard (.log N.kEventExecuteTime eventValue))) = true
  | .collect i a => a.isCollecting = true ∧ (y.profiles i).Guard a

instance [DecidableEq ι] (y : Threads ι τ D) (a : ThreadsAction ι τ D) : Decidable (y.Guard N a) :=
  match a with
  | .log t ..                    =>
    haveI : Decidable (y.tracking t = none) := decidable_of_iff _ Option.isNone_iff_eq_none
    inferInstanceAs (Decidable (_ ∧ (_ → _) ∧ _))
  | .take t ..                   =>
    haveI : Decidable (y.tracking t = none) := decidable_of_iff _ Option.isNone_iff_eq_none
    inferInstanceAs (Decidable (_ ∧ (_ ∧ _) ∧ _))
  | .setName t | .finish t _     =>
    haveI : Decidable (y.tracking t = none) := decidable_of_iff _ Option.isNone_iff_eq_none
    inferInstanceAs (Decidable (_ ∧ _ = true))
  | .trackSender _               => inferInstanceAs (Decidable (_ = true))
  | .collect ..                  => inferInstanceAs (Decidable (_ = true ∧ _))

variable [DecidableEq ι] [DecidableEq τ]

-- What a call of `Log` leaves behind it before `TrackSender`.
def logged (y : Threads ι τ D) (t : τ) (i : ι) (eventName : CString) (profile : Profile D) :
    Threads ι τ D :=
  { y with
    profiles := Function.update y.profiles i profile
    tracking := Function.update y.tracking t (some (i, eventName))
    pushes   := if eventName.address = N.kEventPushed.address then
      ((y.place t).executing?, i) :: y.pushes else y.pushes }

def log (y : Threads ι τ D) (t : τ) (i : ι) (eventName : CString) (eventValue : D) :
    Except ProfileFault (Threads ι τ D) := do
  let profile ← (y.profiles i).exec F (.log eventName eventValue)
  return y.logged N t i eventName profile

def exec (y : Threads ι τ D) : ThreadsAction ι τ D → Except ProfileFault (Threads ι τ D)
  | .log t i eventName eventValue => y.log N F t i eventName eventValue
  | .trackSender t =>
    match y.tracking t with
    | none                => return y
    | some (i, eventName) => do
      let profile ← (y.profiles i).exec F (.trackSender eventName (y.threadName t))
      return { y with
        profiles := Function.update y.profiles i profile
        tracking := Function.update y.tracking t none }
  | .take t i eventValue => do
    let y ← y.log N F t i N.kEventRetrieved eventValue
    return { y with place := Function.update y.place t (.taken i) }
  | .setName t =>
    match y.place t with
    | .taken i             => return { y with
      threadName := Function.update y.threadName t (N.channelName i)
      place      := Function.update y.place t (.executing i) }
    | .idle | .executing _ => return y
  | .finish t eventValue =>
    match y.place t with
    | .executing i     => do
      let y ← y.log N F t i N.kEventExecuteTime eventValue
      return { y with place := Function.update y.place t .idle }
    | .idle | .taken _ => return y
  | .collect i a => do
    let profile ← (y.profiles i).exec F a
    return { y with profiles := Function.update y.profiles i profile }

-- The data are collected as the log analyzer can read them.
def Plain (y : Threads ι τ D) : ThreadsAction ι τ D → Prop
  | .collect i a => (y.profiles i).Plain a
  | _            => True

instance (y : Threads ι τ D) (a : ThreadsAction ι τ D) : Decidable (y.Plain a) :=
  match a with
  | .collect i a => inferInstanceAs (Decidable ((y.profiles i).Plain a))
  | .log .. | .trackSender _ | .take .. | .setName _ | .finish .. => inferInstanceAs (Decidable True)

end Threads

def threads {ι τ D : Type} [DecidableEq ι] [DecidableEq τ] (N : Naming ι τ) (F : Double D) :
    Machine (Threads ι τ D) (ThreadsAction ι τ D) ProfileFault where
  Init y := (∀ i, ∃ t, y.profiles i =
              ⟨.new F (N.channelName i) N.kEventPushed N.registered t, t, none, [], []⟩) ∧
            y.threadName = (fun _ => N.notAvailable) ∧ y.place = (fun _ => .idle) ∧
            y.tracking = (fun _ => none) ∧ y.pushes = []
  Guard  := Threads.Guard N
  exec   := Threads.exec N F

instance {ι τ D : Type} [DecidableEq ι] [DecidableEq τ] (N : Naming ι τ) (F : Double D)
    (y : Threads ι τ D) (a : ThreadsAction ι τ D) : Decidable ((threads N F).Guard y a) :=
  inferInstanceAs (Decidable (y.Guard N a))

namespace SenderLogger

variable {logger : SenderLogger} {first : Sender} {entries : List Sender} {name : CString}

-- Whatever is named in the array.
def Names (logger : SenderLogger) (name : CString) : Prop :=
  ∃ entry ∈ logger.senders, entry.senderName = some name

theorem perm_partialSort (first : Sender) (entries : List Sender) :
    ((partialSort first entries).1 :: (partialSort first entries).2).Perm (first :: entries) := by
  induction entries generalizing first
  case nil => exact .refl _
  case cons entry entries ih =>
    rw [partialSort]
    split
    case isTrue  => exact (List.Perm.swap ..).trans <| ((ih entry).cons first)
    case isFalse => exact (List.Perm.swap ..).trans <| ((ih first).cons entry).trans (.swap ..)

theorem names_getTopSender (h : logger.getTopSender.1 = some name) : logger.Names name := by
  rw [getTopSender] at h
  cases hs : logger.senders
  case nil => simp [hs] at h
  case cons first entries =>
    simp only [hs] at h
    refine ⟨_, ?_, h⟩
    rw [hs]
    exact (perm_partialSort first entries).subset List.mem_cons_self

theorem names_trackSender {eventName threadName : CString}
    (h : (logger.trackSender eventName threadName).Names name) :
    logger.Names name ∨ name = threadName ∧ eventName.address = logger.trackEvent.address := by
  rw [trackSender] at h
  split at h
  case isTrue => exact .inl h
  case isFalse he =>
    refine or_iff_not_imp_right.mpr fun hne => ?_
    replace hne : name ≠ threadName := fun hn => hne ⟨hn, not_not.mp he⟩
    obtain ⟨entry, hmem, hname⟩ := h
    suffices hall : ∀ entries, entry ∈ trackSender.track threadName entries →
        ∃ entry' ∈ entries, entry'.senderName = some name from hall _ hmem
    intro entries
    induction entries
    case nil => exact nofun
    case cons first entries ih =>
      intro hm
      rw [trackSender.track] at hm
      split at hm
      case h_1 =>
        cases List.mem_cons.mp hm
        case inl hm => exact absurd (Option.some.inj <| hname.symm.trans <| hm ▸ rfl) hne
        case inr hm => exact ⟨entry, List.mem_cons_of_mem _ hm, hname⟩
      case h_2 other hother =>
        split at hm
        all_goals cases List.mem_cons.mp hm
        case isTrue.inr hm  => exact ⟨entry, List.mem_cons_of_mem _ hm, hname⟩
        case isFalse.inl hm => exact ⟨first, List.mem_cons_self, hm ▸ hname⟩
        case isTrue.inl hm =>
          rw [hm] at hname
          exact ⟨first, List.mem_cons_self, hname⟩
        case isFalse.inr hm =>
          obtain ⟨entry', hm', hname'⟩ := ih hm
          exact ⟨entry', List.mem_cons_of_mem _ hm', hname'⟩

theorem names_clearTopSenders : ¬(logger.clearTopSenders).Names name := by
  rintro ⟨entry, hm, hname⟩
  rw [List.eq_of_mem_replicate hm] at hname
  contradiction

end SenderLogger

namespace Profile

variable {D : Type} {F : Double D} {y y' : Profile D} {a : ProfileAction D} {P : CString → Prop}

-- Whoever is named as a sender, in the array or in a buffer.
structure Named (P : CString → Prop) (y : Profile D) : Prop where
  senders : ∀ name, y.data.senderLogger.Names name → P name
  buffers : ∀ buffer, y.Holds buffer → ∀ name, buffer.sender = some (some name) → P name

-- What the channel is called and which type of event is tracked stays the same.
structure Keeps (y y' : Profile D) : Prop where
  group : y'.data.dataGroupName = y.data.dataGroupName
  event : y'.data.senderLogger.trackEvent = y.data.senderLogger.trackEvent

theorem Named.mono {Q : CString → Prop} (h : y.Named P) (hpq : ∀ name, P name → Q name) : y.Named Q where
  senders name hn            := hpq name <| h.senders name hn
  buffers buffer hb name hs := hpq name <| h.buffers buffer hb name hs

theorem Effect.keeps (e : Effect F y a y') : y.Keeps y' := by
  cases e
  case trackSender =>
    refine ⟨rfl, ?_⟩
    simp only [ProfileData.trackSender, SenderLogger.trackSender]
    split <;> rfl
  case gather =>
    refine ⟨rfl, ?_⟩
    simp only [ProfileData.begun]
    split
    case isFalse => rfl
    case isTrue  =>
      simp only [SenderLogger.serializeNClear, SenderLogger.serialize, SenderLogger.clearTopSenders,
        SenderLogger.getTopSender]
      split <;> rfl
  all_goals exact ⟨rfl, rfl⟩

theorem Named.step (h : y.Named P) (e : Effect F y a y')
    (ha : ∀ eventName threadName, a = .trackSender eventName threadName →
      eventName.address = y.data.senderLogger.trackEvent.address → P threadName) : y'.Named P := by
  cases e
  case tick | log => exact ⟨h.senders, h.buffers⟩
  case trackSender eventName threadName =>
    refine ⟨fun name hn => ?_, h.buffers⟩
    obtain hn | ⟨rfl, he⟩ := SenderLogger.names_trackSender hn
    · exact h.senders name hn
    · exact ha eventName name rfl he
  case gather hc =>
    refine ⟨fun name hn => ?_, fun buffer hb name hs => ?_⟩
    · simp only [ProfileData.begun] at hn
      split at hn
      case isTrue  => exact absurd hn SenderLogger.names_clearTopSenders
      case isFalse => exact h.senders name hn
    · obtain hb | hb := hb
      case inl => exact h.buffers buffer (.inl hb) name hs
      case inr =>
        obtain rfl := Option.some.inj hb
        simp only [ProfileData.header] at hs
        split at hs
        case isTrue  => exact h.senders name <| SenderLogger.names_getTopSender <| Option.some.inj hs
        case isFalse => contradiction
  case record size buffer _ _ _ _ hc _ _ _ =>
    refine ⟨h.senders, fun buffer' hb name hs => ?_⟩
    obtain hb | hb := hb
    case inl => exact h.buffers buffer' (.inl hb) name hs
    case inr =>
      obtain rfl := Option.some.inj hb
      refine h.buffers buffer (.inr <| by simp [hc]) name ?_
      split at hs
      case isTrue  => exact hs
      case isFalse => exact hs
  case finish size buffer hc _ =>
    refine ⟨h.senders, fun buffer' hb name hs => ?_⟩
    obtain hb | hb := hb
    case inr => contradiction
    case inl =>
      cases List.mem_append.mp hb
      case inl hb => exact h.buffers buffer' (.inl hb) name hs
      case inr hb =>
        obtain rfl := List.mem_singleton.mp hb
        exact h.buffers buffer' (.inr <| by simp [hc]) name hs

end Profile

namespace Threads

variable {ι τ D : Type} {N : Naming ι τ} {F : Double D} {y y' : Threads ι τ D} {a : ThreadsAction ι τ D}
variable {i j : ι} {t : τ} {name : CString} {p p' : Profile D}

-- A name that is told of a push to `j`: that of a channel whose packet the thread was executing, or that
-- of a thread outside of the scheduler.
def Told (N : Naming ι τ) (y : Threads ι τ D) (j : ι) (name : CString) : Prop :=
  name = N.notAvailable ∨ ∃ i, name = N.channelName i ∧ (some i, j) ∈ y.pushes

theorem Told.mono (h : y.Told N j name) (hp : y.pushes ⊆ y'.pushes) : y'.Told N j name :=
  h.imp_right fun ⟨i, hn, hi⟩ => ⟨i, hn, hp hi⟩

-- What is known of the data of a channel.
structure Fits (N : Naming ι τ) (F : Double D) (y : Threads ι τ D) (j : ι) (p : Profile D) : Prop where
  reachable : (profile F).Reachable Profile.Plain p
  group     : p.data.dataGroupName = N.channelName j
  event     : p.data.senderLogger.trackEvent = N.kEventPushed
  named     : p.Named (y.Told N j)

namespace Fits

theorem mono (h : Fits N F y j p) (hp : y.pushes ⊆ y'.pushes) : Fits N F y' j p :=
  { h with named := h.named.mono fun _ hn => hn.mono hp }

theorem step {a : ProfileAction D} (h : Fits N F y j p) (e : (profile F).Step p a p') (ha : p.Plain a)
    (ht : ∀ eventName threadName, a = .trackSender eventName threadName →
      eventName.address = N.kEventPushed.address → y.Told N j threadName) : Fits N F y j p' := by
  have heffect := Profile.effect (Profile.inv h.reachable).next e
  have hkeeps := heffect.keeps
  refine ⟨h.reachable.step ha e, hkeeps.group.trans h.group, hkeeps.event.trans h.event, ?_⟩
  exact h.named.step heffect fun eventName threadName he hpushed =>
    ht eventName threadName he <| hpushed.trans <| congrArg _ h.event

end Fits

structure Inv (N : Naming ι τ) (F : Double D) (y : Threads ι τ D) : Prop where
  fits      : ∀ j, Fits N F y j (y.profiles j)
  outside   : ∀ t, N.worker t = false → y.place t = .idle ∧ y.threadName t = N.notAvailable
  executing : ∀ t i, y.place t = .executing i → y.threadName t = N.channelName i
  tracking  : ∀ t j eventName, y.tracking t = some (j, eventName) →
              eventName.address = N.kEventPushed.address → y.Told N j (y.threadName t)

variable [DecidableEq ι] [DecidableEq τ]

theorem pushes_logged {eventName : CString} : y.pushes ⊆ (y.logged N t i eventName p).pushes := by
  simp only [logged]
  split
  case isTrue  => exact List.subset_cons_self ..
  case isFalse => exact List.Subset.refl _

namespace Inv

omit [DecidableEq τ] in
theorem update (h : y.Inv N F) (hp : Fits N F y i p) (hsub : y.pushes ⊆ y'.pushes) (j : ι) :
    Fits N F y' j (Function.update y.profiles i p j) := by
  rw [Function.update_apply]
  split
  case isTrue hj  => exact hj ▸ hp.mono hsub
  case isFalse hj => exact (h.fits j).mono hsub

-- A thread logs, and comes to `TrackSender` next.
theorem logged {eventName : CString} {eventValue : D} (h : y.Inv N F)
    (e : (profile F).Step (y.profiles i) (.log eventName eventValue) p)
    (hpushed : eventName.address = N.kEventPushed.address →
      N.worker t = true → (y.place t).executing?.isSome = true) :
    (y.logged N t i eventName p).Inv N F := by
  refine ⟨h.update ((h.fits i).step e trivial nofun) pushes_logged, h.outside, h.executing,
    fun t' j eventName' ht he => ?_⟩
  change Function.update y.tracking t (some (i, eventName)) t' = some (j, eventName') at ht
  rw [Function.update_apply] at ht
  split at ht
  case isFalse => exact (h.tracking t' j eventName' ht he).mono pushes_logged
  case isTrue htt =>
    subst htt
    obtain ⟨rfl, rfl⟩ := Prod.mk.inj <| Option.some.inj ht
    cases hw : N.worker t'
    case false => exact .inl (h.outside t' hw).2
    case true =>
      obtain ⟨k, hk⟩ := Option.isSome_iff_exists.mp <| hpushed he hw
      refine .inr ⟨k, h.executing t' k <| WorkerPlace.executing?_eq_some hk, ?_⟩
      simp [Threads.logged, he, hk]

-- What the thread logs is not a push.
theorem logged_ne {eventName : CString} {eventValue : D} (h : y.Inv N F)
    (e : (profile F).Step (y.profiles i) (.log eventName eventValue) p)
    (hne : eventName.address ≠ N.kEventPushed.address) : (y.logged N t i eventName p).Inv N F :=
  h.logged e fun he => absurd he hne

theorem tracked {eventName : CString} (h : y.Inv N F) (ht : y.tracking t = some (i, eventName))
    (e : (profile F).Step (y.profiles i) (.trackSender eventName (y.threadName t)) p) :
    Inv N F
      { y with
        profiles := Function.update y.profiles i p
        tracking := Function.update y.tracking t none } := by
  have hfits : Fits N F y i p := (h.fits i).step e trivial fun eventName' threadName ha he => ?_
  · refine { h with fits := h.update hfits (List.Subset.refl _), tracking := fun t' j eventName' ht' he => ?_ }
    change Function.update y.tracking t none t' = some (j, eventName') at ht'
    rw [Function.update_apply] at ht'
    split at ht'
    case isTrue  => contradiction
    case isFalse => exact h.tracking t' j eventName' ht' he
  · obtain ⟨rfl, rfl⟩ := ProfileAction.trackSender.inj ha
    exact h.tracking t i _ ht he

omit [DecidableEq ι] in
-- A worker moves on, and its name does not change while it stands in a call of `Log`.
theorem moved {place : WorkerPlace ι} (name : CString) (h : y.Inv N F) (hw : N.worker t = true)
    (hp : ∀ i, place = .executing i → name = N.channelName i)
    (ht : name = y.threadName t ∨ y.tracking t = none) :
    Inv N F
      { y with
        threadName := Function.update y.threadName t name
        place      := Function.update y.place t place } := by
  refine {
    fits      := fun j => (h.fits j).mono (List.Subset.refl _)
    outside   := fun t' hw' => ?outside
    executing := fun t' i hi => ?executing
    tracking  := fun t' j eventName ht' he => ?tracking }
  case outside =>
    have htt : t' ≠ t := fun htt => Bool.false_ne_true <| hw'.symm.trans <| htt ▸ hw
    simpa only [Function.update_of_ne htt] using h.outside t' hw'
  all_goals simp only [Function.update_apply] at *
  case executing =>
    split at hi
    case isTrue htt  => rw [if_pos htt, hp i hi]
    case isFalse htt => rw [if_neg htt, h.executing t' i hi]
  case tracking =>
    have hold := h.tracking t' j eventName ht' he
    split
    case isFalse    => exact hold
    case isTrue htt =>
      subst htt
      obtain rfl | hnone := ht
      · exact hold
      · exact absurd (hnone.symm.trans ht') nofun

omit [DecidableEq ι] in
theorem moved_idle {place : WorkerPlace ι} (h : y.Inv N F) (hw : N.worker t = true)
    (hp : ∀ i, place ≠ .executing i) : Inv N F { y with place := Function.update y.place t place } := by
  have hall := h.moved (y.threadName t) hw (fun i hi => absurd hi (hp i)) (.inl rfl)
  rwa [Function.update_eq_self] at hall

theorem init (h : (threads N F).Init y) : y.Inv N F := by
  obtain ⟨hprofiles, hname, hplace, htracking, _⟩ := h
  refine {
    fits      := fun j => ?fits
    outside   := fun t _ => ⟨by rw [hplace], by rw [hname]⟩
    executing := fun t i hp => ?executing
    tracking  := fun t j e ht => ?tracking }
  case fits =>
    obtain ⟨t, hp⟩ := hprofiles j
    rw [hp]
    refine ⟨⟨_, [], ⟨_, _, _, _, N.nodup, rfl⟩, .refl⟩, rfl, rfl, fun name hn => ?_, fun buffer hb => ?_⟩
    · exact absurd hn SenderLogger.names_clearTopSenders
    · exact hb.elim nofun nofun
  case executing => simp [hplace] at hp
  case tracking => simp [htracking] at ht

omit [DecidableEq ι] [DecidableEq τ] in
-- A thread that is inside of `RunTasks` is a worker.
theorem isWorker (h : y.Inv N F) (hp : y.place t ≠ .idle) : N.worker t = true := by
  by_contra hw
  exact hp (h.outside t <| Bool.eq_false_iff.mpr hw).1

theorem step (h : y.Inv N F) (ha : y.Plain a) (e : (threads N F).Step y a y') : y'.Inv N F := by
  have hg := e.guard
  have he := e.exec
  cases a
  case log t i eventName eventValue =>
    obtain ⟨_, hw, hlog⟩ := hg
    obtain ⟨p, hp, he⟩ := bind_eq_ok.mp he
    obtain rfl := Except.ok.inj he
    exact h.logged ⟨hlog, hp⟩ fun _ => hw
  case take t i eventValue =>
    obtain ⟨hw, _, hlog⟩ := hg
    obtain ⟨z, hz, he⟩ := bind_eq_ok.mp he
    obtain ⟨p, hp, hz⟩ := bind_eq_ok.mp hz
    obtain rfl := Except.ok.inj hz
    obtain rfl := Except.ok.inj he
    exact (h.logged_ne ⟨hlog, hp⟩ N.retrieved_ne).moved_idle hw nofun
  case trackSender t =>
    obtain ⟨⟨i, eventName⟩, ht⟩ := Option.isSome_iff_exists.mp hg
    simp only [threads, exec, ht] at he
    obtain ⟨p, hp, he⟩ := bind_eq_ok.mp he
    obtain rfl := Except.ok.inj he
    exact h.tracked ht ⟨trivial, hp⟩
  case setName t =>
    obtain ⟨i, hi⟩ := Option.isSome_iff_exists.mp hg.2
    have hplace := WorkerPlace.taken?_eq_some hi
    simp only [threads, exec, hplace] at he
    obtain rfl := Except.ok.inj he
    refine h.moved (N.channelName i) (h.isWorker (by rw [hplace]; exact nofun)) (fun j hj => ?_) (.inr hg.1)
    rw [WorkerPlace.executing.inj hj]
  case finish t eventValue =>
    obtain ⟨_, hany⟩ := hg
    obtain ⟨i, hi, hlog⟩ := (Option.any_eq_true ..).mp hany
    have hplace := WorkerPlace.executing?_eq_some hi
    simp only [threads, exec, hplace] at he
    obtain ⟨z, hz, he⟩ := bind_eq_ok.mp he
    obtain ⟨p, hp, hz⟩ := bind_eq_ok.mp hz
    obtain rfl := Except.ok.inj hz
    obtain rfl := Except.ok.inj he
    refine (h.logged_ne ⟨of_decide_eq_true hlog, hp⟩ N.executeTime_ne).moved_idle ?_ nofun
    exact h.isWorker (by rw [hplace]; exact nofun)
  case collect i a =>
    obtain ⟨hcollects, hguard⟩ := hg
    obtain ⟨p, hp, he⟩ := bind_eq_ok.mp he
    obtain rfl := Except.ok.inj he
    have hfits : Fits N F y i p := (h.fits i).step ⟨hguard, hp⟩ ha fun _ _ heq => by
      simp [heq, ProfileAction.isCollecting] at hcollects
    exact { h with fits := h.update hfits (List.Subset.refl _) }

end Inv

theorem inv (h : (threads N F).Reachable Plain y) : y.Inv N F :=
  h.induction (fun _ => .init) fun _ _ _ _ hy ha e => hy.step ha e

end Threads
end PipeRT
