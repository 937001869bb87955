import PipeRT.Profile.Pass

namespace PipeRT

-- How `GatherNSerialize` goes wrong: by an assertion, or by a negative length, which `memcpy` takes for
-- a huge one.
inductive NarrowedFault where
  | fault (f : ProfileFault)
  | memcpy
  deriving DecidableEq, Repr

-- The conversion to `int`.
def intOf (val : Int) : Int :=
  val.bmod (2 ^ 32)

-- The code that writes buffers, with the lengths that it keeps in an `int`. The functions without them
-- are those of `ProfileData`.
namespace Narrowed

variable {D : Type} (F : Double D)

-- `SerializeString`, and what `SenderLogger::Serialize` does with a name.
def serializeString (text : List UInt8) : Except NarrowedFault (List UInt8) :=
  let len := intOf text.length
  let len : Int := if len > kMaxNameLength then kMaxNameLength else len
  if len < 0 then .error .memcpy else .ok (text.take len.toNat ++ [0])

-- `SenderLogger::SerializeNClear`
def serializeNClear (logger : SenderLogger) : Except NarrowedFault (List UInt8 × SenderLogger) := do
  let (top, logger) := logger.getTopSender
  let name ← serializeString (SenderLogger.nameOf top)
  return (senderTag ++ name, logger.clearTopSenders)

def safetyLimit (size : Nat) : Int :=
  intOf (size - 64)

-- `GatherNSerialize` for a buffer of `size` bytes, up to its loop.
def writeHeader (data : ProfileData D) (size : Nat) :
    Except NarrowedFault (ProfileData D × Buffer D) := do
  (ensure (64 ≤ safetyLimit size) .safetyLimit).mapError .fault
  let receiver ← serializeString data.dataGroupName.text
  let bytes := groupTag ++ receiver
  (ensure (bytes.length ≤ size) .overrun).mapError .fault
  if data.atEnd then
    let sender := data.senderLogger.getTopSender.1
    let (written, senderLogger) ← serializeNClear data.senderLogger
    (ensure ((bytes ++ written).length ≤ size) .overrun).mapError .fault
    return ({ data with senderLogger, serializeNext := 0 }, ⟨bytes ++ written, some sender, []⟩)
  else
    return (data, ⟨bytes, none, []⟩)

-- Whether the loop goes on.
def goesOn (data : ProfileData D) (size : Nat) (buffer : Buffer D) : Bool :=
  decide ((buffer.bytes.length : Int) ≤ safetyLimit size) && !data.atEnd

-- The body of the loop. The record is taken back if its count reads as zero.
def writeRecord (data : ProfileData D) (size : Nat) (buffer : Buffer D) (t t' : Time) :
    Except NarrowedFault (ProfileData D × Buffer D) :=
  match data.aggregates[data.serializeNext]? with
  | none                   => return (data, buffer)
  | some (name, aggregate) => do
    let eventName ← serializeString name.text
    let named := buffer.bytes ++ recordTag ++ eventName
    (ensure (named.length ≤ size) .overrun).mapError .fault
    let (written, cleared) ← (aggregate.serializeNClear F t t').mapError .fault
    let bytes := named ++ written
    (ensure (bytes.length ≤ size) .overrun).mapError .fault
    let data := { data with
      aggregates    := data.aggregates.set data.serializeNext (name, cleared)
      serializeNext := data.serializeNext + 1 }
    if Bytes.toNat (Bytes.read bytes named.length 4) = 0 then
      return (data, buffer)
    else
      return (data, { buffer with bytes, records := buffer.records ++ [aggregate.record F name t] })

def Guard (y : Profile D) : ProfileAction D → Prop
  | .record t t' => y.now ≤ t ∧ t ≤ t' ∧
    (y.call.any fun (size, buffer) => goesOn y.data size buffer) = true
  | .finish      => (y.call.any fun (size, buffer) => !goesOn y.data size buffer) = true
  | a            => y.Guard a

instance (y : Profile D) (a : ProfileAction D) : Decidable (Guard y a) :=
  match a with
  | .record ..            => inferInstanceAs (Decidable (_ ∧ _ ∧ _ = true))
  | .finish               => inferInstanceAs (Decidable (_ = true))
  | .tick t               => inferInstanceAs (Decidable (y.Guard (.tick t)))
  | .log name value       => inferInstanceAs (Decidable (y.Guard (.log name value)))
  | .trackSender name sent => inferInstanceAs (Decidable (y.Guard (.trackSender name sent)))
  | .gather size          => inferInstanceAs (Decidable (y.Guard (.gather size)))

def exec (y : Profile D) : ProfileAction D → Except NarrowedFault (Profile D)
  | .gather size => do
    let (data, buffer) ← writeHeader y.data size
    return { y with data, call := some (size, buffer) }
  | .record t t' =>
    match y.call with
    | none                => return y
    | some (size, buffer) => do
      let (data, buffer) ← writeRecord F y.data size buffer t t'
      return { y with data, now := t', call := some (size, buffer) }
  | a            => (y.exec F a).mapError .fault

end Narrowed

def narrowed {D : Type} (F : Double D) : Machine (Profile D) (ProfileAction D) NarrowedFault where
  Init  := (profile F).Init
  Guard := Narrowed.Guard
  exec  := Narrowed.exec F

instance {D : Type} (F : Double D) (y : Profile D) (a : ProfileAction D) :
    Decidable ((narrowed F).Guard y a) :=
  inferInstanceAs (Decidable (Narrowed.Guard y a))

namespace Narrowed

variable {D : Type} {F : Double D} {data : ProfileData D} {text : List UInt8} {size : Nat}

-- The length of a name is told by an `int`, or at least that it has to be cut.
def Told (text : List UInt8) : Prop :=
  intOf text.length = text.length ∨ kMaxNameLength ≤ intOf text.length

instance (text : List UInt8) : Decidable (Told text) :=
  inferInstanceAs (Decidable (_ ∨ _))

theorem intOf_le {n : Nat} : intOf n ≤ n := by
  rw [intOf, Int.bmod_def]
  split <;> omega

-- These are the names that are written as they should be.
theorem serializeString_eq_ok_iff :
    serializeString text = .ok (PipeRT.serializeString text) ↔ Told text := by
  have hle : intOf text.length ≤ text.length := intOf_le
  have hk : kMaxNameLength = 27 := rfl
  rw [serializeString, PipeRT.serializeString, Told]
  generalize intOf text.length = len at hle
  by_cases hmax : len > kMaxNameLength
  case pos => simp [hmax, hmax.le]
  case neg =>
    by_cases hneg : len < 0
    case pos =>
      have hn : ¬(kMaxNameLength ≤ len) ∧ len ≠ text.length := by omega
      simp [hmax, hneg, hn]
    case neg =>
      obtain ⟨n, rfl⟩ := Int.eq_ofNat_of_zero_le (Int.not_lt.mp hneg)
      simp only [hmax, hneg, if_false, Except.ok.injEq, List.append_cancel_right_eq, Int.toNat_natCast,
        List.take_eq_take_iff]
      omega

-- How much of a buffer is used, whose size may be no `int`.
def usable (size : Nat) : Nat :=
  (safetyLimit size).toNat + 64

theorem usable_le (h : 64 ≤ safetyLimit size) : 128 ≤ usable size ∧ usable size ≤ size := by
  have hsize : 64 ≤ size := by
    by_contra hlt
    have hneg : safetyLimit size = size - 64 := Int.bmod_eq_of_le_mul_two (by omega) (by omega)
    omega
  have hle : safetyLimit size ≤ ((size - 64 : Nat) : Int) := by
    have hcast : (size : Int) - 64 = ((size - 64 : Nat) : Int) := by omega
    rw [safetyLimit, hcast]
    exact intOf_le
  rw [usable]
  omega

theorem writeHeader_eq (hs : 64 ≤ safetyLimit size) (hgroup : Told data.dataGroupName.text)
    (hsender : data.atEnd = true → Told (SenderLogger.nameOf data.senderLogger.getTopSender.1)) :
    writeHeader data size = .ok (data.begun, data.header) := by
  obtain ⟨hmin, hle⟩ := usable_le hs
  have hlen : data.header.bytes.length ≤ 64 := ProfileData.length_header_le
  have hname : (groupTag ++ PipeRT.serializeString data.dataGroupName.text).length ≤ size := by
    simp only [ProfileData.header, List.length_append] at hlen ⊢
    omega
  simp only [writeHeader, ensure_of hs, ensure_of hname, serializeString_eq_ok_iff.mpr hgroup,
    Except.mapError, ok_bind]
  cases hend : data.atEnd
  case false => simp [ProfileData.header, ProfileData.begun, hend]
  case true =>
    have hall : (groupTag ++ PipeRT.serializeString data.dataGroupName.text ++
        data.senderLogger.serializeNClear.1).length ≤ size := by
      simp only [ProfileData.header, hend, if_true] at hlen
      omega
    have hwritten : serializeNClear data.senderLogger = .ok data.senderLogger.serializeNClear := by
      simp only [serializeNClear, serializeString_eq_ok_iff.mpr (hsender hend), ok_bind]
      rfl
    rw [if_pos rfl]
    simp only [hwritten, ok_bind, ensure_of hall]
    simp [ProfileData.header, ProfileData.begun, hend]

variable {buffer : Buffer D} {t t' : Time} {name : CString} {aggregate : LogAggregate D}

theorem goesOn_eq (hs : 64 ≤ safetyLimit size) :
    goesOn data size buffer = data.goesOn (usable size) buffer := by
  have hlimit : ((usable size : Nat) : Int) - 64 = safetyLimit size := by
    rw [usable]
    omega
  rw [goesOn, ProfileData.goesOn, hlimit]

theorem writeRecord_eq (hs : 64 ≤ safetyLimit size)
    (hnext : data.aggregates[data.serializeNext]? = some (name, aggregate)) (hname : Told name.text)
    (h : data.goesOn (usable size) buffer = true) :
    writeRecord F data size buffer t t' =
      (data.writeRecord F (usable size) buffer t t').mapError .fault := by
  obtain ⟨_, hle⟩ := usable_le hs
  have hgo : data.goesOn size buffer = true := by
    obtain ⟨hlen, hend⟩ := Bool.and_eq_true_iff.mp h
    have hlen := of_decide_eq_true hlen
    exact Bool.and_eq_true_iff.mpr ⟨decide_eq_true (by omega), hend⟩
  rw [ProfileData.writeRecord_eq hnext h, ← ProfileData.writeRecord_eq hnext hgo, writeRecord,
    ProfileData.writeRecord, hnext]
  simp only [serializeString_eq_ok_iff.mpr hname, ok_bind]
  cases ensure ((buffer.bytes ++ recordTag ++ PipeRT.serializeString name.text).length ≤ size) .overrun
  case error => rfl
  case ok =>
    simp only [Except.mapError, ok_bind]
    cases aggregate.serializeNClear F t t'
    case error => rfl
    case ok r =>
      simp only [ok_bind]
      cases ensure ((buffer.bytes ++ recordTag ++ PipeRT.serializeString name.text ++ r.1).length ≤ size) .overrun
      case error => rfl
      case ok =>
        simp only [ok_bind, pure_eq_ok]
        split <;> rfl

-- A call with a buffer of any size is one with as much of the buffer as is used.
def view (y : Profile D) : Profile D :=
  { y with call := y.call.map fun (size, buffer) => (usable size, buffer) }

def viewAction : ProfileAction D → ProfileAction D
  | .gather size => .gather (usable size)
  | a            => a

-- No conversion to `int` does any harm: the buffer that is handed in is told to be big enough, and the
-- names that are written can be told.
def Intact (y : Profile D) : ProfileAction D → Prop
  | .gather size => 64 ≤ safetyLimit size ∧ Told y.data.dataGroupName.text ∧
    (y.data.atEnd = true → Told (SenderLogger.nameOf y.data.senderLogger.getTopSender.1))
  | .record ..   => (y.data.aggregates[y.data.serializeNext]?.all fun a => decide (Told a.1.text)) = true
  | _            => True

instance (y : Profile D) (a : ProfileAction D) : Decidable (Intact y a) :=
  match a with
  | .gather _                              => inferInstanceAs (Decidable (_ ∧ _ ∧ (_ → _)))
  | .record ..                             => inferInstanceAs (Decidable (_ = true))
  | .tick _ | .log .. | .trackSender .. | .finish => inferInstanceAs (Decidable True)

-- The calls that are under way have got past the first assertion.
structure Viewed (F : Double D) (y : Profile D) : Prop where
  inv  : (view y).Inv F
  size : ∀ size buffer, (view y).call = some (size, buffer) → 128 ≤ size

variable {y y' : Profile D} {a : ProfileAction D}

theorem Viewed.init (h : (narrowed F).Init y) : Viewed F y := by
  obtain ⟨dataGroupName, eventPushed, registered, t, hr, rfl⟩ := h
  exact ⟨.init ⟨dataGroupName, eventPushed, registered, t, hr, rfl⟩, nofun⟩

theorem Viewed.limit (h : Viewed F y) (hc : y.call = some (size, buffer)) : 64 ≤ safetyLimit size := by
  have hsize := h.size (usable size) buffer <| by rw [view, hc]; rfl
  rw [usable] at hsize
  omega

theorem Viewed.guard (h : Viewed F y) (hg : Guard y a) : (view y).Guard (viewAction a) := by
  cases a
  case tick | log | trackSender => exact hg
  case gather size =>
    have hnone : y.call = none := hg
    simp [viewAction, Profile.Guard, view, hnone]
  case record t t' =>
    obtain ⟨hnow, htt, hgo⟩ := hg
    obtain ⟨⟨size, buffer⟩, hc, hgo⟩ := (Option.any_eq_true ..).mp hgo
    refine ⟨hnow, htt, ?_⟩
    simpa [view, hc, goesOn_eq (h.limit hc)] using hgo
  case finish =>
    obtain ⟨⟨size, buffer⟩, hc, hgo⟩ := (Option.any_eq_true ..).mp hg
    change ((view y).call.any _) = true
    simpa [view, hc, goesOn_eq (h.limit hc)] using hgo

-- Then they do not matter at all.
theorem Viewed.exec_eq (h : Viewed F y) (hg : Guard y a) (hok : Intact y a) :
    (exec F y a).map view = ((view y).exec F (viewAction a)).mapError .fault := by
  cases a
  case tick | trackSender => rfl
  case log eventName eventValue =>
    simp only [exec, viewAction, Profile.exec]
    change _ = Except.mapError _ (y.data.log F eventName eventValue >>= _)
    cases y.data.log F eventName eventValue <;> rfl
  case gather size =>
    obtain ⟨hs, hgroup, hsender⟩ := hok
    have hheader : (view y).data.writeHeader (usable size) = .ok (y.data.begun, y.data.header) :=
      ProfileData.writeHeader_eq_ok (usable_le hs).1
    simp only [exec, viewAction, Profile.exec, writeHeader_eq hs hgroup hsender, hheader, ok_bind]
    rfl
  case record t t' =>
    obtain ⟨_, _, hgo⟩ := h.guard hg
    obtain ⟨⟨size, buffer⟩, hc, _⟩ := (Option.any_eq_true ..).mp hg.2.2
    have hs := h.limit hc
    have hgo : y.data.goesOn (usable size) buffer = true := by simpa [view, hc] using hgo
    obtain ⟨⟨name, aggregate⟩, hnext⟩ := ProfileData.exists_next h.inv.next hgo
    have hnext : y.data.aggregates[y.data.serializeNext]? = some (name, aggregate) := hnext
    have hname : Told name.text := of_decide_eq_true <| (Option.all_eq_true ..).mp hok (name, aggregate) hnext
    simp only [exec, viewAction, Profile.exec, view, hc, Option.map_some, writeRecord_eq hs hnext hname hgo]
    cases y.data.writeRecord F (usable size) buffer t t'
    case error => rfl
    case ok r  => rfl
  case finish =>
    obtain ⟨⟨size, buffer⟩, hc, _⟩ := (Option.any_eq_true ..).mp hg
    simp only [exec, viewAction, Profile.exec, view, hc]
    rfl

theorem Viewed.step (h : Viewed F y) (hok : Intact y a) (e : (narrowed F).Step y a y') :
    (profile F).Step (view y) (viewAction a) (view y') ∧ Viewed F y' := by
  have he : exec F y a = .ok y' := e.exec
  have heq := h.exec_eq e.guard hok
  rw [he] at heq
  have hstep : (profile F).Step (view y) (viewAction a) (view y') :=
    ⟨h.guard e.guard, mapError_eq_ok.mp heq.symm⟩
  refine ⟨hstep, h.inv.step hstep, fun size buffer hc => ?_⟩
  have heffect := Profile.effect h.inv.next hstep
  generalize view y' = z, viewAction a = b at hc heffect
  cases heffect
  case gather hsize _          => exact (Prod.mk.inj <| Option.some.inj hc).1 ▸ hsize
  case record hc' _ _ _        => exact (Prod.mk.inj <| Option.some.inj hc).1 ▸ h.size _ _ hc'
  case finish                  => contradiction
  case tick | log | trackSender => exact h.size size buffer hc

theorem Viewed.not_error {e : NarrowedFault} (h : Viewed F y) (hg : Guard y a) (hok : Intact y a)
    (he : exec F y a = .error e) : e ≠ .memcpy ∧ e ≠ .fault .safetyLimit ∧ e ≠ .fault .overrun := by
  have heq := h.exec_eq hg hok
  rw [he] at heq
  obtain ⟨f, hf, rfl⟩ := mapError_eq_error.mp heq.symm
  have hsize : ∀ size, viewAction a = .gather size → 128 ≤ size := by
    intro size hsize
    cases a
    case gather size' => exact ProfileAction.gather.inj hsize ▸ (usable_le hok.1).1
    all_goals contradiction
  obtain rfl | rfl := Profile.exec_eq_error h.inv.next (h.guard hg) hsize hf <;> simp

variable {as : List (ProfileAction D)}

theorem isGather_viewAction : (viewAction a).isGather = a.isGather := by
  cases a <;> rfl

theorem written_view : (view y).written = y.written := by
  rw [Profile.written, Profile.written, view]
  cases y.call <;> rfl

theorem visits_view : Profile.visits F (view y) (viewAction a) = Profile.visits F y a := by
  cases a <;> rfl

-- A run without harm is a run of the other machine, in which the same is serialized.
theorem Viewed.run {ok : Profile D → ProfileAction D → Prop} (h : Viewed F y)
    (r : (narrowed F).Run (fun y a => Intact y a ∧ ok y a) y as y') (ok' : Profile D → ProfileAction D → Prop)
    (hok : ∀ y a, ok y a → ok' (view y) (viewAction a)) :
    Viewed F y' ∧ (profile F).Run ok' (view y) (as.map viewAction) (view y') ∧
    (profile F).trace (Profile.visits F) (view y) (as.map viewAction) =
      (narrowed F).trace (Profile.visits F) y as := by
  induction r
  case refl => exact ⟨h, .refl, rfl⟩
  case step y a y₁ as y' e r ih =>
    obtain ⟨hstep, h₁⟩ := h.step e.1.1 e.2
    obtain ⟨h', r', htrace⟩ := ih h₁
    refine ⟨h', .step ⟨hok _ _ e.1.2, hstep⟩ r', ?_⟩
    rw [List.map_cons, Machine.trace_cons hstep, Machine.trace_cons e.2, htrace, visits_view]

theorem viewed_of_reachable (h : (narrowed F).Reachable Intact y) :
    Viewed F y ∧ (profile F).Reachable (fun _ _ => True) (view y) := by
  obtain ⟨y₀, as, hi, r⟩ := h
  have r : (narrowed F).Run (fun y a => Intact y a ∧ True) y₀ as y :=
    Machine.Run.mono (fun _ _ h => ⟨h, trivial⟩) r
  obtain ⟨h, r, _⟩ := (Viewed.init hi).run r (fun _ _ => True) fun _ _ _ => trivial
  refine ⟨h, view y₀, _, ?_, r⟩
  obtain ⟨dataGroupName, eventPushed, registered, t, hr, rfl⟩ := hi
  exact ⟨dataGroupName, eventPushed, registered, t, hr, rfl⟩

theorem filled_view {y₀ : Profile D} {visited : List (Record D)} {new : List (Buffer D)}
    (h : Profile.Filled F (view y₀) (view y) visited new) : Profile.Filled F y₀ y visited new :=
  ⟨written_view.symm.trans h.written, h.message, h.senders, h.entries, h.visited⟩

end Narrowed

-- One pass of serialization, at any moment until its end, as long as no conversion to `int` does any
-- harm.
theorem pass_written_of_intact {D : Type} {F : Double D} {y₀ y₁ y : Profile D} {size : Nat}
    {as : List (ProfileAction D)} (h : (narrowed F).Reachable Narrowed.Intact y₀)
    (hend : y₀.data.atEnd = true) (hok : Narrowed.Intact y₀ (.gather size))
    (e : (narrowed F).Step y₀ (.gather size) y₁)
    (r : (narrowed F).Run (fun y a => Narrowed.Intact y a ∧ y.Continues a) y₁ as y) :
    (∀ a f, (narrowed F).Guard y a → Narrowed.Intact y a → (narrowed F).exec y a = .error f →
      f ≠ .memcpy ∧ f ≠ .fault .safetyLimit ∧ f ≠ .fault .overrun) ∧
    (∀ size z₀ z as' z', (narrowed F).Reachable Narrowed.Intact z₀ →
      Narrowed.Intact z₀ (.gather size) → (narrowed F).Step z₀ (.gather size) z →
      (narrowed F).Run (fun y a => Narrowed.Intact y a ∧ y.Stays a) z as' z' →
      (narrowed F).Guard z' .finish →
      z.data.serializeNext < z'.data.serializeNext ∨ z'.data.aggregates = []) ∧
    1 + as.countP (·.isGather) ≤ max 1 y₀.data.aggregates.length ∧
    (∃ new, Profile.Filled F y₀ y ((narrowed F).trace (Profile.visits F) y₁ as) new) ∧
    (y.call = none → y.written = y.buffers) ∧
    (y.data.atEnd = true →
      ((narrowed F).trace (Profile.visits F) y₁ as).map Record.name = y₀.data.names) := by
  obtain ⟨hv, hr⟩ := Narrowed.viewed_of_reachable h
  obtain ⟨e', hv₁⟩ := hv.step hok e
  have hcontinues : ∀ (y : Profile D) a, y.Continues a → (Narrowed.view y).Continues (Narrowed.viewAction a) :=
    fun y a hc hg => hc (Narrowed.isGather_viewAction ▸ hg)
  obtain ⟨hvy, r', htrace⟩ := hv₁.run r Profile.Continues hcontinues
  obtain ⟨_, _, hcount, ⟨new, hfilled⟩, _, hvisited⟩ := pass_written hr hend e' r'
  rw [htrace] at hfilled hvisited
  refine ⟨fun a f hg hi he => hvy.not_error hg hi he, fun size z₀ z as' z' h hi e r hg => ?_, ?_,
    ⟨new, Narrowed.filled_view hfilled⟩, fun hc => by simp [Profile.written, hc], hvisited⟩
  case refine_1 =>
    obtain ⟨hv, hr⟩ := Narrowed.viewed_of_reachable h
    obtain ⟨e', hv'⟩ := hv.step hi e
    have hstays : ∀ (y : Profile D) a, y.Stays a → (Narrowed.view y).Stays (Narrowed.viewAction a) :=
      fun _ _ hs => Narrowed.isGather_viewAction.trans hs
    obtain ⟨hvz, r', _⟩ := hv'.run r Profile.Stays hstays
    have hfinish : (Narrowed.view z').Guard .finish := hvz.guard (a := .finish) hg
    have hadvances := Profile.advances (Profile.inv hr) e' r' hfinish
    exact hadvances
  case refine_2 =>
    have hmap : (as.map Narrowed.viewAction).countP (·.isGather) = as.countP (·.isGather) := by
      rw [List.countP_map]
      exact List.countP_congr fun a _ => by rw [Function.comp, Narrowed.isGather_viewAction]
    exact hmap ▸ hcount

-- Two types of events, of which one is logged, are written to one buffer.
theorem pass_written_of_intact_gathered :
    ∃ y₀ y₁ y, (narrowed rationals).Reachable Narrowed.Intact y₀ ∧
      (narrowed rationals).Step y₀ (.gather 128) y₁ ∧
      (narrowed rationals).Run (fun y a => Narrowed.Intact y a ∧ y.Continues a) y₁
        [.record 7 7, .record 7 8, .finish] y ∧
      y.written.length = 1 ∧ ∃ visited new, Profile.Filled rationals y₀ y visited new := by
  let as : List (ProfileAction ℚ) := [.record 7 7, .record 7 8, .finish]
  obtain ⟨y₀, hr, hend, hok, hy⟩ := Machine.exists_reachable_of_replay (M := narrowed rationals)
    (s := channelData) Narrowed.Intact [.log (nameAt 1) 3]
    (P := fun y₀ => y₀.data.atEnd = true ∧ Narrowed.Intact y₀ (.gather 128) ∧
      (((narrowed rationals).replay (fun _ _ => True) y₀ [.gather 128]).any fun y₁ =>
        ((narrowed rationals).replay (fun y a => Narrowed.Intact y a ∧ y.Continues a) y₁ as).any fun y =>
          y.written.length = 1) = true)
    ⟨_, _, _, _, by decide, rfl⟩ (by decide +kernel)
  obtain ⟨y₁, hy₁, hy⟩ := (Option.any_eq_true ..).mp hy
  obtain ⟨y, hy, hlen⟩ := (Option.any_eq_true ..).mp hy
  cases Machine.run_of_replay hy₁
  case step e hrefl =>
    cases hrefl
    have r := Machine.run_of_replay hy
    obtain ⟨new, hf⟩ := (pass_written_of_intact hr hend hok e.2 r).2.2.2.1
    exact ⟨y₀, y₁, y, hr, e.2, r, of_decide_eq_true hlen, _, new, hf⟩

-- The first buffer of a group whose name has two gigabytes is written past its end.
theorem gather_eq_memcpy {D : Type} {F : Double D} {y : Profile D} (hc : y.call = none)
    (hlen : y.data.dataGroupName.text.length = 2 ^ 31) :
    (narrowed F).Guard y (.gather 128) ∧ (narrowed F).exec y (.gather 128) = .error .memcpy := by
  have hneg : intOf (y.data.dataGroupName.text.length : Nat) = -2 ^ 31 := by
    rw [hlen]
    decide
  have hname : Narrowed.serializeString y.data.dataGroupName.text = .error .memcpy := by
    simp [Narrowed.serializeString, hneg, kMaxNameLength]
  have hlimit : 64 ≤ Narrowed.safetyLimit 128 := by decide
  refine ⟨hc, ?_⟩
  change Narrowed.exec F y (.gather 128) = _
  rw [Narrowed.exec, Narrowed.writeHeader, ensure_of hlimit, hname]
  rfl

def longName (length : Nat) : CString where
  address := 9
  text    := .replicate length 65
  nul     := by simp

theorem longName_overruns :
    ∃ y : Profile ℚ, (narrowed rationals).Init y ∧ y.data.atEnd = true ∧
      y.data.dataGroupName = longName (2 ^ 31) ∧ (narrowed rationals).Guard y (.gather 128) ∧
      (narrowed rationals).exec y (.gather 128) = .error .memcpy := by
  -- Any name of this length will do, so that nothing has to look at its letters.
  have hexists (name : CString) (hlen : name.text.length = 2 ^ 31) :
      ∃ y : Profile ℚ, (narrowed rationals).Init y ∧ y.data.atEnd = true ∧
        y.data.dataGroupName = name ∧ (narrowed rationals).Guard y (.gather 128) ∧
        (narrowed rationals).exec y (.gather 128) = .error .memcpy :=
    ⟨⟨.new rationals name (nameAt 3) [] 5, 5, none, [], []⟩, ⟨_, _, _, _, by simp, rfl⟩, rfl, rfl,
      gather_eq_memcpy rfl hlen⟩
  exact hexists (longName (2 ^ 31)) List.length_replicate

end PipeRT
