import PipeRT.Profile.Conservation
import PipeRT.Profile.Gathering
import PipeRT.Profile.Grammar

namespace PipeRT

def ProfileAction.isGather {D : Type} : ProfileAction D → Bool
  | .gather _ => true
  | _         => false

namespace Profile

variable {D : Type} {F : Double D} {y y' y'' : Profile D} {a : ProfileAction D}
variable {visited visited' : List (Record D)}

-- The conditions that no new pass begins, and that no new call does.
def Continues (y : Profile D) (a : ProfileAction D) : Prop :=
  a.isGather = true → y.data.atEnd = false

def Stays (_ : Profile D) (a : ProfileAction D) : Prop :=
  a.isGather = false

instance (y : Profile D) (a : ProfileAction D) : Decidable (y.Continues a) :=
  inferInstanceAs (Decidable (_ → _))

-- The buffers that are filled, and the one that is being filled.
def written (y : Profile D) : List (Buffer D) :=
  y.buffers ++ (y.call.map Prod.snd).toList

-- The aggregate that is serialized in a step, as it is then.
def visits (F : Double D) (y : Profile D) : ProfileAction D → List (Record D)
  | .record t _ =>
    (y.data.aggregates[y.data.serializeNext]?.map fun a => a.2.record F a.1 t).toList
  | _           => []

-- What a pass adds, as long as no other one begins.
structure Extends (y y' : Profile D) (visited : List (Record D)) : Prop where
  group   : y'.data.dataGroupName = y.data.dataGroupName
  names   : y'.data.names = y.data.names
  next    : y.data.names.drop y.data.serializeNext =
            visited.map Record.name ++ y.data.names.drop y'.data.serializeNext
  emitted : y'.emitted = y.emitted ++ visited.filter fun r => r.logCount ≠ 0
  buffers : y.buffers <+: y'.buffers
  senders : ∃ k, y'.written.map Buffer.sender = y.written.map Buffer.sender ++ .replicate k none

namespace Extends

theorem refl : Extends y y [] where
  group   := rfl
  names   := rfl
  next    := rfl
  emitted := (List.append_nil _).symm
  buffers := List.prefix_rfl
  senders := ⟨0, (List.append_nil _).symm⟩

theorem trans (h : Extends y y' visited) (h' : Extends y' y'' visited') :
    Extends y y'' (visited ++ visited') where
  group   := h'.group.trans h.group
  names   := h'.names.trans h.names
  next    := by rw [h.next, ← h.names, h'.next, List.map_append, List.append_assoc]
  emitted := by rw [h'.emitted, h.emitted, List.append_assoc, List.filter_append]
  buffers := h.buffers.trans h'.buffers
  senders := by
    obtain ⟨k, hk⟩ := h.senders
    obtain ⟨k', hk'⟩ := h'.senders
    exact ⟨k + k', by rw [hk', hk, List.append_assoc, List.replicate_add]⟩

theorem of_step (hi : y.Inv F) (ha : y.Continues a) (e : (profile F).Step y a y') :
    Extends y y' (visits F y a) := by
  replace e := effect hi.next e
  cases e
  case tick | trackSender => exact { refl with }
  case log => exact ⟨rfl, ProfileData.names_logged, refl.next, refl.emitted, refl.buffers, refl.senders⟩
  case gather _ hc =>
    have hend := ha rfl
    refine ⟨rfl, rfl, ?_, ?_, List.prefix_rfl, 1, ?_⟩
    · simp [ProfileData.begun, hend, visits]
    · simp [emitted_gather hc, visits]
    · simp [written, hc, ProfileData.header, hend]
  case record name aggregate _ _ hc _ hat _ =>
    have hcounts := hi.counts _ (List.mem_of_getElem? hat)
    refine ⟨rfl, ProfileData.names_advanced hat, ?_, ?_, List.prefix_rfl, 0, ?_⟩
    · obtain ⟨hlt, hget⟩ := List.getElem?_eq_some_iff.mp hat
      have hnames : y.data.names[y.data.serializeNext]? = some name := by
        simp [ProfileData.names, hat]
      obtain ⟨hlt', hget'⟩ := List.getElem?_eq_some_iff.mp hnames
      rw [List.drop_eq_getElem_cons hlt', hget', visits, hat]
      rfl
    · rw [emitted_record hc hcounts.1 hcounts.2.1, visits, hat]
      by_cases hz : aggregate.logCount = 0 <;> simp [hz]
    · simp only [written, hc, Option.map_some, Option.toList_some, List.map_append]
      split <;> simp
  case finish hc _ =>
    refine ⟨rfl, rfl, rfl, ?_, List.prefix_append .., 0, ?_⟩
    · simp [emitted_finish hc, visits]
    · simp [written, hc]

end Extends

theorem extends_of_run {as : List (ProfileAction D)} (hi : y.Inv F)
    (r : (profile F).Run Continues y as y') : Extends y y' ((profile F).trace (visits F) y as) := by
  induction r
  case refl => exact .refl
  case step e _ ih =>
    rw [Machine.trace_cons e.2]
    exact (Extends.of_step hi e.1 e.2).trans <| ih (hi.step e.2)

-- Whether the loop of the call that is under way goes on.
def goesOn (y : Profile D) : Bool :=
  y.call.any fun (size, buffer) => y.data.goesOn size buffer

theorem Same.goesOn_eq (h : Same y y') : y'.goesOn = y.goesOn := by
  simp only [Profile.goesOn, h.call, h.goesOn]

namespace Effect

variable {size : Nat} {t t' : Time}

theorem of_gather (e : Effect F y (.gather size) y') :
    y.goesOn = false ∧ y'.data = y.data.begun ∧
      (y'.goesOn = true ∨ y'.data.aggregates = []) := by
  cases e
  case gather hc hsize => exact ⟨by simp [goesOn, hc], rfl, ProfileData.begun_goesOn hsize⟩

theorem of_record (e : Effect F y (.record t t') y') :
    y.goesOn = true ∧ y.data.serializeNext < y.data.aggregates.length ∧
      y'.data.serializeNext = y.data.serializeNext + 1 ∧
      y'.data.aggregates.length = y.data.aggregates.length := by
  cases e
  case record hc hgo hat _ _ _ =>
    refine ⟨by simp [goesOn, hc, hgo], (List.getElem?_eq_some_iff.mp hat).1, rfl, ?_⟩
    exact List.length_set

theorem of_finish (e : Effect F y .finish y') : y.goesOn = false ∧ y'.goesOn = false ∧ y'.data = y.data := by
  cases e
  case finish hc hgo => exact ⟨by simp [goesOn, hc, hgo], rfl, rfl⟩

end Effect

section Calls

variable {z : Profile D} {as : List (ProfileAction D)}

-- What a call has done: something, or nothing yet, or there was nothing to do.
def Advances (z y : Profile D) : Prop :=
  z.data.serializeNext < y.data.serializeNext ∨
  z.data.serializeNext = y.data.serializeNext ∧ y.goesOn = true ∨ y.data.aggregates = []

theorem Advances.step (h : Advances z y) (hi : y.Inv F) (ha : y.Stays a)
    (e : (profile F).Step y a y') : Advances z y' := by
  cases hother : a.isOther
  case true =>
    have hs := same hi.next hother e
    rw [Advances, hs.serializeNext, hs.goesOn_eq, ← List.length_eq_zero_iff, hs.length,
      List.length_eq_zero_iff]
    exact h
  case false =>
    cases a
    case tick | log | trackSender | gather => contradiction
    case record t t' =>
      obtain ⟨_, hlt, hnext, _⟩ := (effect hi.next e).of_record
      refine .inl <| hnext.symm ▸ Nat.lt_succ_of_le ?_
      obtain hless | ⟨heq, _⟩ | hnil := h
      case inl     => exact hless.le
      case inr.inl => exact heq.le
      case inr.inr => simp [hnil] at hlt
    case finish =>
      obtain ⟨hn, _, hdata⟩ := (effect hi.next e).of_finish
      rw [Advances, hdata]
      refine h.imp_right fun h => h.imp_left fun h => ?_
      rw [h.2] at hn
      contradiction

-- A call goes through one aggregate at least.
theorem advances {size : Nat} (hi : y.Inv F) (e : (profile F).Step y (.gather size) z)
    (r : (profile F).Run Stays z as y') (hg : y'.Guard .finish) :
    z.data.serializeNext < y'.data.serializeNext ∨ y'.data.aggregates = [] := by
  have hz : z.Inv F ∧ Advances z z :=
    ⟨hi.step e, .inr <| (effect hi.next e).of_gather.2.2.imp_left fun hgo => ⟨rfl, hgo⟩⟩
  have hadv := (r.preserves (P := fun y => y.Inv F ∧ Advances z y)
    (fun _ _ _ h e => ⟨h.1.step e.2, h.2.step h.1 e.1 e.2⟩) hz).2
  obtain hless | ⟨_, hgoes⟩ | hnil := hadv
  case inl     => exact .inl hless
  case inr.inr => exact .inr hnil
  case inr.inl =>
    obtain ⟨⟨size, buffer⟩, hc, hgo⟩ := (Option.any_eq_true ..).mp hg
    simp only [goesOn, hc, Option.any_some] at hgoes
    simp [hgoes] at hgo

-- How many more calls the pass takes, at most.
def callsLeft (y : Profile D) : Nat :=
  y.data.aggregates.length - y.data.serializeNext - if y.goesOn then 1 else 0

theorem callsLeft_step (hi : y.Inv F) (ha : y.Continues a) (e : (profile F).Step y a y') :
    y'.callsLeft + (if a.isGather then 1 else 0) ≤ y.callsLeft := by
  cases hother : a.isOther
  case true =>
    have hs := same hi.next hother e
    have hn : a.isGather = false := by cases a <;> first | rfl | contradiction
    rw [callsLeft, hs.goesOn_eq, hs.length, hs.serializeNext, hn]
    exact le_rfl
  case false =>
    cases a
    case tick | log | trackSender => contradiction
    case gather size =>
      obtain ⟨hn, hdata, hgo⟩ := (effect hi.next e).of_gather
      have hend : y.data.atEnd = false := ha rfl
      have hne : y.data.serializeNext ≠ y.data.aggregates.length := by
        simpa [ProfileData.atEnd] using hend
      have hlt : y.data.serializeNext < y.data.aggregates.length := lt_of_le_of_ne hi.next hne
      have hnext : y'.data.serializeNext = y.data.serializeNext := by
        simp [hdata, ProfileData.begun, hend]
      have hlen : y'.data.aggregates.length = y.data.aggregates.length := by
        rw [hdata, ProfileData.begun]
      obtain hgo | hnil := hgo
      case inl =>
        simp only [callsLeft, hgo, hn, hnext, hlen, ProfileAction.isGather, if_true,
          Bool.false_eq_true, if_false]
        omega
      case inr => simp [← hlen, hnil] at hlt
    case record t t' =>
      obtain ⟨hn, _, hnext, hlen⟩ := (effect hi.next e).of_record
      simp only [callsLeft, hn, hnext, hlen, ProfileAction.isGather, if_true, Bool.false_eq_true,
        if_false]
      omega
    case finish =>
      obtain ⟨hn, hn', hdata⟩ := (effect hi.next e).of_finish
      rw [callsLeft, callsLeft, hn, hn', hdata]
      rfl

theorem countP_isGather_le {size : Nat} (hi : y.Inv F) (hend : y.data.atEnd = true)
    (e : (profile F).Step y (.gather size) z) (r : (profile F).Run Continues z as y') :
    1 + as.countP (·.isGather) ≤ max 1 y.data.aggregates.length := by
  have hcount := r.countP_le (P := Inv F) (m := callsLeft) (fun _ _ _ h e => h.step e.2)
    (fun _ _ _ _ h e => callsLeft_step h e.1 e.2) (hi.step e)
  obtain ⟨_, hdata, hgo⟩ := (effect hi.next e).of_gather
  have hnext : z.data.serializeNext = 0 := by simp [hdata, ProfileData.begun, hend]
  have hlen : z.data.aggregates.length = y.data.aggregates.length := by
    rw [hdata, ProfileData.begun]
  rw [callsLeft, hnext, hlen] at hcount
  obtain hgo | hnil := hgo
  case inl =>
    simp only [hgo, if_true] at hcount
    omega
  case inr =>
    simp only [← hlen, hnil, List.length_nil] at hcount ⊢
    omega

end Calls

theorem emitted_eq_flatMap : y.emitted = y.written.flatMap Buffer.records := by
  rw [emitted, written, List.flatMap_append]
  cases y.call <;> simp

theorem holds_of_mem_written {buffer : Buffer D} (h : buffer ∈ y.written) : y.Holds buffer := by
  obtain h | h := List.mem_append.mp h
  case inl => exact .inl h
  case inr => exact .inr <| Option.mem_toList.mp h

-- What the first call of a pass begins with.
structure Begun (y y₁ : Profile D) : Prop where
  group   : y₁.data.dataGroupName = y.data.dataGroupName
  names   : y₁.data.names = y.data.names
  next    : y₁.data.serializeNext = 0
  buffers : y₁.buffers = y.buffers
  written : y₁.written.map Buffer.sender =
            y.buffers.map Buffer.sender ++ [some y.data.senderLogger.getTopSender.1]
  emitted : y₁.emitted = y.buffers.flatMap Buffer.records

theorem begun {y₁ : Profile D} {size : Nat} (hi : y.Inv F) (hend : y.data.atEnd = true)
    (e : (profile F).Step y (.gather size) y₁) : Begun y y₁ := by
  replace e := effect hi.next e
  cases e
  case gather hc _ =>
    refine ⟨rfl, rfl, ?_, rfl, ?_, ?_⟩
    · simp [ProfileData.begun, hend]
    · simp [Profile.written, ProfileData.header, hend]
    · rw [emitted_gather hc, Profile.emitted, hc, Option.elim_none, List.append_nil]

-- The buffers of a pass.
structure Filled (F : Double D) (y₀ y : Profile D) (visited : List (Record D)) (new : List (Buffer D)) :
    Prop where
  written : y.written = y₀.buffers ++ new
  message : ∀ b ∈ new, ∀ m : Message, m.image = b.bytes ↔ m = b.message F y₀.data.dataGroupName
  senders : ∃ k, new.map (fun b => (b.message F y₀.data.dataGroupName).sender) =
            some (.truncate _ <| SenderLogger.nul_notMem_nameOf y₀.data.senderLogger.getTopSender.1) ::
              .replicate k none
  entries : new.flatMap (fun b => (b.message F y₀.data.dataGroupName).entries) =
            (visited.filter fun r => r.logCount ≠ 0).map (·.entry F)
  visited : y₀.data.names = visited.map Record.name ++ y₀.data.names.drop y.data.serializeNext

theorem filled {y₀ y₁ : Profile D} (hi : y.Inv F) (hb : Begun y₀ y₁) (hx : Extends y₁ y visited) :
    ∃ new, Filled F y₀ y visited new := by
  obtain ⟨later, hlater⟩ := hx.buffers
  obtain ⟨new, hnew⟩ : ∃ new, y.written = y₀.buffers ++ new := by
    refine ⟨later ++ (y.call.map Prod.snd).toList, ?_⟩
    rw [written, ← hlater, hb.buffers, List.append_assoc]
  have hgroup : y.data.dataGroupName = y₀.data.dataGroupName := hx.group.trans hb.group
  refine ⟨new, hnew, fun b hm m => ?_, ?_, ?_, ?_⟩
  · have himage := hi.images b <| holds_of_mem_written <| hnew ▸ List.mem_append_right _ hm
    rw [himage, hgroup, Buffer.image_eq]
    exact Message.image_injective.eq_iff
  · obtain ⟨k, hk⟩ := hx.senders
    rw [hnew, List.map_append, hb.written, List.append_assoc, List.append_cancel_left_eq] at hk
    have hsender : ∀ b : Buffer D, (b.message F y₀.data.dataGroupName).sender = b.sender.map fun sender =>
        Name.truncate (SenderLogger.nameOf sender) (SenderLogger.nul_notMem_nameOf sender) :=
      fun _ => rfl
    refine ⟨k, ?_⟩
    rw [List.map_congr_left fun b _ => hsender b, ← Function.comp_def, ← List.map_map, hk]
    simp
  · have hem := hx.emitted
    rw [emitted_eq_flatMap, hnew, hb.emitted, List.flatMap_append, List.append_cancel_left_eq] at hem
    rw [← hem, List.map_flatMap]
    rfl
  · have hnext := hx.next
    rw [hb.next, hb.names, List.drop_zero] at hnext
    exact hnext

end Profile

-- One pass of serialization, at any moment until its end.
theorem pass_written {D : Type} {F : Double D} {ok : Profile D → ProfileAction D → Prop}
    {y₀ y₁ y : Profile D} {size : Nat} {as : List (ProfileAction D)}
    (h : (profile F).Reachable ok y₀) (hend : y₀.data.atEnd = true)
    (e : (profile F).Step y₀ (.gather size) y₁) (r : (profile F).Run Profile.Continues y₁ as y) :
    (∀ a f, (profile F).Guard y a → (∀ size, a = .gather size → 128 ≤ size) →
      (profile F).exec y a = .error f → f ≠ .safetyLimit ∧ f ≠ .overrun) ∧
    (∀ size z₀ z as' z', (profile F).Reachable ok z₀ → (profile F).Step z₀ (.gather size) z →
      (profile F).Run Profile.Stays z as' z' → (profile F).Guard z' .finish →
      z.data.serializeNext < z'.data.serializeNext ∨ z'.data.aggregates = []) ∧
    1 + as.countP (·.isGather) ≤ max 1 y₀.data.aggregates.length ∧
    (∃ new, Profile.Filled F y₀ y ((profile F).trace (Profile.visits F) y₁ as) new) ∧
    (y.call = none → y.written = y.buffers) ∧
    (y.data.atEnd = true →
      ((profile F).trace (Profile.visits F) y₁ as).map Record.name = y₀.data.names) := by
  have hi := Profile.inv h
  have hi₁ := hi.step e
  have hx := Profile.extends_of_run hi₁ r
  have hiy : y.Inv F := r.preserves (fun _ _ _ h e => h.step e.2) hi₁
  have hb := Profile.begun hi hend e
  obtain ⟨new, hf⟩ := Profile.filled hiy hb hx
  refine ⟨fun a f hg ha he => ?_, fun _ _ _ _ _ h e r hg => Profile.advances (Profile.inv h) e r hg,
    Profile.countP_isGather_le hi hend e r, ⟨new, hf⟩, fun hc => ?_, fun hy => ?_⟩
  · obtain rfl | rfl := Profile.exec_eq_error hiy.next hg ha he <;> simp
  · simp [Profile.written, hc]
  · have hlen : y.data.serializeNext = y₀.data.names.length := by
      rw [← hb.names, ← hx.names, ProfileData.names, List.length_map]
      simpa [ProfileData.atEnd] using hy
    rw [hf.visited, hlen, List.drop_length, List.append_nil]

end PipeRT
