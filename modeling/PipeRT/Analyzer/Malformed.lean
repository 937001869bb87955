import PipeRT.Analyzer.Accepted

namespace PipeRT

-- A complete packet, as it is documented.
def Documented (bytes : List UInt8) : Prop :=
  ∃ message : Message, message.Readable ∧ message.image = bytes

namespace PacketDecoder

-- What `decode_packet` should do: a packet for every message and a `ValueError` for anything else.
def Classifies (little : Bool) (bytes : List UInt8) : Prop :=
  (Documented bytes → ∃ packet, decodePacket little bytes = .ok packet) ∧
  (¬Documented bytes → ∃ e, decodePacket little bytes = .error e ∧ e.isValueError = true)

-- What may stand behind the second name.
def Continues (rest : List UInt8) : Prop :=
  rest.take 4 = groupTag ∨ Utf8.Valid (rest.take 4) ∧ ∃ events, Events rest events

-- A message without a sender whose first entry is taken for one.
def Mistakes (message : Message) : Prop :=
  message.sender = none ∧ ∃ entry entries, message.entries = entry :: entries ∧
    Continues (entry.fields ++ entries.flatMap Message.Entry.image)

variable {little : Bool} {kw kw' rest bytes : List UInt8} {message : Message}

theorem exists_accepts_iff (h : 0 ∉ kw) (h' : 0 ∉ kw') (hv : Utf8.Valid kw) (hv' : Utf8.Valid kw') :
    (∃ packet, Accepts (groupTag ++ (kw ++ 0 :: (kw' ++ 0 :: rest))) packet) ↔ Continues rest := by
  obtain ⟨s, rfl⟩ := id hv
  obtain ⟨s', rfl⟩ := id hv'
  constructor
  case mpr =>
    rintro (hrepeat | ⟨hvalid, events, hevents⟩)
    case inl => exact ⟨_, .repeated h h' hrepeat⟩
    case inr =>
      by_cases hrepeat : rest.take 4 = groupTag
      case pos => exact ⟨_, .repeated h h' hrepeat⟩
      case neg => exact ⟨_, .events h h' hrepeat hvalid hevents⟩
  case mp =>
    rintro ⟨packet, ha⟩
    have hok : decodePacket true _ = .ok packet := decodePacket_of_accepts ha
    by_cases hrepeat : rest.take 4 = groupTag
    case pos => exact .inl hrepeat
    by_cases hvalid : Utf8.Valid (rest.take 4)
    case neg => cases hok.symm.trans <| decodePacket_of_garbles <| .beginning h hv h' hv' hvalid
    rw [decodePacket_eq_check h h' rfl rfl hvalid, if_neg hrepeat] at hok
    obtain ⟨events, hevents, _⟩ | ⟨_, he⟩ | he := getEvents_cases true rest
    case inl => exact .inr ⟨hvalid, events, hevents⟩
    all_goals
      rw [he] at hok
      contradiction

-- Without a sender, there has to be an entry.
theorem exists_accepts_iff_mistakes (h : message.Readable) (hs : message.sender = none) :
    (∃ packet, Accepts message.image packet) ↔ Mistakes message := by
  cases hentries : message.entries
  case nil =>
    have himage : message.image = groupTag ++ (message.receiver.text ++ 0 :: []) := by
      simp [Message.image, Name.image, hs, hentries]
    refine iff_of_false ?_ (by simp [Mistakes, hentries])
    rintro ⟨packet, ha⟩
    have hok : decodePacket true _ = .ok packet := decodePacket_of_accepts ha
    rw [himage, decodePacket_eq message.receiver.nul, getKeyword_eq_error (by simp)] at hok
    obtain ⟨_, _, hok⟩ := bind_eq_ok.mp hok
    contradiction
  case cons entry entries =>
    have himage : message.image = groupTag ++ (message.receiver.text ++ 0 ::
        ((recordTag ++ entry.name.text) ++ 0 ::
          (entry.fields ++ entries.flatMap Message.Entry.image))) := by
      simp [Message.image, Message.Entry.image, Name.image, hs, hentries]
    obtain ⟨s, hstr, _⟩ := exists_encode encode_tags.1 rfl <| h.entries entry <| by simp [hentries]
    rw [himage, exists_accepts_iff message.receiver.nul (notMem_append (by decide) entry.name.nul)
      h.receiver ⟨s, hstr⟩]
    simp [Mistakes, hs, hentries]

theorem exists_accepts_image_iff (h : message.Readable) :
    (∃ packet, Accepts message.image packet) ↔ message.sender.isSome = true ∨ Mistakes message := by
  cases hs : message.sender
  case none => simp [exists_accepts_iff_mistakes h hs]
  case some sender =>
    obtain ⟨packet, ha, _⟩ := h.accepts hs
    exact iff_of_true ⟨packet, ha⟩ <| .inl rfl

theorem prefix_of_documented (h : Documented bytes) : groupTag <+: bytes := by
  obtain ⟨message, _, rfl⟩ := h
  simp only [Message.image, List.append_assoc]
  exact List.prefix_append ..

end PacketDecoder

open PacketDecoder

-- A message has to name its sender, or its first entry has to pass for one. Anything else is rejected
-- as it should be if its beginning or its encoding is wrong, but not if it runs out of bytes.
theorem classifies_iff {little : Bool} {bytes : List UInt8} :
    Classifies little bytes ↔
      ¬groupTag <+: bytes ∨
      (∃ message : Message, message.Readable ∧ message.image = bytes ∧
        (message.sender.isSome = true ∨ Mistakes message)) ∨
      ¬Documented bytes ∧ Garbles bytes := by
  simp only [Classifies, decodePacket_eq_ok, decodePacket_eq_valueError]
  by_cases hd : Documented bytes
  case pos =>
    obtain ⟨message, hr, rfl⟩ := id hd
    simp only [hd, forall_const, not_true_eq_false, IsEmpty.forall_iff, and_true, false_and, or_false,
      prefix_of_documented hd, false_or, exists_accepts_image_iff hr]
    constructor
    case mp => exact fun h => ⟨message, hr, rfl, h⟩
    case mpr =>
      rintro ⟨message', _, himage, h⟩
      rwa [← Message.image_injective himage]
  case neg =>
    have hn : ¬∃ message : Message, message.Readable ∧ message.image = bytes ∧
        (message.sender.isSome = true ∨ Mistakes message) :=
      fun ⟨message, hr, himage, _⟩ => hd ⟨message, hr, himage⟩
    simp only [hd, hn, IsEmpty.forall_iff, not_false_eq_true, forall_const, true_and, false_or]

-- A message of a name alone, as it is sent if nothing was logged. Then the same without its end, and
-- with a tag that is not documented.
theorem not_classifies :
    ¬Classifies true [68, 71, 82, 80, 97, 0] ∧ ¬Classifies true [68, 71, 82, 80, 97] ∧
      ¬Classifies true [68, 71, 82, 80, 97, 0, 88, 88, 88, 88, 98, 0] := by
  refine ⟨fun h => ?_, fun h => ?_, fun h => ?_⟩
  · have he : decodePacket true [68, 71, 82, 80, 97, 0] = .error .indexError := by decide +kernel
    obtain ⟨packet, hp⟩ := h.1
      ⟨⟨⟨[97], by decide⟩, none, []⟩, ⟨⟨['a'], by decide⟩, by simp, by simp⟩, rfl⟩
    cases he.symm.trans hp
  · have he : decodePacket true [68, 71, 82, 80, 97] = .error .indexError := by decide +kernel
    obtain ⟨e, he', hvalue⟩ := h.2 <| by
      rintro ⟨message, _, himage⟩
      have hlast := congrArg (0 ∈ ·) himage
      simp [Message.image, Name.image] at hlast
    obtain rfl := Except.error.inj <| he.symm.trans he'
    contradiction
  · have hp : decodePacket true [68, 71, 82, 80, 97, 0, 88, 88, 88, 88, 98, 0] =
        .ok ⟨['a'], ['X', 'X', 'X', 'X', 'b'], []⟩ := by decide +kernel
    obtain ⟨e, he, _⟩ := h.2 <| by
      rintro ⟨⟨receiver, sender, entries⟩, _, himage⟩
      simp only [Message.image, List.append_assoc] at himage
      obtain ⟨_, hrest⟩ := Name.prefixFree receiver ⟨[97], by decide⟩ _ [88, 88, 88, 88, 98, 0] <|
        @List.append_cancel_left _ groupTag _ _ himage
      rcases sender with _ | sender
      case none => cases entries <;> simp [Message.Entry.image, recordTag] at hrest
      case some => simp [senderTag] at hrest
    cases hp.symm.trans he

end PipeRT
