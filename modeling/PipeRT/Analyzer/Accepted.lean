import PipeRT.Analyzer.Decoder
import PipeRT.Profile.Grammar

namespace PipeRT
namespace PacketDecoder

-- What is taken for a packet. Nothing that stands behind a repeated "DGRP" is looked at.
inductive Accepts : List UInt8 → Packet (BitVec 64) → Prop
  | repeated {s s' rest} : 0 ∉ Utf8.encode s → 0 ∉ Utf8.encode s' → rest.take 4 = groupTag →
    Accepts (groupTag ++ (Utf8.encode s ++ 0 :: (Utf8.encode s' ++ 0 :: rest))) ⟨s, s', []⟩
  | events {s s' rest events} : 0 ∉ Utf8.encode s → 0 ∉ Utf8.encode s' → rest.take 4 ≠ groupTag →
    Utf8.Valid (rest.take 4) → Events rest events →
    Accepts (groupTag ++ (Utf8.encode s ++ 0 :: (Utf8.encode s' ++ 0 :: rest))) ⟨s, s', events⟩

-- What is rejected because of bytes that are not encoded in UTF-8.
inductive Garbles : List UInt8 → Prop
  | receiver {kw rest} : 0 ∉ kw → ¬Utf8.Valid kw → Garbles (groupTag ++ (kw ++ 0 :: rest))
  | sender {kw kw' rest} : 0 ∉ kw → Utf8.Valid kw → 0 ∉ kw' → ¬Utf8.Valid kw' →
    Garbles (groupTag ++ (kw ++ 0 :: (kw' ++ 0 :: rest)))
  | beginning {kw kw' rest} : 0 ∉ kw → Utf8.Valid kw → 0 ∉ kw' → Utf8.Valid kw' →
    ¬Utf8.Valid (rest.take 4) → Garbles (groupTag ++ (kw ++ 0 :: (kw' ++ 0 :: rest)))
  | events {kw kw' rest} : 0 ∉ kw → Utf8.Valid kw → 0 ∉ kw' → Utf8.Valid kw' →
    Utf8.Valid (rest.take 4) → rest.take 4 ≠ groupTag → Garbled rest →
    Garbles (groupTag ++ (kw ++ 0 :: (kw' ++ 0 :: rest)))

variable {little : Bool} {kw kw' rest bytes : List UInt8} {packet : Packet (BitVec 64)}

theorem encode_groupWord : Utf8.encode groupWord = groupTag := by
  decide +kernel

theorem checkForCorrectPacket_eq (h : Utf8.Valid bytes) :
    checkForCorrectPacket bytes = .ok (decide (bytes = groupTag)) := by
  obtain ⟨s, rfl⟩ := h
  rw [checkForCorrectPacket, decodeUtf8_eq_ok.mpr rfl, ok_bind, ← encode_groupWord]
  simp [Utf8.encode_injective.eq_iff, beq_eq_decide]

theorem checkForCorrectPacket_eq_error (h : ¬Utf8.Valid bytes) :
    checkForCorrectPacket bytes = .error .unicodeDecodeError := by
  rw [checkForCorrectPacket, decodeUtf8_eq_error h]
  rfl

theorem decodePacket_eq (h : 0 ∉ kw) :
    decodePacket little (groupTag ++ (kw ++ 0 :: rest)) = do
      let receiver ← decodeUtf8 kw
      let (sender, rest) ← getKeyword rest
      let correctPacket ← checkForCorrectPacket (rest.take 4)
      let events ← (if correctPacket then .ok [] else getEvents little rest)
      return { receiver, sender, events } := by
  have htake : (groupTag ++ (kw ++ 0 :: rest)).take 4 = groupTag := rfl
  have hdrop : (groupTag ++ (kw ++ 0 :: rest)).drop 4 = kw ++ 0 :: rest := rfl
  rw [decodePacket, htake, checkForCorrectPacket_eq ⟨_, encode_groupWord⟩, ok_bind, hdrop,
    getKeyword_eq h]
  cases decodeUtf8 kw <;> rfl

-- The same if the second name ends as well.
theorem decodePacket_eq_check (h : 0 ∉ kw) (h' : 0 ∉ kw') {s s' : Str} (hs : Utf8.encode s = kw)
    (hs' : Utf8.encode s' = kw') (hv : Utf8.Valid (rest.take 4)) :
    decodePacket little (groupTag ++ (kw ++ 0 :: (kw' ++ 0 :: rest))) = do
      let events ← (if rest.take 4 = groupTag then .ok [] else getEvents little rest)
      return { receiver := s, sender := s', events } := by
  simp only [decodePacket_eq h, getKeyword_eq h', decodeUtf8_eq_ok.mpr hs, decodeUtf8_eq_ok.mpr hs',
    checkForCorrectPacket_eq hv, ok_bind, pure_eq_ok, decide_eq_true_eq]

theorem decodePacket_of_accepts (h : Accepts bytes packet) :
    decodePacket little bytes = .ok packet := by
  cases h
  case repeated hs hs' hrest =>
    have hvalid : Utf8.Valid (_ : List UInt8) := ⟨_, encode_groupWord.trans hrest.symm⟩
    rw [decodePacket_eq_check hs hs' rfl rfl hvalid, if_pos hrest]
    rfl
  case events hs hs' hne hvalid hevents =>
    rw [decodePacket_eq_check hs hs' rfl rfl hvalid, if_neg hne, getEvents_of_events hevents]
    rfl

theorem decodePacket_of_garbles (h : Garbles bytes) :
    decodePacket little bytes = .error .unicodeDecodeError := by
  cases h
  case receiver hkw hv =>
    rw [decodePacket_eq hkw, decodeUtf8_eq_error hv]
    rfl
  case sender hkw hv hkw' hv' =>
    obtain ⟨s, hs⟩ := hv
    rw [decodePacket_eq hkw, decodeUtf8_eq_ok.mpr hs, ok_bind, getKeyword_eq hkw',
      decodeUtf8_eq_error hv']
    rfl
  case beginning hkw hv hkw' hv' hn =>
    obtain ⟨s, hs⟩ := hv
    obtain ⟨s', hs'⟩ := hv'
    simp only [decodePacket_eq hkw, getKeyword_eq hkw', decodeUtf8_eq_ok.mpr hs,
      decodeUtf8_eq_ok.mpr hs', checkForCorrectPacket_eq_error hn, ok_bind, pure_eq_ok]
    rfl
  case events hkw hv hkw' hv' hvalid hne hg =>
    obtain ⟨s, hs⟩ := hv
    obtain ⟨s', hs'⟩ := hv'
    rw [decodePacket_eq_check hkw hkw' hs hs' hvalid, if_neg hne, getEvents_of_garbled hg]
    rfl

theorem decodePacket_of_not_prefix (h : ¬groupTag <+: bytes) :
    ∃ e, decodePacket little bytes = .error e ∧ e.isValueError = true := by
  have hne : bytes.take 4 ≠ groupTag := fun he => h <| he ▸ List.take_prefix ..
  rw [decodePacket]
  by_cases hv : Utf8.Valid (bytes.take 4)
  case neg => exact ⟨_, by rw [checkForCorrectPacket_eq_error hv]; rfl, rfl⟩
  case pos =>
    rw [checkForCorrectPacket_eq hv, decide_eq_false hne]
    exact ⟨_, rfl, rfl⟩

-- A packet is accepted, rejected because of its beginning or its encoding, or it runs out of bytes.
theorem decodePacket_cases (little : Bool) (bytes : List UInt8) :
    (∃ packet, Accepts bytes packet) ∨ ¬groupTag <+: bytes ∨ Garbles bytes ∨
      decodePacket little bytes = .error .indexError := by
  by_cases hprefix : groupTag <+: bytes
  case neg => exact .inr <| .inl hprefix
  obtain ⟨rest, rfl⟩ := hprefix
  by_cases hz : 0 ∈ rest
  case neg =>
    refine .inr <| .inr <| .inr ?_
    have htake : (groupTag ++ rest).take 4 = groupTag := rfl
    have hdrop : (groupTag ++ rest).drop 4 = rest := rfl
    rw [decodePacket, htake, checkForCorrectPacket_eq ⟨_, encode_groupWord⟩, hdrop,
      getKeyword_eq_error hz]
    rfl
  obtain ⟨kw, rest, rfl, hkw⟩ := List.eq_append_cons_of_mem hz
  by_cases hv : Utf8.Valid kw
  case neg => exact .inr <| .inr <| .inl <| .receiver hkw hv
  obtain ⟨s, rfl⟩ := id hv
  by_cases hz' : 0 ∈ rest
  case neg =>
    refine .inr <| .inr <| .inr ?_
    rw [decodePacket_eq hkw, decodeUtf8_eq_ok.mpr rfl, ok_bind, getKeyword_eq_error hz']
    rfl
  obtain ⟨kw', rest, rfl, hkw'⟩ := List.eq_append_cons_of_mem hz'
  by_cases hv' : Utf8.Valid kw'
  case neg => exact .inr <| .inr <| .inl <| .sender hkw hv hkw' hv'
  obtain ⟨s', rfl⟩ := id hv'
  by_cases hvalid : Utf8.Valid (rest.take 4)
  case neg => exact .inr <| .inr <| .inl <| .beginning hkw hv hkw' hv' hvalid
  by_cases hrepeat : rest.take 4 = groupTag
  case pos => exact .inl ⟨_, .repeated hkw hkw' hrepeat⟩
  obtain ⟨events, hevents, _⟩ | ⟨hg, _⟩ | he := getEvents_cases little rest
  case inl => exact .inl ⟨_, .events hkw hkw' hrepeat hvalid hevents⟩
  case inr.inl => exact .inr <| .inr <| .inl <| .events hkw hv hkw' hv' hvalid hrepeat hg
  case inr.inr =>
    refine .inr <| .inr <| .inr ?_
    rw [decodePacket_eq_check hkw hkw' rfl rfl hvalid, if_neg hrepeat, he]
    rfl

theorem decodePacket_eq_ok : decodePacket little bytes = .ok packet ↔ Accepts bytes packet := by
  refine ⟨fun h => ?_, decodePacket_of_accepts⟩
  obtain ⟨packet', ha⟩ | hn | hg | he := decodePacket_cases little bytes
  case inl =>
    obtain rfl := Except.ok.inj <| h.symm.trans <| decodePacket_of_accepts ha
    exact ha
  case inr.inl =>
    obtain ⟨_, he, _⟩ := decodePacket_of_not_prefix hn
    cases h.symm.trans he
  case inr.inr.inl => cases h.symm.trans <| decodePacket_of_garbles hg
  case inr.inr.inr => cases h.symm.trans he

theorem decodePacket_eq_valueError :
    (∃ e, decodePacket little bytes = .error e ∧ e.isValueError = true) ↔
      ¬groupTag <+: bytes ∨ Garbles bytes := by
  constructor
  case mp =>
    rintro ⟨e, he, hvalue⟩
    obtain ⟨packet, ha⟩ | hn | hg | hi := decodePacket_cases little bytes
    case inl         => cases he.symm.trans <| decodePacket_of_accepts ha
    case inr.inl     => exact .inl hn
    case inr.inr.inl => exact .inr hg
    case inr.inr.inr =>
      obtain rfl := Except.error.inj <| he.symm.trans hi
      contradiction
  case mpr =>
    rintro (hn | hg)
    case inl => exact decodePacket_of_not_prefix hn
    case inr => exact ⟨_, decodePacket_of_garbles hg, rfl⟩

end PacketDecoder

section Messages

open PacketDecoder

-- An event tells what stands in the entry.
structure Event.Reads (event : Event (BitVec 64)) (entry : Message.Entry) : Prop where
  name   : Utf8.encode event.getType = entry.name.text
  fields : ∃ s, event = eventOf s entry.fields

structure Message.Readable (message : Message) : Prop where
  receiver : Utf8.Valid message.receiver.text
  sender   : ∀ name ∈ message.sender, Utf8.Valid name.text
  entries  : ∀ entry ∈ message.entries, Utf8.Valid entry.name.text

theorem encode_tags : Utf8.encode ['L', 'O', 'G', 'A'] = recordTag ∧
    Utf8.encode ['S', 'E', 'N', 'D'] = senderTag := by
  decide +kernel

theorem notMem_append {tag text : List UInt8} (ht : 0 ∉ tag) (h : 0 ∉ text) : 0 ∉ tag ++ text :=
  fun hm => (List.mem_append.mp hm).elim ht h

-- A tag before it, and a text that is read behind the tag.
theorem exists_encode {tag text : List UInt8} {word : Str} (hw : Utf8.encode word = tag)
    (hlen : word.length = 4) (hv : Utf8.Valid text) :
    ∃ s, Utf8.encode s = tag ++ text ∧ Utf8.encode (s.drop 4) = text := by
  obtain ⟨s, rfl⟩ := hv
  exact ⟨word ++ s, by rw [Utf8.encode_append, hw], by rw [List.drop_left' hlen]⟩

theorem exists_events {entries : List Message.Entry} (hv : ∀ entry ∈ entries, Utf8.Valid entry.name.text) :
    ∃ events, Events (entries.flatMap Message.Entry.image) events ∧
      List.Forall₂ Event.Reads events entries := by
  induction entries
  case nil => exact ⟨[], .nil, .nil⟩
  case cons entry entries ih =>
    obtain ⟨hv, hrest⟩ := List.forall_mem_cons.mp hv
    obtain ⟨events, hevents, hreads⟩ := ih hrest
    obtain ⟨s, hs, hdrop⟩ := exists_encode encode_tags.1 rfl hv
    have hkw : 0 ∉ recordTag ++ entry.name.text := notMem_append (by decide) entry.name.nul
    have himage : entry.image = recordTag ++ entry.name.text ++ 0 :: entry.fields := by
      simp [Message.Entry.image, Name.image]
    refine ⟨eventOf s entry.fields :: events, ?_, .cons ⟨hdrop, s, rfl⟩ hreads⟩
    rw [List.flatMap_cons, himage, List.append_assoc, List.cons_append]
    exact .cons hkw hs entry.length hevents

-- The messages that name a sender are decoded into what stands in them.
theorem Message.Readable.accepts {message : Message} {sender : Name} (h : message.Readable)
    (hs : message.sender = some sender) :
    ∃ packet, Accepts message.image packet ∧ Utf8.encode packet.receiver = message.receiver.text ∧
      Utf8.encode packet.getSender = sender.text ∧
      List.Forall₂ Event.Reads packet.events message.entries := by
  obtain ⟨events, hevents, hreads⟩ := exists_events h.entries
  obtain ⟨receiver, hreceiver⟩ := h.receiver
  obtain ⟨s, hs', hdrop⟩ := exists_encode encode_tags.2 rfl <| h.sender sender hs
  have hz : 0 ∉ Utf8.encode receiver := hreceiver ▸ message.receiver.nul
  have hz' : 0 ∉ Utf8.encode s := hs' ▸ notMem_append (by decide) sender.nul
  have hne : (message.entries.flatMap Entry.image).take 4 ≠ groupTag ∧
      Utf8.Valid ((message.entries.flatMap Entry.image).take 4) := by
    cases message.entries
    case nil  => exact ⟨by simp [groupTag], [], rfl⟩
    case cons => exact ⟨by simp [Entry.image, recordTag, groupTag], _, encode_tags.1⟩
  have himage : message.image = groupTag ++ (Utf8.encode receiver ++ 0 ::
      (Utf8.encode s ++ 0 :: message.entries.flatMap Entry.image)) := by
    simp [Message.image, Name.image, hs, hreceiver, hs']
  refine ⟨⟨receiver, s, events⟩, ?_, hreceiver, hdrop, hreads⟩
  rw [himage]
  exact .events hz hz' hne.1 hne.2 hevents

end Messages
end PipeRT
