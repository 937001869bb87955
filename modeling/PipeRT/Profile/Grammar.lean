import PipeRT.Format
import PipeRT.Profile.Writes

namespace PipeRT

-- A string that is terminated by zero when it is written.
@[ext]
structure Name where
  text : List UInt8
  nul  : 0 ∉ text

namespace Name

def image (name : Name) : List UInt8 :=
  name.text ++ [0]

theorem text_injective : Function.Injective Name.text :=
  fun _ _ => Name.ext

theorem prefixFree : PrefixFree image :=
  .terminated text_injective Name.nul

def truncate (text : List UInt8) (h : 0 ∉ text) : Name where
  text := text.take kMaxNameLength
  nul  := fun hm => h <| List.mem_of_mem_take hm

end Name

-- What `Profiler` documents of the packets that it sends.
@[ext]
structure Message.Entry where
  name   : Name
  fields : List UInt8
  length : fields.length = 32

@[ext]
structure Message where
  receiver : Name
  sender   : Option Name
  entries  : List Message.Entry

namespace Message

def Entry.image (entry : Entry) : List UInt8 :=
  recordTag ++ (entry.name.image ++ entry.fields)

def image (message : Message) : List UInt8 :=
  groupTag ++ message.receiver.image ++ message.sender.elim [] (senderTag ++ ·.image) ++
    message.entries.flatMap Entry.image

theorem Entry.prefixFree : PrefixFree Entry.image := by
  have hfields : PrefixFree (Subtype.val (p := fun fields : List UInt8 => fields.length = 32)) :=
    .of_length Subtype.val_injective Subtype.prop
  have hpair : Function.Injective fun entry : Entry =>
      (entry.name, (⟨entry.fields, entry.length⟩ : { fields : List UInt8 // fields.length = 32 })) := by
    intro entry entry' h
    obtain ⟨hname, hfields⟩ := Prod.mk.inj h
    exact Entry.ext hname <| Subtype.mk.inj hfields
  exact ((Name.prefixFree.append hfields).tagged recordTag).map hpair

theorem Entry.image_ne_nil (entry : Entry) : entry.image ≠ [] := by
  simp [Entry.image, recordTag]

-- The packets can be told apart by their bytes.
theorem image_injective : Function.Injective image := by
  rintro ⟨receiver, sender, entries⟩ ⟨receiver', sender', entries'⟩ h
  simp only [image, List.append_assoc] at h
  obtain ⟨rfl, hrest⟩ := Name.prefixFree.tagged groupTag receiver receiver' _ _ <| by
    simpa only [List.append_assoc] using h
  clear h
  have hentries := Entry.prefixFree.flatMap Entry.image_ne_nil
  rcases sender with _ | sender <;> rcases sender' with _ | sender'
  case none.none => rw [hentries hrest]
  case some.some =>
    simp only [Option.elim_some, List.append_assoc, List.append_cancel_left_eq] at hrest
    obtain ⟨rfl, hlist⟩ := Name.prefixFree sender sender' _ _ hrest
    rw [hentries hlist]
  -- The tags differ in their first letters.
  case none.some => cases entries <;> simp [Entry.image, recordTag, senderTag] at hrest
  case some.none => cases entries' <;> simp [Entry.image, recordTag, senderTag] at hrest

end Message

-- The packet that a buffer stands for.
section Buffer

variable {D : Type} (F : Double D)

theorem SenderLogger.nul_notMem_nameOf (sender : Option CString) :
    0 ∉ SenderLogger.nameOf sender := by
  cases sender
  case none      => decide
  case some name => exact name.nul

def CString.truncate (name : CString) : Name :=
  .truncate name.text name.nul

def Record.entry (r : Record D) : Message.Entry where
  name   := r.name.truncate
  fields := r.fields F
  length := r.length_fields

def Buffer.message (buffer : Buffer D) (dataGroupName : CString) : Message where
  receiver := dataGroupName.truncate
  sender   := buffer.sender.map fun sender =>
              .truncate (SenderLogger.nameOf sender) (SenderLogger.nul_notMem_nameOf sender)
  entries  := buffer.records.map (·.entry F)

theorem Record.image_eq (r : Record D) : r.image F = (r.entry F).image := by
  rw [Record.image, List.append_assoc]
  rfl

theorem Buffer.image_eq (buffer : Buffer D) (dataGroupName : CString) :
    buffer.image F dataGroupName = (buffer.message F dataGroupName).image := by
  have hrecords : buffer.records.flatMap (·.image F) =
      (buffer.records.map (·.entry F)).flatMap Message.Entry.image := by
    rw [List.flatMap_map]
    exact List.flatMap_congr fun r _ => r.image_eq F
  simp only [Buffer.image, Message.image, Buffer.message, hrecords]
  cases buffer.sender <;> rfl

end Buffer
end PipeRT
