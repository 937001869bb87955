import Mathlib

-- An encoding whose end can be told, whatever follows.
def PrefixFree {α β : Type} (encode : α → List β) : Prop :=
  ∀ a b s t, encode a ++ s = encode b ++ t → a = b ∧ s = t

namespace PrefixFree

variable {α α' β : Type} {encode : α → List β} {encode' : α' → List β}

theorem injective (h : PrefixFree encode) : Function.Injective encode :=
  fun a b he => (h a b [] [] <| by rw [he]).1

-- All encodings have the same length.
theorem of_length {n : Nat} (hi : Function.Injective encode) (h : ∀ a, (encode a).length = n) :
    PrefixFree encode := by
  intro a b s t he
  obtain ⟨hab, hst⟩ := List.append_inj he <| (h a).trans (h b).symm
  exact ⟨hi hab, hst⟩

-- A symbol that does not occur otherwise stands at the end.
theorem terminated {z : β} (hi : Function.Injective encode) (h : ∀ a, z ∉ encode a) :
    PrefixFree fun a => encode a ++ [z] := by
  have hlist : ∀ l l' s t : List β, z ∉ l → z ∉ l' → l ++ z :: s = l' ++ z :: t → l = l' ∧ s = t := by
    intro l
    induction l
    case nil =>
      rintro (_ | ⟨x, l'⟩) s t _ hl' he
      case nil  => exact ⟨rfl, (List.cons.inj he).2⟩
      case cons => exact absurd (List.mem_cons.mpr <| .inl (List.cons.inj he).1) hl'
    case cons x l ih =>
      rintro (_ | ⟨x', l'⟩) s t hl hl' he
      case nil  => exact absurd (List.mem_cons.mpr <| .inl (List.cons.inj he).1.symm) hl
      case cons =>
        obtain ⟨rfl, htail⟩ := List.cons.inj he
        obtain ⟨rfl, hst⟩ := ih l' s t (List.not_mem_of_not_mem_cons hl)
          (List.not_mem_of_not_mem_cons hl') htail
        exact ⟨rfl, hst⟩
  intro a b s t he
  simp only [List.append_assoc, List.singleton_append] at he
  obtain ⟨hab, hst⟩ := hlist _ _ s t (h a) (h b) he
  exact ⟨hi hab, hst⟩

-- One encoding after the other.
theorem append (h : PrefixFree encode) (h' : PrefixFree encode') :
    PrefixFree fun p : α × α' => encode p.1 ++ encode' p.2 := by
  rintro ⟨a, a'⟩ ⟨b, b'⟩ s t he
  simp only [List.append_assoc] at he
  obtain ⟨rfl, hrest⟩ := h a b _ _ he
  obtain ⟨rfl, rfl⟩ := h' a' b' s t hrest
  exact ⟨rfl, rfl⟩

theorem map {f : α' → α} (h : PrefixFree encode) (hf : Function.Injective f) :
    PrefixFree fun a => encode (f a) := by
  intro a b s t he
  obtain ⟨hab, hst⟩ := h (f a) (f b) s t he
  exact ⟨hf hab, hst⟩

-- A tag before it makes no difference.
theorem tagged (tag : List β) (h : PrefixFree encode) : PrefixFree fun a => tag ++ encode a := by
  intro a b s t he
  simp only [List.append_assoc, List.append_cancel_left_eq] at he
  exact h a b s t he

-- As many encodings as there are.
theorem flatMap (h : PrefixFree encode) (hne : ∀ a, encode a ≠ []) :
    Function.Injective fun as : List α => as.flatMap encode := by
  intro as
  induction as
  case nil =>
    rintro (_ | ⟨b, bs⟩) he
    case nil  => rfl
    case cons => exact absurd (List.append_eq_nil_iff.mp he.symm).1 (hne b)
  case cons a as ih =>
    rintro (_ | ⟨b, bs⟩) he
    case nil  => exact absurd (List.append_eq_nil_iff.mp he).1 (hne a)
    case cons =>
      obtain ⟨rfl, hrest⟩ := h a b _ _ he
      rw [ih hrest]

end PrefixFree
