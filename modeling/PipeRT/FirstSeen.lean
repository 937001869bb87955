import Mathlib

-- What is new is put at the end of a list.
def addNew {α : Type} [DecidableEq α] (l : List α) (a : α) : List α :=
  if a ∈ l then l else l ++ [a]

section

variable {α : Type} [DecidableEq α] {l : List α} {a b : α}

theorem mem_addNew : b ∈ addNew l a ↔ b ∈ l ∨ b = a := by
  rw [addNew]
  split
  case isTrue h  => exact ⟨.inl, fun hb => hb.elim id fun hb => hb ▸ h⟩
  case isFalse h => rw [List.mem_append, List.mem_singleton]

theorem prefix_addNew : l <+: addNew l a := by
  rw [addNew]
  split
  case isTrue  => exact List.prefix_rfl
  case isFalse => exact List.prefix_append ..

theorem addNew_cons (h : b ≠ a) : addNew (b :: l) a = b :: addNew l a := by
  by_cases ha : a ∈ l <;> simp [addNew, ha, Ne.symm h]

theorem nodup_addNew (h : l.Nodup) : (addNew l a).Nodup := by
  rw [addNew]
  split
  case isTrue     => exact h
  case isFalse ha => exact List.nodup_append.mpr ⟨h, List.nodup_singleton a, by grind⟩

variable [BEq α] [LawfulBEq α]

-- In the order in which they were first seen.
theorem eraseDups_concat : (l ++ [a]).eraseDups = addNew l.eraseDups a := by
  rw [List.eraseDups_append, List.removeAll]
  by_cases h : a ∈ l <;> simp [h, addNew, List.eraseDups_cons]

theorem nodup_eraseDups : l.eraseDups.Nodup := by
  induction l using List.reverseRecOn
  case nil => simp
  case append_singleton l a ih =>
    rw [eraseDups_concat]
    exact nodup_addNew ih

end
