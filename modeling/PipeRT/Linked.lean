import Mathlib

-- Owners and resources that refer to each other: what an owner has, and whose a resource is. The
-- links of a resource that is not alive do not matter.
structure Linked {ω ρ : Type} (live : ρ → Prop) (has : ω → Option ρ) (owner : ρ → Option ω) :
    Prop where
  owned : ∀ r, live r → ∃ o, owner r = some o ∧ has o = some r
  back  : ∀ o r, has o = some r → live r ∧ owner r = some o

namespace Linked

variable {ω ρ : Type} {live live' : ρ → Prop} {has : ω → Option ρ} {owner : ρ → Option ω}
variable {o o' : ω} {r : ρ}

theorem owner_unique (h : Linked live has owner) (ho : has o = some r) (ho' : has o' = some r) :
    o = o' :=
  Option.some.inj <| (h.back o r ho).2.symm.trans (h.back o' r ho').2

theorem exists_iff (h : Linked live has owner) (hr : live r) :
    ∃ o, owner r = some o ∧ ∀ o', has o' = some r ↔ o' = o := by
  have ⟨o, ho, hh⟩ := h.owned r hr
  exact ⟨o, ho, fun o' => ⟨fun ho' => h.owner_unique ho' hh, fun heq => heq ▸ hh⟩⟩

theorem congr (h : Linked live has owner) (hl : ∀ r, live' r ↔ live r) : Linked live' has owner where
  owned r hr  := h.owned r <| (hl r).mp hr
  back o r ho := ⟨(hl r).mpr (h.back o r ho).1, (h.back o r ho).2⟩

variable [DecidableEq ω] [DecidableEq ρ]

-- A resource comes to life in the hands of a new owner.
theorem add (h : Linked live has owner) (ho : has o = none) (hr : ¬live r)
    (hl : ∀ r', live' r' ↔ r' = r ∨ live r') :
    Linked live' (Function.update has o (some r)) (Function.update owner r (some o)) where
  owned r' hr' := by
    by_cases hrr : r' = r
    case pos => exact ⟨o, by simp [hrr]⟩
    case neg =>
      have ⟨o', ho', hh⟩ := h.owned r' <| ((hl r').mp hr').resolve_left hrr
      have hoo : o' ≠ o := fun heq => by simp [← heq, hh] at ho
      exact ⟨o', by simp [hrr, ho'], by simp [hoo, hh]⟩
  back o' r' ho' := by
    by_cases hoo : o' = o
    case pos =>
      obtain rfl : r' = r := by simpa [hoo, eq_comm] using ho'
      exact ⟨(hl r').mpr (.inl rfl), by simp [hoo]⟩
    case neg =>
      have hb := h.back o' r' <| by simpa [hoo] using ho'
      have hrr : r' ≠ r := fun heq => hr <| heq ▸ hb.1
      exact ⟨(hl r').mpr (.inr hb.1), by simp [hrr, hb.2]⟩

-- The owner `o` hands its resource over to `o'`, which has none.
theorem transfer (h : Linked live has owner) (ho : has o = some r) (ho' : has o' = none) :
    Linked live (Function.update (Function.update has o' (some r)) o none)
      (Function.update owner r (some o')) where
  owned r' hr' := by
    have hne : o' ≠ o := fun heq => by simp [← heq, ho'] at ho
    by_cases hrr : r' = r
    case pos => exact ⟨o', by simp [hrr], by simp [hrr, hne]⟩
    case neg =>
      have ⟨a, ha, hh⟩ := h.owned r' hr'
      have hao : a ≠ o := fun heq => hrr <| Option.some.inj <| hh.symm.trans <| heq ▸ ho
      have hao' : a ≠ o' := fun heq => by simp [← heq, hh] at ho'
      exact ⟨a, by simp [hrr, ha], by simp [hao, hao', hh]⟩
  back a r' ha := by
    have hao : a ≠ o := fun heq => by simp [heq] at ha
    rw [Function.update_of_ne hao] at ha
    by_cases hao' : a = o'
    case pos =>
      obtain rfl : r' = r := by simpa [hao', eq_comm] using ha
      exact ⟨(h.back o r' ho).1, by simp [hao']⟩
    case neg =>
      have hb := h.back a r' <| by simpa [hao'] using ha
      have hrr : r' ≠ r := fun heq => hao <| h.owner_unique (by simpa [hao'] using ha) (heq ▸ ho)
      exact ⟨hb.1, by simp [hrr, hb.2]⟩

omit [DecidableEq ρ] in
-- An owner goes together with its resource.
theorem remove (h : Linked live has owner) (ho : has o = some r)
    (hl : ∀ r', live' r' ↔ r' ≠ r ∧ live r') : Linked live' (Function.update has o none) owner where
  owned r' hr' := by
    have ⟨hrr, hr'⟩ := (hl r').mp hr'
    have ⟨a, ha, hh⟩ := h.owned r' hr'
    have hao : a ≠ o := fun heq => hrr <| Option.some.inj <| hh.symm.trans <| heq ▸ ho
    exact ⟨a, ha, by simp [hao, hh]⟩
  back a r' ha := by
    have hao : a ≠ o := fun heq => by simp [heq] at ha
    rw [Function.update_of_ne hao] at ha
    have hb := h.back a r' ha
    have hrr : r' ≠ r := fun heq => hao <| h.owner_unique ha (heq ▸ ho)
    exact ⟨(hl r').mpr ⟨hrr, hb.1⟩, hb.2⟩

end Linked
