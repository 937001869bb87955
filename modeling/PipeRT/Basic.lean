import Mathlib

namespace PipeRT

-- `Timer::Time`, in microseconds. Differences of times are taken as exact integers.
abbrev Time := Int

-- `Timer::kMaxTime`, the greatest 64-bit integer.
def kMaxTime : Time :=
  2 ^ 63 - 1

-- A `void*`: the monitor objects that callers hand in, which are only ever compared.
abbrev Ptr := Nat

def nullptr : Ptr :=
  0

-- The address of a `ChannelImpl`.
abbrev ChannelId := Nat

-- A `PacketBase*` into the pool of a channel, as the index of its slot.
abbrev Slot := Nat

-- The ways in which the code goes wrong instead of finishing an operation.
inductive Fault where
  -- An `assert` does not hold.
  | assertion
  -- A pointer to a destroyed `ChannelImpl` is dereferenced.
  | dangling
  -- `SteadyHeap::front` is evaluated on an empty heap.
  | emptyFront
  -- `ChannelImpl::PeekNext` is evaluated on a channel whose packet queue is empty.
  | peekEmpty
  -- `StateOrdering` is evaluated on a state that has no channel heap.
  | unknownState
  -- `StateOrdering` is evaluated on a state whose channel heap is empty.
  | emptyState
  deriving DecidableEq, Repr

-- An `assert` of the source.
def check (p : Prop) [Decidable p] : Except Fault Unit :=
  if p then .ok () else .error .assertion

@[simp]
theorem check_of {p : Prop} [Decidable p] (h : p) : check p = .ok () :=
  if_pos h

theorem of_check {p : Prop} [Decidable p] {u : Unit} (h : check p = .ok u) : p := by
  by_contra hp
  simp [check, hp] at h

@[simp]
theorem ok_bind {α β ε : Type} (a : α) (f : α → Except ε β) : (Except.ok a >>= f) = f a :=
  rfl

theorem bind_eq_ok {α β ε : Type} {x : Except ε α} {f : α → Except ε β} {b : β} :
    (x >>= f) = .ok b ↔ ∃ a, x = .ok a ∧ f a = .ok b := by
  cases x
  case error e => exact iff_of_false nofun nofun
  case ok a    => exact ⟨fun h => ⟨a, rfl, h⟩, fun ⟨_, ha, h⟩ => Except.ok.inj ha ▸ h⟩

theorem bind_eq_error {α β ε : Type} {x : Except ε α} {f : α → Except ε β} {e : ε} :
    (x >>= f) = .error e ↔ x = .error e ∨ ∃ a, x = .ok a ∧ f a = .error e := by
  cases x
  case error => simp [bind, Except.bind]
  case ok    => simp [bind, Except.bind]

theorem mapError_eq_ok {ε ε' α : Type} {f : ε → ε'} {x : Except ε α} {a : α} :
    x.mapError f = .ok a ↔ x = .ok a := by
  cases x <;> simp [Except.mapError]

theorem mapError_eq_error {ε ε' α : Type} {f : ε → ε'} {x : Except ε α} {e : ε'} :
    x.mapError f = .error e ↔ ∃ e', x = .error e' ∧ f e' = e := by
  cases x <;> simp [Except.mapError]

@[simp]
theorem pure_eq_ok {α ε : Type} (a : α) : (pure a : Except ε α) = .ok a :=
  rfl

-- A loop whose body does not fail.
theorem exists_mapM_eq_ok {α β ε : Type} {R : α → β → Prop} {f : α → Except ε β} {l : List α}
    (h : ∀ a ∈ l, ∃ b, f a = .ok b ∧ R a b) : ∃ l', l.mapM f = .ok l' ∧ List.Forall₂ R l l' := by
  induction l
  case nil => exact ⟨[], rfl, .nil⟩
  case cons a l ih =>
    obtain ⟨ha, hl⟩ := List.forall_mem_cons.mp h
    obtain ⟨b, hb, hr⟩ := ha
    obtain ⟨l', hl', hrest⟩ := ih hl
    exact ⟨b :: l', by rw [List.mapM_cons, hb, hl']; rfl, .cons hr hrest⟩

theorem of_mapM_eq_ok {α β ε : Type} {f : α → Except ε β} {l : List α} {l' : List β}
    (h : l.mapM f = .ok l') : List.Forall₂ (fun a b => f a = .ok b) l l' := by
  induction l generalizing l'
  case nil =>
    obtain rfl := Except.ok.inj h
    exact .nil
  case cons a l ih =>
    rw [List.mapM_cons] at h
    obtain ⟨b, hb, h⟩ := bind_eq_ok.mp h
    obtain ⟨l', hl, h⟩ := bind_eq_ok.mp h
    obtain rfl := Except.ok.inj h
    exact .cons hb <| ih hl

theorem exists_of_forall₂ {α β : Type} {R : α → β → Prop} {l : List α} {l' : List β} {b : β}
    (h : List.Forall₂ R l l') (hb : b ∈ l') : ∃ a ∈ l, R a b := by
  obtain ⟨i, hi, rfl⟩ := List.getElem_of_mem hb
  have hi' : i < l.length := h.length_eq ▸ hi
  exact ⟨l[i], List.getElem_mem hi', h.get hi' hi⟩

end PipeRT
