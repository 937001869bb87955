import Mathlib

-- A bounded priority queue. Each of its places is free, or has an item in it that is queued, or one
-- that is in the hands of a user.
namespace Bounded

variable {α κ : Type}

structure Handle (α : Type) where
  filling : Bool
  item    : Option α
  deriving DecidableEq

@[ext]
structure Queue (α : Type) where
  capacity : Nat
  queued   : Multiset α
  handles  : List (Handle α)

-- Handles are named by their indices.
inductive Event (α : Type) where
  | idle
  | acquire (item : α)
  | update (i : Nat) (f : α → α)
  | push (i : Nat)
  | poll
  | release (i : Nat)

-- Nothing is taken that is not least, and something is taken if there is anything.
inductive Takes [LE κ] (key : α → κ) : Multiset α → Option α → Multiset α → Prop
  | empty : Takes key 0 none 0
  | least {item rest} : (∀ other ∈ rest, key item ≤ key other) →
    Takes key (item ::ₘ rest) (some item) rest

namespace Queue

protected def new (capacity : Nat) : Queue α where
  capacity := capacity
  queued   := 0
  handles  := []

def held (q : Queue α) : Nat :=
  q.handles.countP (·.item.isSome)

def free (q : Queue α) : Nat :=
  q.capacity - (q.queued.card + q.held)

inductive Step [LE κ] (key : α → κ) : Queue α → Event α → Queue α → Prop
  | idle {q} : Step key q .idle q
  | acquire {q item} : 0 < q.free →
    Step key q (.acquire item) { q with handles := q.handles ++ [⟨true, some item⟩] }
  | replace {q item old rest} : q.free = 0 → Takes key q.queued (some old) rest →
    Step key q (.acquire item) {
      q with
      queued  := rest
      handles := q.handles ++ [⟨true, some item⟩] }
  | refuse {q item} : q.held = q.capacity →
    Step key q (.acquire item) { q with handles := q.handles ++ [⟨true, none⟩] }
  | update {q i f filling item} : q.handles[i]? = some ⟨filling, some item⟩ → key (f item) = key item →
    Step key q (.update i f) { q with handles := q.handles.set i ⟨filling, some (f item)⟩ }
  | push {q i item} : q.handles[i]? = some ⟨true, some item⟩ →
    Step key q (.push i) {
      q with
      queued  := item ::ₘ q.queued
      handles := q.handles.set i ⟨true, none⟩ }
  | poll {q item rest} : Takes key q.queued item rest →
    Step key q .poll {
      q with
      queued  := rest
      handles := q.handles ++ [⟨false, item⟩] }
  | release {q i item} : q.handles[i]? = some ⟨false, some item⟩ →
    Step key q (.release i) { q with handles := q.handles.set i ⟨false, none⟩ }

end Queue

section Steps

variable [LE κ] {key : α → κ} {q q' : Queue α} {event : Event α} {item : α}

theorem Queue.Step.capacity_eq (h : Queue.Step key q event q') : q'.capacity = q.capacity := by
  cases h <;> rfl

-- There is no place for another item if and only if all of them are held.
theorem Queue.Step.refused_iff (h : Queue.Step key q (.acquire item) q')
    (hle : q.queued.card + q.held ≤ q.capacity) :
    q'.handles.getLast? = some ⟨true, none⟩ ↔ q.held = q.capacity := by
  cases h
  case acquire hf =>
    refine iff_of_false (by simp) fun hh => ?_
    simp only [Queue.free] at hf
    omega
  case replace old rest hf ht =>
    refine iff_of_false (by simp) fun hh => ?_
    have hcard : q.queued.card = 0 := by omega
    generalize q.queued = queued at ht hcard
    cases ht
    simp at hcard
  case refuse hh => exact iff_of_true (by simp) hh

end Steps

theorem Takes.of_perm [LE κ] {key : α → κ} {item : α} {xs ys : List α} (hp : xs.Perm (item :: ys))
    (hle : ∀ other ∈ xs, key item ≤ key other) : Takes key ↑xs (some item) ↑ys := by
  rw [Multiset.coe_eq_coe.mpr hp, ← Multiset.cons_coe]
  refine .least fun other ho => hle other ?_
  exact hp.mem_iff.mpr <| List.mem_cons_of_mem _ <| Multiset.mem_coe.mp ho

end Bounded
