import Mathlib

-- Binary heaps in arrays, with the algorithms of libstdc++'s `bits/stl_heap.h`.
--
-- The comparison is a computation that may fail, so that a caller can say which elements it is
-- allowed to look at. As in C++ `comp a b` means that `a` has to stand below `b`.
namespace Heap

variable {α ε κ : Type}

-- The index of the parent of a node. The root is its own parent.
def parent (i : Nat) : Nat :=
  (i - 1) / 2

-- `std::__push_heap`: moves the hole up until `value` may stand in it, and puts it there.
-- `fuel` bounds the number of moves; the hole's index is enough, as it shrinks with each one.
def pushUp (comp : α → α → Except ε Bool) (value : α) : Nat → List α → Nat → Except ε (List α)
  | 0, xs, hole => .ok (xs.set hole value)
  | fuel + 1, xs, hole =>
    if hole = 0 then
      .ok (xs.set hole value)
    else
      match xs[parent hole]? with
      | none => .ok (xs.set hole value)
      | some p => do
        if ← comp p value then
          pushUp comp value fuel (xs.set hole p) (parent hole)
        else
          .ok (xs.set hole value)

-- `std::push_heap`: the last element is the one that is not in its place yet.
def pushHeap (comp : α → α → Except ε Bool) (xs : List α) : Except ε (List α) :=
  match xs.getLast? with
  | none       => .ok xs
  | some value => pushUp comp value (xs.length - 1) xs (xs.length - 1)

-- The loop of `std::__adjust_heap`: moves the hole down to a leaf, always to the side of the
-- child that may stand above the other one. The value that is going to fill it is not looked at.
def sinkHole (comp : α → α → Except ε Bool) : Nat → List α → Nat → Except ε (List α × Nat)
  | 0, xs, hole => .ok (xs, hole)
  | fuel + 1, xs, hole =>
    match xs[2 * hole + 1]?, xs[2 * hole + 2]? with
    | some l, some r => do
      if ← comp r l then
        sinkHole comp fuel (xs.set hole l) (2 * hole + 1)
      else
        sinkHole comp fuel (xs.set hole r) (2 * hole + 2)
    -- Only the last inner node of an array of even length has a single child.
    | some l, none => .ok (xs.set hole l, 2 * hole + 1)
    | none, _ => .ok (xs, hole)

-- `std::__adjust_heap` with the hole at the root.
def adjustHeap (comp : α → α → Except ε Bool) (xs : List α) (value : α) :
    Except ε (List α) := do
  let (xs, hole) ← sinkHole comp xs.length xs 0
  pushUp comp value hole xs hole

-- `std::pop_heap`: the root goes to the end, and the other elements are made a heap again.
def popHeap (comp : α → α → Except ε Bool) (xs : List α) : Except ε (List α) :=
  match xs, xs.getLast? with
  | root :: _ :: _, some value => do
    let ys ← adjustHeap comp xs.dropLast value
    .ok (ys ++ [root])
  | _, _ => .ok xs

-- Exchanges the element at `i` with its parents until it is the root.
def raise : Nat → List α → Nat → List α
  | 0, xs, _ => xs
  | fuel + 1, xs, i =>
    if i = 0 then
      xs
    else
      match xs[i]?, xs[parent i]? with
      | some a, some p => raise fuel ((xs.set i p).set (parent i) a) (parent i)
      | _, _ => xs

-- Whatever the comparison is, the algorithms only move elements around.
section Length

variable {comp : α → α → Except ε Bool} {xs ys : List α} {value : α} {hole : Nat}

theorem pushUp_length (fuel : Nat) (h : pushUp comp value fuel xs hole = .ok ys) :
    ys.length = xs.length := by
  induction fuel generalizing xs hole
  case zero =>
    obtain rfl := Except.ok.inj h
    exact List.length_set
  case succ fuel ih =>
    rw [pushUp] at h
    split at h
    case isTrue =>
      obtain rfl := Except.ok.inj h
      exact List.length_set
    case isFalse =>
      split at h
      case h_1 =>
        obtain rfl := Except.ok.inj h
        exact List.length_set
      case h_2 p _ =>
        cases hc : comp p value
        case error => simp [hc, bind, Except.bind] at h
        case ok up =>
          simp only [hc, bind, Except.bind] at h
          cases up
          case true  => exact (ih h).trans List.length_set
          case false =>
            obtain rfl := Except.ok.inj h
            exact List.length_set

theorem pushHeap_length (h : pushHeap comp xs = .ok ys) : ys.length = xs.length := by
  rw [pushHeap] at h
  split at h
  case h_1 => exact congrArg List.length (Except.ok.inj h).symm
  case h_2 => exact pushUp_length _ h

theorem sinkHole_length {hole' : Nat} (fuel : Nat) (h : sinkHole comp fuel xs hole = .ok (ys, hole')) :
    ys.length = xs.length := by
  induction fuel generalizing xs hole
  case zero =>
    obtain ⟨rfl, rfl⟩ := Prod.mk.inj (Except.ok.inj h)
    rfl
  case succ fuel ih =>
    rw [sinkHole] at h
    split at h
    case h_1 l r _ _ =>
      cases hc : comp r l
      case error => simp [hc, bind, Except.bind] at h
      case ok left =>
        simp only [hc, bind, Except.bind] at h
        cases left <;> exact (ih h).trans List.length_set
    case h_2 =>
      obtain ⟨rfl, rfl⟩ := Prod.mk.inj (Except.ok.inj h)
      exact List.length_set
    case h_3 =>
      obtain ⟨rfl, rfl⟩ := Prod.mk.inj (Except.ok.inj h)
      rfl

theorem adjustHeap_length (h : adjustHeap comp xs value = .ok ys) : ys.length = xs.length := by
  rw [adjustHeap] at h
  cases hs : sinkHole comp xs.length xs 0
  case error => simp [hs, bind, Except.bind] at h
  case ok r =>
    simp only [hs, bind, Except.bind] at h
    exact (pushUp_length _ h).trans (sinkHole_length _ hs)

theorem popHeap_length (h : popHeap comp xs = .ok ys) : ys.length = xs.length := by
  unfold popHeap at h
  split at h
  case h_2 => exact congrArg List.length (Except.ok.inj h).symm
  case h_1 root b rest value _ =>
    cases ha : adjustHeap comp (root :: b :: rest).dropLast value
    case error => rw [ha] at h; contradiction
    case ok zs =>
      rw [ha] at h
      obtain rfl := Except.ok.inj h
      simp [adjustHeap_length ha]

theorem raise_length (fuel : Nat) : (raise fuel xs hole).length = xs.length := by
  induction fuel generalizing xs hole
  case zero => rfl
  case succ fuel ih =>
    rw [raise]
    split
    case isTrue => rfl
    case isFalse =>
      split
      case h_1 => exact ih.trans <| List.length_set.trans List.length_set
      case h_2 => rfl

end Length

section Subset

variable {comp : α → α → Except ε Bool} {xs ys : List α} {value a : α} {hole : Nat}

theorem set_subset_cons : xs.set hole value ⊆ value :: xs := fun b hb => by
  cases List.mem_or_eq_of_mem_set hb
  case inl hb => exact List.mem_cons_of_mem _ hb
  case inr hb => exact hb ▸ List.mem_cons_self

-- An element is written over by another one of them.
theorem set_subset (ha : a ∈ xs) : xs.set hole a ⊆ xs :=
  List.Subset.trans set_subset_cons <| List.cons_subset.mpr ⟨ha, List.Subset.refl xs⟩

theorem pushUp_subset (fuel : Nat) (h : pushUp comp value fuel xs hole = .ok ys) : ys ⊆ value :: xs := by
  induction fuel generalizing xs hole
  case zero => exact Except.ok.inj h ▸ set_subset_cons
  case succ fuel ih =>
    rw [pushUp] at h
    split at h
    case isTrue => exact Except.ok.inj h ▸ set_subset_cons
    case isFalse =>
      split at h
      case h_1 => exact Except.ok.inj h ▸ set_subset_cons
      case h_2 p hp =>
        cases hc : comp p value
        case error => simp [hc, bind, Except.bind] at h
        case ok up =>
          simp only [hc, bind, Except.bind] at h
          cases up
          case true  => exact List.Subset.trans (ih h) <| List.cons_subset_cons _ <| set_subset <| List.mem_of_getElem? hp
          case false => exact Except.ok.inj h ▸ set_subset_cons

theorem pushHeap_subset (h : pushHeap comp xs = .ok ys) : ys ⊆ xs := by
  rw [pushHeap] at h
  split at h
  case h_1 => exact Except.ok.inj h ▸ List.Subset.refl xs
  case h_2 hlast =>
    exact List.Subset.trans (pushUp_subset _ h) <|
      List.cons_subset.mpr ⟨List.mem_of_getLast? hlast, List.Subset.refl xs⟩

theorem sinkHole_subset {hole' : Nat} (fuel : Nat) (h : sinkHole comp fuel xs hole = .ok (ys, hole')) :
    ys ⊆ xs := by
  induction fuel generalizing xs hole
  case zero => exact (Prod.mk.inj (Except.ok.inj h)).1 ▸ List.Subset.refl xs
  case succ fuel ih =>
    rw [sinkHole] at h
    split at h
    case h_1 l r hl hr =>
      cases hc : comp r l
      case error => simp [hc, bind, Except.bind] at h
      case ok left =>
        simp only [hc, bind, Except.bind] at h
        cases left
        case true  => exact List.Subset.trans (ih h) <| set_subset <| List.mem_of_getElem? hl
        case false => exact List.Subset.trans (ih h) <| set_subset <| List.mem_of_getElem? hr
    case h_2 hl _ => exact (Prod.mk.inj (Except.ok.inj h)).1 ▸ set_subset (List.mem_of_getElem? hl)
    case h_3      => exact (Prod.mk.inj (Except.ok.inj h)).1 ▸ List.Subset.refl xs

theorem adjustHeap_subset (h : adjustHeap comp xs value = .ok ys) : ys ⊆ value :: xs := by
  rw [adjustHeap] at h
  cases hs : sinkHole comp xs.length xs 0
  case error => simp [hs, bind, Except.bind] at h
  case ok r =>
    simp only [hs, bind, Except.bind] at h
    exact List.Subset.trans (pushUp_subset _ h) <| List.cons_subset_cons _ <| sinkHole_subset _ hs

theorem popHeap_subset (h : popHeap comp xs = .ok ys) : ys ⊆ xs := by
  unfold popHeap at h
  split at h
  case h_2 => exact Except.ok.inj h ▸ List.Subset.refl _
  case h_1 root b rest value hlast =>
    cases ha : adjustHeap comp (root :: b :: rest).dropLast value
    case error => rw [ha] at h; contradiction
    case ok zs =>
      rw [ha] at h
      obtain rfl := Except.ok.inj h
      have hvalue := List.mem_of_getLast? hlast
      have hrest := List.Subset.trans (adjustHeap_subset ha) <| List.cons_subset.mpr ⟨hvalue, List.dropLast_subset _⟩
      exact List.append_subset.mpr ⟨hrest, by simp⟩

end Subset

theorem parent_lt {i : Nat} (h : 0 < i) : parent i < i := by
  unfold parent; omega

theorem eq_child_of_parent {i : Nat} (h : 0 < i) : i = 2 * parent i + 1 ∨ i = 2 * parent i + 2 := by
  unfold parent; omega

@[simp]
theorem parent_left (i : Nat) : parent (2 * i + 1) = i := by
  unfold parent; omega

@[simp]
theorem parent_right (i : Nat) : parent (2 * i + 2) = i := by
  unfold parent; omega

-- `comp` can be evaluated on any two elements of `xs`, and compares them by `key`: the smaller key
-- belongs above the greater one.
def Agrees [LinearOrder κ] (comp : α → α → Except ε Bool) (key : α → κ) (xs : List α) : Prop :=
  ∀ a ∈ xs, ∀ b ∈ xs, comp a b = .ok (decide (key b < key a))

theorem Agrees.subset [LinearOrder κ] {comp : α → α → Except ε Bool} {key : α → κ} {xs ys : List α}
    (h : Agrees comp key xs) (hs : ys ⊆ xs) : Agrees comp key ys :=
  fun a ha b hb => h a (hs ha) b (hs hb)

-- No element of `xs` belongs above its parent.
def IsHeap [LinearOrder κ] (key : α → κ) (xs : List α) : Prop :=
  ∀ i a p, 0 < i → xs[i]? = some a → xs[parent i]? = some p → key p ≤ key a

namespace IsHeap

variable [LinearOrder κ] {key key' : α → κ} {xs : List α}

theorem nil : IsHeap key [] := by
  intro i a p _ h
  simp at h

theorem congr (h : IsHeap key xs) (hk : ∀ a ∈ xs, key' a = key a) : IsHeap key' xs := by
  intro i a p hi ha hp
  rw [hk a (List.mem_of_getElem? ha), hk p (List.mem_of_getElem? hp)]
  exact h i a p hi ha hp

theorem root_le_getElem {root : α} (h : IsHeap key xs) (hr : xs[0]? = some root) (i : Nat) :
    ∀ a, xs[i]? = some a → key root ≤ key a := by
  induction i using Nat.strongRecOn
  case ind i ih =>
    intro a ha
    by_cases hi : i = 0
    case pos =>
      subst hi
      simp_all
    case neg =>
      have hi := Nat.pos_of_ne_zero hi
      have hlt := Nat.lt_trans (parent_lt hi) (List.getElem?_eq_some_iff.mp ha).1
      have hp := List.getElem?_eq_getElem hlt
      exact (ih _ (parent_lt hi) _ hp).trans (h i _ _ hi ha hp)

-- The element on top of a heap has the smallest key.
theorem root_le {root a : α} (h : IsHeap key xs) (hr : xs.head? = some root) (ha : a ∈ xs) :
    key root ≤ key a := by
  have ⟨i, hi⟩ := List.getElem?_of_mem ha
  exact h.root_le_getElem (by rwa [← List.head?_eq_getElem?]) i a hi

end IsHeap
end Heap
