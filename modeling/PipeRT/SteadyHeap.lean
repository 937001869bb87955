import PipeRT.Basic
import PipeRT.Heap.Order

open Heap

namespace PipeRT

variable {α κ : Type}

-- The vector behind the heap, and how many elements it has room for.
structure SteadyHeap (α : Type) where
  heap     : List α
  capacity : Nat
  deriving DecidableEq, Repr

-- The orderings are `std::function` objects that read the keys out of the scheduler's memory, so
-- that evaluating one may fail.
abbrev StrictOrdering (α : Type) := α → α → Except Fault Bool

namespace SteadyHeap

protected def empty : SteadyHeap α where
  heap     := []
  capacity := 0

def front? (h : SteadyHeap α) : Option α :=
  h.heap.head?

def size (h : SteadyHeap α) : Nat :=
  h.heap.length

def count [DecidableEq α] (h : SteadyHeap α) (value : α) : Nat :=
  h.heap.count value

def reserve (h : SteadyHeap α) (n : Nat) : SteadyHeap α :=
  { h with capacity := max h.capacity n }

-- `std::vector::push_back`: a full vector moves to twice as much memory.
def pushBack (h : SteadyHeap α) (value : α) : SteadyHeap α where
  heap     := h.heap ++ [value]
  capacity := if h.heap.length = h.capacity then h.capacity + max h.capacity 1 else h.capacity

def pushHeap (ordering : StrictOrdering α) (h : SteadyHeap α) (value : α) :
    Except Fault (SteadyHeap α) := do
  let h := h.pushBack value
  let heap ← Heap.pushHeap ordering h.heap
  return { h with heap }

def popHeap (ordering : StrictOrdering α) (h : SteadyHeap α) : Except Fault (SteadyHeap α) := do
  let heap ← Heap.popHeap ordering h.heap
  return { h with heap := heap.dropLast }

def forceToTop [DecidableEq α] (h : SteadyHeap α) (value : α) : Except Fault (SteadyHeap α) := do
  let i := h.heap.idxOf value
  check (i < h.heap.length)
  return { h with heap := raise i h.heap i }

def forcePopHeap [DecidableEq α] (ordering : StrictOrdering α) (h : SteadyHeap α) (value : α) :
    Except Fault (SteadyHeap α) := do
  let h ← h.forceToTop value
  h.popHeap ordering

-- Elements were only taken out.
structure Shrunk (h h' : SteadyHeap α) : Prop where
  capacity : h'.capacity = h.capacity
  length   : h'.heap.length ≤ h.heap.length

-- The memory is the same as long as there is room in it.
def Kept (h h' : SteadyHeap α) : Prop :=
  h'.heap.length ≤ h.capacity → h'.capacity = h.capacity

section Capacity

variable {ordering : StrictOrdering α} {h h' h'' : SteadyHeap α} {value : α}

theorem Shrunk.kept (hs : h.Shrunk h') : h.Kept h' :=
  fun _ => hs.capacity

theorem Shrunk.trans (hs : h.Shrunk h') (hk : h'.Kept h'') : h.Kept h'' :=
  fun hl => (hk (hs.capacity ▸ hl)).trans hs.capacity

theorem pushHeap_kept (hp : h.pushHeap ordering value = .ok h') : h.Kept h' := by
  have ⟨ys, hys, hp⟩ := bind_eq_ok.mp hp
  obtain rfl := Except.ok.inj hp
  have hlen : ys.length = h.heap.length + 1 := by simpa [pushBack] using Heap.pushHeap_length hys
  intro hl
  have hne : h.heap.length ≠ h.capacity := by
    simp only [hlen] at hl
    omega
  simp [pushBack, hne]

theorem popHeap_shrunk (hp : h.popHeap ordering = .ok h') : h.Shrunk h' := by
  have ⟨ys, hys, hp⟩ := bind_eq_ok.mp hp
  obtain rfl := Except.ok.inj hp
  refine ⟨rfl, ?_⟩
  rw [List.length_dropLast, Heap.popHeap_length hys]
  omega

theorem forcePopHeap_shrunk [DecidableEq α] (hp : h.forcePopHeap ordering value = .ok h') :
    h.Shrunk h' := by
  have ⟨h₁, hf, hp⟩ := bind_eq_ok.mp hp
  have ⟨_, _, hf⟩ := bind_eq_ok.mp hf
  obtain rfl := Except.ok.inj hf
  have hs := popHeap_shrunk hp
  exact ⟨hs.capacity, hs.length.trans_eq <| Heap.raise_length _⟩

end Capacity

section Subset

variable {ordering : StrictOrdering α} {h h' : SteadyHeap α} {value : α}

theorem pushHeap_subset (hp : h.pushHeap ordering value = .ok h') : h'.heap ⊆ value :: h.heap := by
  have ⟨ys, hys, hp⟩ := bind_eq_ok.mp hp
  obtain rfl := Except.ok.inj hp
  exact List.Subset.trans (Heap.pushHeap_subset hys) (List.perm_append_singleton value h.heap).subset

theorem popHeap_subset (hp : h.popHeap ordering = .ok h') : h'.heap ⊆ h.heap := by
  have ⟨ys, hys, hp⟩ := bind_eq_ok.mp hp
  obtain rfl := Except.ok.inj hp
  exact List.Subset.trans (List.dropLast_subset ys) <| Heap.popHeap_subset hys

end Subset

-- `h` is a heap by `key`, and holds exactly the elements of `xs`.
structure Holds [LinearOrder κ] (key : α → κ) (h : SteadyHeap α) (xs : List α) : Prop where
  perm  : h.heap.Perm xs
  order : IsHeap key h.heap

variable [LinearOrder κ] {ordering : StrictOrdering α} {key key' : α → κ} {h : SteadyHeap α}

theorem Holds.front_le {xs : List α} {top a : α} (hh : Holds key h xs) (ht : h.front? = some top)
    (ha : a ∈ xs) : key top ≤ key a :=
  hh.order.root_le ht <| hh.perm.mem_iff.mpr ha

theorem pushHeap_spec (value : α) (hh : IsHeap key h.heap)
    (hc : Agrees ordering key (value :: h.heap)) :
    ∃ h', h.pushHeap ordering value = .ok h' ∧ Holds key h' (value :: h.heap) ∧
      h'.capacity = (h.pushBack value).capacity := by
  have hc := hc.subset (List.perm_append_singleton value h.heap).subset
  have ⟨ys, hys, hp, ho⟩ := Heap.pushHeap_spec hh hc
  refine ⟨{ h.pushBack value with heap := ys }, ?_, ⟨hp, ho⟩, rfl⟩
  simp [pushHeap, pushBack, hys]

theorem popHeap_spec {top : α} {rest : List α} (hr : h.heap = top :: rest)
    (hh : Holed key h.heap 0) (hc : Agrees ordering key rest) :
    ∃ h', h.popHeap ordering = .ok h' ∧ Holds key h' rest ∧ h'.capacity = h.capacity := by
  have ⟨ys, hys, hp, ho⟩ := Heap.popHeap_spec (hr ▸ hh) hc
  refine ⟨{ h with heap := ys }, ?_, ⟨hp, ho⟩, rfl⟩
  simp [popHeap, hr, hys]

-- `value` may have got any new key since the heap was last in order. Its key is not looked at.
theorem forcePopHeap_spec [DecidableEq α] {value : α} (hh : IsHeap key h.heap)
    (hn : h.heap.Nodup) (hv : value ∈ h.heap) (hk : ∀ a ∈ h.heap, a ≠ value → key' a = key a)
    (hc : Agrees ordering key' (h.heap.erase value)) :
    ∃ h', h.forcePopHeap ordering value = .ok h' ∧ Holds key' h' (h.heap.erase value) ∧
      h'.capacity = h.capacity := by
  have hi := List.idxOf_lt_length_of_mem hv
  have ⟨ys, hys, hp, ho⟩ := raise_spec (h.heap.idxOf value) (hh.holed (h.heap.idxOf value))
    (List.getElem?_idxOf hv) (Nat.le_refl _)
  have hnd := hp.nodup_iff.mpr hn
  have hperm : ys.Perm (h.heap.erase value) :=
    List.cons_perm_iff_perm_erase.mp hp |>.2
  have ho : Holed key' (value :: ys) 0 := ho.congr fun i a hi ha => by
    have hmem := List.mem_of_getElem? ha
    refine hk a (hp.mem_iff.mp hmem) fun hav => ?_
    have : i = 0 := by
      have := (List.getElem?_inj (by simp) hnd).mp <| show (value :: ys)[0]? = (value :: ys)[i]? by
        simp [ha, hav]
      omega
    contradiction
  have ⟨h', hh', hholds, hcap⟩ := popHeap_spec (h := { h with heap := value :: ys }) rfl ho
    (hc.subset hperm.subset)
  refine ⟨h', ?_, ⟨hholds.perm.trans hperm, hholds.order⟩, hcap⟩
  simpa [forcePopHeap, forceToTop, hi, hys] using hh'

end SteadyHeap
end PipeRT
