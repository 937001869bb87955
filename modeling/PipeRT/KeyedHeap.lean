import PipeRT.Machine
import PipeRT.SteadyHeap

open Heap

namespace PipeRT

-- A `SteadyHeap` whose ordering looks up the current keys, and what was put into it and not taken out.
structure KeyedHeap (α κ : Type) where
  steady   : SteadyHeap α
  key      : α → κ
  elements : List α

inductive HeapAction (α κ : Type) where
  -- An element that is not in the heap may get any key.
  | assign (value : α) (k : κ)
  | pushHeap (value : α)
  | popHeap
  -- An element in the heap gets a new key and is forced out of it.
  | forcePopHeap (value : α) (k : κ)

namespace KeyedHeap

variable {α κ : Type} [DecidableEq α] [LinearOrder κ]

def ordering (key : α → κ) : StrictOrdering α :=
  fun a b => .ok <| decide (key b < key a)

-- The algorithms of the standard library have no meaning for an empty array. A new key for one
-- element alone means that it is there only once.
def Guard (y : KeyedHeap α κ) : HeapAction α κ → Prop
  | .assign value _       => value ∉ y.steady.heap
  | .pushHeap _           => True
  | .popHeap              => y.steady.heap ≠ []
  | .forcePopHeap value _ => value ∈ y.steady.heap ∧ y.steady.heap.Nodup

instance (y : KeyedHeap α κ) (a : HeapAction α κ) : Decidable (y.Guard a) :=
  match a with
  | .assign value _       => inferInstanceAs (Decidable (value ∉ y.steady.heap))
  | .pushHeap _           => inferInstanceAs (Decidable True)
  | .popHeap              => inferInstanceAs (Decidable (y.steady.heap ≠ []))
  | .forcePopHeap value _ => inferInstanceAs (Decidable (value ∈ y.steady.heap ∧ y.steady.heap.Nodup))

def exec (y : KeyedHeap α κ) : HeapAction α κ → Except Fault (KeyedHeap α κ)
  | .assign value k => return { y with key := Function.update y.key value k }
  | .pushHeap value => do
    let steady ← y.steady.pushHeap (ordering y.key) value
    return { y with steady, elements := value :: y.elements }
  | .popHeap => do
    let steady ← y.steady.popHeap (ordering y.key)
    return { y with steady, elements := y.steady.front?.elim y.elements y.elements.erase }
  | .forcePopHeap value k => do
    let key := Function.update y.key value k
    let steady ← y.steady.forcePopHeap (ordering key) value
    return { steady, key, elements := y.elements.erase value }

end KeyedHeap

def keyedHeap (α κ : Type) [DecidableEq α] [LinearOrder κ] :
    Machine (KeyedHeap α κ) (HeapAction α κ) Fault where
  Init y := y.steady.heap = [] ∧ y.elements = []
  Guard  := KeyedHeap.Guard
  exec   := KeyedHeap.exec

instance {α κ : Type} [DecidableEq α] [LinearOrder κ] (y : KeyedHeap α κ) (a : HeapAction α κ) :
    Decidable ((keyedHeap α κ).Guard y a) :=
  inferInstanceAs (Decidable (y.Guard a))

namespace KeyedHeap

variable {α κ : Type} [DecidableEq α] [LinearOrder κ] {y : KeyedHeap α κ} {a : HeapAction α κ}
variable {key key' : α → κ} {h : SteadyHeap α} {value : α} {xs : List α}

omit [DecidableEq α] in
theorem agrees : Agrees (ordering key) key xs :=
  fun _ _ _ _ => rfl

-- A heap by the current keys that holds what it should.
def Inv (y : KeyedHeap α κ) : Prop :=
  SteadyHeap.Holds y.key y.steady y.elements

-- The element gets a new key, whatever it is, and the heap is one by the new keys without it.
theorem forcePopHeap_eq (hh : IsHeap key h.heap) (hn : h.heap.Nodup) (hv : value ∈ h.heap)
    (hk : ∀ a ∈ h.heap, a ≠ value → key' a = key a) :
    ∃ h', h.forcePopHeap (ordering key') value = .ok h' ∧ h'.heap.Perm (h.heap.erase value) ∧
      IsHeap key' h'.heap := by
  obtain ⟨h', he, hholds, _⟩ := SteadyHeap.forcePopHeap_spec hh hn hv hk agrees
  exact ⟨h', he, hholds.perm, hholds.order⟩

theorem Inv.exec (hi : y.Inv) (hg : y.Guard a) : ∃ y', y.exec a = .ok y' ∧ y'.Inv := by
  cases a
  case assign value k =>
    refine ⟨_, rfl, hi.perm, hi.order.congr fun a ha => ?_⟩
    have hne : a ≠ value := by
      rintro rfl
      exact hg ha
    exact Function.update_of_ne hne ..
  case pushHeap value =>
    obtain ⟨h', hp, hholds, _⟩ := SteadyHeap.pushHeap_spec value hi.order agrees
    refine ⟨{ y with steady := h', elements := value :: y.elements }, ?_, ?_⟩
    · rw [KeyedHeap.exec, hp]
      rfl
    · exact ⟨hholds.perm.trans <| hi.perm.cons value, hholds.order⟩
  case popHeap =>
    obtain ⟨top, rest, hr⟩ := List.exists_cons_of_ne_nil hg
    obtain ⟨h', hp, hholds, _⟩ := SteadyHeap.popHeap_spec hr (hi.order.holed 0) agrees
    have hfront : y.steady.front? = some top := by rw [SteadyHeap.front?, hr, List.head?_cons]
    refine ⟨{ y with steady := h', elements := y.elements.erase top }, ?_, hholds.perm.trans ?_, hholds.order⟩
    · rw [KeyedHeap.exec, hp, hfront]
      rfl
    · exact (List.cons_perm_iff_perm_erase.mp <| hr ▸ hi.perm).2
  case forcePopHeap value k =>
    obtain ⟨hv, hn⟩ := hg
    have hk : ∀ a ∈ y.steady.heap, a ≠ value → Function.update y.key value k a = y.key a :=
      fun a _ hne => Function.update_of_ne hne ..
    obtain ⟨h', hp, hperm, horder⟩ := forcePopHeap_eq hi.order hn hv hk
    refine ⟨⟨h', Function.update y.key value k, y.elements.erase value⟩, ?_,
      hperm.trans <| hi.perm.erase value, horder⟩
    rw [KeyedHeap.exec]
    simp only [hp, ok_bind, pure_eq_ok]

theorem safe {ok : KeyedHeap α κ → HeapAction α κ → Prop} :
    (keyedHeap α κ).Safe ok Inv where
  init y hy := by
    refine ⟨?_, ?_⟩
    · rw [hy.1, hy.2]
    · rw [hy.1]
      exact .nil
  step _ _ hi hg _ := hi.exec hg

end KeyedHeap

open KeyedHeap

end PipeRT
