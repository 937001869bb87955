import PipeRT.Heap.Basic

namespace Heap

variable {α ε κ : Type} [LinearOrder κ] {comp : α → α → Except ε Bool} {key key' : α → κ}
variable {xs ys : List α} {hole : Nat} {value : α}

-- The order that a heap keeps around a hole, that is around an index whose content does not count:
-- edges that do not touch the hole are in order, and so are the edges that remain when the hole is
-- taken out of the tree.
structure Holed (key : α → κ) (xs : List α) (hole : Nat) : Prop where
  edges  : ∀ i a p, 0 < i → i ≠ hole → parent i ≠ hole → xs[i]? = some a →
           xs[parent i]? = some p → key p ≤ key a
  bridge : 0 < hole → ∀ i a p, 0 < i → parent i = hole → xs[i]? = some a →
           xs[parent hole]? = some p → key p ≤ key a

-- `value` is above everything below the hole.
def Above (key : α → κ) (value : α) (xs : List α) (hole : Nat) : Prop :=
  ∀ i a, 0 < i → parent i = hole → xs[i]? = some a → key value ≤ key a

theorem IsHeap.holed (h : IsHeap key xs) (i : Nat) : Holed key xs i where
  edges j a p hj _ _ := h j a p hj
  bridge hi j a p hj hp ha hpp := by
    have hlt : i < xs.length := by
      have := parent_lt hj
      have := (List.getElem?_eq_some_iff.mp ha).1
      omega
    have hi' := List.getElem?_eq_getElem hlt
    exact (h i _ p hi hi' hpp).trans (h j a _ hj ha (hp ▸ hi'))

namespace Holed

-- The order around a hole does not depend on the key of the element that stands in it.
theorem congr (h : Holed key xs hole)
    (hk : ∀ i a, i ≠ hole → xs[i]? = some a → key' a = key a) : Holed key' xs hole where
  edges i a p hi hn hp ha hpa := by
    rw [hk i a hn ha, hk _ p hp hpa]
    exact h.edges i a p hi hn hp ha hpa
  bridge hh i a p hi hp ha hpa := by
    have := parent_lt hi
    have := parent_lt hh
    rw [hk i a (by omega) ha, hk _ p (by omega) hpa]
    exact h.bridge hh i a p hi hp ha hpa

theorem dropLast (h : Holed key xs hole) : Holed key xs.dropLast hole where
  edges i a p hi hn hp ha hpa :=
    h.edges i a p hi hn hp (by grind) (by grind)
  bridge hh i a p hi hp ha hpa :=
    h.bridge hh i a p hi hp (by grind) (by grind)

-- Filling the hole with an element that fits makes the array a heap.
theorem fill (h : Holed key xs hole) (hb : Above key value xs hole)
    (hs : ∀ p, 0 < hole → xs[parent hole]? = some p → key p ≤ key value) :
    IsHeap key (xs.set hole value) := by
  intro i a p hi ha hp
  have := parent_lt hi
  by_cases hn : i = hole
  case pos =>
    subst hn
    rw [List.getElem?_set_ne (by omega)] at hp
    have : a = value := by grind
    exact this ▸ hs p hi hp
  case neg =>
    rw [List.getElem?_set_ne (Ne.symm hn)] at ha
    by_cases hpn : parent i = hole
    case pos =>
      have : p = value := by grind
      exact this ▸ hb i a hi hpn ha
    case neg =>
      rw [List.getElem?_set_ne (Ne.symm hpn)] at hp
      exact h.edges i a p hi hn hpn ha hp

-- One turn of `pushUp`: the parent moves down into the hole.
theorem up {p : α} (h : Holed key xs hole) (hh : 0 < hole)
    (hp : xs[parent hole]? = some p) : Holed key (xs.set hole p) (parent hole) where
  edges i a q hi hn hpn ha hq := by
    have := parent_lt hi
    have := parent_lt hh
    by_cases hih : i = hole
    case pos => exact absurd (congrArg parent hih) hpn
    case neg =>
      rw [List.getElem?_set_ne (Ne.symm hih)] at ha
      by_cases hph : parent i = hole
      case pos =>
        have : q = p := by grind
        exact this ▸ h.bridge hh i a p hi hph ha hp
      case neg =>
        rw [List.getElem?_set_ne (Ne.symm hph)] at hq
        exact h.edges i a q hi hih hph ha hq
  bridge hph i a q hi hpi ha hq := by
    have hlt := parent_lt hh
    have hlt' := parent_lt hph
    rw [List.getElem?_set_ne (by omega)] at hq
    -- The parent of the old hole stays above everything that is now below it.
    have hqp : key q ≤ key p := h.edges (parent hole) p q hph (by omega) (by omega) hp hq
    by_cases hih : i = hole
    case pos =>
      have : a = p := by grind
      exact this ▸ hqp
    case neg =>
      rw [List.getElem?_set_ne (Ne.symm hih)] at ha
      exact hqp.trans <| h.edges i a p hi hih (by omega) ha (hpi ▸ hp)

theorem up_above {p : α} (h : Holed key xs hole) (hh : 0 < hole)
    (hp : xs[parent hole]? = some p) (hv : key value ≤ key p) :
    Above key value (xs.set hole p) (parent hole) := by
  intro i a hi hpi ha
  have := parent_lt hh
  by_cases hih : i = hole
  case pos =>
    have : a = p := by grind
    exact this ▸ hv
  case neg =>
    rw [List.getElem?_set_ne (Ne.symm hih)] at ha
    exact hv.trans <| h.edges i a p hi hih (by omega) ha (hpi ▸ hp)

-- One turn of `sinkHole`: the child `c` that no other child has to stand above moves up.
theorem down {c : Nat} {b : α} (h : Holed key xs hole) (hc : 0 < c) (hpc : parent c = hole)
    (hb : xs[c]? = some b) (hm : Above key b xs hole) : Holed key (xs.set hole b) c where
  edges i a q hi hn hpn ha hq := by
    have := parent_lt hi
    by_cases hih : i = hole
    case pos =>
      subst hih
      have : a = b := by grind
      rw [List.getElem?_set_ne (by omega)] at hq
      exact this ▸ h.bridge hi c b q hc hpc hb hq
    case neg =>
      rw [List.getElem?_set_ne (Ne.symm hih)] at ha
      by_cases hph : parent i = hole
      case pos =>
        have : q = b := by grind
        exact this ▸ hm i a hi hph ha
      case neg =>
        rw [List.getElem?_set_ne (Ne.symm hph)] at hq
        exact h.edges i a q hi hih hph ha hq
  bridge _ i a q hi hpi ha hq := by
    have := parent_lt hi
    have := parent_lt hc
    have : q = b := by grind
    subst this
    rw [List.getElem?_set_ne (by omega)] at ha
    exact h.edges i a q hi (by omega) (by omega) ha (hpi ▸ hb)

end Holed

-- Moving an element into the hole does not change what the array holds once the hole is filled.
theorem set_set_perm {j : Nat} {a : α} (value : α) (hh : hole < xs.length) (ha : xs[j]? = some a)
    (hn : j ≠ hole) : ((xs.set hole a).set j value).Perm (xs.set hole value) := by
  have ⟨hj, ha⟩ := List.getElem?_eq_some_iff.mp ha
  have hlen : hole < (xs.set hole value).length := by simpa
  have h := List.set_set_perm hlen (j := j) (by simpa)
  simpa [List.getElem_set_ne (Ne.symm hn), ha] using h

theorem mem_set_of_ne {i : Nat} {a : α} (ha : xs[i]? = some a) (hn : i ≠ hole) :
    a ∈ xs.set hole value :=
  List.mem_of_getElem? (i := i) <| by rwa [List.getElem?_set_ne (Ne.symm hn)]

theorem pushUp_spec (fuel : Nat) (h : Holed key xs hole) (hb : Above key value xs hole)
    (hh : hole < xs.length) (hf : hole ≤ fuel) (hc : Agrees comp key (xs.set hole value)) :
    ∃ ys, pushUp comp value fuel xs hole = .ok ys ∧ ys.Perm (xs.set hole value) ∧
      IsHeap key ys := by
  induction fuel generalizing xs hole
  case zero =>
    refine ⟨_, rfl, .refl _, h.fill hb ?_⟩
    omega
  case succ fuel ih =>
    by_cases h0 : hole = 0
    case pos =>
      refine ⟨_, by rw [pushUp, if_pos h0], .refl _, h.fill hb ?_⟩
      omega
    case neg =>
      have hlt := parent_lt (Nat.pos_of_ne_zero h0)
      have hp := List.getElem?_eq_getElem (Nat.lt_trans hlt hh)
      set p := xs[parent hole]
      have hcp : comp p value = .ok (decide (key value < key p)) :=
        hc p (mem_set_of_ne hp (by omega)) value (List.mem_set hh _)
      by_cases hv : key value < key p
      case pos =>
        have hperm := set_set_perm value hh hp (by omega)
        obtain ⟨ys, hys, hyp, hyh⟩ := ih (h.up (by omega) hp) (h.up_above (by omega) hp hv.le)
          (by simp only [List.length_set]; omega) (by omega) (hc.subset hperm.subset)
        refine ⟨ys, ?_, hyp.trans hperm, hyh⟩
        rw [pushUp, if_neg h0, hp]
        simp [hcp, hv, hys, bind, Except.bind]
      case neg =>
        refine ⟨_, ?_, .refl _, h.fill hb ?_⟩
        · rw [pushUp, if_neg h0, hp]
          simp [hcp, hv, bind, Except.bind]
        · intro q _ hq
          have : q = p := by simp_all
          exact this ▸ not_lt.mp hv

theorem pushHeap_spec (h : IsHeap key xs) (hc : Agrees comp key (xs ++ [value])) :
    ∃ ys, pushHeap comp (xs ++ [value]) = .ok ys ∧ ys.Perm (value :: xs) ∧ IsHeap key ys := by
  have hset : (xs ++ [value]).set xs.length value = xs ++ [value] := by simp
  have hholed : Holed key (xs ++ [value]) xs.length := {
    edges := fun i a p hi hn hp ha hpa => by
      have := parent_lt hi
      exact h i a p hi (by grind) (by grind)
    bridge := fun _ i a p hi hp ha _ => by
      have := parent_lt hi
      have := (List.getElem?_eq_some_iff.mp ha).1
      simp at this
      omega
  }
  have habove : Above key value (xs ++ [value]) xs.length := fun i a hi hp ha => by
    have := parent_lt hi
    have := (List.getElem?_eq_some_iff.mp ha).1
    simp at this
    omega
  have ⟨ys, hys, hyp, hyh⟩ := pushUp_spec xs.length hholed habove (by simp) (Nat.le_refl _)
    (hset.symm ▸ hc)
  refine ⟨ys, ?_, ?_, hyh⟩
  · simpa [pushHeap] using hys
  · exact (hset ▸ hyp).trans (List.perm_append_singleton value xs)

-- The hole ends at an index without children.
theorem sinkHole_spec (fuel : Nat) (h : Holed key xs hole) (hh : hole < xs.length)
    (hf : xs.length ≤ hole + fuel) (hc : Agrees comp key (xs.set hole value)) :
    ∃ ys hole', sinkHole comp fuel xs hole = .ok (ys, hole') ∧ Holed key ys hole' ∧
      hole' < ys.length ∧ ys.length ≤ 2 * hole' + 1 ∧
      (ys.set hole' value).Perm (xs.set hole value) := by
  induction fuel generalizing xs hole
  case zero => omega
  case succ fuel ih =>
    -- The child `c` with content `b` moves up into the hole.
    have turn {c : Nat} {b : α} (hpc : parent c = hole) (hch : hole < c) (hb : xs[c]? = some b)
        (hm : Above key b xs hole) :
        ∃ ys hole', sinkHole comp fuel (xs.set hole b) c = .ok (ys, hole') ∧ Holed key ys hole' ∧
          hole' < ys.length ∧ ys.length ≤ 2 * hole' + 1 ∧
          (ys.set hole' value).Perm (xs.set hole value) := by
      have hlt := (List.getElem?_eq_some_iff.mp hb).1
      have hperm := set_set_perm value hh hb (by omega)
      obtain ⟨ys, hole', hys, hyh, hlt', hleaf, hyp⟩ := ih (h.down (by omega) hpc hb hm)
        (by simpa) (by simp only [List.length_set]; omega) (hc.subset hperm.subset)
      exact ⟨ys, hole', hys, hyh, hlt', hleaf, hyp.trans hperm⟩
    cases hl : xs[2 * hole + 1]? with
    | none =>
      refine ⟨xs, hole, ?_, h, hh, ?_, .refl _⟩
      · rw [sinkHole]
        simp [hl]
      · simpa using hl
    | some l =>
      cases hr : xs[2 * hole + 2]? with
      | none =>
        have hm : Above key l xs hole := by
          intro i a hi hpi ha
          have := eq_child_of_parent hi
          grind
        have hlen : xs.length ≤ 2 * hole + 2 := by simpa using hr
        have hlt := (List.getElem?_eq_some_iff.mp hl).1
        refine ⟨_, _, ?_, h.down (by omega) (parent_left hole) hl hm, by simpa, ?_,
          set_set_perm value hh hl (by omega)⟩
        · rw [sinkHole]
          simp [hl, hr]
        · simp only [List.length_set]
          omega
      | some r =>
        have hcr : comp r l = .ok (decide (key l < key r)) :=
          hc r (mem_set_of_ne hr (by omega)) l (mem_set_of_ne hl (by omega))
        have hm {b : α} (hbl : key b ≤ key l) (hbr : key b ≤ key r) : Above key b xs hole := by
          intro i a hi hpi ha
          have := eq_child_of_parent hi
          grind
        by_cases hlr : key l < key r
        case pos =>
          obtain ⟨ys, hole', hys, hrest⟩ := turn (parent_left hole) (by omega) hl (hm le_rfl hlr.le)
          refine ⟨ys, hole', ?_, hrest⟩
          rw [sinkHole]
          simpa [hl, hr, hcr, hlr, bind, Except.bind] using hys
        case neg =>
          have hrl := not_lt.mp hlr
          obtain ⟨ys, hole', hys, hrest⟩ := turn (parent_right hole) (by omega) hr (hm hrl le_rfl)
          refine ⟨ys, hole', ?_, hrest⟩
          rw [sinkHole]
          simpa [hl, hr, hcr, hlr, bind, Except.bind] using hys

theorem adjustHeap_spec (h : Holed key xs 0) (hh : 0 < xs.length)
    (hc : Agrees comp key (xs.set 0 value)) :
    ∃ ys, adjustHeap comp xs value = .ok ys ∧ ys.Perm (xs.set 0 value) ∧ IsHeap key ys := by
  have ⟨ys, hole, hys, hyh, hlt, hleaf, hyp⟩ := sinkHole_spec xs.length h hh (by omega) hc
  have habove : Above key value ys hole := by
    intro i a hi hpi ha
    have := eq_child_of_parent hi
    have := (List.getElem?_eq_some_iff.mp ha).1
    omega
  have ⟨zs, hzs, hzp, hzh⟩ := pushUp_spec hole hyh habove hlt (Nat.le_refl _) (hc.subset hyp.subset)
  refine ⟨zs, ?_, hzp.trans hyp, hzh⟩
  simp [adjustHeap, hys, hzs, bind, Except.bind]

-- The order above the root and the root's key do not matter, and `comp` is not asked about it.
theorem popHeap_spec {root : α} (h : Holed key (root :: xs) 0) (hc : Agrees comp key xs) :
    ∃ ys, popHeap comp (root :: xs) = .ok (ys ++ [root]) ∧ ys.Perm xs ∧ IsHeap key ys := by
  cases xs with
  | nil => exact ⟨[], rfl, .refl _, .nil⟩
  | cons x xs =>
    set value := (x :: xs).getLast (by simp)
    have hset : (root :: (x :: xs).dropLast).set 0 value = value :: (x :: xs).dropLast := rfl
    have hperm : (value :: (x :: xs).dropLast).Perm (x :: xs) := by
      have := List.perm_append_singleton value (x :: xs).dropLast
      rw [List.dropLast_append_getLast] at this
      exact this.symm
    have hd : (root :: x :: xs).dropLast = root :: (x :: xs).dropLast := rfl
    have hc' : Agrees comp key ((root :: x :: xs).dropLast.set 0 value) := by
      rw [hd, hset]
      exact hc.subset hperm.subset
    have ⟨ys, hys, hyp, hyh⟩ := adjustHeap_spec h.dropLast (by simp) hc'
    rw [hd] at hys hyp
    rw [hset] at hyp
    refine ⟨ys, ?_, hyp.trans hperm, hyh⟩
    have hl : (root :: x :: xs).getLast? = some value := by
      simp [value, List.getLast?_eq_some_getLast]
    simp [popHeap, hl, hys, bind, Except.bind]

-- Raising an element to the root keeps the order of everything that is not the root.
theorem raise_spec (fuel : Nat) (h : Holed key xs hole) (hv : xs[hole]? = some value)
    (hf : hole ≤ fuel) :
    ∃ ys, raise fuel xs hole = value :: ys ∧ (value :: ys).Perm xs ∧
      Holed key (value :: ys) 0 := by
  have root {xs : List α} {fuel : Nat} (h : Holed key xs 0) (hv : xs[0]? = some value) :
      ∃ ys, raise fuel xs 0 = value :: ys ∧ (value :: ys).Perm xs ∧ Holed key (value :: ys) 0 := by
    obtain ⟨ys, hys⟩ : ∃ ys, xs = value :: ys := by
      cases xs <;> simp_all
    subst hys
    exact ⟨ys, by cases fuel <;> simp [raise], .refl _, h⟩
  induction fuel generalizing xs hole
  case zero =>
    cases Nat.le_zero.mp hf
    exact root h hv
  case succ fuel ih =>
    by_cases h0 : hole = 0
    case pos =>
      subst h0
      exact root h hv
    have hlt := parent_lt (Nat.pos_of_ne_zero h0)
    have hh := (List.getElem?_eq_some_iff.mp hv).1
    have hp := List.getElem?_eq_getElem (Nat.lt_trans hlt hh)
    set p := xs[parent hole]
    have hup := h.up (by omega) hp
    have hholed : Holed key ((xs.set hole p).set (parent hole) value) (parent hole) := {
      edges := fun i a q hi hn hpn ha hq => hup.edges i a q hi hn hpn
        (by rwa [List.getElem?_set_ne (Ne.symm hn)] at ha)
        (by rwa [List.getElem?_set_ne (Ne.symm hpn)] at hq)
      bridge := fun hh' i a q hi hpi ha hq => by
        have := parent_lt hi
        have := parent_lt hh'
        rw [List.getElem?_set_ne (by omega)] at ha hq
        exact hup.bridge hh' i a q hi hpi ha hq
    }
    obtain ⟨ys, hys, hyp, hyh⟩ := ih hholed (by grind) (by omega)
    refine ⟨ys, ?_, hyp.trans ?_, hyh⟩
    · rw [raise, if_neg h0, hv, hp]
      exact hys
    · have hself : xs.set hole value = xs := by
        have := (List.getElem?_eq_some_iff.mp hv).2
        exact this ▸ List.set_getElem_self hh
      have hperm := set_set_perm value hh hp (by omega)
      rwa [hself] at hperm

end Heap
