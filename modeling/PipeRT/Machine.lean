import Mathlib

-- Labelled steps, one after the other.
inductive Execution {σ α : Type} (step : σ → α → σ → Prop) : σ → List α → σ → Prop
  | refl {s} : Execution step s [] s
  | step {s₁ s₂ s₃ a as} : step s₁ a s₂ → Execution step s₂ as s₃ → Execution step s₁ (a :: as) s₃

namespace Execution

variable {σ τ α β : Type} {step : σ → α → σ → Prop} {step' : τ → β → τ → Prop}
variable {s s₁ s₂ s₃ : σ} {as bs : List α}

theorem trans (p : Execution step s₁ as s₂) (q : Execution step s₂ bs s₃) :
    Execution step s₁ (as ++ bs) s₃ := by
  induction p
  case refl => exact q
  case step h _ ih => exact .step h (ih q)

theorem of_append (p : Execution step s₁ (as ++ bs) s₃) :
    ∃ s₂, Execution step s₁ as s₂ ∧ Execution step s₂ bs s₃ := by
  induction as generalizing s₁
  case nil => exact ⟨s₁, .refl, p⟩
  case cons a as ih =>
    obtain _ | ⟨e, p⟩ := p
    obtain ⟨s₂, h₁, h₂⟩ := ih p
    exact ⟨s₂, .step e h₁, h₂⟩

-- What every step keeps is kept by all of them.
theorem preserves {P : σ → Prop} (p : Execution step s₁ as s₂)
    (hs : ∀ s a s', P s → step s a s' → P s') (h : P s₁) : P s₂ := by
  induction p
  case refl => exact h
  case step e _ ih => exact ih (hs _ _ _ h e)

-- The same for what is told of the labels that led to a state.
theorem invariant {I : List α → σ → Prop} (p : Execution step s₁ as s₂)
    (hs : ∀ as s a s', I as s → step s a s' → I (as ++ [a]) s') (h : I [] s₁) : I as s₂ := by
  suffices hall : ∀ bs, I bs s₁ → I (bs ++ as) s₂ from hall [] h
  clear h
  induction p
  case refl => exact fun bs h => by rwa [List.append_nil]
  case step a as e _ ih =>
    intro bs h
    rw [← List.singleton_append, ← List.append_assoc]
    exact ih _ <| hs _ _ _ _ h e

-- Steps that are simulated one by one are simulated as a whole.
theorem simulate {P : σ → Prop} {f : σ → τ} (p : Execution step s₁ as s₂)
    (hs : ∀ s a s', P s → step s a s' → P s')
    (hf : ∀ s a s', P s → step s a s' → ∃ b, step' (f s) b (f s')) (h : P s₁) :
    ∃ bs, Execution step' (f s₁) bs (f s₂) := by
  induction p
  case refl => exact ⟨[], .refl⟩
  case step e _ ih =>
    have ⟨_, hb⟩ := hf _ _ _ h e
    have ⟨_, hp⟩ := ih (hs _ _ _ h e)
    exact ⟨_, .step hb hp⟩

-- The same if the steps of the one determine those of the other.
theorem map {P : σ → Prop} {f : σ → τ} {g : α → β} (p : Execution step s₁ as s₂)
    (hs : ∀ s a s', P s → step s a s' → P s')
    (hf : ∀ s a s', P s → step s a s' → step' (f s) (g a) (f s')) (h : P s₁) :
    Execution step' (f s₁) (as.map g) (f s₂) := by
  induction p
  case refl => exact .refl
  case step e _ ih => exact .step (hf _ _ _ h e) <| ih (hs _ _ _ h e)

-- Steps of a kind that uses up a measure are as few as the measure allows.
theorem countP_le {P : σ → Prop} {m : σ → Nat} {own : α → Bool} (p : Execution step s₁ as s₂)
    (hs : ∀ s a s', P s → step s a s' → P s')
    (hm : ∀ s a s', a ∈ as → P s → step s a s' → m s' + (if own a then 1 else 0) ≤ m s) (h : P s₁) :
    as.countP own ≤ m s₁ := by
  induction p
  case refl => simp
  case step a as e _ ih =>
    have hrest := ih (fun s a s' ha => hm s a s' (List.mem_cons_of_mem _ ha)) (hs _ _ _ h e)
    have hstep := hm _ a _ List.mem_cons_self h e
    rw [List.countP_cons]
    omega

end Execution

-- A system whose parties take guarded steps. A step that its guard permits may still end in a fault
-- of type `ε`.
structure Machine (σ α ε : Type) where
  Init  : σ → Prop
  Guard : σ → α → Prop
  exec  : σ → α → Except ε σ

namespace Machine

variable {σ α ε : Type} {M : Machine σ α ε} {ok ok' : σ → α → Prop} {s s' s₁ s₂ : σ} {a : α}

structure Step (M : Machine σ α ε) (s : σ) (a : α) (s' : σ) : Prop where
  guard : M.Guard s a
  exec  : M.exec s a = .ok s'

-- The fault in which the step ends, if it does.
def fault? (M : Machine σ α ε) (s : σ) (a : α) : Option ε :=
  match M.exec s a with
  | .ok _    => none
  | .error f => some f

theorem exec_eq_of_fault? {f : ε} (h : M.fault? s a = some f) : M.exec s a = .error f := by
  rw [fault?] at h
  split at h
  case h_1     => contradiction
  case h_2 f he => exact Option.some.inj h ▸ he

-- The runs whose steps all meet the condition `ok`.
abbrev Run (M : Machine σ α ε) (ok : σ → α → Prop) : σ → List α → σ → Prop :=
  Execution fun s a s' => ok s a ∧ M.Step s a s'

def Reachable (M : Machine σ α ε) (ok : σ → α → Prop) (s : σ) : Prop :=
  ∃ s₀ as, M.Init s₀ ∧ M.Run ok s₀ as s

theorem Run.mono {as : List α} (h : ∀ s a, ok s a → ok' s a) (r : M.Run ok s₁ as s₂) :
    M.Run ok' s₁ as s₂ := by
  induction r
  case refl        => exact .refl
  case step e _ ih => exact .step ⟨h _ _ e.1, e.2⟩ ih

theorem Reachable.mono (h : ∀ s a, ok s a → ok' s a) : M.Reachable ok s → M.Reachable ok' s
  | ⟨s₀, as, hi, r⟩ => ⟨s₀, as, hi, Run.mono h r⟩

theorem Reachable.step (h : M.Reachable ok s) (ha : ok s a) (e : M.Step s a s') :
    M.Reachable ok s' :=
  have ⟨s₀, as, hi, r⟩ := h
  ⟨s₀, as ++ [a], hi, Execution.trans r (.step ⟨ha, e⟩ .refl)⟩

-- An invariant of the runs whose steps meet `ok`. Its step may rely on what is known to hold in all
-- states that those runs reach.
theorem Reachable.induction {P : σ → Prop} (h : M.Reachable ok s) (init : ∀ s, M.Init s → P s)
    (step : ∀ s a s', M.Reachable ok s → P s → ok s a → M.Step s a s' → P s') : P s := by
  have ⟨s₀, as, hi, r⟩ := h
  have hr : M.Reachable ok s₀ := ⟨s₀, [], hi, .refl⟩
  refine And.right <| r.preserves (P := fun s => M.Reachable ok s ∧ P s) ?_ ⟨hr, init s₀ hi⟩
  exact fun s a s' hp e => ⟨hp.1.step e.1 e.2, step s a s' hp.1 hp.2 e.1 e.2⟩

-- An invariant under which the permitted steps do not fail.
structure Safe (M : Machine σ α ε) (ok : σ → α → Prop) (P : σ → Prop) : Prop where
  init : ∀ s, M.Init s → P s
  step : ∀ s a, P s → M.Guard s a → ok s a → ∃ s', M.exec s a = .ok s' ∧ P s'

namespace Safe

variable {P : σ → Prop}

theorem of_step (hs : M.Safe ok P) (hp : P s) (ha : ok s a) (e : M.Step s a s') : P s' := by
  have ⟨s'', he, hp'⟩ := hs.step s a hp e.guard ha
  obtain rfl := Except.ok.inj <| e.exec.symm.trans he
  exact hp'

theorem reachable (hs : M.Safe ok P) (h : M.Reachable ok s) : P s :=
  h.induction hs.init fun _ _ _ _ => hs.of_step

theorem not_error (hs : M.Safe ok P) (h : M.Reachable ok s) (hg : M.Guard s a) (ha : ok s a)
    (f : ε) : M.exec s a ≠ .error f := by
  have ⟨s', he, _⟩ := hs.step s a (hs.reachable h) hg ha
  simp [he]

end Safe

-- What is seen of the given actions.
def trace {ω : Type} (M : Machine σ α ε) (seen : σ → α → List ω) : σ → List α → List ω
  | _, []      => []
  | s, a :: as =>
    seen s a ++ match M.exec s a with
      | .ok s'   => M.trace seen s' as
      | .error _ => []

theorem trace_cons {ω : Type} {seen : σ → α → List ω} {as : List α} (e : M.Step s a s') :
    M.trace seen s (a :: as) = seen s a ++ M.trace seen s' as := by
  rw [trace, e.exec]

-- What is told of the states of a run by what was seen on the way.
theorem Run.trace_invariant {ω : Type} {seen : σ → α → List ω} {I : List ω → σ → Prop} {as : List α}
    (r : M.Run ok s₁ as s₂)
    (hs : ∀ log s a s', I log s → ok s a → M.Step s a s' → I (log ++ seen s a) s') (h : I [] s₁) :
    I (M.trace seen s₁ as) s₂ := by
  suffices hall : ∀ log, I log s₁ → I (log ++ M.trace seen s₁ as) s₂ from hall [] h
  clear h
  induction r
  case refl =>
    intro log h
    rwa [trace, List.append_nil]
  case step e _ ih =>
    intro log h
    rw [trace_cons e.2, ← List.append_assoc]
    exact ih _ <| hs _ _ _ _ h e.1 e.2

theorem trace_concat {ω : Type} {seen : σ → α → List ω} {as : List α} (r : M.Run ok s₁ as s₂)
    (e : M.Step s₂ a s') : M.trace seen s₁ (as ++ [a]) = M.trace seen s₁ as ++ seen s₂ a := by
  induction r
  case refl => rw [List.nil_append, trace_cons e, trace, trace, List.append_nil, List.nil_append]
  case step h _ ih => rw [List.cons_append, trace_cons h.2, trace_cons h.2, ih e, List.append_assoc]

-- The same, if it is known already what else is told of the states on the way.
theorem Run.trace_induction {ω : Type} {seen : σ → α → List ω} {I J : List ω → σ → Prop} {as : List α}
    (r : M.Run ok s₁ as s₂) (hJ : ∀ as s, M.Run ok s₁ as s → J (M.trace seen s₁ as) s)
    (hs : ∀ log s a s', J log s → I log s → ok s a → M.Step s a s' → I (log ++ seen s a) s')
    (h : I [] s₁) : I (M.trace seen s₁ as) s₂ := by
  have hall := r.invariant (I := fun as s => M.Run ok s₁ as s ∧ I (M.trace seen s₁ as) s)
    (fun as s a s' hI e => ?_) ⟨.refl, h⟩
  · exact hall.2
  · obtain ⟨hr, hI⟩ := hI
    refine ⟨hr.trans (.step e .refl), ?_⟩
    rw [trace_concat hr e.2]
    exact hs _ _ _ _ (hJ _ _ hr) hI e.1 e.2

section Replay

variable [∀ s a, Decidable (M.Guard s a)] [∀ s a, Decidable (ok s a)]

-- The state after the given actions, if they are a run.
def replay (M : Machine σ α ε) (ok : σ → α → Prop) [∀ s a, Decidable (M.Guard s a)]
    [∀ s a, Decidable (ok s a)] : σ → List α → Option σ
  | s, []      => some s
  | s, a :: as =>
    if M.Guard s a ∧ ok s a then
      match M.exec s a with
      | .ok s'   => M.replay ok s' as
      | .error _ => none
    else
      none

theorem run_of_replay {as : List α} (h : M.replay ok s as = some s') : M.Run ok s as s' := by
  induction as generalizing s
  case nil =>
    obtain rfl := Option.some.inj h
    exact .refl
  case cons a as ih =>
    rw [replay] at h
    split at h
    case isFalse => contradiction
    case isTrue hg =>
      split at h
      case h_2 => contradiction
      case h_1 s₁ he => exact .step ⟨hg.2, hg.1, he⟩ (ih h)

-- A property that can be computed is looked up at the end of a run.
theorem exists_reachable_of_replay (ok : σ → α → Prop) [∀ s a, Decidable (ok s a)] (as : List α)
    {P : σ → Prop} [DecidablePred P] (hi : M.Init s)
    (h : (M.replay ok s as).any (fun s' => decide (P s')) = true) : ∃ s', M.Reachable ok s' ∧ P s' := by
  have ⟨s', hr, hp⟩ := (Option.any_eq_true ..).mp h
  exact ⟨s', ⟨s, as, hi, run_of_replay hr⟩, of_decide_eq_true hp⟩

end Replay
end Machine
