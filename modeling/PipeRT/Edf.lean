import PipeRT.Machine

-- Earliest deadline first scheduling from a flat queue. Jobs come in groups. While a job of a group
-- is being done, the group is blocked, unless it is the group `shared` whose jobs may overlap.
namespace Edf

variable {ι γ κ : Type}

structure Job (ι γ κ : Type) where
  id       : ι
  group    : γ
  deadline : κ

@[ext]
structure Queue (ι γ κ : Type) where
  jobs    : Set (Job ι γ κ)
  blocked : Set γ

inductive Event (ι γ κ : Type) where
  | idle
  | arrive (job : Job ι γ κ)
  | discard (job : Job ι γ κ)
  | take (job : Job ι γ κ)
  | finish (group : γ)

deriving instance DecidableEq for Job
deriving instance DecidableEq for Event

namespace Queue

protected def empty : Queue ι γ κ where
  jobs    := ∅
  blocked := ∅

-- No job may be done that has an earlier deadline.
structure Earliest [LE κ] (q : Queue ι γ κ) (job : Job ι γ κ) : Prop where
  mem   : job ∈ q.jobs
  free  : job.group ∉ q.blocked
  least : ∀ other ∈ q.jobs, other.group ∉ q.blocked → job.deadline ≤ other.deadline

inductive Step [LE κ] (shared : γ) : Queue ι γ κ → Event ι γ κ → Queue ι γ κ → Prop
  | idle {q} : Step shared q .idle q
  | arrive {q job} : job ∉ q.jobs →
    Step shared q (.arrive job) { q with jobs := insert job q.jobs }
  | discard {q job} : job ∈ q.jobs →
    Step shared q (.discard job) { q with jobs := q.jobs \ {job} }
  | take {q job} : q.Earliest job →
    Step shared q (.take job) {
      jobs    := q.jobs \ {job},
      blocked := q.blocked ∪ {group | group = job.group ∧ group ≠ shared} }
  | finish {q group} : group ∈ q.blocked →
    Step shared q (.finish group) { q with blocked := q.blocked \ {group} }

section Queues

variable [LE κ] {shared : γ} {q q' : Queue ι γ κ} {job : Job ι γ κ} {group : γ}

theorem Step.idle_of_eq (h : q' = q) : Step shared q .idle q' :=
  h ▸ .idle

theorem Step.arrive_of_eq (hj : q'.jobs = insert job q.jobs) (hb : q'.blocked = q.blocked)
    (h : job ∉ q.jobs) : Step shared q (.arrive job) q' := by
  have hq : q' = { q with jobs := insert job q.jobs } := by rw [← hj, ← hb]
  exact hq ▸ .arrive h

theorem Step.discard_of_eq (hj : q'.jobs = q.jobs \ {job}) (hb : q'.blocked = q.blocked)
    (h : job ∈ q.jobs) : Step shared q (.discard job) q' := by
  have hq : q' = { q with jobs := q.jobs \ {job} } := by rw [← hj, ← hb]
  exact hq ▸ .discard h

theorem Step.take_of_eq (hj : q'.jobs = q.jobs \ {job})
    (hb : ∀ group, group ∈ q'.blocked ↔ (group = job.group ∧ group ≠ shared) ∨ group ∈ q.blocked)
    (h : q.Earliest job) : Step shared q (.take job) q' := by
  have hq : q' = {
      jobs    := q.jobs \ {job},
      blocked := q.blocked ∪ {group | group = job.group ∧ group ≠ shared} } :=
    Queue.ext hj <| Set.ext fun group => (hb group).trans or_comm
  exact hq ▸ .take h

theorem Step.finish_of_eq (hj : q'.jobs = q.jobs)
    (hb : ∀ other, other ∈ q'.blocked ↔ other ∈ q.blocked ∧ other ≠ group)
    (h : group ∈ q.blocked) : Step shared q (.finish group) q' := by
  have hq : q' = { q with blocked := q.blocked \ {group} } := Queue.ext hj <| Set.ext hb
  exact hq ▸ .finish h

end Queues

-- Which event can make a difference to a job or to a group.
section Runs

variable [LE κ] {shared : γ} {q q' : Queue ι γ κ} {j j₁ j₂ : Job ι γ κ} {g : γ}
variable {e : Event ι γ κ} {es es₁ es₂ es₃ : List (Event ι γ κ)}

theorem Step.mem_jobs (h : Step shared q e q') (hj : j ∈ q'.jobs) : j ∈ q.jobs ∨ e = .arrive j := by
  cases h
  case idle | finish => exact .inl hj
  case arrive job _ =>
    cases Set.mem_insert_iff.mp hj
    case inl he => exact .inr (he ▸ rfl)
    case inr hj => exact .inl hj
  case discard => exact .inl hj.1
  case take    => exact .inl hj.1

theorem Step.mem_blocked (h : Step shared q e q') (hg : g ∈ q'.blocked) :
    e ≠ .finish g ∧ (g ∈ q.blocked ∨ (∃ job : Job ι γ κ, e = .take job ∧ job.group = g) ∧ g ≠ shared) := by
  cases h
  case idle | arrive | discard => exact ⟨nofun, .inl hg⟩
  case take job _ =>
    refine ⟨nofun, ?_⟩
    cases hg
    case inl hg => exact .inl hg
    case inr hg => exact .inr ⟨⟨job, rfl, hg.1.symm⟩, hg.1 ▸ hg.2⟩
  case finish group _ =>
    refine ⟨?_, .inl hg.1⟩
    rintro he
    exact hg.2 (Event.finish.inj he).symm

theorem mem_jobs (p : Execution (Step shared) q es q') (hj : j ∈ q'.jobs) :
    j ∈ q.jobs ∨ .arrive j ∈ es := by
  induction p
  case refl => exact .inl hj
  case step e _ ih =>
    obtain h | h := ih hj
    case inr => exact .inr (List.mem_cons_of_mem _ h)
    case inl =>
      obtain h | rfl := e.mem_jobs h
      case inl => exact .inl h
      case inr => exact .inr List.mem_cons_self

-- The job because of which a group is blocked.
theorem mem_blocked (p : Execution (Step shared) q es q') (hg : g ∈ q'.blocked) (hn : g ∉ q.blocked) :
    g ≠ shared ∧ ∃ (es₁ es₂ : List (Event ι γ κ)) (job : Job ι γ κ),
        es = es₁ ++ .take job :: es₂ ∧ job.group = g ∧ .finish g ∉ es₂ := by
  suffices hall : (g ∈ q.blocked ∧ .finish g ∉ es) ∨
      g ≠ shared ∧ ∃ (es₁ es₂ : List (Event ι γ κ)) (job : Job ι γ κ),
        es = es₁ ++ .take job :: es₂ ∧ job.group = g ∧ .finish g ∉ es₂ from
    hall.resolve_left fun h => hn h.1
  clear hn
  induction p
  case refl => exact .inl ⟨hg, List.not_mem_nil⟩
  case step a as e _ ih =>
    obtain ⟨h, hfin⟩ | ⟨hs, es₁, es₂, job, rfl, h⟩ := ih hg
    case inr => exact .inr ⟨hs, a :: es₁, es₂, job, rfl, h⟩
    case inl =>
      obtain ⟨hne, h | ⟨⟨job, rfl, hj⟩, hs⟩⟩ := e.mem_blocked h
      case inr => exact .inr ⟨hs, [], as, job, rfl, hj, hfin⟩
      case inl =>
        refine .inl ⟨h, fun hm => ?_⟩
        cases List.mem_cons.mp hm
        case inl he => exact hne he.symm
        case inr hm => exact hfin hm

-- A job is taken before one that is more urgent only if that one arrives later, or if its group is
-- blocked by another one of its jobs.
theorem inversion {κ : Type} [LinearOrder κ] {shared : γ} {q q' : Queue ι γ κ} {j₁ j₂ : Job ι γ κ}
    {es₁ es₂ es₃ : List (Event ι γ κ)} (hb : q.blocked = ∅)
    (p : Execution (Step shared) q (es₁ ++ .take j₁ :: (es₂ ++ .take j₂ :: es₃)) q')
    (hlt : j₂.deadline < j₁.deadline) :
    .arrive j₂ ∈ es₂ ∨ j₂.group ≠ j₁.group ∧ j₂.group ≠ shared ∧
      ∃ (es es' : List (Event ι γ κ)) (job : Job ι γ κ),
        es₁ = es ++ .take job :: es' ∧ job.group = j₂.group ∧ .finish j₂.group ∉ es' := by
  obtain ⟨q₁, p₁, p⟩ := p.of_append
  obtain _ | ⟨e₁, p⟩ := p
  obtain ⟨q₃, p₂, p⟩ := p.of_append
  obtain _ | ⟨e₂, _⟩ := p
  cases e₁
  case take h₁ =>
    cases e₂
    case take h₂ _ =>
      refine or_iff_not_imp_left.mpr fun harr => ?_
      have hmem : j₂ ∈ q₁.jobs := ((mem_jobs p₂ h₂.mem).resolve_right harr).1
      have hblocked : j₂.group ∈ q₁.blocked := by
        by_contra hfree
        exact (h₁.least j₂ hmem hfree).not_gt hlt
      refine ⟨fun he => h₁.free (he ▸ hblocked), mem_blocked p₁ hblocked ?_⟩
      rw [hb]
      exact Set.notMem_empty _

theorem Step.blocked_of (h : Step shared q e q') (hg : g ∈ q.blocked) (he : e ≠ .finish g) :
    g ∈ q'.blocked := by
  cases h
  case idle | arrive | discard => exact hg
  case take => exact .inl hg
  case finish group _ =>
    refine ⟨hg, ?_⟩
    rintro rfl
    exact he rfl

theorem blocked_of (p : Execution (Step shared) q es q') (hg : g ∈ q.blocked) (he : .finish g ∉ es) :
    g ∈ q'.blocked := by
  induction p
  case refl => exact hg
  case step e _ ih =>
    rw [List.mem_cons, not_or] at he
    exact ih (e.blocked_of hg (Ne.symm he.1)) he.2

-- The jobs of a group are done one after the other.
theorem finish_between
    (p : Execution (Step shared) q (es₁ ++ .take j₁ :: (es₂ ++ .take j₂ :: es₃)) q')
    (hg : j₁.group = j₂.group) (hs : j₁.group ≠ shared) : .finish j₁.group ∈ es₂ := by
  obtain ⟨q₁, _, p⟩ := p.of_append
  obtain _ | ⟨e₁, p⟩ := p
  obtain ⟨q₃, p₂, p⟩ := p.of_append
  obtain _ | ⟨e₂, _⟩ := p
  cases e₁
  case take h₁ =>
    cases e₂
    case take h₂ _ =>
      by_contra hf
      exact h₂.free <| hg ▸ blocked_of p₂ (.inr ⟨rfl, hs⟩) hf

-- A job that has arrived is taken or discarded, or else it is still there.
def Conserved [DecidableEq (Event ι γ κ)] (es : List (Event ι γ κ)) (q : Queue ι γ κ)
    (j : Job ι γ κ) : Prop :=
  (j ∈ q.jobs ∧ es.count (.arrive j) = es.count (.take j) + es.count (.discard j) + 1) ∨
  (j ∉ q.jobs ∧ es.count (.arrive j) = es.count (.take j) + es.count (.discard j))

theorem Step.conserved [DecidableEq (Event ι γ κ)] (h : Step shared q e q') (hq : Conserved es q j) :
    Conserved (es ++ [e]) q' j := by
  simp only [Conserved, List.count_append, List.count_singleton] at hq ⊢
  cases h
  case idle   => simpa using hq
  case finish => simpa using hq
  case arrive job hn =>
    by_cases hj : job = j
    case neg => simpa [hj, Ne.symm hj] using hq
    case pos =>
      subst hj
      have := hq.resolve_left fun h => hn h.1
      exact .inl ⟨Set.mem_insert .., by simp [this.2]⟩
  case discard job hm =>
    by_cases hj : job = j
    case neg => simpa [hj, Ne.symm hj] using hq
    case pos =>
      subst hj
      have := hq.resolve_right fun h => h.1 hm
      exact .inr ⟨fun h => h.2 rfl, by simp [this.2]; omega⟩
  case take job hm =>
    by_cases hj : job = j
    case neg => simpa [hj, Ne.symm hj] using hq
    case pos =>
      subst hj
      have := hq.resolve_right fun h => h.1 hm.mem
      exact .inr ⟨fun h => h.2 rfl, by simp [this.2]; omega⟩

theorem conserved [DecidableEq (Event ι γ κ)] (p : Execution (Step shared) q es q') (hq : q.jobs = ∅)
    (j : Job ι γ κ) : Conserved es q' j := by
  refine p.invariant (I := fun es q' => Conserved es q' j) (fun _ _ _ _ h e => e.conserved h) (.inr ⟨?_, rfl⟩)
  rw [hq]
  exact Set.notMem_empty j

end Runs

end Queue
end Edf
