import PipeRT.Machine

-- A lock, as the loop sees it that waits for it. The loop keeps a value of type `ω` from one attempt
-- to the next.
structure Mutex (μ ω : Type) where
  held    : μ → Bool
  start   : μ → ω
  -- An attempt that takes the lock leaves nothing to wait for.
  attempt : μ → ω → Option ω × μ
  release : μ → μ

structure Mutex.Lawful {μ ω : Type} (X : Mutex μ ω) : Prop where
  attempt_held : ∀ m w, X.held m = true → ∃ w', X.attempt m w = (some w', m)
  attempt_free : ∀ m w, X.held m = false → ∃ m', X.attempt m w = (none, m') ∧ X.held m' = true
  release      : ∀ m, X.held (X.release m) = false

-- What a statement does to the data that a lock protects and to the variables of its thread.
abbrev Statement (δ κ ε : Type) :=
  δ → κ → Except ε (δ × κ)

namespace Statement

variable {δ κ ε : Type}

def run : List (Statement δ κ ε) → Statement δ κ ε
  | [],        d, k => .ok (d, k)
  | s :: rest, d, k => do
    let (d, k) ← s d k
    run rest d k

theorem run_cons_eq_ok {s : Statement δ κ ε} {rest : List (Statement δ κ ε)} {d : δ} {k : κ}
    {r : δ × κ} (h : run (s :: rest) d k = .ok r) :
    ∃ d' k', s d k = .ok (d', k') ∧ run rest d' k' = .ok r := by
  rw [run] at h
  cases hs : s d k
  case error => simp [hs, bind, Except.bind] at h
  case ok r' =>
    obtain ⟨d', k'⟩ := r'
    rw [hs] at h
    exact ⟨d', k', rfl, h⟩

end Statement

-- A program whose threads share data by way of critical sections. The data of a lock are of the type
-- `D l`, the variables of a thread of the type `κ`.
structure Sections (L : Type) (D : L → Type) (τ κ ε : Type) where
  Init  : ((l : L) → D l) → (τ → κ) → Prop
  -- What a thread does on its own between two critical sections.
  Moves : κ → κ → Prop
  -- The lock and the statements of the critical section that a thread is about to enter, if any.
  next  : κ → Option ((l : L) × List (Statement (D l) κ ε))

-- The program if threads only go to where `P` holds when they are on their own.
def Sections.restrict {L : Type} {D : L → Type} {τ κ ε : Type} (S : Sections L D τ κ ε) (P : κ → Prop) :
    Sections L D τ κ ε :=
  { S with Moves := fun k k' => S.Moves k k' ∧ P k' }

section

variable {L : Type} {D : L → Type} {τ κ ε μ ω : Type}

-- The program with critical sections that take a single step.
structure Atomic (L : Type) (D : L → Type) (τ κ : Type) where
  data   : (l : L) → D l
  locals : τ → κ

inductive AtomicAction (τ κ : Type) where
  | move (t : τ) (k : κ)
  | section (t : τ)
  deriving DecidableEq

-- How far a thread is. In a critical section it has the given statements left.
inductive Thread (L : Type) (D : L → Type) (κ ε ω : Type) where
  | outside (k : κ)
  | waiting (k : κ) (w : ω)
  | inside (l : L) (rest : List (Statement (D l) κ ε)) (k : κ)

namespace Thread

variable {L : Type} {D : L → Type} {κ ε ω : Type}

def isWaiting : Thread L D κ ε ω → Bool
  | waiting ..            => true
  | outside _ | inside .. => false

def isInside : Thread L D κ ε ω → Bool
  | inside ..              => true
  | outside _ | waiting .. => false

end Thread

-- The program as its threads run it, one statement at a time.
structure Interleaved (L : Type) (D : L → Type) (τ κ ε μ ω : Type) where
  locks   : L → μ
  data    : (l : L) → D l
  threads : τ → Thread L D κ ε ω

inductive InterleavedAction (τ κ : Type) where
  | move (t : τ) (k : κ)
  -- The thread calls `lock`, and tries to take the lock.
  | lock (t : τ)
  | attempt (t : τ)
  | statement (t : τ)
  | unlock (t : τ)
  deriving DecidableEq

def InterleavedAction.MovesTo (P : κ → Prop) : InterleavedAction τ κ → Prop
  | move _ k                                    => P k
  | lock _ | attempt _ | statement _ | unlock _ => True

instance (P : κ → Prop) [DecidablePred P] (a : InterleavedAction τ κ) : Decidable (a.MovesTo P) :=
  match a with
  | .move _ k                                       => inferInstanceAs (Decidable (P k))
  | .lock _ | .attempt _ | .statement _ | .unlock _ => inferInstanceAs (Decidable True)

variable [DecidableEq L] [DecidableEq τ]

namespace Atomic

def Guard (S : Sections L D τ κ ε) (z : Atomic L D τ κ) : AtomicAction τ κ → Prop
  | .move t k  => S.Moves (z.locals t) k
  | .section t => (S.next (z.locals t)).isSome = true

def exec (S : Sections L D τ κ ε) (z : Atomic L D τ κ) :
    AtomicAction τ κ → Except ε (Atomic L D τ κ)
  | .move t k  => return { z with locals := Function.update z.locals t k }
  | .section t =>
    match S.next (z.locals t) with
    | none           => return z
    | some ⟨l, body⟩ => do
      let (d, k) ← Statement.run body (z.data l) (z.locals t)
      return ⟨Function.update z.data l d, Function.update z.locals t k⟩

theorem exec_section {S : Sections L D τ κ ε} {z : Atomic L D τ κ} {t : τ} {l : L} {d : D l} {k : κ}
    {body : List (Statement (D l) κ ε)} (hn : S.next (z.locals t) = some ⟨l, body⟩)
    (hrun : Statement.run body (z.data l) (z.locals t) = .ok (d, k)) :
    z.exec S (.section t) = .ok ⟨Function.update z.data l d, Function.update z.locals t k⟩ := by
  simp only [exec, hn, hrun]
  rfl

end Atomic

def atomic (S : Sections L D τ κ ε) : Machine (Atomic L D τ κ) (AtomicAction τ κ) ε where
  Init z := S.Init z.data z.locals
  Guard  := Atomic.Guard S
  exec   := Atomic.exec S

namespace Interleaved

def setThread (y : Interleaved L D τ κ ε μ ω) (t : τ) (thread : Thread L D κ ε ω) :
    Interleaved L D τ κ ε μ ω :=
  { y with threads := Function.update y.threads t thread }

def Guard (S : Sections L D τ κ ε) (y : Interleaved L D τ κ ε μ ω) : InterleavedAction τ κ → Prop
  | .move t k    => match y.threads t with
    | .outside k₀ => S.Moves k₀ k
    | _           => False
  | .lock t      => match y.threads t with
    | .outside k => (S.next k).isSome = true
    | _          => False
  | .attempt t   => match y.threads t with
    | .waiting k _ => (S.next k).isSome = true
    | _            => False
  | .statement t => match y.threads t with
    | .inside _ (_ :: _) _ => True
    | _                    => False
  | .unlock t    => match y.threads t with
    | .inside _ [] _ => True
    | _              => False

instance (S : Sections L D τ κ ε) [DecidableRel S.Moves] (y : Interleaved L D τ κ ε μ ω)
    (a : InterleavedAction τ κ) : Decidable (y.Guard S a) := by
  cases a <;> dsimp only [Guard] <;> split <;> infer_instance

def exec (X : Mutex μ ω) (S : Sections L D τ κ ε) (y : Interleaved L D τ κ ε μ ω) :
    InterleavedAction τ κ → Except ε (Interleaved L D τ κ ε μ ω)
  | .move t k    => return y.setThread t (.outside k)
  | .lock t      => match y.threads t with
    | .outside k => match S.next k with
      | some ⟨l, _⟩ => return y.setThread t (.waiting k <| X.start (y.locks l))
      | none        => return y
    | _          => return y
  | .attempt t   => match y.threads t with
    | .waiting k w => match S.next k with
      | some ⟨l, body⟩ => match X.attempt (y.locks l) w with
        | (some w, m) =>
          return { y.setThread t (.waiting k w) with locks := Function.update y.locks l m }
        | (none, m)   =>
          return { y.setThread t (.inside l body k) with locks := Function.update y.locks l m }
      | none           => return y
    | _            => return y
  | .statement t => match y.threads t with
    | .inside l (s :: rest) k => do
      let (d, k) ← s (y.data l) k
      return { y.setThread t (.inside l rest k) with data := Function.update y.data l d }
    | _                       => return y
  | .unlock t    => match y.threads t with
    | .inside l [] k =>
      return { y.setThread t (.outside k) with
        locks := Function.update y.locks l (X.release (y.locks l)) }
    | _              => return y

end Interleaved

-- Nobody holds a lock at first.
def interleaved (X : Mutex μ ω) (S : Sections L D τ κ ε) :
    Machine (Interleaved L D τ κ ε μ ω) (InterleavedAction τ κ) ε where
  Init y := (∀ l, X.held (y.locks l) = false) ∧
            ∃ locals, S.Init y.data locals ∧ y.threads = fun t => .outside (locals t)
  Guard  := Interleaved.Guard S
  exec   := Interleaved.exec X S

instance (X : Mutex μ ω) (S : Sections L D τ κ ε) [DecidableRel S.Moves] (y : Interleaved L D τ κ ε μ ω)
    (a : InterleavedAction τ κ) : Decidable ((interleaved X S).Guard y a) :=
  inferInstanceAs (Decidable (y.Guard S a))

namespace Interleaved

variable {X : Mutex μ ω} {S : Sections L D τ κ ε} {y y' : Interleaved L D τ κ ε μ ω}
variable {a : InterleavedAction τ κ} {t t' : τ} {l l' : L}

-- What a step that does not fail does.
inductive Effect (X : Mutex μ ω) (S : Sections L D τ κ ε) (y : Interleaved L D τ κ ε μ ω) :
    InterleavedAction τ κ → Interleaved L D τ κ ε μ ω → Prop
  | moved {t k₀ k} : y.threads t = .outside k₀ → S.Moves k₀ k →
    Effect X S y (.move t k) (y.setThread t (.outside k))
  | called {t k l body} : y.threads t = .outside k → S.next k = some ⟨l, body⟩ →
    Effect X S y (.lock t) (y.setThread t (.waiting k <| X.start (y.locks l)))
  | failed {t k w l body w'} : y.threads t = .waiting k w → S.next k = some ⟨l, body⟩ →
    X.held (y.locks l) = true → Effect X S y (.attempt t) (y.setThread t (.waiting k w'))
  | entered {t k w l body m} : y.threads t = .waiting k w → S.next k = some ⟨l, body⟩ →
    X.held (y.locks l) = false → X.held m = true →
    Effect X S y (.attempt t)
      { y.setThread t (.inside l body k) with locks := Function.update y.locks l m }
  | done {t l s rest k d k'} : y.threads t = .inside l (s :: rest) k → s (y.data l) k = .ok (d, k') →
    Effect X S y (.statement t)
      { y.setThread t (.inside l rest k') with data := Function.update y.data l d }
  | left {t l k} : y.threads t = .inside l [] k →
    Effect X S y (.unlock t)
      { y.setThread t (.outside k) with locks := Function.update y.locks l (X.release (y.locks l)) }

theorem effect (hx : X.Lawful) (e : (interleaved X S).Step y a y') : Effect X S y a y' := by
  have hg : y.Guard S a := e.guard
  have he : y.exec X S a = .ok y' := e.exec
  cases a
  case move t k =>
    rw [Guard] at hg
    split at hg
    case h_1 hk => exact Except.ok.inj he ▸ .moved hk hg
    case h_2    => contradiction
  case lock t =>
    rw [Guard] at hg
    split at hg
    case h_2 => contradiction
    case h_1 k hk =>
      obtain ⟨⟨l, body⟩, hn⟩ := Option.isSome_iff_exists.mp hg
      simp only [exec, hk, hn] at he
      exact Except.ok.inj he ▸ .called hk hn
  case attempt t =>
    rw [Guard] at hg
    split at hg
    case h_2 => contradiction
    case h_1 k w hk =>
      obtain ⟨⟨l, body⟩, hn⟩ := Option.isSome_iff_exists.mp hg
      simp only [exec, hk, hn] at he
      cases hl : X.held (y.locks l)
      case true =>
        obtain ⟨w', hw⟩ := hx.attempt_held _ w hl
        simp only [hw, Function.update_eq_self] at he
        exact Except.ok.inj he ▸ .failed hk hn hl
      case false =>
        obtain ⟨m, hw, hm⟩ := hx.attempt_free _ w hl
        simp only [hw] at he
        exact Except.ok.inj he ▸ .entered hk hn hl hm
  case statement t =>
    rw [Guard] at hg
    split at hg
    case h_2 => contradiction
    case h_1 l s rest k hk =>
      simp only [exec, hk] at he
      cases hs : s (y.data l) k
      case error => simp [hs, bind, Except.bind] at he
      case ok r =>
        obtain ⟨d, k'⟩ := r
        rw [hs] at he
        exact Except.ok.inj he ▸ .done hk hs
  case unlock t =>
    rw [Guard] at hg
    split at hg
    case h_2 => contradiction
    case h_1 l k hk =>
      simp only [exec, hk] at he
      exact Except.ok.inj he ▸ .left hk

theorem reachable_restrict {P : κ → Prop} (h : (interleaved X S).Reachable (fun _ a => a.MovesTo P) y) :
    (interleaved X (S.restrict P)).Reachable (fun _ _ => True) y := by
  refine h.induction (P := (interleaved X (S.restrict P)).Reachable fun _ _ => True)
    (fun y hy => ⟨y, [], hy, .refl⟩) fun y a y' _ hr ha e => hr.step trivial ⟨?_, e.exec⟩
  have hg : y.Guard S a := e.guard
  change y.Guard (S.restrict P) a
  cases a
  case move t k =>
    rw [Guard] at hg ⊢
    split at hg
    case h_1 => exact ⟨hg, ha⟩
    case h_2 => contradiction
  all_goals exact hg

-- The thread is in a critical section of the lock.
def Inside (y : Interleaved L D τ κ ε μ ω) (t : τ) (l : L) : Prop :=
  ∃ rest k, y.threads t = .inside l rest k

section Inside

variable {thread : Thread L D κ ε ω} {k : κ} {w : ω} {rest : List (Statement (D l) κ ε)}

omit [DecidableEq L] [DecidableEq τ] in
theorem not_inside_of_outside (h : y.threads t = .outside k) : ¬y.Inside t l := by
  rintro ⟨_, _, h'⟩
  exact nomatch h.symm.trans h'

omit [DecidableEq L] [DecidableEq τ] in
theorem not_inside_of_waiting (h : y.threads t = .waiting k w) : ¬y.Inside t l := by
  rintro ⟨_, _, h'⟩
  exact nomatch h.symm.trans h'

omit [DecidableEq L] in
theorem inside_of_ne (h : y'.threads = Function.update y.threads t thread) (ht : t' ≠ t) :
    y'.Inside t' l' ↔ y.Inside t' l' := by
  rw [Inside, Inside, h, Function.update_of_ne ht]

-- A thread that neither enters a critical section nor leaves one.
omit [DecidableEq L] in
theorem inside_of_not (thread : Thread L D κ ε ω) (h : y'.threads = Function.update y.threads t thread)
    (hn : ∀ l, ¬y.Inside t l) (hn' : ∀ l rest k, thread ≠ .inside l rest k) :
    y'.Inside t' l' ↔ y.Inside t' l' := by
  by_cases ht : t' = t
  case neg => exact inside_of_ne h ht
  case pos =>
    subst ht
    refine iff_of_false ?_ (hn l')
    rintro ⟨rest, k, hi⟩
    rw [h, Function.update_self] at hi
    exact hn' l' rest k hi

omit [DecidableEq L] in
theorem inside_of_inside (h : y'.threads = Function.update y.threads t (.inside l rest k))
    (hi : y.Inside t l) : y'.Inside t' l' ↔ y.Inside t' l' := by
  by_cases ht : t' = t
  case neg => exact inside_of_ne h ht
  case pos =>
    subst ht
    obtain ⟨_, _, hi⟩ := hi
    simp only [Inside, h, hi, Function.update_self, Thread.inside.injEq]
    constructor
    all_goals
      rintro ⟨_, _, rfl, _, _⟩
      exact ⟨_, _, rfl, HEq.rfl, rfl⟩

omit [DecidableEq L] in
theorem inside_self (h : y'.threads = Function.update y.threads t (.inside l rest k)) :
    y'.Inside t l' ↔ l = l' := by
  simp only [Inside, h, Function.update_self, Thread.inside.injEq]
  constructor
  case mp =>
    rintro ⟨_, _, hl, _, _⟩
    exact hl
  case mpr =>
    rintro rfl
    exact ⟨_, _, rfl, HEq.rfl, rfl⟩

omit [DecidableEq L] in
theorem not_inside_self (h : y'.threads = Function.update y.threads t (.outside k)) :
    ¬y'.Inside t l' :=
  not_inside_of_outside <| (congrFun h t).trans <| Function.update_self ..

end Inside

-- A lock is held while a thread is in a critical section of it. It never is more than one.
structure Exclusive (X : Mutex μ ω) (y : Interleaved L D τ κ ε μ ω) : Prop where
  held   : ∀ l, X.held (y.locks l) = true ↔ ∃ t, y.Inside t l
  unique : ∀ l t t', y.Inside t l → y.Inside t' l → t = t'

namespace Exclusive

omit [DecidableEq L] [DecidableEq τ] in
theorem congr (h : y.Exclusive X) (hl : y'.locks = y.locks)
    (hi : ∀ t l, y'.Inside t l ↔ y.Inside t l) : y'.Exclusive X where
  held l                := by simp only [hl, hi, h.held]
  unique l t t' ht ht'  := h.unique l t t' ((hi t l).mp ht) ((hi t' l).mp ht')

theorem enter {m : μ} {rest : List (Statement (D l) κ ε)} {k : κ} (h : y.Exclusive X)
    (ht : ∀ l, ¬y.Inside t l) (hl : X.held (y.locks l) = false) (hm : X.held m = true)
    (hlocks : y'.locks = Function.update y.locks l m)
    (hthreads : y'.threads = Function.update y.threads t (.inside l rest k)) : y'.Exclusive X := by
  have hfree : ∀ t, ¬y.Inside t l := fun t ht => by
    rw [(h.held l).mpr ⟨t, ht⟩] at hl
    contradiction
  have hne : ∀ l', l' ≠ l → ∀ t', y'.Inside t' l' ↔ y.Inside t' l' := by
    intro l' hl' t'
    by_cases ht' : t' = t
    case neg => exact inside_of_ne hthreads ht'
    case pos =>
      subst ht'
      exact iff_of_false (fun hi => hl' ((inside_self hthreads).mp hi).symm) (ht l')
  constructor
  case held =>
    intro l'
    by_cases hl' : l' = l
    case pos =>
      subst hl'
      simp only [hlocks, Function.update_self, hm, true_iff]
      exact ⟨t, (inside_self hthreads).mpr rfl⟩
    case neg => simp only [hlocks, Function.update_of_ne hl', hne l' hl', h.held]
  case unique =>
    intro l' t₁ t₂ h₁ h₂
    by_cases hl' : l' = l
    case neg =>
      rw [hne l' hl'] at h₁ h₂
      exact h.unique l' t₁ t₂ h₁ h₂
    case pos =>
      subst hl'
      have hself : ∀ t', y'.Inside t' l' → t' = t := fun t' hi => by
        by_contra ht'
        exact hfree t' <| (inside_of_ne hthreads ht').mp hi
      rw [hself t₁ h₁, hself t₂ h₂]

theorem leave {m : μ} {k : κ} (h : y.Exclusive X) (ht : y.Inside t l) (hm : X.held m = false)
    (hlocks : y'.locks = Function.update y.locks l m)
    (hthreads : y'.threads = Function.update y.threads t (.outside k)) : y'.Exclusive X := by
  have hinside : ∀ t' l', y'.Inside t' l' ↔ t' ≠ t ∧ y.Inside t' l' := by
    intro t' l'
    by_cases ht' : t' = t
    case neg => simp only [inside_of_ne hthreads ht', ne_eq, ht', not_false_eq_true, true_and]
    case pos =>
      subst ht'
      exact iff_of_false (not_inside_self hthreads) fun hi => hi.1 rfl
  constructor
  case held =>
    intro l'
    by_cases hl' : l' = l
    case pos =>
      subst hl'
      simp only [hlocks, Function.update_self, hm, Bool.false_eq_true, false_iff]
      rintro ⟨t', hi⟩
      obtain ⟨hne, hi⟩ := (hinside t' l').mp hi
      exact hne <| h.unique l' t' t hi ht
    case neg =>
      simp only [hlocks, Function.update_of_ne hl', h.held]
      refine exists_congr fun t' => ?_
      rw [hinside]
      refine (and_iff_right_of_imp fun hi => ?_).symm
      rintro rfl
      -- A thread is in one critical section at a time.
      obtain ⟨_, _, h₁⟩ := ht
      obtain ⟨_, _, h₂⟩ := hi
      exact hl' (Thread.inside.inj (h₂.symm.trans h₁)).1
  case unique =>
    intro l' t₁ t₂ h₁ h₂
    exact h.unique l' t₁ t₂ ((hinside t₁ l').mp h₁).2 ((hinside t₂ l').mp h₂).2

theorem step (h : y.Exclusive X) (hx : X.Lawful) (e : Effect X S y a y') : y'.Exclusive X := by
  cases e
  case moved ht _ =>
    exact h.congr rfl fun _ _ => inside_of_not _ rfl (fun _ => not_inside_of_outside ht) nofun
  case called ht _ =>
    exact h.congr rfl fun _ _ => inside_of_not _ rfl (fun _ => not_inside_of_outside ht) nofun
  case failed ht _ _ =>
    exact h.congr rfl fun _ _ => inside_of_not _ rfl (fun _ => not_inside_of_waiting ht) nofun
  case entered ht _ hl hm => exact h.enter (fun _ => not_inside_of_waiting ht) hl hm rfl rfl
  case done ht _ => exact h.congr rfl fun _ _ => inside_of_inside rfl ⟨_, _, ht⟩
  case left ht => exact h.leave ⟨_, _, ht⟩ (hx.release _) rfl rfl

end Exclusive

variable {ok : Interleaved L D τ κ ε μ ω → InterleavedAction τ κ → Prop}

theorem exclusive (hx : X.Lawful) (h : (interleaved X S).Reachable ok y) : y.Exclusive X := by
  refine h.induction (fun y hy => ?_) fun y a y' _ hy _ e => hy.step hx (effect hx e)
  obtain ⟨hlocks, locals, _, hthreads⟩ := hy
  have hout : ∀ t l, ¬y.Inside t l := fun t l =>
    not_inside_of_outside (congrFun hthreads t)
  refine ⟨fun l => ?_, fun l t _ ht => absurd ht (hout t l)⟩
  simp only [hlocks l, Bool.false_eq_true, false_iff, not_exists]
  exact fun t => hout t l

-- What is left when the critical sections are completed that threads are in: their effect on the data
-- of the lock, and on the variables of the thread.
structure Completes (y : Interleaved L D τ κ ε μ ω) (z : Atomic L D τ κ) : Prop where
  free    : ∀ l, (∀ t, ¬y.Inside t l) → z.data l = y.data l
  outside : ∀ t k, y.threads t = .outside k → z.locals t = k
  waiting : ∀ t k w, y.threads t = .waiting k w → z.locals t = k
  inside  : ∀ t l rest k, y.threads t = .inside l rest k →
            Statement.run rest (y.data l) k = .ok (z.data l, z.locals t)

namespace Completes

variable {z z' : Atomic L D τ κ} {k k₀ : κ} {w : ω} {m : μ} {d : D l} {rest : List (Statement (D l) κ ε)}

-- The other threads, and their locks, do not notice.
omit [DecidableEq L] in
theorem update (thread : Thread L D κ ε ω) (h : y.Completes z)
    (hthreads : y'.threads = Function.update y.threads t thread)
    (hlocals : ∀ t', t' ≠ t → z'.locals t' = z.locals t')
    (hdata : ∀ t' l', t' ≠ t → y.Inside t' l' → y'.data l' = y.data l' ∧ z'.data l' = z.data l')
    (free : ∀ l, (∀ t, ¬y'.Inside t l) → z'.data l = y'.data l)
    (outside : ∀ k, thread = .outside k → z'.locals t = k)
    (waiting : ∀ k w, thread = .waiting k w → z'.locals t = k)
    (inside : ∀ l rest k, thread = .inside l rest k →
      Statement.run rest (y'.data l) k = .ok (z'.data l, z'.locals t)) : y'.Completes z' := by
  have hne : ∀ t', t' ≠ t → y'.threads t' = y.threads t' := fun t' ht' => by
    rw [hthreads, Function.update_of_ne ht']
  have hself : y'.threads t = thread := by rw [hthreads, Function.update_self]
  refine ⟨free, fun t' k hk => ?_, fun t' k w hk => ?_, fun t' l rest k hk => ?_⟩
  case refine_1 =>
    by_cases ht' : t' = t
    case pos =>
      subst ht'
      exact outside k (hself.symm.trans hk)
    case neg => exact (hlocals t' ht').trans <| h.outside t' k (hne t' ht' ▸ hk)
  case refine_2 =>
    by_cases ht' : t' = t
    case pos =>
      subst ht'
      exact waiting k w (hself.symm.trans hk)
    case neg => exact (hlocals t' ht').trans <| h.waiting t' k w (hne t' ht' ▸ hk)
  case refine_3 =>
    by_cases ht' : t' = t
    case pos =>
      subst ht'
      exact inside l rest k (hself.symm.trans hk)
    case neg =>
      rw [hne t' ht'] at hk
      obtain ⟨hy, hz⟩ := hdata t' l ht' ⟨rest, k, hk⟩
      rw [hy, hz, hlocals t' ht', h.inside t' l rest k hk]

omit [DecidableEq L] in
theorem moved (h : y.Completes z) (ht : y.threads t = .outside k₀) :
    (y.setThread t (.outside k)).Completes { z with locals := Function.update z.locals t k } := by
  refine h.update (.outside k) rfl (fun t' ht' => Function.update_of_ne ht' ..) (fun _ _ _ _ => ⟨rfl, rfl⟩)
    (fun l hl => h.free l fun t' hi => hl t' ?_) (fun k' hk' => ?_) nofun nofun
  case refine_1 =>
    exact (inside_of_not (.outside k) rfl (fun _ => not_inside_of_outside ht) nofun).mpr hi
  case refine_2 => exact (Function.update_self ..).trans (Thread.outside.inj hk')

omit [DecidableEq L] in
theorem waits (h : y.Completes z) (hk : z.locals t = k) (hn : ∀ l, ¬y.Inside t l) :
    (y.setThread t (.waiting k w)).Completes z :=
  h.update (.waiting k w) rfl (fun _ _ => rfl) (fun _ _ _ _ => ⟨rfl, rfl⟩)
    (fun l hl => h.free l fun t' hi => hl t' <| (inside_of_not (.waiting k w) rfl hn nofun).mpr hi) nofun
    (fun _ _ hk' => hk.trans (Thread.waiting.inj hk').1) nofun

-- The whole critical section takes place when the lock is taken.
theorem entered {k' : κ} (h : y.Completes z) (hn : ∀ l, ¬y.Inside t l) (hl : ∀ t, ¬y.Inside t l)
    (hrun : Statement.run rest (z.data l) k = .ok (d, k')) :
    { y.setThread t (.inside l rest k) with locks := Function.update y.locks l m }.Completes
      ⟨Function.update z.data l d, Function.update z.locals t k'⟩ := by
  refine h.update (.inside l rest k) rfl (fun t' ht' => Function.update_of_ne ht' ..)
    (fun t' l' _ hi => ⟨rfl, ?_⟩)
    (fun l' hl' => ?_) nofun nofun (fun l' rest' k₀ he => ?_)
  case refine_1 =>
    refine Function.update_of_ne ?_ ..
    rintro rfl
    exact hl t' hi
  case refine_2 =>
    have hne : l' ≠ l := by
      rintro rfl
      exact hl' t <| (inside_self rfl).mpr rfl
    refine (Function.update_of_ne hne ..).trans <| h.free l' fun t' hi => hl' t' ?_
    refine (inside_of_ne rfl ?_).mpr hi
    rintro rfl
    exact hn l' hi
  case refine_3 =>
    obtain ⟨rfl, hrest, rfl⟩ := Thread.inside.inj he
    obtain rfl := eq_of_heq hrest
    simp only [Function.update_self, setThread, ← h.free l hl, hrun]

theorem done {s : Statement (D l) κ ε} {k' : κ} (h : y.Completes z) (hy : y.Exclusive X)
    (ht : y.threads t = .inside l (s :: rest) k) (hs : s (y.data l) k = .ok (d, k')) :
    { y.setThread t (.inside l rest k') with data := Function.update y.data l d }.Completes z := by
  have hi : y.Inside t l := ⟨_, _, ht⟩
  obtain ⟨d', k₁, hs', hrun⟩ := Statement.run_cons_eq_ok (h.inside t l _ k ht)
  obtain ⟨rfl, rfl⟩ := Prod.mk.inj <| Except.ok.inj <| hs.symm.trans hs'
  refine h.update (.inside l rest k') rfl (fun _ _ => rfl) (fun t' l' ht' hi' => ⟨?_, rfl⟩)
    (fun l' hl' => ?_) nofun nofun (fun l' rest' k₀ he => ?_)
  case refine_1 =>
    refine Function.update_of_ne ?_ ..
    rintro rfl
    exact ht' <| hy.unique l' t' t hi' hi
  case refine_2 =>
    have hne : l' ≠ l := by
      rintro rfl
      exact hl' t <| (inside_self rfl).mpr rfl
    refine (h.free l' fun t' hi' => hl' t' ?_).trans (Function.update_of_ne hne ..).symm
    exact (inside_of_inside rfl hi).mpr hi'
  case refine_3 =>
    obtain ⟨rfl, hrest, rfl⟩ := Thread.inside.inj he
    obtain rfl := eq_of_heq hrest
    simp only [Function.update_self, hrun]

theorem left (h : y.Completes z) (ht : y.threads t = .inside l [] k) :
    { y.setThread t (.outside k) with locks := Function.update y.locks l m }.Completes z := by
  obtain ⟨hd, hk⟩ := Prod.mk.inj <| Except.ok.inj <| h.inside t l _ k ht
  refine h.update (.outside k) rfl (fun _ _ => rfl) (fun _ _ _ _ => ⟨rfl, rfl⟩) (fun l' hl' => ?_)
    (fun k' hk' => hk.symm.trans (Thread.outside.inj hk')) nofun nofun
  by_cases hne : l' = l
  case pos => exact hne ▸ hd.symm
  case neg =>
    refine h.free l' fun t' hi => ?_
    by_cases ht' : t' = t
    case neg => exact hl' t' <| (inside_of_ne rfl ht').mpr hi
    case pos =>
      subst ht'
      obtain ⟨_, _, hi⟩ := hi
      exact hne (Thread.inside.inj (hi.symm.trans ht)).1

-- A statement of the critical section that a thread is in does not fail.
theorem not_error (h : y.Completes z) (hg : y.Guard S a) (f : ε) : y.exec X S a ≠ .error f := by
  cases a
  case move => nofun
  case lock t =>
    rw [exec]
    split
    case h_1 => split <;> nofun
    case h_2 => nofun
  case attempt t =>
    rw [exec]
    split
    case h_1 =>
      split
      case h_1 => split <;> nofun
      case h_2 => nofun
    case h_2 => nofun
  case unlock t =>
    rw [exec]
    split <;> nofun
  case statement t =>
    rw [Guard] at hg
    split at hg
    case h_2 => contradiction
    case h_1 l s rest k hk =>
      obtain ⟨d, k', hs, _⟩ := Statement.run_cons_eq_ok (h.inside t l _ k hk)
      simp only [exec, hk, hs]
      nofun

variable {P : Atomic L D τ κ → Prop}

theorem step (hs : (atomic S).Safe (fun _ _ => True) P) (hz : P z) (hy : y.Exclusive X)
    (h : y.Completes z) (e : Effect X S y a y') :
    ∃ z', (z' = z ∨ ∃ b, (atomic S).Step z b z') ∧ y'.Completes z' := by
  cases e
  case moved t k₀ k ht hm =>
    refine ⟨_, .inr ⟨.move t k, ?_, rfl⟩, h.moved ht⟩
    change S.Moves (z.locals t) k
    rwa [h.outside t k₀ ht]
  case called t k l body ht _ =>
    exact ⟨z, .inl rfl, h.waits (h.outside t k ht) fun _ => not_inside_of_outside ht⟩
  case failed t k w l body w' ht _ _ =>
    exact ⟨z, .inl rfl, h.waits (h.waiting t k w ht) fun _ => not_inside_of_waiting ht⟩
  case entered t k w l body m ht hn hl _ =>
    have hk := h.waiting t k w ht
    have hg : (atomic S).Guard z (.section t) := by
      change (S.next (z.locals t)).isSome = true
      rw [hk, hn]
      rfl
    obtain ⟨z', he, _⟩ := hs.step z (.section t) hz hg trivial
    have hexec : z.exec S (.section t) = .ok z' := he
    simp only [Atomic.exec, hk, hn] at hexec
    cases hrun : Statement.run body (z.data l) k
    case error => simp [hrun, bind, Except.bind] at hexec
    case ok r =>
      obtain ⟨d, k'⟩ := r
      rw [hrun] at hexec
      obtain rfl := Except.ok.inj hexec
      have hfree : ∀ t, ¬y.Inside t l := fun t' hi => by
        rw [(hy.held l).mpr ⟨t', hi⟩] at hl
        contradiction
      exact ⟨_, .inr ⟨_, hg, he⟩, h.entered (fun _ => not_inside_of_waiting ht) hfree hrun⟩
  case done ht hs => exact ⟨z, .inl rfl, h.done hy ht hs⟩
  case left ht    => exact ⟨z, .inl rfl, h.left ht⟩

end Completes

variable {P : Atomic L D τ κ → Prop}

-- Critical sections whose statements are interleaved are as good as critical sections that take a
-- single step.
theorem completes (hx : X.Lawful) (hs : (atomic S).Safe (fun _ _ => True) P)
    (h : (interleaved X S).Reachable ok y) :
    ∃ z, (atomic S).Reachable (fun _ _ => True) z ∧ y.Completes z := by
  refine h.induction
    (P := fun y => ∃ z, (atomic S).Reachable (fun _ _ => True) z ∧ y.Completes z)
    (fun y hy => ?_) fun y a y' hr hy _ e => ?_
  · obtain ⟨_, locals, hi, hthreads⟩ := hy
    refine ⟨⟨y.data, locals⟩, ⟨⟨y.data, locals⟩, [], hi, .refl⟩, fun _ _ => rfl, fun t k hk => ?_, fun t k w hk => ?_,
      fun t l rest k hk => ?_⟩
    · exact Thread.outside.inj <| (congrFun hthreads t).symm.trans hk
    · exact nomatch (congrFun hthreads t).symm.trans hk
    · exact nomatch (congrFun hthreads t).symm.trans hk
  · obtain ⟨z, hz, hc⟩ := hy
    obtain ⟨z', hstep, hc'⟩ := hc.step hs (hs.reachable hz) (exclusive hx hr) (effect hx e)
    obtain rfl | ⟨b, hb⟩ := hstep
    · exact ⟨_, hz, hc'⟩
    · exact ⟨z', hz.step trivial hb, hc'⟩

-- Whoever waits, waits for a critical section.
theorem waiting_next (hx : X.Lawful) (h : (interleaved X S).Reachable ok y) {k : κ} {w : ω}
    (ht : y.threads t = .waiting k w) : (S.next k).isSome = true := by
  suffices hall : ∀ t k w, y.threads t = .waiting k w → (S.next k).isSome = true from hall t k w ht
  clear ht
  have hset : ∀ (y y' : Interleaved L D τ κ ε μ ω) (t : τ) (thread : Thread L D κ ε ω),
      y'.threads = Function.update y.threads t thread →
      (∀ k w, thread = .waiting k w → (S.next k).isSome = true) →
      (∀ t k w, y.threads t = .waiting k w → (S.next k).isSome = true) →
      ∀ t k w, y'.threads t = .waiting k w → (S.next k).isSome = true := by
    intro y y' t thread hthreads hthread hy t' k w ht'
    rw [hthreads] at ht'
    by_cases he : t' = t
    case neg => exact hy t' k w <| (Function.update_of_ne he ..).symm.trans ht'
    case pos =>
      rw [he, Function.update_self] at ht'
      exact hthread k w ht'
  refine h.induction (P := fun y => ∀ t k w, y.threads t = .waiting k w → (S.next k).isSome = true)
    (fun y hy t k w ht => ?_) fun y a y' _ hy _ e => ?_
  · obtain ⟨_, locals, _, hthreads⟩ := hy
    exact nomatch (congrFun hthreads t).symm.trans ht
  · replace e := effect hx e
    cases e
    case moved   => exact hset y _ _ _ rfl nofun hy
    case called hn _ =>
      refine hset y _ _ _ rfl (fun k' w' he => ?_) hy
      obtain ⟨rfl, _⟩ := Thread.waiting.inj he
      rw [hn]
      rfl
    case failed hn _ _ =>
      refine hset y _ _ _ rfl (fun k' w' he => ?_) hy
      obtain ⟨rfl, _⟩ := Thread.waiting.inj he
      rw [hn]
      rfl
    case entered => exact hset y _ _ _ rfl nofun hy
    case done    => exact hset y _ _ _ rfl nofun hy
    case left    => exact hset y _ _ _ rfl nofun hy

section Step

variable {k k' : κ} {w : ω} {m : μ} {d : D l} {st : Statement (D l) κ ε} {rest : List (Statement (D l) κ ε)}

theorem step_statement (ht : y.threads t = .inside l (st :: rest) k) (hs : st (y.data l) k = .ok (d, k')) :
    (interleaved X S).Step y (.statement t)
      { y.setThread t (.inside l rest k') with data := Function.update y.data l d } := by
  refine ⟨?_, ?_⟩
  · change y.Guard S (.statement t)
    simp only [Guard, ht]
  · change y.exec X S (.statement t) = _
    simp only [exec, ht, hs]
    rfl

theorem step_unlock (ht : y.threads t = .inside l [] k) :
    (interleaved X S).Step y (.unlock t)
      { y.setThread t (.outside k) with
        locks := Function.update y.locks l (X.release (y.locks l)) } := by
  refine ⟨?_, ?_⟩
  · change y.Guard S (.unlock t)
    simp only [Guard, ht]
  · change y.exec X S (.unlock t) = _
    simp only [exec, ht]
    rfl

theorem step_attempt (ht : y.threads t = .waiting k w) (hn : S.next k = some ⟨l, rest⟩)
    (hm : X.attempt (y.locks l) w = (none, m)) :
    (interleaved X S).Step y (.attempt t)
      { y.setThread t (.inside l rest k) with locks := Function.update y.locks l m } := by
  refine ⟨?_, ?_⟩
  · change y.Guard S (.attempt t)
    simp only [Guard, ht, hn, Option.isSome_some]
  · change y.exec X S (.attempt t) = _
    simp only [exec, ht, hn, hm]
    rfl

end Step

-- A thread in a critical section gets out of it on its own.
theorem Completes.releases {z : Atomic L D τ κ} {rest : List (Statement (D l) κ ε)} {k : κ}
    (hx : X.Lawful) (hy : y.Exclusive X) (hc : y.Completes z) (ht : y.threads t = .inside l rest k) :
    ∃ y', (interleaved X S).Run (fun _ _ => True) y
        (.replicate rest.length (.statement t) ++ [.unlock t]) y' ∧
      X.held (y'.locks l) = false ∧ (∃ k, y'.threads t = .outside k) ∧
      ∀ t', t' ≠ t → y'.threads t' = y.threads t' := by
  induction rest generalizing y k
  case nil =>
    refine ⟨_, .step ⟨trivial, step_unlock ht⟩ .refl, ?_, ⟨_, Function.update_self ..⟩,
      fun t' ht' => Function.update_of_ne ht' ..⟩
    simp only [Function.update_self, hx.release]
  case cons s rest ih =>
    obtain ⟨d, k', hs, _⟩ := Statement.run_cons_eq_ok (hc.inside t l _ k ht)
    have hstep := step_statement (X := X) (S := S) ht hs
    obtain ⟨y', hrun, hfree, hout, hothers⟩ :=
      ih (hy.step hx <| effect hx hstep) (hc.done hy ht hs) (Function.update_self ..)
    refine ⟨y', .step ⟨trivial, hstep⟩ hrun, hfree, hout, fun t' ht' => ?_⟩
    exact (hothers t' ht').trans <| Function.update_of_ne ht' ..

-- Whoever waits for a lock gets it, once the thread has gone on that holds it.
theorem enters {P : Atomic L D τ κ → Prop} {k : κ} {w : ω} {body : List (Statement (D l) κ ε)}
    (hx : X.Lawful) (hs : (atomic S).Safe (fun _ _ => True) P)
    (h : (interleaved X S).Reachable ok y) (ht : y.threads t = .waiting k w)
    (hn : S.next k = some ⟨l, body⟩) :
    ∃ as y', (interleaved X S).Run (fun _ _ => True) y (as ++ [.attempt t]) y' ∧
      y'.threads t = .inside l body k ∧
      ∀ a ∈ as, ∃ t', y.Inside t' l ∧ (a = .statement t' ∨ a = .unlock t') := by
  obtain ⟨z, _, hc⟩ := completes hx hs h
  have hy := exclusive hx h
  cases hl : X.held (y.locks l)
  case false =>
    obtain ⟨m, hm, _⟩ := hx.attempt_free _ w hl
    exact ⟨[], _, .step ⟨trivial, step_attempt ht hn hm⟩ .refl, Function.update_self .., by simp⟩
  case true =>
    obtain ⟨t', hi⟩ := (hy.held l).mp hl
    obtain ⟨rest, k', ht'⟩ := id hi
    have hne : t ≠ t' := by
      rintro rfl
      exact not_inside_of_waiting ht hi
    obtain ⟨y₁, hrun, hfree, _, hothers⟩ := hc.releases (S := S) hx hy ht'
    obtain ⟨m, hm, _⟩ := hx.attempt_free _ w hfree
    have hstep := step_attempt (X := X) ((hothers t hne).trans ht) hn hm
    refine ⟨_, _, hrun.trans (.step ⟨trivial, hstep⟩ .refl), Function.update_self .., fun a ha => ?_⟩
    refine ⟨t', hi, ?_⟩
    cases List.mem_append.mp ha
    case inl ha => exact .inl (List.eq_of_mem_replicate ha)
    case inr ha => exact .inr (List.mem_singleton.mp ha)

-- It gets through its critical section as well.
theorem leaves {P : Atomic L D τ κ → Prop} {k : κ} {w : ω} (hx : X.Lawful)
    (hs : (atomic S).Safe (fun _ _ => True) P) (h : (interleaved X S).Reachable ok y)
    (ht : y.threads t = .waiting k w) :
    ∃ l body as y' k', S.next k = some ⟨l, body⟩ ∧
      (interleaved X S).Run (fun _ _ => True) y
        (as ++ .attempt t :: (.replicate body.length (.statement t) ++ [.unlock t])) y' ∧
      y'.threads t = .outside k' ∧ X.held (y'.locks l) = false ∧
      ∀ a ∈ as, ∃ t', y.Inside t' l ∧ (a = .statement t' ∨ a = .unlock t') := by
  obtain ⟨⟨l, body⟩, hn⟩ := Option.isSome_iff_exists.mp <| waiting_next hx h ht
  obtain ⟨as, y₁, hrun, ht₁, has⟩ := enters hx hs h ht hn
  have hall : (interleaved X S).Reachable (fun _ _ => True) y := h.mono fun _ _ _ => trivial
  obtain ⟨s₀, bs, hi, hr⟩ := hall
  have h₁ : (interleaved X S).Reachable (fun _ _ => True) y₁ := ⟨s₀, _, hi, hr.trans hrun⟩
  obtain ⟨z, _, hc⟩ := completes hx hs h₁
  obtain ⟨y₂, hrun₂, hfree, ⟨k', hk'⟩, _⟩ := hc.releases (S := S) hx (exclusive hx h₁) ht₁
  have hall := hrun.trans hrun₂
  rw [List.append_assoc, List.singleton_append] at hall
  exact ⟨l, body, as, y₂, k', hn, hall, hk', hfree, has⟩

end Interleaved
end
