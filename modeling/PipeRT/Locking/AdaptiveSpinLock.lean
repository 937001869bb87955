import PipeRT.Basic
import PipeRT.Critical

namespace PipeRT

structure AdaptiveSpinLock where
  mutex            : Bool
  spinsBeforeYield : Int32
  deriving DecidableEq, Repr

namespace AdaptiveSpinLock

def kSpinsBeforeYield : Int32 :=
  256

-- The constructor. What it looks at first, `spins_before_yield_`, has just been initialised with zero.
def new (hardwareConcurrency : Nat) (spinsBeforeYield : Int32) : AdaptiveSpinLock where
  mutex            := false
  spinsBeforeYield := if hardwareConcurrency = 1 then 1 else spinsBeforeYield

-- `mutex_.test_and_set`
def testAndSet (lock : AdaptiveSpinLock) : Bool × AdaptiveSpinLock :=
  (lock.mutex, { lock with mutex := true })

-- An iteration of the loop in `lock`. There is another one if there is another countdown.
def spin (lock : AdaptiveSpinLock) (countdown : Int32) : Option Int32 × AdaptiveSpinLock :=
  let (wasSet, lock) := lock.testAndSet
  if wasSet then
    let countdown := countdown - 1
    (some (if countdown = 0 then lock.spinsBeforeYield else countdown), lock)
  else
    (none, lock)

-- Whether the iteration calls `std::this_thread::yield`.
def yields (lock : AdaptiveSpinLock) (countdown : Int32) : Bool :=
  lock.mutex && decide (countdown - 1 = 0)

def tryLock (lock : AdaptiveSpinLock) : Bool × AdaptiveSpinLock :=
  let (wasSet, lock) := lock.testAndSet
  (!wasSet, lock)

def unlock (lock : AdaptiveSpinLock) : AdaptiveSpinLock :=
  { lock with mutex := false }

-- The lock of `std::lock_guard<AdaptiveSpinLock>`.
def guard : Mutex AdaptiveSpinLock Int32 where
  held         := mutex
  start lock   := lock.spinsBeforeYield
  attempt      := spin
  release      := unlock

theorem guard_lawful : guard.Lawful where
  attempt_held lock countdown h := by
    have hm : lock.mutex = true := h
    have hset : { lock with mutex := true } = lock := by rw [← hm]
    refine ⟨if countdown - 1 = 0 then lock.spinsBeforeYield else countdown - 1, ?_⟩
    simp only [guard, spin, testAndSet, hm, if_true, hset]
  attempt_free lock countdown h := by
    have hm : lock.mutex = false := h
    refine ⟨{ lock with mutex := true }, ?_, rfl⟩
    simp only [guard, spin, testAndSet, hm, Bool.false_eq_true, if_false]
  release _ := rfl

end AdaptiveSpinLock

-- How far a thread is with a lock. `failed` and `yielded` are not data of the program: they count the
-- iterations of the loop in `lock`, and the calls of `yield` among them.
inductive SpinThread where
  | idle
  | spinning (countdown : Int32) (failed yielded : Nat)
  | holding
  deriving DecidableEq, Repr

def SpinThread.isSpinning : SpinThread → Bool
  | spinning .. => true
  | _           => false

-- A lock, and the threads that use it.
structure Locking (τ : Type) where
  lock    : AdaptiveSpinLock
  threads : τ → SpinThread

inductive LockingAction (τ : Type) where
  | lock (t : τ)
  | spin (t : τ)
  | tryLock (t : τ)
  | unlock (t : τ)
  deriving DecidableEq, Repr

namespace Locking

variable {τ : Type}

-- A lock is unlocked by the thread that has locked it.
def Guard (y : Locking τ) : LockingAction τ → Prop
  | .lock t | .tryLock t => y.threads t = .idle
  | .spin t              => (y.threads t).isSpinning = true
  | .unlock t            => y.threads t = .holding

instance (y : Locking τ) (a : LockingAction τ) : Decidable (y.Guard a) :=
  match a with
  | .lock _ | .tryLock _ | .spin _ | .unlock _ => inferInstanceAs (Decidable (_ = _))

variable [DecidableEq τ]

def set (y : Locking τ) (lock : AdaptiveSpinLock) (t : τ) (thread : SpinThread) : Locking τ :=
  ⟨lock, Function.update y.threads t thread⟩

def exec (y : Locking τ) : LockingAction τ → Except Fault (Locking τ)
  | .lock t    => return y.set y.lock t (.spinning y.lock.spinsBeforeYield 0 0)
  | .spin t    =>
    match y.threads t with
    | .spinning countdown failed yielded =>
      let yielded := yielded + (y.lock.yields countdown).toNat
      match y.lock.spin countdown with
      | (some countdown, lock) => return y.set lock t (.spinning countdown (failed + 1) yielded)
      | (none, lock)           => return y.set lock t .holding
    | _                                  => return y
  | .tryLock t =>
    let (success, lock) := y.lock.tryLock
    return y.set lock t (if success then .holding else .idle)
  | .unlock t  => return y.set y.lock.unlock t .idle

end Locking

-- Any number of threads that share a lock.
def locking (τ : Type) [DecidableEq τ] (hardwareConcurrency : Nat) (spinsBeforeYield : Int32) :
    Machine (Locking τ) (LockingAction τ) Fault where
  Init y := y = ⟨.new hardwareConcurrency spinsBeforeYield, fun _ => .idle⟩
  Guard  := Locking.Guard
  exec   := Locking.exec

instance {τ : Type} [DecidableEq τ] {hardwareConcurrency : Nat} {spinsBeforeYield : Int32}
    (y : Locking τ) (a : LockingAction τ) :
    Decidable ((locking τ hardwareConcurrency spinsBeforeYield).Guard y a) :=
  inferInstanceAs (Decidable (y.Guard a))

namespace Locking

variable {τ : Type} [DecidableEq τ] {hardwareConcurrency : Nat} {spinsBeforeYield : Int32}
variable {ok : Locking τ → LockingAction τ → Prop} {y y' : Locking τ} {a : LockingAction τ}

-- What a step does.
inductive Effect (y : Locking τ) : LockingAction τ → Locking τ → Prop
  | called {t} : y.threads t = .idle →
    Effect y (.lock t) (y.set y.lock t (.spinning y.lock.spinsBeforeYield 0 0))
  | spun {t countdown failed yielded} : y.threads t = .spinning countdown failed yielded →
    y.lock.mutex = true →
    Effect y (.spin t) (y.set y.lock t <| .spinning
      (if countdown - 1 = 0 then y.lock.spinsBeforeYield else countdown - 1) (failed + 1)
      (yielded + (decide (countdown - 1 = 0)).toNat))
  | locked {t countdown failed yielded} : y.threads t = .spinning countdown failed yielded →
    y.lock.mutex = false → Effect y (.spin t) (y.set { y.lock with mutex := true } t .holding)
  | refused {t} : y.threads t = .idle → y.lock.mutex = true →
    Effect y (.tryLock t) (y.set y.lock t .idle)
  | tried {t} : y.threads t = .idle → y.lock.mutex = false →
    Effect y (.tryLock t) (y.set { y.lock with mutex := true } t .holding)
  | unlocked {t} : y.threads t = .holding →
    Effect y (.unlock t) (y.set { y.lock with mutex := false } t .idle)

theorem effect (e : (locking τ hardwareConcurrency spinsBeforeYield).Step y a y') : Effect y a y' := by
  have hg : y.Guard a := e.guard
  have he : y.exec a = .ok y' := e.exec
  have hset : y.lock.mutex = true → { y.lock with mutex := true } = y.lock := fun hm => by rw [← hm]
  cases a
  case lock t   => exact Except.ok.inj he ▸ .called hg
  case unlock t => exact Except.ok.inj he ▸ .unlocked hg
  case tryLock t =>
    cases hm : y.lock.mutex
    case true =>
      simp only [exec, AdaptiveSpinLock.tryLock, AdaptiveSpinLock.testAndSet, hm, Bool.not_true,
        Bool.false_eq_true, if_false, hset hm] at he
      exact Except.ok.inj he ▸ .refused hg hm
    case false =>
      simp only [exec, AdaptiveSpinLock.tryLock, AdaptiveSpinLock.testAndSet, hm, Bool.not_false,
        if_true] at he
      exact Except.ok.inj he ▸ .tried hg hm
  case spin t =>
    cases ht : y.threads t
    case idle | holding => simp [Guard, ht, SpinThread.isSpinning] at hg
    case spinning countdown failed yielded =>
      cases hm : y.lock.mutex
      case true =>
        simp only [exec, ht, AdaptiveSpinLock.spin, AdaptiveSpinLock.yields, AdaptiveSpinLock.testAndSet,
          hm, if_true, Bool.true_and, hset hm] at he
        exact Except.ok.inj he ▸ .spun ht hm
      case false =>
        simp only [exec, ht, AdaptiveSpinLock.spin, AdaptiveSpinLock.testAndSet, hm, Bool.false_eq_true,
          if_false] at he
        exact Except.ok.inj he ▸ .locked ht hm

variable {t t' : τ} {lock : AdaptiveSpinLock} {thread : SpinThread}

@[simp]
theorem set_lock : (y.set lock t thread).lock = lock :=
  rfl

theorem set_threads : (y.set lock t thread).threads = Function.update y.threads t thread :=
  rfl

-- The flag is set while a thread holds the lock. It never is more than one.
structure Exclusive (y : Locking τ) : Prop where
  flag   : y.lock.mutex = true ↔ ∃ t, y.threads t = .holding
  unique : ∀ t t', y.threads t = .holding → y.threads t' = .holding → t = t'

namespace Exclusive

-- A thread that neither gets the lock nor gives it back.
theorem same (h : y.Exclusive) (ht : y.threads t ≠ .holding) (hthread : thread ≠ .holding) :
    (y.set y.lock t thread).Exclusive := by
  have hholding : ∀ t', (y.set y.lock t thread).threads t' = .holding ↔ y.threads t' = .holding := by
    intro t'
    by_cases ht' : t' = t
    case neg => rw [set_threads, Function.update_of_ne ht']
    case pos =>
      subst ht'
      rw [set_threads, Function.update_self]
      exact iff_of_false hthread ht
  constructor
  case flag   => simp only [set_lock, hholding, h.flag]
  case unique => exact fun t₁ t₂ h₁ h₂ => h.unique t₁ t₂ ((hholding t₁).mp h₁) ((hholding t₂).mp h₂)

theorem acquired (h : y.Exclusive) (hm : y.lock.mutex = false) :
    (y.set { y.lock with mutex := true } t .holding).Exclusive := by
  have hself : ∀ t', (y.set { y.lock with mutex := true } t .holding).threads t' = .holding → t' = t := by
    intro t' h'
    by_contra ht'
    rw [set_threads, Function.update_of_ne ht'] at h'
    rw [h.flag.mpr ⟨t', h'⟩] at hm
    contradiction
  refine ⟨iff_of_true rfl ⟨t, ?_⟩, fun t₁ t₂ h₁ h₂ => (hself t₁ h₁).trans (hself t₂ h₂).symm⟩
  rw [set_threads, Function.update_self]

theorem released (h : y.Exclusive) (ht : y.threads t = .holding) :
    (y.set { y.lock with mutex := false } t .idle).Exclusive := by
  have hnone : ∀ t', (y.set { y.lock with mutex := false } t .idle).threads t' ≠ .holding := by
    intro t' h'
    by_cases ht' : t' = t
    case pos =>
      rw [set_threads, ht', Function.update_self] at h'
      contradiction
    case neg =>
      rw [set_threads, Function.update_of_ne ht'] at h'
      exact ht' (h.unique t' t h' ht)
  refine ⟨iff_of_false nofun ?_, fun t₁ _ h₁ => absurd h₁ (hnone t₁)⟩
  rintro ⟨t', h'⟩
  exact hnone t' h'

theorem step (h : y.Exclusive) (e : Effect y a y') : y'.Exclusive := by
  cases e
  case called ht    => exact h.same (by rw [ht]; nofun) nofun
  case spun ht _    => exact h.same (by rw [ht]; nofun) nofun
  case refused ht _ => exact h.same (by rw [ht]; nofun) nofun
  case locked hm    => exact h.acquired hm
  case tried hm     => exact h.acquired hm
  case unlocked ht  => exact h.released ht

omit [DecidableEq τ] in
theorem flag_eq_false (h : y.Exclusive) : y.lock.mutex = false ↔ ∀ t, y.threads t ≠ .holding := by
  rw [← Bool.not_eq_true, h.flag, not_exists]

end Exclusive

theorem exclusive (h : (locking τ hardwareConcurrency spinsBeforeYield).Reachable ok y) : y.Exclusive := by
  refine h.induction (fun y hy => ?_) fun y _ _ _ hy _ e => hy.step (effect e)
  obtain rfl := hy
  exact ⟨iff_of_false nofun nofun, nofun⟩

-- The countdown of a thread that waits, and how often it has given back its timeslice.
def Counts (spinsBeforeYield : Int32) (countdown : Int32) (failed yielded : Nat) : Prop :=
  (0 < spinsBeforeYield.toInt →
    countdown.toInt = spinsBeforeYield.toInt - (failed : Int) % spinsBeforeYield.toInt ∧
    (yielded : Int) = (failed : Int) / spinsBeforeYield.toInt) ∧
  (spinsBeforeYield.toInt ≤ 0 → (failed : Int) ≤ 2 ^ 31 + spinsBeforeYield.toInt →
    countdown.toInt = spinsBeforeYield.toInt - failed ∧ yielded = 0)

namespace Counts

variable {countdown : Int32} {failed yielded : Nat}

theorem init : Counts spinsBeforeYield spinsBeforeYield 0 0 := by
  constructor <;> simp

theorem toInt_sub_one (h : -2 ^ 31 < countdown.toInt) : (countdown - 1).toInt = countdown.toInt - 1 := by
  have hmax := countdown.toInt_lt
  rw [Int32.toInt_sub]
  exact Int.bmod_eq_of_le_mul_two (by simp; omega) (by simp; omega)

theorem eq_zero_iff : countdown = 0 ↔ countdown.toInt = 0 :=
  Int32.toInt_inj.symm

theorem spun (h : Counts spinsBeforeYield countdown failed yielded) :
    Counts spinsBeforeYield (if countdown - 1 = 0 then spinsBeforeYield else countdown - 1) (failed + 1)
      (yielded + (decide (countdown - 1 = 0)).toNat) := by
  constructor
  case left =>
    intro hpos
    obtain ⟨hc, hn⟩ := h.1 hpos
    have hnonneg := Int.emod_nonneg failed hpos.ne'
    have hlt := Int.emod_lt_of_pos (failed : Int) hpos
    have hsub : (countdown - 1).toInt = countdown.toInt - 1 := toInt_sub_one (by omega)
    have hdiv := Int.emod_add_mul_ediv failed spinsBeforeYield.toInt
    by_cases hz : countdown - 1 = 0
    case pos =>
      -- The last iteration before the countdown starts anew.
      rw [eq_zero_iff, hsub, hc] at hz
      have hnext : ((failed : Int) + 1) / spinsBeforeYield.toInt = failed / spinsBeforeYield.toInt + 1 ∧
          ((failed : Int) + 1) % spinsBeforeYield.toInt = 0 := by
        rw [Int.ediv_emod_unique hpos, mul_add, mul_one]
        omega
      have hz' : countdown - 1 = 0 := by rw [eq_zero_iff, hsub, hc, hz]
      push_cast
      simp [hz', hnext, hn]
    case neg =>
      have hz' : countdown.toInt - 1 ≠ 0 := by rwa [eq_zero_iff, hsub] at hz
      have hnext : ((failed : Int) + 1) / spinsBeforeYield.toInt = failed / spinsBeforeYield.toInt ∧
          ((failed : Int) + 1) % spinsBeforeYield.toInt = failed % spinsBeforeYield.toInt + 1 := by
        rw [Int.ediv_emod_unique hpos]
        omega
      push_cast
      simp only [hz, if_false, decide_false, Bool.toNat_false, Nat.cast_zero, add_zero, hnext, hsub, hc, hn,
        and_true]
      ring
  case right =>
    intro hneg hle
    push_cast at hle
    obtain ⟨hc, hn⟩ := h.2 hneg (by omega)
    have hsub : (countdown - 1).toInt = countdown.toInt - 1 := toInt_sub_one (by omega)
    have hz : countdown - 1 ≠ 0 := by
      rw [ne_eq, eq_zero_iff, hsub]
      omega
    push_cast
    simp only [hz, if_false, decide_false, Bool.toNat_false, hn, and_true, hsub, hc]
    ring

end Counts

theorem counts (h : (locking τ hardwareConcurrency spinsBeforeYield).Reachable ok y) :
    y.lock.spinsBeforeYield = (AdaptiveSpinLock.new hardwareConcurrency spinsBeforeYield).spinsBeforeYield ∧
    ∀ t countdown failed yielded, y.threads t = .spinning countdown failed yielded →
      Counts y.lock.spinsBeforeYield countdown failed yielded := by
  refine h.induction (P := fun y => y.lock.spinsBeforeYield = _ ∧ ∀ t countdown failed yielded,
    y.threads t = .spinning countdown failed yielded →
      Counts y.lock.spinsBeforeYield countdown failed yielded) (fun y hy => ?_) fun y a y' _ hy _ e => ?_
  · obtain rfl := hy
    exact ⟨rfl, nofun⟩
  · have hset : ∀ (lock : AdaptiveSpinLock) (t : τ) (thread : SpinThread),
        lock.spinsBeforeYield = y.lock.spinsBeforeYield →
        (∀ countdown failed yielded, thread = .spinning countdown failed yielded →
          Counts lock.spinsBeforeYield countdown failed yielded) →
        ∀ t' countdown failed yielded, (y.set lock t thread).threads t' = .spinning countdown failed yielded →
          Counts lock.spinsBeforeYield countdown failed yielded := by
      intro lock t thread hlock hthread t' countdown failed yielded ht'
      rw [set_threads] at ht'
      by_cases he : t' = t
      case pos =>
        rw [he, Function.update_self] at ht'
        exact hthread countdown failed yielded ht'
      case neg =>
        rw [Function.update_of_ne he] at ht'
        exact hlock ▸ hy.2 t' countdown failed yielded ht'
    replace e := effect e
    cases e
    case called =>
      refine ⟨hy.1, hset _ _ _ rfl fun countdown failed yielded he => ?_⟩
      obtain ⟨rfl, rfl, rfl⟩ := SpinThread.spinning.inj he
      exact .init
    case spun ht _ _ =>
      refine ⟨hy.1, hset _ _ _ rfl fun countdown failed yielded he => ?_⟩
      obtain ⟨rfl, rfl, rfl⟩ := SpinThread.spinning.inj he
      exact (hy.2 _ _ _ _ ht).spun
    case locked   => exact ⟨hy.1, hset _ _ _ rfl nofun⟩
    case refused  => exact ⟨hy.1, hset _ _ _ rfl nofun⟩
    case tried    => exact ⟨hy.1, hset _ _ _ rfl nofun⟩
    case unlocked => exact ⟨hy.1, hset _ _ _ rfl nofun⟩

end Locking

-- The lock is held by one thread at most, and both `lock` and `try_lock` get it exactly if nobody
-- holds it.
theorem spin_lock_excludes {τ : Type} [DecidableEq τ] {hardwareConcurrency : Nat} {spinsBeforeYield : Int32}
    {ok : Locking τ → LockingAction τ → Prop} {y : Locking τ}
    (h : (locking τ hardwareConcurrency spinsBeforeYield).Reachable ok y) :
    (y.lock.mutex = true ↔ ∃ t, y.threads t = .holding) ∧
    (∀ t t', y.threads t = .holding → y.threads t' = .holding → t = t') ∧
    ∀ t a y', a = .spin t ∨ a = .tryLock t →
      (locking τ hardwareConcurrency spinsBeforeYield).Step y a y' →
      (y'.threads t = .holding ↔ ∀ t', y.threads t' ≠ .holding) := by
  have hy := Locking.exclusive h
  refine ⟨hy.flag, hy.unique, fun t a y' ha e => ?_⟩
  rw [← hy.flag_eq_false]
  replace e := Locking.effect e
  obtain rfl | rfl := ha
  case inl =>
    cases e
    case spun hm _   => simp [Locking.set_threads, hm]
    case locked hm _ => simp [Locking.set_threads, hm]
  case inr =>
    cases e
    case refused hm _ => simp [Locking.set_threads, hm]
    case tried hm _   => simp [Locking.set_threads, hm]

-- A thread tries while another one is in its critical section, and gets the lock after it.
def contended : List (LockingAction (Fin 3)) :=
  [.lock 0, .spin 0, .lock 1, .spin 1, .spin 1, .tryLock 2, .unlock 0, .spin 1]

theorem spin_lock_excludes_contended :
    ∃ y, (locking (Fin 3) 4 2).Reachable (fun _ _ => True) y ∧ y.threads 1 = .holding ∧
      y.lock.mutex = true ∧ ∀ t, y.threads t = .holding → t = 1 := by
  obtain ⟨y, hr, hy⟩ := Machine.exists_reachable_of_replay (M := locking (Fin 3) 4 2) (fun _ _ => True)
    contended (P := fun y => y.threads 1 = .holding) rfl (by decide)
  have h := spin_lock_excludes hr
  exact ⟨y, hr, hy, h.1.mpr ⟨1, hy⟩, fun t ht => h.2.1 t 1 ht hy⟩

-- In a call of `lock`, the timeslice is given back after every `spins_before_yield_` iterations. With
-- a number that is not positive it is not given back, for as long as the countdown has a meaning.
theorem spin_lock_yields {τ : Type} [DecidableEq τ] {hardwareConcurrency : Nat} {spinsBeforeYield : Int32}
    {ok : Locking τ → LockingAction τ → Prop} {y : Locking τ} {t : τ} {countdown : Int32}
    {failed yielded : Nat} (h : (locking τ hardwareConcurrency spinsBeforeYield).Reachable ok y)
    (ht : y.threads t = .spinning countdown failed yielded) :
    (hardwareConcurrency = 1 → yielded = failed) ∧
    (hardwareConcurrency ≠ 1 → 0 < spinsBeforeYield.toInt →
      (yielded : Int) = failed / spinsBeforeYield.toInt ∧
      0 < countdown.toInt ∧ countdown.toInt ≤ spinsBeforeYield.toInt) ∧
    (hardwareConcurrency ≠ 1 → spinsBeforeYield.toInt ≤ 0 →
      (failed : Int) ≤ 2 ^ 31 + spinsBeforeYield.toInt → yielded = 0) := by
  obtain ⟨hspins, hcounts⟩ := Locking.counts h
  obtain ⟨hpos, hneg⟩ := hcounts t countdown failed yielded ht
  rw [hspins, AdaptiveSpinLock.new] at hpos hneg
  refine ⟨fun hn => ?_, fun hn hs => ?_, fun hn hs hf => ?_⟩
  case refine_1 =>
    have hone : (1 : Int32).toInt = 1 := rfl
    have := (hpos (by simp [hn, hone])).2
    simpa [hn, hone] using this
  case refine_2 =>
    simp only [hn, if_false] at hpos
    obtain ⟨hc, hy⟩ := hpos hs
    have hnonneg := Int.emod_nonneg failed hs.ne'
    have hlt := Int.emod_lt_of_pos (failed : Int) hs
    exact ⟨hy, by omega, by omega⟩
  case refine_3 =>
    simp only [hn, if_false] at hneg
    exact (hneg hs hf).2

-- A thread has been at it for five iterations, and has given back its timeslice twice.
theorem spin_lock_yields_waiting :
    ∃ y, (locking (Fin 3) 4 2).Reachable (fun _ _ => True) y ∧ y.threads 1 = .spinning 1 5 2 ∧
      ((2 : Nat) : Int) = (5 : Nat) / (2 : Int32).toInt := by
  obtain ⟨y, hr, hy⟩ := Machine.exists_reachable_of_replay (M := locking (Fin 3) 4 2) (fun _ _ => True)
    ([.lock 0, .spin 0, .lock 1] ++ .replicate 5 (.spin 1))
    (P := fun y => y.threads 1 = .spinning 1 5 2) rfl (by decide)
  exact ⟨y, hr, hy, ((spin_lock_yields hr hy).2.1 (by decide) (by decide)).1⟩

end PipeRT
