import Mathlib.Logic.Function.Basic

/-!
# Threads and locks

Each thread of a program is at a point of its code, and the point says which locks the
thread holds and which one it waits for.

* `Excl.update`: a lock is taken only while it is free, so at most one thread holds it.
* `deadlock_iff`: two threads block each other when there are waits nested in both orders.
* `Deadlock.stays`: no move of a thread ends a deadlock.
* `deadlock_or_ready`: with two locks, a thread that waits can go on, or a holder can,
  unless there is a deadlock.
-/

namespace CryptoMarket

variable {θ π μ : Type*} (holds waits : π → μ → Prop)

/-- No thread holds the lock. -/
def Free (pc : θ → π) (m : μ) : Prop := ∀ t, ¬ holds (pc t) m

/-- At most one thread holds each lock. -/
def Excl (pc : θ → π) : Prop := ∀ m t t', holds (pc t) m → holds (pc t') m → t = t'

/-- A thread that holds `m` waits for `m'`. -/
def Nested (pc : θ → π) (m m' : μ) : Prop := ∃ t, holds (pc t) m ∧ waits (pc t) m'

/-- Two threads each hold a lock and wait for the one the other holds. -/
def Deadlock (pc : θ → π) : Prop :=
  ∃ t t' m m', holds (pc t) m ∧ waits (pc t) m' ∧ holds (pc t') m' ∧ waits (pc t') m

/-- The thread waits for no lock, or for a free one. -/
def Ready (pc : θ → π) (t : θ) : Prop := ∀ m, waits (pc t) m → Free holds pc m

variable {holds waits} {pc : θ → π} {t : θ} {p : π} {m m' : μ}

theorem deadlock_iff : Deadlock holds waits pc ↔
    ∃ m m', Nested holds waits pc m m' ∧ Nested holds waits pc m' m := by
  constructor
  · rintro ⟨t, t', m, m', hm, hw, hm', hw'⟩
    exact ⟨m, m', ⟨t, hm, hw⟩, ⟨t', hm', hw'⟩⟩
  · rintro ⟨m, m', ⟨t, hm, hw⟩, ⟨t', hm', hw'⟩⟩
    exact ⟨t, t', m, m', hm, hw, hm', hw'⟩

/-- **With two locks**: the thread can go on, or a thread that holds a lock can, unless there
is a deadlock. -/
theorem deadlock_or_ready (hself : ∀ p m, holds p m → ¬ waits p m)
    (htwo : ∀ m₁ m₂ m₃ : μ, m₁ ≠ m₂ → m₂ ≠ m₃ → m₃ = m₁) (pc : θ → π) (t : θ) :
    Deadlock holds waits pc ∨
      ∃ u, Ready holds waits pc u ∧ (u = t ∨ ∃ m, holds (pc u) m) := by
  -- a thread that cannot go on waits for a lock that another one holds
  have hnext : ∀ u, Ready holds waits pc u ∨ ∃ m v, waits (pc u) m ∧ holds (pc v) m := by
    intro u
    by_cases hu : Ready holds waits pc u
    · exact Or.inl hu
    · obtain ⟨m, hm⟩ := not_forall.1 hu
      obtain ⟨hw, hfree⟩ := Classical.not_imp.1 hm
      obtain ⟨v, hv⟩ := not_forall.1 hfree
      exact Or.inr ⟨m, v, hw, not_not.1 hv⟩
  rcases hnext t with ht | ⟨m, u, -, hum⟩
  · exact Or.inr ⟨t, ht, Or.inl rfl⟩
  rcases hnext u with hu | ⟨m', v, huw, hvm⟩
  · exact Or.inr ⟨u, hu, Or.inr ⟨m, hum⟩⟩
  rcases hnext v with hv | ⟨m'', w, hvw, -⟩
  · exact Or.inr ⟨v, hv, Or.inr ⟨m', hvm⟩⟩
  have hne : m ≠ m' := fun heq => hself _ _ hum (heq ▸ huw)
  have hne' : m' ≠ m'' := fun heq => hself _ _ hvm (heq ▸ hvw)
  obtain rfl := htwo m m' m'' hne hne'
  exact Or.inl ⟨u, v, m'', m', hum, huw, hvm, hvw⟩

/-- **A deadlock stays**, when a thread that is ready moves. -/
theorem Deadlock.stays {pc' : θ → π} {u : θ} (h : Deadlock holds waits pc)
    (hready : Ready holds waits pc u) (hpc : ∀ v, v ≠ u → pc' v = pc v) :
    Deadlock holds waits pc' := by
  obtain ⟨t, t', m, m', hm, hw, hm', hw'⟩ := h
  -- neither of the two is ready
  have ht : t ≠ u := by
    rintro rfl
    exact hready m' hw t' hm'
  have ht' : t' ≠ u := by
    rintro rfl
    exact hready m hw' t hm
  refine ⟨t, t', m, m', ?_⟩
  rw [hpc t ht, hpc t' ht']
  exact ⟨hm, hw, hm', hw'⟩

/-! ## Moves -/

variable [DecidableEq θ]

/-- **A thread moves**: it keeps locks, releases some, or takes free ones. -/
theorem Excl.update (h : Excl holds pc) (hp : ∀ m, holds p m → holds (pc t) m ∨ Free holds pc m) :
    Excl holds (Function.update pc t p) := by
  -- no other thread holds what the moving one holds afterwards
  have hmove : ∀ m u, holds p m → holds (pc u) m → u = t := by
    intro m u hm hu
    rcases hp m hm with ht | hfree
    · exact h m u t hu ht
    · exact absurd hu (hfree u)
  intro m u u' hu hu'
  by_cases hut : u = t
  · by_cases hut' : u' = t
    · rw [hut, hut']
    · rw [Function.update_of_ne hut'] at hu'
      rw [hut, Function.update_self] at hu
      exact absurd (hmove m u' hu hu') hut'
  · rw [Function.update_of_ne hut] at hu
    by_cases hut' : u' = t
    · rw [hut', Function.update_self] at hu'
      exact absurd (hmove m u hu' hu) hut
    · rw [Function.update_of_ne hut'] at hu'
      exact h m u u' hu hu'

end CryptoMarket
