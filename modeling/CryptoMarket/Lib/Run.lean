import Mathlib.Data.List.Basic
import Mathlib.Order.WellFounded

/-!
# Runs of a labelled step relation

`Run step s₀ ls s`: from `s₀` the steps labelled `ls`, oldest first, lead to `s`.

* `Run.inv`: what holds at the start and is kept by every step holds along every run.
* `Run.hist_inv`: the same for facts about the state and the labels so far.
* `Guarded`: the steps that also meet a condition on the state before them and their
  label. A run of guarded steps is a run all of whose steps meet the condition.
* `Logged`: the steps with a log of what is observed at each. Every run can be logged.
* `Ends`: every run from a state comes to its end, where no step is left. It does if the
  steps lower a rank (`Ends.of_rank`).
-/

namespace CryptoMarket

variable {σ ι : Type*} {step : σ → ι → σ → Prop} {s₀ s t u : σ} {l : ι} {ls ms : List ι}

/-- The runs from `s₀`, extended at the end. -/
inductive Run (step : σ → ι → σ → Prop) (s₀ : σ) : List ι → σ → Prop
  | nil : Run step s₀ [] s₀
  | snoc {ls : List ι} {s t : σ} {l : ι} : Run step s₀ ls s → step s l t → Run step s₀ (ls ++ [l]) t

namespace Run

theorem single (h : step s l t) : Run step s [l] t := Run.nil.snoc h

theorem append (h : Run step s ls t) (h' : Run step t ms u) : Run step s (ls ++ ms) u := by
  induction h' with
  | nil => simpa using h
  | snoc _ hst ih => rw [← List.append_assoc]; exact ih.snoc hst

theorem cons (h : step s l t) (h' : Run step t ls u) : Run step s (l :: ls) u :=
  (single h).append h'

/-- **The invariant rule.** -/
theorem inv {P : σ → Prop} (h0 : P s₀) (hstep : ∀ s l t, P s → step s l t → P t)
    (h : Run step s₀ ls s) : P s := by
  induction h with
  | nil => exact h0
  | snoc _ hst ih => exact hstep _ _ _ ih hst

/-- **The invariant rule with history**: facts about the labels so far and the state. -/
theorem hist_inv {P : List ι → σ → Prop} (h0 : P [] s₀)
    (hstep : ∀ ls s l t, Run step s₀ ls s → P ls s → step s l t → P (ls ++ [l]) t)
    (h : Run step s₀ ls s) : P ls s := by
  induction h with
  | nil => exact h0
  | snoc hr hst ih => exact hstep _ _ _ _ hr ih hst

end Run

/-- The steps of `step` that meet `G`, a condition on the state before and the label. -/
def Guarded (step : σ → ι → σ → Prop) (G : σ → ι → Prop) (s : σ) (l : ι) (t : σ) : Prop :=
  step s l t ∧ G s l

/-- A guarded run is a run. -/
theorem Run.of_guarded {G : σ → ι → Prop} (h : Run (Guarded step G) s₀ ls s) : Run step s₀ ls s := by
  induction h with
  | nil => exact Run.nil
  | snoc _ hst ih => exact ih.snoc hst.1

/-! ## Logs -/

variable {ε : Type*} {observe : σ → ι → List ε} {log log₀ : List ε}

/-- The steps of `step`, each of which adds what is observed of it to a log. -/
def Logged (step : σ → ι → σ → Prop) (observe : σ → ι → List ε) (x : σ × List ε) (l : ι)
    (y : σ × List ε) : Prop :=
  step x.1 l y.1 ∧ y.2 = x.2 ++ observe x.1 l

/-- A logged run is a run. -/
theorem Run.of_logged {x y : σ × List ε} (h : Run (Logged step observe) x ls y) :
    Run step x.1 ls y.1 := by
  induction h with
  | nil => exact Run.nil
  | snoc _ hst ih => exact ih.snoc hst.1

/-- **Every run can be logged.** -/
theorem Run.exists_log (h : Run step s₀ ls s) (log₀ : List ε) :
    ∃ log, Run (Logged step observe) (s₀, log₀) ls (s, log) := by
  induction h with
  | nil => exact ⟨log₀, Run.nil⟩
  | @snoc ls s t l _ hst ih =>
    obtain ⟨log, hrun⟩ := ih
    have hlogged : Logged step observe (s, log) l (t, log ++ observe s l) := ⟨hst, rfl⟩
    exact ⟨_, hrun.snoc hlogged⟩

/-- A run at whose steps nothing is observed leaves the log alone. -/
theorem Run.log_quiet (h : Run step s₀ ls s) (log : List ε) :
    (∀ l ∈ ls, ∀ s, observe s l = []) → Run (Logged step observe) (s₀, log) ls (s, log) := by
  induction h with
  | nil => exact fun _ => Run.nil
  | @snoc ls s t l _ hst ih =>
    intro hquiet
    have hlogged : Logged step observe (s, log) l (t, log) :=
      ⟨hst, by rw [hquiet l (by simp) s, List.append_nil]⟩
    exact (ih fun m hm => hquiet m (List.mem_append_left _ hm)).snoc hlogged

/-! ## Ends -/

/-- No run from `s` goes on for ever. -/
def Ends (step : σ → ι → σ → Prop) (s : σ) : Prop := Acc (fun t s => ∃ l, step s l t) s

namespace Ends

/-- **The rank rule**, under an invariant of the steps. -/
theorem of_rank {α : Type*} [Preorder α] [WellFoundedLT α] {P : σ → Prop} (rank : σ → α)
    (hinv : ∀ s l t, P s → step s l t → P t) (hlt : ∀ s l t, P s → step s l t → rank t < rank s)
    (hs : P s) : Ends step s := by
  have key : ∀ a s, rank s = a → P s → Ends step s := by
    intro a
    induction a using WellFoundedLT.induction with
    | ind a ih =>
      rintro s rfl hs
      refine Acc.intro s ?_
      rintro t ⟨l, hst⟩
      exact ih _ (hlt s l t hs hst) t rfl (hinv s l t hs hst)
  exact key _ s rfl hs

/-- There is a run to an end. -/
theorem exists_run (h : Ends step s) : ∃ ls t, Run step s ls t ∧ ∀ l u, ¬ step t l u := by
  induction h with
  | intro s _ ih =>
    by_cases hend : ∀ l u, ¬ step s l u
    · exact ⟨[], s, Run.nil, hend⟩
    · push Not at hend
      obtain ⟨l, t, hst⟩ := hend
      obtain ⟨ls, u, hrun, hu⟩ := ih t ⟨l, hst⟩
      exact ⟨_, u, Run.cons hst hrun, hu⟩

end Ends

end CryptoMarket
