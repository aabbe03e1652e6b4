import CryptoMarket.Lib.Run
import Mathlib.Data.List.Basic

/-!
# A publisher and its subscribers

One program publishes on a channel and another one subscribes to it, any number of times. Each
subscriber has a queue. What is published goes to the queues or, if the channel loses
something, to some of them; a subscriber that loses its connection loses its queue.

* `source_run`, `sink_run`: seen without the channel, a run is a run of each program.
* `got_eq_filterMap`: what a subscriber yields, from the steps of the second program.
* `got_sublist`: what it yields was published, in this order, each at most once.
* `got_eq`: if the channel loses nothing, it is all but what is in the queue.
* `runs_of`: any two runs that fit together make one of the whole.
-/

namespace CryptoMarket

variable {σ ι ε τ κ ν : Type*}

/-- Two programs and the channel between them. -/
structure Wiring (σ ι ε τ κ ν : Type*) where
  publish : σ → ι → σ → Prop
  /-- What the first program has published. -/
  output : σ → List ε
  /-- It only adds to what it has published. -/
  grows : ∀ {s l s'}, publish s l s' → output s <+: output s'
  consume : τ → κ → τ → Prop
  /-- What the step of the second program takes, and from which subscriber. -/
  input : κ → Option (ν × ε)
  loses : Prop

/-- The two programs and the queues. -/
structure Wired (σ ε τ ν : Type*) where
  source : σ
  queue : ν → List ε
  sink : τ

/-- Nothing was published yet. -/
def Wired.init (s : σ) (t : τ) : Wired σ ε τ ν := ⟨s, fun _ => [], t⟩

inductive WireLabel (ι κ ν : Type*) where
  | source (l : ι)
  | lose (n : ν)
  | sink (k : κ)

namespace Wiring

variable (W : Wiring σ ι ε τ κ ν)

/-- What the step takes from a subscriber. -/
def taken [DecidableEq ν] (n : ν) (k : κ) : List ε :=
  match W.input k with
  | some (m, e) => if m = n then [e] else []
  | none => []

/-- What is new on the channel. -/
def fresh (s s' : σ) : List ε := (W.output s').drop (W.output s).length

/-- **The steps** of the two programs and of the channel. -/
inductive Step [DecidableEq ν] (x : Wired σ ε τ ν) : WireLabel ι κ ν → Wired σ ε τ ν → Prop
  | source {l : ι} {s : σ} (kept : ν → List ε) : W.publish x.source l s →
    (∀ n, (kept n).Sublist (W.fresh x.source s)) → (¬ W.loses → ∀ n, kept n = W.fresh x.source s) →
    Step x (.source l) { x with source := s, queue := fun n => x.queue n ++ kept n }
  | lose {n : ν} : W.loses → Step x (.lose n) { x with queue := Function.update x.queue n [] }
  | sink {k : κ} {t : τ} {queue : ν → List ε} : W.consume x.sink k t →
    (∀ n, x.queue n = W.taken n k ++ queue n) → Step x (.sink k) { x with queue, sink := t }

/-- The runs of two programs from these states. -/
abbrev Runs [DecidableEq ν] (s : σ) (t : τ) : List (WireLabel ι κ ν) → Wired σ ε τ ν → Prop :=
  Run W.Step (Wired.init s t)

/-- The steps of the first program. -/
def sources (ls : List (WireLabel ι κ ν)) : List ι :=
  ls.filterMap fun
    | .source l => some l
    | _ => none

/-- The steps of the second program. -/
def sinks (ls : List (WireLabel ι κ ν)) : List κ :=
  ls.filterMap fun
    | .sink k => some k
    | _ => none

/-- What a subscriber has yielded. -/
def got [DecidableEq ν] (ls : List (WireLabel ι κ ν)) (n : ν) : List ε := (sinks ls).flatMap (W.taken n)

variable {W} {x y : Wired σ ε τ ν} {l : WireLabel ι κ ν} {ls : List (WireLabel ι κ ν)}
  {s₀ : σ} {t₀ : τ} {n : ν}

theorem sources_append (ls ms : List (WireLabel ι κ ν)) : sources (ls ++ ms) = sources ls ++ sources ms :=
  List.filterMap_append

theorem sinks_append (ls ms : List (WireLabel ι κ ν)) : sinks (ls ++ ms) = sinks ls ++ sinks ms :=
  List.filterMap_append

theorem output_fresh {s s' : σ} {l : ι} (h : W.publish s l s') :
    W.output s ++ W.fresh s s' = W.output s' := by
  obtain ⟨rest, hrest⟩ := W.grows h
  rw [fresh, ← hrest, List.drop_left]

variable [DecidableEq ν]

theorem got_append (ls ms : List (WireLabel ι κ ν)) : W.got (ls ++ ms) n = W.got ls n ++ W.got ms n := by
  rw [got, sinks_append, List.flatMap_append]
  rfl

/-- What a subscriber yields, read off the steps. -/
theorem got_eq_filterMap (f : κ → Option ε) (hf : ∀ k, W.taken n k = (f k).toList) :
    W.got ls n = (sinks ls).filterMap f := by
  rw [got]
  induction sinks ls with
  | nil => rfl
  | cons k ks ih =>
    rw [List.flatMap_cons, ih, hf]
    cases hk : f k <;> simp [hk]

/-- **The first program** runs as it does alone. -/
theorem source_run (h : W.Runs s₀ t₀ ls x) : Run W.publish s₀ (sources ls) x.source := by
  induction h with
  | nil => exact Run.nil
  | @snoc ls x y l _ hst ih =>
    rw [sources_append]
    cases hst with
    | source kept hp _ _ => exact ih.snoc hp
    | lose _ => simpa [sources] using ih
    | sink _ _ => simpa [sources] using ih

/-- **The second program** runs as it does alone, with some inputs. -/
theorem sink_run (h : W.Runs s₀ t₀ ls x) : Run W.consume t₀ (sinks ls) x.sink := by
  induction h with
  | nil => exact Run.nil
  | @snoc ls x y l _ hst ih =>
    rw [sinks_append]
    cases hst with
    | source kept _ _ _ => simpa [sinks] using ih
    | lose _ => simpa [sinks] using ih
    | sink hc _ => exact ih.snoc hc

/-- A step of the program moves what it takes from the queue. -/
theorem got_sink {k : κ} {queue : ν → List ε} (hq : ∀ n, x.queue n = W.taken n k ++ queue n) :
    W.got (ls ++ [.sink k]) n ++ queue n = W.got ls n ++ x.queue n := by
  have hone : W.got [.sink k] n = W.taken n k := by simp [got, sinks]
  rw [got_append, hone, List.append_assoc, hq n]

theorem got_other (hl : ∀ k, l ≠ .sink k) : W.got (ls ++ [l]) n = W.got ls n := by
  have hnone : W.got [l] n = [] := by
    cases l with
    | sink k => exact absurd rfl (hl k)
    | _ => rfl
  rw [got_append, hnone, List.append_nil]

/-- **One step** keeps the order of the channel. -/
theorem got_step (hok : (W.got ls n ++ x.queue n).Sublist (W.output x.source)) (hst : W.Step x l y) :
    (W.got (ls ++ [l]) n ++ y.queue n).Sublist (W.output y.source) := by
  cases hst with
  | source kept hp hkept _ =>
    rw [got_other (by simp), ← output_fresh hp, ← List.append_assoc]
    exact hok.append (hkept n)
  | @lose m hl =>
    rw [got_other (by simp)]
    have hqueue : (Function.update x.queue m [] n).Sublist (x.queue n) := by
      by_cases hn : n = m
      · rw [hn, Function.update_self]
        exact List.nil_sublist _
      · rw [Function.update_of_ne hn]
    exact ((List.append_sublist_append_left _).2 hqueue).trans hok
  | sink hc hq => exact got_sink hq ▸ hok

/-- **A subscriber yields what was published**, in this order and each at most once; so does
what is in its queue. -/
theorem got_sublist (h : W.Runs s₀ t₀ ls x) (n : ν) :
    (W.got ls n ++ x.queue n).Sublist (W.output x.source) := by
  refine Run.hist_inv (P := fun ls x => (W.got ls n ++ x.queue n).Sublist (W.output x.source)) ?_ ?_ h
  · exact List.nil_sublist _
  · intro ls x l y _ hok hst
    exact got_step hok hst

/-- **If nothing is lost**, what a subscriber has yielded and what is in its queue is all that was
published. -/
theorem got_eq (hl : ¬ W.loses) (h0 : W.output s₀ = []) (h : W.Runs s₀ t₀ ls x) (n : ν) :
    W.got ls n ++ x.queue n = W.output x.source := by
  refine Run.hist_inv (P := fun ls x => W.got ls n ++ x.queue n = W.output x.source) ?_ ?_ h
  · exact h0.symm
  · intro ls x l y _ hok hst
    cases hst with
    | source kept hp _ hall =>
      have hkept := hall hl n
      rw [got_other (by simp), ← output_fresh hp, ← hok, List.append_assoc, ← hkept]
    | lose hl' => exact absurd hl' hl
    | sink hc hq => exact (got_sink hq).trans hok

/-! ## Runs that fit -/

/-- The first program runs, and everything gets to the queues. -/
theorem run_source {ms : List ι} {s s' : σ} (h : Run W.publish s ms s') (t : τ) :
    Run W.Step ⟨s, fun _ => W.output s, t⟩ (ms.map .source) ⟨s', fun _ => W.output s', t⟩ := by
  induction h with
  | nil => exact Run.nil
  | @snoc ms u v l _ hst ih =>
    rw [List.map_append, List.map_singleton]
    have hstep : W.Step ⟨u, fun _ => W.output u, t⟩ (.source l) _ :=
      .source (fun _ => W.fresh u v) hst (fun _ => List.Sublist.refl _) fun _ _ => rfl
    have hqueue : W.output u ++ W.fresh u v = W.output v := output_fresh hst
    simp only [hqueue] at hstep
    exact ih.snoc hstep

/-- The second program runs on what is in the queues. -/
theorem run_sink {ks : List κ} {t t' : τ} (h : Run W.consume t ks t') (s : σ) (queue : ν → List ε) :
    Run W.Step ⟨s, fun n => ks.flatMap (W.taken n) ++ queue n, t⟩ (ks.map .sink) ⟨s, queue, t'⟩ := by
  induction h generalizing queue with
  | nil => exact Run.nil
  | @snoc ks u v k _ hst ih =>
    rw [List.map_append, List.map_singleton]
    have hrun := ih fun n => W.taken n k ++ queue n
    have hstep : W.Step ⟨s, fun n => W.taken n k ++ queue n, u⟩ (.sink k) ⟨s, queue, v⟩ :=
      .sink hst fun _ => rfl
    simp only [List.flatMap_append, List.flatMap_singleton, List.append_assoc]
    exact hrun.snoc hstep

/-- **Two runs make one** when the second takes from the beginning of what the first has
published. -/
theorem runs_of {ms : List ι} {ks : List κ} {s : σ} {t : τ} (h0 : W.output s₀ = [])
    (h₁ : Run W.publish s₀ ms s) (h₂ : Run W.consume t₀ ks t) (queue : ν → List ε)
    (hfit : ∀ n, ks.flatMap (W.taken n) ++ queue n = W.output s) :
    W.Runs s₀ t₀ (ms.map .source ++ ks.map .sink) ⟨s, queue, t⟩ := by
  have hsource := run_source h₁ t₀
  have hsink := run_sink h₂ s queue
  rw [h0] at hsource
  rw [funext hfit] at hsink
  exact hsource.append hsink

end Wiring

end CryptoMarket
