import Mathlib.Data.List.Induction
import Mathlib.Logic.Function.Basic

/-!
# Logs

* `Since sets clears log`: some event of the log sets, and none after it clears. An event
  that does both counts as setting. `Since.snoc` is how one more event changes it; a
  state that follows the same two rules agrees with the log.
* `SinceIf`: the same, where what came before the event that sets counts too.
* `flatMap_prefix_eq_iff`: of a log of writes, each taken up to some point, what was taken
  is the whole only if each write was taken whole.
* `Interleaves`: a log of the events of several sources, each in its own order. A log of
  tagged events is one (`Interleaves.of_tags`), and still is with the events of one more
  source between (`Interleaves.merge`).
-/

namespace CryptoMarket

variable {ε : Type*} {before : List ε → Prop} {sets clears : ε → Prop} {log : List ε} {e : ε}

/-- Some event of the log, oldest first, sets, and no later one clears. -/
def Since (sets clears : ε → Prop) (log : List ε) : Prop :=
  ∃ l₁ e l₂, log = l₁ ++ e :: l₂ ∧ sets e ∧ ∀ e' ∈ l₂, ¬ clears e'

/-- The same, where the log before the event that sets has the property `before`. -/
def SinceIf (before : List ε → Prop) (sets clears : ε → Prop) (log : List ε) : Prop :=
  ∃ l₁ e l₂, log = l₁ ++ e :: l₂ ∧ before l₁ ∧ sets e ∧ ∀ e' ∈ l₂, ¬ clears e'

@[simp] theorem SinceIf.nil : ¬ SinceIf before sets clears [] := by
  rintro ⟨l₁, e, l₂, h, -⟩; simp at h

/-- **One more event**, when setting depends on the log before. -/
theorem SinceIf.snoc : SinceIf before sets clears (log ++ [e]) ↔
    before log ∧ sets e ∨ SinceIf before sets clears log ∧ ¬ clears e := by
  constructor
  · rintro ⟨l₁, e', l₂, h, hb, hs, hc⟩
    rcases List.eq_nil_or_concat l₂ with rfl | ⟨l₂', e'', rfl⟩
    · obtain ⟨rfl, h'⟩ := List.append_inj' h rfl
      simp only [List.cons.injEq, and_true] at h'
      subst h'; exact Or.inl ⟨hb, hs⟩
    · rw [List.concat_eq_append, ← List.cons_append, ← List.append_assoc] at h
      obtain ⟨h1, h2⟩ := List.append_inj' h rfl
      simp only [List.cons.injEq, and_true] at h2
      subst h2
      exact Or.inr ⟨⟨l₁, e', l₂', h1, hb, hs, fun a ha => hc a (by simp [ha])⟩, hc e (by simp)⟩
  · rintro (⟨hb, hs⟩ | ⟨⟨l₁, e', l₂, rfl, hb, hs, hc⟩, hn⟩)
    · exact ⟨log, e, [], rfl, hb, hs, by simp⟩
    · refine ⟨l₁, e', l₂ ++ [e], by simp, hb, hs, fun a ha => ?_⟩
      rcases List.mem_append.1 ha with ha | ha
      · exact hc a ha
      · rw [List.mem_singleton.1 ha]; exact hn

/-- **Events that neither set nor clear** change nothing. -/
theorem SinceIf.append_of_other {log' : List ε} (h : ∀ e ∈ log', ¬ sets e ∧ ¬ clears e) :
    SinceIf before sets clears (log ++ log') ↔ SinceIf before sets clears log := by
  induction log' using List.reverseRecOn with
  | nil => rw [List.append_nil]
  | append_singleton log' e ih =>
    obtain ⟨hs, hc⟩ := h e (by simp)
    rw [← List.append_assoc, SinceIf.snoc, ih fun e he => h e (by simp [he])]
    tauto

theorem since_iff : Since sets clears log ↔ SinceIf (fun _ => True) sets clears log := by
  simp [Since, SinceIf]

@[simp] theorem Since.nil : ¬ Since sets clears [] := by rw [since_iff]; exact SinceIf.nil

/-- **One more event.** -/
theorem Since.snoc : Since sets clears (log ++ [e]) ↔ sets e ∨ Since sets clears log ∧ ¬ clears e := by
  rw [since_iff, since_iff, SinceIf.snoc, true_and]

/-! ## Short writes -/

variable {α β : Type*} {f g : α → List β}

theorem length_flatMap_le_of_prefix : ∀ {l : List α}, (∀ a ∈ l, f a <+: g a) →
    (l.flatMap f).length ≤ (l.flatMap g).length := by
  intro l
  induction l with
  | nil => intro _; simp
  | cons a l ih =>
    intro h
    have h1 := (h a List.mem_cons_self).length_le
    have h2 := ih fun b hb => h b (List.mem_cons_of_mem _ hb)
    simp only [List.flatMap_cons, List.length_append]
    omega

/-- **Prefixes concatenate to the whole** only if each is whole. -/
theorem flatMap_prefix_eq_iff : ∀ {l : List α}, (∀ a ∈ l, f a <+: g a) →
    (l.flatMap f = l.flatMap g ↔ ∀ a ∈ l, f a = g a) := by
  intro l
  induction l with
  | nil => intro _; simp
  | cons a l ih =>
    intro hpre
    have hpre' : ∀ b ∈ l, f b <+: g b := fun b hb => hpre b (List.mem_cons_of_mem _ hb)
    constructor
    · intro heq
      simp only [List.flatMap_cons] at heq
      obtain ⟨r, hr⟩ := hpre a List.mem_cons_self
      rw [← hr, List.append_assoc] at heq
      have hrest := List.append_cancel_left heq
      -- what the first one lacks is missing at the end
      have hlr : r.length = 0 := by
        have h1 := congrArg List.length hrest
        have h2 := length_flatMap_le_of_prefix hpre'
        rw [List.length_append] at h1
        omega
      rw [List.eq_nil_of_length_eq_zero hlr] at hr hrest
      rw [List.append_nil] at hr
      intro b hb
      rcases List.mem_cons.1 hb with rfl | hb
      · exact hr
      · exact (ih hpre').1 hrest b hb
    · intro h
      simp only [List.flatMap_cons]
      rw [h a List.mem_cons_self, (ih hpre').2 fun b hb => h b (List.mem_cons_of_mem _ hb)]

/-! ## Interleavings -/

variable {ι : Type*} [DecidableEq ι] {out : List α} {seqs : ι → List α} {a : α}

/-- `out` has every element of each sequence exactly once, those of one sequence in its
order. -/
inductive Interleaves : List α → (ι → List α) → Prop
  | nil : Interleaves [] fun _ => []
  | snoc {out : List α} {seqs : ι → List α} (i : ι) (a : α) : Interleaves out seqs →
    Interleaves (out ++ [a]) (Function.update seqs i (seqs i ++ [a]))

namespace Interleaves

/-- The elements of an interleaving. -/
theorem mem_iff (h : Interleaves out seqs) : a ∈ out ↔ ∃ i, a ∈ seqs i := by
  induction h with
  | nil => simp
  | @snoc out seqs i b _ ih =>
    rw [List.mem_append, ih, List.mem_singleton]
    constructor
    · rintro (⟨j, hj⟩ | rfl)
      · refine ⟨j, ?_⟩
        by_cases hji : j = i
        · subst hji; simp [hj]
        · simpa [hji] using hj
      · exact ⟨i, by simp⟩
    · rintro ⟨j, hj⟩
      by_cases hji : j = i
      · subst hji
        rw [Function.update_self, List.mem_append, List.mem_singleton] at hj
        exact hj.imp_left fun h => ⟨j, h⟩
      · rw [Function.update_of_ne hji] at hj
        exact Or.inl ⟨j, hj⟩

/-- Each sequence is there, in its order. -/
theorem sublist (h : Interleaves out seqs) (i : ι) : (seqs i).Sublist out := by
  induction h with
  | nil => exact List.Sublist.refl []
  | @snoc out seqs j b _ ih =>
    by_cases hij : i = j
    · subst hij
      rw [Function.update_self]
      exact ih.append (List.Sublist.refl [b])
    · rw [Function.update_of_ne hij]
      exact ih.trans (List.sublist_append_left out [b])

/-- More of one sequence comes at the end. -/
theorem append (h : Interleaves out seqs) (i : ι) (l : List α) :
    Interleaves (out ++ l) (Function.update seqs i (seqs i ++ l)) := by
  induction l using List.reverseRecOn with
  | nil => simpa using h
  | append_singleton l a ih =>
    have hnext := ih.snoc i a
    rw [Function.update_self, Function.update_idem] at hnext
    simpa [List.append_assoc] using hnext

end Interleaves

/-! ## Tags -/

/-- What has the tag `i`. -/
def tagged (i : ι) (l : List (ι × α)) : List α :=
  l.filterMap fun p => if p.1 = i then some p.2 else none

@[simp] theorem tagged_nil (i : ι) : tagged i ([] : List (ι × α)) = [] := rfl

@[simp] theorem tagged_append (i : ι) (l l' : List (ι × α)) :
    tagged i (l ++ l') = tagged i l ++ tagged i l' := List.filterMap_append

@[simp] theorem tagged_singleton (i : ι) (p : ι × α) : tagged i [p] = if p.1 = i then [p.2] else [] := by
  by_cases h : p.1 = i <;> simp [tagged, h]

theorem tagged_cons (i : ι) (p : ι × α) (l : List (ι × α)) :
    tagged i (p :: l) = (if p.1 = i then [p.2] else []) ++ tagged i l := by
  rw [← tagged_singleton, ← tagged_append]
  rfl

theorem tagged_eq_map_filter (i : ι) (l : List (ι × α)) :
    tagged i l = (l.filter fun p => p.1 = i).map Prod.snd := by
  induction l with
  | nil => rfl
  | cons p l ih =>
    rw [tagged_cons, ih]
    by_cases h : p.1 = i <;> simp [h]

/-- **A log of tagged events** interleaves the events of each tag. -/
theorem Interleaves.of_tags (l : List (ι × α)) : Interleaves (l.map Prod.snd) fun i => tagged i l := by
  induction l using List.reverseRecOn with
  | nil => exact Interleaves.nil
  | append_singleton l p ih =>
    have hseqs : (fun i => tagged i (l ++ [p])) =
        Function.update (fun i => tagged i l) p.1 (tagged p.1 l ++ [p.2]) := by
      funext i
      by_cases hi : i = p.1
      · subst hi
        simp
      · simp [hi, Ne.symm hi]
    rw [hseqs, List.map_append]
    exact ih.snoc p.1 p.2

/-- Events of the source `b`, the `false` ones, between those of a log that has none. -/
theorem exists_merge (b : ι) {rest : List α} : ∀ (shown : List (Bool × α)) {l : List (ι × α)},
    tagged b l = [] → tagged true shown ++ rest = l.map Prod.snd →
      ∃ m : List (ι × α), m.map Prod.snd = shown.map Prod.snd ++ rest ∧ tagged b m = tagged false shown ∧
        ∀ i, i ≠ b → tagged i m = tagged i l := by
  intro shown
  induction shown with
  | nil => intro l hb h; exact ⟨l, h.symm, hb, fun _ _ => rfl⟩
  | cons e shown ih =>
    intro l hb h
    obtain ⟨own, a⟩ := e
    rw [tagged_cons] at h
    cases own with
    | false =>
      obtain ⟨m, hm, hmb, hmi⟩ := ih hb h
      refine ⟨(b, a) :: m, by simp [hm], by simp [tagged_cons, hmb], fun i hi => ?_⟩
      rw [tagged_cons, hmi i hi, if_neg (Ne.symm hi), List.nil_append]
    | true =>
      -- the next event of the log is shown
      cases l with
      | nil => simp at h
      | cons p l =>
        obtain ⟨rfl, hrest⟩ : a = p.2 ∧ tagged true shown ++ rest = l.map Prod.snd := by simpa using h
        rw [tagged_cons, List.append_eq_nil_iff] at hb
        obtain ⟨m, hm, hmb, hmi⟩ := ih hb.2 hrest
        refine ⟨p :: m, by simp [hm], ?_, fun i hi => by rw [tagged_cons, tagged_cons, hmi i hi]⟩
        rw [tagged_cons, tagged_cons, hb.1, hmb]
        rfl

/-- **One more source**: the first events of a log of tagged events, with events of the source `b`
between, and then the rest of the log. -/
theorem Interleaves.merge {b : ι} {shown : List (Bool × α)} {rest : List α} {l : List (ι × α)}
    (hb : tagged b l = []) (h : tagged true shown ++ rest = l.map Prod.snd) :
    Interleaves (shown.map Prod.snd ++ rest)
      (Function.update (fun i => tagged i l) b (tagged false shown)) := by
  obtain ⟨m, hm, hmb, hmi⟩ := exists_merge b shown hb h
  have hseqs : Function.update (fun i => tagged i l) b (tagged false shown) = fun i => tagged i m := by
    funext i
    by_cases hi : i = b
    · rw [hi, Function.update_self, hmb]
    · rw [Function.update_of_ne hi, hmi i hi]
  rw [hseqs, ← hm]
  exact Interleaves.of_tags m

end CryptoMarket
