import CryptoMarket.Lib.Maps

/-!
# A map of running tasks

A `Pool` is a map whose entries hold the handles of tasks, together with the tasks that
are alive: created and not aborted. Dropping a handle does not abort its task, so an
insertion over an existing entry leaves a task alive that the map no longer knows.

* `Held.spawn`, `Held.stop`: every entry holds a live task that does what the entry says.
* `noOrphan_spawnAll`: creating tasks for a list of keys leaves no task outside the map
  exactly when the keys are distinct and new.
* `noOrphan_stopAll`: stopping keeps that property and does not restore it.
* `lookup_map_spawnAll`, `lookup_map_stopAll`, `live_stopAll`: what becomes of one entry and
  of its task.
* `Known`: a record of what each task was created for, kept by every change that makes no
  old task live (`Known.origins`).
-/

namespace CryptoMarket

variable {κ τ α β : Type*}

/-- A map of tasks, the number of tasks created so far, and the tasks alive, by number. -/
structure Pool (κ τ α : Type*) where
  map : HashMap κ τ
  created : ℕ
  live : HashMap ℕ α

/-- How an entry names its task: its number and, from the key and the entry, what the task
does, which tells the key. -/
structure TaskKind (κ τ α : Type*) where
  handle : τ → ℕ
  task : κ → τ → α
  key_eq : ∀ k t k' t', task k t = task k' t' → k = k'

namespace Pool

variable [DecidableEq κ] {K : TaskKind κ τ α} {p : Pool κ τ α} {k k' : κ} {a : α}

/-- No task yet. -/
def empty : Pool κ τ α := ⟨∅, 0, ∅⟩

/-- Creates a task that does `a` and inserts the entry made of its number. -/
def spawn (k : κ) (mk : ℕ → τ) (a : α) (p : Pool κ τ α) : Pool κ τ α :=
  ⟨p.map.insert k (mk p.created), p.created + 1, p.live.insert p.created a⟩

/-- Removes the entry of a key and aborts its task, if there is one. -/
def stop (handle : τ → ℕ) (k : κ) (p : Pool κ τ α) : Pool κ τ α :=
  match p.map.lookup k with
  | some t => { p with map := p.map.erase k, live := p.live.erase (handle t) }
  | none => p

/-- Every entry holds a live task, the one the entry says. -/
structure Held (K : TaskKind κ τ α) (p : Pool κ τ α) : Prop where
  held : ∀ k t, p.map.lookup k = some t → p.live.lookup (K.handle t) = some (K.task k t)
  fresh : ∀ id a, p.live.lookup id = some a → id < p.created

/-- Every live task is held by an entry. -/
def NoOrphan (K : TaskKind κ τ α) (p : Pool κ τ α) : Prop :=
  ∀ id a, p.live.lookup id = some a → ∃ k t, p.map.lookup k = some t ∧ K.handle t = id

/-- The entries and the live tasks correspond one to one. -/
def Matched (K : TaskKind κ τ α) (p : Pool κ τ α) : Prop := p.Held K ∧ p.NoOrphan K

theorem held_empty : Held K empty :=
  ⟨fun k t h => by simp [empty] at h, fun id a h => by simp [empty] at h⟩

theorem noOrphan_empty : NoOrphan K empty := fun id a h => by simp [empty] at h

/-- The task of another key has another number. -/
theorem Held.handle_ne (h : p.Held K) {t t' : τ} (ht : p.map.lookup k = some t)
    (ht' : p.map.lookup k' = some t') (hne : k' ≠ k) : K.handle t' ≠ K.handle t := by
  intro heq
  have h1 := h.held k t ht
  have h2 := h.held k' t' ht'
  rw [heq, h1] at h2
  exact hne (K.key_eq _ _ _ _ (Option.some.inj h2)).symm

/-- A live task has one number. -/
theorem Matched.live_inj (h : p.Matched K) {n n' : ℕ} (hn : p.live.lookup n = some a)
    (hn' : p.live.lookup n' = some a) : n = n' := by
  obtain ⟨k, t, ht, rfl⟩ := h.2 n a hn
  obtain ⟨k', t', ht', rfl⟩ := h.2 n' a hn'
  rw [h.1.held k t ht] at hn
  rw [h.1.held k' t' ht'] at hn'
  have hk : k = k' := K.key_eq k t k' t' (Option.some.inj (hn.trans hn'.symm))
  subst hk
  rw [ht] at ht'
  rw [Option.some.inj ht']

theorem Matched.exists_live (h : p.Matched K) :
    (∃ n, p.live.lookup n = some a) ↔ ∃ k t, p.map.lookup k = some t ∧ K.task k t = a := by
  constructor
  · rintro ⟨n, hn⟩
    obtain ⟨k, t, ht, rfl⟩ := h.2 n a hn
    have hlive := h.1.held k t ht
    rw [hlive] at hn
    exact ⟨k, t, ht, Option.some.inj hn⟩
  · rintro ⟨k, t, ht, rfl⟩
    exact ⟨K.handle t, h.1.held k t ht⟩

/-- **The live tasks are those of the entries**, each once. -/
theorem Matched.live_values (h : p.Matched K) :
    p.live.entries.map (fun e => e.2) = p.map.entries.map fun e => K.task e.1 e.2 := by
  have hlive : (p.live.entries.map fun e => e.2).Nodup := by
    refine Multiset.Nodup.map_on ?_ p.live.nodup_entries
    rintro ⟨n, a⟩ hn ⟨n', a'⟩ hn' (rfl : a = a')
    rw [h.live_inj (Finmap.lookup_eq_some_iff.2 hn) (Finmap.lookup_eq_some_iff.2 hn')]
  have hmap : (p.map.entries.map fun e => K.task e.1 e.2).Nodup := by
    refine Multiset.Nodup.map_on ?_ p.map.nodup_entries
    rintro ⟨k, t⟩ hk ⟨k', t'⟩ hk' heq
    obtain rfl : k = k' := K.key_eq k t k' t' heq
    have ht := Finmap.lookup_eq_some_iff.2 hk
    rw [Finmap.lookup_eq_some_iff.2 hk'] at ht
    rw [Option.some.inj ht]
  refine (Multiset.Nodup.ext hlive hmap).2 fun a => ?_
  have hentries := h.exists_live (a := a)
  simp only [Finmap.lookup_eq_some_iff] at hentries
  simp only [Multiset.mem_map, Sigma.exists]
  constructor
  · rintro ⟨n, b, hn, rfl⟩
    exact hentries.1 ⟨n, hn⟩
  · intro hk
    obtain ⟨n, hn⟩ := hentries.2 hk
    exact ⟨n, a, hn, rfl⟩

/-! ## One task -/

section spawn

variable {mk : ℕ → τ}

theorem mem_map_spawn : k' ∈ (p.spawn k mk a).map ↔ k' = k ∨ k' ∈ p.map := Finmap.mem_insert

/-- **Creating keeps the entries' tasks.** -/
theorem Held.spawn (h : p.Held K) (hh : K.handle (mk p.created) = p.created)
    (ht : K.task k (mk p.created) = a) : (p.spawn k mk a).Held K := by
  refine ⟨fun k' t hl => ?_, fun id b hl => ?_⟩
  · simp only [Pool.spawn, HashMap.lookup_insert_eq] at hl ⊢
    split at hl
    · rename_i heq
      subst heq
      rw [← Option.some.inj hl, hh, if_pos rfl, ht]
    · have hlive := h.held k' t hl
      have := h.fresh _ _ hlive
      rw [if_neg (by omega)]
      exact hlive
  · simp only [Pool.spawn, HashMap.lookup_insert_eq] at hl ⊢
    split at hl
    · omega
    · have := h.fresh id b hl
      omega

/-- **Creating leaves no orphan exactly when the key is new.** -/
theorem noOrphan_spawn (h : p.Held K) (hh : K.handle (mk p.created) = p.created) :
    (p.spawn k mk a).NoOrphan K ↔ p.NoOrphan K ∧ k ∉ p.map := by
  -- the task of an entry is older than the new one
  have hold : ∀ k' t, p.map.lookup k' = some t → K.handle t ≠ p.created := by
    intro k' t hl
    have := h.fresh _ _ (h.held k' t hl)
    omega
  constructor
  · intro hno
    -- a task alive before is held after, and not by the new entry
    have hback : ∀ id b, p.live.lookup id = some b →
        ∃ k' t, k' ≠ k ∧ p.map.lookup k' = some t ∧ K.handle t = id := by
      intro id b hb
      have hlt := h.fresh id b hb
      obtain ⟨k', t, hl, rfl⟩ := hno id b (by
        simp only [spawn, HashMap.lookup_insert_eq]
        rw [if_neg (by omega)]
        exact hb)
      simp only [spawn, HashMap.lookup_insert_eq] at hl
      split at hl
      · rw [← Option.some.inj hl, hh] at hlt
        omega
      · rename_i hne
        exact ⟨k', t, hne, hl, rfl⟩
    refine ⟨fun id b hb => ?_, fun hk => ?_⟩
    · obtain ⟨k', t, -, hl, hid⟩ := hback id b hb
      exact ⟨k', t, hl, hid⟩
    · obtain ⟨t, ht⟩ := Finmap.mem_iff.1 hk
      obtain ⟨k', t', hne, hl, hid⟩ := hback _ _ (h.held k t ht)
      exact h.handle_ne ht hl hne hid
  · rintro ⟨hno, hk⟩ id b hb
    simp only [spawn, HashMap.lookup_insert_eq] at hb ⊢
    split at hb
    · rename_i heq
      exact ⟨k, mk p.created, by simp, by rw [hh, heq]⟩
    · obtain ⟨k', t, hl, hid⟩ := hno id b hb
      have hne : k' ≠ k := by
        rintro rfl
        exact hk (Finmap.mem_of_lookup_eq_some hl)
      exact ⟨k', t, by rw [if_neg hne]; exact hl, hid⟩

end spawn

section stop

theorem lookup_map_stop : (p.stop K.handle k).map.lookup k' =
    if k' = k then none else p.map.lookup k' := by
  unfold stop
  cases hl : p.map.lookup k with
  | none =>
    by_cases hk : k' = k
    · rw [if_pos hk, hk]; exact hl
    · rw [if_neg hk]
  | some t => exact HashMap.lookup_erase_eq ..

theorem mem_map_stop : k' ∈ (p.stop K.handle k).map ↔ k' ∈ p.map ∧ k' ≠ k := by
  rw [← Finmap.lookup_isSome, ← Finmap.lookup_isSome, lookup_map_stop]
  split <;> simp_all

theorem created_stop : (p.stop K.handle k).created = p.created := by
  unfold stop; split <;> rfl

/-- Stopping aborts the task of the entry. -/
theorem live_stop {t : τ} (ht : p.map.lookup k = some t) :
    (p.stop K.handle k).live.lookup (K.handle t) = none := by
  unfold stop
  simp only [ht, HashMap.lookup_erase_eq, if_true]

theorem live_stop_of_none {n : ℕ} (hn : p.live.lookup n = none) :
    (p.stop K.handle k).live.lookup n = none := by
  unfold stop
  split
  · simp only [HashMap.lookup_erase_eq, hn, ite_self]
  · exact hn

/-- Stopping makes no task live. -/
theorem live_of_live_stop {n : ℕ} (h : (p.stop K.handle k).live.lookup n = some a) :
    p.live.lookup n = some a := by
  unfold stop at h
  split at h
  · simp only [HashMap.lookup_erase_eq] at h
    split at h
    · cases h
    · exact h
  · exact h

/-- **Stopping keeps the entries' tasks.** -/
theorem Held.stop (h : p.Held K) (k : κ) : (p.stop K.handle k).Held K := by
  refine ⟨fun k' t hl => ?_, fun id b hl => ?_⟩
  · rw [lookup_map_stop] at hl
    split at hl
    · cases hl
    · rename_i hne
      have hlive := h.held k' t hl
      unfold Pool.stop
      cases hk : p.map.lookup k with
      | none => exact hlive
      | some u =>
        simp only [HashMap.lookup_erase_eq]
        rw [if_neg (h.handle_ne hk hl hne)]
        exact hlive
  · rw [created_stop]
    unfold Pool.stop at hl
    split at hl
    · simp only [HashMap.lookup_erase_eq] at hl
      split at hl
      · cases hl
      · exact h.fresh id b hl
    · exact h.fresh id b hl

/-- **Stopping neither makes nor finds an orphan.** -/
theorem noOrphan_stop : (p.stop K.handle k).NoOrphan K ↔ p.NoOrphan K := by
  have hlive : ∀ id b, (p.stop K.handle k).live.lookup id = some b ↔
      p.live.lookup id = some b ∧ ∀ t, p.map.lookup k = some t → K.handle t ≠ id := by
    intro id b
    unfold stop
    cases hk : p.map.lookup k with
    | none => simp
    | some t =>
      simp only [HashMap.lookup_erase_eq, Option.some.injEq, forall_eq']
      split
      · rename_i heq; simp [heq]
      · rename_i hne; exact (and_iff_left (Ne.symm hne)).symm
  constructor
  · intro hno id b hb
    by_cases hk : ∃ t, p.map.lookup k = some t ∧ K.handle t = id
    · obtain ⟨t, ht, hid⟩ := hk
      exact ⟨k, t, ht, hid⟩
    · obtain ⟨k', t, hl, hid⟩ := hno id b ((hlive id b).2 ⟨hb, fun t ht hid => hk ⟨t, ht, hid⟩⟩)
      rw [lookup_map_stop] at hl
      split at hl
      · cases hl
      · exact ⟨k', t, hl, hid⟩
  · intro hno id b hb
    obtain ⟨hb', hne⟩ := (hlive id b).1 hb
    obtain ⟨k', t, hl, hid⟩ := hno id b hb'
    refine ⟨k', t, ?_, hid⟩
    rw [lookup_map_stop, if_neg]
    · exact hl
    · rintro rfl
      exact hne t hl hid

end stop

/-! ## Lists of tasks -/

variable {key : β → κ}

theorem held_spawnAll (mk : β → ℕ → τ) (what : β → α) (hh : ∀ b n, K.handle (mk b n) = n)
    (ht : ∀ b n, K.task (key b) (mk b n) = what b) :
    ∀ (l : List β) (p : Pool κ τ α), p.Held K →
      (l.foldl (fun p b => p.spawn (key b) (mk b) (what b)) p).Held K := by
  intro l
  induction l with
  | nil => intro p h; exact h
  | cons b l ih => intro p h; exact ih _ (h.spawn (hh b _) (ht b _))

/-- **Creating a list of tasks** leaves no orphan exactly when the keys are distinct and
new. -/
theorem noOrphan_spawnAll (mk : β → ℕ → τ) (what : β → α) (hh : ∀ b n, K.handle (mk b n) = n)
    (ht : ∀ b n, K.task (key b) (mk b n) = what b) :
    ∀ (l : List β) (p : Pool κ τ α), p.Held K →
      ((l.foldl (fun p b => p.spawn (key b) (mk b) (what b)) p).NoOrphan K ↔
        p.NoOrphan K ∧ (l.map key).Nodup ∧ ∀ b ∈ l, key b ∉ p.map) := by
  intro l
  induction l with
  | nil => intro p _; simp
  | cons b l ih =>
    intro p h
    rw [List.foldl_cons, ih _ (h.spawn (hh b _) (ht b _)), noOrphan_spawn h (hh b _)]
    simp only [mem_map_spawn, not_or, List.map_cons, List.nodup_cons, List.mem_map, not_exists,
      not_and, List.forall_mem_cons]
    constructor
    · rintro ⟨⟨hno, hb⟩, hnd, hl⟩
      exact ⟨hno, ⟨fun c hc => (hl c hc).1, hnd⟩, hb, fun c hc => (hl c hc).2⟩
    · rintro ⟨hno, ⟨hbl, hnd⟩, hb, hl⟩
      exact ⟨⟨hno, hb⟩, hnd, fun c hc => ⟨hbl c hc, hl c hc⟩⟩

theorem held_stopAll : ∀ (l : List β) (p : Pool κ τ α), p.Held K →
    (l.foldl (fun p b => p.stop K.handle (key b)) p).Held K := by
  intro l
  induction l with
  | nil => intro p h; exact h
  | cons b l ih => intro p h; exact ih _ (h.stop _)

theorem noOrphan_stopAll : ∀ (l : List β) (p : Pool κ τ α),
    (l.foldl (fun p b => p.stop K.handle (key b)) p).NoOrphan K ↔ p.NoOrphan K := by
  intro l
  induction l with
  | nil => intro p; rfl
  | cons b l ih => intro p; rw [List.foldl_cons, ih, noOrphan_stop]

theorem mem_map_stopAll : ∀ (l : List β) (p : Pool κ τ α),
    k ∈ (l.foldl (fun p b => p.stop K.handle (key b)) p).map ↔ k ∈ p.map ∧ k ∉ l.map key := by
  intro l
  induction l with
  | nil => intro p; simp
  | cons b l ih =>
    intro p
    rw [List.foldl_cons, ih, mem_map_stop]
    simp only [List.map_cons, List.mem_cons, not_or, and_assoc]

theorem lookup_map_stopAll : ∀ (l : List β) (p : Pool κ τ α), k ∉ l.map key →
    (l.foldl (fun p b => p.stop K.handle (key b)) p).map.lookup k = p.map.lookup k := by
  intro l
  induction l with
  | nil => intro p _; rfl
  | cons b l ih =>
    intro p hk
    rw [List.map_cons, List.mem_cons, not_or] at hk
    rw [List.foldl_cons, ih _ hk.2, lookup_map_stop, if_neg hk.1]

theorem created_stopAll : ∀ (l : List β) (p : Pool κ τ α),
    (l.foldl (fun p b => p.stop K.handle (key b)) p).created = p.created := by
  intro l
  induction l with
  | nil => intro p; rfl
  | cons b l ih => intro p; rw [List.foldl_cons, ih, created_stop]

theorem live_stopAll_of_none {n : ℕ} : ∀ (l : List β) (p : Pool κ τ α), p.live.lookup n = none →
    (l.foldl (fun p b => p.stop K.handle (key b)) p).live.lookup n = none := by
  intro l
  induction l with
  | nil => intro p h; exact h
  | cons b l ih => intro p h; exact ih _ (live_stop_of_none h)

/-- **A stopped entry's task is aborted.** -/
theorem live_stopAll {t : τ} : ∀ (l : List β) (p : Pool κ τ α), k ∈ l.map key →
    p.map.lookup k = some t →
    (l.foldl (fun p b => p.stop K.handle (key b)) p).live.lookup (K.handle t) = none := by
  intro l
  induction l with
  | nil => intro p hk; simp at hk
  | cons b l ih =>
    intro p hk ht
    rw [List.foldl_cons]
    by_cases hb : k = key b
    · subst hb
      exact live_stopAll_of_none l _ (live_stop ht)
    · refine ih _ ?_ (by rw [lookup_map_stop, if_neg hb, ht])
      rw [List.map_cons, List.mem_cons] at hk
      exact hk.resolve_left hb

theorem live_of_live_stopAll {n : ℕ} : ∀ (l : List β) (p : Pool κ τ α),
    (l.foldl (fun p b => p.stop K.handle (key b)) p).live.lookup n = some a → p.live.lookup n = some a := by
  intro l
  induction l with
  | nil => intro p h; exact h
  | cons b l ih => intro p h; exact live_of_live_stop (ih _ h)

theorem mem_map_spawnAll (mk : β → ℕ → τ) (what : β → α) : ∀ (l : List β) (p : Pool κ τ α),
    k ∈ (l.foldl (fun p b => p.spawn (key b) (mk b) (what b)) p).map ↔ k ∈ p.map ∨ k ∈ l.map key := by
  intro l
  induction l with
  | nil => intro p; simp
  | cons b l ih =>
    intro p
    rw [List.foldl_cons, ih, mem_map_spawn, List.map_cons, List.mem_cons]
    tauto

/-- **After creating tasks** an entry is the one before, if its key is in none of them,
or a new one. -/
theorem lookup_map_spawnAll (mk : β → ℕ → τ) (what : β → α) : ∀ (l : List β) (p : Pool κ τ α),
    (k ∉ l.map key ∧ (l.foldl (fun p b => p.spawn (key b) (mk b) (what b)) p).map.lookup k =
      p.map.lookup k) ∨
    ∃ b ∈ l, ∃ n, p.created ≤ n ∧ key b = k ∧
      (l.foldl (fun p b => p.spawn (key b) (mk b) (what b)) p).map.lookup k = some (mk b n) := by
  intro l
  induction l with
  | nil => intro p; exact Or.inl ⟨by simp, rfl⟩
  | cons b l ih =>
    intro p
    rw [List.foldl_cons]
    rcases ih (p.spawn (key b) (mk b) (what b)) with ⟨hk, hl⟩ | ⟨c, hc, n, hn, hkc, hl⟩
    · rw [hl]
      simp only [spawn, HashMap.lookup_insert_eq]
      by_cases hb : k = key b
      · exact Or.inr ⟨b, List.mem_cons_self, p.created, le_rfl, hb.symm, if_pos hb⟩
      · refine Or.inl ⟨?_, if_neg hb⟩
        rw [List.map_cons, List.mem_cons, not_or]
        exact ⟨hb, hk⟩
    · have hn' : p.created + 1 ≤ n := hn
      exact Or.inr ⟨c, List.mem_cons_of_mem _ hc, n, by omega, hkc, hl⟩

theorem created_spawnAll (mk : β → ℕ → τ) (what : β → α) : ∀ (l : List β) (p : Pool κ τ α),
    (l.foldl (fun p b => p.spawn (key b) (mk b) (what b)) p).created = p.created + l.length := by
  intro l
  induction l with
  | nil => intro p; rfl
  | cons b l ih =>
    intro p
    have hone : (p.spawn (key b) (mk b) (what b)).created = p.created + 1 := rfl
    rw [List.foldl_cons, ih, hone, List.length_cons]
    omega

/-- Creating tasks changes no earlier task. -/
theorem live_spawnAll (mk : β → ℕ → τ) (what : β → α) {n : ℕ} : ∀ (l : List β) (p : Pool κ τ α),
    n < p.created →
    (l.foldl (fun p b => p.spawn (key b) (mk b) (what b)) p).live.lookup n = p.live.lookup n := by
  intro l
  induction l with
  | nil => intro p _; rfl
  | cons b l ih =>
    intro p hn
    have hn' : n < p.created + 1 := by omega
    rw [List.foldl_cons, ih _ hn']
    simp only [spawn, HashMap.lookup_insert_eq]
    exact if_neg (by omega)

/-- What a live task does, after creating tasks: what it did before, or what one of them does. -/
theorem live_spawnAll_cases (mk : β → ℕ → τ) (what : β → α) {n : ℕ} : ∀ (l : List β) (p : Pool κ τ α),
    (l.foldl (fun p b => p.spawn (key b) (mk b) (what b)) p).live.lookup n = some a →
    p.live.lookup n = some a ∨ ∃ b ∈ l, what b = a := by
  intro l
  induction l with
  | nil => intro p h; exact Or.inl h
  | cons b l ih =>
    intro p h
    rw [List.foldl_cons] at h
    rcases ih _ h with h | ⟨c, hc, rfl⟩
    · simp only [spawn, HashMap.lookup_insert_eq] at h
      split at h
      · exact Or.inr ⟨b, List.mem_cons_self, Option.some.inj h⟩
      · exact Or.inl h
    · exact Or.inr ⟨c, List.mem_cons_of_mem _ hc, rfl⟩

/-- What a live task does after some tasks are stopped and others created: what it did, or it
is new and one of these. -/
theorem live_spawnAll_stopAll {γ : Type*} (mk : β → ℕ → τ) (what : β → α) {n : ℕ} {off : γ → κ} (l : List γ)
    (m : List β) (p : Pool κ τ α)
    (h : (m.foldl (fun p b => p.spawn (key b) (mk b) (what b))
      (l.foldl (fun p c => p.stop K.handle (off c)) p)).live.lookup n = some a) :
    p.live.lookup n = some a ∨ p.created ≤ n ∧ ∃ b ∈ m, what b = a := by
  set stopped := l.foldl (fun p c => p.stop K.handle (off c)) p with hstopped
  have hcreated : stopped.created = p.created := created_stopAll l p
  have hback : ∀ {a}, stopped.live.lookup n = some a → p.live.lookup n = some a :=
    live_of_live_stopAll l p
  by_cases hn : n < p.created
  · rw [live_spawnAll mk what m stopped (hcreated ▸ hn)] at h
    exact Or.inl (hback h)
  · exact (live_spawnAll_cases mk what m stopped h).imp hback fun hb => ⟨not_lt.1 hn, hb⟩

/-! ## What the tasks were created for -/

/-- What each task was created for, when the pool `p` has become `p'`: the new tasks are
those with new numbers. -/
def origins (p p' : Pool κ τ α) (origin : ℕ → Option α) (i : ℕ) : Option α :=
  if i < p.created then origin i else p'.live.lookup i

/-- It is known of every task so far what it was created for, and a live one does it. -/
structure Known (p : Pool κ τ α) (origin : ℕ → Option α) : Prop where
  live : ∀ i a, p.live.lookup i = some a → origin i = some a
  created : ∀ i, origin i ≠ none → i < p.created

omit [DecidableEq κ] in
/-- **A change that makes no old task live** keeps what is known. -/
theorem Known.origins {p' : Pool κ τ α} {origin : ℕ → Option α} (h : p.Known origin)
    (hfresh : ∀ i a, p'.live.lookup i = some a → i < p'.created) (hle : p.created ≤ p'.created)
    (hold : ∀ i a, i < p.created → p'.live.lookup i = some a → p.live.lookup i = some a) :
    p'.Known (p.origins p' origin) := by
  refine ⟨fun i a hlive => ?_, fun i hi => ?_⟩
  · unfold Pool.origins
    split
    · next hlt => exact h.live i a (hold i a hlt hlive)
    · exact hlive
  · unfold Pool.origins at hi
    split at hi
    · next hlt => exact hlt.trans_le hle
    · obtain ⟨a, ha⟩ := Option.ne_none_iff_exists'.1 hi
      exact hfresh i a ha

end Pool

end CryptoMarket
