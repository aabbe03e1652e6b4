import Mathlib.Data.Finmap

/-!
# Hash maps and hash sets

A `HashMap` is a finite map, a `HashSet` a finite set: equal when they hold the same
entries. The order in which a loop walks one is not fixed; a loop takes the order it
walks as a list and `Walks` says that the list is such an order.

* `removeAll`: removing every key of a set, in any order.
* `mapValues`, `filter`: `values_mut` and `retain`.
-/

namespace CryptoMarket

variable {α β : Type*}

/-- `HashMap<K, V>`. -/
abbrev HashMap (α β : Type*) := Finmap fun _ : α => β

/-- `HashSet<T>`. -/
abbrev HashSet (α : Type*) := Finset α

/-- `order` is an order in which a loop can walk the set. -/
def HashSet.Walks (s : HashSet α) (order : List α) : Prop := (order : Multiset α) = s.val

theorem HashSet.Walks.mem_iff {s : HashSet α} {order : List α} (h : s.Walks order) {a : α} :
    a ∈ order ↔ a ∈ s := by
  rw [← Finset.mem_val, ← h, Multiset.mem_coe]

theorem HashSet.Walks.nodup {s : HashSet α} {order : List α} (h : s.Walks order) : order.Nodup := by
  rw [← Multiset.coe_nodup, h]; exact s.nodup

/-- An iteration order: for each set an order in which a loop walks it. -/
structure HashSet.Order (α : Type*) where
  walk : HashSet α → List α
  walks : ∀ s, HashSet.Walks s (walk s)

theorem HashSet.Order.mem_walk (o : HashSet.Order α) {s : HashSet α} {a : α} : a ∈ o.walk s ↔ a ∈ s :=
  (o.walks s).mem_iff

theorem HashSet.Order.nodup_walk (o : HashSet.Order α) (s : HashSet α) : (o.walk s).Nodup :=
  (o.walks s).nodup

noncomputable instance : Inhabited (HashSet.Order α) := ⟨⟨Finset.toList, Finset.coe_toList⟩⟩

section

variable [DecidableEq α]

/-- `HashSet::insert`: whether the element was not there, and the set with it. -/
def HashSet.add (a : α) (s : HashSet α) : Bool × HashSet α := (decide (a ∉ s), insert a s)

/-- `HashSet::remove`: whether the element was there, and the set without it. -/
def HashSet.remove (a : α) (s : HashSet α) : Bool × HashSet α := (decide (a ∈ s), s.erase a)

end

namespace HashMap

/-- `order` is an order in which a loop can walk the map. -/
def Walks (m : HashMap α β) (order : List (α × β)) : Prop :=
  (order : Multiset (α × β)) = m.entries.map fun e => (e.1, e.2)

theorem nodup_map_entries (m : HashMap α β) : (m.entries.map fun e => (e.1, e.2)).Nodup :=
  m.nodup_entries.map fun e e' h => by
    obtain ⟨a, b⟩ := e; obtain ⟨a', b'⟩ := e'
    simp only [Prod.mk.injEq] at h
    obtain ⟨rfl, rfl⟩ := h; rfl

theorem Walks.nodup {m : HashMap α β} {order : List (α × β)} (h : m.Walks order) :
    order.Nodup := by
  rw [← Multiset.coe_nodup, h]; exact m.nodup_map_entries

variable [DecidableEq α]

theorem Walks.mem_iff {m : HashMap α β} {order : List (α × β)} (h : m.Walks order) {a : α} {b : β} :
    (a, b) ∈ order ↔ m.lookup a = some b := by
  rw [← Multiset.mem_coe, h, Multiset.mem_map, Finmap.lookup_eq_some_iff]
  constructor
  · rintro ⟨⟨a', b'⟩, hm, he⟩
    simp only [Prod.mk.injEq] at he
    obtain ⟨rfl, rfl⟩ := he; exact hm
  · intro hm; exact ⟨⟨a, b⟩, hm, rfl⟩

/-- The entries under one key: at most one. -/
theorem filter_entries_key (m : HashMap α β) (a : α) :
    m.entries.filter (fun e => e.1 = a) = ((m.lookup a).map fun b => ({⟨a, b⟩} : Multiset _)).getD 0 := by
  cases hl : m.lookup a with
  | none =>
    refine Multiset.filter_eq_nil.2 fun e he hea => ?_
    subst hea
    rw [Finmap.lookup_eq_some_iff.2 he] at hl; cases hl
  | some b =>
    refine (Multiset.Nodup.ext (m.nodup_entries.filter _) (Multiset.nodup_singleton _)).2 fun e => ?_
    rw [Multiset.mem_filter]
    constructor
    · rintro ⟨he, rfl⟩
      rw [Finmap.lookup_eq_some_iff.2 he] at hl
      rw [← Option.some.inj hl]; exact Multiset.mem_singleton_self _
    · intro he
      rw [Multiset.mem_singleton.1 he]
      exact ⟨Finmap.lookup_eq_some_iff.1 hl, rfl⟩

/-! ## Removing keys -/

instance : LeftCommutative fun (a : α) (m : HashMap α β) => m.erase a :=
  ⟨fun _ _ _ => Finmap.erase_erase⟩

/-- Removes every key of `s`, in any order. -/
def removeAll (s : HashSet α) (m : HashMap α β) : HashMap α β :=
  s.val.foldr (fun a m => m.erase a) m

theorem lookup_removeAll (s : HashSet α) (m : HashMap α β) (a : α) :
    (m.removeAll s).lookup a = if a ∈ s then none else m.lookup a := by
  have key : ∀ t : Multiset α,
      (t.foldr (fun a m => m.erase a) m : HashMap α β).lookup a =
        if a ∈ t then none else m.lookup a := by
    intro t
    induction t using Multiset.induction_on with
    | empty => simp
    | cons b t ih =>
      rw [Multiset.foldr_cons]
      by_cases hab : a = b
      · subst hab; simp
      · rw [Finmap.lookup_erase_ne hab, ih]; simp [hab]
  exact (key s.val).trans (if_congr (Iff.of_eq Finset.mem_val) rfl rfl)

@[simp] theorem mem_removeAll {s : HashSet α} {m : HashMap α β} {a : α} :
    a ∈ m.removeAll s ↔ a ∈ m ∧ a ∉ s := by
  rw [← Finmap.lookup_isSome, ← Finmap.lookup_isSome, lookup_removeAll]
  split <;> simp_all

/-! ## Changing values and filtering -/

/-- The map with the entries `lookup` gives for `keys`. -/
def ofLookup (keys : HashSet α) (lookup : α → Option β) (h : ∀ a, (lookup a).isSome ↔ a ∈ keys) :
    HashMap α β :=
  Finmap.keysLookupEquiv.symm ⟨(keys, lookup), h⟩

@[simp] theorem lookup_ofLookup (keys : HashSet α) (lookup : α → Option β) (h) (a : α) :
    (ofLookup keys lookup h).lookup a = lookup a :=
  Finmap.keysLookupEquiv_symm_apply_lookup _ a

/-- `values_mut`: every value changed by `f`. -/
def mapValues (f : β → β) (m : HashMap α β) : HashMap α β :=
  ofLookup m.keys (fun a => (m.lookup a).map f) fun a => by simp [Finmap.lookup_isSome, Finmap.mem_keys]

@[simp] theorem lookup_mapValues (f : β → β) (m : HashMap α β) (a : α) :
    (m.mapValues f).lookup a = (m.lookup a).map f := lookup_ofLookup _ _ _ _

/-- `retain`, by the values. -/
def filter (p : β → Bool) (m : HashMap α β) : HashMap α β :=
  ofLookup (m.keys.filter fun a => ((m.lookup a).filter p).isSome) (fun a => (m.lookup a).filter p)
    fun a => by
      simp only [Finset.mem_filter, Finmap.mem_keys, iff_and_self]
      intro h
      obtain ⟨b, hb⟩ := Option.isSome_iff_exists.1 h
      exact Finmap.mem_of_lookup_eq_some (Option.eq_some_of_filter_eq_some hb)

@[simp] theorem lookup_filter (p : β → Bool) (m : HashMap α β) (a : α) :
    (m.filter p).lookup a = (m.lookup a).filter p := lookup_ofLookup _ _ _ _

theorem lookup_insert_eq (m : HashMap α β) (a a' : α) (b : β) :
    (m.insert a b).lookup a' = if a' = a then some b else m.lookup a' := by
  split
  · rename_i h; subst h; exact Finmap.lookup_insert m
  · rename_i h; exact Finmap.lookup_insert_of_ne m h

theorem lookup_erase_eq (m : HashMap α β) (a a' : α) :
    (m.erase a).lookup a' = if a' = a then none else m.lookup a' := by
  split
  · rename_i h; subst h; exact Finmap.lookup_erase _ m
  · rename_i h; exact Finmap.lookup_erase_ne h

end HashMap

end CryptoMarket
