import CryptoMarket.Publisher.Fragments
import CryptoMarket.Publisher.Receiver

/-!
# Publisher: the subscription format

The client writes `sub@name;` for each of its names and cuts off the last `;`; `handle_sub`
splits the text at `;`, each piece at `@`, and stops at the first piece that has not
exactly one `@`. Nothing is escaped.

* `lookup_applySub_of_sep`: no text subscribes to a topic with a `;` or an `@` in its name.
* `subscriptions_agree_iff`: client and server agree on a list of names, whatever the
  topics are, exactly when no name has one of the two characters.
-/

namespace CryptoMarket.Publisher

variable {Conn : Type} {q : Quiche Conn} {stream : StreamId} {c : Client Conn} {cid : ConnectionId}
  {sub : ClientSubscribe} {names : List String} {name topic : String}

/-- The name can be written in a command. -/
def Plain (name : String) : Prop := ';' ∉ name.toList ∧ '@' ∉ name.toList

instance (name : String) : Decidable (Plain name) := inferInstanceAs (Decidable (_ ∧ _))

/-! ## Writing -/

/-- The command for a name. -/
def subAction (name : String) : String := "sub@" ++ name

theorem split_subAction (h : Plain name) : split '@' (subAction name) = ["sub", name] := by
  have hsplit := split_append_sep '@' "sub" name
  have hsub : split '@' "sub" = ["sub"] := by decide
  rw [hsub, split_of_not_mem h.2] at hsplit
  exact hsplit

theorem not_mem_subAction (h : Plain name) : ';' ∉ (subAction name).toList := by
  simp [subAction, h.1]

theorem isCommand_subAction (h : Plain name) : IsCommand (subAction name) :=
  ⟨not_mem_subAction h, "sub", name, split_subAction h⟩

theorem subscribeData_eq : subscribeData names = utf8 (commandText (names.map subAction)) := by
  induction names with
  | nil => rfl
  | cons name names ih =>
    have hcons : subscribeData (name :: names) = utf8 ("sub@" ++ name ++ ";") ++ subscribeData names := rfl
    rw [hcons, ih, ← utf8_append]
    rfl

theorem commandText_append : ∀ (actions : List String) (action : String),
    commandText (actions ++ [action]) = commandText actions ++ action ++ String.singleton ';' := by
  intro actions
  induction actions with
  | nil => intro action; simp [commandText]
  | cons a actions ih =>
    intro action
    simp only [List.cons_append, commandText, ih, String.append_assoc]

/-- The payload of the client, without the last `;`. -/
theorem dropLast_subscribeData (names : List String) (name : String) :
    (subscribeData (names ++ [name])).dropLast =
      utf8 (commandText (names.map subAction) ++ subAction name) := by
  have hlast : utf8 (String.singleton ';') = [59] := by decide
  rw [subscribeData_eq, List.map_append, List.map_singleton, commandText_append, utf8_append, hlast,
    List.dropLast_concat]

/-! ## Reading -/

/-- The loop over commands for plain names. -/
theorem lookup_applyActions_subAction : ∀ (names : List String) (sub : ClientSubscribe),
    (∀ name ∈ names, Plain name) → (applyActions cid (names.map subAction) sub).lookup topic =
      (sub.lookup topic).map fun cids => if topic ∈ names then insert cid cids else cids := by
  intro names
  induction names with
  | nil => intro sub _; simp [applyActions]
  | cons name names ih =>
    intro sub h
    have hstep : applyActions cid ((name :: names).map subAction) sub =
        applyActions cid (names.map subAction) (subCommand cid "sub" name sub).2 := by
      simp only [List.map_cons, applyActions, split_subAction (h name List.mem_cons_self)]
    rw [hstep, ih _ fun n hn => h n (List.mem_cons_of_mem _ hn), lookup_subCommand_eq, Option.map_map]
    refine congrArg (fun f => (sub.lookup topic).map f) (funext fun cids => ?_)
    -- subscribing twice is subscribing once
    by_cases ht : topic = name <;> by_cases hn : topic ∈ names <;> simp [ht, hn, commandSet]

theorem applyActions_append {rest : List String} : ∀ {actions : List String} {sub : ClientSubscribe},
    (∀ a ∈ actions, IsCommand a) →
    applyActions cid (actions ++ rest) sub = applyActions cid rest (applyActions cid actions sub) := by
  intro actions
  induction actions with
  | nil => intro sub _; rfl
  | cons action actions ih =>
    intro sub h
    obtain ⟨-, name, topic, hsplit⟩ := h action List.mem_cons_self
    simp only [List.cons_append, applyActions, hsplit]
    exact ih fun a ha => h a (List.mem_cons_of_mem _ ha)

/-- **The payload of plain names** is read as their commands. -/
theorem applySub_subscribeData (h : ∀ name ∈ names, Plain name) :
    applySub cid (subscribeData names).dropLast sub = applyActions cid (names.map subAction) sub := by
  rcases List.eq_nil_or_concat names with rfl | ⟨init, last, rfl⟩
  · have hempty : applySub cid (utf8 "") sub = sub := by
      rw [applySub, fromUtf8_utf8]
      exact applyActions_empty
    exact hempty
  · rw [List.concat_eq_append] at h ⊢
    have hinit : ∀ a ∈ init.map subAction, IsCommand a := by
      intro a ha
      obtain ⟨name, hname, rfl⟩ := List.mem_map.1 ha
      exact isCommand_subAction (h name (by simp [hname]))
    have hlast : split ';' (subAction last) = [subAction last] :=
      split_of_not_mem (not_mem_subAction (h last (by simp)))
    rw [dropLast_subscribeData, applySub, fromUtf8_utf8]
    dsimp only
    rw [applyActions_commandText cid _ hinit, hlast, List.map_append, List.map_singleton,
      applyActions_append hinit]

/-- The commands of a text are about topics without a separator in their name. -/
theorem lookup_applyActions_of_sep (htopic : ¬ Plain topic) : ∀ (actions : List String)
    (sub : ClientSubscribe), (∀ action ∈ actions, ';' ∉ action.toList) →
    (applyActions cid actions sub).lookup topic = sub.lookup topic := by
  intro actions
  induction actions with
  | nil => intro sub _; rfl
  | cons action actions ih =>
    intro sub h
    have hrest := fun sub => ih sub fun a ha => h a (List.mem_cons_of_mem _ ha)
    rcases hs : split '@' action with _ | ⟨name, _ | ⟨other, _ | ⟨x, xs⟩⟩⟩
    · simp only [applyActions, hs]
    · simp only [applyActions, hs]
    · have hmem : other ∈ split '@' action := by simp [hs]
      have hplain : Plain other :=
        ⟨fun hsemi => h action List.mem_cons_self ((mem_split hmem).2 hsemi), (mem_split (d := '@') hmem).1⟩
      have hne : topic ≠ other := fun heq => htopic (heq ▸ hplain)
      simp only [applyActions, hs]
      rw [hrest, lookup_subCommand_eq]
      simp [hne]
    · simp only [applyActions, hs]

/-- **No text subscribes to a topic with a separator** in its name. -/
theorem lookup_applySub_of_sep (htopic : ¬ Plain topic) (buf : Bytes) :
    (applySub cid buf sub).lookup topic = sub.lookup topic := by
  unfold applySub
  split
  · rfl
  · exact lookup_applyActions_of_sep htopic _ _ fun action ha => (mem_split (d := ';') ha).1

/-- **The subscription format.** For every table, connection and topic, `handle_sub` on the
payload of a list of names subscribes the connection to the listed topics and changes
nothing else, if and only if no name has a `;` or an `@`. -/
theorem subscriptions_agree_iff (q : Quiche Conn) (stream : StreamId) (c : Client Conn)
    (names : List String) :
    (∀ (cid : ConnectionId) (sub : ClientSubscribe) (topic : String),
        (handleSub q stream (subscribeData names).dropLast cid (c, sub)).2.lookup topic =
          (sub.lookup topic).map fun cids => if topic ∈ names then insert cid cids else cids) ↔
      ∀ name ∈ names, ';' ∉ name.toList ∧ '@' ∉ name.toList := by
  simp only [handleSub_snd]
  constructor
  · intro hall name hname
    by_contra hsep
    -- the table with this topic, and nobody in it
    have hlookup := hall [] (registerTopics [name] ∅) name
    rw [lookup_applySub_of_sep hsep, lookup_registerTopics_eq] at hlookup
    simp [hname] at hlookup
  · intro hplain cid sub topic
    rw [applySub_subscribeData hplain]
    exact lookup_applyActions_subAction names sub hplain

/-- **A name with an `@`** is a topic that nobody can subscribe to. -/
theorem subscription_lost :
    ¬ ∀ (cid : ConnectionId) (sub : ClientSubscribe) (topic : String),
      (handleSub (sampleQuiche List.length) 4 (subscribeData ["binance_spot_candlestick@60"]).dropLast
        cid (⟨[], ∅, []⟩, sub)).2.lookup topic =
      (sub.lookup topic).map fun cids =>
        if topic ∈ ["binance_spot_candlestick@60"] then insert cid cids else cids := by
  intro hall
  have hlookup := hall sampleCid (registerTopics ["binance_spot_candlestick@60"] ∅)
    "binance_spot_candlestick@60"
  rw [handleSub_snd] at hlookup
  revert hlookup
  decide

end CryptoMarket.Publisher
