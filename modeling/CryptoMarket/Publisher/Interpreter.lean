import CryptoMarket.Publisher.Commands
import Mathlib.Data.List.TakeWhile

/-!
# Publisher server: the effect of one buffer

`handle_sub` cuts the text at `;` and executes the pieces until one does not have exactly
one `@` (`segments`). What it leaves is told by these pieces alone.

* `runActions_cons`: one turn of the loop.
* `cid_mem_setAfter`: the last `sub` or `unsub` of a topic decides.
* `handleSub_effect`: the subscriptions and the replies after a buffer.
-/

namespace CryptoMarket.Publisher

variable {Conn : Type} {q : Quiche Conn} {cid i : ConnectionId} {stream : StreamId}
  {client : Client Conn} {sub sub' : ClientSubscribe} {s t name topic : String}
  {cids : HashSet ConnectionId}

/-- A piece with one `@`. -/
def OneAt (s : String) : Prop := s.toList.count '@' = 1

instance : DecidablePred OneAt := fun s => inferInstanceAs (Decidable (s.toList.count '@' = 1))

/-- The longest beginning of the pieces in which each has one `@`. -/
def segments (text : String) : List String := (split ';' text).takeWhile fun s => OneAt s

/-- `command[0]` -/
def actionOf (s : String) : String := (split '@' s).headD ""

/-- `command[1]` -/
def topicOf (s : String) : String := (split '@' s).tail.headD ""

/-- The action is neither `sub` nor `unsub`, or there is no such topic. -/
def Rejected (sub : ClientSubscribe) (s : String) : Prop :=
  actionOf s ∉ ["sub", "unsub"] ∨ topicOf s ∉ sub

instance (sub : ClientSubscribe) : DecidablePred (Rejected sub) := fun _ =>
  inferInstanceAs (Decidable (_ ∨ _))

/-- The last of the pieces that is `sub@t` or `unsub@t`. -/
def lastCommand (t : String) (segs : List String) : Option String :=
  (segs.filter fun s => s = "sub@" ++ t ∨ s = "unsub@" ++ t).getLast?

example : segments "sub@btc;unsub@btc;sub;sub@eth" = ["sub@btc", "unsub@btc"] := by decide

/-! ## One piece -/

theorem split_of_oneAt (h : OneAt s) : split '@' s = [actionOf s, topicOf s] := by
  have hlen : (split '@' s).length = 2 := by rw [length_split, h]
  obtain ⟨a, b, hab⟩ := List.length_eq_two.1 hlen
  simp only [actionOf, topicOf, hab, List.headD_cons, List.tail_cons]

theorem split_of_not_oneAt (h : ¬ OneAt s) (a b : String) : split '@' s ≠ [a, b] := by
  intro heq
  have hlen := length_split '@' s
  rw [heq] at hlen
  exact h (by simpa [OneAt] using hlen.symm)

/-- A piece is a given command on a topic when its parts are. -/
theorem eq_command_iff (h : OneAt s) (hname : '@' ∉ name.toList) :
    s = name ++ "@" ++ t ↔ actionOf s = name ∧ topicOf s = t := by
  have happend : split '@' (name ++ "@" ++ t) = name :: split '@' t := by
    have := split_append_sep '@' name t
    rwa [split_of_not_mem hname] at this
  have htopic : split '@' (topicOf s) = [topicOf s] := by
    refine split_of_not_mem (mem_split (d := '@') (s := s) ?_).1
    simp [split_of_oneAt h]
  rw [← split_inj (c := '@'), happend, split_of_oneAt h, List.cons.injEq, ← htopic, split_inj]

/-- A command is answered with an error exactly when it is rejected. -/
theorem subCommand_ok_iff : (∃ msg, (subCommand cid name topic sub).1 = .ok msg) ↔
    name ∈ ["sub", "unsub"] ∧ topic ∈ sub := by
  rw [← Finmap.lookup_isSome]
  unfold subCommand
  split
  · cases sub.lookup topic <;> simp
  · cases sub.lookup topic <;> simp
  · next hsub hunsub =>
    have hname : name ∉ ["sub", "unsub"] := by
      rw [List.mem_cons, List.mem_singleton, not_or]
      exact ⟨hsub, hunsub⟩
    simp [hname]

theorem mem_subCommand : t ∈ (subCommand cid name topic sub).2 ↔ t ∈ sub := by
  rw [← Finmap.lookup_isSome, ← Finmap.lookup_isSome, lookup_subCommand_eq, Option.isSome_map]

/-- The client after a command: an error is sent back. -/
def reply (q : Quiche Conn) (stream : StreamId) (answer : Except String String) (client : Client Conn) :
    Client Conn :=
  match answer with
  | .error msg => (client.streamSend q stream (errorReply msg) false).2
  | .ok _ => client

/-- **One turn of the loop.** -/
theorem runActions_cons (actions : List String) :
    runActions q stream cid (s :: actions) (client, sub) =
      if OneAt s then runActions q stream cid actions
        (reply q stream (subCommand cid (actionOf s) (topicOf s) sub).1 client,
          (subCommand cid (actionOf s) (topicOf s) sub).2)
      else (client, sub) := by
  by_cases h : OneAt s
  · rw [if_pos h]
    simp only [runActions, split_of_oneAt h]
    cases (subCommand cid (actionOf s) (topicOf s) sub).1 <;> rfl
  · rw [if_neg h]
    unfold runActions
    split
    · next a b heq => exact absurd heq (split_of_not_oneAt h a b)
    · rfl

/-! ## The subscriptions -/

/-- The loop on the subscriptions, over the pieces it comes to. -/
theorem runActions_sub : ∀ (actions : List String) (client : Client Conn) (sub : ClientSubscribe),
    (runActions q stream cid actions (client, sub)).2 =
      (actions.takeWhile fun s => OneAt s).foldl
        (fun sub s => (subCommand cid (actionOf s) (topicOf s) sub).2) sub := by
  intro actions
  induction actions with
  | nil => intro client sub; rfl
  | cons s actions ih =>
    intro client sub
    rw [runActions_cons, List.takeWhile_cons]
    by_cases h : OneAt s
    · simp only [h, if_true, decide_true, List.foldl_cons]
      exact ih _ _
    · simp only [h, if_false, decide_false]
      rfl

/-- What pieces do to the set of a topic. -/
def setAfter (cid : ConnectionId) (t : String) (segs : List String) (cids : HashSet ConnectionId) :
    HashSet ConnectionId :=
  segs.foldl (fun cids s => if t = topicOf s then commandSet cid (actionOf s) cids else cids) cids

theorem lookup_foldl_subCommand (t : String) : ∀ (segs : List String) (sub : ClientSubscribe),
    (segs.foldl (fun sub s => (subCommand cid (actionOf s) (topicOf s) sub).2) sub).lookup t =
      (sub.lookup t).map (setAfter cid t segs) := by
  intro segs
  induction segs with
  | nil => intro sub; cases h : sub.lookup t <;> simp [h, setAfter]
  | cons s segs ih =>
    intro sub
    rw [List.foldl_cons, ih, lookup_subCommand_eq, Option.map_map]
    rfl

/-- The other connections stay where they are. -/
theorem mem_setAfter_of_ne (hi : i ≠ cid) : ∀ (segs : List String) (cids : HashSet ConnectionId),
    i ∈ setAfter cid t segs cids ↔ i ∈ cids := by
  intro segs
  induction segs with
  | nil => intro cids; rfl
  | cons s segs ih =>
    intro cids
    have hone : i ∈ (if t = topicOf s then commandSet cid (actionOf s) cids else cids) ↔ i ∈ cids := by
      split
      · simp [mem_commandSet, hi]
      · rfl
    exact (ih _).trans hone

/-- **The last command decides.** The connection is in the topic after the pieces if the last
`sub` or `unsub` of the topic is a `sub`, or there is none and it was in before. -/
theorem cid_mem_setAfter (t : String) (cids : HashSet ConnectionId) : ∀ (segs : List String),
    (∀ s ∈ segs, OneAt s) → (cid ∈ setAfter cid t segs cids ↔
      lastCommand t segs = some ("sub@" ++ t) ∨ lastCommand t segs = none ∧ cid ∈ cids) := by
  intro segs
  induction segs using List.reverseRecOn with
  | nil => intro _; simp [setAfter, lastCommand]
  | append_singleton segs s ih =>
    intro hsegs
    have ih := ih fun s' hs' => hsegs s' (List.mem_append_left _ hs')
    have hone : OneAt s := hsegs s (by simp)
    have hsub : s = "sub@" ++ t ↔ actionOf s = "sub" ∧ topicOf s = t :=
      eq_command_iff hone (show '@' ∉ "sub".toList by decide)
    have hunsub : s = "unsub@" ++ t ↔ actionOf s = "unsub" ∧ topicOf s = t :=
      eq_command_iff hone (show '@' ∉ "unsub".toList by decide)
    have hset : setAfter cid t (segs ++ [s]) cids =
        if t = topicOf s then commandSet cid (actionOf s) (setAfter cid t segs cids)
        else setAfter cid t segs cids := by
      simp only [setAfter, List.foldl_append, List.foldl_cons, List.foldl_nil]
    have hlast : lastCommand t (segs ++ [s]) =
        if s = "sub@" ++ t ∨ s = "unsub@" ++ t then some s else lastCommand t segs := by
      unfold lastCommand
      rw [List.filter_append, List.filter_singleton]
      by_cases h : s = "sub@" ++ t ∨ s = "unsub@" ++ t <;> simp [h]
    rw [hset, hlast]
    by_cases h₁ : s = "sub@" ++ t
    · -- a `sub` puts it in
      obtain ⟨haction, htopic⟩ := hsub.1 h₁
      rw [if_pos htopic.symm, if_pos (Or.inl h₁), mem_commandSet, if_pos ⟨rfl, haction⟩, h₁]
      simp
    · by_cases h₂ : s = "unsub@" ++ t
      · -- an `unsub` takes it out
        obtain ⟨haction, htopic⟩ := hunsub.1 h₂
        rw [if_pos htopic.symm, if_pos (Or.inr h₂), mem_commandSet, haction,
          if_neg (by simp)]
        simp [h₁]
      · -- any other piece leaves it
        rw [if_neg (not_or.2 ⟨h₁, h₂⟩), ← ih]
        by_cases htopic : t = topicOf s
        · have hno : actionOf s ≠ "sub" := fun h => h₁ (hsub.2 ⟨h, htopic.symm⟩)
          have hno' : actionOf s ≠ "unsub" := fun h => h₂ (hunsub.2 ⟨h, htopic.symm⟩)
          rw [if_pos htopic, commandSet, if_neg hno, if_neg hno']
        · rw [if_neg htopic]

/-! ## The replies -/

theorem rejected_congr (h : ∀ t, t ∈ sub' ↔ t ∈ sub) : Rejected sub' s ↔ Rejected sub s := by
  unfold Rejected
  rw [h]

/-- A piece is answered if it is rejected. -/
theorem writes_reply (q : Quiche Conn) (stream : StreamId) (cid : ConnectionId) (s : String)
    (sub : ClientSubscribe) (client : Client Conn) : ∃ ws,
    (reply q stream (subCommand cid (actionOf s) (topicOf s) sub).1 client).writes =
      client.writes ++ ws ∧
    (reply q stream (subCommand cid (actionOf s) (topicOf s) sub).1 client).partialResponses =
      client.partialResponses ∧
    ws.length = (if Rejected sub s then 1 else 0) ∧
    ∀ w ∈ ws, w.stream = stream ∧ w.fin = false ∧ ∃ msg ∈ subErrors, w.data = errorReply msg := by
  cases hanswer : (subCommand cid (actionOf s) (topicOf s) sub).1 with
  | ok msg =>
    obtain ⟨hname, htopic⟩ := subCommand_ok_iff.1 ⟨msg, hanswer⟩
    have hok : ¬ Rejected sub s := not_or.2 ⟨not_not.2 hname, not_not.2 htopic⟩
    exact ⟨[], by simp [reply], rfl, by rw [if_neg hok]; rfl, by simp⟩
  | error msg =>
    have hrejected : Rejected sub s := by
      by_contra hok
      obtain ⟨hname, htopic⟩ := not_or.1 hok
      obtain ⟨msg', hmsg'⟩ : ∃ msg, (subCommand cid (actionOf s) (topicOf s) sub).1 = .ok msg :=
        subCommand_ok_iff.2 ⟨not_not.1 hname, not_not.1 htopic⟩
      rw [hanswer] at hmsg'
      cases hmsg'
    refine ⟨_, rfl, rfl, by rw [if_pos hrejected]; rfl, fun w hw => ?_⟩
    rw [List.mem_singleton.1 hw]
    exact ⟨rfl, rfl, msg, subCommand_error hanswer, rfl⟩

/-- **The replies**: one for each rejected piece. -/
theorem writes_runActions : ∀ (actions : List String) (client : Client Conn) (sub : ClientSubscribe),
    ∃ ws, (runActions q stream cid actions (client, sub)).1.writes = client.writes ++ ws ∧
      (runActions q stream cid actions (client, sub)).1.partialResponses = client.partialResponses ∧
      ws.length = (actions.takeWhile fun s => OneAt s).countP (fun s => Rejected sub s) ∧
      ∀ w ∈ ws, w.stream = stream ∧ w.fin = false ∧ ∃ msg ∈ subErrors, w.data = errorReply msg := by
  intro actions
  induction actions with
  | nil => intro client sub; exact ⟨[], by simp [runActions], rfl, rfl, by simp⟩
  | cons s actions ih =>
    intro client sub
    rw [runActions_cons, List.takeWhile_cons]
    by_cases h : OneAt s
    · simp only [h, if_true, decide_true]
      obtain ⟨ws₁, hw₁, hp₁, hlen₁, hall₁⟩ := writes_reply q stream cid s sub client
      obtain ⟨ws, hw, hp, hlen, hall⟩ := ih
        (reply q stream (subCommand cid (actionOf s) (topicOf s) sub).1 client)
        (subCommand cid (actionOf s) (topicOf s) sub).2
      -- the topics are those there were
      have hcount : ∀ segs : List String,
          segs.countP (fun s' => Rejected (subCommand cid (actionOf s) (topicOf s) sub).2 s') =
            segs.countP fun s' => Rejected sub s' := fun segs =>
        List.countP_congr fun s' _ => by simp [rejected_congr fun t => mem_subCommand]
      refine ⟨ws₁ ++ ws, by rw [hw, hw₁, List.append_assoc], hp.trans hp₁, ?_, fun w hm => ?_⟩
      · rw [List.length_append, hlen₁, hlen, hcount, List.countP_cons]
        by_cases hr : Rejected sub s <;> simp [hr, Nat.add_comm]
      · exact (List.mem_append.1 hm).elim (hall₁ w) (hall w)
    · simp only [h, if_false, decide_false]
      exact ⟨[], by simp, trivial, rfl, by simp⟩

/-- **The effect of one buffer.** Bytes that are not UTF-8 change nothing. Otherwise, with the
longest beginning of the pieces in which each has one `@`: the topics are the same; of each
topic the connection is in the set afterwards exactly if the last of these pieces that is a
`sub` or `unsub` of the topic is a `sub`, or there is none and it was in before; the other
connections are in the sets they were in; and the client has been sent an error, on the
stream, for each of the pieces whose action is neither or whose topic does not exist. -/
theorem handleSub_effect (q : Quiche Conn) (stream : StreamId) (buf : Bytes) (cid : ConnectionId)
    (client : Client Conn) (sub : ClientSubscribe) :
    (fromUtf8 buf = none → handleSub q stream buf cid (client, sub) = (client, sub)) ∧
    ∀ text, fromUtf8 buf = some text →
      (∀ t, t ∈ (handleSub q stream buf cid (client, sub)).2 ↔ t ∈ sub) ∧
      (∀ t cids, sub.lookup t = some cids →
        ∃ cids', (handleSub q stream buf cid (client, sub)).2.lookup t = some cids' ∧
          (cid ∈ cids' ↔ lastCommand t (segments text) = some ("sub@" ++ t) ∨
            lastCommand t (segments text) = none ∧ cid ∈ cids) ∧
          ∀ i, i ≠ cid → (i ∈ cids' ↔ i ∈ cids)) ∧
      ∃ ws, (handleSub q stream buf cid (client, sub)).1.writes = client.writes ++ ws ∧
        (handleSub q stream buf cid (client, sub)).1.partialResponses = client.partialResponses ∧
        ws.length = (segments text).countP (fun s => Rejected sub s) ∧
        ∀ w ∈ ws, w.stream = stream ∧ w.fin = false ∧ ∃ msg ∈ subErrors, w.data = errorReply msg := by
  refine ⟨fun hbuf => by simp only [handleSub, hbuf], fun text hbuf => ?_⟩
  have hrun : handleSub q stream buf cid (client, sub) =
      runActions q stream cid (split ';' text) (client, sub) := by simp only [handleSub, hbuf]
  have hone : ∀ s ∈ segments text, OneAt s := fun s hs => by
    simpa using List.mem_takeWhile_imp hs
  have hlookup : ∀ t, (handleSub q stream buf cid (client, sub)).2.lookup t =
      (sub.lookup t).map (setAfter cid t (segments text)) := by
    intro t
    rw [hrun, runActions_sub]
    exact lookup_foldl_subCommand t _ sub
  refine ⟨fun t => ?_, fun t cids hcids => ?_, ?_⟩
  · rw [← Finmap.lookup_isSome, ← Finmap.lookup_isSome, hlookup, Option.isSome_map]
  · refine ⟨_, by rw [hlookup, hcids, Option.map_some], cid_mem_setAfter t cids _ hone, fun i hi => ?_⟩
    exact mem_setAfter_of_ne hi _ cids
  · rw [hrun]
    exact writes_runActions _ client sub

end CryptoMarket.Publisher
