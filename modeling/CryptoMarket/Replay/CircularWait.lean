import CryptoMarket.Replay.Channels
import CryptoMarket.Replay.Subscriptions

/-!
# Circular waits between the hub and its sessions

A session takes nothing from its JSON queue while it handles a text, and in that time
may send to the hub (`Phase.Owes`) or to its own queue (`Phase.AtReply`).

* `hub_run_of_net`: the hub of the net is the hub of `Hub.run`, so what holds along its
  runs holds here.
* `no_circularWait`: in a run in which nobody fills or waits for the JSON queue of a
  session that is busy so (`Guard`), no circular wait is reached.
* `circularWait_reply`, `circularWait_send`: without the guard both kinds are reached,
  by one client that sends texts and is not read from.
-/

namespace CryptoMarket.Replay

/-- The next thing the session does is to send into its own queue. -/
def Phase.AtReply : Phase → Prop
  | .handling (.reply _ :: _) _ => True
  | _ => False

/-- The session sends to the hub before it takes from its JSON queue again: a send is
left, or the text has failed and the last `Unsubscribe(None)` follows. -/
def Phase.Owes : Phase → Prop
  | .handling ops ok => (∃ a, .send a ∈ ops) ∨ ok = false
  | .closing => True
  | _ => False

/-- There is room in the JSON queue of session `i`. -/
def Net.Room (n : Net) (i : ℕ) : Prop := (n.session i).rxJson.length < jsonCap

/-- The hub is at a send to session `i`. -/
def Net.Heading (n : Net) (i : ℕ) : Prop := ∃ msg rest, n.sending = (⟨i⟩, msg) :: rest

/-- The hub can go to a send to session `i`. -/
def Net.Ready (n : Net) (i : ℕ) : Prop := (n.session i).phase.Owes → n.Room i

/-- The action is answered: a subscription always, an unsubscription from a topic if the
user is known. -/
def Hub.Answers (h : Hub) (a : ChannelAction) : Prop :=
  match a.action with
  | .subscribe _ _ => True
  | .unsubscribe (some _) => a.id ∈ h.userList
  | .unsubscribe none => False

/-- The condition on a step. A session with a full queue starts on no text whose first operation
is a reply, and, while the hub is at a send to it, on none that sends to the hub or ends the loop,
nor does it leave its loop on a close frame or a receive error. A push of the hub leaves a place
in the queue of a session that is at a reply; so does a history record, also where the hub is at
a send to a session that still sends to it. And the hub turns to a send to a session that still
sends to it only if there is room. A failed `socket.send` needs no condition. -/
def Guard (x : Crates) (n : Net) : Label → Prop
  | .text i json =>
    let p := Phase.handling (jsonHandle x json i).1 (jsonHandle x json i).2
    (p.AtReply → n.Room i) ∧ (p.Owes → n.Heading i → n.Room i)
  | .leave i => n.Heading i → n.Room i
  | .takeAction => ∀ a rest, n.actions = a :: rest → n.hub.Answers a → n.Ready a.id
  | .takeData order => ∀ m ∈ order.head?, n.Ready m.1.session
  | .push => ∀ tx msg rest, n.sending = (tx, msg) :: rest →
    ((n.session tx.session).phase.AtReply → (n.session tx.session).rxJson.length + 1 < jsonCap) ∧
      ∀ m ∈ rest.head?, n.Ready m.1.session
  | .history i _ => (n.session i).phase.AtReply ∨ n.Heading i ∧ (n.session i).phase.Owes →
    (n.session i).rxJson.length + 1 < jsonCap
  | _ => True

variable {x : Crates} {n n' : Net} {l : Label} {ls : List Label}

/-! ## What a step does to a session -/

theorem Net.session_set (n : Net) (i : ℕ) (c : Session) (j : ℕ) :
    (n.set i c).session j = if j = i then c else n.session j := Function.update_apply ..

/-- A reply of the session's own task, once it is in the queue. -/
theorem Net.pushJson_goto (n : Net) (i : ℕ) (p : Phase) (msg : String) : (n.goto i p).pushJson i msg =
    n.set i ⟨p, (n.session i).rxJson ++ [msg], (n.session i).spawned⟩ := by
  simp [Net.goto, Net.pushJson, Net.set]

/-- What a step does to a session: its queue keeps its items, gets one or loses the first; and the
task goes on, from the last send to the end. -/
structure Session.Moves (c c' : Session) : Prop where
  queue : c'.rxJson = c.rxJson ∨ (c.rxJson.length < jsonCap ∧ ∃ msg, c'.rxJson = c.rxJson ++ [msg]) ∨
    ∃ msg, c.rxJson = msg :: c'.rxJson
  phase : c'.phase = c.phase ∨ c.phase ≠ .ended ∧ (c.phase = .closing → c'.phase = .ended)

/-- **A step moves one session at most.** -/
theorem Step.session (hst : Step x n l n') :
    n'.session = n.session ∨ ∃ i c, n'.session = (n.set i c).session ∧ (n.session i).Moves c := by
  -- the task goes on from a phase before the last send
  have hgoto : ∀ {i : ℕ} {c : Session}, n'.session = (n.set i c).session →
      c.rxJson = (n.session i).rxJson → (n.session i).phase ≠ .ended → (n.session i).phase ≠ .closing →
      n'.session = n.session ∨ ∃ i c, n'.session = (n.set i c).session ∧ (n.session i).Moves c :=
    fun hs hq he hc => Or.inr ⟨_, _, hs, Or.inl hq, Or.inr ⟨he, fun h => absurd h hc⟩⟩
  cases hst with
  | connect h => exact hgoto rfl rfl (by simp [h]) (by simp [h])
  | text h => exact hgoto rfl rfl (by simp [h]) (by simp [h])
  | leave h => exact hgoto rfl rfl (by simp [h]) (by simp [h])
  | crash h => exact hgoto rfl rfl (by simp [h]) (by simp [h])
  | sendAction h hlt => exact hgoto rfl rfl (by simp [h]) (by simp [h])
  | @reply i msg ops ok h hlt =>
    rw [Net.pushJson_goto]
    exact Or.inr ⟨i, _, rfl, Or.inr (Or.inl ⟨hlt, msg, rfl⟩), Or.inr (by simp [h])⟩
  | spawn h => exact hgoto rfl rfl (by simp [h]) (by simp [h])
  | finish h => exact hgoto rfl rfl (by simp [h]) (by simp [h])
  | bye h hlt => exact Or.inr ⟨_, _, rfl, Or.inl rfl, Or.inr (by simp [h])⟩
  | pop h hq => exact Or.inr ⟨_, _, rfl, Or.inr (Or.inr ⟨_, hq⟩), Or.inl rfl⟩
  | miss h hq => exact Or.inr ⟨_, _, rfl, Or.inr (Or.inr ⟨_, hq⟩), Or.inr (by simp [h])⟩
  | push hs ho hlt => exact Or.inr ⟨_, _, rfl, Or.inr (Or.inl ⟨hlt, _, rfl⟩), Or.inl rfl⟩
  | history hsp ho hlt => exact Or.inr ⟨_, _, rfl, Or.inr (Or.inl ⟨hlt, _, rfl⟩), Or.inl rfl⟩
  | _ => exact Or.inl rfl

/-- The same at one session. -/
theorem Step.session_eq (hst : Step x n l n') (i : ℕ) :
    n'.session i = n.session i ∨ (n.session i).Moves (n'.session i) := by
  rcases hst.session with h | ⟨j, c, h, hm⟩
  · exact Or.inl (congrFun h i)
  · rw [h, Net.session_set]
    split
    · next heq => exact Or.inr (heq ▸ hm)
    · exact Or.inl rfl

theorem Step.ended (hst : Step x n l n') {i : ℕ} (h : (n.session i).phase = .ended) :
    (n'.session i).phase = .ended := by
  rcases hst.session_eq i with heq | hm
  · rw [heq, h]
  · rcases hm.phase with hp | ⟨hne, -⟩
    · rw [hp, h]
    · exact absurd h hne

/-- The select loop of a session is over. -/
def Phase.Over (p : Phase) : Prop := p = .closing ∨ p = .ended

theorem Step.over (hst : Step x n l n') {i : ℕ} (h : (n.session i).phase.Over) :
    (n'.session i).phase.Over := by
  rcases h with h | h
  · rcases hst.session_eq i with heq | hm
    · exact Or.inl (by rw [heq, h])
    · exact hm.phase.imp (fun hp => hp.trans h) fun hp => hp.2 h
  · exact Or.inr (hst.ended h)

/-! ## The hub of the net -/

/-- **The hub of the net is the hub of a run of messages.** -/
theorem hub_run_of_net (h : Run (Step x) Net.init ls n) : ∃ ms, n.hub = Hub.run x ms := by
  refine Run.inv (P := fun n => ∃ ms, n.hub = Hub.run x ms) ⟨[], rfl⟩ ?_ h
  rintro n l n' ⟨ms, hms⟩ hst
  cases hst with
  | @takeAction a rest hs ha =>
    refine ⟨ms ++ [.action a], ?_⟩
    rw [Hub.run_snoc, ← hms]; rfl
  | @takeData s mt d rest order hs hd ho =>
    refine ⟨ms ++ [.data s mt d], ?_⟩
    rw [Hub.run_snoc, ← hms]; rfl
  | _ => exact ⟨ms, hms⟩

/-- A reply goes to the session that sent the action, if that is answered. -/
theorem reply_own (ms : List HubMsg) (a : ChannelAction) {m : TxJSON × String}
    (hm : (actionHandle a.id a.action (Hub.run x ms)).2 = some m) :
    m.1 = ⟨a.id⟩ ∧ (Hub.run x ms).Answers a := by
  obtain ⟨u, hu, rfl⟩ := Option.map_eq_some_iff.1 hm
  have hok := hubOK_run x (ms ++ [.action a])
  rw [Hub.run_snoc] at hok
  refine ⟨hok.own a.id u hu, ?_⟩
  rcases a.cases with ⟨id, s, rfl⟩ | ⟨id, t, rfl⟩
  · trivial
  · have hu' : (actionHandleUnsubscribe id t (Hub.run x ms)).2.userList.lookup id = some u := hu
    have hl := hu'.symm.trans lookup_userList_unsubscribe
    cases t with
    | none => simp at hl
    | some s =>
      simp only [reduceCtorEq, false_and, if_false] at hl
      exact Finmap.mem_of_lookup_eq_some hl.symm

/-- A market message is sent to no session twice. -/
theorem nodup_dataHander (ms : List HubMsg) (s mt : String) (d : Bytes) :
    ((dataHander x s mt d (Hub.run x ms)).2.map Prod.fst).Nodup := by
  refine Multiset.nodup_iff_count_le_one.2 fun tx => ?_
  have hf := filter_dataHander (x := x) (hubOK_run x ms) tx.session s mt d
  rw [Multiset.count_map]
  have hcongr : (dataHander x s mt d (Hub.run x ms)).2.filter (fun m => tx = m.1) =
      (dataHander x s mt d (Hub.run x ms)).2.filter (fun m => m.1 = ⟨tx.session⟩) :=
    Multiset.filter_congr fun m _ => by rw [eq_comm]
  rw [hcongr, hf]
  split <;> simp

/-! ## What a session still does -/

/-- The operations of `json_handle`: actions only, and then it returns `Ok` if there are
any; or no action, and a reply at most first. -/
def Phase.Orderly : Phase → Prop
  | .handling ops ok => (∀ op ∈ ops, ∃ a, op = .send a) ∧ (ok = false → ops = []) ∨
    ok = true ∧ (∀ a, .send a ∉ ops) ∧ ∀ msg, .reply msg ∉ ops.tail
  | _ => True

theorem orderly_jsonHandle (json : String) (i : ℕ) :
    (Phase.handling (jsonHandle x json i).1 (jsonHandle x json i).2).Orderly := by
  unfold jsonHandle
  cases x.fromStr json with
  | none => exact Or.inl (by simp)
  | some params =>
    simp only
    split
    · exact Or.inl (by simp)
    · split
      · exact Or.inl (by simp)
      · exact Or.inl (by simp)
    · split
      · refine Or.inr ⟨rfl, ?_, ?_⟩ <;> intro a <;> split <;> simp
      · exact Or.inl (by simp)
    · exact Or.inr (by simp)

/-- After one operation the next is no reply, and there are actions left only if it was
one. -/
theorem Phase.Orderly.tail {op : Op} {ops : List Op} {ok : Bool}
    (h : (Phase.handling (op :: ops) ok).Orderly) :
    (Phase.handling ops ok).Orderly ∧ ¬ (Phase.handling ops ok).AtReply ∧
      ((Phase.handling ops ok).Owes → ∃ a, op = .send a) := by
  rcases h with ⟨hall, hok⟩ | ⟨rfl, hns, hnr⟩
  · have hok' : ok ≠ false := fun h => by simpa using hok h
    refine ⟨Or.inl ⟨fun o ho => hall o (List.mem_cons_of_mem _ ho), fun h => absurd h hok'⟩, ?_,
      fun _ => hall op List.mem_cons_self⟩
    cases ops with
    | nil => exact id
    | cons o ops =>
      obtain ⟨a, rfl⟩ := hall o (by simp)
      exact id
  · refine ⟨Or.inr ⟨rfl, fun a ha => hns a (List.mem_cons_of_mem _ ha), fun msg hm =>
      hnr msg (List.mem_of_mem_tail hm)⟩, ?_, ?_⟩
    · cases ops with
      | nil => exact id
      | cons o ops =>
        intro h
        cases o with
        | reply msg => exact hnr msg (by simp)
        | _ => exact h
    · rintro (⟨a, ha⟩ | h)
      · exact absurd (List.mem_cons_of_mem _ ha) (hns a)
      · cases h

/-- After an operation that is no send to the hub the session owes nothing. -/
theorem Phase.Orderly.owes_nothing {op : Op} {ops : List Op} {ok : Bool}
    (h : (Phase.handling (op :: ops) ok).Orderly) (hop : ∀ a, op ≠ .send a) :
    ¬ (Phase.handling ops ok).Owes := by
  intro ho
  obtain ⟨a, ha⟩ := h.tail.2.2 ho
  exact hop a ha

/-! ## The invariant -/

/-- A session that needs its queue has room in it; `waited`: the hub is at a send to it. -/
def Session.Fits (c : Session) (waited : Prop) : Prop :=
  c.phase.AtReply ∨ waited ∧ c.phase.Owes → c.rxJson.length < jsonCap

/-- A session that sends to nobody before it reads fits with any queue. -/
theorem Session.fits_of_idle {c : Session} {waited : Prop} (hr : ¬ c.phase.AtReply)
    (ho : ¬ c.phase.Owes) : c.Fits waited := by
  rintro (h | ⟨-, h⟩)
  · exact absurd h hr
  · exact absurd h ho

/-- The invariant of guarded runs. -/
structure Net.Free (n : Net) : Prop where
  orderly : ∀ i, (n.session i).phase.Orderly
  fits : ∀ i, (n.session i).Fits (n.Heading i)
  nodup : (n.sending.map Prod.fst).Nodup

/-- **A session moves.** -/
theorem Net.Free.set (hn : n.Free) {i : ℕ} {c : Session} (ho : c.phase.Orderly)
    (hf : c.Fits (n.Heading i)) : (n.set i c).Free := by
  refine ⟨fun j => ?_, fun j => ?_, hn.nodup⟩
  · rw [Net.session_set]
    split
    · exact ho
    · exact hn.orderly j
  · rw [Net.session_set]
    split
    · rename_i heq; subst heq; exact hf
    · exact hn.fits j

/-- **The hub turns to its next sends.** -/
theorem Net.Free.turn (hn : n.Free) {order : List (TxJSON × String)}
    (hd : (order.map Prod.fst).Nodup) (hr : ∀ m ∈ order.head?, n.Ready m.1.session) :
    Net.Free { n with sending := order } := by
  refine ⟨hn.orderly, fun i => ?_, hd⟩
  rintro (h | ⟨⟨msg, rest, hi⟩, ho⟩)
  · exact hn.fits i (Or.inl h)
  · exact hr (⟨i⟩, msg) (by rw [show order = _ from hi]; simp) ho

theorem free_init : Net.init.Free :=
  ⟨fun _ => trivial, fun _ => Session.fits_of_idle id id, List.nodup_nil⟩

/-- **No JSON queue holds more than its capacity.** -/
theorem rxJson_le_run (h : Run (Step x) Net.init ls n) (i : ℕ) : (n.session i).rxJson.length ≤ jsonCap := by
  refine Run.inv (P := fun n => (n.session i).rxJson.length ≤ jsonCap) (Nat.zero_le _) ?_ h
  intro n l n' hle hst
  rcases hst.session_eq i with heq | hm
  · rwa [heq]
  · rcases hm.queue with hq | ⟨hlt, msg, hq⟩ | ⟨msg, hq⟩
    · rwa [hq]
    · rw [hq, List.length_append]
      exact hlt
    · rw [hq, List.length_cons] at hle
      exact Nat.le_of_succ_le hle

/-- **A guarded step keeps the invariant.** -/
theorem free_step (hr : ∃ ms, n.hub = Hub.run x ms)
    (hb : ∀ i, (n.session i).rxJson.length ≤ jsonCap) (hn : n.Free)
    (hst : Guarded (Step x) (Guard x) n l n') : n'.Free := by
  obtain ⟨hst, hg⟩ := hst
  obtain ⟨ms, hms⟩ := hr
  cases hst with
  | connect h => exact hn.set trivial (Session.fits_of_idle id id)
  | @text i json h =>
    refine hn.set (orderly_jsonHandle json i) ?_
    rintro (h | ⟨hh, h⟩)
    · exact hg.1 h
    · exact hg.2 h hh
  | frame h => exact hn
  | binary h => exact hn
  | leave h =>
    -- the last `Unsubscribe(None)` is still to come
    refine hn.set trivial ?_
    rintro (h' | ⟨hh, -⟩)
    · exact h'.elim
    · exact hg hh
  | crash h => exact hn.set trivial (Session.fits_of_idle id id)
  | @sendAction i a ops ok h hlt =>
    have ho := hn.orderly i
    rw [h] at ho
    -- it was at a send to the hub before, so it had room then
    have hf : (n.goto i (.handling ops ok)).Free := by
      refine hn.set ho.tail.1 ?_
      rintro (h' | ⟨hh, -⟩)
      · exact absurd h' ho.tail.2.1
      · exact hn.fits i (Or.inr ⟨hh, by rw [h]; exact Or.inl ⟨a, by simp⟩⟩)
    exact ⟨hf.orderly, hf.fits, hf.nodup⟩
  | @reply i msg ops ok h hlt =>
    have ho := hn.orderly i
    rw [h] at ho
    rw [Net.pushJson_goto]
    have howes := ho.owes_nothing (fun a => by simp)
    exact hn.set ho.tail.1 (Session.fits_of_idle ho.tail.2.1 howes)
  | @spawn i start stop args ops ok h =>
    have ho := hn.orderly i
    rw [h] at ho
    have howes := ho.owes_nothing (fun a => by simp)
    exact hn.set ho.tail.1 (Session.fits_of_idle ho.tail.2.1 howes)
  | @finish i ok h =>
    cases ok with
    | true => exact hn.set trivial (Session.fits_of_idle id id)
    | false =>
      refine hn.set trivial ?_
      rintro (h' | ⟨hh, -⟩)
      · exact h'.elim
      · exact hn.fits i (Or.inr ⟨hh, by rw [h]; exact Or.inr rfl⟩)
  | @bye i h hlt =>
    have hf : (n.goto i .ended).Free := hn.set trivial (Session.fits_of_idle id id)
    exact ⟨hf.orderly, hf.fits, hf.nodup⟩
  | @pop i msg q h hq =>
    refine hn.set (hn.orderly i) fun h' => ?_
    have hlt := hn.fits i h'
    rw [hq, List.length_cons] at hlt
    exact Nat.lt_of_succ_lt hlt
  | @miss i msg q h hq =>
    -- the item has made room for the reply to the last `Unsubscribe(None)`
    have hle := hb i
    rw [hq, List.length_cons] at hle
    exact hn.set trivial fun _ => hle
  | produce h => exact ⟨hn.orderly, hn.fits, hn.nodup⟩
  | @takeAction a rest hs ha =>
    have hf : Net.Free { n with sending := (actionHandle a.id a.action n.hub).2.toList } := by
      rcases Option.eq_none_or_eq_some (actionHandle a.id a.action n.hub).2 with hm | ⟨m, hm⟩
      · exact hn.turn (by simp [hm]) (by simp [hm])
      · refine hn.turn (by simp [hm]) fun m' hm' => ?_
        simp only [hm, Option.toList_some, List.head?_cons, Option.mem_some_iff] at hm'
        subst hm'
        rw [hms] at hm
        obtain ⟨hown, hans⟩ := reply_own ms a hm
        rw [hown]
        exact hg a rest ha (hms ▸ hans)
    exact ⟨hf.orderly, hf.fits, hf.nodup⟩
  | @takeData s mt d rest order hs hd ho =>
    have hnd : (order.map Prod.fst).Nodup := by
      have := nodup_dataHander (x := x) ms s mt d
      rw [← hms, ← ho] at this
      simpa using this
    have hf := hn.turn hnd hg
    exact ⟨hf.orderly, hf.fits, hf.nodup⟩
  | @push tx msg rest hs ho hlt =>
    obtain ⟨hrep, hnext⟩ := hg tx msg rest hs
    have hnd := hn.nodup
    rw [hs] at hnd
    -- the next send is to another session
    have hne : ∀ m ∈ rest.head?, m.1.session ≠ tx.session := by
      intro m hm heq
      refine (List.nodup_cons.1 hnd).1 (List.mem_map.2 ⟨m, List.mem_of_mem_head? hm, ?_⟩)
      cases m with | mk t s => cases t; cases tx; simp_all
    have hturn := hn.turn (List.nodup_cons.1 hnd).2 hnext
    refine hturn.set (c := { n.session tx.session with
      rxJson := (n.session tx.session).rxJson ++ [msg] }) (hn.orderly tx.session) ?_
    rintro (h | ⟨⟨msg', rest', hh⟩, -⟩)
    · simpa using hrep h
    · exact absurd rfl (hne (⟨tx.session⟩, msg') (by rw [show rest = _ from hh]; simp))
  | @drop tx msg rest hs ho =>
    have hnd := hn.nodup
    rw [hs] at hnd
    exact hn.turn (List.nodup_cons.1 hnd).2 (hg tx msg rest hs).2
  | @history i msg hsp ho hlt =>
    refine hn.set (hn.orderly i) ?_
    rintro (h | h)
    · simpa using hg (Or.inl h)
    · simpa using hg (Or.inr h)

theorem free_run (h : Run (Guarded (Step x) (Guard x)) Net.init ls n) : n.Free := by
  refine Run.hist_inv (P := fun _ n => n.Free) free_init ?_ h
  intro ls n l n' hr hn hst
  exact free_step (hub_run_of_net hr.of_guarded) (rxJson_le_run hr.of_guarded) hn hst

/-- **No circular wait is reached in a guarded run.** -/
theorem no_circularWait (x : Crates) {ls : List Label} {n : Net}
    (h : Run (Guarded (Step x) (Guard x)) Net.init ls n) : ¬ n.CircularWait := by
  have hfree := free_run h
  rintro (⟨i, ⟨msg, ops, ok, hp⟩, hfull⟩ | ⟨i, ⟨hhead, -, hfull⟩, hact, -⟩)
  · have := hfree.fits i (Or.inl (by rw [hp]; trivial))
    omega
  · have hhead' : n.Heading i := hhead
    have howes : (n.session i).phase.Owes := by
      rcases hact with ⟨a, ops, ok, hp⟩ | hp
      · rw [hp]; exact Or.inl ⟨a, by simp⟩
      · rw [hp]; trivial
    have := hfree.fits i (Or.inr ⟨hhead', howes⟩)
    omega

/-! ## Runs -/

/-- A command the server does not know. -/
def pingText : String := "\x7b\"action\":\"ping\",\"args\":[]\x7d"

/-- The JSON parser where the only command is `pingText`. -/
def pingCrates : Crates :=
  ⟨flatJson, fun json => if json = pingText then some ⟨"ping", []⟩ else none, fun _ => "", fun _ _ => none⟩

/-- The answer to it. -/
def pingReply : String := "\x7b\"code\":5001,\"msg\":\"action subscribe or unsubscribe\"\x7d"

theorem jsonHandle_ping : jsonHandle pingCrates pingText 1 = ([.reply pingReply], true) := by
  have hp : pingCrates.fromStr pingText = some ⟨"ping", []⟩ := by simp [pingCrates]
  have hs : (split '@' "ping").headD "" = "ping" := by decide
  have ht : pingCrates.toText [("code", .number 5001),
      ("msg", .text "action subscribe or unsubscribe")] = pingReply := by decide
  unfold jsonHandle
  rw [hp]
  simp only [hs, ht]
  rfl

/-- Session 1 is in its loop with `k` items in its queue. -/
def Net.Idle (n : Net) (k : ℕ) : Prop :=
  (n.session 1).phase = .select ∧ (n.session 1).rxJson.length = k

theorem net_session_goto (n : Net) (i : ℕ) (p : Phase) :
    (n.goto i p).session i = { n.session i with phase := p } := by
  rw [Net.goto, Net.session_set, if_pos rfl]

theorem net_session_pushJson (n : Net) (i : ℕ) (msg : String) : (n.pushJson i msg).session i =
    { n.session i with rxJson := (n.session i).rxJson ++ [msg] } := by
  rw [Net.pushJson, Net.session_set, if_pos rfl]

/-- The session starts on the command. -/
theorem ping_text {k : ℕ} (h : n.Idle k) : ∃ n', Step pingCrates n (.text 1 pingText) n' ∧
    (n'.session 1).phase = .handling [.reply pingReply] true ∧ (n'.session 1).rxJson.length = k := by
  refine ⟨_, Step.text h.1, ?_, ?_⟩
  · rw [net_session_goto, jsonHandle_ping]
  · rw [net_session_goto]; exact h.2

/-- One command handled, its answer not read. -/
theorem ping_round {k : ℕ} (h : n.Idle k) (hk : k < jsonCap) :
    ∃ n', Run (Step pingCrates) n [.text 1 pingText, .op 1, .finish 1] n' ∧ n'.Idle (k + 1) := by
  obtain ⟨n₁, h₁, hp₁, hl₁⟩ := ping_text h
  have h₂ := Step.reply (x := pingCrates) hp₁ (by omega)
  have hp₂ : (((n₁.goto 1 (.handling [] true)).pushJson 1 pingReply).session 1).phase =
      .handling [] true := by
    rw [net_session_pushJson, net_session_goto]
  have h₃ := Step.finish (x := pingCrates) hp₂
  refine ⟨_, Run.cons h₁ (Run.cons h₂ (Run.single h₃)), ?_, ?_⟩
  · rw [net_session_goto]; rfl
  · rw [net_session_goto, net_session_pushJson, net_session_goto]
    simp [hl₁]

/-- The guarded run of one command, answered and read. -/
theorem no_circularWait_ping : ∃ n, Run (Guarded (Step pingCrates) (Guard pingCrates)) Net.init
    [.connect 1, .text 1 pingText, .op 1, .finish 1, .pop 1] n ∧ ¬ n.CircularWait := by
  have hconnect : Step pingCrates Net.init (.connect 1) (Net.init.goto 1 .select) := Step.connect rfl
  obtain ⟨n₁, h₁, hp₁, hl₁⟩ := ping_text (n := Net.init.goto 1 .select) (k := 0) ⟨rfl, rfl⟩
  have h₂ := Step.reply (x := pingCrates) hp₁ (by rw [hl₁]; decide)
  set n₂ := (n₁.goto 1 (.handling [] true)).pushJson 1 pingReply with hn₂
  have hs₂ : n₂.session 1 = ⟨.handling [] true, (n₁.session 1).rxJson ++ [pingReply],
      (n₁.session 1).spawned⟩ := by
    rw [hn₂, net_session_pushJson, net_session_goto]
  have h₃ : Step pingCrates n₂ (.finish 1) (n₂.goto 1 .select) := Step.finish (by rw [hs₂])
  have hq : ((n₂.goto 1 .select).session 1).rxJson = pingReply :: [] := by
    rw [net_session_goto, hs₂, List.eq_nil_of_length_eq_zero hl₁]; rfl
  have h₄ := Step.pop (x := pingCrates) (n := n₂.goto 1 .select) (by rw [net_session_goto]) hq
  have hg : Guard pingCrates (Net.init.goto 1 .select) (.text 1 pingText) :=
    ⟨fun _ => by unfold Net.Room; decide, fun _ _ => by unfold Net.Room; decide⟩
  have hpop : Guarded (Step pingCrates) (Guard pingCrates) (n₂.goto 1 .select) (.pop 1) _ := ⟨h₄, trivial⟩
  have hrun := ((((Run.nil.snoc ⟨hconnect, trivial⟩).snoc ⟨h₁, hg⟩).snoc ⟨h₂, trivial⟩).snoc
    ⟨h₃, trivial⟩).snoc hpop
  exact ⟨_, hrun, no_circularWait pingCrates hrun⟩

theorem ping_idle : ∀ k, k ≤ jsonCap →
    ∃ ls n, Run (Step pingCrates) Net.init ls n ∧ n.Idle k := by
  intro k
  induction k with
  | zero => intro _; exact ⟨_, _, Run.single (Step.connect (i := 1) rfl), rfl, rfl⟩
  | succ k ih =>
    intro hk
    obtain ⟨ls, n, hrun, hn⟩ := ih (by omega)
    obtain ⟨n', hrun', hn'⟩ := ping_round hn (by omega)
    exact ⟨_, n', hrun.append hrun', hn'⟩

/-- **A session waits for itself** at its 101st unknown command with no answer read. -/
theorem circularWait_reply : ∃ ls n, Run (Step pingCrates) Net.init ls n ∧ n.SelfBlocked 1 := by
  obtain ⟨ls, n, hrun, hn⟩ := ping_idle jsonCap le_rfl
  obtain ⟨n', hst, hp, hl⟩ := ping_text hn
  exact ⟨_, n', hrun.snoc hst, ⟨_, _, _, hp⟩, hl.ge⟩

/-- A subscription of one topic 1126 times over: 101 for the hub to take, 1024 for the
action queue and one more. -/
def bulkText : String := "\x7b\"action\":\"subscribe\",\"args\":[" ++ ",".intercalate
  (List.replicate 1126 ("\x7b\"exchange\":\"binance\",\"marketType\":\"spot\"," ++
    "\"symbol\":\"BTCUSDT\",\"messageType\":\"trade\"\x7d")) ++ "]\x7d"

/-- The JSON parser where the only command is `bulkText`. -/
def bulkCrates : Crates :=
  ⟨flatJson, fun json => if json = bulkText then some ⟨"subscribe", List.replicate 1126 btcTrade⟩ else none,
    fun _ => "", fun _ _ => none⟩

/-- Session 1 is in the command with `k` subscriptions left; `q` items are in its queue
and `a` of its subscriptions in the hub's. -/
def Net.Bulk (n : Net) (k q a : ℕ) : Prop :=
  (n.session 1).phase =
      .handling (List.replicate k (.send (.subscribe 1 btcTrade.toString))) true ∧
    (n.session 1).rxJson.length = q ∧
    n.actions = List.replicate a (.subscribe 1 btcTrade.toString)

theorem jsonHandle_subscribe {json : String} {i : ℕ} {args : List MarketDataArg}
    (h : x.fromStr json = some ⟨"subscribe", args⟩) :
    jsonHandle x json i = (args.map fun arg => .send (.subscribe i arg.toString), true) := by
  have hs : (split '@' "subscribe").headD "" = "subscribe" := by decide
  unfold jsonHandle
  rw [h]
  simp only [hs]

theorem jsonHandle_bulk : jsonHandle bulkCrates bulkText 1 =
    (List.replicate 1126 (.send (.subscribe 1 btcTrade.toString)), true) := by
  have hp : bulkCrates.fromStr bulkText = some ⟨"subscribe", List.replicate 1126 btcTrade⟩ := by
    simp only [bulkCrates, if_true]
  rw [jsonHandle_subscribe hp, List.map_replicate]

variable {k q a : ℕ} {msg : String}

theorem bulk_op (h : n.Bulk (k + 1) q a) (ha : a < actionCap) :
    ∃ n', Step bulkCrates n (.op 1) n' ∧ n'.Bulk k q (a + 1) ∧ n'.sending = n.sending := by
  obtain ⟨hp, hq, hacts⟩ := h
  rw [List.replicate_succ] at hp
  refine ⟨_, Step.sendAction hp (by rw [hacts, List.length_replicate]; exact ha), ⟨?_, ?_, ?_⟩, rfl⟩
  · exact congrArg Session.phase (net_session_goto n 1 _)
  · exact (congrArg (fun c => c.rxJson.length) (net_session_goto n 1 _)).trans hq
  · show n.actions ++ _ = _
    rw [hacts, List.replicate_succ']

/-- The hub takes a subscription and turns to the session. -/
theorem bulk_take (hr : ∃ ms, n.hub = Hub.run bulkCrates ms) (h : n.Bulk k q (a + 1))
    (hs : n.sending = []) :
    ∃ n' msg, Step bulkCrates n .takeAction n' ∧ n'.Bulk k q a ∧ n'.sending = [(⟨1⟩, msg)] := by
  obtain ⟨hp, hq, hacts⟩ := h
  obtain ⟨ms, hms⟩ := hr
  have hsome : ∃ m, (actionHandle 1 (.subscribe btcTrade.toString ⟨1⟩) n.hub).2 = some m := by
    unfold actionHandle
    simp [lookup_userList_subscribe]
  obtain ⟨⟨tx, msg⟩, hm⟩ := hsome
  have hown := (reply_own ms (.subscribe 1 btcTrade.toString) (hms ▸ hm)).1
  simp only [ChannelAction.subscribe] at hown
  subst hown
  refine ⟨_, msg, Step.takeAction hs hacts, ⟨hp, hq, rfl⟩, ?_⟩
  show (actionHandle 1 (.subscribe btcTrade.toString ⟨1⟩) n.hub).2.toList = _
  rw [hm]; rfl

/-- The reply goes into the queue. -/
theorem bulk_push (h : n.Bulk k q a) (hs : n.sending = [(⟨1⟩, msg)]) (hq : q < jsonCap) :
    ∃ n', Step bulkCrates n .push n' ∧ n'.Bulk k (q + 1) a ∧ n'.sending = [] := by
  obtain ⟨hp, hl, hacts⟩ := h
  have hopen : (n.session 1).IsOpen := by simp [Session.IsOpen, hp]
  have hroom : (n.session 1).rxJson.length < jsonCap := by omega
  refine ⟨_, Step.push hs hopen hroom, ⟨?_, ?_, hacts⟩, rfl⟩
  · exact (congrArg Session.phase (net_session_pushJson n 1 msg)).trans hp
  · have := congrArg (fun c => c.rxJson.length) (net_session_pushJson n 1 msg)
    simp only [List.length_append, List.length_singleton, hl] at this
    exact this

/-- The hub answers subscriptions until the session's queue is full. -/
theorem bulk_answered : ∀ q, q ≤ jsonCap → ∃ ls n, Run (Step bulkCrates) Net.init ls n ∧
    n.Bulk (1126 - q) q 0 ∧ n.sending = [] := by
  intro q
  induction q with
  | zero =>
    intro _
    have hconnect : Step bulkCrates Net.init (.connect 1) (Net.init.goto 1 .select) := Step.connect rfl
    have htext : Step bulkCrates (Net.init.goto 1 .select) (.text 1 bulkText) _ :=
      Step.text (by rw [net_session_goto])
    refine ⟨_, _, Run.cons hconnect (Run.single htext), ⟨?_, ?_, rfl⟩, rfl⟩
    · rw [net_session_goto, jsonHandle_bulk]
    · rw [net_session_goto, net_session_goto]; rfl
  | succ q ih =>
    intro hq
    obtain ⟨ls, n, hrun, hn, hs⟩ := ih (by omega)
    rw [show 1126 - q = 1126 - (q + 1) + 1 by unfold jsonCap at hq; omega] at hn
    obtain ⟨n₁, h₁, hn₁, hs₁⟩ := bulk_op hn (by decide)
    have hrun₁ := hrun.snoc h₁
    obtain ⟨n₂, msg, h₂, hn₂, hs₂⟩ := bulk_take (hub_run_of_net hrun₁) hn₁ (hs₁.trans hs)
    obtain ⟨n₃, h₃, hn₃, hs₃⟩ := bulk_push hn₂ hs₂ (by omega)
    exact ⟨_, n₃, (hrun₁.snoc h₂).snoc h₃, hn₃, hs₃⟩

/-- With the hub at a send to the session, the session fills the action queue. -/
theorem bulk_filled : ∀ a, a ≤ actionCap → ∃ ls n msg, Run (Step bulkCrates) Net.init ls n ∧
    n.Bulk (1025 - a) jsonCap a ∧ n.sending = [(⟨1⟩, msg)] := by
  intro a
  induction a with
  | zero =>
    intro _
    obtain ⟨ls, n, hrun, hn, hs⟩ := bulk_answered jsonCap le_rfl
    rw [show 1126 - jsonCap = 1025 + 1 from rfl] at hn
    obtain ⟨n₁, h₁, hn₁, hs₁⟩ := bulk_op hn (by decide)
    have hrun₁ := hrun.snoc h₁
    obtain ⟨n₂, msg, h₂, hn₂, hs₂⟩ := bulk_take (hub_run_of_net hrun₁) hn₁ (hs₁.trans hs)
    exact ⟨_, n₂, msg, hrun₁.snoc h₂, hn₂, hs₂⟩
  | succ a ih =>
    intro ha
    obtain ⟨ls, n, msg, hrun, hn, hs⟩ := ih (by omega)
    rw [show 1025 - a = 1025 - (a + 1) + 1 by unfold actionCap at ha; omega] at hn
    obtain ⟨n₁, h₁, hn₁, hs₁⟩ := bulk_op hn (by omega)
    exact ⟨_, n₁, msg, hrun.snoc h₁, hn₁, hs₁.trans hs⟩

/-- **The hub and a session wait for each other** once the session has subscribed 1126
times in one command. -/
theorem circularWait_send : ∃ ls n, Run (Step bulkCrates) Net.init ls n ∧
    n.HubBlocked 1 ∧ n.ActionBlocked 1 := by
  obtain ⟨ls, n, msg, hrun, ⟨hp, hl, hacts⟩, hs⟩ := bulk_filled actionCap le_rfl
  refine ⟨ls, n, hrun, ⟨⟨msg, [], hs⟩, by simp [Session.IsOpen, hp], hl.ge⟩, Or.inl ⟨_, _, _, hp⟩, ?_⟩
  rw [hacts, List.length_replicate]

/-- **Both circular waits are reached**, each by one client. -/
theorem circularWait_reached :
    (∃ ls n, Run (Step pingCrates) Net.init ls n ∧ n.SelfBlocked 1) ∧
      ∃ ls n, Run (Step bulkCrates) Net.init ls n ∧ n.HubBlocked 1 ∧ n.ActionBlocked 1 :=
  ⟨circularWait_reply, circularWait_send⟩

end CryptoMarket.Replay
