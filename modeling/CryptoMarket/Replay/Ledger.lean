import CryptoMarket.Lib.Log
import CryptoMarket.Replay.CircularWait
import CryptoMarket.Replay.Replies

/-!
# What goes through the queues

The net with a log of what its steps put into the queues and take out of them
(`netEvents`). Nothing is lost in a queue and nothing is doubled, in every run:

* `requests_run`: of the actions that the texts of a session ask for, in their order, the
  hub has processed the first ones, the next ones are in its queue and the task of the
  session still has the rest.
* `frames_run`: what a client got, what a failed `socket.send` has lost and what is in the
  queue of its session are an interleaving of what the hub, the session's own task and its
  history tasks put there and the answers to its binary frames.
* `missed_run`: a failed `socket.send` loses one item, and it is the last thing a session does
  with its socket.
* `sends_run`: what the hub put there is what its handlers gave, except what they
  gave after the session had ended.
-/

namespace CryptoMarket.Replay

/-- Where a text for a client comes from. -/
inductive Source where
  | hub
  /-- `json_handle` of the session. -/
  | own
  | history
  /-- The answer to a binary frame, which goes past the JSON queue. -/
  | binary
  deriving DecidableEq

/-- One sequence for each source. -/
def bySource (hub own history binary : List String) : Source → List String
  | .hub => hub
  | .own => own
  | .history => history
  | .binary => binary

/-- What a step does to the queues. -/
inductive NetEvent where
  /-- The hub takes a message; its handler has these sends to do. -/
  | took (m : HubMsg) (sends : List (TxJSON × String))
  /-- An item goes into the JSON queue of a session. -/
  | queued (i : ℕ) (source : Source) (msg : String)
  /-- An item of the hub finds no receiver. -/
  | dropped (i : ℕ) (msg : String)
  /-- An item of the JSON queue goes to the client. -/
  | frame (i : ℕ) (msg : String)
  /-- The `socket.send` of an item of the JSON queue fails. -/
  | missed (i : ℕ) (msg : String)
  /-- The answer to a binary frame goes to the client. -/
  | refused (i : ℕ)

instance : DecidablePred Session.IsOpen := fun c =>
  match h : c.phase with
  | .absent => isFalse fun ho => ho.1 h
  | .ended => isFalse fun ho => ho.2 h
  | .select => isTrue ⟨by simp [h], by simp [h]⟩
  | .handling _ _ => isTrue ⟨by simp [h], by simp [h]⟩
  | .closing => isTrue ⟨by simp [h], by simp [h]⟩

/-- What a step from `n` does to the queues. -/
def netEvents (n : Net) : Label → List NetEvent
  | .op i =>
    match (n.session i).phase with
    | .handling (.reply msg :: _) _ => [.queued i .own msg]
    | _ => []
  | .pop i => (n.session i).rxJson.head?.toList.map (.frame i)
  | .miss i => (n.session i).rxJson.head?.toList.map (.missed i)
  | .binary i => [.refused i]
  | .takeAction =>
    match n.actions with
    | a :: _ => [.took (.action a) (actionHandle a.id a.action n.hub).2.toList]
    | [] => []
  | .takeData order =>
    match n.data with
    | (s, mt, d) :: _ => [.took (.data s mt d) order]
    | [] => []
  | .push =>
    match n.sending with
    | (tx, msg) :: _ =>
      if (n.session tx.session).IsOpen then [.queued tx.session .hub msg] else [.dropped tx.session msg]
    | [] => []
  | .history i msg => [.queued i .history msg]
  | _ => []

/-- The runs of the net from its start, with their logs. -/
abbrev NetRuns (x : Crates) (ls : List Label) (log : List NetEvent) (n : Net) : Prop :=
  Run (Logged (Step x) netEvents) (Net.init, []) ls (n, log)

/-- A run with its log goes on. -/
theorem logged_snoc {x : Crates} {y : Net × List NetEvent} {ls : List Label} {log : List NetEvent}
    {n n' : Net} {l : Label} (h : Run (Logged (Step x) netEvents) y ls (n, log)) (hst : Step x n l n') :
    Run (Logged (Step x) netEvents) y (ls ++ [l]) (n', log ++ netEvents n l) := by
  have hlogged : Logged (Step x) netEvents (n, log) l (n', log ++ netEvents n l) := ⟨hst, rfl⟩
  exact Run.snoc h hlogged

theorem NetRuns.nil {x : Crates} : NetRuns x [] [] Net.init := Run.nil

theorem NetRuns.snoc {x : Crates} {ls : List Label} {log : List NetEvent} {n n' : Net} {l : Label}
    (h : NetRuns x ls log n) (hst : Step x n l n') : NetRuns x (ls ++ [l]) (log ++ netEvents n l) n' :=
  logged_snoc h hst

/-! ## What is asked for -/

/-- The actions left in a phase. -/
def Phase.actions : Phase → List ChannelAction
  | .handling ops _ => ops.filterMap Op.action
  | _ => []

/-- The text that goes into the own queue, if the operation is such a send. -/
def Op.replyText : Op → Option String
  | .reply msg => some msg
  | _ => none

/-- The replies left in a phase. -/
def Phase.replies : Phase → List String
  | .handling ops _ => ops.filterMap Op.replyText
  | _ => []

/-- The actions of session `i` that a step asks for: those of its text, or its last one. -/
def Label.asks (x : Crates) (i : ℕ) : Label → List ChannelAction
  | .text j json => if j = i then (jsonHandle x json i).1.filterMap Op.action else []
  | .bye j => if j = i then [.unsubscribe i none] else []
  | _ => []

/-- The actions of session `i` that a run asks for. -/
def requested (x : Crates) (ls : List Label) (i : ℕ) : List ChannelAction := ls.flatMap (Label.asks x i)

/-- The replies of the session's own task that a step asks for. -/
def Label.asksReplies (x : Crates) (i : ℕ) : Label → List String
  | .text j json => if j = i then (jsonHandle x json i).1.filterMap Op.replyText else []
  | _ => []

/-- The replies of its own task to session `i` that a run asks for. -/
def ownReplies (x : Crates) (ls : List Label) (i : ℕ) : List String := ls.flatMap (Label.asksReplies x i)

/-- What the history tasks of session `i` send in a run. -/
def historyMsgs (ls : List Label) (i : ℕ) : List String :=
  ls.filterMap fun
    | .history j msg => if j = i then some msg else none
    | _ => none

/-- The answers to the binary frames of session `i` in a run. -/
def refusals (ls : List Label) (i : ℕ) : List String :=
  ls.filterMap fun
    | .binary j => if j = i then some binaryError else none
    | _ => none

/-- The market messages of a run. -/
def produced (ls : List Label) : List HubMsg :=
  ls.filterMap fun
    | .produce s mt d => some (.data s mt d)
    | _ => none

/-! ## What is in the log -/

/-- The messages that the hub has processed. -/
def processed (log : List NetEvent) : List HubMsg :=
  log.filterMap fun
    | .took m _ => some m
    | _ => none

/-- What went into the JSON queue of session `i`. -/
def arrivals (log : List NetEvent) (i : ℕ) : List (Source × String) :=
  log.filterMap fun
    | .queued j source msg => if j = i then some (source, msg) else none
    | _ => none

/-- The items for session `i` that found no receiver. -/
def lost (log : List NetEvent) (i : ℕ) : List String :=
  log.filterMap fun
    | .dropped j msg => if j = i then some msg else none
    | _ => none

/-- What the client of session `i` got. -/
def frames (log : List NetEvent) (i : ℕ) : List String :=
  log.filterMap fun
    | .frame j msg => if j = i then some msg else none
    | .refused j => if j = i then some binaryError else none
    | _ => none

/-- The items for the client of session `i` whose `socket.send` failed. -/
def missed (log : List NetEvent) (i : ℕ) : List String :=
  log.filterMap fun
    | .missed j msg => if j = i then some msg else none
    | _ => none

/-- Each text given to `socket.send` in session `i`, and whether it came out of the JSON queue. -/
def socketSends (log : List NetEvent) (i : ℕ) : List (Bool × String) :=
  log.filterMap fun
    | .frame j msg => if j = i then some (true, msg) else none
    | .missed j msg => if j = i then some (true, msg) else none
    | .refused j => if j = i then some (false, binaryError) else none
    | _ => none

/-- The market message, if the message of the hub is one. -/
def HubMsg.market : HubMsg → Option HubMsg
  | .action _ => none
  | .data s mt d => some (.data s mt d)

/-- What the handler of a message sends to session `i`. -/
def Hub.gives (x : Crates) (h : Hub) (i : ℕ) : HubMsg → List String
  | .action a => tagged ⟨i⟩ (actionHandle a.id a.action h).2.toList
  | .data s mt d => if (h.channel i s).isSome then [x.marketMessage mt d] else []

/-- What the handlers of a run of messages send to session `i`. -/
def outputsFrom (x : Crates) (i : ℕ) : Hub → List HubMsg → List String
  | _, [] => []
  | h, m :: ms => h.gives x i m ++ outputsFrom x i (h.step x m) ms

/-- What the hub sends to session `i` in a run from empty maps. -/
def outputs (x : Crates) (ms : List HubMsg) (i : ℕ) : List String := outputsFrom x i Hub.init ms

variable {x : Crates} {n n' : Net} {l : Label} {ls : List Label} {log : List NetEvent} {i : ℕ}

/-! ## Requests -/

theorem processed_append (log ev : List NetEvent) : processed (log ++ ev) = processed log ++ processed ev :=
  List.filterMap_append

theorem requested_snoc (ls : List Label) (l : Label) (i : ℕ) :
    requested x (ls ++ [l]) i = requested x ls i ++ l.asks x i := by
  rw [requested, List.flatMap_append, List.flatMap_singleton]
  rfl

theorem produced_snoc (ls : List Label) (l : Label) : produced (ls ++ [l]) = produced ls ++ produced [l] :=
  List.filterMap_append

/-- A session's text asks for actions of this session. -/
theorem id_of_mem_jsonHandle {json : String} {a : ChannelAction}
    (h : a ∈ (jsonHandle x json i).1.filterMap Op.action) : a.id = i := by
  obtain ⟨op, hop, ha⟩ := List.mem_filterMap.1 h
  cases op with
  | reply msg => cases ha
  | spawn start stop args => cases ha
  | send b =>
    obtain rfl := Option.some.inj ha
    unfold jsonHandle at hop
    cases hp : x.fromStr json with
    | none => simp [hp] at hop
    | some params =>
      simp only [hp] at hop
      split at hop
      · obtain ⟨arg, -, harg⟩ := List.mem_map.1 hop
        cases harg; rfl
      · split at hop
        · cases List.mem_singleton.1 hop; rfl
        · obtain ⟨arg, -, harg⟩ := List.mem_map.1 hop
          cases harg; rfl
      · split at hop
        · simp only [List.mem_append, List.mem_singleton, reduceCtorEq, or_false] at hop
          split at hop <;> simp at hop
        · simp at hop
      · simp at hop

theorem id_of_mem_asks {a : ChannelAction} (h : a ∈ l.asks x i) : a.id = i := by
  cases l with
  | text j json =>
    simp only [Label.asks] at h
    split at h
    · exact id_of_mem_jsonHandle h
    · cases h
  | bye j =>
    simp only [Label.asks] at h
    split at h
    · rw [List.mem_singleton.1 h]; rfl
    · cases h
  | _ => cases h

/-- **The books of the requests.** What was asked for is processed, queued or still left, in
this order. -/
structure RequestsOK (x : Crates) (ls : List Label) (log : List NetEvent) (n : Net) : Prop where
  hub : n.hub = Hub.run x (processed log)
  market : (processed log).filterMap HubMsg.market ++ n.data.map (fun d => .data d.1 d.2.1 d.2.2) =
    produced ls
  own : ∀ i, ∀ a ∈ (n.session i).phase.actions, a.id = i
  actions : ∀ i, (processed log).filterMap (HubMsg.ownAction i) ++ n.actions.filter (·.id = i) ++
    (n.session i).phase.actions = requested x ls i
  absent : ∀ i, (n.session i).phase = .absent → requested x ls i = []

/-- A step of sessions: what is asked for is left to do. -/
theorem RequestsOK.move {ev : List NetEvent} (hok : RequestsOK x ls log n) (hhub : n'.hub = n.hub)
    (hdata : n'.data = n.data) (hactions : n'.actions = n.actions) (hev : processed ev = [])
    (hprod : produced [l] = [])
    (hphase : ∀ i, (n'.session i).phase.actions = (n.session i).phase.actions ++ l.asks x i)
    (habsent : ∀ i, (n'.session i).phase = .absent → (n.session i).phase = .absent ∧ l.asks x i = []) :
    RequestsOK x (ls ++ [l]) (log ++ ev) n' := by
  have hp : processed (log ++ ev) = processed log := by rw [processed_append, hev, List.append_nil]
  refine ⟨?_, ?_, fun i a ha => ?_, fun i => ?_, fun i hi => ?_⟩
  · rw [hhub, hp, hok.hub]
  · rw [hp, hdata, hok.market, produced_snoc, hprod, List.append_nil]
  · rw [hphase] at ha
    exact (List.mem_append.1 ha).elim (hok.own i a) id_of_mem_asks
  · rw [hp, hactions, hphase, ← List.append_assoc, hok.actions, requested_snoc]
  · obtain ⟨hold, hasks⟩ := habsent i hi
    rw [requested_snoc, hok.absent i hold, hasks, List.append_nil]

/-- The same for a step of one session. -/
theorem RequestsOK.moveSession {ev : List NetEvent} {c : Session} (hok : RequestsOK x ls log n)
    (hsession : n'.session = (n.set i c).session) (hhub : n'.hub = n.hub) (hdata : n'.data = n.data)
    (hactions : n'.actions = n.actions) (hev : processed ev = []) (hprod : produced [l] = [])
    (hphase : c.phase.actions = (n.session i).phase.actions ++ l.asks x i)
    (hother : ∀ j, j ≠ i → l.asks x j = []) (hpresent : c.phase ≠ .absent) :
    RequestsOK x (ls ++ [l]) (log ++ ev) n' := by
  refine hok.move hhub hdata hactions hev hprod (fun j => ?_) fun j hj => ?_
  · rw [hsession, Net.session_set]
    split
    · next heq => rw [heq]; exact hphase
    · next hne => rw [hother j hne, List.append_nil]
  · rw [hsession, Net.session_set] at hj
    split at hj
    · exact absurd hj hpresent
    · next hne => exact ⟨hj, hother j hne⟩

theorem requestsOK_init : RequestsOK x [] [] Net.init :=
  ⟨rfl, rfl, fun _ _ ha => (List.not_mem_nil ha).elim, fun _ => rfl, fun _ _ => rfl⟩

/-- An action at the front of what is left goes to the back of the hub's queue. -/
theorem RequestsOK.send {a : ChannelAction} {c : Session} (hok : RequestsOK x ls log n)
    (hsession : n'.session = (n.set i c).session) (hhub : n'.hub = n.hub) (hdata : n'.data = n.data)
    (hactions : n'.actions = n.actions ++ [a]) (hid : a.id = i) (hprod : produced [l] = [])
    (hphase : [a] ++ c.phase.actions = (n.session i).phase.actions ++ l.asks x i)
    (hother : ∀ j, j ≠ i → l.asks x j = []) (hpresent : c.phase ≠ .absent) :
    RequestsOK x (ls ++ [l]) (log ++ []) n' := by
  rw [List.append_nil]
  refine ⟨?_, ?_, fun j b hb => ?_, fun j => ?_, fun j hj => ?_⟩
  · rw [hhub, hok.hub]
  · rw [hdata, hok.market, produced_snoc, hprod, List.append_nil]
  · rw [hsession, Net.session_set] at hb
    split at hb
    · next heq =>
      subst heq
      have hb' : b ∈ (n.session j).phase.actions ++ l.asks x j := hphase ▸ List.mem_append_right _ hb
      exact (List.mem_append.1 hb').elim (hok.own j b) id_of_mem_asks
    · exact hok.own j b hb
  · rw [hsession, Net.session_set, hactions, List.filter_append, requested_snoc, ← hok.actions]
    by_cases hj : j = i
    · subst hj
      have hone : [a].filter (fun b => b.id = j) = [a] := by simp [hid]
      simp only [if_true, hone, List.append_assoc]
      rw [hphase]
    · have hnone : [a].filter (fun b => b.id = j) = [] := by simp [hid, Ne.symm hj]
      rw [if_neg hj, hnone, hother j hj, List.append_nil, List.append_nil]
  · rw [hsession, Net.session_set] at hj
    split at hj
    · exact absurd hj hpresent
    · next hne => rw [requested_snoc, hok.absent j hj, hother j hne, List.append_nil]

/-- **A step keeps the books of the requests.** -/
theorem requestsOK_step (hok : RequestsOK x ls log n) (hst : Step x n l n') :
    RequestsOK x (ls ++ [l]) (log ++ netEvents n l) n' := by
  cases hst with
  | @connect i h =>
    exact hok.moveSession rfl rfl rfl rfl rfl rfl (by simp [h, Phase.actions, Label.asks])
      (fun j _ => rfl) (by simp)
  | @text i json h =>
    exact hok.moveSession rfl rfl rfl rfl rfl rfl (by simp [h, Phase.actions, Label.asks])
      (fun j hj => by simp [Label.asks, Ne.symm hj]) (by simp)
  | frame h =>
    exact hok.move rfl rfl rfl rfl rfl (fun i => by simp [Label.asks]) fun i hi => ⟨hi, rfl⟩
  | binary h =>
    exact hok.move rfl rfl rfl rfl rfl (fun i => by simp [Label.asks]) fun i hi => ⟨hi, rfl⟩
  | leave h =>
    exact hok.moveSession rfl rfl rfl rfl rfl rfl (by simp [h, Phase.actions, Label.asks])
      (fun j _ => rfl) (by simp)
  | crash h =>
    exact hok.moveSession rfl rfl rfl rfl rfl rfl (by simp [h, Phase.actions, Label.asks])
      (fun j _ => rfl) (by simp)
  | @sendAction i a ops ok h hlt =>
    have hev : netEvents n (.op i) = [] := by simp only [netEvents, h]
    have hid : a.id = i := hok.own i a (by simp [h, Phase.actions, Op.action])
    rw [hev]
    exact hok.send rfl rfl rfl rfl hid rfl (by simp [h, Phase.actions, Label.asks, Op.action])
      (fun j _ => rfl) (by simp)
  | @reply i msg ops ok h hlt =>
    have hev : processed (netEvents n (.op i)) = [] := by simp only [netEvents, h]; rfl
    refine hok.move rfl rfl rfl hev rfl (fun j => ?_) fun j hj => ⟨?_, rfl⟩
    · simp only [Net.pushJson, Net.goto, Net.session_set, if_true, Label.asks, List.append_nil]
      split
      · next heq => rw [heq, h]; rfl
      · rfl
    · simp only [Net.pushJson, Net.goto, Net.session_set, if_true] at hj
      split at hj
      · cases hj
      · exact hj
  | @spawn i start stop args ops ok h =>
    have hev : processed (netEvents n (.op i)) = [] := by simp only [netEvents, h]; rfl
    exact hok.moveSession rfl rfl rfl rfl hev rfl (by rw [h]; exact (List.append_nil _).symm)
      (fun j _ => rfl) (by simp)
  | @finish i ok h =>
    exact hok.moveSession rfl rfl rfl rfl rfl rfl (by cases ok <;> simp [h, Phase.actions, Label.asks])
      (fun j _ => rfl) (by cases ok <;> simp)
  | @bye i h hlt =>
    exact hok.send rfl rfl rfl rfl rfl rfl (by simp [h, Phase.actions, Label.asks])
      (fun j hj => by simp [Label.asks, Ne.symm hj]) (by simp)
  | @pop i msg q h hq =>
    have hev : processed (netEvents n (.pop i)) = [] := by simp only [netEvents, hq]; rfl
    exact hok.moveSession rfl rfl rfl rfl hev rfl (by simp [Label.asks]) (fun j _ => rfl) (by simp [h])
  | @miss i msg q h hq =>
    have hev : processed (netEvents n (.miss i)) = [] := by simp only [netEvents, hq]; rfl
    exact hok.moveSession rfl rfl rfl rfl hev rfl (by simp [h, Phase.actions, Label.asks])
      (fun j _ => rfl) (by simp)
  | @produce s mt d hlt =>
    rw [show netEvents n (.produce s mt d) = [] from rfl, List.append_nil]
    refine ⟨hok.hub, ?_, hok.own, fun i => ?_, fun i hi => ?_⟩
    · rw [List.map_append, ← List.append_assoc, hok.market, produced_snoc]
      rfl
    · rw [hok.actions, requested_snoc]
      exact (List.append_nil _).symm
    · rw [requested_snoc, hok.absent i hi]
      rfl
  | @takeAction a rest hs ha =>
    have hev : processed (netEvents n .takeAction) = [.action a] := by simp only [netEvents, ha]; rfl
    refine ⟨?_, ?_, hok.own, fun i => ?_, fun i hi => ?_⟩
    · rw [processed_append, hev, Hub.run_snoc, ← hok.hub]
      rfl
    · rw [processed_append, hev, List.filterMap_append, produced_snoc, ← hok.market]
      simp [HubMsg.market, produced]
    · rw [processed_append, hev, filterMap_snoc_action, requested_snoc, ← hok.actions, ha]
      by_cases hid : a.id = i <;> simp [hid, Label.asks]
    · rw [requested_snoc, hok.absent i hi]
      rfl
  | @takeData s mt d rest order hs hd ho =>
    have hev : processed (netEvents n (.takeData order)) = [.data s mt d] := by
      simp only [netEvents, hd]; rfl
    refine ⟨?_, ?_, hok.own, fun i => ?_, fun i hi => ?_⟩
    · rw [processed_append, hev, Hub.run_snoc, ← hok.hub]
      rfl
    · rw [processed_append, hev, List.filterMap_append, produced_snoc, ← hok.market, hd]
      simp [HubMsg.market, produced]
    · rw [processed_append, hev, List.filterMap_append, requested_snoc, ← hok.actions]
      simp [HubMsg.ownAction, Label.asks]
    · rw [requested_snoc, hok.absent i hi]
      rfl
  | @push tx msg rest hs ho hlt =>
    have hev : processed (netEvents n .push) = [] := by simp only [netEvents, hs, if_pos ho]; rfl
    exact hok.moveSession rfl rfl rfl rfl hev rfl (by simp [Label.asks]) (fun j _ => rfl) ho.1
  | @drop tx msg rest hs ho =>
    have hev : processed (netEvents n .push) = [] := by simp only [netEvents, hs, if_neg ho]; rfl
    exact hok.move rfl rfl rfl hev rfl (fun i => by simp [Label.asks]) fun i hi => ⟨hi, rfl⟩
  | @history i msg hsp ho hlt =>
    exact hok.moveSession rfl rfl rfl rfl rfl rfl (by simp [Label.asks]) (fun j _ => rfl) ho.1

/-- **No request is lost, doubled or overtaken.** Along every run of the net the hub is where
the messages that it has processed lead; the market messages are processed in their order;
and for every session, what the hub has processed, what is in its queue and what the task of
the session has left are together, in this order, the actions that its texts ask for. -/
theorem requests_run (h : NetRuns x ls log n) : RequestsOK x ls log n := by
  refine Run.hist_inv (P := fun ls s => RequestsOK x ls s.2 s.1) requestsOK_init ?_ h
  rintro ls ⟨n, log⟩ l ⟨n', log'⟩ - hok ⟨hst, hlog⟩
  rw [hlog]
  exact requestsOK_step hok hst

/-! ## What the hub gives -/

theorem outputsFrom_append (ms ms' : List HubMsg) : ∀ h, outputsFrom x i h (ms ++ ms') =
    outputsFrom x i h ms ++ outputsFrom x i (ms.foldl (Hub.step x) h) ms' := by
  induction ms with
  | nil => intro h; rfl
  | cons m ms ih =>
    intro h
    simp only [List.cons_append, outputsFrom, ih, List.foldl_cons, List.append_assoc]

theorem outputs_snoc (ms : List HubMsg) (m : HubMsg) :
    outputs x (ms ++ [m]) i = outputs x ms i ++ (Hub.run x ms).gives x i m := by
  rw [outputs, outputsFrom_append]
  simp only [outputsFrom, List.append_nil]
  rfl

/-- The sends of `data_hander` to one session, in whatever order it walks the topic. -/
theorem tagged_order {ms : List HubMsg} {s mt : String} {d : Bytes} {order : List (TxJSON × String)}
    (ho : (order : Multiset (TxJSON × String)) = (dataHander x s mt d (Hub.run x ms)).2) :
    tagged ⟨i⟩ order = (Hub.run x ms).gives x i (.data s mt d) := by
  have hf := filter_dataHander (x := x) (hubOK_run x ms) i s mt d
  rw [← ho, Multiset.filter_coe] at hf
  rw [tagged_eq_map_filter, Hub.gives]
  split
  · next hc =>
    rw [if_pos hc, Multiset.coe_eq_singleton] at hf
    rw [hf]
    rfl
  · next hc =>
    rw [if_neg hc, Multiset.coe_eq_zero] at hf
    rw [hf]
    rfl

/-- **A session that has sent nothing** is sent nothing. -/
theorem outputs_eq_nil {ms : List HubMsg} (h : ms.filterMap (HubMsg.ownAction i) = []) :
    outputs x ms i = [] := by
  induction ms using List.reverseRecOn with
  | nil => rfl
  | append_singleton ms m ih =>
    rw [List.filterMap_append, List.append_eq_nil_iff] at h
    rw [outputs_snoc, ih h.1, List.nil_append]
    cases m with
    | action a =>
      have hid : a.id ≠ i := by
        rintro rfl
        simp [HubMsg.ownAction] at h
      cases hr : (actionHandle a.id a.action (Hub.run x ms)).2 with
      | none => simp [Hub.gives, hr]
      | some reply =>
        have hown := (reply_own ms a hr).1
        simp [Hub.gives, hr, hown, hid]
    | data s mt d =>
      have hquiet : ∀ m ∈ ms, m.NotSubscribe i := by
        intro m hm
        cases m with
        | data s mt d => trivial
        | action a =>
          intro hid
          have hmem : a ∈ ms.filterMap (HubMsg.ownAction i) :=
            List.mem_filterMap.2 ⟨_, hm, if_pos hid⟩
          rw [h.1] at hmem
          cases hmem
      have hempty : i ∉ (Hub.run x []).userList := Finmap.notMem_empty
      have hout : i ∉ (Hub.run x ms).userList := not_mem_run ms hempty hquiet
      rw [Hub.gives, (hubOK_run x ms).channel_eq_none hout s]
      rfl

/-- **The books of the hub's sends.** What its handlers gave has arrived, has found no
receiver or is still to be sent, in this order; and only a session that has ended is no
receiver. -/
structure SendsOK (x : Crates) (log : List NetEvent) (n : Net) : Prop where
  sends : ∀ i, tagged .hub (arrivals log i) ++ lost log i ++ tagged ⟨i⟩ n.sending =
    outputs x (processed log) i
  ended : ∀ i, lost log i ≠ [] → (n.session i).phase = .ended

theorem arrivals_append (log ev : List NetEvent) (i : ℕ) :
    arrivals (log ++ ev) i = arrivals log i ++ arrivals ev i := List.filterMap_append

theorem lost_append (log ev : List NetEvent) (i : ℕ) : lost (log ++ ev) i = lost log i ++ lost ev i :=
  List.filterMap_append

theorem frames_append (log ev : List NetEvent) (i : ℕ) :
    frames (log ++ ev) i = frames log i ++ frames ev i := List.filterMap_append

theorem missed_append (log ev : List NetEvent) (i : ℕ) :
    missed (log ++ ev) i = missed log i ++ missed ev i := List.filterMap_append

theorem socketSends_append (log ev : List NetEvent) (i : ℕ) :
    socketSends (log ++ ev) i = socketSends log i ++ socketSends ev i := List.filterMap_append

@[simp] theorem arrivals_queued (i j : ℕ) (source : Source) (msg : String) :
    arrivals [.queued i source msg] j = if i = j then [(source, msg)] else [] := by
  by_cases h : i = j <;> simp [arrivals, h]

@[simp] theorem lost_queued (i j : ℕ) (source : Source) (msg : String) :
    lost [.queued i source msg] j = [] := rfl

@[simp] theorem arrivals_dropped (i j : ℕ) (msg : String) : arrivals [.dropped i msg] j = [] := rfl

@[simp] theorem lost_dropped (i j : ℕ) (msg : String) :
    lost [.dropped i msg] j = if i = j then [msg] else [] := by
  by_cases h : i = j <;> simp [lost, h]

@[simp] theorem frames_frame (i j : ℕ) (msg : String) :
    frames [.frame i msg] j = if i = j then [msg] else [] := by
  by_cases h : i = j <;> simp [frames, h]

@[simp] theorem frames_refused (i j : ℕ) : frames [.refused i] j = if i = j then [binaryError] else [] := by
  by_cases h : i = j <;> simp [frames, h]

@[simp] theorem missed_missed (i j : ℕ) (msg : String) :
    missed [.missed i msg] j = if i = j then [msg] else [] := by
  by_cases h : i = j <;> simp [missed, h]

@[simp] theorem socketSends_queued (i j : ℕ) (source : Source) (msg : String) :
    socketSends [.queued i source msg] j = [] := rfl

@[simp] theorem socketSends_frame (i j : ℕ) (msg : String) :
    socketSends [.frame i msg] j = if i = j then [(true, msg)] else [] := by
  by_cases h : i = j <;> simp [socketSends, h]

@[simp] theorem socketSends_missed (i j : ℕ) (msg : String) :
    socketSends [.missed i msg] j = if i = j then [(true, msg)] else [] := by
  by_cases h : i = j <;> simp [socketSends, h]

@[simp] theorem socketSends_refused (i j : ℕ) :
    socketSends [.refused i] j = if i = j then [(false, binaryError)] else [] := by
  by_cases h : i = j <;> simp [socketSends, h]

@[simp] theorem arrivals_refused (i j : ℕ) : arrivals [.refused i] j = [] := rfl

/-- A step that is none of the hub. -/
theorem SendsOK.quiet {ev : List NetEvent} (hok : SendsOK x log n) (hst : Step x n l n')
    (hsending : n'.sending = n.sending) (hev : processed ev = [])
    (hhub : ∀ i, tagged .hub (arrivals ev i) = []) (hlost : ∀ i, lost ev i = []) :
    SendsOK x (log ++ ev) n' where
  sends i := by
    rw [arrivals_append, lost_append, processed_append, tagged_append, hhub, hlost, hev, hsending,
      List.append_nil, List.append_nil, List.append_nil]
    exact hok.sends i
  ended i h := by
    rw [lost_append, hlost, List.append_nil] at h
    exact hst.ended (hok.ended i h)

/-- A step in which the hub takes a message. -/
theorem SendsOK.take {m : HubMsg} {sends : List (TxJSON × String)} (hok : SendsOK x log n)
    (hsession : n'.session = n.session) (hidle : n.sending = []) (hsending : n'.sending = sends)
    (hgives : ∀ i, tagged ⟨i⟩ sends = (Hub.run x (processed log)).gives x i m) :
    SendsOK x (log ++ [.took m sends]) n' where
  sends i := by
    have hbefore := hok.sends i
    rw [hidle, tagged_nil, List.append_nil] at hbefore
    rw [arrivals_append, lost_append, processed_append, hsending, hgives]
    change tagged .hub (arrivals log i ++ []) ++ (lost log i ++ []) ++ _ =
      outputs x (processed log ++ [m]) i
    rw [List.append_nil, List.append_nil, outputs_snoc, hbefore]
  ended i h := by
    rw [lost_append] at h
    rw [hsession]
    exact hok.ended i (by simpa [lost] using h)

/-- A step in which the hub does the first of its sends: the item arrives or is lost. -/
theorem SendsOK.send {ev : List NetEvent} {msg : String} {rest : List (TxJSON × String)}
    (hok : SendsOK x log n) (hs : n.sending = (⟨i⟩, msg) :: rest) (hsending : n'.sending = rest)
    (hev : processed ev = [])
    (hitem : ∀ j, tagged .hub (arrivals (log ++ ev) j) ++ lost (log ++ ev) j =
      tagged .hub (arrivals log j) ++ lost log j ++ if i = j then [msg] else [])
    (hended : ∀ j, lost (log ++ ev) j ≠ [] → (n'.session j).phase = .ended) : SendsOK x (log ++ ev) n' where
  sends j := by
    have hbefore := hok.sends j
    rw [hs, tagged_cons] at hbefore
    rw [hitem, processed_append, hev, List.append_nil, hsending, ← hbefore]
    by_cases hij : i = j <;> simp [hij]
  ended := hended

/-- **A step keeps the books of the hub's sends.** -/
theorem sendsOK_step (hreq : RequestsOK x ls log n) (hok : SendsOK x log n) (hst : Step x n l n') :
    SendsOK x (log ++ netEvents n l) n' := by
  have hquiet : n'.sending = n.sending → processed (netEvents n l) = [] →
      (∀ i, tagged .hub (arrivals (netEvents n l) i) = []) → (∀ i, lost (netEvents n l) i = []) →
        SendsOK x (log ++ netEvents n l) n' := hok.quiet hst
  have hended : ∀ {i}, (n.session i).phase = .ended → (n'.session i).phase = .ended := hst.ended
  cases hst with
  | @sendAction i a ops ok h hlt =>
    have hev : netEvents n (.op i) = [] := by simp only [netEvents, h]
    rw [hev] at hquiet ⊢
    exact hquiet rfl rfl (fun _ => rfl) fun _ => rfl
  | @reply i msg ops ok h hlt =>
    have hev : netEvents n (.op i) = [.queued i .own msg] := by simp only [netEvents, h]
    rw [hev] at hquiet ⊢
    refine hquiet rfl rfl (fun j => ?_) fun _ => rfl
    by_cases hij : i = j <;> simp [hij]
  | @spawn i start stop args ops ok h =>
    have hev : netEvents n (.op i) = [] := by simp only [netEvents, h]
    rw [hev] at hquiet ⊢
    exact hquiet rfl rfl (fun _ => rfl) fun _ => rfl
  | @pop i msg q h hq =>
    have hev : netEvents n (.pop i) = [.frame i msg] := by simp only [netEvents, hq]; rfl
    rw [hev] at hquiet ⊢
    exact hquiet rfl rfl (fun _ => rfl) fun _ => rfl
  | @miss i msg q h hq =>
    have hev : netEvents n (.miss i) = [.missed i msg] := by simp only [netEvents, hq]; rfl
    rw [hev] at hquiet ⊢
    exact hquiet rfl rfl (fun _ => rfl) fun _ => rfl
  | @takeAction a rest hs ha =>
    have hev : netEvents n .takeAction =
        [.took (.action a) (actionHandle a.id a.action n.hub).2.toList] := by
      simp only [netEvents, ha]
    rw [hev]
    exact hok.take rfl hs rfl fun i => by rw [hreq.hub]; rfl
  | @takeData s mt d rest order hs hd ho =>
    have hev : netEvents n (.takeData order) = [.took (.data s mt d) order] := by
      simp only [netEvents, hd]
    rw [hreq.hub] at ho
    rw [hev]
    exact hok.take rfl hs rfl fun i => tagged_order ho
  | @push tx msg rest hs ho hlt =>
    obtain ⟨i⟩ := tx
    have hev : netEvents n .push = [.queued i .hub msg] := by simp only [netEvents, hs, if_pos ho]
    rw [hev]
    have hopen : lost log i = [] := by
      by_contra hlost
      exact ho.2 (hok.ended i hlost)
    refine hok.send hs rfl rfl (fun j => ?_) fun j hj => ?_
    · rw [arrivals_append, lost_append, tagged_append]
      by_cases hij : i = j
      · subst hij
        simp [hopen]
      · simp [hij]
    · rw [lost_append] at hj
      exact hended (hok.ended j (by simpa using hj))
  | @drop tx msg rest hs ho =>
    obtain ⟨i⟩ := tx
    have hev : netEvents n .push = [.dropped i msg] := by simp only [netEvents, hs, if_neg ho]
    -- the hub sends only to a session that has asked for something
    have hpresent : (n.session i).phase ≠ .absent := by
      intro habsent
      have hreq' := hreq.actions i
      rw [hreq.absent i habsent, List.append_assoc, List.append_eq_nil_iff] at hreq'
      have hbefore := hok.sends i
      rw [outputs_eq_nil hreq'.1, hs, tagged_cons] at hbefore
      simp at hbefore
    have hover : (n.session i).phase = .ended := by
      by_contra hne
      exact ho ⟨hpresent, hne⟩
    rw [hev]
    refine hok.send hs rfl rfl (fun j => ?_) fun j hj => ?_
    · rw [arrivals_append, lost_append, tagged_append]
      by_cases hij : i = j <;> simp [hij]
    · by_cases hij : i = j
      · exact hij ▸ hover
      · rw [lost_append] at hj
        exact hok.ended j (by simpa [hij] using hj)
  | @history i msg hsp ho hlt =>
    refine hquiet rfl rfl (fun j => ?_) fun _ => rfl
    by_cases hij : i = j <;> simp [netEvents, hij]
  | _ => exact hquiet rfl rfl (fun _ => rfl) fun _ => rfl

theorem sends_run (h : NetRuns x ls log n) : SendsOK x log n := by
  refine Run.hist_inv (P := fun _ s => SendsOK x s.2 s.1) ⟨fun _ => rfl, fun _ h => absurd rfl h⟩ ?_ h
  rintro ls ⟨n, log⟩ l ⟨n', log'⟩ hrun hok ⟨hst, hlog⟩
  rw [hlog]
  exact sendsOK_step (requests_run hrun) hok hst

/-! ## What the client gets -/

/-- **The books of the JSON queues.** What came out of the queue of a session and what is still
in it is what was put there; the session's own task has put there what its texts ask for, as
far as it has come, the history tasks all they sent, and nobody the answers to binary frames. -/
structure QueueOK (x : Crates) (ls : List Label) (log : List NetEvent) (n : Net) : Prop where
  queue : ∀ i, tagged true (socketSends log i) ++ (n.session i).rxJson = (arrivals log i).map Prod.snd
  own : ∀ i, tagged .own (arrivals log i) ++ (n.session i).phase.replies = ownReplies x ls i
  history : ∀ i, tagged .history (arrivals log i) = historyMsgs ls i
  binary : ∀ i, tagged .binary (arrivals log i) = [] ∧ tagged false (socketSends log i) = refusals ls i

theorem ownReplies_snoc (ls : List Label) (l : Label) (i : ℕ) :
    ownReplies x (ls ++ [l]) i = ownReplies x ls i ++ l.asksReplies x i := by
  rw [ownReplies, List.flatMap_append, List.flatMap_singleton]
  rfl

theorem historyMsgs_snoc (ls : List Label) (l : Label) (i : ℕ) :
    historyMsgs (ls ++ [l]) i = historyMsgs ls i ++ historyMsgs [l] i := List.filterMap_append

theorem refusals_snoc (ls : List Label) (l : Label) (i : ℕ) :
    refusals (ls ++ [l]) i = refusals ls i ++ refusals [l] i := List.filterMap_append

/-- One step, seen at session `i`: what enters and leaves its queue. -/
structure QueueStep (x : Crates) (c c' : Session) (ev : List NetEvent) (l : Label) (i : ℕ) : Prop where
  queue : tagged true (socketSends ev i) ++ c'.rxJson = c.rxJson ++ (arrivals ev i).map Prod.snd
  own : tagged .own (arrivals ev i) ++ c'.phase.replies = c.phase.replies ++ l.asksReplies x i
  history : tagged .history (arrivals ev i) = historyMsgs [l] i
  binary : tagged .binary (arrivals ev i) = [] ∧ tagged false (socketSends ev i) = refusals [l] i

/-- The step asks session `i` for no text: no reply of its task, no message of its history tasks,
no answer to a binary frame. -/
def Label.Silent (x : Crates) (l : Label) (i : ℕ) : Prop :=
  l.asksReplies x i = [] ∧ historyMsgs [l] i = [] ∧ refusals [l] i = []

/-- A step in which nothing enters or leaves the queue. -/
theorem QueueStep.still {c c' : Session} {ev : List NetEvent} (hf : socketSends ev i = [])
    (ha : arrivals ev i = []) (hrx : c'.rxJson = c.rxJson)
    (hp : c'.phase.replies = c.phase.replies ++ l.asksReplies x i) (hh : historyMsgs [l] i = [])
    (hb : refusals [l] i = []) : QueueStep x c c' ev l i := by
  refine ⟨?_, ?_, ?_, ?_⟩
  · rw [hf, ha, hrx, tagged_nil, List.nil_append, List.map_nil, List.append_nil]
  · rw [ha, tagged_nil, List.nil_append, hp]
  · rw [ha, tagged_nil, hh]
  · rw [ha, hf, hb]
    exact ⟨rfl, rfl⟩

/-- The sessions that a step of session `j` leaves alone. -/
theorem QueueStep.other {c : Session} {ev : List NetEvent} (hf : socketSends ev i = [])
    (ha : arrivals ev i = []) (hl : l.Silent x i) : QueueStep x c c ev l i :=
  QueueStep.still hf ha rfl (by rw [hl.1, List.append_nil]) hl.2.1 hl.2.2

/-- A step of session `i`. -/
theorem QueueStep.of_set {ev : List NetEvent} {c : Session} (hsession : n'.session = (n.set i c).session)
    (hself : QueueStep x (n.session i) c ev l i)
    (hother : ∀ j, j ≠ i → socketSends ev j = [] ∧ arrivals ev j = [] ∧ l.Silent x j) {j : ℕ} :
    QueueStep x (n.session j) (n'.session j) ev l j := by
  rw [hsession, Net.session_set]
  split
  · next heq => subst heq; exact hself
  · next hne =>
    obtain ⟨hf, ha, hl⟩ := hother j hne
    exact QueueStep.other hf ha hl

/-- A step of session `i` in which nothing enters or leaves its queue. -/
theorem QueueStep.moved {c : Session} {j : ℕ} (hsession : n'.session = (n.set i c).session)
    (hev : netEvents n l = []) (hrx : c.rxJson = (n.session i).rxJson)
    (hp : c.phase.replies = (n.session i).phase.replies ++ l.asksReplies x i)
    (hl : ∀ k, k ≠ i → l.asksReplies x k = []) (hh : ∀ k, historyMsgs [l] k = [])
    (hb : ∀ k, refusals [l] k = []) :
    QueueStep x (n.session j) (n'.session j) (netEvents n l) l j := by
  rw [hev]
  refine QueueStep.of_set hsession (QueueStep.still rfl rfl hrx hp (hh i) (hb i)) ?_
  exact fun k hk => ⟨rfl, rfl, hl k hk, hh k, hb k⟩

/-- A step of session `i` that takes an item out of its queue and gives it to `socket.send`. -/
theorem QueueStep.shown {ev : List NetEvent} {c : Session} {msg : String}
    (hsession : n'.session = (n.set i c).session)
    (hs : ∀ k, socketSends ev k = if i = k then [(true, msg)] else []) (ha : ∀ k, arrivals ev k = [])
    (hrx : (n.session i).rxJson = msg :: c.rxJson) (hp : c.phase.replies = (n.session i).phase.replies)
    (hl : ∀ k, l.Silent x k) {j : ℕ} : QueueStep x (n.session j) (n'.session j) ev l j := by
  refine QueueStep.of_set hsession ⟨?_, ?_, ?_, ?_⟩ fun k hk => ⟨?_, ha k, hl k⟩
  · rw [hs, if_pos rfl, ha, hrx]
    simp
  · rw [ha, hp, (hl i).1]
    simp
  · rw [ha, (hl i).2.1]
    rfl
  · rw [ha, hs, if_pos rfl, (hl i).2.2]
    exact ⟨rfl, rfl⟩
  · rw [hs, if_neg (Ne.symm hk)]

/-- **What a step does to the queues of the sessions.** -/
theorem queueStep (hst : Step x n l n') (i : ℕ) :
    QueueStep x (n.session i) (n'.session i) (netEvents n l) l i := by
  cases hst with
  | @connect j h =>
    exact QueueStep.moved rfl rfl rfl (by simp [h, Phase.replies, Label.asksReplies])
      (fun _ _ => rfl) (fun _ => rfl) fun _ => rfl
  | @text j json h =>
    exact QueueStep.moved rfl rfl rfl (by simp [h, Phase.replies, Label.asksReplies])
      (fun k hk => if_neg (Ne.symm hk)) (fun _ => rfl) fun _ => rfl
  | frame h => exact QueueStep.other rfl rfl ⟨rfl, rfl, rfl⟩
  | @binary j h =>
    by_cases hj : j = i
    · subst hj
      exact ⟨by simp [netEvents], by simp [netEvents, Label.asksReplies], rfl,
        by simp [netEvents, refusals]⟩
    · exact QueueStep.other (by simp [netEvents, hj]) rfl ⟨rfl, rfl, by simp [refusals, hj]⟩
  | @leave j h =>
    exact QueueStep.moved rfl rfl rfl (by simp [h, Phase.replies, Label.asksReplies])
      (fun _ _ => rfl) (fun _ => rfl) fun _ => rfl
  | @crash j h =>
    exact QueueStep.moved rfl rfl rfl (by simp [h, Phase.replies, Label.asksReplies])
      (fun _ _ => rfl) (fun _ => rfl) fun _ => rfl
  | @sendAction j a ops ok h hlt =>
    exact QueueStep.moved rfl (by simp only [netEvents, h]) rfl
      (by rw [h]; exact (List.append_nil _).symm) (fun _ _ => rfl) (fun _ => rfl) fun _ => rfl
  | @reply j msg ops ok h hlt =>
    have hev : netEvents n (.op j) = [.queued j .own msg] := by simp only [netEvents, h]
    rw [hev, Net.pushJson_goto]
    refine QueueStep.of_set rfl ⟨?_, ?_, ?_, ?_⟩ ?_
    · simp
    · simp [h, Phase.replies, Op.replyText, Label.asksReplies]
    · simp [historyMsgs]
    · simp [refusals]
    · exact fun k hk => ⟨rfl, by simp [Ne.symm hk], rfl, rfl, rfl⟩
  | @spawn j start stop args ops ok h =>
    exact QueueStep.moved rfl (by simp only [netEvents, h]) rfl
      (by rw [h]; exact (List.append_nil _).symm) (fun _ _ => rfl) (fun _ => rfl) fun _ => rfl
  | @finish j ok h =>
    exact QueueStep.moved rfl rfl rfl (by cases ok <;> simp [h, Phase.replies, Label.asksReplies])
      (fun _ _ => rfl) (fun _ => rfl) fun _ => rfl
  | @bye j h hlt =>
    exact QueueStep.moved rfl rfl rfl (by simp [h, Phase.replies, Label.asksReplies])
      (fun _ _ => rfl) (fun _ => rfl) fun _ => rfl
  | @pop j msg q h hq =>
    have hev : netEvents n (.pop j) = [.frame j msg] := by simp only [netEvents, hq]; rfl
    rw [hev]
    refine QueueStep.shown (c := { n.session j with rxJson := q }) rfl
      (fun k => socketSends_frame j k msg) (fun _ => rfl) hq rfl ?_
    exact fun _ => ⟨rfl, rfl, rfl⟩
  | @miss j msg q h hq =>
    have hev : netEvents n (.miss j) = [.missed j msg] := by simp only [netEvents, hq]; rfl
    rw [hev]
    refine QueueStep.shown (c := { n.session j with phase := .closing, rxJson := q }) rfl
      (fun k => socketSends_missed j k msg) (fun _ => rfl) hq ?_ ?_
    · rw [h]
      rfl
    · exact fun _ => ⟨rfl, rfl, rfl⟩
  | produce hlt => exact QueueStep.other rfl rfl ⟨rfl, rfl, rfl⟩
  | @takeAction a rest hs ha =>
    have hev : netEvents n .takeAction =
        [.took (.action a) (actionHandle a.id a.action n.hub).2.toList] := by
      simp only [netEvents, ha]
    rw [hev]
    exact QueueStep.other rfl rfl ⟨rfl, rfl, rfl⟩
  | @takeData s mt d rest order hs hd ho =>
    have hev : netEvents n (.takeData order) = [.took (.data s mt d) order] := by
      simp only [netEvents, hd]
    rw [hev]
    exact QueueStep.other rfl rfl ⟨rfl, rfl, rfl⟩
  | @push tx msg rest hs ho hlt =>
    have hev : netEvents n .push = [.queued tx.session .hub msg] := by
      simp only [netEvents, hs, if_pos ho]
    rw [hev]
    refine QueueStep.of_set rfl ⟨?_, ?_, ?_, ?_⟩ ?_
    · simp
    · simp [Label.asksReplies]
    · simp [historyMsgs]
    · simp [refusals]
    · exact fun k hk => ⟨rfl, by simp [Ne.symm hk], rfl, rfl, rfl⟩
  | @drop tx msg rest hs ho =>
    have hev : netEvents n .push = [.dropped tx.session msg] := by simp only [netEvents, hs, if_neg ho]
    rw [hev]
    exact QueueStep.other rfl rfl ⟨rfl, rfl, rfl⟩
  | @history j msg hsp ho hlt =>
    refine QueueStep.of_set rfl ⟨?_, ?_, ?_, ?_⟩ fun k hk => ⟨rfl, ?_, rfl, ?_, rfl⟩
    · simp [netEvents]
    · simp [netEvents, Label.asksReplies]
    · simp [netEvents, historyMsgs]
    · simp [netEvents, refusals]
    · simp [netEvents, Ne.symm hk]
    · simp [historyMsgs, Ne.symm hk]

/-- **The books of the JSON queues balance** along every run. -/
theorem frames_run (h : NetRuns x ls log n) : QueueOK x ls log n := by
  refine Run.hist_inv (P := fun ls s => QueueOK x ls s.2 s.1)
    ⟨fun _ => rfl, fun _ => rfl, fun _ => rfl, fun _ => ⟨rfl, rfl⟩⟩ ?_ h
  rintro ls ⟨n, log⟩ l ⟨n', log'⟩ - hok ⟨hst, hlog⟩
  rw [hlog]
  refine ⟨fun i => ?_, fun i => ?_, fun i => ?_, fun i => ?_⟩
  · rw [socketSends_append, tagged_append, arrivals_append, List.map_append, ← hok.queue,
      List.append_assoc, List.append_assoc, (queueStep hst i).queue]
  · rw [arrivals_append, tagged_append, ownReplies_snoc, ← hok.own, List.append_assoc,
      List.append_assoc, (queueStep hst i).own]
  · rw [arrivals_append, tagged_append, historyMsgs_snoc, hok.history, (queueStep hst i).history]
  · rw [arrivals_append, tagged_append, socketSends_append, tagged_append, refusals_snoc,
      (hok.binary i).1, (hok.binary i).2, (queueStep hst i).binary.1, (queueStep hst i).binary.2]
    exact ⟨rfl, rfl⟩

/-! ## The last send -/

/-- What a step does with the socket of session `i`: nothing; in the select loop, one text for the
client; or a failed send, which ends the loop. -/
theorem socketStep (hst : Step x n l n') (i : ℕ) :
    (socketSends (netEvents n l) i = [] ∧ frames (netEvents n l) i = [] ∧ missed (netEvents n l) i = []) ∨
      (n.session i).phase = .select ∧ ((missed (netEvents n l) i = [] ∧
          (socketSends (netEvents n l) i).map Prod.snd = frames (netEvents n l) i) ∨
        (n'.session i).phase = .closing ∧ frames (netEvents n l) i = [] ∧
          (missed (netEvents n l) i).length = 1 ∧
          (socketSends (netEvents n l) i).map Prod.snd = missed (netEvents n l) i) := by
  cases hst with
  | @binary j h =>
    by_cases hj : j = i
    · exact Or.inr ⟨hj ▸ h, Or.inl ⟨rfl, by simp [netEvents, hj]⟩⟩
    · exact Or.inl ⟨by simp [netEvents, hj], by simp [netEvents, hj], rfl⟩
  | @pop j msg q h hq =>
    have hev : netEvents n (.pop j) = [.frame j msg] := by simp only [netEvents, hq]; rfl
    rw [hev]
    by_cases hj : j = i
    · exact Or.inr ⟨hj ▸ h, Or.inl ⟨rfl, by simp [hj]⟩⟩
    · exact Or.inl ⟨by simp [hj], by simp [hj], rfl⟩
  | @miss j msg q h hq =>
    have hev : netEvents n (.miss j) = [.missed j msg] := by simp only [netEvents, hq]; rfl
    rw [hev]
    by_cases hj : j = i
    · refine Or.inr ⟨hj ▸ h, Or.inr ⟨?_, rfl, by simp [hj], by simp [hj]⟩⟩
      rw [Net.session_set, if_pos hj.symm]
    · exact Or.inl ⟨by simp [hj], rfl, by simp [hj]⟩
  | sendAction h hlt => simp only [netEvents, h]; exact Or.inl ⟨rfl, rfl, rfl⟩
  | reply h hlt => simp only [netEvents, h]; exact Or.inl ⟨rfl, rfl, rfl⟩
  | spawn h => simp only [netEvents, h]; exact Or.inl ⟨rfl, rfl, rfl⟩
  | takeAction hs ha => simp only [netEvents, ha]; exact Or.inl ⟨rfl, rfl, rfl⟩
  | takeData hs hd ho => simp only [netEvents, hd]; exact Or.inl ⟨rfl, rfl, rfl⟩
  | push hs ho hlt => simp only [netEvents, hs, if_pos ho]; exact Or.inl ⟨rfl, rfl, rfl⟩
  | drop hs ho => simp only [netEvents, hs, if_neg ho]; exact Or.inl ⟨rfl, rfl, rfl⟩
  | _ => exact Or.inl ⟨rfl, rfl, rfl⟩

/-- **A failed send** loses one item, and is the last thing the session does with its socket. -/
theorem missed_run (h : NetRuns x ls log n) (i : ℕ) :
    (socketSends log i).map Prod.snd = frames log i ++ missed log i ∧
      (missed log i ≠ [] → (missed log i).length = 1 ∧ (n.session i).phase.Over) := by
  refine Run.inv (P := fun s : Net × List NetEvent =>
    (socketSends s.2 i).map Prod.snd = frames s.2 i ++ missed s.2 i ∧
      (missed s.2 i ≠ [] → (missed s.2 i).length = 1 ∧ (s.1.session i).phase.Over))
    ⟨rfl, fun hm => absurd rfl hm⟩ ?_ h
  rintro ⟨n, log⟩ l ⟨n', log'⟩ ⟨hshown, hmissed⟩ ⟨hst, hlog⟩
  dsimp only at hst hlog hshown hmissed ⊢
  rw [hlog, socketSends_append, frames_append, missed_append, List.map_append, hshown]
  rcases socketStep hst i with ⟨hs, hf, hm⟩ | ⟨hp, hcase⟩
  · rw [hs, hf, hm, List.append_nil, List.append_nil]
    exact ⟨List.append_nil _, fun hne => (hmissed hne).imp id hst.over⟩
  · -- the loop goes on, so nothing was lost before
    have hnone : missed log i = [] := by
      by_contra hne
      rcases (hmissed hne).2 with h | h <;> simp [hp] at h
    rw [hnone, List.append_nil, List.nil_append]
    rcases hcase with ⟨hm, hs⟩ | ⟨hclosing, hf, hone, hs⟩
    · rw [hm, hs, List.append_nil]
      exact ⟨rfl, fun hne => absurd rfl hne⟩
    · rw [hf, hs, List.append_nil]
      exact ⟨rfl, fun _ => ⟨hone, Or.inl hclosing⟩⟩

/-- **What a client got**, the item of a failed send and what is in the queue of its session
interleave what the senders to the queue put there and the answers to binary frames. -/
theorem interleaves_run (h : NetRuns x ls log n) (i : ℕ) :
    Interleaves (frames log i ++ missed log i ++ (n.session i).rxJson)
      (bySource (tagged .hub (arrivals log i)) (tagged .own (arrivals log i)) (historyMsgs ls i)
        (refusals ls i)) := by
  have hok := frames_run h
  have hmerge := Interleaves.merge (hok.binary i).1 (hok.queue i)
  rw [(missed_run h i).1, (hok.binary i).2] at hmerge
  convert hmerge using 1
  funext source
  cases source with
  | hub => rfl
  | own => rfl
  | history => exact (hok.history i).symm
  | binary => rfl

/-- **What the client of session `i` gets** of what the hub (`sent`), its own task (`own`) and its
history tasks (`history`) have put into the queue. Of a session that has ended, what is still in
the queue is gone with it. -/
structure Served (x : Crates) (ls : List Label) (log : List NetEvent) (n : Net) (i : ℕ)
    (sent own history : List String) : Prop where
  /-- The answers to binary frames go past the queue. -/
  order : Interleaves (frames log i ++ missed log i ++ (n.session i).rxJson)
    (bySource sent own history (refusals ls i))
  failed : missed log i ≠ [] → (missed log i).length = 1 ∧ (n.session i).phase.Over
  hub : sent ++ lost log i ++ tagged ⟨i⟩ n.sending = outputs x (processed log) i
  ended : lost log i ≠ [] → (n.session i).phase = .ended
  replies : own ++ (n.session i).phase.replies = ownReplies x ls i

theorem served_run (h : NetRuns x ls log n) (i : ℕ) :
    Served x ls log n i (tagged .hub (arrivals log i)) (tagged .own (arrivals log i)) (historyMsgs ls i) where
  order := interleaves_run h i
  failed := (missed_run h i).2
  hub := (sends_run h).sends i
  ended := (sends_run h).ended i
  replies := (frames_run h).own i

/-! ## A run with one client -/

/-- Session 1 and no other. -/
def clientNet (hub : Hub) (sending : List (TxJSON × String)) (actions : List ChannelAction)
    (data : List (String × String × Bytes)) (c : Session) : Net :=
  ⟨hub, sending, actions, data, Function.update Net.init.session 1 c⟩

section

variable {hub : Hub} {sending : List (TxJSON × String)} {actions : List ChannelAction}
  {data : List (String × String × Bytes)} {c : Session}

@[simp] theorem clientNet_session : (clientNet hub sending actions data c).session 1 = c := by
  simp [clientNet]

@[simp] theorem clientNet_set (c' : Session) :
    (clientNet hub sending actions data c).set 1 c' = clientNet hub sending actions data c' := by
  simp [clientNet, Net.set]

@[simp] theorem clientNet_goto (p : Phase) : (clientNet hub sending actions data c).goto 1 p =
    clientNet hub sending actions data ⟨p, c.rxJson, c.spawned⟩ := by
  rw [Net.goto, clientNet_set, clientNet_session]

@[simp] theorem clientNet_pushJson (msg : String) : (clientNet hub sending actions data c).pushJson 1 msg =
    clientNet hub sending actions data ⟨c.phase, c.rxJson ++ [msg], c.spawned⟩ := by
  rw [Net.pushJson, clientNet_set, clientNet_session]

end

/-- A command for the trades of a pair. -/
def tradeText : String :=
  "\x7b\"action\":\"subscribe\",\"args\":[" ++ flatJson [("exchange", .text "binance"),
    ("marketType", .text "spot"), ("symbol", .text "BTCUSDT"), ("messageType", .text "trade")] ++ "]\x7d"

/-- The crates on runs with this command and the messages `[1]` and `[2]`. -/
def tradeCrates : Crates :=
  ⟨flatJson, fun json => if json = tradeText then some ⟨"subscribe", [btcTrade]⟩ else none,
    fun data => if data = [1] then "AQ==" else "Ag==", fun _ _ => none⟩

theorem jsonHandle_trade :
    jsonHandle tradeCrates tradeText 1 = ([.send (.subscribe 1 btcTrade.toString)], true) := by
  have hp : tradeCrates.fromStr tradeText = some ⟨"subscribe", [btcTrade]⟩ := by simp [tradeCrates]
  have hs : (split '@' "subscribe").headD "" = "subscribe" := by decide
  simp only [jsonHandle, hp, hs]
  rfl

/-- The hub that knows the topic. -/
def topicHub : Hub := (dataHander tradeCrates btcTrade.toString "trade" [] Hub.init).1

/-- The hub with session 1 in the topic. -/
def tradeHub : Hub := (actionHandle 1 (.subscribe btcTrade.toString ⟨1⟩) topicHub).1

/-- A message of the hub goes through the queue to the client. -/
theorem client_gets {x : Crates} (hub : Hub) (msg : String) (log : List NetEvent) :
    Run (Logged (Step x) netEvents) (clientNet hub [(⟨1⟩, msg)] [] [] ⟨.select, [], false⟩, log)
      [.push, .pop 1]
      (clientNet hub [] [] [] ⟨.select, [], false⟩, log ++ [.queued 1 .hub msg, .frame 1 msg]) := by
  set n := clientNet hub [(⟨1⟩, msg)] [] [] ⟨.select, [], false⟩
  have hopen : (n.session 1).IsOpen := by simp [n, Session.IsOpen]
  have hroom : (n.session 1).rxJson.length < jsonCap := by simp [n, jsonCap]
  have hpush : Step x n .push { n.pushJson 1 msg with sending := [] } := Step.push rfl hopen hroom
  have hqueued : netEvents n .push = [.queued 1 .hub msg] := if_pos (e := [NetEvent.dropped 1 msg]) hopen
  rw [clientNet_pushJson] at hpush
  set n' := clientNet hub [] [] [] ⟨.select, [msg], false⟩
  have hq : (n'.session 1).rxJson = msg :: [] := by simp [n']
  have hpop : Step x n' (.pop 1) _ := Step.pop (by simp [n']) hq
  have hframe : netEvents n' (.pop 1) = [.frame 1 msg] := by simp [netEvents, n']
  rw [clientNet_set, clientNet_session] at hpop
  have h₀ : Run (Logged (Step x) netEvents) (n, log) [] (n, log) := Run.nil
  have h₁ : Run (Logged (Step x) netEvents) (n, log) [.push] (n', log ++ netEvents n .push) :=
    logged_snoc h₀ hpush
  have h₂ := logged_snoc h₁ hpop
  rwa [hqueued, hframe, List.append_assoc] at h₂

/-- The steps of a client that subscribes to a topic, once the hub knows it, and is told that it
accepts no binary data. -/
def subscribeLabels : List Label :=
  [.takeData [], .connect 1, .text 1 tradeText, .op 1, .finish 1, .takeAction, .push, .pop 1, .binary 1]

/-- What they do to the queues. -/
def subscribeLog (data : Bytes) : List NetEvent :=
  [.took (.data btcTrade.toString "trade" data) [],
    .took (.action (.subscribe 1 btcTrade.toString)) [(⟨1⟩, success)], .queued 1 .hub success,
    .frame 1 success, .refused 1]

theorem subscribe_run (data : Bytes) (log : List NetEvent) :
    Run (Logged (Step tradeCrates) netEvents)
      ({ Net.init with data := [(btcTrade.toString, "trade", data)] }, log) subscribeLabels
      (clientNet tradeHub [] [] [] ⟨.select, [], false⟩, log ++ subscribeLog data) := by
  have htake : Step tradeCrates { Net.init with data := [(btcTrade.toString, "trade", data)] } (.takeData [])
      { Net.init with hub := topicHub, data := [] } := Step.takeData (d := data) rfl rfl rfl
  have hconnect : Step tradeCrates { Net.init with hub := topicHub, data := [] } (.connect 1)
      (clientNet topicHub [] [] [] ⟨.select, [], false⟩) := Step.connect rfl
  have htext : Step tradeCrates (clientNet topicHub [] [] [] ⟨.select, [], false⟩) (.text 1 tradeText) _ :=
    Step.text (by rw [clientNet_session])
  rw [jsonHandle_trade, clientNet_goto] at htext
  have hop : Step tradeCrates (clientNet topicHub [] [] []
      ⟨.handling [.send (.subscribe 1 btcTrade.toString)] true, [], false⟩) (.op 1) _ :=
    Step.sendAction (by rw [clientNet_session]) (by decide)
  rw [clientNet_goto] at hop
  have hfinish : Step tradeCrates (clientNet topicHub [] [.subscribe 1 btcTrade.toString] []
      ⟨.handling [] true, [], false⟩) (.finish 1) _ := Step.finish (by rw [clientNet_session])
  rw [clientNet_goto] at hfinish
  have haction : Step tradeCrates (clientNet topicHub [] [.subscribe 1 btcTrade.toString] []
      ⟨.select, [], false⟩) .takeAction (clientNet tradeHub [(⟨1⟩, success)] [] [] ⟨.select, [], false⟩) :=
    Step.takeAction (a := .subscribe 1 btcTrade.toString) rfl rfl
  have hbinary : Step tradeCrates (clientNet tradeHub [] [] [] ⟨.select, [], false⟩) (.binary 1) _ :=
    Step.binary (by rw [clientNet_session])
  have h₀ : Run (Logged (Step tradeCrates) netEvents)
      ({ Net.init with data := [(btcTrade.toString, "trade", data)] }, log) [] (_, log) := Run.nil
  have h₁ := logged_snoc (logged_snoc (logged_snoc h₀ htake) hconnect) htext
  have h₂ := logged_snoc (logged_snoc (logged_snoc h₁ hop) hfinish) haction
  have h₃ := logged_snoc (h₂.append (client_gets tradeHub success _)) hbinary
  simp only [List.append_assoc] at h₃
  exact h₃

/-- The steps of a trade on its way to the client. -/
def tradeLabels (data : Bytes) : List Label :=
  [.takeData [(⟨1⟩, tradeCrates.marketMessage "trade" data)], .push, .pop 1]

/-- What they do to the queues. -/
def tradeLog (data : Bytes) : List NetEvent :=
  [.took (.data btcTrade.toString "trade" data) [(⟨1⟩, tradeCrates.marketMessage "trade" data)],
    .queued 1 .hub (tradeCrates.marketMessage "trade" data),
    .frame 1 (tradeCrates.marketMessage "trade" data)]

theorem trade_run (data : Bytes) (log : List NetEvent) :
    Run (Logged (Step tradeCrates) netEvents)
      (clientNet tradeHub [] [] [(btcTrade.toString, "trade", data)] ⟨.select, [], false⟩, log)
      (tradeLabels data) (clientNet tradeHub [] [] [] ⟨.select, [], false⟩, log ++ tradeLog data) := by
  set msg := tradeCrates.marketMessage "trade" data with hmsg
  have hdata : (clientNet tradeHub [] [] [(btcTrade.toString, "trade", data)] ⟨.select, [], false⟩).data =
    (btcTrade.toString, "trade", data) :: [] := rfl
  have htake : Step tradeCrates (clientNet tradeHub [] [] [(btcTrade.toString, "trade", data)]
      ⟨.select, [], false⟩) (.takeData [(⟨1⟩, msg)])
      (clientNet tradeHub [(⟨1⟩, msg)] [] [] ⟨.select, [], false⟩) := Step.takeData rfl hdata rfl
  have h₀ : Run (Logged (Step tradeCrates) netEvents)
      (clientNet tradeHub [] [] [(btcTrade.toString, "trade", data)] ⟨.select, [], false⟩, log) [] (_, log) :=
    Run.nil
  have hrun := (logged_snoc h₀ htake).append (client_gets tradeHub msg _)
  simp only [List.append_assoc] at hrun
  exact hrun

/-! ## The results -/

/-- A trade, a client that subscribes, and one more trade. -/
def clientLabels (data : Bytes) : List Label :=
  [.produce btcTrade.toString "trade" [1]] ++ subscribeLabels ++ [.produce btcTrade.toString "trade" data] ++
    tradeLabels data

/-- What they do to the queues. -/
def clientLog (data : Bytes) : List NetEvent := subscribeLog [1] ++ tradeLog data

/-- They are a run, after which nothing is under way. -/
theorem client_logged (data : Bytes) : NetRuns tradeCrates (clientLabels data) (clientLog data)
    (clientNet tradeHub [] [] [] ⟨.select, [], false⟩) := by
  have hfirst : Step tradeCrates Net.init (.produce btcTrade.toString "trade" [1]) _ :=
    Step.produce (by decide)
  have hsecond : Step tradeCrates (clientNet tradeHub [] [] [] ⟨.select, [], false⟩)
      (.produce btcTrade.toString "trade" data) _ := Step.produce (by decide)
  exact (logged_snoc ((NetRuns.nil.snoc hfirst).append (subscribe_run [1] [])) hsecond).append
    (trade_run data (subscribeLog [1]))

/-- **No request is lost, doubled or overtaken.** Whatever the tasks do, the hub is where
the messages that it has processed lead; it has processed the first of the market messages
and the rest are in its data queue; and of the actions that the texts of a session ask for
and the last one it sends, the hub has processed the first, the next are in its action queue
and the last are left to the session's task. -/
theorem requests_in_order (h : NetRuns x ls log n) :
    n.hub = Hub.run x (processed log) ∧
      (processed log).filterMap HubMsg.market ++ n.data.map (fun d => .data d.1 d.2.1 d.2.2) = produced ls ∧
      ∀ i, (processed log).filterMap (HubMsg.ownAction i) ++ n.actions.filter (·.id = i) ++
        (n.session i).phase.actions = requested x ls i :=
  ⟨(requests_run h).hub, (requests_run h).market, (requests_run h).actions⟩

/-- The hub has processed the two trades and the subscription. -/
theorem requests_in_order_btc :
    tradeHub = Hub.run tradeCrates [.data btcTrade.toString "trade" [1],
      .action (.subscribe 1 btcTrade.toString), .data btcTrade.toString "trade" [2]] ∧
      [.data btcTrade.toString "trade" [1], .data btcTrade.toString "trade" [2]] = produced (clientLabels [2]) ∧
      [.subscribe 1 btcTrade.toString] = requested tradeCrates (clientLabels [2]) 1 := by
  obtain ⟨hhub, hmarket, hactions⟩ := requests_in_order (client_logged [2])
  have hone := hactions 1
  rw [clientNet_session] at hone
  exact ⟨hhub, hmarket, hone⟩

/-- **No message to a client is lost, doubled or overtaken.** What the client got, what is in the
queue of its session and the one item whose `socket.send` has failed, after which the session
gets nothing more, interleave what four senders had for it, each in its order: the hub, the
session's own task and its history tasks, which put it into the queue, and the answers to
binary frames, which go past it. The hub has sent, has failed to send or has still to send
what its handlers gave, in this order, and fails only after the session has ended; the
session's own task has sent what its texts reply, as far as it has come. -/
theorem frames_in_order (h : NetRuns x ls log n) (i : ℕ) :
    ∃ sent own, Served x ls log n i sent own (historyMsgs ls i) := ⟨_, _, served_run h i⟩

/-- The client got the reply, the refusal of its binary frame and the second trade. -/
theorem frames_in_order_btc :
    frames (clientLog [2]) 1 = [success, binaryError, tradeCrates.marketMessage "trade" [2]] ∧ ∃ sent own,
      Interleaves [success, binaryError, tradeCrates.marketMessage "trade" [2]]
        (bySource sent own [] [binaryError]) ∧
      sent = outputs tradeCrates (processed (clientLog [2])) 1 ∧
      own = ownReplies tradeCrates (clientLabels [2]) 1 := by
  obtain ⟨sent, own, hserved⟩ := frames_in_order (client_logged [2]) 1
  have hil := hserved.order
  have hown := hserved.replies
  rw [clientNet_session] at hil hown
  have hall : sent ++ [] ++ [] = outputs tradeCrates (processed (clientLog [2])) 1 := hserved.hub
  have hnone : own ++ [] = ownReplies tradeCrates (clientLabels [2]) 1 := hown
  rw [List.append_nil] at hnone
  rw [List.append_nil, List.append_nil] at hall
  exact ⟨rfl, sent, own, hil, hall, hnone⟩

end CryptoMarket.Replay
