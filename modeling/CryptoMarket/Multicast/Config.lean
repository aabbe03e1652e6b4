import CryptoMarket.Lib.Pool

/-!
# Multicast server: the dynamic configuration

`file/config.rs`. The handler holds a task for each ipc url of the configuration. On a
change of the file it compares the (type, url) pairs of its map with those of the new
configuration, aborts the tasks of removed pairs and creates tasks for added ones.

The sets the source compares are hash sets: the orders in which they are walked are
arguments (`HashSet.Order`), and everything is proved for all orders.
-/

namespace CryptoMarket.Multicast

/-- `usize` -/
abbrev IpcType := ℕ

/-- `ArcStr` -/
abbrev IpcUrl := String

/-- An entry of the configuration file. -/
abbrev IpcBasicRepr := IpcType × IpcUrl

/-- What changes from one configuration to the next. -/
structure IpcDiff where
  added : HashSet IpcBasicRepr
  removed : HashSet IpcBasicRepr
  deriving DecidableEq

/-- `IpcDiff::default` -/
def IpcDiff.default : IpcDiff := ⟨∅, ∅⟩

/-! ## `diff_ipc` -/

/-- The loop of `diff_ipc` over `current`; no value if one of its `debug_assert!`s fails. -/
def diffIpcLoop : List IpcBasicRepr → HashSet IpcBasicRepr → IpcDiff →
    Option (HashSet IpcBasicRepr × IpcDiff)
  | [], new, diff => some (new, diff)
  | ipc :: current, new, diff =>
    if ipc ∈ new then
      let (result, new) := HashSet.remove ipc new
      if result then diffIpcLoop current new diff else none
    else
      let (result, removed) := HashSet.add ipc diff.removed
      if result then diffIpcLoop current new { diff with removed } else none

/-- `diff_ipc` -/
def diffIpc (current : List IpcBasicRepr) (new : HashSet IpcBasicRepr) : Option IpcDiff :=
  (diffIpcLoop current new .default).map fun (new, diff) => { diff with added := new }

theorem diffIpcLoop_eq : ∀ (current : List IpcBasicRepr) (new : HashSet IpcBasicRepr) (diff : IpcDiff),
    current.Nodup → (∀ ipc ∈ current, ipc ∉ diff.removed) → diffIpcLoop current new diff =
      some (new \ current.toFinset, { diff with removed := diff.removed ∪ (current.toFinset \ new) }) := by
  intro current
  induction current with
  | nil => intro new diff _ _; simp [diffIpcLoop]
  | cons ipc current ih =>
    intro new diff hnd hnew
    obtain ⟨hipc, hnd'⟩ := List.nodup_cons.1 hnd
    have hmem : ∀ p ∈ current, p ≠ ipc := by
      rintro p hp rfl
      exact hipc hp
    by_cases hm : ipc ∈ new
    · have hstep : diffIpcLoop (ipc :: current) new diff = diffIpcLoop current (new.erase ipc) diff := by
        simp [diffIpcLoop, HashSet.remove, hm]
      rw [hstep, ih _ _ hnd' fun p hp => hnew p (List.mem_cons_of_mem _ hp)]
      have hadded : new.erase ipc \ current.toFinset = new \ (ipc :: current).toFinset := by
        ext p; simp; tauto
      have hremoved : current.toFinset \ new.erase ipc = (ipc :: current).toFinset \ new := by
        ext p
        simp only [Finset.mem_sdiff, List.mem_toFinset, Finset.mem_erase, List.mem_cons]
        constructor
        · rintro ⟨hp, hne⟩
          exact ⟨Or.inr hp, fun h => hne ⟨hmem p hp, h⟩⟩
        · rintro ⟨rfl | hp, hne⟩
          · exact absurd hm hne
          · exact ⟨hp, fun h => hne h.2⟩
      rw [hadded, hremoved]
    · have hr : ipc ∉ diff.removed := hnew ipc List.mem_cons_self
      have hstep : diffIpcLoop (ipc :: current) new diff =
          diffIpcLoop current new { diff with removed := insert ipc diff.removed } := by
        simp [diffIpcLoop, HashSet.add, hm, hr]
      rw [hstep, ih]
      · have hadded : new \ current.toFinset = new \ (ipc :: current).toFinset := by
          ext p
          simp only [Finset.mem_sdiff, List.mem_toFinset, List.mem_cons, not_or, and_congr_right_iff]
          intro hp
          exact ⟨fun h => ⟨fun heq => hm (heq ▸ hp), h⟩, fun h => h.2⟩
        have hremoved : insert ipc diff.removed ∪ (current.toFinset \ new) =
            diff.removed ∪ ((ipc :: current).toFinset \ new) := by
          ext p
          simp only [Finset.mem_union, Finset.mem_insert, Finset.mem_sdiff, List.mem_toFinset,
            List.mem_cons]
          constructor
          · rintro ((rfl | h) | h)
            · exact Or.inr ⟨Or.inl rfl, hm⟩
            · exact Or.inl h
            · exact Or.inr ⟨Or.inr h.1, h.2⟩
          · rintro (h | ⟨rfl | h, hn⟩)
            · exact Or.inl (Or.inr h)
            · exact Or.inl (Or.inl rfl)
            · exact Or.inr ⟨h, hn⟩
        rw [hadded, hremoved]
      · exact hnd'
      · intro p hp
        simp only [Finset.mem_insert, not_or]
        exact ⟨hmem p hp, hnew p (List.mem_cons_of_mem _ hp)⟩

/-- **`diff_ipc` is the two-sided difference**, and its assertions hold. -/
theorem diffIpc_eq {current : List IpcBasicRepr} (hnd : current.Nodup) (new : HashSet IpcBasicRepr) :
    diffIpc current new = some ⟨new \ current.toFinset, current.toFinset \ new⟩ := by
  rw [diffIpc, diffIpcLoop_eq current new .default hnd (fun _ _ h => by simp [IpcDiff.default] at h)]
  simp [IpcDiff.default]

/-- **What `diff_ipc` returns**, in whatever order it walks `current`: the assertions hold, the
removed pairs are those of `current` that are not in `new`, the added ones those of `new`
that are not in `current`, and the diff leads from `current` to `new`. -/
theorem diffIpc_walks (current new : HashSet IpcBasicRepr) (order : List IpcBasicRepr)
    (h : current.Walks order) :
    ∃ diff, diffIpc order new = some diff ∧ diff.removed = current \ new ∧ diff.added = new \ current ∧
      (current \ diff.removed) ∪ diff.added = new := by
  have hcurrent : order.toFinset = current := by
    ext ipc
    rw [List.mem_toFinset, h.mem_iff]
  have hdiff : diffIpc order new = some ⟨new \ current, current \ new⟩ := by
    rw [diffIpc_eq h.nodup, hcurrent]
  refine ⟨_, hdiff, rfl, rfl, ?_⟩
  -- what is not removed is in both
  have hkept : current \ (current \ new) = new ∩ current := by
    rw [Finset.sdiff_sdiff_self_left, Finset.inter_comm]
  rw [hkept, Finset.union_comm, Finset.sdiff_union_inter]

/-- One pair stays, one goes and one comes. -/
theorem diffIpc_walks_sample : ∃ diff,
    diffIpc [(5, "ipc:///tmp/b.ipc"), (3, "ipc:///tmp/a.ipc")]
      {(3, "ipc:///tmp/a.ipc"), (7, "ipc:///tmp/c.ipc")} = some diff ∧
    diff.removed = {(3, "ipc:///tmp/a.ipc"), (5, "ipc:///tmp/b.ipc")} \
      {(3, "ipc:///tmp/a.ipc"), (7, "ipc:///tmp/c.ipc")} ∧
    diff.added = {(3, "ipc:///tmp/a.ipc"), (7, "ipc:///tmp/c.ipc")} \
      {(3, "ipc:///tmp/a.ipc"), (5, "ipc:///tmp/b.ipc")} ∧
    ({(3, "ipc:///tmp/a.ipc"), (5, "ipc:///tmp/b.ipc")} \ diff.removed) ∪ diff.added =
      {(3, "ipc:///tmp/a.ipc"), (7, "ipc:///tmp/c.ipc")} :=
  diffIpc_walks {(3, "ipc:///tmp/a.ipc"), (5, "ipc:///tmp/b.ipc")}
    {(3, "ipc:///tmp/a.ipc"), (7, "ipc:///tmp/c.ipc")} [(5, "ipc:///tmp/b.ipc"), (3, "ipc:///tmp/a.ipc")]
    (by unfold HashSet.Walks; decide)

/-! ## The handler -/

/-- An entry of `ipcs_map`. -/
structure IpcTask where
  ipcType : IpcType
  taskHandle : ℕ
  deriving DecidableEq, Repr

/-- The task of an entry, created by `on_create` for the type and the url. -/
def ipcTask : TaskKind IpcUrl IpcTask IpcBasicRepr where
  handle := IpcTask.taskHandle
  task url t := (t.ipcType, url)
  key_eq _ _ _ _ h := (Prod.mk.inj h).2

/-- The entry for a new task of the pair. -/
def newTask (ipc : IpcBasicRepr) (handle : ℕ) : IpcTask := ⟨ipc.1, handle⟩

/-- `ipcs_map`, and the tasks that `on_create` has created. -/
abbrev DynamicConfigHandler := Pool IpcUrl IpcTask IpcBasicRepr

namespace DynamicConfigHandler

/-- `DynamicConfigHandler::new` -/
def new : DynamicConfigHandler := Pool.empty

/-- `cleanup` -/
def cleanup (tasksToCleanUp : List IpcBasicRepr) (h : DynamicConfigHandler) : DynamicConfigHandler :=
  tasksToCleanUp.foldl (fun h ipc => h.stop ipcTask.handle ipc.2) h

/-- `register` -/
def register (tasksToRegister : List IpcBasicRepr) (h : DynamicConfigHandler) : DynamicConfigHandler :=
  tasksToRegister.foldl (fun h ipc => h.spawn ipc.2 (newTask ipc) ipc) h

/-- `initiate`, where `deserialize_data` gives `config`. -/
def initiate (config : Option (List IpcBasicRepr)) (h : DynamicConfigHandler) :
    Option DynamicConfigHandler :=
  config.map fun ipcs => h.register ipcs

/-- `current_ipcs` in `diff`. -/
def currentIpcs (h : DynamicConfigHandler) : HashSet IpcBasicRepr :=
  (h.map.entries.map fun e => (e.2.ipcType, e.1)).toFinset

/-- `diff` -/
def diff (order : HashSet.Order IpcBasicRepr) (newConfig : List IpcBasicRepr)
    (h : DynamicConfigHandler) : Option IpcDiff :=
  diffIpc (order.walk h.currentIpcs) newConfig.toFinset

end DynamicConfigHandler

/-! ## Events -/

/-- `notify::EventKind` -/
inductive EventKind where
  | any
  | access
  | create
  | modify
  | remove
  | other
  deriving DecidableEq, Repr

/-- `notify::Event` -/
structure Event where
  kind : EventKind
  paths : List String

/-- A call of `handle_event`: the event, if it is not an error, and what `deserialize_data`
gives for each path at that time. -/
structure Notification where
  event : Option Event
  disk : String → Option (List IpcBasicRepr)

/-- The configuration that the call reads: of the first path of a `Modify` event. -/
def Notification.config (e : Notification) : Option (List IpcBasicRepr) :=
  match e.event with
  | some ⟨.modify, dir :: _⟩ => e.disk dir
  | _ => none

/-- How `_handle_event` fails. -/
inductive Failure where
  | error (context : String)
  | panic (message : String)
  deriving DecidableEq, Repr

/-- The orders of the three sets that one event walks. -/
structure Orders where
  current : HashSet.Order IpcBasicRepr
  removed : HashSet.Order IpcBasicRepr
  added : HashSet.Order IpcBasicRepr

/-- `_handle_event` -/
def DynamicConfigHandler.handleEvent (o : Orders) (e : Notification) (h : DynamicConfigHandler) :
    Except Failure Unit × DynamicConfigHandler :=
  match e.event with
  | none => (.error (.error "failed to handle data change"), h)
  | some event =>
    if event.kind = .modify then
      match event.paths with
      | [] => (.error (.panic "should have at least a path"), h)
      | dir :: _ =>
        match e.disk dir with
        | none => (.error (.error "failed to deserialize the configuration file"), h)
        | some newConfig =>
          match h.diff o.current newConfig with
          | none => (.error (.panic "assertion failed: result"), h)
          | some diff =>
            (.ok (), (h.cleanup (o.removed.walk diff.removed)).register (o.added.walk diff.added))
    else (.ok (), h)

/-- A call of `handle_event`, in any orders. -/
def Step (h : DynamicConfigHandler) (e : Notification) (h' : DynamicConfigHandler) : Prop :=
  ∃ o, (h.handleEvent o e).2 = h'

end CryptoMarket.Multicast
