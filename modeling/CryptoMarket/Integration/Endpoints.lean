import CryptoMarket.Integration.BadMessages

/-!
# Integration server: the endpoints

The publishers are cached under their keys, and the endpoint of a publisher is its key
with the first three `/` replaced. Here the run of the thread records the endpoints it
calls `create` for, and the answer of `bind` may depend on those bound before.

* `createWriterThread_sockets`: without the record, it is the run of `Writer`.
* `opened_createWriterThread`: the thread binds once for each key.
* `endpoints_iff`: the endpoints are distinct files directly under `/tmp` exactly when the
  keys have at most three `/` and differ otherwise than in `/` and `-`.
-/

namespace CryptoMarket.Integration

variable {x : Libs}

/-- What the sockets answer. -/
structure Sockets where
  /-- `new` and `bind` succeed, after the endpoints bound so far. -/
  bind : List String → String → Bool
  write : String → List Bytes → Bytes → Bool

/-- The publishers of the thread and the endpoints of the calls of `create`, the last of which
may have failed. -/
structure Publishers where
  writers : Writers
  endpoints : List String

/-- The endpoint in `create`. -/
def endpoint (name : String) : String := "ipc:///tmp/" ++ fileName name ++ ".ipc"

/-- The publisher of a key, created if there is none; no value if `create` panics. -/
def Sockets.writerMq (q : Sockets) (key : String) (p : Publishers) : Option (List Bytes) × Publishers :=
  match p.writers.lookup key with
  | some log => (some log, p)
  | none =>
    let endpoints := p.endpoints ++ [endpoint key]
    if q.bind p.endpoints (endpoint key) then (some [], ⟨p.writers.insert key [], endpoints⟩)
    else (none, ⟨p.writers, endpoints⟩)

/-- The loop that sends the `data_vec` of a message. -/
def Sockets.sendAll (q : Sockets) (ch : Channel x) (msg : Message x) :
    List (String × Bytes) → Publishers → Bool × Publishers
  | [], p => (true, p)
  | (symbol, dataByte) :: dataVec, p =>
    let key := ch.key msg symbol
    match q.writerMq key p with
    | (none, p) => (false, p)
    | (some log, p) =>
      if q.write key log dataByte then
        q.sendAll ch msg dataVec { p with writers := p.writers.insert key (log ++ [dataByte]) }
      else q.sendAll ch msg dataVec p

/-- `create_writer_thread` -/
def Sockets.createWriterThread (q : Sockets) (ch : Channel x) :
    List (Message x) → Publishers → Bool × Publishers
  | [], p => (true, p)
  | msg :: rx, p =>
    match dataVec ch msg with
    | none => (false, p)
    | some v =>
      match q.sendAll ch msg v p with
      | (false, p) => (false, p)
      | (true, p) => q.createWriterThread ch rx p

/-- The keys of what is published before a message stops the thread. -/
def Channel.keys (ch : Channel x) : List (Message x) → List String
  | [] => []
  | msg :: rx =>
    if ch.stops msg then [] else ((ch.publishes msg).map fun d => ch.key msg d.1) ++ ch.keys rx

/-- A name with every `/` as `-`. -/
def dashed (name : String) : String :=
  String.ofList (name.toList.map fun c => if c = '/' then '-' else c)

variable {q : Sockets} {ch : Channel x} {msg : Message x} {msgs : List (Message x)}
  {p : Publishers} {keys : List String} {key : String}

/-! ## The same run -/

/-- A queue whose `bind` looks at the endpoint only. -/
def Mq.sockets (mq : Mq) : Sockets := ⟨fun _ => mq.bind, mq.write⟩

theorem writerMq_sockets (mq : Mq) (key : String) (p : Publishers) :
    writerMq mq key p.writers =
      (mq.sockets.writerMq key p).1.map fun log => (log, (mq.sockets.writerMq key p).2.writers) := by
  unfold writerMq Sockets.writerMq
  cases p.writers.lookup key with
  | some log => rfl
  | none =>
    have hbind : mq.sockets.bind p.endpoints (endpoint key) = create mq key := rfl
    simp only [hbind]
    cases create mq key <;> rfl

/-- A `bind` that fails leaves the publishers as they are. -/
theorem writers_writerMq_none (h : (q.writerMq key p).1 = none) :
    (q.writerMq key p).2.writers = p.writers := by
  unfold Sockets.writerMq at h ⊢
  cases hl : p.writers.lookup key with
  | some log => rfl
  | none =>
    simp only [hl] at h ⊢
    split at h
    · cases h
    · next hbind => rw [if_neg hbind]

theorem sendAll_sockets (mq : Mq) (ch : Channel x) (msg : Message x) :
    ∀ (v : List (String × Bytes)) (p : Publishers), sendAll mq ch msg v p.writers =
      ((mq.sockets.sendAll ch msg v p).1, (mq.sockets.sendAll ch msg v p).2.writers) := by
  intro v
  induction v with
  | nil => intro p; rfl
  | cons d v ih =>
    obtain ⟨symbol, dataByte⟩ := d
    intro p
    have hfail : (mq.sockets.writerMq (ch.key msg symbol) p).1 = none →
        (mq.sockets.writerMq (ch.key msg symbol) p).2.writers = p.writers := writers_writerMq_none
    simp only [sendAll, Sockets.sendAll, writerMq_sockets mq (ch.key msg symbol) p]
    obtain ⟨⟨result, p₁⟩, hr⟩ : ∃ r, mq.sockets.writerMq (ch.key msg symbol) p = r := ⟨_, rfl⟩
    rw [hr] at hfail ⊢
    cases result with
    | none => simp only [Option.map_none, ← hfail rfl]
    | some log =>
      have hwrite : mq.sockets.write = mq.write := rfl
      simp only [Option.map_some, hwrite]
      split
      · exact ih { p₁ with writers := _ }
      · exact ih p₁

/-- **The same run**, with the endpoints left out. -/
theorem createWriterThread_sockets (mq : Mq) (ch : Channel x) :
    ∀ (msgs : List (Message x)) (p : Publishers), createWriterThread mq ch msgs p.writers =
      ((mq.sockets.createWriterThread ch msgs p).1,
        (mq.sockets.createWriterThread ch msgs p).2.writers) := by
  intro msgs
  induction msgs with
  | nil => intro p; rfl
  | cons msg msgs ih =>
    intro p
    simp only [createWriterThread, Sockets.createWriterThread]
    cases dataVec ch msg with
    | none => rfl
    | some v =>
      simp only [sendAll_sockets]
      obtain ⟨ended, p₁⟩ := mq.sockets.sendAll ch msg v p
      cases ended with
      | false => rfl
      | true => exact ih p₁

/-! ## One endpoint for each key -/

/-- Every `bind` succeeds. -/
def Sockets.Binds (q : Sockets) : Prop := ∀ bound address, q.bind bound address = true

/-- The publishers are those of the keys `ks`, each bound once. -/
structure Publishers.Cache (p : Publishers) (ks : List String) : Prop where
  nodup : ks.Nodup
  endpoints : p.endpoints = ks.map endpoint
  cached : ∀ key, (p.writers.lookup key).isSome ↔ key ∈ ks

/-- **What a run has opened**: an endpoint for each of `ks`, keys of what it had to publish,
and for all of these if every `bind` succeeds. -/
structure Sockets.Opened (q : Sockets) (keys : List String) (run : Bool × Publishers)
    (ks : List String) : Prop where
  nodup : ks.Nodup
  endpoints : run.2.endpoints = ks.map endpoint
  sub : ks ⊆ keys
  all : q.Binds → keys ⊆ ks

theorem Publishers.Cache.insert {ks : List String} {log : List Bytes} (h : p.Cache ks) (hkey : key ∈ ks) :
    { p with writers := p.writers.insert key log : Publishers }.Cache ks where
  nodup := h.nodup
  endpoints := h.endpoints
  cached key' := by
    rw [HashMap.lookup_insert_eq]
    split
    · next heq => simp [heq, hkey]
    · exact h.cached key'

/-- The keys with one that is not among them. -/
theorem Publishers.Cache.nodup_snoc {ks : List String} (h : p.Cache ks) (hkey : key ∉ ks) :
    (ks ++ [key]).Nodup := by
  refine List.nodup_append.2 ⟨h.nodup, List.nodup_singleton key, fun a ha b hb heq => hkey ?_⟩
  rwa [← List.mem_singleton.1 hb, ← heq]

/-- **The publisher of a key.** It is there, or its endpoint is bound. -/
theorem writerMq_cases (q : Sockets) (key : String) {ks : List String} (h : p.Cache ks) :
    (key ∈ ks ∧ ∃ log, q.writerMq key p = (some log, p)) ∨
    key ∉ ks ∧ ((∃ p', q.writerMq key p = (some [], p') ∧ p'.Cache (ks ++ [key])) ∨
      ∃ p', q.writerMq key p = (none, p') ∧ p'.endpoints = (ks ++ [key]).map endpoint ∧ ¬ q.Binds) := by
  unfold Sockets.writerMq
  cases hl : p.writers.lookup key with
  | some log =>
    have hkey : key ∈ ks := by rw [← h.cached, hl]; rfl
    exact Or.inl ⟨hkey, log, rfl⟩
  | none =>
    have hkey : key ∉ ks := by rw [← h.cached, hl]; simp
    refine Or.inr ⟨hkey, ?_⟩
    have htried : p.endpoints ++ [endpoint key] = (ks ++ [key]).map endpoint := by
      rw [h.endpoints, List.map_append]; rfl
    cases hbind : q.bind p.endpoints (endpoint key) with
    | true =>
      refine Or.inl ⟨_, if_pos rfl, h.nodup_snoc hkey, htried, fun key' => ?_⟩
      rw [HashMap.lookup_insert_eq, List.mem_append, List.mem_singleton]
      split
      · next heq => simp [heq]
      · next hne => rw [h.cached, or_iff_left hne]
    | false =>
      refine Or.inr ⟨_, if_neg Bool.false_ne_true, htried, fun hbinds => ?_⟩
      rw [hbinds] at hbind
      cases hbind

theorem Sockets.Opened.congr {run : Bool × Publishers} {ks keys' : List String}
    (h : q.Opened keys run ks) (hsub : keys ⊆ keys') (hsub' : keys' ⊆ keys) : q.Opened keys' run ks :=
  ⟨h.nodup, h.endpoints, List.Subset.trans h.sub hsub,
    fun hbinds => List.Subset.trans hsub' (h.all hbinds)⟩

/-- **One `data_vec`.** The keys that are not cached get an endpoint each. -/
theorem opened_sendAll (q : Sockets) (ch : Channel x) (msg : Message x) :
    ∀ (v : List (String × Bytes)) {p : Publishers} {ks : List String}, p.Cache ks →
    ∃ ks', q.Opened (ks ++ v.map fun d => ch.key msg d.1) (q.sendAll ch msg v p) ks' ∧
      ((q.sendAll ch msg v p).1 = true → (q.sendAll ch msg v p).2.Cache ks') ∧
      (q.Binds → (q.sendAll ch msg v p).1 = true) := by
  intro v
  induction v with
  | nil =>
    intro p ks h
    refine ⟨ks, ⟨h.nodup, h.endpoints, ?_, fun _ => ?_⟩, fun _ => h, fun _ => rfl⟩
    · simp
    · simp
  | cons d v ih =>
    obtain ⟨symbol, dataByte⟩ := d
    intro p ks h
    -- whether the bytes are written or not, the loop goes on from a cache with the same keys
    have hgo : ∀ {log : List Bytes} {p₁ : Publishers} {ks₁ : List String}, p₁.Cache ks₁ →
        ch.key msg symbol ∈ ks₁ → q.writerMq (ch.key msg symbol) p = (some log, p₁) →
        ∃ p₂ : Publishers, p₂.Cache ks₁ ∧
          q.sendAll ch msg ((symbol, dataByte) :: v) p = q.sendAll ch msg v p₂ := by
      intro log p₁ ks₁ h₁ hkey hwriter
      simp only [Sockets.sendAll, hwriter]
      split
      · exact ⟨_, h₁.insert hkey, rfl⟩
      · exact ⟨_, h₁, rfl⟩
    rcases writerMq_cases q (ch.key msg symbol) h with
      ⟨hkey, log, hwriter⟩ | ⟨hkey, ⟨p', hwriter, h'⟩ | ⟨p', hwriter, htried, hnot⟩⟩
    · -- the publisher is there
      obtain ⟨p₂, h₂, hrun⟩ := hgo h hkey hwriter
      obtain ⟨ks', hopened, hcache, hends⟩ := ih h₂
      rw [hrun]
      refine ⟨ks', hopened.congr ?_ ?_, hcache, hends⟩
      · simp
      · simp [hkey]
    · -- its endpoint is bound
      obtain ⟨p₂, h₂, hrun⟩ := hgo h' (by simp) hwriter
      obtain ⟨ks', hopened, hcache, hends⟩ := ih h₂
      rw [hrun]
      refine ⟨ks', hopened.congr ?_ ?_, hcache, hends⟩ <;> simp
    · -- `create` panics
      have hrun : q.sendAll ch msg ((symbol, dataByte) :: v) p = (false, p') := by
        simp only [Sockets.sendAll, hwriter]
      rw [hrun]
      refine ⟨ks ++ [ch.key msg symbol],
        ⟨h.nodup_snoc hkey, htried, ?_, fun hbinds => absurd hbinds hnot⟩,
        fun hended => absurd hended Bool.false_ne_true, fun hbinds => absurd hbinds hnot⟩
      simp

/-- **A run of the thread** binds one endpoint for each key it has to publish on, or for some
of them if a `bind` fails. -/
theorem opened_createWriterThread (q : Sockets) (ch : Channel x) :
    ∀ (msgs : List (Message x)) {p : Publishers} {ks : List String}, p.Cache ks →
    ∃ ks', q.Opened (ks ++ ch.keys msgs) (q.createWriterThread ch msgs p) ks' := by
  intro msgs
  induction msgs with
  | nil =>
    intro p ks h
    refine ⟨ks, h.nodup, h.endpoints, ?_, fun _ => ?_⟩ <;> simp [Channel.keys]
  | cons msg msgs ih =>
    intro p ks h
    unfold Sockets.createWriterThread Channel.keys
    rw [dataVec_eq_ite]
    cases hs : ch.stops msg with
    | true => exact ⟨ks, h.nodup, h.endpoints, by simp, fun _ => by simp⟩
    | false =>
      obtain ⟨ks₁, hopened, hcache, hends⟩ := opened_sendAll q ch msg (ch.publishes msg) h
      simp only [Bool.false_eq_true, if_false]
      obtain ⟨⟨ended, p₁⟩, hsend⟩ : ∃ r, q.sendAll ch msg (ch.publishes msg) p = r := ⟨_, rfl⟩
      rw [hsend] at hopened hcache hends ⊢
      cases ended with
      | false =>
        refine ⟨ks₁, hopened.nodup, hopened.endpoints, fun k hk => ?_, fun hbinds => ?_⟩
        · have := hopened.sub hk
          simp only [List.mem_append] at this ⊢
          tauto
        · exact absurd (hends hbinds) Bool.false_ne_true
      | true =>
        obtain ⟨ks', hopened'⟩ := ih (hcache rfl)
        refine ⟨ks', hopened'.nodup, hopened'.endpoints, fun k hk => ?_, fun hbinds k hk => ?_⟩
        · have hk' := hopened'.sub hk
          rw [← List.append_assoc, List.mem_append]
          exact (List.mem_append.1 hk').imp_left fun h => hopened.sub h
        · rw [← List.append_assoc, List.mem_append] at hk
          exact hopened'.all hbinds (List.mem_append.2 (hk.imp_left fun h => hopened.all hbinds h))

/-! ## Distinct endpoints -/

theorem slash_not_mem_fileName {name : String} :
    '/' ∉ (fileName name).toList ↔ name.toList.count '/' ≤ 3 := by
  have hcount : (fileName name).toList.count '/' = name.toList.count '/' - 3 := by
    rw [fileName, replacen, String.toList_ofList]
    exact count_replacenChars (by decide) _ _
  rw [← List.count_eq_zero, hcount]
  omega

/-- With at most three `/`, all of them are replaced. -/
theorem fileName_eq_dashed {name : String} (h : name.toList.count '/' ≤ 3) :
    fileName name = dashed name :=
  congrArg String.ofList (replacenChars_eq_map (d := '-') name.toList 3 h)

theorem endpoint_inj {name name' : String} : endpoint name = endpoint name' ↔ fileName name = fileName name' := by
  simp only [endpoint, String.append_left_inj, String.append_right_inj]

/-- **Distinct endpoints.** On every queue the endpoints that a run of the thread binds are
distinct, and each is a file directly under `/tmp`, if and only if every key that the run
has to publish on has at most three `/`, and no two of them are the same but for `/` and
`-`. -/
theorem endpoints_iff (ch : Channel x) (msgs : List (Message x)) :
    (∀ q : Sockets, (q.createWriterThread ch msgs ⟨∅, []⟩).2.endpoints.Nodup ∧
      ∀ address ∈ (q.createWriterThread ch msgs ⟨∅, []⟩).2.endpoints,
        ∃ file, '/' ∉ file.toList ∧ address = "ipc:///tmp/" ++ file ++ ".ipc") ↔
      (∀ key ∈ ch.keys msgs, key.toList.count '/' ≤ 3) ∧
        ∀ key ∈ ch.keys msgs, ∀ key' ∈ ch.keys msgs, dashed key = dashed key' → key = key' := by
  have hnew : (Publishers.mk ∅ []).Cache [] := ⟨List.nodup_nil, rfl, fun key => by simp⟩
  constructor
  · intro hall
    obtain ⟨hdistinct, hfiles⟩ := hall workingMq.sockets
    obtain ⟨ks, hopened⟩ := opened_createWriterThread workingMq.sockets ch msgs hnew
    have hkeys : ch.keys msgs ⊆ ks := hopened.all fun _ _ => rfl
    rw [hopened.endpoints] at hdistinct hfiles
    have hslash : ∀ key ∈ ch.keys msgs, key.toList.count '/' ≤ 3 := by
      intro key hkey
      obtain ⟨file, hfile, heq⟩ := hfiles _ (List.mem_map_of_mem (hkeys hkey))
      simp only [endpoint, String.append_left_inj, String.append_right_inj] at heq
      rwa [← heq, slash_not_mem_fileName] at hfile
    refine ⟨hslash, fun key hkey key' hkey' hsame => ?_⟩
    refine List.inj_on_of_nodup_map hdistinct (hkeys hkey) (hkeys hkey') (endpoint_inj.2 ?_)
    rw [fileName_eq_dashed (hslash _ hkey), fileName_eq_dashed (hslash _ hkey'), hsame]
  · rintro ⟨hslash, hsame⟩ q
    obtain ⟨ks, hopened⟩ := opened_createWriterThread q ch msgs hnew
    have hsub : ∀ key ∈ ks, key ∈ ch.keys msgs := fun key hkey => hopened.sub hkey
    rw [hopened.endpoints]
    constructor
    · refine hopened.nodup.map_on fun key hkey key' hkey' heq => ?_
      have hk := hsub key hkey
      have hk' := hsub key' hkey'
      rw [endpoint_inj, fileName_eq_dashed (hslash _ hk), fileName_eq_dashed (hslash _ hk')] at heq
      exact hsame key hk key' hk' heq
    · intro address haddress
      obtain ⟨key, hkey, rfl⟩ := List.mem_map.1 haddress
      exact ⟨fileName key, slash_not_mem_fileName.2 (hslash _ (hsub key hkey)), rfl⟩

/-- The crates on runs in which a message has the trades of a pair under two spellings. -/
def twoSpellings : Libs :=
  { twoPairs with parseTrade := fun _ _ _ => some [("BTC/USD", [1]), ("BTC-USD", [2])] }

/-- **A pair under two spellings** is bound twice. -/
theorem endpoints_twice :
    (workingMq.sockets.createWriterThread (⟨"ftx", "spot", .trade, ""⟩ : Channel twoSpellings)
      [⟨"ftx", "spot", .trade, 1660000000000, "[]"⟩] ⟨∅, []⟩).2.endpoints =
        ["ipc:///tmp/ftx_spot_trade_BTC-USD.ipc", "ipc:///tmp/ftx_spot_trade_BTC-USD.ipc"] ∧
      ¬ ["ipc:///tmp/ftx_spot_trade_BTC-USD.ipc", "ipc:///tmp/ftx_spot_trade_BTC-USD.ipc"].Nodup := by
  decide

end CryptoMarket.Integration
