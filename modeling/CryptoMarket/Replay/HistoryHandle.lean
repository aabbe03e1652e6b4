import CryptoMarket.Replay.History

/-!
# The history task, step by step

`historyNext` is the next step of a `history_handle` that is at a point of its two loops
(`HistoryAt`).

* `follows_step`: the steps of a task do what `historyHandle` says.
* `left_next`: they come to an end.
* `historyHandle_upTo`: where the days on disk end, what the task does is: the days from `start` up
  to the first one that is missing, whatever `end` is, and then the message about that day.
-/

namespace CryptoMarket.Replay

/-! ## The steps -/

/-- What a `history` command asks for. -/
structure HistoryCommand where
  start : ℤ
  stop : ℤ
  args : List MarketDataArg

/-- Where a `history_handle` is. -/
inductive HistoryAt where
  /-- At `while i >= end`, for the first of these arguments. -/
  | day (i : ℤ) (args : List MarketDataArg)
  /-- In the records of day `i`, with these left and then the other arguments. -/
  | records (i : ℤ) (arg : MarketDataArg) (left : List Bytes) (args : List MarketDataArg)
  /-- There is no file for day `i`. -/
  | missing (i : ℤ) (arg : MarketDataArg) (args : List MarketDataArg)
  | done
  /-- `i += 1` overflowed. -/
  | panicked
  /-- A send found no receiver: `expect` panicked. -/
  | gone

/-- What a client is told of a day that is not there. -/
def Crates.noHistory (x : Crates) (arg : MarketDataArg) (i : ℤ) : String :=
  x.toText [("code", .number 5002), ("msg", .text (arg.toString ++ " not " ++ toString i ++ " day history"))]

/-- **The next step of a task**: what others see of it, and where the task is after it. -/
def historyNext (x : Crates) (checks : Bool) (c : HistoryCommand) :
    HistoryAt → Option (Option HistoryEvent × HistoryAt)
  | .day _ [] => some (none, .done)
  | .day i (arg :: args) =>
    if c.stop ≤ i then
      some (some (.opens arg.toString i), match x.fileReader arg.toString i with
        | some read => .records i arg read args
        | none => .missing i arg args)
    else some (none, .day c.start args)
  | .records i arg (data :: left) args =>
    some (some (.send (x.marketMessage arg.msgType data)), .records i arg left args)
  | .records i arg [] args =>
    some (none, match incr checks i with
      | some i' => .day i' (arg :: args)
      | none => .panicked)
  | .missing i arg args => some (some (.send (x.noHistory arg i)), .day c.start args)
  | .done | .panicked | .gone => none

/-- The message, if the event is a send. -/
def HistoryEvent.msg : HistoryEvent → Option String
  | .opens _ _ => none
  | .send msg => some msg

/-- One after the other, unless the first does not get to its end. -/
def andThen (a b : List HistoryEvent × Outcome) : List HistoryEvent × Outcome :=
  match a.2 with
  | .done => (a.1 ++ b.1, b.2)
  | out => (a.1, out)

/-- What is left for the task to do, with `fuel` for each argument and `f` of it left for this one. -/
def HistoryAt.rest (x : Crates) (checks : Bool) (c : HistoryCommand) (fuel f : ℕ) :
    HistoryAt → List HistoryEvent × Outcome
  | .day _ [] => ([], .done)
  | .day i (arg :: args) =>
    andThen (historyDays x checks arg c.stop f i) (historyHandle x checks fuel c.start c.stop args)
  | .records i arg left args =>
    andThen (left.map fun data => .send (x.marketMessage arg.msgType data), .done) <|
      match incr checks i with
      | none => ([], .panicked)
      | some i' =>
        andThen (historyDays x checks arg c.stop f i') (historyHandle x checks fuel c.start c.stop args)
  | .missing i arg args =>
    andThen ([.send (x.noHistory arg i)], .done) (historyHandle x checks fuel c.start c.stop args)
  | .done | .gone => ([], .done)
  | .panicked => ([], .panicked)

variable {x : Crates} {checks : Bool} {c : HistoryCommand} {p p' : HistoryAt} {ev : Option HistoryEvent}
  {fuel f : ℕ} {i : ℤ}

@[simp] theorem andThen_done (l : List HistoryEvent) (b : List HistoryEvent × Outcome) :
    andThen (l, .done) b = (l ++ b.1, b.2) := rfl

@[simp] theorem andThen_panicked (l : List HistoryEvent) (b : List HistoryEvent × Outcome) :
    andThen (l, .panicked) b = (l, .panicked) := rfl

theorem andThen_append (l m : List HistoryEvent) (b : List HistoryEvent × Outcome) :
    andThen (l ++ m, .done) b = andThen (l, .done) (andThen (m, .done) b) := by
  simp only [andThen_done, List.append_assoc]

theorem andThen_assoc (a b d : List HistoryEvent × Outcome) :
    andThen (andThen a b) d = andThen a (andThen b d) := by
  obtain ⟨l, out⟩ := a
  cases out with
  | done =>
    obtain ⟨m, out⟩ := b
    cases out <;> simp [andThen]
  | panicked => rfl
  | running => rfl

theorem historyHandle_cons (arg : MarketDataArg) (args : List MarketDataArg) :
    historyHandle x checks fuel c.start c.stop (arg :: args) =
      andThen (historyDays x checks arg c.stop fuel c.start)
        (historyHandle x checks fuel c.start c.stop args) := by
  rw [historyHandle]
  unfold andThen
  cases (historyDays x checks arg c.stop fuel c.start).2 <;> rfl

/-- At the beginning everything is left. -/
theorem rest_day_start (args : List MarketDataArg) :
    (HistoryAt.day c.start args).rest x checks c fuel fuel =
      historyHandle x checks fuel c.start c.stop args := by
  cases args with
  | nil => rfl
  | cons arg args => exact (historyHandle_cons arg args).symm

/-- The loop on a day: the day's events, then the days after it. -/
theorem historyDays_of_le (arg : MarketDataArg) (h : c.stop ≤ i) :
    historyDays x checks arg c.stop (f + 1) i =
      andThen ([.opens arg.toString i], .done) (match x.fileReader arg.toString i with
        | none => ([.send (x.noHistory arg i)], .done)
        | some read =>
          andThen (read.map fun data => .send (x.marketMessage arg.msgType data), .done) <|
            match incr checks i with
            | none => ([], .panicked)
            | some i' => historyDays x checks arg c.stop f i') := by
  rw [historyDays, if_pos h]
  cases x.fileReader arg.toString i with
  | none => rfl
  | some read => cases incr checks i <;> simp [dayEvents]

/-- **One step** does the first of what is left. It uses up one of the fuel at most. -/
theorem rest_next (h : historyNext x checks c p = some (ev, p')) (hf : f < fuel) :
    ∃ f', f ≤ f' ∧ f' ≤ fuel ∧ p.rest x checks c fuel (f + 1) =
      andThen (ev.toList, .done) (p'.rest x checks c fuel f') := by
  cases p with
  | day i args =>
    cases args with
    | nil =>
      obtain ⟨rfl, rfl⟩ := Prod.mk.inj (Option.some.inj h)
      exact ⟨f, le_rfl, hf.le, rfl⟩
    | cons arg args =>
      rw [historyNext] at h
      split at h
      · next hle =>
        obtain ⟨rfl, rfl⟩ := Prod.mk.inj (Option.some.inj h)
        refine ⟨f, le_rfl, hf.le, ?_⟩
        rw [HistoryAt.rest, historyDays_of_le arg hle, andThen_assoc]
        cases x.fileReader arg.toString i with
        | none => rfl
        | some read =>
          dsimp only
          rw [andThen_assoc, HistoryAt.rest]
          cases incr checks i <;> rfl
      · next hlt =>
        obtain ⟨rfl, rfl⟩ := Prod.mk.inj (Option.some.inj h)
        refine ⟨fuel, hf.le, le_rfl, ?_⟩
        rw [HistoryAt.rest, historyDays, if_neg hlt, rest_day_start]
        rfl
  | records i arg left args =>
    cases left with
    | nil =>
      obtain ⟨rfl, rfl⟩ := Prod.mk.inj (Option.some.inj h)
      refine ⟨f + 1, Nat.le_succ f, hf, ?_⟩
      rw [HistoryAt.rest]
      cases incr checks i <;> rfl
    | cons data left =>
      obtain ⟨rfl, rfl⟩ := Prod.mk.inj (Option.some.inj h)
      exact ⟨f + 1, Nat.le_succ f, hf, rfl⟩
  | missing i arg args =>
    obtain ⟨rfl, rfl⟩ := Prod.mk.inj (Option.some.inj h)
    refine ⟨fuel, hf.le, le_rfl, ?_⟩
    rw [rest_day_start]
    rfl
  | done => cases h
  | panicked => cases h
  | gone => cases h

/-- A task finds out at a send that its receiver is gone, not before. -/
theorem historyNext_ne_gone (h : historyNext x checks c p = some (ev, p')) : p' ≠ .gone := by
  have hp' : ((historyNext x checks c p).map Prod.snd) = some p' := congrArg (Option.map Prod.snd) h
  rintro rfl
  revert hp'
  unfold historyNext
  split
  · simp
  · split
    · cases x.fileReader _ _ <;> simp
    · simp
  · simp
  · cases incr checks _ <;> simp
  · simp
  all_goals simp

/-- **What a task has done** so far, `evs`, is what `historyHandle` does, and what is left at its
point is the rest of it; a task without receiver has stopped on the way. -/
def HistoryAt.Follows (x : Crates) (checks : Bool) (c : HistoryCommand) (evs : List HistoryEvent)
    (p : HistoryAt) : Prop :=
  ∃ q, (p = q ∨ p = .gone) ∧ ∀ d, ∃ N, ∀ fuel, N ≤ fuel → ∃ f, d ≤ f ∧ f ≤ fuel ∧
    historyHandle x checks fuel c.start c.stop c.args =
      andThen (evs, .done) (q.rest x checks c fuel f)

variable {evs : List HistoryEvent}

theorem follows_start : (HistoryAt.day c.start c.args).Follows x checks c [] := by
  refine ⟨_, Or.inl rfl, fun d => ⟨d, fun fuel hd => ⟨fuel, hd, le_rfl, ?_⟩⟩⟩
  rw [rest_day_start]
  rfl

/-- **A step of a task** keeps to `historyHandle`. -/
theorem follows_step (h : p.Follows x checks c evs) (hnext : historyNext x checks c p = some (ev, p')) :
    p'.Follows x checks c (evs ++ ev.toList) := by
  obtain ⟨q, hq, hfuel⟩ := h
  obtain rfl : p = q := by
    refine hq.resolve_right ?_
    rintro rfl
    cases hnext
  refine ⟨p', Or.inl rfl, fun d => ?_⟩
  -- one more of the fuel is needed than after the step
  obtain ⟨N, hN⟩ := hfuel (d + 1)
  refine ⟨N, fun fuel hfuel => ?_⟩
  obtain ⟨f, hd, hf, heq⟩ := hN fuel hfuel
  obtain ⟨f, rfl⟩ := Nat.exists_eq_add_one.2 (Nat.lt_of_lt_of_le (Nat.succ_pos d) hd)
  obtain ⟨f', hle, hf', hrest⟩ := rest_next hnext (Nat.lt_of_succ_le hf)
  refine ⟨f', Nat.le_trans (Nat.le_of_succ_le_succ hd) hle, hf', ?_⟩
  rw [heq, hrest, ← andThen_append]

theorem follows_gone (h : p.Follows x checks c evs) : HistoryAt.gone.Follows x checks c evs := by
  obtain ⟨q, -, hfuel⟩ := h
  exact ⟨q, Or.inr rfl, hfuel⟩

/-! ## The end -/

/-- The records of a day. -/
def Crates.records (x : Crates) (arg : MarketDataArg) (i : ℤ) : List Bytes :=
  (x.fileReader arg.toString i).getD []

/-- The steps from day `i` on, when all the days are there, up to `m` days later. -/
def daySteps (x : Crates) (arg : MarketDataArg) : ℕ → ℤ → ℕ
  | 0, i => (x.records arg i).length + 2
  | m + 1, i => (x.records arg i).length + 2 + daySteps x arg m (i + 1)

/-- The steps for an argument from day `i` on, at most. -/
def argSteps (x : Crates) (stop : ℤ) (i : ℤ) (arg : MarketDataArg) : ℕ :=
  if stop ≤ i then daySteps x arg (i64Max - i).toNat i + 1 else 1

/-- The steps for the arguments that are not begun, at most. -/
def argsSteps (x : Crates) (c : HistoryCommand) : List MarketDataArg → ℕ
  | [] => 0
  | arg :: args => argSteps x c.stop c.start arg + argsSteps x c args

/-- The steps that a task has left, at most. -/
def HistoryAt.left (x : Crates) (checks : Bool) (c : HistoryCommand) : HistoryAt → ℕ
  | .day _ [] => 1
  | .day i (arg :: args) => argSteps x c.stop i arg + argsSteps x c args + 1
  | .records i arg left args =>
    left.length + ((incr checks i).elim 0 fun i' => argSteps x c.stop i' arg) +
      argsSteps x c args + 2
  | .missing _ _ args => argsSteps x c args + 2
  | .done | .panicked | .gone => 0

/-- A day and the days after it. -/
theorem argSteps_incr (arg : MarketDataArg) (hle : c.stop ≤ i) (h0 : i64Min < c.stop) :
    (x.records arg i).length + ((incr checks i).elim 0 fun i' => argSteps x c.stop i' arg) + 2 ≤
      argSteps x c.stop i arg := by
  have hsteps : argSteps x c.stop i arg = daySteps x arg (i64Max - i).toNat i + 1 := if_pos hle
  rw [hsteps, incr]
  split
  · next hlt =>
    have hm : (i64Max - i).toNat = (i64Max - (i + 1)).toNat + 1 := by omega
    have hnext : argSteps x c.stop (i + 1) arg ≤ daySteps x arg (i64Max - (i + 1)).toNat (i + 1) + 1 := by
      unfold argSteps
      split <;> omega
    rw [hm, daySteps, Option.elim_some]
    omega
  · next hge =>
    -- the count is at its end: it panics, or goes on below `end`
    have hm : (i64Max - i).toNat = 0 := by omega
    have hmin : argSteps x c.stop i64Min arg = 1 := if_neg (by omega)
    rw [hm, daySteps]
    cases checks with
    | true => simp
    | false => simp [hmin]

/-- **A step brings the end nearer.** -/
theorem left_next (h : historyNext x checks c p = some (ev, p')) (h0 : i64Min < c.stop) :
    p'.left x checks c < p.left x checks c := by
  have hstart : ∀ args, (HistoryAt.day c.start args).left x checks c =
      argsSteps x c args + 1 := by
    intro args
    cases args <;> rfl
  cases p with
  | day i args =>
    cases args with
    | nil =>
      obtain ⟨rfl, rfl⟩ := Prod.mk.inj (Option.some.inj h)
      exact Nat.one_pos
    | cons arg args =>
      rw [historyNext] at h
      split at h
      · next hle =>
        obtain ⟨rfl, rfl⟩ := Prod.mk.inj (Option.some.inj h)
        have hday : (x.records arg i).length +
            ((incr checks i).elim 0 fun i' => argSteps x c.stop i' arg) + 2 ≤ argSteps x c.stop i arg :=
          argSteps_incr arg hle h0
        rw [HistoryAt.left]
        cases hr : x.fileReader arg.toString i with
        | none =>
          rw [HistoryAt.left]
          omega
        | some read =>
          rw [Crates.records, hr, Option.getD_some] at hday
          rw [HistoryAt.left]
          omega
      · obtain ⟨rfl, rfl⟩ := Prod.mk.inj (Option.some.inj h)
        have hone : 0 < argSteps x c.stop i arg := by
          unfold argSteps
          split <;> omega
        rw [hstart, HistoryAt.left]
        omega
  | records i arg left args =>
    cases left with
    | nil =>
      obtain ⟨rfl, rfl⟩ := Prod.mk.inj (Option.some.inj h)
      rw [HistoryAt.left]
      cases incr checks i with
      | none => exact Nat.succ_pos _
      | some i' =>
        rw [HistoryAt.left, Option.elim_some]
        omega
    | cons data left =>
      obtain ⟨rfl, rfl⟩ := Prod.mk.inj (Option.some.inj h)
      rw [HistoryAt.left, HistoryAt.left, List.length_cons]
      omega
  | missing i arg args =>
    obtain ⟨rfl, rfl⟩ := Prod.mk.inj (Option.some.inj h)
    rw [hstart, HistoryAt.left]
    omega
  | done => cases h
  | panicked => cases h
  | gone => cases h

/-! ## What is replayed -/

/-- What the task does for an argument with files for the days from `start` to `start + n - 1` and
none for the next day. -/
def replayed (x : Crates) (c : HistoryCommand) (n : ℕ) (arg : MarketDataArg) : List HistoryEvent :=
  if c.stop ≤ c.start then
    (List.range n).flatMap (fun k : ℕ => fileEvents x arg (c.start + k)) ++
      [.opens arg.toString (c.start + n), .send (x.noHistory arg (c.start + n))]
  else []

/-- The files of an argument end `n` days after day `i`. -/
structure Crates.EndsAfter (x : Crates) (arg : MarketDataArg) (i : ℤ) (n : ℕ) : Prop where
  there : ∀ k : ℕ, k < n → (x.fileReader arg.toString (i + k)).isSome
  missing : x.fileReader arg.toString (i + n) = none
  range : i + n ≤ i64Max

theorem historyDays_upTo (arg : MarketDataArg) : ∀ (n : ℕ) (i : ℤ) (fuel : ℕ), x.EndsAfter arg i n →
    c.stop ≤ i → n < fuel → historyDays x checks arg c.stop fuel i =
      ((List.range n).flatMap (fun k : ℕ => fileEvents x arg (i + k)) ++
        [.opens arg.toString (i + n), .send (x.noHistory arg (i + n))], .done) := by
  intro n
  induction n with
  | zero =>
    intro i fuel hend hle hlt
    obtain ⟨f, rfl⟩ := Nat.exists_eq_add_one.2 hlt
    have hmissing := hend.missing
    rw [Nat.cast_zero, Int.add_zero] at hmissing ⊢
    rw [historyDays_of_le arg hle, hmissing]
    rfl
  | succ n ih =>
    intro i fuel hend hle hlt
    obtain ⟨f, rfl⟩ := Nat.exists_eq_add_one.2 (Nat.lt_of_le_of_lt (Nat.zero_le _) hlt)
    have hrange := hend.range
    push_cast at hrange
    have hfile : (x.fileReader arg.toString i).isSome := by simpa using hend.there 0 (Nat.succ_pos n)
    have hincr : incr checks i = some (i + 1) := if_pos (by omega)
    have hrest : x.EndsAfter arg (i + 1) n := by
      refine ⟨fun k hk => ?_, ?_, by omega⟩
      · have := hend.there (k + 1) (by omega)
        rwa [Nat.cast_succ, add_comm (k : ℤ) 1, ← add_assoc] at this
      · have := hend.missing
        rwa [Nat.cast_succ, add_comm (n : ℤ) 1, ← add_assoc] at this
    rw [historyDays_succ hfile hle, hincr]
    dsimp only
    rw [ih (i + 1) f hrest (by omega) (by omega), List.range_succ_eq_map, List.flatMap_cons, List.flatMap_map]
    simp only [Nat.cast_zero, Int.add_zero, Nat.cast_succ, List.append_assoc]
    simp only [show ∀ k : ℕ, i + 1 + (k : ℤ) = i + ((k : ℤ) + 1) from fun k => by omega]

/-- **What a history command replays**, where the files of each argument end after `days` days: these
days, whatever the end of the request is, and the message about the next one. -/
theorem historyHandle_upTo (days : MarketDataArg → ℕ) : ∀ args : List MarketDataArg,
    (∀ arg ∈ args, x.EndsAfter arg c.start (days arg)) → ∃ N, ∀ fuel, N ≤ fuel →
      historyHandle x checks fuel c.start c.stop args =
        (args.flatMap fun arg => replayed x c (days arg) arg, .done) := by
  intro args
  induction args with
  | nil => exact fun _ => ⟨0, fun _ _ => rfl⟩
  | cons arg args ih =>
    intro hends
    obtain ⟨N, hN⟩ := ih fun a ha => hends a (List.mem_cons_of_mem _ ha)
    refine ⟨max N (days arg + 1), fun fuel hfuel => ?_⟩
    have hday : historyDays x checks arg c.stop fuel c.start = (replayed x c (days arg) arg, .done) := by
      unfold replayed
      split
      · next hle => exact historyDays_upTo arg _ _ _ (hends arg List.mem_cons_self) hle (by omega)
      · next hlt =>
        obtain ⟨f, rfl⟩ := Nat.exists_eq_add_one.2 (show 0 < fuel by omega)
        rw [historyDays, if_neg hlt]
    rw [historyHandle_cons, hday, hN fuel (by omega), andThen_done, List.flatMap_cons]

end CryptoMarket.Replay
