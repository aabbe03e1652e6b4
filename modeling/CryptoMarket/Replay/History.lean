import Mathlib.Algebra.Ring.Int.Defs
import CryptoMarket.Replay.HandleSocket

/-!
# The days a history command replays

The comment in `history_handle` asks for the days `start, start - 1, ..., stop`
(`requestedDays`), but the loop counts up: with every day on disk it opens
`start, start + 1, ...` and is still running when the fuel ends (`historyDays_upward`).
`historyHandle_replays_iff`: with every day on disk the task replays what is asked for
only when there is nothing to replay or when the count wraps around at once.
-/

namespace CryptoMarket.Replay

/-- The days of a request, `start` first. -/
def requestedDays (start stop : ℤ) : List ℤ :=
  (List.range (start - stop + 1).toNat).map fun k : ℕ => start - (k : ℤ)

/-- The events of one day that is on disk. -/
def fileEvents (x : Crates) (arg : MarketDataArg) (i : ℤ) : List HistoryEvent :=
  dayEvents x arg i ((x.fileReader arg.toString i).getD [])

/-- What a request asks for: for each argument each requested day once, in order. -/
def requestedEvents (x : Crates) (start stop : ℤ) (args : List MarketDataArg) : List HistoryEvent :=
  args.flatMap fun arg => (requestedDays start stop).flatMap (fileEvents x arg)

variable {x : Crates} {checks : Bool} {arg : MarketDataArg} {args : List MarketDataArg}
  {start stop i : ℤ} {fuel : ℕ}

theorem requestedDays_cons (h : stop ≤ start) :
    requestedDays start stop = start :: requestedDays (start - 1) stop := by
  unfold requestedDays
  have hn : (start - stop + 1).toNat = (start - 1 - stop + 1).toNat + 1 := by omega
  rw [hn, List.range_succ_eq_map, List.map_cons, List.map_map]
  simp only [Nat.cast_zero, Int.sub_zero, List.cons.injEq, true_and]
  refine List.map_congr_left fun k _ => ?_
  simp only [Function.comp_apply]; push_cast; omega

theorem requestedDays_nil (h : start < stop) : requestedDays start stop = [] := by
  unfold requestedDays; rw [show (start - stop + 1).toNat = 0 by omega]; rfl

theorem requestedEvents_cons (h : stop ≤ start) : requestedEvents x start stop (arg :: args) =
    fileEvents x arg start ++ ((requestedDays (start - 1) stop).flatMap (fileEvents x arg) ++
      requestedEvents x start stop args) := by
  simp [requestedEvents, requestedDays_cons h]

/-- One round of the loop on a day that is on disk. -/
theorem historyDays_succ (hf : (x.fileReader arg.toString i).isSome) (h : stop ≤ i) :
    historyDays x checks arg stop (fuel + 1) i = match incr checks i with
      | none => (fileEvents x arg i, .panicked)
      | some i' => (fileEvents x arg i ++ (historyDays x checks arg stop fuel i').1,
          (historyDays x checks arg stop fuel i').2) := by
  obtain ⟨read, hr⟩ := Option.isSome_iff_exists.1 hf
  rw [historyDays, if_pos h]
  cases incr checks i with
  | none => simp only [hr, fileEvents, Option.getD_some]
  | some i' => simp only [hr, fileEvents, Option.getD_some]

/-- **The loop counts up.** With every day on disk it opens `i, i + 1, ...` and has not
ended after `fuel` days, for as long as the count stays in range. -/
theorem historyDays_upward (hf : ∀ d, (x.fileReader arg.toString d).isSome) :
    ∀ (fuel : ℕ) (i : ℤ), stop ≤ i → i + fuel ≤ i64Max → historyDays x checks arg stop fuel i =
      ((List.range fuel).flatMap fun (k : ℕ) => fileEvents x arg (i + k), .running) := by
  intro fuel
  induction fuel with
  | zero => intro i _ _; rfl
  | succ fuel ih =>
    intro i hi hmax
    push_cast at hmax
    have hincr : incr checks i = some (i + 1) := if_pos (by omega)
    rw [historyDays_succ (hf i) hi, hincr]
    simp only
    rw [ih (i + 1) (by omega) (by omega), List.range_succ_eq_map, List.flatMap_cons, List.flatMap_map]
    simp only [Nat.cast_zero, Int.add_zero, Nat.cast_succ]
    simp only [show ∀ k : ℕ, i + 1 + (k : ℤ) = i + ((k : ℤ) + 1) from fun k => by omega]

/-- At the largest `i64`, without overflow checks, the loop ends after one day. -/
theorem historyDays_max (hf : (x.fileReader arg.toString i64Max).isSome) (h0 : 0 ≤ stop)
    (hs : stop ≤ i64Max) :
    historyDays x false arg stop (fuel + 2) i64Max = (fileEvents x arg i64Max, .done) := by
  have hincr : incr false i64Max = some i64Min := by decide
  rw [historyDays_succ hf hs, hincr]
  have hmin : ¬ stop ≤ i64Min := by unfold i64Min; omega
  simp only
  rw [historyDays, if_neg hmin]; simp

/-! ## Comparing with what is asked for -/

/-- The first event of a run of `fuel + 1` days. -/
theorem historyDays_starts (checks : Bool) (fuel : ℕ) (hf : (x.fileReader arg.toString i).isSome)
    (h : stop ≤ i) : ∃ rest, (historyDays x checks arg stop (fuel + 1) i).1 = fileEvents x arg i ++ rest := by
  rw [historyDays_succ hf h]
  cases incr checks i with
  | none => exact ⟨[], by simp⟩
  | some i' => exact ⟨_, rfl⟩

/-- The days come first in what the task does for an argument. -/
theorem historyHandle_cons_starts (checks : Bool) (fuel : ℕ) (start stop : ℤ) (arg : MarketDataArg)
    (args : List MarketDataArg) : ∃ rest, (historyHandle x checks fuel start stop (arg :: args)).1 =
    (historyDays x checks arg stop fuel start).1 ++ rest := by
  rw [historyHandle]
  cases (historyDays x checks arg stop fuel start).2 with
  | done => exact ⟨_, rfl⟩
  | panicked => exact ⟨[], by simp⟩
  | running => exact ⟨[], by simp⟩

theorem historyHandle_done (h : (historyHandle x checks fuel start stop (arg :: args)).2 = .done) :
    (historyDays x checks arg stop fuel start).2 = .done := by
  rw [historyHandle] at h
  cases hd : (historyDays x checks arg stop fuel start).2 with
  | done => rfl
  | panicked => rw [hd] at h; cases h
  | running => rw [hd] at h; cases h

/-- What the task does starts with opening day `start` of the first argument. -/
theorem head_historyHandle (hf : ∀ name d, (x.fileReader name d).isSome) (h : stop ≤ start) :
    (historyHandle x checks (fuel + 1) start stop args).1.head? =
      args.head?.map fun arg => .opens arg.toString start := by
  cases args with
  | nil => rfl
  | cons arg args =>
    obtain ⟨rest, hr⟩ := historyHandle_cons_starts (x := x) checks (fuel + 1) start stop arg args
    obtain ⟨rest', hr'⟩ := historyDays_starts checks fuel (hf arg.toString start) h
    rw [hr, hr']; simp [fileEvents, dayEvents]

/-- After day `start` of the first argument, the next day asked for is `start - 1`, or
`start` again for the next argument. -/
theorem head_requested {name : String} {d : ℤ} (hh : ((requestedDays (start - 1) stop).flatMap
    (fileEvents x arg) ++ requestedEvents x start stop args).head? = some (.opens name d)) :
    (stop < start ∧ name = arg.toString ∧ d = start - 1) ∨ (start ≤ stop ∧ d = start) := by
  rcases lt_or_ge stop start with hlt | hge
  · rw [requestedDays_cons (by omega)] at hh
    simp only [List.flatMap_cons, fileEvents, dayEvents, List.cons_append, List.head?_cons,
      Option.some.injEq, HistoryEvent.opens.injEq] at hh
    exact Or.inl ⟨hlt, hh.1.symm, hh.2.symm⟩
  · rw [requestedDays_nil (by omega), List.flatMap_nil, List.nil_append] at hh
    refine Or.inr ⟨hge, ?_⟩
    cases args with
    | nil => simp [requestedEvents] at hh
    | cons b bs =>
      rcases lt_or_eq_of_le hge with h | rfl
      · have hnil : requestedEvents x start stop (b :: bs) = [] := by
          simp [requestedEvents, requestedDays_nil h, List.flatMap_eq_nil_iff]
        rw [hnil] at hh; cases hh
      · rw [requestedEvents_cons le_rfl] at hh
        simp only [fileEvents, dayEvents, List.cons_append, List.head?_cons, Option.some.injEq,
          HistoryEvent.opens.injEq] at hh
        exact hh.2.symm

/-- Below the largest `i64` the second day opened is the one after `start`. -/
theorem not_replays_of_lt (hf : ∀ name d, (x.fileReader name d).isSome) (hle : stop ≤ start)
    (hlt : start < i64Max) : historyHandle x checks fuel start stop (arg :: args) ≠
      (requestedEvents x start stop (arg :: args), .done) := by
  intro heq
  have hdone := historyHandle_done (congrArg Prod.snd heq)
  have hincr : incr checks start = some (start + 1) := if_pos hlt
  rcases fuel with _ | _ | fuel
  · cases hdone
  · rw [historyDays_succ (hf _ _) hle, hincr] at hdone; cases hdone
  · obtain ⟨rest, hr⟩ := historyHandle_cons_starts (x := x) checks (fuel + 2) start stop arg args
    obtain ⟨rest', hr'⟩ := historyDays_starts checks fuel
      (hf arg.toString (start + 1)) (show stop ≤ start + 1 by omega)
    have hev := congrArg Prod.fst heq
    rw [hr, historyDays_succ (hf _ _) hle, hincr] at hev
    simp only at hev
    rw [hr', requestedEvents_cons hle, List.append_assoc] at hev
    have hh := congrArg List.head? (List.append_cancel_left hev)
    simp only [fileEvents, dayEvents, List.cons_append, List.head?_cons] at hh
    rcases head_requested hh.symm with ⟨-, -, h⟩ | ⟨-, h⟩ <;> omega

/-- At the largest `i64` only that day is opened, and only without overflow checks. -/
theorem replays_max (hf : ∀ name d, (x.fileReader name d).isSome) (h0 : 0 ≤ stop)
    (hle : stop ≤ i64Max) (heq : historyHandle x checks fuel i64Max stop (arg :: args) =
      (requestedEvents x i64Max stop (arg :: args), .done)) : checks = false ∧ stop = i64Max := by
  have hdone := historyHandle_done (congrArg Prod.snd heq)
  rcases fuel with _ | fuel
  · cases hdone
  cases checks with
  | true =>
    have hincr : incr true i64Max = none := by decide
    rw [historyDays_succ (hf _ _) hle, hincr] at hdone; cases hdone
  | false =>
    refine ⟨rfl, ?_⟩
    rcases fuel with _ | fuel
    · have hincr : incr false i64Max = some i64Min := by decide
      rw [historyDays_succ (hf _ _) hle, hincr] at hdone; cases hdone
    · have hev := congrArg Prod.fst heq
      rw [historyHandle, historyDays_max (hf _ _) h0 hle, requestedEvents_cons hle] at hev
      have hh := congrArg List.head? (List.append_cancel_left hev)
      rw [head_historyHandle hf hle] at hh
      rcases lt_or_eq_of_le hle with hlt | h
      · rw [requestedDays_cons (show stop ≤ i64Max - 1 by omega)] at hh
        simp only [List.flatMap_cons, fileEvents, dayEvents, List.cons_append, List.head?_cons] at hh
        obtain ⟨b, -, hb⟩ := Option.map_eq_some_iff.1 hh
        simp only [HistoryEvent.opens.injEq] at hb
        omega
      · exact h

/-- **What a history command replays.** With every day on disk, the task replays the
requested days and ends if and only if there is no argument, or the request is for the
one largest `i64` day and the count wraps around. -/
theorem historyHandle_replays_iff (x : Crates) (checks : Bool) (args : List MarketDataArg)
    (h0 : 0 ≤ stop) (hle : stop ≤ start) (hmax : start ≤ i64Max)
    (hf : ∀ name d, (x.fileReader name d).isSome) :
    (∃ fuel, historyHandle x checks fuel start stop args = (requestedEvents x start stop args, .done)) ↔
      args = [] ∨ (checks = false ∧ start = i64Max ∧ stop = i64Max) := by
  constructor
  · rintro ⟨fuel, heq⟩
    rcases args with _ | ⟨arg, args⟩
    · exact Or.inl rfl
    · rcases lt_or_eq_of_le hmax with hlt | rfl
      · exact absurd heq (not_replays_of_lt hf hle hlt)
      · obtain ⟨hc, hs⟩ := replays_max hf h0 hle heq
        exact Or.inr ⟨hc, rfl, hs⟩
  · rintro (rfl | ⟨rfl, rfl, rfl⟩)
    · exact ⟨0, rfl⟩
    · refine ⟨2, ?_⟩
      induction args with
      | nil => rfl
      | cons arg args ih =>
        rw [historyHandle, historyDays_max (hf _ _) h0 le_rfl, requestedEvents_cons le_rfl,
          requestedDays_nil (by omega)]
        simp [ih]

/-- Crates with one record on disk for every day of every topic. -/
def archiveCrates : Crates := ⟨flatJson, fun _ => none, fun _ => "AQID", fun _ _ => some [[1, 2, 3]]⟩

/-- The wrap-around case of `historyHandle_replays_iff`. -/
theorem historyHandle_replays_max :
    ∃ fuel, historyHandle archiveCrates false fuel i64Max i64Max [btcTrade] =
      (requestedEvents archiveCrates i64Max i64Max [btcTrade], .done) :=
  (historyHandle_replays_iff archiveCrates false [btcTrade] (by decide) le_rfl le_rfl
    fun _ _ => rfl).2 (Or.inr ⟨rfl, rfl, rfl⟩)

/-- **The request of the source's comment, `6-1`**, is never replayed: the task opens day
7 after day 6. -/
theorem not_replays_six_one :
    ¬ ∃ checks fuel, historyHandle archiveCrates checks fuel 6 1 [btcTrade] =
      (requestedEvents archiveCrates 6 1 [btcTrade], .done) := by
  rintro ⟨checks, fuel, heq⟩
  exact not_replays_of_lt (fun _ _ => rfl) (by decide) (by decide) heq

end CryptoMarket.Replay
