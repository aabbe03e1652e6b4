import Mathlib.Algebra.Ring.Int.Defs
import Mathlib.Data.List.Basic

/-!
# Text

What the programs use of Rust's `str`: its UTF-8 bytes, `split` on a character,
`replacen` of a character and `parse::<i64>`.
-/

namespace CryptoMarket

/-- Bytes, oldest first. -/
abbrev Bytes := List UInt8

/-! ## UTF-8 -/

/-- `str::as_bytes` -/
def utf8 (s : String) : Bytes := s.toByteArray.data.toList

/-- `String::from_utf8` -/
def fromUtf8 (b : Bytes) : Option String := String.fromUTF8? b.toByteArray

theorem utf8_append (s t : String) : utf8 (s ++ t) = utf8 s ++ utf8 t := by
  simp [utf8, String.toByteArray_append]

theorem toByteArray_utf8 (s : String) : (utf8 s).toByteArray = s.toByteArray := by
  ext1
  simp [utf8, List.data_toByteArray]

/-- What follows the bytes of a text is valid UTF-8 exactly when the whole is. -/
theorem isValidUTF8_append_iff (s : String) (b : ByteArray) :
    (s.toByteArray ++ b).IsValidUTF8 ↔ b.IsValidUTF8 := by
  have key : ∀ l : List Char, (l.utf8Encode ++ b).IsValidUTF8 ↔ b.IsValidUTF8 := by
    intro l
    induction l with
    | nil => simp
    | cons c l ih =>
      have hcons : (c :: l).utf8Encode = [c].utf8Encode ++ l.utf8Encode := by
        simp [← List.utf8Encode_append]
      rw [hcons, ByteArray.append_assoc, ByteArray.isValidUTF8_utf8Encode_singleton_append_iff, ih]
  obtain ⟨l, hl⟩ := s.isValidUTF8
  rw [hl]
  exact key l

theorem fromUtf8_utf8_append (s : String) (b : Bytes) :
    fromUtf8 (utf8 s ++ b) = (fromUtf8 b).map (s ++ ·) := by
  unfold fromUtf8 String.fromUTF8?
  rw [List.toByteArray_append, toByteArray_utf8]
  by_cases h : b.toByteArray.IsValidUTF8
  · rw [dif_pos h, dif_pos ((isValidUTF8_append_iff s _).2 h)]
    rfl
  · rw [dif_neg h, dif_neg (mt (isValidUTF8_append_iff s _).1 h)]
    rfl

theorem fromUtf8_utf8 (s : String) : fromUtf8 (utf8 s) = some s := by
  have h := fromUtf8_utf8_append s []
  rw [List.append_nil, show fromUtf8 [] = some "" from rfl] at h
  simpa using h

/-! ## Splitting -/

/-- `str::split(c)`: the pieces between the occurrences of `c`, one more than these. -/
def split (c : Char) (s : String) : List String := (s.toList.splitOn c).map String.ofList

/-- Splitting around one occurrence of the separator. -/
theorem split_append_sep (c : Char) (a b : String) :
    split c (a ++ String.singleton c ++ b) = split c a ++ split c b := by
  simp [split, List.splitOn_append_cons_self]

theorem split_of_not_mem {c : Char} {s : String} (h : c ∉ s.toList) : split c s = [s] := by
  rw [split, List.splitOn_eq_singleton h]; simp

/-- The first piece is the whole text exactly when the separator does not occur. -/
theorem headD_split_eq_iff {c : Char} {s d : String} : (split c s).headD d = s ↔ c ∉ s.toList := by
  constructor
  · intro hhead hc
    obtain ⟨as, bs, hs, has⟩ := List.eq_append_cons_of_mem hc
    have hsplit : s = String.ofList as ++ String.singleton c ++ String.ofList bs := by
      apply String.toList_inj.1
      simp [hs]
    have hfirst : split c (String.ofList as) = [String.ofList as] :=
      split_of_not_mem (by rwa [String.toList_ofList])
    rw [hsplit, split_append_sep, hfirst] at hhead
    have hlen := congrArg String.length hhead
    simp at hlen
    omega
  · intro hc
    rw [split_of_not_mem hc]; rfl

theorem split_ne_nil (c : Char) (s : String) : split c s ≠ [] := by
  simp [split, List.splitOn_ne_nil]

/-- **The pieces tell the text.** -/
theorem split_inj {c : Char} {s t : String} : split c s = split c t ↔ s = t := by
  refine ⟨fun h => ?_, fun h => congrArg (split c) h⟩
  have hchars : s.toList.splitOn c = t.toList.splitOn c :=
    List.map_injective_iff.2 (fun a b hab => String.ofList_injective hab) h
  have hjoin := congrArg ([c].intercalate ·) hchars
  simp only [List.intercalate_splitOn] at hjoin
  exact String.toList_inj.1 hjoin

/-- One piece more than there are separators. -/
theorem length_split (c : Char) (s : String) : (split c s).length = s.toList.count c + 1 := by
  unfold split
  rw [List.length_map]
  induction s.toList with
  | nil => simp
  | cons d l ih =>
    rw [List.splitOn_cons_eq_if_modifyHead, List.count_cons]
    by_cases hd : d = c
    · simp [hd, ih]
    · simp [hd, ih]

theorem mem_splitOn {c : Char} {w : List Char} : ∀ (n : ℕ) (l : List Char), l.length ≤ n →
    w ∈ l.splitOn c → c ∉ w ∧ w ⊆ l := by
  intro n
  induction n with
  | zero =>
    intro l hn hw
    obtain rfl := List.eq_nil_of_length_eq_zero (Nat.le_zero.1 hn)
    obtain rfl : w = [] := by simpa using hw
    exact ⟨List.not_mem_nil, List.Subset.refl _⟩
  | succ n ih =>
    intro l hn hw
    by_cases hc : c ∈ l
    · obtain ⟨as, bs, rfl, has⟩ := List.eq_append_cons_of_mem hc
      rw [List.splitOn_append_cons_self_of_not_mem has, List.mem_cons] at hw
      rcases hw with rfl | hw
      · exact ⟨has, List.subset_append_left _ _⟩
      · have hlen : bs.length ≤ n := by
          rw [List.length_append, List.length_cons] at hn
          omega
        obtain ⟨hcw, hsub⟩ := ih bs hlen hw
        exact ⟨hcw, fun d hd => by simp [hsub hd]⟩
    · rw [List.splitOn_eq_singleton hc, List.mem_singleton] at hw
      rw [hw]
      exact ⟨hc, List.Subset.refl _⟩

/-- **A piece** has characters of the text, and no separator. -/
theorem mem_split {c d : Char} {s p : String} (hp : p ∈ split c s) :
    c ∉ p.toList ∧ (d ∈ p.toList → d ∈ s.toList) := by
  obtain ⟨w, hw, rfl⟩ := List.mem_map.1 hp
  rw [String.toList_ofList]
  obtain ⟨hc, hsub⟩ := mem_splitOn _ s.toList (Nat.le_refl _) hw
  exact ⟨hc, fun hd => hsub hd⟩

/-! ## Replacing -/

/-- `replacen`, on the characters. -/
def replacenChars (c : Char) (rep : List Char) : ℕ → List Char → List Char
  | 0, cs => cs
  | _ + 1, [] => []
  | n + 1, d :: cs => if d = c then rep ++ replacenChars c rep n cs else d :: replacenChars c rep (n + 1) cs

/-- `str::replacen(c, rep, n)`: the first `n` occurrences of `c` replaced by `rep`. -/
def replacen (c : Char) (rep : String) (n : ℕ) (s : String) : String :=
  String.ofList (replacenChars c rep.toList n s.toList)

theorem count_replacenChars {c : Char} {rep : List Char} (hrep : c ∉ rep) : ∀ (cs : List Char) (n : ℕ),
    (replacenChars c rep n cs).count c = cs.count c - n := by
  intro cs
  induction cs with
  | nil => intro n; cases n <;> simp [replacenChars]
  | cons d cs ih =>
    intro n
    cases n with
    | zero => simp [replacenChars]
    | succ n =>
      rw [replacenChars]
      by_cases hd : d = c
      · rw [if_pos hd, List.count_append, List.count_eq_zero_of_not_mem hrep, ih, hd,
          List.count_cons_self]
        omega
      · rw [if_neg hd, List.count_cons_of_ne hd, ih, List.count_cons_of_ne hd]

theorem replacenChars_of_not_mem {c : Char} {rep : List Char} : ∀ (cs : List Char) (n : ℕ), c ∉ cs →
    replacenChars c rep n cs = cs := by
  intro cs
  induction cs with
  | nil => intro n _; cases n <;> rfl
  | cons d cs ih =>
    intro n hc
    rw [List.mem_cons, not_or] at hc
    cases n with
    | zero => rfl
    | succ n => rw [replacenChars, if_neg (Ne.symm hc.1), ih _ hc.2]

/-- Enough replacements by one character replace every occurrence. -/
theorem replacenChars_eq_map {c d : Char} : ∀ (cs : List Char) (n : ℕ), cs.count c ≤ n →
    replacenChars c [d] n cs = cs.map fun e => if e = c then d else e := by
  intro cs
  induction cs with
  | nil => intro n _; cases n <;> rfl
  | cons e cs ih =>
    intro n hn
    rw [List.count_cons] at hn
    cases n with
    | zero =>
      have hnot : c ∉ e :: cs := by
        rw [← List.count_eq_zero, List.count_cons]
        omega
      rw [replacenChars_of_not_mem _ _ hnot]
      refine (List.map_congr_left (g := id) fun f hf => if_neg ?_).trans (List.map_id _) |>.symm
      rintro rfl
      exact hnot hf
    | succ n =>
      rw [replacenChars, List.map_cons]
      by_cases he : e = c
      · rw [if_pos he, if_pos he, List.singleton_append, ih n (by simp [he] at hn; omega)]
      · rw [if_neg he, if_neg he, ih (n + 1) (by simp [he] at hn; omega)]

/-- **Replacing changes nothing** exactly when there is nothing to replace. -/
theorem replacen_eq_self_iff {c : Char} {rep : String} {n : ℕ} {s : String} (hrep : c ∉ rep.toList)
    (hn : 0 < n) : replacen c rep n s = s ↔ c ∉ s.toList := by
  constructor
  · intro heq hc
    have hcount := count_replacenChars hrep s.toList n
    rw [← String.toList_ofList (l := replacenChars _ _ _ _)] at hcount
    change (replacen c rep n s).toList.count c = _ at hcount
    rw [heq] at hcount
    have := List.count_pos_iff.2 hc
    omega
  · intro hc
    rw [replacen, replacenChars_of_not_mem _ _ hc, String.ofList_toList]

/-! ## Numbers -/

/-- The range of `i64`. -/
def i64Min : ℤ := -2 ^ 63

/-- The largest `i64`. -/
def i64Max : ℤ := 2 ^ 63 - 1

/-- `str::parse::<i64>`: an optional sign, then decimal digits, the value in range. -/
def parseI64 (s : String) : Option ℤ :=
  let (neg, digits) := match s.toList with
    | '-' :: cs => (true, cs)
    | '+' :: cs => (false, cs)
    | cs => (false, cs)
  if digits = [] ∨ ¬ digits.all Char.isDigit then none
  else
    let n : ℕ := digits.foldl (fun n d => 10 * n + (d.toNat - '0'.toNat)) 0
    let v : ℤ := if neg then -n else n
    if i64Min ≤ v ∧ v ≤ i64Max then some v else none

/-- Without a minus sign the value is not negative. -/
theorem parseI64_nonneg {s : String} {v : ℤ} (hs : '-' ∉ s.toList) (h : parseI64 s = some v) : 0 ≤ v := by
  unfold parseI64 at h
  have hneg : ∀ cs, s.toList ≠ '-' :: cs := by
    intro cs hcs
    rw [hcs] at hs
    exact hs List.mem_cons_self
  split at h
  · next neg digits heq => 
    have hnot : neg = false := by
      split at heq
      · next cs hcs => exact absurd hcs (hneg cs)
      · exact (Prod.mk.inj heq).1.symm
      · exact (Prod.mk.inj heq).1.symm
    subst hnot
    simp only [Bool.false_eq_true, if_false] at h
    split at h
    · cases h
    · split at h
      · rw [← Option.some.inj h]
        exact Int.natCast_nonneg _
      · cases h

end CryptoMarket
