import CryptoMarket.Lib.Text

/-!
# Paths

A path is resolved lexically: its segments are gone through in order, an empty segment and
`.` stay where they are, `..` goes up one directory, any other segment goes down.

* `resolve_file`: a file name without `/` stays in its directory.
-/

namespace CryptoMarket

/-- A segment, after the segments `dir`, the last one first. The root has no parent; a
relative path can begin with `..`. -/
def enter (absolute : Bool) (dir : List String) (segment : String) : List String :=
  if segment = "" ∨ segment = "." then dir
  else if segment = ".." then
    match dir with
    | [] => if absolute then [] else [".."]
    | parent :: rest => if parent = ".." then ".." :: dir else rest
  else segment :: dir

/-- The segments of a path without `.` and, as far as they can be followed, `..`. -/
def resolve (path : String) : List String :=
  ((split '/' path).foldl (enter (path.toList.head? = some '/')) []).reverse

example : resolve "/data/20220705/../../etc/./hosts" = ["etc", "hosts"] := by decide

theorem enter_file {absolute : Bool} {dir : List String} {name : String}
    (hname : name ∉ ["", ".", ".."]) : enter absolute dir name = name :: dir := by
  simp only [List.mem_cons, List.not_mem_nil, or_false, not_or] at hname
  unfold enter
  rw [if_neg (by simp [hname]), if_neg hname.2.2]

/-- **A file in its directory.** A name without `/` that is not `.` or `..` is the last
segment of what its path resolves to. -/
theorem resolve_file {dir name : String} (hdir : dir ≠ "") (hslash : '/' ∉ name.toList)
    (hname : name ∉ ["", ".", ".."]) : resolve (dir ++ "/" ++ name) = resolve dir ++ [name] := by
  have hsplit : split '/' (dir ++ "/" ++ name) = split '/' dir ++ [name] := by
    have happend : split '/' (dir ++ "/" ++ name) = split '/' dir ++ split '/' name :=
      split_append_sep '/' dir name
    rw [happend, split_of_not_mem hslash]
  have hhead : (dir ++ "/" ++ name).toList.head? = dir.toList.head? := by
    have hne : dir.toList ≠ [] := by simpa using hdir
    obtain ⟨c, cs, hcs⟩ := List.exists_cons_of_ne_nil hne
    simp [hcs]
  unfold resolve
  rw [hsplit, hhead, List.foldl_append, List.foldl_cons, List.foldl_nil, enter_file hname,
    List.reverse_cons]

end CryptoMarket
