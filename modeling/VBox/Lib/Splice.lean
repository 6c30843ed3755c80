import Mathlib.Algebra.GroupWithZero.Nat

/-!
Overwriting part of a list.

`splice l off data` is `l` with `data` at `off`. Overwriting one piece of a list
of pieces overwrites the concatenation (`flatten_set_splice`), and two overwrites
side by side are one (`splice_splice`).
-/

namespace VBox.Lib

open List

variable {α : Type}

/-- `l` with `data` from position `off` on. -/
def splice (l : List α) (off : Nat) (data : List α) : List α :=
  l.take off ++ data ++ l.drop (off + data.length)

@[simp] theorem splice_nil (l : List α) (off : Nat) : splice l off [] = l := by
  simp [splice]

theorem length_splice {l data : List α} {off : Nat} (inside : off + data.length ≤ l.length) :
    (splice l off data).length = l.length := by
  simp only [splice, length_append, length_take, length_drop]
  omega

/-- Overwriting the middle of three parts. -/
theorem splice_append (a b c data : List α) {off : Nat} (inside : off + data.length ≤ b.length) :
    splice (a ++ b ++ c) (a.length + off) data = a ++ splice b off data ++ c := by
  have start : off ≤ b.length := by omega
  have front : (a ++ b ++ c).take (a.length + off) = a ++ b.take off := by
    rw [append_assoc, take_length_add_append, take_append_of_le_length start]
  have back : (a ++ b ++ c).drop (a.length + off + data.length) =
      b.drop (off + data.length) ++ c := by
    rw [append_assoc, Nat.add_assoc, drop_length_add_append, drop_append_of_le_length inside]
  rw [splice, front, back, splice]
  simp only [append_assoc]

/-- Two overwrites, the second where the first ends. -/
theorem splice_splice {l a b : List α} {off : Nat} (inside : off + a.length + b.length ≤ l.length) :
    splice (splice l off a) (off + a.length) b = splice l off (a ++ b) := by
  have front : (l.take off ++ a).length = off + a.length := by
    rw [length_append, length_take, Nat.min_eq_left (by omega)]
  have after : b.length ≤ (l.drop (off + a.length)).length := by
    rw [length_drop]
    omega
  have fits : 0 + b.length ≤ (l.drop (off + a.length)).length := by rwa [Nat.zero_add]
  have whole := splice_append (l.take off ++ a) (l.drop (off + a.length)) [] b fits
  rw [append_nil, append_nil, front, Nat.add_zero] at whole
  have first : splice l off a = l.take off ++ a ++ l.drop (off + a.length) := rfl
  rw [first, whole, splice, splice]
  simp only [take_zero, nil_append, Nat.zero_add, drop_drop, length_append,
    append_assoc, Nat.add_assoc]

/-- The length of the first `i` pieces. -/
def prefixLength (pieces : List (List α)) (i : Nat) : Nat := ((pieces.take i).map List.length).sum

/-- What lies before a piece, the piece and what lies behind it. -/
theorem flatten_split {pieces : List (List α)} {i : Nat} {piece : List α}
    (found : pieces[i]? = some piece) :
    pieces.flatten = (pieces.take i).flatten ++ piece ++ (pieces.drop (i + 1)).flatten := by
  obtain ⟨inside, rfl⟩ := List.getElem?_eq_some_iff.mp found
  have parts : pieces = pieces.take i ++ pieces[i] :: pieces.drop (i + 1) := by
    rw [← drop_eq_getElem_cons inside, take_append_drop]
  calc pieces.flatten = (pieces.take i ++ pieces[i] :: pieces.drop (i + 1)).flatten :=
        congrArg flatten parts
    _ = _ := by rw [flatten_append, flatten_cons, append_assoc]

theorem length_flatten_take (pieces : List (List α)) (i : Nat) :
    (pieces.take i).flatten.length = prefixLength pieces i := by
  rw [length_flatten, prefixLength]

/-- Overwriting part of one piece overwrites the concatenation. -/
theorem flatten_set_splice {pieces : List (List α)} {i off : Nat} {piece data : List α}
    (found : pieces[i]? = some piece) (inside : off + data.length ≤ piece.length) :
    (pieces.set i (splice piece off data)).flatten =
      splice pieces.flatten (prefixLength pieces i + off) data := by
  obtain ⟨bound, -⟩ := List.getElem?_eq_some_iff.mp found
  have new : (pieces.set i (splice piece off data))[i]? = some (splice piece off data) :=
    getElem?_set_self bound
  rw [flatten_split found, ← length_flatten_take, splice_append _ _ _ _ inside, flatten_split new,
    take_set_of_le (Nat.le_refl i), drop_set_of_lt (Nat.lt_succ_self i)]

/-- Reading part of one piece reads the concatenation. -/
theorem take_drop_flatten {pieces : List (List α)} {i off n : Nat} {piece : List α}
    (found : pieces[i]? = some piece) (inside : off + n ≤ piece.length) :
    (piece.drop off).take n = (pieces.flatten.drop (prefixLength pieces i + off)).take n := by
  have start : off ≤ piece.length := by omega
  rw [flatten_split found, ← length_flatten_take, append_assoc, drop_length_add_append,
    drop_append_of_le_length start, take_append_of_le_length]
  rw [length_drop]
  omega

end VBox.Lib
