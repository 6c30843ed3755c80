import VBox.Lib.Codec

/-!
A random-access file: a size and its bytes.

Bytes at and beyond the size are zero, and the structure carries that as a
field, so the gap a write beyond the end leaves behind is zero without a
separate rule. Every operation has one lemma for the size it leaves and one for
each byte it leaves.
-/

namespace VBox.Lib

/-- A file of `size` bytes. -/
structure ByteFile where
  size : Nat
  byte : Buf
  beyond : ∀ i, size ≤ i → byte i = 0

namespace ByteFile

/-- The empty file. -/
def empty : ByteFile := ⟨0, fun _ => 0, fun _ _ => rfl⟩

/-- `n` bytes at `off`; reading over the end of the file fails. -/
def read (f : ByteFile) (off n : Nat) : Option Buf :=
  if off + n ≤ f.size then some (f.byte.drop off) else none

/-- Write the first `n` bytes of `b` at `off`, growing the file where needed. -/
def write (f : ByteFile) (off n : Nat) (b : Buf) : ByteFile where
  size := if n = 0 then f.size else max f.size (off + n)
  byte i := if off ≤ i ∧ i < off + n then b (i - off) else f.byte i
  beyond i large := by
    have outside : ¬(off ≤ i ∧ i < off + n) := by
      intro inside
      rw [if_neg (by omega)] at large
      omega
    rw [if_neg outside]
    refine f.beyond i ?_
    split at large <;> omega

/-- Cut the file to `n` bytes, or grow it to `n` bytes with zeros. -/
def setSize (f : ByteFile) (n : Nat) : ByteFile where
  size := n
  byte i := if i < n then f.byte i else 0
  beyond i large := if_neg (by omega)

variable {f : ByteFile} {off n : Nat} {b : Buf}

theorem read_eq_some : f.read off n = some b ↔ off + n ≤ f.size ∧ f.byte.drop off = b := by
  unfold read
  split <;> simp_all

theorem read_eq_none : f.read off n = none ↔ f.size < off + n := by
  unfold read
  split <;> simp_all

theorem size_write (f : ByteFile) (off n : Nat) (b : Buf) :
    (f.write off n b).size = if n = 0 then f.size else max f.size (off + n) := rfl

theorem size_le_write (f : ByteFile) (off n : Nat) (b : Buf) : f.size ≤ (f.write off n b).size := by
  rw [size_write]
  split <;> omega

theorem end_le_write (f : ByteFile) (off n : Nat) (b : Buf) (positive : 0 < n) :
    off + n ≤ (f.write off n b).size := by
  rw [size_write, if_neg (by omega)]
  exact Nat.le_max_right _ _

theorem byte_write (f : ByteFile) (off n : Nat) (b : Buf) (i : Nat) :
    (f.write off n b).byte i = if off ≤ i ∧ i < off + n then b (i - off) else f.byte i := rfl

variable {i : Nat}

theorem byte_write_of_mem (low : off ≤ i) (high : i < off + n) :
    (f.write off n b).byte i = b (i - off) := by
  rw [byte_write, if_pos ⟨low, high⟩]

/-- A byte outside the written range is unchanged. -/
theorem byte_write_of_not_mem (outside : i < off ∨ off + n ≤ i) :
    (f.write off n b).byte i = f.byte i := by
  rw [byte_write, if_neg (by omega)]

@[simp] theorem size_setSize (f : ByteFile) (n : Nat) : (f.setSize n).size = n := rfl

theorem byte_setSize_of_lt (below : i < n) : (f.setSize n).byte i = f.byte i := if_pos below

/-- What was written with a codec is read back with it. -/
theorem dec_write {α : Type} (f : ByteFile) (off : Nat) (c : Codec α) (a : α) :
    c.dec ((f.write off c.width (c.enc a)).byte.drop off) = a := by
  refine c.dec_enc a _ fun i below => ?_
  rw [Buf.drop_apply, byte_write_of_mem (Nat.le_add_right _ _) (Nat.add_lt_add_left below _),
    Nat.add_sub_cancel_left]

end ByteFile

end VBox.Lib
