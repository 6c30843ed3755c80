import Mathlib.Tactic.Ring
import Mathlib.Tactic.Linarith

/-!
Fixed-width byte codecs.

A buffer is the function that gives its bytes; how many of them count is kept
beside it. `Codec α` pairs an encoder with a decoder of one fixed width and
carries its laws as fields: whatever agrees with an encoding on its `width`
bytes decodes to the encoded value, and no other bytes matter. `Codec.seq` and `Codec.iso` build
the codec of a record from the codecs of its fields, so a record never needs a
round-trip proof of its own.
-/

namespace VBox.Lib

/-- The bytes of a buffer, from its start. -/
abbrev Buf := Nat → UInt8

/-- The bytes of a buffer from position `off` on. -/
def Buf.drop (b : Buf) (off : Nat) : Buf := fun i => b (off + i)

@[simp] theorem Buf.drop_apply (b : Buf) (off i : Nat) : b.drop off i = b (off + i) := rfl

/-- The first `n` bytes of the buffer are all zero. -/
def Buf.isZero (b : Buf) (n : Nat) : Bool := (List.range n).all fun i => b i == 0

theorem Buf.isZero_iff {b : Buf} {n : Nat} : b.isZero n = true ↔ ∀ i < n, b i = 0 := by
  simp [Buf.isZero, List.all_eq_true]

/-! ### Little-endian naturals -/

/-- Byte `k` of the little-endian representation of `n`. -/
def leByte (n k : Nat) : UInt8 := UInt8.ofNat (n / 256 ^ k)

/-- The natural whose `w` little-endian bytes the buffer starts with. -/
def leNat : Nat → Buf → Nat
  | 0, _ => 0
  | w + 1, b => (b 0).toNat + 256 * leNat w (b.drop 1)

theorem leNat_lt (w : Nat) (b : Buf) : leNat w b < 256 ^ w := by
  induction w generalizing b with
  | zero => simp [leNat]
  | succ w ih =>
    have low := (b 0).toNat_lt
    have high := ih (b.drop 1)
    rw [leNat, pow_succ]
    omega

theorem leNat_congr {w : Nat} {b c : Buf} (agree : ∀ i < w, b i = c i) : leNat w b = leNat w c := by
  induction w generalizing b c with
  | zero => rfl
  | succ w ih =>
    have tail : leNat w (b.drop 1) = leNat w (c.drop 1) :=
      ih fun i below => agree (1 + i) (by omega)
    rw [leNat, leNat, tail, agree 0 (by omega)]

theorem leByte_succ (n k : Nat) : leByte n (1 + k) = leByte (n / 256) k := by
  rw [leByte, leByte, Nat.div_div_eq_div_mul, pow_add, pow_one]

/-- Reading `w` bytes back gives the written number modulo `256 ^ w`. -/
theorem leNat_leByte (w n : Nat) : leNat w (leByte n) = n % 256 ^ w := by
  induction w generalizing n with
  | zero => simp [leNat, Nat.mod_one]
  | succ w ih =>
    have tail : Buf.drop (leByte n) 1 = leByte (n / 256) := by
      funext k
      exact leByte_succ n k
    have head : (leByte n 0).toNat = n % 256 := by simp [leByte]
    rw [leNat, tail, ih, head, pow_succ', Nat.mod_mul]

/-- Writing back a number that was read gives the bytes it was read from. -/
theorem leByte_leNat {w k : Nat} (b : Buf) (below : k < w) : leByte (leNat w b) k = b k := by
  induction w generalizing b k with
  | zero => exact absurd below (Nat.not_lt_zero k)
  | succ w ih =>
    have low := (b 0).toNat_lt
    rw [leNat]
    cases k with
    | zero =>
      refine UInt8.toNat_inj.mp ?_
      rw [leByte, pow_zero, Nat.div_one, UInt8.toNat_ofNat']
      omega
    | succ k =>
      have tail : ((b 0).toNat + 256 * leNat w (b.drop 1)) / 256 = leNat w (b.drop 1) := by
        omega
      rw [Nat.add_comm k 1, leByte_succ, tail, ih (b.drop 1) (Nat.lt_of_succ_lt_succ below)]
      rfl

/-! ### Codecs -/

/-- A fixed-width encoding with its decoder. -/
structure Codec (α : Type) where
  width : Nat
  enc : α → Buf
  dec : Buf → α
  dec_enc : ∀ (a : α) (b : Buf), (∀ i < width, b i = enc a i) → dec b = a
  dec_congr : ∀ b c : Buf, (∀ i < width, b i = c i) → dec b = dec c

namespace Codec

variable {α β : Type}

/-- A 32-bit little-endian field. -/
def u32le : Codec UInt32 where
  width := 4
  enc a := leByte a.toNat
  dec b := UInt32.ofNat (leNat 4 b)
  dec_enc a b agree := by
    have whole : a.toNat % 256 ^ 4 = a.toNat := Nat.mod_eq_of_lt a.toNat_lt
    rw [leNat_congr agree, leNat_leByte, whole]
    exact UInt32.ofNat_toNat
  dec_congr b c agree := by rw [leNat_congr agree]

/-- A 64-bit little-endian field. -/
def u64le : Codec UInt64 where
  width := 8
  enc a := leByte a.toNat
  dec b := UInt64.ofNat (leNat 8 b)
  dec_enc a b agree := by
    have whole : a.toNat % 256 ^ 8 = a.toNat := Nat.mod_eq_of_lt a.toNat_lt
    rw [leNat_congr agree, leNat_leByte, whole]
    exact UInt64.ofNat_toNat
  dec_congr b c agree := by rw [leNat_congr agree]

/-- A field of `n` raw bytes. -/
def bytes (n : Nat) : Codec (Vector UInt8 n) where
  width := n
  enc v i := v.toArray.getD i 0
  dec b := Vector.ofFn fun i => b i
  dec_enc v b agree := by
    ext i below
    simp [agree i below, below]
  dec_congr b c agree := by
    ext i below
    simp [agree i below]

/-- Two fields in a row. -/
def seq (c : Codec α) (d : Codec β) : Codec (α × β) where
  width := c.width + d.width
  enc p i := if i < c.width then c.enc p.1 i else d.enc p.2 (i - c.width)
  dec b := (c.dec b, d.dec (b.drop c.width))
  dec_enc p b agree := by
    refine Prod.ext ?_ ?_
    · refine c.dec_enc p.1 b fun i below => ?_
      rw [agree i (by omega), if_pos below]
    · refine d.dec_enc p.2 _ fun i below => ?_
      rw [Buf.drop_apply, agree _ (by omega), if_neg (by omega)]
      simp
  dec_congr b b' agree := by
    refine Prod.ext ?_ ?_
    · exact c.dec_congr b b' fun i below => agree i (by omega)
    · exact d.dec_congr _ _ fun i below => agree _ (by omega)

/-- A record encoded through the tuple of its fields. -/
def iso (c : Codec α) (f : β → α) (g : α → β) (inverse : ∀ b, g (f b) = b) : Codec β where
  width := c.width
  enc b := c.enc (f b)
  dec b := g (c.dec b)
  dec_enc b buf agree := by rw [c.dec_enc (f b) buf agree, inverse]
  dec_congr b b' agree := congrArg g (c.dec_congr b b' agree)

end Codec

/-! ### Arrays of 32-bit words -/

/-- Word `i` of the buffer. -/
def wordAt (b : Buf) (i : Nat) : Nat := leNat 4 (b.drop (4 * i))

/-- The first `n` words of the buffer. -/
def words (b : Buf) (n : Nat) : List Nat := (List.range n).map (wordAt b)

/-- The buffer that holds the words of a list. -/
def ofWords (ws : List Nat) : Buf := fun i => leByte (ws.getD (i / 4) 0) (i % 4)

theorem wordAt_lt (b : Buf) (i : Nat) : wordAt b i < 2 ^ 32 := leNat_lt 4 _

@[simp] theorem length_words (b : Buf) (n : Nat) : (words b n).length = n := by simp [words]

theorem getElem?_words (b : Buf) (n i : Nat) :
    (words b n)[i]? = if i < n then some (wordAt b i) else none := by
  by_cases below : i < n <;> simp [words, below]

theorem wordAt_congr {b c : Buf} {i : Nat} (agree : ∀ k < 4, b (4 * i + k) = c (4 * i + k)) :
    wordAt b i = wordAt c i := leNat_congr agree

/-- A word whose four bytes were written as `n` reads back as `n`. -/
theorem wordAt_of_bytes {b : Buf} {i n : Nat} (agree : ∀ k < 4, b (4 * i + k) = leByte n k)
    (bound : n < 2 ^ 32) : wordAt b i = n := by
  have read : wordAt b i = leNat 4 (leByte n) := leNat_congr agree
  rw [read, leNat_leByte]
  exact Nat.mod_eq_of_lt bound

end VBox.Lib
