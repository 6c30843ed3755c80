import Mathlib.Logic.Function.Basic

/-!
Doubly linked lists in a flat memory.

The two links of an element are read by functions, and a list may be a stretch of a
longer one. `Linked.relink_end` and `Linked.relink_start` change what a stretch is
linked to. `Words` are the words of the memory.
-/

namespace VBox.Lib

open List

/-- A memory of words. -/
abbrev Words := Nat → Nat

namespace Words

def put (mem : Words) (x v : Nat) : Words := Function.update mem x v

variable {mem : Words} {x v : Nat}

@[simp] theorem put_self : mem.put x v x = v := Function.update_self ..

variable {y : Nat}

theorem put_ne (other : y ≠ x) : mem.put x v y = mem y :=
  Function.update_of_ne other ..

/-- A put into the field at `k` of an element, if there is one. -/
def putIf (mem : Words) (off k v : Nat) : Words := if off ≠ 0 then mem.put (off + k) v else mem

variable {off k : Nat}

theorem putIf_ne (other : off = 0 ∨ y ≠ off + k) : mem.putIf off k v y = mem y := by
  rw [putIf]
  split
  case isTrue some => exact put_ne (other.resolve_left some)
  case isFalse => rfl

theorem putIf_self (some : off ≠ 0) : mem.putIf off k v (off + k) = v := by
  rw [putIf, if_pos some, put_self]

/-- Store a value that is computed from the memory. -/
def store (mem : Words) (x : Nat) (v : Words → Nat) : Words := mem.put x (v mem)

/-- Store into a field of an element, if there is one. -/
def storeIf (mem : Words) (off : Words → Nat) (field : Nat → Nat) (v : Words → Nat) : Words :=
  if off mem ≠ 0 then mem.put (field (off mem)) (v mem) else mem

/-- A field of an element, or a word elsewhere if there is none. -/
def slot (off : Nat) (field : Nat → Nat) (anchor : Nat) : Nat := if off ≠ 0 then field off else anchor

/-- A store to one of two places. -/
def storeCase (mem : Words) (c x : Words → Nat) (y : Nat) (v : Words → Nat) : Words :=
  mem.put (if c mem ≠ 0 then x mem else y) (v mem)

def storeOr (mem : Words) (off : Words → Nat) (field : Nat → Nat) (anchor : Nat)
    (v : Words → Nat) : Words :=
  mem.put (slot (off mem) field anchor) (v mem)

end Words

variable {ι : Type} {next prev next' prev' : ι → ι} {p p' q q' : ι} {l xs ys : List ι}

/-- The elements of `l` are linked, from `p` on to `q`. -/
def Linked (next prev : ι → ι) : ι → List ι → ι → Prop
  | _, [], _ => True
  | p, a :: l, q => prev a = p ∧ next a = l.headD q ∧ Linked next prev a l q

theorem headD_append (xs ys : List ι) (q : ι) : (xs ++ ys).headD q = xs.headD (ys.headD q) := by
  cases xs <;> rfl

theorem linked_append : Linked next prev p (xs ++ ys) q ↔
      Linked next prev p xs (ys.headD q) ∧ Linked next prev (xs.getLastD p) ys q := by
  induction xs generalizing p with
  | nil => simp [Linked]
  | cons a xs ih =>
    rw [cons_append, Linked, Linked, ih, headD_append, getLastD_cons, and_assoc, and_assoc]

namespace Linked

theorem congr (linked : Linked next prev p l q)
    (same : ∀ a ∈ l, next' a = next a ∧ prev' a = prev a) : Linked next' prev' p l q := by
  induction l generalizing p with
  | nil => trivial
  | cons a l ih =>
    obtain ⟨back, forth, rest⟩ := linked
    obtain ⟨sameNext, samePrev⟩ := same a (mem_cons_self ..)
    exact ⟨samePrev.trans back, sameNext.trans forth,
      ih rest fun b member => same b (mem_cons_of_mem a member)⟩

/-- The last element is linked to something else. -/
theorem relink_end (linked : Linked next prev p l q) (nodup : l.Nodup)
    (back : ∀ a ∈ l, prev' a = prev a) (forth : ∀ a ∈ l, l.getLast? ≠ some a → next' a = next a)
    (last : ∀ a, l.getLast? = some a → next' a = q') : Linked next' prev' p l q' := by
  rcases eq_nil_or_concat l with rfl | ⟨us, z, rfl⟩
  · trivial
  · rw [concat_eq_append] at *
    rw [linked_append] at linked ⊢
    obtain ⟨front, prevZ, -, -⟩ := linked
    have endsAt : (us ++ [z]).getLast? = some z := getLast?_concat ..
    have apart := (nodup_append.mp nodup).2.2
    refine ⟨front.congr fun a member => ?_, ?_, last z endsAt, trivial⟩
    · have inside : a ∈ us ++ [z] := mem_append_left _ member
      refine ⟨forth a inside ?_, back a inside⟩
      rw [endsAt]
      intro same
      exact apart a member z (mem_singleton_self z) (Option.some.inj same).symm
    · rw [back z (mem_append_right _ (mem_singleton_self z))]
      exact prevZ

/-- The first element is linked to something else. -/
theorem relink_start (linked : Linked next prev p l q) (nodup : l.Nodup)
    (forth : ∀ a ∈ l, next' a = next a) (back : ∀ a ∈ l, l.head? ≠ some a → prev' a = prev a)
    (first : ∀ a, l.head? = some a → prev' a = p') : Linked next' prev' p' l q := by
  cases l with
  | nil => trivial
  | cons a l =>
    obtain ⟨-, nextA, rest⟩ := linked
    refine ⟨first a rfl, (forth a (mem_cons_self ..)).trans nextA, rest.congr fun b member => ?_⟩
    have inside : b ∈ a :: l := mem_cons_of_mem a member
    refine ⟨forth b inside, back b inside ?_⟩
    intro same
    cases same
    exact (nodup_cons.mp nodup).1 member

/-- The links of an element in the middle. -/
theorem around {a : ι} (linked : Linked next prev p (xs ++ a :: ys) q) :
    prev a = xs.getLastD p ∧ next a = ys.headD q := by
  rw [linked_append] at linked
  exact ⟨linked.2.1, linked.2.2.1⟩

end Linked

end VBox.Lib
