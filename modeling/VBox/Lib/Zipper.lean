import Mathlib.Data.Nat.Fib.Basic

/-!
Binary trees with a place in them.

A `Frame` is a node with a hole for one of its subtrees, and a list of frames,
innermost first, is the way from a hole up to the root. `inorder_plugAll` reads a
tree around the hole. `Balanced` is the balance condition of AVL trees, with the
smallest and the largest number of nodes of a balanced tree.
-/

namespace VBox.Lib

variable {α : Type}

inductive Tree (α : Type) where
  | null
  | node (a : α) (left right : Tree α)
  deriving DecidableEq, Repr

inductive Frame (α : Type) where
  | left (a : α) (sibling : Tree α)
  | right (a : α) (sibling : Tree α)
  deriving DecidableEq, Repr

namespace Frame

def plug : Frame α → Tree α → Tree α
  | left a sibling, t => .node a t sibling
  | right a sibling, t => .node a sibling t

def sibling : Frame α → Tree α
  | left _ sibling | right _ sibling => sibling

def node : Frame α → α
  | left a _ | right a _ => a

end Frame

/-- The whole tree, with `t` in the hole. -/
def plugAll : List (Frame α) → Tree α → Tree α
  | [], t => t
  | f :: fs, t => plugAll fs (f.plug t)

namespace Tree

def inorder : Tree α → List α
  | null => []
  | node a left right => left.inorder ++ a :: right.inorder

def depth : Tree α → Nat
  | null => 0
  | node _ left right => max left.depth right.depth + 1

/-- The depths of the two subtrees of every node differ by at most one. -/
def Balanced : Tree α → Prop
  | null => True
  | node _ left right =>
      left.depth ≤ right.depth + 1 ∧ right.depth ≤ left.depth + 1 ∧
        left.Balanced ∧ right.Balanced

theorem length_inorder_lt (t : Tree α) : t.inorder.length < 2 ^ t.depth := by
  induction t with
  | null => exact Nat.one_pos
  | node a left right leftIh rightIh =>
    have leftBound : 2 ^ left.depth ≤ 2 ^ max left.depth right.depth :=
      Nat.pow_le_pow_right Nat.two_pos (Nat.le_max_left _ _)
    have rightBound : 2 ^ right.depth ≤ 2 ^ max left.depth right.depth :=
      Nat.pow_le_pow_right Nat.two_pos (Nat.le_max_right _ _)
    simp only [inorder, depth, List.length_append, List.length_cons, Nat.pow_succ]
    omega

/-- A balanced tree of depth `h` has at least `fib (h + 2) - 1` nodes. -/
theorem Balanced.fib_le {t : Tree α} (balanced : t.Balanced) :
    Nat.fib (t.depth + 2) ≤ t.inorder.length + 1 := by
  induction t with
  | null => exact le_refl 1
  | node a left right leftIh rightIh =>
    obtain ⟨leftLow, rightLow, leftBalanced, rightBalanced⟩ := balanced
    have leftSize := leftIh leftBalanced
    have rightSize := rightIh rightBalanced
    have grows : ∀ {m n : Nat}, m ≤ n → Nat.fib m ≤ Nat.fib n := fun le => Nat.fib_mono le
    simp only [inorder, depth, List.length_append, List.length_cons]
    rcases Nat.le_total left.depth right.depth with shallow | shallow
    · have small : Nat.fib (right.depth + 1) ≤ Nat.fib (left.depth + 2) := grows (by omega)
      have step : Nat.fib (right.depth + 1 + 2) =
          Nat.fib (right.depth + 1) + Nat.fib (right.depth + 2) := Nat.fib_add_two
      rw [Nat.max_eq_right shallow]
      omega
    · have small : Nat.fib (left.depth + 1) ≤ Nat.fib (right.depth + 2) := grows (by omega)
      have step : Nat.fib (left.depth + 1 + 2) =
          Nat.fib (left.depth + 1) + Nat.fib (left.depth + 2) := Nat.fib_add_two
      rw [Nat.max_eq_left shallow]
      omega

end Tree

/-- The elements before the hole. -/
def before : List (Frame α) → List α
  | [] => []
  | .left _ _ :: fs => before fs
  | .right a sibling :: fs => before fs ++ (sibling.inorder ++ [a])

/-- The elements behind the hole. -/
def after : List (Frame α) → List α
  | [] => []
  | .left a sibling :: fs => a :: sibling.inorder ++ after fs
  | .right _ _ :: fs => after fs

theorem inorder_plugAll (fs : List (Frame α)) (t : Tree α) :
    (plugAll fs t).inorder = before fs ++ t.inorder ++ after fs := by
  induction fs generalizing t with
  | nil => simp [plugAll, before, after]
  | cons f fs ih =>
    cases f with
    | left a sibling => simp [plugAll, ih, Frame.plug, Tree.inorder, before, after]
    | right a sibling => simp [plugAll, ih, Frame.plug, Tree.inorder, before, after]

end VBox.Lib
