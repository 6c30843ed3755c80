import VBox.Runtime.KAvl

/-!
Rebalancing keeps the heights right.

`AvlOk` says that every node records its height and is balanced, `FramesOk` the same
of the frames around a hole of a given depth. `rebalance_spec` is about a hole that
was filled with a tree one deeper or shallower than the frames expect.
-/

namespace VBox.Runtime

open VBox.Lib

variable {κ δ : Type}

/-! ### Heights -/

/-- Every node records the height of its tree, and the heights of its subtrees
differ by at most one. -/
def AvlOk : KAvlTree κ δ → Prop
  | .null => True
  | .node p left right =>
      p.uchHeight = max left.depth right.depth + 1 ∧
        left.depth ≤ right.depth + 1 ∧ right.depth ≤ left.depth + 1 ∧ AvlOk left ∧ AvlOk right

/-- The frames around a hole of depth `h`. -/
def FramesOk : KAvlStack κ δ → Nat → Prop
  | [], _ => True
  | f :: fs, h =>
      f.node.uchHeight = max h f.sibling.depth + 1 ∧
        h ≤ f.sibling.depth + 1 ∧ f.sibling.depth ≤ h + 1 ∧ AvlOk f.sibling ∧
        FramesOk fs (max h f.sibling.depth + 1)

/-- The depth of the whole tree, when the hole has depth `h`. -/
def rootDepth : KAvlStack κ δ → Nat → Nat
  | [], h => h
  | f :: fs, h => rootDepth fs (max h f.sibling.depth + 1)

/-- The nodes of the tree in order, as the caller sees them. -/
def entries (t : KAvlTree κ δ) : List (KAvlEntry κ δ) := t.inorder.map KAvlNode.entry

section Heights

variable {t : KAvlTree κ δ} {fs gs : KAvlStack κ δ} {h : Nat}

theorem heightOf_eq (ok : AvlOk t) : heightOf t = t.depth := by
  cases t with
  | null => rfl
  | node p left right => exact ok.1

theorem AvlOk.balanced (ok : AvlOk t) : t.Balanced := by
  induction t with
  | null => trivial
  | node p left right leftIh rightIh =>
    obtain ⟨-, low, high, leftOk, rightOk⟩ := ok
    exact ⟨low, high, leftIh leftOk, rightIh rightOk⟩

theorem depth_plug (f : Frame (KAvlNode κ δ)) (t : KAvlTree κ δ) :
    (f.plug t).depth = max t.depth f.sibling.depth + 1 := by
  cases f with
  | left p sibling => rfl
  | right p sibling => simp [Frame.plug, Lib.Tree.depth, Frame.sibling, Nat.max_comm]

theorem avlOk_plug (f : Frame (KAvlNode κ δ)) (t : KAvlTree κ δ) :
    AvlOk (f.plug t) ↔ AvlOk t ∧ f.node.uchHeight = max t.depth f.sibling.depth + 1 ∧
      t.depth ≤ f.sibling.depth + 1 ∧ f.sibling.depth ≤ t.depth + 1 ∧ AvlOk f.sibling := by
  cases f with
  | left p sibling =>
    simp only [Frame.plug, AvlOk, Frame.node, Frame.sibling]
    tauto
  | right p sibling =>
    simp only [Frame.plug, AvlOk, Frame.node, Frame.sibling, Nat.max_comm t.depth]
    tauto

/-- A tree is right when the tree in the hole and the frames around it are. -/
theorem avlOk_plugAll (fs : KAvlStack κ δ) (t : KAvlTree κ δ) :
    AvlOk (plugAll fs t) ↔ AvlOk t ∧ FramesOk fs t.depth := by
  induction fs generalizing t with
  | nil => simp [plugAll, FramesOk]
  | cons f fs ih =>
    rw [plugAll, ih, avlOk_plug, depth_plug, FramesOk]
    tauto

theorem depth_plugAll (fs : KAvlStack κ δ) (t : KAvlTree κ δ) :
    (plugAll fs t).depth = rootDepth fs t.depth := by
  induction fs generalizing t with
  | nil => rfl
  | cons f fs ih => rw [plugAll, ih, depth_plug, rootDepth]

theorem framesOk_append : FramesOk (fs ++ gs) h ↔ FramesOk fs h ∧ FramesOk gs (rootDepth fs h) := by
  induction fs generalizing h with
  | nil => simp [FramesOk, rootDepth]
  | cons f fs ih =>
    simp only [List.cons_append, FramesOk, rootDepth, ih]
    tauto

theorem rootDepth_append : rootDepth (fs ++ gs) h = rootDepth gs (rootDepth fs h) := by
  induction fs generalizing h with
  | nil => rfl
  | cons f fs ih => exact ih

/-- The way up adds at least one level for each frame. -/
theorem add_length_le_rootDepth (fs : KAvlStack κ δ) (h : Nat) :
    h + fs.length ≤ rootDepth fs h := by
  induction fs generalizing h with
  | nil => exact le_refl h
  | cons f fs ih =>
    have up := ih (max h f.sibling.depth + 1)
    rw [rootDepth, List.length_cons]
    omega

end Heights

/-! ### The nodes -/

section Entries

variable {fs gs : KAvlStack κ δ}

theorem entries_node (p : KAvlNode κ δ) (left right : KAvlTree κ δ) :
    entries (.node p left right) = entries left ++ p.entry :: entries right := by
  simp [entries, Lib.Tree.inorder]

def entriesBefore (fs : KAvlStack κ δ) : List (KAvlEntry κ δ) := (before fs).map KAvlNode.entry

def entriesAfter (fs : KAvlStack κ δ) : List (KAvlEntry κ δ) := (after fs).map KAvlNode.entry

theorem entries_plugAll (fs : KAvlStack κ δ) (t : KAvlTree κ δ) :
    entries (plugAll fs t) = entriesBefore fs ++ entries t ++ entriesAfter fs := by
  rw [entries, inorder_plugAll, List.map_append, List.map_append]
  rfl

end Entries

/-! ### One node -/

section Rebalancing

variable {p : KAvlNode κ δ} {left right : KAvlTree κ δ}

theorem uchar_of_lt {n : Nat} (small : n < 256) : uchar n = n := Nat.mod_eq_of_lt small

/-- What `Rebalance` does with a node whose subtrees differ by at most two. -/
structure NodeStep (p : KAvlNode κ δ) (left right : KAvlTree κ δ) (stop : Bool)
    (n : KAvlTree κ δ) : Prop where
  ok : AvlOk n
  nodes : entries n = entries left ++ p.entry :: entries right
  low : max left.depth right.depth ≤ n.depth
  high : n.depth ≤ max left.depth right.depth + 1
  balanced : left.depth ≤ right.depth + 1 → right.depth ≤ left.depth + 1 →
    n.depth = max left.depth right.depth + 1
  stops : stop = true → p.uchHeight = n.depth

theorem rebalanceNode_spec (leftOk : AvlOk left) (rightOk : AvlOk right)
    (leftLow : left.depth ≤ right.depth + 2) (rightLow : right.depth ≤ left.depth + 2)
    (small : max left.depth right.depth + 1 < 256) :
    ∃ stop n, rebalanceNode (.node p left right) = some (stop, n) ∧
      NodeStep p left right stop n := by
  have leftHeight := heightOf_eq leftOk
  have rightHeight := heightOf_eq rightOk
  rw [rebalanceNode.eq_def]
  dsimp only
  rw [leftHeight, rightHeight]
  split
  · -- the left subtree is two deeper
    rename_i deeper
    cases left with
    | null => exact absurd deeper (Nat.not_lt_zero _)
    | node l leftLeft leftRight =>
      obtain ⟨lHeight, lLow, lHigh, llOk, lrOk⟩ := leftOk
      have llHeight := heightOf_eq llOk
      have lrHeight := heightOf_eq lrOk
      simp only [Lib.Tree.depth] at deeper leftLow rightLow small
      dsimp only
      rw [llHeight, lrHeight]
      split
      · have inner : uchar (1 + leftRight.depth) = 1 + leftRight.depth := uchar_of_lt (by omega)
        rw [inner, uchar_of_lt (by omega)]
        refine ⟨_, _, rfl, ?_, ?_, ?_, ?_, ?_, ?_⟩
        · simp only [AvlOk, Lib.Tree.depth]
          refine ⟨?_, ?_, ?_, llOk, ?_, ?_, ?_, lrOk, rightOk⟩ <;> omega
        · simp [entries_node]
        · simp only [Lib.Tree.depth]
          omega
        · simp only [Lib.Tree.depth]
          omega
        · simp only [Lib.Tree.depth]
          omega
        · intro impossible
          cases impossible
      · rename_i inner
        cases leftRight with
        | null => exact absurd (Nat.zero_le _) inner
        | node lr leftRightLeft leftRightRight =>
          obtain ⟨mHeight, mLow, mHigh, mlOk, mrOk⟩ := lrOk
          simp only [Lib.Tree.depth] at deeper leftLow rightLow small inner lLow lHigh lHeight
          refine ⟨_, _, rfl, ?_, ?_, ?_, ?_, ?_, ?_⟩
          · simp only [AvlOk, Lib.Tree.depth]
            refine ⟨?_, ?_, ?_, ⟨?_, ?_, ?_, llOk, mlOk⟩, ?_, ?_, ?_, mrOk, rightOk⟩ <;> omega
          · simp [entries_node]
          · simp only [Lib.Tree.depth]
            omega
          · simp only [Lib.Tree.depth]
            omega
          · simp only [Lib.Tree.depth]
            omega
          · intro impossible
            cases impossible
  split
  · -- the right subtree is two deeper
    rename_i deeper
    cases right with
    | null => exact absurd deeper (Nat.not_lt_zero _)
    | node r rightLeft rightRight =>
      obtain ⟨rHeight, rLow, rHigh, rlOk, rrOk⟩ := rightOk
      have rlHeight := heightOf_eq rlOk
      have rrHeight := heightOf_eq rrOk
      simp only [Lib.Tree.depth] at deeper leftLow rightLow small
      dsimp only
      rw [rlHeight, rrHeight]
      split
      · have inner : uchar (1 + rightLeft.depth) = 1 + rightLeft.depth := uchar_of_lt (by omega)
        rw [inner, uchar_of_lt (by omega)]
        refine ⟨_, _, rfl, ?_, ?_, ?_, ?_, ?_, ?_⟩
        · simp only [AvlOk, Lib.Tree.depth]
          refine ⟨?_, ?_, ?_, ⟨?_, ?_, ?_, leftOk, rlOk⟩, rrOk⟩ <;> omega
        · simp [entries_node]
        · simp only [Lib.Tree.depth]
          omega
        · simp only [Lib.Tree.depth]
          omega
        · simp only [Lib.Tree.depth]
          omega
        · intro impossible
          cases impossible
      · rename_i inner
        cases rightLeft with
        | null => exact absurd (Nat.zero_le _) inner
        | node rl rightLeftLeft rightLeftRight =>
          obtain ⟨mHeight, mLow, mHigh, mlOk, mrOk⟩ := rlOk
          simp only [Lib.Tree.depth] at deeper leftLow rightLow small inner rLow rHigh rHeight
          refine ⟨_, _, rfl, ?_, ?_, ?_, ?_, ?_, ?_⟩
          · simp only [AvlOk, Lib.Tree.depth]
            refine ⟨?_, ?_, ?_, ⟨?_, ?_, ?_, leftOk, mlOk⟩, ?_, ?_, ?_, mrOk, rrOk⟩ <;> omega
          · simp [entries_node]
          · simp only [Lib.Tree.depth]
            omega
          · simp only [Lib.Tree.depth]
            omega
          · simp only [Lib.Tree.depth]
            omega
          · intro impossible
            cases impossible
  · -- balanced: only the height may be wrong
    rename_i notLeft notRight
    rw [uchar_of_lt small]
    split
    · rename_i same
      refine ⟨_, _, rfl, ?_, entries_node _ _ _, Nat.le_succ _, le_refl _, fun _ _ => rfl,
        fun _ => same.symm⟩
      exact ⟨same.symm, by omega, by omega, leftOk, rightOk⟩
    · refine ⟨_, _, rfl, ?_, entries_node _ _ _, Nat.le_succ _, le_refl _, fun _ _ => rfl, ?_⟩
      · exact ⟨rfl, by omega, by omega, leftOk, rightOk⟩
      · intro impossible
        cases impossible

/-! ### Up the stack -/

/-- One frame, with a tree in its hole that is at most one level off. -/
theorem rebalanceNode_plug {f : Frame (KAvlNode κ δ)} {t : KAvlTree κ δ} {h : Nat}
    (ok : AvlOk t) (siblingOk : AvlOk f.sibling) (low : h ≤ f.sibling.depth + 1)
    (high : f.sibling.depth ≤ h + 1) (near : t.depth ≤ h + 1) (near' : h ≤ t.depth + 1)
    (small : max h f.sibling.depth + 2 < 256) :
    ∃ stop n, rebalanceNode (f.plug t) = some (stop, n) ∧ AvlOk n ∧ entries n = entries (f.plug t) ∧
      n.depth ≤ max h f.sibling.depth + 1 + 1 ∧ max h f.sibling.depth + 1 ≤ n.depth + 1 ∧
      n.depth ≤ max t.depth f.sibling.depth + 1 ∧ (stop = true → f.node.uchHeight = n.depth) := by
  cases f with
  | left p sibling =>
    simp only [Frame.sibling, Frame.plug, Frame.node] at *
    obtain ⟨stop, n, run, step⟩ := rebalanceNode_spec (p := p) ok siblingOk (by omega)
      (by omega) (by omega)
    obtain ⟨nOk, nodes, lower, upper, balanced, stops⟩ := step
    refine ⟨stop, n, run, nOk, ?_, ?_, ?_, upper, stops⟩
    · rw [nodes, entries_node]
    · omega
    · omega
  | right p sibling =>
    simp only [Frame.sibling, Frame.plug, Frame.node] at *
    obtain ⟨stop, n, run, step⟩ := rebalanceNode_spec (p := p) siblingOk ok (by omega)
      (by omega) (by omega)
    obtain ⟨nOk, nodes, lower, upper, balanced, stops⟩ := step
    refine ⟨stop, n, run, nOk, ?_, ?_, ?_, ?_, stops⟩
    · rw [nodes, entries_node]
    · omega
    · omega
    · omega

theorem rebalance_spec {fs : KAvlStack κ δ} {t : KAvlTree κ δ} {h : Nat} (framesOk : FramesOk fs h)
    (ok : AvlOk t) (near : t.depth ≤ h + 1) (near' : h ≤ t.depth + 1)
    (small : rootDepth fs h + 1 < 256) : ∃ t', rebalance fs t = some t' ∧ AvlOk t' ∧
      entries t' = entriesBefore fs ++ entries t ++ entriesAfter fs ∧
      t'.depth ≤ max (rootDepth fs h) (t.depth + fs.length) := by
  induction fs generalizing t h with
  | nil => exact ⟨t, rfl, ok, by simp [entriesBefore, entriesAfter, before, after], by simp⟩
  | cons f fs ih =>
    obtain ⟨height, low, high, siblingOk, restOk⟩ := framesOk
    rw [rootDepth] at small ⊢
    have up := add_length_le_rootDepth fs (max h f.sibling.depth + 1)
    obtain ⟨stop, n, run, nOk, nodes, upper, lower, grown, stops⟩ :=
      rebalanceNode_plug ok siblingOk low high near near' (by omega)
    have same : entries (plugAll fs n) =
        entriesBefore (f :: fs) ++ entries t ++ entriesAfter (f :: fs) := by
      rw [entries_plugAll, nodes, ← entries_plugAll, ← entries_plugAll]
      rfl
    rw [rebalance, run]
    cases stop with
    | true =>
      -- the height was right: the rest of the stack fits
      have depth := stops rfl
      rw [height] at depth
      rw [depth] at restOk
      refine ⟨plugAll fs n, rfl, (avlOk_plugAll fs n).mpr ⟨nOk, restOk⟩, same, ?_⟩
      rw [depth_plugAll, ← depth]
      exact Nat.le_max_left _ _
    | false =>
      obtain ⟨t', result, ok', nodes', depth'⟩ := ih restOk nOk upper lower small
      refine ⟨t', result, ok', ?_, ?_⟩
      · rw [nodes', ← same, entries_plugAll]
      · rw [List.length_cons]
        omega

end Rebalancing

end VBox.Runtime
