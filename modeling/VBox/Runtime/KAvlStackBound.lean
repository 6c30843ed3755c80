import VBox.Runtime.KAvlDoWithAll

/-!
How many nodes the stack of the AVL functions allows.

`KAVL_MAX_STACK` is 27, "up to 2^24 nodes". A tree of 28 levels is what overflows the stack
(`stackOk_iff`), and it takes 832039 nodes. Every AVL search tree can be built by insertions
(`reachable_of_avlOk`): its deepest leaf is put in last, and no rotation happens on the way.
-/

namespace VBox.Runtime

open VBox.Lib List

variable {κ δ : Type} [LinearOrder κ]

/-! ### Following a way down -/

section Way

variable {range : Bool} {pNode : KAvlEntry κ δ} {fs gs : KAvlStack κ δ} {t : KAvlTree κ δ}

/-- The search of `Insert` takes the way that the nodes around it leave it. -/
theorem insertSearch_way (valid : pNode.Key ≤ lastKey range pNode)
    (keys : ∀ a ∈ entriesBefore fs, a.Key ≤ lastKey range a) (aims : Aims range pNode fs)
    (stack : (fs ++ gs).length ≤ kAvlMaxStack) :
    insertSearch range pNode (plugAll fs t) gs = insertSearch range pNode t (fs ++ gs) := by
  induction fs generalizing t with
  | nil => rfl
  | cons f fs ih =>
    rw [cons_append, length_cons] at stack
    have room : ¬ kAvlMaxStack ≤ (fs ++ gs).length := by omega
    rw [plugAll]
    cases f with
    | left p right =>
      have behind : Precedes range pNode p.entry :=
        aims.behind p.entry (by rw [entriesAfter_left]; exact mem_cons_self ..)
      have outer : Aims range pNode fs := by
        refine ⟨aims.before, fun a member => aims.behind a ?_⟩
        rw [entriesAfter_left]
        exact mem_append_right _ member
      have apart :
          ¬ isIntersecting range p.entry.Key pNode.Key p.entry.KeyLast pNode.KeyLast = true :=
        behind.not_intersects'
      rw [ih keys outer (by omega), Frame.plug, insertSearch, if_neg room, if_neg apart,
        if_pos (lt_of_le_of_lt valid behind)]
      rfl
    | right p left =>
      have member : p.entry ∈ entriesBefore (.right p left :: fs) := by
        rw [entriesBefore_right]
        simp
      have before : Precedes range p.entry pNode := aims.before p.entry member
      have further (a : KAvlEntry κ δ) (member : a ∈ entriesBefore fs) :
          a ∈ entriesBefore (.right p left :: fs) := by
        rw [entriesBefore_right]
        exact mem_append_left _ member
      have outer : Aims range pNode fs :=
        ⟨fun a member => aims.before a (further a member), aims.behind⟩
      have greater : p.entry.Key < pNode.Key := lt_of_le_of_lt (keys p.entry member) before
      have apart :
          ¬ isIntersecting range p.entry.Key pNode.Key p.entry.KeyLast pNode.KeyLast = true :=
        before.not_intersects
      rw [ih (fun a member => keys a (further a member)) outer (by omega), Frame.plug,
        insertSearch, if_neg room, if_neg apart, if_neg greater.not_gt]
      rfl

/-- The nodes around a node of a search tree are in order about it. -/
theorem SearchTree.aims {a : KAvlEntry κ δ} {xs ys : List (KAvlEntry κ δ)}
    (sorted : SearchTree range (entriesBefore fs ++ (xs ++ a :: ys) ++ entriesAfter fs)) :
    Aims range a fs := by
  obtain ⟨inner, -, behind⟩ := pairwise_append.mp sorted.ordered
  obtain ⟨-, -, before⟩ := pairwise_append.mp inner
  constructor
  · exact fun b member => before b member a (by simp)
  · exact fun b member => behind a (by simp) b member

end Way

/-! ### The deepest leaf -/

/-- The leaf that `Insert` puts into the tree. -/
def leafOf (a : KAvlEntry κ δ) : KAvlTree κ δ := .node ⟨a, 1⟩ .null .null

/-- The tree `t` is what becomes of an AVL tree when a leaf is put into its hole: `Rebalance`
changes heights only, and goes on behind `t` if that became deeper. -/
structure GrowsTo (fs : KAvlStack κ δ) (a : KAvlEntry κ δ) (t : KAvlTree κ δ) : Prop where
  ok : AvlOk (plugAll fs .null)
  nodes : entriesBefore fs ++ a :: entriesAfter fs = entries t
  deepest : fs.length + 1 = t.depth
  rebalances : ((plugAll fs .null).depth + 1 = t.depth ∧
      ∀ gs, rebalance (fs ++ gs) (leafOf a) = rebalance gs t) ∨
    ((plugAll fs .null).depth = t.depth ∧
      ∀ gs, rebalance (fs ++ gs) (leafOf a) = some (plugAll gs t))

omit [LinearOrder κ] in
theorem rebalanceNode_balanced {p : KAvlNode κ δ} {left right : KAvlTree κ δ}
    (leftOk : AvlOk left) (rightOk : AvlOk right) (low : left.depth ≤ right.depth + 1)
    (high : right.depth ≤ left.depth + 1) (small : max left.depth right.depth + 1 < 256) :
    rebalanceNode (.node p left right) =
      some (decide (p.uchHeight = max left.depth right.depth + 1),
        .node { p with uchHeight := max left.depth right.depth + 1 } left right) := by
  rw [rebalanceNode.eq_def]
  dsimp only
  rw [heightOf_eq leftOk, heightOf_eq rightOk, if_neg (by omega), if_neg (by omega),
    uchar_of_lt small]
  by_cases same : p.uchHeight = max left.depth right.depth + 1
  · rw [if_pos same.symm, decide_eq_true same, ← same]
  · rw [if_neg (Ne.symm same), decide_eq_false same]

/-- The frame with another height in its node. -/
def withHeight (h : Nat) : Frame (KAvlNode κ δ) → Frame (KAvlNode κ δ)
  | .left p sibling => .left { p with uchHeight := h } sibling
  | .right p sibling => .right { p with uchHeight := h } sibling

section Grow

variable {f : Frame (KAvlNode κ δ)} {fs gs : KAvlStack κ δ} {t : KAvlTree κ δ} {a : KAvlEntry κ δ}
  {h : Nat}

omit [LinearOrder κ] in
@[simp] theorem sibling_withHeight : (withHeight h f).sibling = f.sibling := by
  cases f <;> rfl

omit [LinearOrder κ] in
@[simp] theorem uchHeight_withHeight : (withHeight h f).node.uchHeight = h := by
  cases f <;> rfl

omit [LinearOrder κ] in
theorem entriesBefore_withHeight : entriesBefore [withHeight h f] = entriesBefore [f] := by
  cases f with
  | left p sibling => rfl
  | right p sibling => simp [withHeight, entriesBefore, before]

omit [LinearOrder κ] in
theorem entriesAfter_withHeight : entriesAfter [withHeight h f] = entriesAfter [f] := by
  cases f <;> rfl

omit [LinearOrder κ] in
theorem plugAll_append (fs gs : KAvlStack κ δ) (t : KAvlTree κ δ) :
    plugAll (fs ++ gs) t = plugAll gs (plugAll fs t) := by
  induction fs generalizing t with
  | nil => rfl
  | cons f fs ih => exact ih (f.plug t)

omit [LinearOrder κ] in
/-- A node with a wrong height, whose tree is right otherwise. -/
theorem rebalanceNode_withHeight (ok : AvlOk (f.plug t)) (small : (f.plug t).depth < 256) :
    rebalanceNode ((withHeight h f).plug t) = some (decide (h = (f.plug t).depth), f.plug t) := by
  cases f with
  | left p right =>
    obtain ⟨height, low, high, leftOk, rightOk⟩ := ok
    have same : ({ p with uchHeight := max t.depth right.depth + 1 } : KAvlNode κ δ) = p := by
      rw [← height]
    rw [withHeight, Frame.plug, rebalanceNode_balanced leftOk rightOk low high small, same]
    rfl
  | right p left =>
    obtain ⟨height, low, high, leftOk, rightOk⟩ := ok
    have same : ({ p with uchHeight := max left.depth t.depth + 1 } : KAvlNode κ δ) = p := by
      rw [← height]
    rw [withHeight, Frame.plug, rebalanceNode_balanced leftOk rightOk low high small, same]
    rfl

omit [LinearOrder κ] in
/-- A tree that grows from a leaf on its deeper side. -/
theorem GrowsTo.plug (grows : GrowsTo fs a t) (ok : AvlOk (f.plug t))
    (deeper : f.sibling.depth ≤ t.depth) (small : (f.plug t).depth < 256) :
    GrowsTo (fs ++ [withHeight (max (plugAll fs .null).depth f.sibling.depth + 1) f]) a
      (f.plug t) := by
  obtain ⟨tOk, height, low, high, siblingOk⟩ := (avlOk_plug f t).mp ok
  set f' := withHeight (max (plugAll fs .null).depth f.sibling.depth + 1) f with hf'
  have near : (plugAll fs .null).depth ≤ t.depth ∧ t.depth ≤ (plugAll fs .null).depth + 1 := by
    rcases grows.rebalances with ⟨depth, -⟩ | ⟨depth, -⟩ <;> omega
  have old : plugAll (fs ++ [f']) .null = f'.plug (plugAll fs .null) := plugAll_append fs [f'] .null
  have oldDepth : (plugAll (fs ++ [f']) .null).depth =
      max (plugAll fs .null).depth f.sibling.depth + 1 := by
    rw [old, depth_plug, hf', sibling_withHeight]
  have depth := depth_plug f t
  have step : rebalanceNode (f'.plug t) = _ := rebalanceNode_withHeight ok small
  constructor
  · rw [old, avlOk_plug, hf', sibling_withHeight, uchHeight_withHeight]
    exact ⟨grows.ok, rfl, by omega, by omega, siblingOk⟩
  · have whole := entries_plugAll [f] t
    rw [entriesBefore_append, entriesAfter_append, hf', entriesBefore_withHeight,
      entriesAfter_withHeight]
    rw [plugAll, plugAll, ← grows.nodes] at whole
    rw [whole]
    simp
  · have deepest := grows.deepest
    rw [length_append, length_singleton]
    omega
  · rw [oldDepth]
    rcases grows.rebalances with ⟨less, run⟩ | ⟨same, run⟩
    · have next (gs : KAvlStack κ δ) :
          rebalance (fs ++ [f'] ++ gs) (leafOf a) = rebalance (f' :: gs) t := by
        rw [append_assoc, run]
        rfl
      by_cases level : f.sibling.depth = t.depth
      · rw [decide_eq_true (by omega)] at step
        exact .inr ⟨by omega, fun gs => by rw [next, rebalance, step]⟩
      · rw [decide_eq_false (by omega)] at step
        exact .inl ⟨by omega, fun gs => by rw [next, rebalance, step]⟩
    · have heights : withHeight (max (plugAll fs .null).depth f.sibling.depth + 1) f = f := by
        rw [same, ← height]
        cases f <;> rfl
      refine .inr ⟨by omega, fun gs => ?_⟩
      rw [append_assoc, run, hf', heights]
      rfl

omit [LinearOrder κ] in
/-- Every AVL tree grows from its deepest leaf. -/
theorem exists_growsTo (ok : AvlOk t) (some : t ≠ .null) (small : t.depth < 256) :
    ∃ fs a, GrowsTo fs a t := by
  induction t with
  | null => exact absurd rfl some
  | node p left right leftIh rightIh =>
    have whole := ok
    obtain ⟨height, low, high, leftOk, rightOk⟩ := whole
    have depth : (Lib.Tree.node p left right).depth = max left.depth right.depth + 1 := rfl
    by_cases leftward : right.depth ≤ left.depth
    · cases hl : left with
      | null =>
        have none : right = .null := by
          cases right with
          | null => rfl
          | node r rightLeft rightRight =>
            rw [hl] at leftward
            simp [Lib.Tree.depth] at leftward
        subst hl none
        have leaf : (⟨p.entry, 1⟩ : KAvlNode κ δ) = p := by
          cases p
          cases height
          rfl
        refine ⟨[], p.entry, trivial, rfl, rfl, .inl ⟨rfl, fun gs => ?_⟩⟩
        rw [leafOf, leaf, nil_append]
      | node l leftLeft leftRight =>
        have some : left ≠ .null := by
          rw [hl]
          intro same
          cases same
        rw [← hl]
        obtain ⟨fs, a, grows⟩ := leftIh leftOk some (by omega)
        exact ⟨_, a, grows.plug (f := .left p right) ok leftward small⟩
    · have some : right ≠ .null := by
        rintro rfl
        simp [Lib.Tree.depth] at leftward
      obtain ⟨fs, a, grows⟩ := rightIh rightOk some (by omega)
      refine ⟨_, a, grows.plug (f := .right p left) ok (Nat.le_of_not_le leftward) small⟩

end Grow

/-! ### Reachable trees -/

/-- Every AVL search tree that the stack allows to be built is what insertions make of the empty
tree. -/
theorem reachable_of_avlOk {range : Bool} {t : KAvlTree κ δ} (ok : AvlOk t)
    (sorted : SearchTree range (entries t)) (levels : t.depth ≤ kAvlMaxStack + 1) :
    ∃ calls, Run (KAvlReturns range) .null calls t := by
  induction size : (entries t).length using Nat.strong_induction_on generalizing t with
  | _ _ ih =>
  cases same : t with
  | null => exact ⟨[], .done _⟩
  | node p left right =>
    rw [← same]
    have some : t ≠ .null := by
      rw [same]
      intro h
      cases h
    have small : kAvlMaxStack = 27 := rfl
    obtain ⟨fs, a, grows⟩ := exists_growsTo ok some (by omega)
    have old : entries (plugAll fs .null) = entriesBefore fs ++ entriesAfter fs := by
      rw [entries_plugAll, entries, Lib.Tree.inorder, map_nil, append_nil]
    rw [← grows.nodes] at sorted size
    have valid : a.Key ≤ lastKey range a := sorted.valid a (by simp)
    have oldSorted : SearchTree range (entries (plugAll fs .null)) := by
      rw [old]
      exact sorted.sublist ((sublist_cons_self _ _).append_left _)
    have oldDepth : (plugAll fs .null).depth ≤ t.depth := by
      rcases grows.rebalances with ⟨depth, -⟩ | ⟨depth, -⟩ <;> omega
    have fewer : (entries (plugAll fs .null)).length <
        (entriesBefore fs ++ a :: entriesAfter fs).length := by
      rw [old, length_append, length_append, length_cons]
      omega
    obtain ⟨calls, run⟩ := ih _ (size ▸ fewer) grows.ok oldSorted (by omega) rfl
    have deepest := grows.deepest
    have search : insertSearch range a (plugAll fs .null) [] = Option.some (Option.some fs) := by
      have around : SearchTree range (entriesBefore fs ++ ([] ++ a :: []) ++ entriesAfter fs) := by
        simpa using sorted
      have aims : Aims range a fs := around.aims
      have way : insertSearch range a (plugAll fs .null) [] =
          insertSearch range a .null (fs ++ []) :=
        insertSearch_way valid (fun b member => sorted.valid b (mem_append_left _ member)) aims
          (by rw [append_nil]; omega)
      rw [way, append_nil, insertSearch]
    have balanced : rebalance fs (leafOf a) = Option.some t := by
      rcases grows.rebalances with ⟨-, run⟩ | ⟨-, run⟩
      · have whole := run []
        rwa [append_nil, rebalance] at whole
      · have whole := run []
        rwa [append_nil, plugAll] at whole
    have notEmpty : ¬ (range = true ∧ a.KeyLast < a.Key) := by
      rintro ⟨rfl, empty⟩
      exact absurd valid (not_le_of_gt empty)
    refine ⟨calls ++ [(.insert a, .inserted true)], run.snoc ?_⟩
    rw [KAvlReturns, KAvlOp.exec, kAvlInsert, if_neg notEmpty, search]
    change ((rebalance fs (leafOf a)).map _).map _ = _
    rw [balanced]
    rfl

/-! ### When the stack suffices -/

/-- No function that walks the tree with a stack uses an entry beyond it. -/
structure StackOk (range : Bool) (t : KAvlTree κ δ) : Prop where
  insert : ∀ pNode, kAvlInsert range t pNode ≠ none
  remove : ∀ Key, kAvlRemove t Key ≠ none
  doWithAll : ∀ (σ : Type) (pfnCallBack : KAvlCallback κ δ σ) (pvParam : σ) (fFromLeft : Bool),
    kAvlDoWithAll t fFromLeft pfnCallBack pvParam ≠ none
  destroy : ∀ (σ : Type) (pfnCallBack : KAvlCallback κ δ σ) (pvUser : σ),
    kAvlDestroy t pfnCallBack pvUser ≠ none

/-- The stack is large enough for every tree of at most so many nodes that calls build. -/
def StackSuffices (κ δ : Type) [LinearOrder κ] (range : Bool) (limit : Nat) : Prop :=
  ∀ (calls : List (KAvlCall κ δ)) (t : KAvlTree κ δ), Run (KAvlReturns range) .null calls t →
    (entries t).length ≤ limit → StackOk range t

omit [LinearOrder κ] in
theorem exists_deepest {t : KAvlTree κ δ} (some : t ≠ .null) :
    ∃ fs p left right, plugAll fs (.node p left right) = t ∧ fs.length + 1 = t.depth := by
  induction t with
  | null => exact absurd rfl some
  | node p left right leftIh rightIh =>
    have depth : (Lib.Tree.node p left right).depth = max left.depth right.depth + 1 := rfl
    rcases Nat.eq_zero_or_pos (max left.depth right.depth) with single | deeper
    · exact ⟨[], p, left, right, rfl, by rw [length_nil]; omega⟩
    · by_cases leftward : right.depth ≤ left.depth
      · obtain ⟨fs, q, left', right', whole, length⟩ := leftIh (by
          rintro rfl
          simp only [Lib.Tree.depth] at leftward deeper
          omega)
        refine ⟨fs ++ [.left p right], q, left', right', ?_, ?_⟩
        · rw [plugAll_append, whole]
          rfl
        · rw [length_append, length_singleton]
          omega
      · obtain ⟨fs, q, left', right', whole, length⟩ := rightIh (by
          rintro rfl
          simp only [Lib.Tree.depth] at leftward
          omega)
        refine ⟨fs ++ [.right p left], q, left', right', ?_, ?_⟩
        · rw [plugAll_append, whole]
          rfl
        · rw [length_append, length_singleton]
          omega

/-- The stack is large enough just for the trees of at most 27 levels. -/
theorem stackOk_iff {range : Bool} {t : KAvlTree κ δ} (ok : KAvlOk range t) :
    StackOk range t ↔ t.depth ≤ kAvlMaxStack := by
  constructor
  · intro enough
    by_contra deep
    have some : t ≠ .null := by
      rintro rfl
      exact deep (Nat.zero_le _)
    obtain ⟨fs, p, left, right, whole, length⟩ := exists_deepest some
    have sorted := ok.sorted
    rw [← whole, entries_plugAll, entries_node] at sorted
    have valid : p.entry.Key ≤ lastKey range p.entry := sorted.valid _ (by simp)
    have notEmpty : ¬ (range = true ∧ p.entry.KeyLast < p.entry.Key) := by
      rintro ⟨rfl, empty⟩
      exact absurd valid (not_le_of_gt empty)
    have levels := ok.depth
    have way : insertSearch range p.entry t [] =
        insertSearch range p.entry (.node p left right) (fs ++ []) := by
      rw [← whole]
      refine insertSearch_way valid (fun b member => sorted.valid b ?_) sorted.aims ?_
      · exact mem_append_left _ (mem_append_left _ member)
      · rw [append_nil]
        omega
    refine enough.insert p.entry ?_
    rw [kAvlInsert, if_neg notEmpty, way, append_nil, insertSearch, if_pos (by omega)]
  · intro levels
    refine ⟨fun pNode run => ?_, fun Key run => ?_,
      fun _ _ pvParam fFromLeft => kAvlDoWithAll_fits levels fFromLeft pvParam,
      fun _ _ pvUser => kAvlDestroy_fits levels pvUser⟩
    · rcases kAvlInsert_spec ok pNode with ⟨-, deep⟩ | ⟨run', -⟩ | ⟨t', run', -⟩
      · omega
      · cases run'.symm.trans run
      · cases run'.symm.trans run
    · rcases kAvlRemove_spec ok Key with ⟨-, deep⟩ | ⟨run', -⟩ | ⟨p, t', run', -⟩
      · omega
      · cases run'.symm.trans run
      · cases run'.symm.trans run

/-! ### The tree with the fewest nodes -/

/-- The AVL tree of so many levels with the fewest nodes, numbered from `i` on. -/
def sparseTree (node : Nat → KAvlEntry κ δ) : Nat → Nat → KAvlTree κ δ
  | 0, _ => .null
  | 1, i => .node ⟨node i, 1⟩ .null .null
  | h + 2, i =>
    .node ⟨node (i + (Nat.fib (h + 3) - 1)), h + 2⟩ (sparseTree node (h + 1) i)
      (sparseTree node h (i + Nat.fib (h + 3)))

section Sparse

variable (node : Nat → KAvlEntry κ δ)

omit [LinearOrder κ] in
theorem depth_sparseTree (h i : Nat) : (sparseTree node h i).depth = h := by
  induction h using Nat.strong_induction_on generalizing i with
  | _ h ih =>
  match h with
  | 0 => rfl
  | 1 => rfl
  | h + 2 =>
    rw [sparseTree, Lib.Tree.depth, ih (h + 1) (by omega), ih h (by omega)]
    omega

omit [LinearOrder κ] in
theorem avlOk_sparseTree (h i : Nat) : AvlOk (sparseTree node h i) := by
  induction h using Nat.strong_induction_on generalizing i with
  | _ h ih =>
  match h with
  | 0 => trivial
  | 1 => exact ⟨rfl, Nat.zero_le _, Nat.zero_le _, trivial, trivial⟩
  | h + 2 =>
    rw [sparseTree, AvlOk, depth_sparseTree, depth_sparseTree]
    refine ⟨?_, by omega, by omega, ih (h + 1) (by omega) _, ih h (by omega) _⟩
    rw [Nat.max_eq_left (Nat.le_succ h)]

omit [LinearOrder κ] in
theorem entries_sparseTree (h i : Nat) :
    entries (sparseTree node h i) = (range' i (Nat.fib (h + 2) - 1)).map node := by
  induction h using Nat.strong_induction_on generalizing i with
  | _ h ih =>
  match h with
  | 0 => rfl
  | 1 => rfl
  | h + 2 =>
    have some : 0 < Nat.fib (h + 3) := Nat.fib_pos.mpr (by omega)
    have some' : 0 < Nat.fib (h + 2) := Nat.fib_pos.mpr (by omega)
    have size : Nat.fib (h + 2 + 2) - 1 = (Nat.fib (h + 3) - 1) + (1 + (Nat.fib (h + 2) - 1)) := by
      have step : Nat.fib (h + 2 + 2) = Nat.fib (h + 2) + Nat.fib (h + 3) := Nat.fib_add_two
      omega
    rw [sparseTree, entries_node, ih (h + 1) (by omega), ih h (by omega), size,
      ← range'_append_1, ← range'_append_1, range'_one, map_append,
      map_append, map_singleton, singleton_append]
    rw [show i + (Nat.fib (h + 3) - 1) + 1 = i + Nat.fib (h + 3) by omega]

end Sparse

/-- A tree of 28 levels with 832039 nodes can be built. -/
theorem exists_sparse (key : Fin 832039 ↪o κ) (data : δ) (range : Bool) :
    ∃ (calls : List (KAvlCall κ δ)) (t : KAvlTree κ δ), Run (KAvlReturns range) .null calls t ∧
      (entries t).length = 832039 ∧ t.depth = kAvlMaxStack + 1 := by
  set node : Nat → KAvlEntry κ δ :=
    fun i => ⟨key (Fin.ofNat 832039 i), key (Fin.ofNat 832039 i), data⟩
  have count : Nat.fib (28 + 2) - 1 = 832039 := by decide +kernel
  have nodes : entries (sparseTree node 28 0) = (range' 0 832039).map node := by
    rw [entries_sparseTree, count]
  have last (i : Nat) : lastKey range (node i) = key (Fin.ofNat 832039 i) := by
    cases range <;> rfl
  have sorted : SearchTree range (entries (sparseTree node 28 0)) := by
    rw [nodes]
    constructor
    · intro a member
      obtain ⟨i, -, rfl⟩ := List.mem_map.mp member
      rw [last]
    · have increasing : (range' 0 832039).Pairwise (· < ·) := pairwise_lt_range'
      refine pairwise_map.mpr (increasing.imp_of_mem fun {i j} inI inJ less => ?_)
      rw [mem_range'_1] at inI inJ
      rw [Precedes, last]
      refine key.lt_iff_lt.mpr (Fin.lt_def.mpr ?_)
      rw [Fin.val_ofNat, Fin.val_ofNat, Nat.mod_eq_of_lt (by omega), Nat.mod_eq_of_lt (by omega)]
      exact less
  obtain ⟨calls, run⟩ := reachable_of_avlOk (avlOk_sparseTree node 28 0) sorted
    (depth_sparseTree node 28 0).le
  refine ⟨calls, _, run, ?_, depth_sparseTree node 28 0⟩
  rw [nodes, length_map, length_range']

/-- A reachable tree has right heights and is in order. -/
theorem kAvlOk_of_run {range : Bool} {calls : List (KAvlCall κ δ)} {t : KAvlTree κ δ}
    (run : Run (KAvlReturns range) .null calls t) : KAvlOk range t :=
  run.invariant (KAvlOk range) (fun ok returns => (call_spec ok returns).ok) kAvlOk_null

/-- The reachable trees are all AVL search trees of up to 28 levels. -/
theorem exists_run_iff (range : Bool) (t : KAvlTree κ δ) :
    (∃ calls, Run (KAvlReturns range) .null calls t) ↔ KAvlOk range t := by
  constructor
  · rintro ⟨_, run⟩
    exact kAvlOk_of_run run
  · intro ok
    exact reachable_of_avlOk ok.avl ok.sorted ok.depth

/-- Where there are keys enough, trees of 832039 nodes can be too high. -/
theorem not_stackSuffices (key : Fin 832039 ↪o κ) (data : δ) (range : Bool) {limit : Nat}
    (many : 832039 ≤ limit) : ¬ StackSuffices κ δ range limit := by
  intro enough
  obtain ⟨calls, t, run, count, depth⟩ := exists_sparse key data range
  have levels := (stackOk_iff (kAvlOk_of_run run)).mp (enough calls t run (by omega))
  omega

/-- The stack suffices for 832038 nodes, and for no more where the keys do not run out. -/
theorem stackSuffices_iff (key : Fin 832039 ↪o κ) (data : δ) (range : Bool) (limit : Nat) :
    StackSuffices κ δ range limit ↔ limit < 832039 := by
  constructor
  · intro enough
    by_contra many
    exact not_stackSuffices key data range (Nat.le_of_not_lt many) enough
  · intro few calls t run count
    have ok := kAvlOk_of_run run
    exact (stackOk_iff ok).mpr (kAvlOk_small ok (by omega))

/-- `RTAvlrU64`: there are trees of fewer than 2^24 nodes that overflow the stack. -/
theorem not_stackSuffices_twoPow : ¬ StackSuffices (Fin (2 ^ 64)) Unit true (2 ^ 24) :=
  not_stackSuffices (Fin.castLEOrderEmb (by decide)) () true (by decide)

end VBox.Runtime
