import VBox.Runtime.KAvlBalance

/-!
Insertion and removal on the in-order list.

`SearchTree` says that the stored ranges are valid, disjoint and in order. Insertion
puts the new node at its place between them, or finds one that it intersects
(`kAvlInsert_spec`); removal takes one node out (`kAvlRemove_spec`). Either runs out
of stack only in a tree of more than `kAvlMaxStack` levels.
-/

namespace VBox.Runtime

open List (length_cons mem_append mem_cons pairwise_append)
open VBox.Lib

variable {κ δ : Type} [LinearOrder κ]

/-! ### The order of the nodes -/

/-- The end of the range of a node; in the plain variant the range is the key. -/
def lastKey (range : Bool) (a : KAvlEntry κ δ) : κ := if range then a.KeyLast else a.Key

/-- The range of `a` lies before that of `b`. -/
def Precedes (range : Bool) (a b : KAvlEntry κ δ) : Prop := lastKey range a < b.Key

/-- The ranges are valid, disjoint and in order. -/
structure SearchTree (range : Bool) (nodes : List (KAvlEntry κ δ)) : Prop where
  valid : ∀ a ∈ nodes, a.Key ≤ lastKey range a
  ordered : nodes.Pairwise (Precedes range)

/-- The two nodes intersect, as `Insert` tests it. -/
def Intersects (range : Bool) (a pNode : KAvlEntry κ δ) : Prop :=
  isIntersecting range a.Key pNode.Key a.KeyLast pNode.KeyLast = true

section Order

variable {range : Bool} {a b pNode : KAvlEntry κ δ} {nodes : List (KAvlEntry κ δ)}

theorem intersects_iff :
    Intersects range a pNode ↔ a.Key ≤ lastKey range pNode ∧ pNode.Key ≤ lastKey range a := by
  cases range with
  | true => simp [Intersects, isIntersecting, lastKey]
  | false =>
    simp only [Intersects, isIntersecting, lastKey, Bool.false_eq_true, if_false, decide_eq_true_eq]
    exact le_antisymm_iff

theorem Precedes.not_intersects (before : Precedes range a pNode) : ¬ Intersects range a pNode := by
  intro meets
  exact absurd before (not_lt_of_ge (intersects_iff.mp meets).2)

theorem Precedes.not_intersects' (behind : Precedes range pNode a) :
    ¬ Intersects range a pNode := by
  intro meets
  exact absurd behind (not_lt_of_ge (intersects_iff.mp meets).1)

/-- Nodes in order have their keys in order. -/
theorem SearchTree.keys (sorted : SearchTree range nodes) :
    nodes.Pairwise fun a b => a.Key < b.Key := by
  refine (List.pairwise_and_iff.mpr ⟨sorted.ordered, List.pairwise_of_forall_mem_list
    (r := fun a _ => a.Key ≤ lastKey range a) fun a member _ _ =>
      sorted.valid a member⟩).imp ?_
  rintro a b ⟨precedes, valid⟩
  exact lt_of_le_of_lt valid precedes

theorem SearchTree.sublist {nodes' : List (KAvlEntry κ δ)} (sorted : SearchTree range nodes)
    (sub : List.Sublist nodes' nodes) : SearchTree range nodes' :=
  ⟨fun a member => sorted.valid a (sub.subset member), sorted.ordered.sublist sub⟩

/-- A new node between those before and those behind it. -/
theorem SearchTree.insert {xs ys : List (KAvlEntry κ δ)} (sorted : SearchTree range (xs ++ ys))
    (valid : pNode.Key ≤ lastKey range pNode) (before : ∀ a ∈ xs, Precedes range a pNode)
    (behind : ∀ a ∈ ys, Precedes range pNode a) : SearchTree range (xs ++ pNode :: ys) := by
  obtain ⟨firstOrdered, restOrdered, across⟩ := pairwise_append.mp sorted.ordered
  constructor
  · intro a member
    rcases mem_append.mp member with first | rest
    · exact sorted.valid a (List.mem_append_left _ first)
    · rcases mem_cons.mp rest with rfl | rest
      · exact valid
      · exact sorted.valid a (List.mem_append_right _ rest)
  · refine pairwise_append.mpr ⟨firstOrdered, List.pairwise_cons.mpr ⟨behind, restOrdered⟩, ?_⟩
    intro a first b rest
    rcases mem_cons.mp rest with rfl | rest
    · exact before a first
    · exact across a first b rest

end Order

/-! ### The way to a hole -/

section Ways

variable {fs gs : KAvlStack κ δ} {p : KAvlNode κ δ} {left right t : KAvlTree κ δ}

omit [LinearOrder κ] in
theorem entriesBefore_left : entriesBefore (.left p right :: fs) = entriesBefore fs := rfl

omit [LinearOrder κ] in
theorem entriesAfter_left :
    entriesAfter (.left p right :: fs) = p.entry :: entries right ++ entriesAfter fs := by
  simp [entriesAfter, after, entries]

omit [LinearOrder κ] in
theorem entriesBefore_right :
    entriesBefore (.right p left :: fs) = entriesBefore fs ++ (entries left ++ [p.entry]) := by
  simp [entriesBefore, before, entries]

omit [LinearOrder κ] in
theorem entriesBefore_append (fs gs : KAvlStack κ δ) :
    entriesBefore (fs ++ gs) = entriesBefore gs ++ entriesBefore fs := by
  induction fs with
  | nil => simp [entriesBefore, before]
  | cons f fs ih =>
    cases f with
    | left p right => exact ih
    | right p left =>
      rw [List.cons_append, entriesBefore_right, ih, entriesBefore_right, List.append_assoc]

omit [LinearOrder κ] in
theorem entriesAfter_append (fs gs : KAvlStack κ δ) :
    entriesAfter (fs ++ gs) = entriesAfter fs ++ entriesAfter gs := by
  induction fs with
  | nil => simp [entriesAfter, after]
  | cons f fs ih =>
    cases f with
    | left p right =>
      rw [List.cons_append, entriesAfter_left, ih, entriesAfter_left, List.append_assoc]
    | right p left => exact ih

/-- What the search below a hole may rely on: the nodes around it are in order
about the key that is looked for. -/
structure Aims (range : Bool) (pNode : KAvlEntry κ δ) (fs : KAvlStack κ δ) : Prop where
  before : ∀ a ∈ entriesBefore fs, Precedes range a pNode
  behind : ∀ a ∈ entriesAfter fs, Precedes range pNode a

/-- The search of `Insert` ends at an empty link with the nodes in order about the
new one, or at a node that intersects it. -/
theorem insertSearch_spec {range : Bool} {pNode : KAvlEntry κ δ}
    (valid : pNode.Key ≤ lastKey range pNode) (sorted : SearchTree range (entries (plugAll fs t)))
    (aims : Aims range pNode fs) (stack : fs.length ≤ kAvlMaxStack) :
    (insertSearch range pNode t fs = none ∧ kAvlMaxStack < fs.length + t.depth) ∨
    (insertSearch range pNode t fs = some none ∧ ∃ a ∈ entries t, Intersects range a pNode) ∨
    (∃ gs, insertSearch range pNode t fs = some (some gs) ∧ Aims range pNode gs ∧
      plugAll gs .null = plugAll fs t ∧ gs.length ≤ kAvlMaxStack) := by
  induction t generalizing fs with
  | null => exact Or.inr (Or.inr ⟨fs, rfl, aims, rfl, stack⟩)
  | node p left right leftIh rightIh =>
    rw [insertSearch]
    split
    · rename_i full
      refine Or.inl ⟨rfl, ?_⟩
      rw [Lib.Tree.depth]
      omega
    rename_i room
    split
    · rename_i meets
      refine Or.inr (Or.inl ⟨rfl, p.entry, ?_, meets⟩)
      rw [entries_node]
      exact List.mem_append_right _ (List.mem_cons_self ..)
    rename_i apart
    have whole := sorted
    rw [entries_plugAll, entries_node] at whole
    have pValid := whole.valid p.entry (by simp)
    have inner := (pairwise_append.mp (pairwise_append.mp whole.ordered).1).2.1
    obtain ⟨-, pRight, leftAcross⟩ := pairwise_append.mp inner
    have behindP := (List.pairwise_cons.mp pRight).1
    have stack' : fs.length + 1 ≤ kAvlMaxStack := by omega
    have notMeets : ¬ (p.entry.Key ≤ lastKey range pNode ∧ pNode.Key ≤ lastKey range p.entry) :=
      fun both => apart (intersects_iff.mpr both)
    split
    · -- to the left: the new range ends before this node
      rename_i less
      have ends : lastKey range pNode < p.entry.Key := by
        by_contra reaches
        exact notMeets ⟨not_lt.mp reaches, less.le.trans pValid⟩
      have aims' : Aims range pNode (.left p right :: fs) := by
        refine ⟨aims.before, fun a member => ?_⟩
        rw [entriesAfter_left] at member
        rcases mem_append.mp member with near | far
        · rcases mem_cons.mp near with rfl | inRight
          · exact ends
          · exact ends.trans (lt_of_le_of_lt pValid (behindP a inRight))
        · exact aims.behind a far
      rcases leftIh sorted aims' stack' with ⟨run, deep⟩ | ⟨run, a, member, meets⟩ | found
      · refine Or.inl ⟨run, ?_⟩
        rw [length_cons] at deep
        rw [Lib.Tree.depth]
        omega
      · refine Or.inr (Or.inl ⟨run, a, ?_, meets⟩)
        rw [entries_node]
        exact List.mem_append_left _ member
      · exact Or.inr (Or.inr found)
    · -- to the right: this node ends before the new range
      rename_i notLess
      have starts : lastKey range p.entry < pNode.Key := by
        by_contra reaches
        exact notMeets ⟨(not_lt.mp notLess).trans valid, not_lt.mp reaches⟩
      have aims' : Aims range pNode (.right p left :: fs) := by
        refine ⟨fun a member => ?_, aims.behind⟩
        rw [entriesBefore_right] at member
        rcases mem_append.mp member with far | near
        · exact aims.before a far
        · rcases mem_append.mp near with inLeft | same
          · have across := leftAcross a inLeft p.entry (List.mem_cons_self ..)
            exact across.trans (lt_of_le_of_lt pValid starts)
          · rw [List.mem_singleton] at same
            subst same
            exact starts
      rcases rightIh sorted aims' stack' with ⟨run, deep⟩ | ⟨run, a, member, meets⟩ | found
      · refine Or.inl ⟨run, ?_⟩
        rw [length_cons] at deep
        rw [Lib.Tree.depth]
        omega
      · refine Or.inr (Or.inl ⟨run, a, ?_, meets⟩)
        rw [entries_node]
        exact List.mem_append_right _ (List.mem_cons_of_mem _ member)
      · exact Or.inr (Or.inr found)

/-- The search of `Remove` ends at the node with the key, or knows that there is
none. -/
theorem removeSearch_spec {range : Bool} {Key : κ}
    (sorted : SearchTree range (entries (plugAll fs t)))
    (below : ∀ a ∈ entriesBefore fs, a.Key ≠ Key) (above : ∀ a ∈ entriesAfter fs, a.Key ≠ Key)
    (stack : fs.length ≤ kAvlMaxStack) :
    (removeSearch Key t fs = none ∧ kAvlMaxStack < fs.length + t.depth) ∨
    (removeSearch Key t fs = some none ∧ ∀ a ∈ entries (plugAll fs t), a.Key ≠ Key) ∨
    (∃ gs p left right, removeSearch Key t fs = some (some (gs, p, left, right)) ∧
      p.entry.Key = Key ∧ plugAll gs (.node p left right) = plugAll fs t ∧
      gs.length < kAvlMaxStack) := by
  induction t generalizing fs with
  | null =>
    refine Or.inr (Or.inl ⟨rfl, fun a member => ?_⟩)
    rw [entries_plugAll] at member
    simp only [entries, Lib.Tree.inorder, List.map_nil, List.append_nil] at member
    rcases mem_append.mp member with first | last
    · exact below a first
    · exact above a last
  | node p left right leftIh rightIh =>
    rw [removeSearch]
    split
    · rename_i full
      refine Or.inl ⟨rfl, ?_⟩
      rw [Lib.Tree.depth]
      omega
    rename_i room
    split
    · rename_i same
      exact Or.inr (Or.inr ⟨fs, p, left, right, rfl, same, rfl, Nat.lt_of_not_le room⟩)
    rename_i differs
    have whole := sorted
    rw [entries_plugAll, entries_node] at whole
    have inner := (pairwise_append.mp (pairwise_append.mp whole.keys).1).2.1
    obtain ⟨-, pRight, leftAcross⟩ := pairwise_append.mp inner
    have behindP := (List.pairwise_cons.mp pRight).1
    have stack' : fs.length + 1 ≤ kAvlMaxStack := by omega
    split
    · rename_i less
      have above' : ∀ a ∈ entriesAfter (.left p right :: fs), a.Key ≠ Key := by
        intro a member
        rw [entriesAfter_left] at member
        rcases mem_append.mp member with near | far
        · rcases mem_cons.mp near with rfl | inRight
          · exact differs
          · exact (less.trans (behindP a inRight)).ne'
        · exact above a far
      have below' : ∀ a ∈ entriesBefore (.left p right :: fs), a.Key ≠ Key := below
      rcases leftIh sorted below' above' stack' with ⟨run, deep⟩ | found
      · refine Or.inl ⟨run, ?_⟩
        rw [length_cons] at deep
        rw [Lib.Tree.depth]
        omega
      · exact Or.inr found
    · rename_i notLess
      have greater : p.entry.Key < Key := lt_of_le_of_ne (not_lt.mp notLess) differs
      have below' : ∀ a ∈ entriesBefore (.right p left :: fs), a.Key ≠ Key := by
        intro a member
        rw [entriesBefore_right] at member
        rcases mem_append.mp member with far | near
        · exact below a far
        · rcases mem_append.mp near with inLeft | same
          · have across := leftAcross a inLeft p.entry (List.mem_cons_self ..)
            exact (across.trans greater).ne
          · rw [List.mem_singleton] at same
            subst same
            exact differs
      rcases rightIh sorted below' above stack' with ⟨run, deep⟩ | found
      · refine Or.inl ⟨run, ?_⟩
        rw [length_cons] at deep
        rw [Lib.Tree.depth]
        omega
      · exact Or.inr found

omit [LinearOrder κ] in
/-- The rightmost node of a tree. -/
theorem leftLeast_spec {cEntries : Nat} (stack : cEntries + fs.length ≤ kAvlMaxStack) :
    (leftLeast cEntries p left right fs = none ∧
      kAvlMaxStack < cEntries + fs.length + right.depth) ∨
    (∃ gs q rest, leftLeast cEntries p left right fs = some (gs, q, rest) ∧
      plugAll gs (.node q rest .null) = plugAll fs (.node p left right) ∧
      entriesAfter gs = entriesAfter fs) := by
  induction right generalizing p left fs with
  | null => exact Or.inr ⟨fs, p, left, rfl, rfl, rfl⟩
  | node q left' right' _ ih =>
    rw [leftLeast]
    split
    · refine Or.inl ⟨rfl, ?_⟩
      rw [Lib.Tree.depth]
      omega
    · have stack' : cEntries + (Frame.right p left :: fs).length ≤ kAvlMaxStack := by
        rw [length_cons]
        omega
      rcases ih stack' with ⟨run, deep⟩ | ⟨gs, q', rest, run, same, behind⟩
      · refine Or.inl ⟨run, ?_⟩
        rw [length_cons] at deep
        rw [Lib.Tree.depth]
        omega
      · exact Or.inr ⟨gs, q', rest, run, same, behind⟩

end Ways

end VBox.Runtime
