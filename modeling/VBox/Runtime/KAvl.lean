import VBox.Lib.Zipper

/-!
AVL trees with unique keys (`Runtime/common/table/avl_Base.cpp.h` and the files
included with it).

The functions are a template: `range` says whether `KAVL_RANGE` is defined. A link
address on the stack of the code is here the way from that link up to the root, a
list of frames; changing what a link points to is plugging another tree into it.
`none` stands for a stack entry beyond `KAVL_MAX_STACK`, or a `NULL` dereference.
-/

namespace VBox.Runtime

open VBox.Lib

variable {κ δ : Type} [LinearOrder κ]

/-- The caller's part of a node: its key, the end of its range and the structure
around it. -/
structure KAvlEntry (κ δ : Type) where
  Key : κ
  KeyLast : κ
  data : δ
  deriving DecidableEq, Repr

/-- `KAVLNODECORE` without its links. -/
structure KAvlNode (κ δ : Type) where
  entry : KAvlEntry κ δ
  uchHeight : Nat
  deriving DecidableEq, Repr

abbrev KAvlTree (κ δ : Type) := Lib.Tree (KAvlNode κ δ)

abbrev KAvlStack (κ δ : Type) := List (Frame (KAvlNode κ δ))

def kAvlMaxStack : Nat := 27

/-- A value stored in an `unsigned char`. -/
def uchar (n : Nat) : Nat := n % 256

/-- `AVL_HEIGHTOF`. -/
def heightOf : KAvlTree κ δ → Nat
  | .null => 0
  | .node a _ _ => a.uchHeight

/-- `KAVL_R_IS_INTERSECTING`. -/
def isIntersecting (range : Bool) (key1B key2B key1E key2E : κ) : Bool :=
  if range then decide (key1B ≤ key2E) && decide (key2B ≤ key1E) else decide (key1B = key2B)

/-- `KAVL_R_IS_IN_RANGE`. -/
def isInRange (key1B key1E key2 : κ) : Bool := decide (key1B ≤ key2) && decide (key2 ≤ key1E)

/-! ### Rebalancing -/

/-- One node of `Rebalance`. The flag says that the height was right already, where
the loop ends. -/
def rebalanceNode : KAvlTree κ δ → Option (Bool × KAvlTree κ δ)
  | .null => none
  | .node p left right =>
      if heightOf right + 1 < heightOf left then
        match left with
        | .null => none
        | .node l leftLeft leftRight =>
            if heightOf leftRight ≤ heightOf leftLeft then
              let uchHeight := uchar (1 + heightOf leftRight)
              some (false, .node { l with uchHeight := uchar (1 + uchHeight) } leftLeft
                (.node { p with uchHeight := uchHeight } leftRight right))
            else
              match leftRight with
              | .null => none
              | .node lr leftRightLeft leftRightRight =>
                  some (false, .node { lr with uchHeight := l.uchHeight }
                    (.node { l with uchHeight := lr.uchHeight } leftLeft leftRightLeft)
                    (.node { p with uchHeight := lr.uchHeight } leftRightRight right))
      else if heightOf left + 1 < heightOf right then
        match right with
        | .null => none
        | .node r rightLeft rightRight =>
            if heightOf rightLeft ≤ heightOf rightRight then
              let uchHeight := uchar (1 + heightOf rightLeft)
              some (false, .node { r with uchHeight := uchar (1 + uchHeight) }
                (.node { p with uchHeight := uchHeight } left rightLeft) rightRight)
            else
              match rightLeft with
              | .null => none
              | .node rl rightLeftLeft rightLeftRight =>
                  some (false, .node { rl with uchHeight := r.uchHeight }
                    (.node { p with uchHeight := rl.uchHeight } left rightLeftLeft)
                    (.node { r with uchHeight := rl.uchHeight } rightLeftRight rightRight))
      else
        let uchHeight := uchar (max (heightOf left) (heightOf right) + 1)
        if uchHeight = p.uchHeight then some (true, .node p left right)
        else some (false, .node { p with uchHeight := uchHeight } left right)

/-- `Rebalance`: up the stack, until a height is right. -/
def rebalance : KAvlStack κ δ → KAvlTree κ δ → Option (KAvlTree κ δ)
  | [], t => some t
  | f :: fs, t =>
      match rebalanceNode (f.plug t) with
      | none => none
      | some (true, n) => some (plugAll fs n)
      | some (false, n) => rebalance fs n

/-! ### Insertion -/

/-- The search of `Insert`: the stack at the empty link, `some none` where a node
intersects the new one. -/
def insertSearch (range : Bool) (pNode : KAvlEntry κ δ) :
    KAvlTree κ δ → KAvlStack κ δ → Option (Option (KAvlStack κ δ))
  | .null, fs => some (some fs)
  | .node p left right, fs =>
      if kAvlMaxStack ≤ fs.length then none
      else if isIntersecting range p.entry.Key pNode.Key p.entry.KeyLast pNode.KeyLast then
        some none
      else if pNode.Key < p.entry.Key then insertSearch range pNode left (.left p right :: fs)
      else insertSearch range pNode right (.right p left :: fs)

/-- `Insert`. -/
def kAvlInsert (range : Bool) (t : KAvlTree κ δ) (pNode : KAvlEntry κ δ) :
    Option (Bool × KAvlTree κ δ) :=
  if range = true ∧ pNode.KeyLast < pNode.Key then some (false, t)
  else
    match insertSearch range pNode t [] with
    | none => none
    | some none => some (false, t)
    | some (some fs) => (rebalance fs (.node ⟨pNode, 1⟩ .null .null)).map fun t' => (true, t')

/-! ### Removal -/

/-- The search of `Remove`: the stack above the node with the key, the node and its
subtrees. -/
def removeSearch (Key : κ) : KAvlTree κ δ → KAvlStack κ δ →
    Option (Option (KAvlStack κ δ × KAvlNode κ δ × KAvlTree κ δ × KAvlTree κ δ))
  | .null, _ => some none
  | .node p left right, fs =>
      if kAvlMaxStack ≤ fs.length then none
      else if p.entry.Key = Key then some (some (fs, p, left, right))
      else if Key < p.entry.Key then removeSearch Key left (.left p right :: fs)
      else removeSearch Key right (.right p left :: fs)

/-- The rightmost node of the left subtree: the frames from its link up to the
subtree's, the node and its left subtree. `cEntries` is the number of entries on
the stack before. -/
def leftLeast (cEntries : Nat) : KAvlNode κ δ → KAvlTree κ δ → KAvlTree κ δ → KAvlStack κ δ →
    Option (KAvlStack κ δ × KAvlNode κ δ × KAvlTree κ δ)
  | p, left, .null, fs => some (fs, p, left)
  | p, left, .node q left' right', fs =>
      if kAvlMaxStack ≤ cEntries + fs.length then none
      else leftLeast cEntries q left' right' (.right p left :: fs)

/-- `Remove`. The stack entry of the left subtree is patched in any case: it has to
be inside the array. -/
def kAvlRemove (t : KAvlTree κ δ) (Key : κ) : Option (Option (KAvlEntry κ δ) × KAvlTree κ δ) :=
  match removeSearch Key t [] with
  | none => none
  | some none => some (none, t)
  | some (some (fs, p, .null, right)) => (rebalance fs right).map fun t' => (some p.entry, t')
  | some (some (fs, p, .node l leftLeft leftRight, right)) =>
      let iStackEntry := fs.length + 1
      match leftLeast iStackEntry l leftLeft leftRight [] with
      | none => none
      | some (inner, q, rest) =>
          if kAvlMaxStack ≤ iStackEntry then none
          else
            let replaced := Frame.left { q with uchHeight := p.uchHeight } right
            (rebalance (inner ++ replaced :: fs) rest).map fun t' => (some p.entry, t')

/-! ### Lookups and what is built on them -/

/-- `RangeGet`. -/
def kAvlRangeGet (Key : κ) : KAvlTree κ δ → Option (KAvlEntry κ δ)
  | .null => none
  | .node p left right =>
      if isInRange p.entry.Key p.entry.KeyLast Key then some p.entry
      else if Key < p.entry.Key then kAvlRangeGet Key left
      else kAvlRangeGet Key right

/-- `RangeRemove`. -/
def kAvlRangeRemove (t : KAvlTree κ δ) (Key : κ) :
    Option (Option (KAvlEntry κ δ) × KAvlTree κ δ) :=
  match kAvlRangeGet Key t with
  | some pNode => kAvlRemove t pNode.Key
  | none => some (none, t)

/-- The loop of `GetBestFit` for `fAbove`; `pNodeLast` is where it last turned
left. -/
def getBestFitAbove (Key : κ) : KAvlTree κ δ → Option (KAvlEntry κ δ) → Option (KAvlEntry κ δ)
  | .null, pNodeLast => pNodeLast
  | .node p left right, pNodeLast =>
      if p.entry.Key = Key then some p.entry
      else if Key < p.entry.Key then getBestFitAbove Key left (some p.entry)
      else getBestFitAbove Key right pNodeLast

/-- The other loop of `GetBestFit`; `pNodeLast` is where it last turned right. -/
def getBestFitBelow (Key : κ) : KAvlTree κ δ → Option (KAvlEntry κ δ) → Option (KAvlEntry κ δ)
  | .null, pNodeLast => pNodeLast
  | .node p left right, pNodeLast =>
      if p.entry.Key = Key then some p.entry
      else if Key < p.entry.Key then getBestFitBelow Key left pNodeLast
      else getBestFitBelow Key right (some p.entry)

/-- `GetBestFit`. -/
def kAvlGetBestFit (t : KAvlTree κ δ) (Key : κ) (fAbove : Bool) : Option (KAvlEntry κ δ) :=
  if fAbove then getBestFitAbove Key t none else getBestFitBelow Key t none

/-- `RemoveBestFit`. -/
def kAvlRemoveBestFit (t : KAvlTree κ δ) (Key : κ) (fAbove : Bool) :
    Option (Option (KAvlEntry κ δ) × KAvlTree κ δ) :=
  match kAvlGetBestFit t Key fAbove with
  | some pNode => kAvlRemove t pNode.Key
  | none => some (none, t)

/-! ### Calls -/

/-- A call; `RangeRemove` exists in the range variant only. -/
inductive KAvlOp (κ δ : Type) where
  | insert (pNode : KAvlEntry κ δ)
  | remove (Key : κ)
  | rangeRemove (Key : κ)
  | removeBestFit (Key : κ) (fAbove : Bool)

/-- What a call returns: whether it inserted, or the node it removed. -/
inductive KAvlResult (κ δ : Type) where
  | inserted (ok : Bool)
  | removed (pNode : Option (KAvlEntry κ δ))

def KAvlOp.exec (range : Bool) (t : KAvlTree κ δ) :
    KAvlOp κ δ → Option (KAvlResult κ δ × KAvlTree κ δ)
  | .insert pNode => (kAvlInsert range t pNode).map fun r => (.inserted r.1, r.2)
  | .remove Key => (kAvlRemove t Key).map fun r => (.removed r.1, r.2)
  | .rangeRemove Key => (kAvlRangeRemove t Key).map fun r => (.removed r.1, r.2)
  | .removeBestFit Key fAbove =>
      (kAvlRemoveBestFit t Key fAbove).map fun r => (.removed r.1, r.2)

end VBox.Runtime
