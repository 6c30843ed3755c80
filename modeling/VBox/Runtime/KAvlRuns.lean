import VBox.Lib.Run
import VBox.Runtime.KAvlOps

/-!
Runs of calls on an AVL tree.

`run_treeOk` says what holds of the tree after every sequence of calls that starts
with the empty tree and never needs more stack than there is: heights, order, the
nodes in the tree, and when `Insert` fails. A tree of at most 832038 nodes always has
enough stack. `insert_many_overflows` inserts 2^28 nodes, which cannot all fit.
-/

namespace VBox.Runtime

open VBox.Lib

variable {κ δ : Type} [LinearOrder κ]

/-- The tree is an AVL tree and a search tree, at most one level higher than the
stack. -/
structure KAvlOk (range : Bool) (t : KAvlTree κ δ) : Prop where
  avl : AvlOk t
  sorted : SearchTree range (entries t)
  depth : t.depth ≤ kAvlMaxStack + 1

/-- `Insert` refuses the node: its range is empty, or intersects a stored one. -/
def Refused (range : Bool) (t : KAvlTree κ δ) (pNode : KAvlEntry κ δ) : Prop :=
  range = true ∧ pNode.KeyLast < pNode.Key ∨ ∃ a ∈ entries t, Intersects range a pNode

section Calls

variable {range : Bool} {t : KAvlTree κ δ}

theorem kAvlInsert_spec (ok : KAvlOk range t) (pNode : KAvlEntry κ δ) :
    (kAvlInsert range t pNode = none ∧ kAvlMaxStack < t.depth) ∨
    (kAvlInsert range t pNode = some (false, t) ∧ Refused range t pNode) ∨
    (∃ t', kAvlInsert range t pNode = some (true, t') ∧ ¬ Refused range t pNode ∧
      KAvlOk range t' ∧ (entries t').Perm (pNode :: entries t)) := by
  rw [kAvlInsert]
  split
  · rename_i empty
    exact Or.inr (Or.inl ⟨rfl, Or.inl empty⟩)
  rename_i nonempty
  have valid : pNode.Key ≤ lastKey range pNode := by
    cases range with
    | true => exact not_lt.mp fun less => nonempty ⟨rfl, less⟩
    | false => exact le_refl _
  have aims : Aims range pNode ([] : KAvlStack κ δ) := by
    constructor
    · intro a member
      cases member
    · intro a member
      cases member
  have sorted : SearchTree range (entries (plugAll [] t)) := ok.sorted
  rcases insertSearch_spec valid sorted aims (Nat.zero_le _) with
    ⟨run, deep⟩ | ⟨run, a, member, meets⟩ | ⟨gs, run, aims', same, stack⟩
  · refine Or.inl ⟨by rw [run], ?_⟩
    rwa [List.length_nil, Nat.zero_add] at deep
  · exact Or.inr (Or.inl ⟨by rw [run], Or.inr ⟨a, member, meets⟩⟩)
  · right
    right
    rw [plugAll] at same
    have avl := ok.avl
    rw [← same, avlOk_plugAll] at avl
    have depth := congrArg Lib.Tree.depth same
    rw [depth_plugAll] at depth
    have shallow := ok.depth
    unfold kAvlMaxStack at stack shallow
    have nodes := congrArg entries same
    rw [entries_plugAll] at nodes
    simp only [entries, Lib.Tree.inorder, List.map_nil, List.append_nil] at nodes
    have leafOk : AvlOk (.node ⟨pNode, 1⟩ .null .null : KAvlTree κ δ) :=
      ⟨rfl, Nat.zero_le _, Nat.zero_le _, trivial, trivial⟩
    have low : (Lib.Tree.node (⟨pNode, 1⟩ : KAvlNode κ δ) .null .null).depth = 1 := rfl
    simp only [Lib.Tree.depth] at avl depth
    obtain ⟨t', result, ok', nodes', depth'⟩ :=
      rebalance_spec avl.2 leafOk (by rw [low]) (by rw [low]; omega) (by omega)
    rw [low] at depth'
    have placed : entries t' = entriesBefore gs ++ pNode :: entriesAfter gs := by
      rw [nodes']
      simp [entries, Lib.Tree.inorder]
    have sorted := ok.sorted
    rw [entries, ← nodes] at sorted
    refine ⟨t', by rw [run]; dsimp only; rw [result]; rfl, ?_, ⟨ok', ?_, ?_⟩, ?_⟩
    · rintro (empty | ⟨a, member, meets⟩)
      · exact nonempty empty
      · rw [entries, ← nodes] at member
        rcases List.mem_append.mp member with first | last
        · exact (aims'.before a first).not_intersects meets
        · exact (aims'.behind a last).not_intersects' meets
    · rw [placed]
      exact sorted.insert valid aims'.before aims'.behind
    · unfold kAvlMaxStack
      omega
    · rw [placed, entries, ← nodes]
      exact List.perm_middle

/-- One node is taken out of the list, the others stay in order. -/
def TakesOut (t t' : KAvlTree κ δ) (p : KAvlEntry κ δ) : Prop :=
  ∃ xs ys, entries t = xs ++ p :: ys ∧ entries t' = xs ++ ys

theorem TakesOut.sorted {t' : KAvlTree κ δ} {p : KAvlEntry κ δ} (takes : TakesOut t t' p)
    (sorted : SearchTree range (entries t)) : SearchTree range (entries t') := by
  obtain ⟨xs, ys, before, after⟩ := takes
  rw [before] at sorted
  rw [after]
  refine sorted.sublist ?_
  exact List.Sublist.append_left (List.sublist_cons_self ..) xs

theorem kAvlRemove_spec (ok : KAvlOk range t) (Key : κ) :
    (kAvlRemove t Key = none ∧ kAvlMaxStack < t.depth) ∨
    (kAvlRemove t Key = some (none, t) ∧ ∀ a ∈ entries t, a.Key ≠ Key) ∨
    (∃ p t', kAvlRemove t Key = some (some p, t') ∧ p.Key = Key ∧ KAvlOk range t' ∧
      TakesOut t t' p) := by
  have nowhere : ∀ a ∈ ([] : List (KAvlEntry κ δ)), a.Key ≠ Key := by
    intro a member
    cases member
  have sorted : SearchTree range (entries (plugAll [] t)) := ok.sorted
  rcases removeSearch_spec sorted nowhere nowhere (Nat.zero_le _) with
    ⟨run, deep⟩ | ⟨run, absent⟩ | ⟨fs, p, left, right, run, key, same, stack⟩
  · refine Or.inl ⟨by rw [kAvlRemove, run], ?_⟩
    rwa [List.length_nil, Nat.zero_add] at deep
  · exact Or.inr (Or.inl ⟨by rw [kAvlRemove, run], absent⟩)
  rw [plugAll] at same
  have avl := ok.avl
  rw [← same, avlOk_plugAll] at avl
  obtain ⟨⟨height, low, high, leftOk, rightOk⟩, framesOk⟩ := avl
  have depth := congrArg Lib.Tree.depth same
  rw [depth_plugAll] at depth
  have up := add_length_le_rootDepth fs (Lib.Tree.node p left right).depth
  have shallow := ok.depth
  unfold kAvlMaxStack at stack shallow
  have nodes := congrArg entries same
  rw [entries_plugAll, entries_node] at nodes
  cases left with
  | null =>
    -- the right subtree moves up
    right
    right
    simp only [Lib.Tree.depth] at framesOk depth up low high
    have near : right.depth ≤ max 0 right.depth + 1 + 1 := by omega
    obtain ⟨t', result, ok', nodes', depth'⟩ :=
      rebalance_spec framesOk rightOk near (by omega) (by omega)
    refine ⟨p.entry, t', by rw [kAvlRemove, run]; dsimp only; rw [result]; rfl, key, ?_⟩
    have takes : TakesOut t t' p.entry := by
      refine ⟨entriesBefore fs, entries right ++ entriesAfter fs, ?_, ?_⟩
      · rw [← nodes]
        simp [entries, Lib.Tree.inorder]
      · rw [nodes', List.append_assoc]
    refine ⟨⟨ok', takes.sorted ok.sorted, ?_⟩, takes⟩
    unfold kAvlMaxStack
    omega
  | node l leftLeft leftRight =>
    simp only [Lib.Tree.depth] at framesOk depth up low high height
    have stack' : fs.length + 1 + ([] : KAvlStack κ δ).length ≤ kAvlMaxStack := stack
    have predecessor : (leftLeast (fs.length + 1) l leftLeft leftRight [] = none ∧ _) ∨ _ :=
      leftLeast_spec stack'
    rcases predecessor with ⟨run', deep⟩ | ⟨gs, q, rest, run', moved, behind⟩
    · refine Or.inl ⟨by rw [kAvlRemove, run]; dsimp only; rw [run'], ?_⟩
      rw [List.length_nil] at deep
      omega
    by_cases full : kAvlMaxStack ≤ fs.length + 1
    · refine Or.inl ⟨by rw [kAvlRemove, run]; dsimp only; rw [run']; exact if_pos full, ?_⟩
      omega
    -- the predecessor takes the place of the node
    right
    right
    rw [plugAll] at moved
    rw [← moved, avlOk_plugAll] at leftOk
    obtain ⟨⟨-, restLow, -, restOk, -⟩, innerOk⟩ := leftOk
    have leftDepth := congrArg Lib.Tree.depth moved
    rw [depth_plugAll] at leftDepth
    simp only [Lib.Tree.depth] at leftDepth innerOk restLow
    have allOk : FramesOk (gs ++ .left { q with uchHeight := p.uchHeight } right :: fs)
        (max rest.depth 0 + 1) := by
      rw [framesOk_append, leftDepth]
      exact ⟨innerOk, height, low, high, rightOk, framesOk⟩
    have allDepth : rootDepth (gs ++ .left { q with uchHeight := p.uchHeight } right :: fs)
        (max rest.depth 0 + 1) = t.depth := by
      rw [rootDepth_append, leftDepth]
      exact depth
    have allUp := add_length_le_rootDepth
      (gs ++ .left { q with uchHeight := p.uchHeight } right :: fs) (max rest.depth 0 + 1)
    obtain ⟨t', result, ok', nodes', depth'⟩ :=
      rebalance_spec allOk restOk (by omega) (by omega) (by omega)
    have takes : TakesOut t t' p.entry := by
      have leftNodes := congrArg entries moved
      rw [entries_plugAll, entries_node, behind] at leftNodes
      refine ⟨entriesBefore fs ++ entries (.node l leftLeft leftRight),
        entries right ++ entriesAfter fs, ?_, ?_⟩
      · rw [← nodes]
        simp
      · rw [nodes', entriesBefore_append, entriesAfter_append, behind, ← leftNodes, entriesBefore_left,
          entriesAfter_left]
        simp [entries, Lib.Tree.inorder, entriesAfter, after]
    refine ⟨p.entry, t', ?_, key, ⟨ok', takes.sorted ok.sorted, ?_⟩, takes⟩
    · rw [kAvlRemove, run]
      dsimp only
      rw [run']
      dsimp only
      rw [if_neg full, result]
      rfl
    · unfold kAvlMaxStack
      omega

end Calls

/-! ### One call -/

/-- A call with what it returned. -/
abbrev KAvlCall (κ δ : Type) := KAvlOp κ δ × KAvlResult κ δ

/-- The node the call put into the tree. -/
def insertedNode : KAvlCall κ δ → Option (KAvlEntry κ δ)
  | (.insert pNode, .inserted true) => some pNode
  | _ => none

/-- The node the call took out of the tree. -/
def removedNode : KAvlCall κ δ → Option (KAvlEntry κ δ)
  | (_, .removed pNode) => pNode
  | _ => none

/-- The call returns that result. -/
def KAvlReturns (range : Bool) (t : KAvlTree κ δ) (call : KAvlCall κ δ) (t' : KAvlTree κ δ) :
    Prop :=
  call.1.exec range t = some (call.2, t')

/-- What a call that returned did. -/
structure CallOk (range : Bool) (t : KAvlTree κ δ) (call : KAvlCall κ δ) (t' : KAvlTree κ δ) :
    Prop where
  ok : KAvlOk range t'
  nodes : ((insertedNode call).toList ++ entries t).Perm
    ((removedNode call).toList ++ entries t')

section Steps

variable {range : Bool} {t : KAvlTree κ δ}

omit [LinearOrder κ] in
theorem TakesOut.perm {t' : KAvlTree κ δ} {p : KAvlEntry κ δ} (takes : TakesOut t t' p) :
    (entries t).Perm (p :: entries t') := by
  obtain ⟨xs, ys, before, after⟩ := takes
  rw [before, after]
  exact List.perm_middle

section

variable (ok : KAvlOk range t) (op : KAvlOp κ δ)
  (plain : ∀ pNode, insertedNode (op, .removed pNode) = none)

include ok op plain

/-- A removal, by whatever function it was asked for. -/
theorem removal_spec (Key : κ)
    (exec : op.exec range t = (kAvlRemove t Key).map fun r => (.removed r.1, r.2)) :
    (op.exec range t = none ∧ kAvlMaxStack < t.depth) ∨
      ∃ result t', op.exec range t = some (result, t') ∧ CallOk range t (op, result) t' := by
  rcases kAvlRemove_spec ok Key with ⟨run, deep⟩ | ⟨run, -⟩ | ⟨p, t', run, -, ok', takes⟩
  · exact Or.inl ⟨by rw [exec, run]; rfl, deep⟩
  · refine Or.inr ⟨.removed none, t, by rw [exec, run]; rfl, ok, ?_⟩
    rw [plain]
    exact List.Perm.refl _
  · refine Or.inr ⟨.removed (some p), t', by rw [exec, run]; rfl, ok', ?_⟩
    rw [plain]
    exact takes.perm

/-- A removal that found nothing to remove. -/
theorem nothing_spec (exec : op.exec range t = some (.removed none, t)) :
    ∃ result t', op.exec range t = some (result, t') ∧ CallOk range t (op, result) t' := by
  refine ⟨.removed none, t, exec, ok, ?_⟩
  rw [plain]
  exact List.Perm.refl _

end

theorem exec_spec (ok : KAvlOk range t) (op : KAvlOp κ δ) :
    (op.exec range t = none ∧ kAvlMaxStack < t.depth) ∨
      ∃ result t', op.exec range t = some (result, t') ∧ CallOk range t (op, result) t' := by
  cases op with
  | insert pNode =>
    rcases kAvlInsert_spec ok pNode with ⟨run, deep⟩ | ⟨run, -⟩ | ⟨t', run, -, ok', nodes⟩
    · exact Or.inl ⟨by rw [KAvlOp.exec, run]; rfl, deep⟩
    · exact Or.inr ⟨.inserted false, t, by rw [KAvlOp.exec, run]; rfl, ok, List.Perm.refl _⟩
    · exact Or.inr ⟨.inserted true, t', by rw [KAvlOp.exec, run]; rfl, ok', nodes.symm⟩
  | remove Key => exact removal_spec ok _ (fun _ => rfl) Key rfl
  | rangeRemove Key =>
    cases found : kAvlRangeGet Key t with
    | none =>
      refine Or.inr (nothing_spec ok _ (fun _ => rfl) ?_)
      rw [KAvlOp.exec, kAvlRangeRemove, found]
      rfl
    | some pNode =>
      refine removal_spec ok _ (fun _ => rfl) pNode.Key ?_
      rw [KAvlOp.exec, kAvlRangeRemove, found]
  | removeBestFit Key fAbove =>
    cases found : kAvlGetBestFit t Key fAbove with
    | none =>
      refine Or.inr (nothing_spec ok _ (fun _ => rfl) ?_)
      rw [KAvlOp.exec, kAvlRemoveBestFit, found]
      rfl
    | some pNode =>
      refine removal_spec ok _ (fun _ => rfl) pNode.Key ?_
      rw [KAvlOp.exec, kAvlRemoveBestFit, found]

end Steps

/-! ### Runs -/

/-- What holds after a sequence of calls. -/
structure TreeOk (range : Bool) (calls : List (KAvlCall κ δ)) (t : KAvlTree κ δ) : Prop where
  heights : AvlOk t
  keys : (entries t).Pairwise fun a b => a.Key < b.Key
  disjoint : (entries t).Pairwise fun a b => ¬ Intersects range a b
  nodes : (calls.filterMap insertedNode).Perm (calls.filterMap removedNode ++ entries t)
  refuses : ∀ pNode ok t', kAvlInsert range t pNode = some (ok, t') →
    (ok = false ↔ Refused range t pNode) ∧ (ok = false → t' = t)
  defined : (entries t).length ≤ 832038 → ∀ op : KAvlOp κ δ, op.exec range t ≠ none

section Runs

variable {range : Bool} {t : KAvlTree κ δ}

theorem kAvlOk_null : KAvlOk range (.null : KAvlTree κ δ) := by
  refine ⟨trivial, ⟨?_, List.Pairwise.nil⟩, Nat.zero_le _⟩
  intro a member
  cases member

/-- One more call keeps the invariant and the balance of nodes. -/
theorem call_spec {t' : KAvlTree κ δ} {call : KAvlCall κ δ} (ok : KAvlOk range t)
    (returns : KAvlReturns range t call t') : CallOk range t call t' := by
  obtain ⟨op, result⟩ := call
  rcases exec_spec ok op with ⟨run, -⟩ | ⟨result', t'', run, callOk⟩
  · cases run.symm.trans returns
  · cases run.symm.trans returns
    exact callOk

theorem kAvlOk_small (ok : KAvlOk range t) (few : (entries t).length ≤ 832038) :
    t.depth ≤ kAvlMaxStack := by
  by_contra deep
  have size := ok.avl.balanced.fib_le
  have count : t.inorder.length = (entries t).length := (List.length_map _).symm
  have many : Nat.fib 30 ≤ Nat.fib (t.depth + 2) := by
    refine Nat.fib_mono ?_
    unfold kAvlMaxStack at deep
    omega
  have value : Nat.fib 30 = 832040 := by decide +kernel
  omega

theorem KAvlOk.treeOk (ok : KAvlOk range t) {calls : List (KAvlCall κ δ)}
    (nodes : (calls.filterMap insertedNode).Perm (calls.filterMap removedNode ++ entries t)) :
    TreeOk range calls t := by
  refine ⟨ok.avl, ok.sorted.keys, ok.sorted.ordered.imp ?_, nodes, ?_, ?_⟩
  · intro a b precedes meets
    exact Precedes.not_intersects precedes meets
  · intro pNode inserted t' run
    rcases kAvlInsert_spec ok pNode with ⟨run', -⟩ | ⟨run', refused⟩ | ⟨t'', run', accepted, -⟩
    · cases run'.symm.trans run
    · cases run'.symm.trans run
      exact ⟨iff_of_true rfl refused, fun _ => rfl⟩
    · cases run'.symm.trans run
      refine ⟨iff_of_false Bool.noConfusion accepted, fun impossible => ?_⟩
      cases impossible
  · intro few op overflow
    rcases exec_spec ok op with ⟨-, deep⟩ | ⟨result, t', run, -⟩
    · exact absurd (kAvlOk_small ok few) (Nat.not_le_of_lt deep)
    · cases run.symm.trans overflow

/-- After every sequence of calls on an initially empty tree that stays inside the
stack: an AVL search tree of disjoint ranges with exactly the nodes inserted and
not removed, where `Insert` refuses just the nodes it should. -/
theorem run_treeOk {calls : List (KAvlCall κ δ)}
    (run : Run (KAvlReturns range) .null calls t) : TreeOk range calls t := by
  have start : KAvlOk range (.null : KAvlTree κ δ) ∧
      (([] : List (KAvlCall κ δ)).filterMap insertedNode).Perm
        (([] : List (KAvlCall κ δ)).filterMap removedNode ++ entries .null) :=
    ⟨kAvlOk_null, List.Perm.refl _⟩
  have kept := run.history (fun past t => KAvlOk range t ∧
    (past.filterMap insertedNode).Perm (past.filterMap removedNode ++ entries t)) ?_ start
  · exact kept.1.treeOk kept.2
  · rintro past s call s' ⟨ok, nodes⟩ returns
    obtain ⟨ok', moved⟩ := call_spec ok returns
    refine ⟨ok', ?_⟩
    have one : ∀ f : KAvlCall κ δ → Option (KAvlEntry κ δ), [call].filterMap f = (f call).toList := by
      intro f
      cases result : f call with
      | none => simp [result]
      | some p => simp [result]
    rw [List.filterMap_append, List.filterMap_append, one, one, List.append_assoc]
    calc past.filterMap insertedNode ++ (insertedNode call).toList
        |>.Perm ((past.filterMap removedNode ++ entries s) ++ (insertedNode call).toList) :=
          nodes.append_right _
      _ |>.Perm (past.filterMap removedNode ++ ((insertedNode call).toList ++ entries s)) := by
          rw [List.append_assoc]
          exact List.perm_append_comm.append_left _
      _ |>.Perm _ := moved.append_left _

end Runs

/-! ### A concrete run -/

/-- Two ranges are inserted, a third that meets the first is refused. -/
def threeInserts : List (KAvlCall Nat Unit) :=
  [(.insert ⟨10, 19, ()⟩, .inserted true), (.insert ⟨30, 39, ()⟩, .inserted true),
    (.insert ⟨15, 25, ()⟩, .inserted false)]

theorem run_treeOk_three : ∃ t, Run (KAvlReturns true) .null threeInserts t ∧
    TreeOk true threeInserts t := by
  have run : Run (KAvlReturns true) .null threeInserts
      (.node ⟨⟨10, 19, ()⟩, 2⟩ .null (.node ⟨⟨30, 39, ()⟩, 1⟩ .null .null)) :=
    .next rfl (.next rfl (.next rfl (.done _)))
  exact ⟨_, run, run_treeOk run⟩

/-! ### More nodes than the stack allows -/

def manyNode (i : Nat) : KAvlEntry (Fin (2 ^ 64)) Unit :=
  ⟨Fin.ofNat (2 ^ 64) i, Fin.ofNat (2 ^ 64) i, ()⟩

theorem manyNode_apart {range : Bool} {i j : Nat} (small : i < 2 ^ 64) (small' : j < 2 ^ 64)
    (differ : i ≠ j) : ¬ Intersects range (manyNode i) (manyNode j) := by
  have last : ∀ k, lastKey range (manyNode k) = Fin.ofNat (2 ^ 64) k := by
    intro k
    cases range <;> rfl
  rw [intersects_iff, last, last]
  rintro ⟨low, high⟩
  have same : Fin.ofNat (2 ^ 64) i = Fin.ofNat (2 ^ 64) j := le_antisymm low high
  have values := congrArg Fin.val same
  rw [Fin.val_ofNat, Fin.val_ofNat, Nat.mod_eq_of_lt small, Nat.mod_eq_of_lt small'] at values
  exact differ values

/-- Inserting nodes with new keys one after the other. -/
theorem run_manyInserts {range : Bool} {calls : List (KAvlCall (Fin (2 ^ 64)) Unit)} {m n : Nat}
    {t t' : KAvlTree (Fin (2 ^ 64)) Unit} (ok : KAvlOk range t)
    (nodes : ∀ a ∈ entries t, ∃ i < n, a = manyNode i) (count : (entries t).length = n)
    (small : n + m ≤ 2 ^ 64)
    (ops : calls.map Prod.fst = (List.range' n m).map fun i => .insert (manyNode i))
    (run : Run (KAvlReturns range) t calls t') : KAvlOk range t' ∧ (entries t').length = n + m := by
  induction run generalizing m n with
  | done =>
    cases m with
    | zero => exact ⟨ok, count⟩
    | succ m => cases ops
  | @next s s' u call calls taken rest ih =>
    cases m with
    | zero => cases ops
    | succ m =>
      rw [List.range'_succ, List.map_cons, List.map_cons] at ops
      obtain ⟨first, others⟩ := List.cons.inj ops
      obtain ⟨op, result⟩ := call
      subst first
      have fresh : ¬ Refused range s (manyNode n) := by
        rintro (⟨-, empty⟩ | ⟨a, member, meets⟩)
        · exact lt_irrefl _ empty
        · obtain ⟨i, less, rfl⟩ := nodes a member
          exact manyNode_apart (by omega) (by omega) less.ne meets
      rcases kAvlInsert_spec ok (manyNode n) with
        ⟨run', -⟩ | ⟨-, refused⟩ | ⟨next, run', -, ok', grown⟩
      · rw [KAvlReturns, KAvlOp.exec, run'] at taken
        cases taken
      · exact absurd refused fresh
      · rw [KAvlReturns, KAvlOp.exec, run'] at taken
        cases taken
        have count' : (entries next).length = n + 1 := by
          rw [grown.length_eq, List.length_cons, count]
        have nodes' : ∀ a ∈ entries next, ∃ i < n + 1, a = manyNode i := by
          intro a member
          rcases List.mem_cons.mp (grown.subset member) with rfl | old
          · exact ⟨n, Nat.lt_succ_self n, rfl⟩
          · obtain ⟨i, less, same⟩ := nodes a old
            exact ⟨i, less.trans (Nat.lt_succ_self n), same⟩
        obtain ⟨okEnd, countEnd⟩ := ih ok' nodes' count' (by omega) others
        exact ⟨okEnd, by omega⟩

/-- No run inserts 2^28 different keys: a tree that holds them is higher than the
stack, so some insertion writes behind the end of it. -/
theorem insert_many_overflows : ¬ ∃ calls t,
    calls.map Prod.fst = (List.range' 0 (2 ^ 28)).map (fun i => KAvlOp.insert (manyNode i)) ∧
      Run (KAvlReturns true) .null calls t := by
  rintro ⟨calls, t, ops, run⟩
  have none : ∀ a ∈ entries (.null : KAvlTree (Fin (2 ^ 64)) Unit), ∃ i < 0, a = manyNode i := by
    intro a member
    cases member
  obtain ⟨ok, count⟩ := run_manyInserts kAvlOk_null none rfl (by decide) ops run
  have size := t.length_inorder_lt
  have same : t.inorder.length = (entries t).length := (List.length_map _).symm
  have levels : 2 ^ t.depth ≤ 2 ^ 28 := Nat.pow_le_pow_right Nat.two_pos ok.depth
  rw [same, count, Nat.zero_add] at size
  exact absurd levels (Nat.not_le_of_lt size)

end VBox.Runtime
