import VBox.Runtime.KAvlEqual

/-!
Runs of calls on an AVL tree with duplicate keys.

No node is lost, with pointers and with offsets alike, as long as `Destroy` is kept from trees with
duplicates if the links are offsets: it makes the end of a list a link to the address 0.
-/

namespace VBox.Runtime

open VBox.Lib List

variable {κ ν σ : Type} [LinearOrder κ]

/-- The stored nodes, those of one key together. -/
def treeNodes (t : KAvlEqualTree κ ν) : List ν := (entries t).flatMap fun a => a.data.all

/-- The tree is right, and every node hangs off the tree node with its key. -/
structure EqualOk (key : ν → κ) (t : KAvlEqualTree κ ν) : Prop where
  ok : KAvlOk false t
  keys : ∀ a ∈ entries t, ∀ p ∈ a.data.all, key p = a.Key

/-! ### Changing the list of a key -/

section Lists

variable {key : ν → κ} {fs : KAvlStack κ (KAvlEquals ν)} {p : KAvlNode κ (KAvlEquals ν)}
  {left right t : KAvlEqualTree κ ν} {e : KAvlEquals ν}

theorem searchTree_keys {δ : Type} {nodes : List (KAvlEntry κ δ)} :
    SearchTree false nodes ↔ (nodes.map KAvlEntry.Key).Pairwise (· < ·) := by
  rw [pairwise_map]
  exact ⟨fun sorted => sorted.ordered, fun ordered => ⟨fun _ _ => le_refl _, ordered⟩⟩

omit [LinearOrder κ] in
theorem entries_around (fs : KAvlStack κ (KAvlEquals ν)) (p : KAvlNode κ (KAvlEquals ν))
    (left right : KAvlEqualTree κ ν) : entries (plugAll fs (.node p left right)) =
      (entriesBefore fs ++ entries left) ++ p.entry :: (entries right ++ entriesAfter fs) := by
  rw [entries_plugAll, entries_node]
  simp

theorem EqualOk.withEquals (ok : EqualOk key (plugAll fs (.node p left right)))
    (keys : ∀ q ∈ e.all, key q = p.entry.Key) :
    EqualOk key (plugAll fs (.node (p.withEquals e) left right)) := by
  obtain ⟨⟨avl, sorted, depth⟩, old⟩ := ok
  refine ⟨⟨?_, ?_, ?_⟩, ?_⟩
  · rw [avlOk_plugAll] at avl ⊢
    exact avl
  · rw [searchTree_keys, entries_around] at sorted ⊢
    simpa [KAvlNode.withEquals] using sorted
  · rw [depth_plugAll] at depth ⊢
    exact depth
  · intro a member
    rw [entries_around] at member old
    rcases mem_append.mp member with before | behind
    · exact old a (mem_append_left _ before)
    · rcases mem_cons.mp behind with rfl | later
      · exact keys
      · exact old a (mem_append_right _ (mem_cons_of_mem _ later))

omit [LinearOrder κ] in
/-- The nodes that are stored beside those at one place. -/
theorem exists_treeNodes (fs : KAvlStack κ (KAvlEquals ν)) (left right : KAvlEqualTree κ ν) :
    ∃ others : List ν, ∀ p : KAvlNode κ (KAvlEquals ν),
      (treeNodes (plugAll fs (.node p left right))).Perm (p.entry.data.all ++ others) := by
  refine ⟨(entriesBefore fs ++ entries left).flatMap (fun a => a.data.all) ++
    (entries right ++ entriesAfter fs).flatMap (fun a => a.data.all), fun p => ?_⟩
  rw [treeNodes, entries_around, flatMap_append, flatMap_cons]
  exact perm_append_comm_assoc _ _ _

end Lists

/-! ### The searches -/

section Search

variable {key : ν → κ} {fs : KAvlStack κ (KAvlEquals ν)} {t : KAvlEqualTree κ ν} {Key : κ}

/-- The search of `Insert` finds what that of `Remove` finds, and an empty link where that of the
variant without duplicates does. -/
theorem equalSearch_cases (pNode : KAvlEntry κ (KAvlEquals ν)) (t : KAvlEqualTree κ ν)
    (fs : KAvlStack κ (KAvlEquals ν)) :
    (equalSearch pNode.Key t fs = none ∧ insertSearch false pNode t fs = none) ∨
    (∃ gs p left right, equalSearch pNode.Key t fs = some (.equal gs p left right) ∧
      plugAll gs (.node p left right) = plugAll fs t ∧ p.entry.Key = pNode.Key) ∨
    ∃ gs, equalSearch pNode.Key t fs = some (.free gs) ∧
      insertSearch false pNode t fs = some (some gs) := by
  induction t generalizing fs with
  | null => exact .inr (.inr ⟨fs, rfl, rfl⟩)
  | node p left right leftIh rightIh =>
    rw [equalSearch, insertSearch, isIntersecting]
    by_cases full : kAvlMaxStack ≤ fs.length
    · exact .inl ⟨if_pos full, if_pos full⟩
    rw [if_neg full, if_neg full]
    by_cases same : p.entry.Key = pNode.Key
    · exact .inr (.inl ⟨fs, p, left, right, if_pos same, rfl, same⟩)
    have apart : ¬ (if false = true then decide (p.entry.Key ≤ pNode.KeyLast) &&
        decide (pNode.Key ≤ p.entry.KeyLast) else decide (p.entry.Key = pNode.Key)) = true := by
      simpa using same
    rw [if_neg same, if_neg apart]
    by_cases less : pNode.Key < p.entry.Key
    · rw [if_pos less, if_pos less]
      exact leftIh _
    · rw [if_neg less, if_neg less]
      exact rightIh _

omit [LinearOrder κ] in
theorem locate_some [LinearOrder κ] {gs : KAvlStack κ (KAvlEquals ν)}
    {p : KAvlNode κ (KAvlEquals ν)} {left right : KAvlEqualTree κ ν}
    (found : locate Key t fs = some (gs, p, left, right)) :
    plugAll gs (.node p left right) = plugAll fs t ∧ p.entry.Key = Key := by
  induction t generalizing fs with
  | null => cases found
  | node q left' right' leftIh rightIh =>
    rw [locate] at found
    split at found
    · rename_i same
      cases found
      exact ⟨rfl, same⟩
    split at found
    · exact leftIh found
    · exact rightIh found

theorem locate_none (sorted : SearchTree false (entries t)) (missing : locate Key t fs = none) :
    ∀ a ∈ entries t, a.Key ≠ Key := by
  induction t generalizing fs with
  | null =>
    intro a member
    cases member
  | node p left right leftIh rightIh =>
    rw [locate] at missing
    split at missing
    · cases missing
    rename_i differs
    rw [entries_node] at sorted ⊢
    have keys := sorted.keys
    obtain ⟨-, pRight, across⟩ := pairwise_append.mp keys
    have behind := (pairwise_cons.mp pRight).1
    split at missing
    · rename_i less
      intro a member
      rcases mem_append.mp member with inLeft | inRight
      · exact leftIh (sorted.sublist (sublist_append_left _ _)) missing a inLeft
      · rcases mem_cons.mp inRight with rfl | inRight
        · exact differs
        · exact (less.trans (behind a inRight)).ne'
    · rename_i notLess
      have greater : p.entry.Key < Key := lt_of_le_of_ne (not_lt.mp notLess) differs
      intro a member
      rcases mem_append.mp member with inLeft | inRight
      · exact ((across a inLeft _ (mem_cons_self ..)).trans greater).ne
      · rcases mem_cons.mp inRight with rfl | inRight
        · exact differs
        · refine rightIh (sorted.sublist ?_) missing a inRight
          exact (sublist_cons_self _ _).trans (sublist_append_right _ _)

section

variable {last : Option (KAvlEntry κ (KAvlEquals ν))} {a : KAvlEntry κ (KAvlEquals ν)}

theorem getBestFitAbove_mem (found : getBestFitAbove Key t last = some a) :
    a ∈ entries t ∨ last = some a := by
  induction t generalizing last with
  | null => exact .inr found
  | node p left right leftIh rightIh =>
    rw [getBestFitAbove] at found
    rw [entries_node]
    split at found
    · cases found
      exact .inl (by simp)
    split at found
    · rcases leftIh found with inLeft | same
      · exact .inl (mem_append_left _ inLeft)
      · cases same
        exact .inl (by simp)
    · rcases rightIh found with inRight | same
      · exact .inl (mem_append_right _ (mem_cons_of_mem _ inRight))
      · exact .inr same

theorem getBestFitBelow_mem (found : getBestFitBelow Key t last = some a) :
    a ∈ entries t ∨ last = some a := by
  induction t generalizing last with
  | null => exact .inr found
  | node p left right leftIh rightIh =>
    rw [getBestFitBelow] at found
    rw [entries_node]
    split at found
    · cases found
      exact .inl (by simp)
    split at found
    · rcases leftIh found with inLeft | same
      · exact .inl (mem_append_left _ inLeft)
      · exact .inr same
    · rcases rightIh found with inRight | same
      · exact .inl (mem_append_right _ (mem_cons_of_mem _ inRight))
      · cases same
        exact .inl (by simp)

end

theorem kAvlGetBestFit_mem {fAbove : Bool} {a : KAvlEntry κ (KAvlEquals ν)}
    (found : kAvlGetBestFit t Key fAbove = some a) : a ∈ entries t := by
  rw [kAvlGetBestFit] at found
  split at found
  · exact (getBestFitAbove_mem found).resolve_right fun same => by cases same
  · exact (getBestFitBelow_mem found).resolve_right fun same => by cases same

end Search

/-! ### One call -/

section Calls

variable {key : ν → κ} {t : KAvlEqualTree κ ν}

omit [LinearOrder κ] in
theorem treeNodes_perm {t' : KAvlEqualTree κ ν} {nodes : List (KAvlEntry κ (KAvlEquals ν))}
    (perm : (entries t').Perm nodes) :
    (treeNodes t').Perm (nodes.flatMap fun a => a.data.all) :=
  perm.flatMap_right _

theorem kAvlInsertEqual_spec (ok : EqualOk key t) (pNode : ν) :
    (kAvlInsertEqual key t pNode = none ∧ kAvlMaxStack < t.depth) ∨
    ∃ t', kAvlInsertEqual key t pNode = some (true, t') ∧ EqualOk key t' ∧
      (treeNodes t').Perm (pNode :: treeNodes t) := by
  have insert := kAvlInsert_spec ok.ok (alone key pNode)
  rw [kAvlInsert, if_neg fun both => Bool.noConfusion both.1] at insert
  rw [kAvlInsertEqual]
  obtain ⟨search, search'⟩ | ⟨fs, p, left, right, search, whole, same⟩ | ⟨fs, search, search'⟩ :=
    equalSearch_cases (alone key pNode) t []
  · rw [search'] at insert
    rw [show equalSearch (key pNode) t [] = none from search]
    rcases insert with ⟨-, deep⟩ | ⟨run, -⟩ | ⟨t', run, -⟩
    · exact .inl ⟨rfl, deep⟩
    · cases run
    · cases run
  · rw [show equalSearch (key pNode) t [] = _ from search]
    rw [plugAll] at whole
    subst whole
    obtain ⟨others, nodes⟩ := exists_treeNodes fs left right
    refine .inr ⟨_, rfl, ok.withEquals fun q member => ?_, ?_⟩
    · have old := ok.keys p.entry (by rw [entries_around]; simp)
      rcases mem_cons.mp member with rfl | member
      · exact old _ (mem_cons_self ..)
      · rcases mem_cons.mp member with rfl | member
        · exact same.symm
        · exact old _ (mem_cons_of_mem _ member)
    · refine (nodes _).trans (Perm.trans ?_ ((nodes p).symm.cons pNode))
      exact Perm.swap pNode p.entry.data.pNode (p.entry.data.pList ++ others)
  · rw [search'] at insert
    rw [show equalSearch (key pNode) t [] = _ from search]
    rcases insert with ⟨run, deep⟩ | ⟨run, -⟩ | ⟨t', run, -, ok', nodes⟩
    · exact .inl ⟨run, deep⟩
    · obtain ⟨t', -, pair⟩ := Option.map_eq_some_iff.mp run
      cases pair
    · refine .inr ⟨t', run, ⟨ok', fun a member => ?_⟩, treeNodes_perm nodes⟩
      rcases mem_cons.mp (nodes.subset member) with rfl | old
      · intro q here
        rw [mem_singleton.mp here]
        rfl
      · exact ok.keys a old

/-- The only node of its key is taken out of the tree. -/
theorem EqualOk.remove (ok : EqualOk key t) {a : KAvlEntry κ (KAvlEquals ν)}
    (member : a ∈ entries t) (single : a.data.pList = []) :
    (kAvlRemove t a.Key = none ∧ kAvlMaxStack < t.depth) ∨
    ∃ t', kAvlRemove t a.Key = some (some a, t') ∧ EqualOk key t' ∧
      (treeNodes t).Perm (a.data.pNode :: treeNodes t') := by
  rcases kAvlRemove_spec ok.ok a.Key with
    run | ⟨-, absent⟩ | ⟨b, t', run, same, ok', xs, ys, before, after⟩
  · exact .inl run
  · exact absurd rfl (absent a member)
  · have there : b ∈ entries t := by
      rw [before]
      simp
    have keys := searchTree_keys.mp ok.ok.sorted
    have nodup : ((entries t).map KAvlEntry.Key).Nodup := keys.imp fun less => less.ne
    obtain rfl : b = a := inj_on_of_nodup_map nodup there member same
    refine .inr ⟨t', run, ⟨ok', fun c inside => ok.keys c ?_⟩, ?_⟩
    · rw [after] at inside
      rw [before]
      rcases mem_append.mp inside with first | last
      · exact mem_append_left _ first
      · exact mem_append_right _ (mem_cons_of_mem _ last)
    · have all : b.data.all = [b.data.pNode] := by rw [KAvlEquals.all, single]
      rw [treeNodes, treeNodes, before, after, flatMap_append, flatMap_cons, flatMap_append, all]
      exact perm_middle

variable [DecidableEq ν]

theorem kAvlRemoveNode_spec (ok : EqualOk key t) (pNode : ν) :
    (kAvlRemoveNode key t pNode = none ∧ kAvlMaxStack < t.depth) ∨
    (kAvlRemoveNode key t pNode = some (none, t) ∧ pNode ∉ treeNodes t) ∨
    ∃ t', kAvlRemoveNode key t pNode = some (some pNode, t') ∧ EqualOk key t' ∧
      (treeNodes t).Perm (pNode :: treeNodes t') := by
  rw [kAvlRemoveNode]
  cases search : locate (key pNode) t [] with
  | none =>
    refine .inr (.inl ⟨rfl, fun member => ?_⟩)
    obtain ⟨a, inside, here⟩ := mem_flatMap.mp member
    exact locate_none ok.ok.sorted search a inside (ok.keys a inside pNode here).symm
  | some place =>
    obtain ⟨fs, p, left, right⟩ := place
    obtain ⟨whole, same⟩ := locate_some search
    rw [plugAll] at whole
    subst whole
    obtain ⟨others, nodes⟩ := exists_treeNodes fs left right
    have inside : p.entry ∈ entries (plugAll fs (.node p left right)) := by
      rw [entries_around]
      simp
    have old := ok.keys p.entry inside
    dsimp only
    by_cases head : p.entry.data.pNode = pNode
    · rw [if_neg (not_not_intro head)]
      cases list : p.entry.data.pList with
      | nil =>
        dsimp only
        rw [← same]
        rcases ok.remove inside list with ⟨run, deep⟩ | ⟨t', run, ok', moved⟩
        · exact .inl ⟨by rw [run]; rfl, deep⟩
        · rw [head] at moved
          exact .inr (.inr ⟨t', by rw [run]; rfl, ok', moved⟩)
      | cons pNewUs pList =>
        refine .inr (.inr ⟨_, rfl, ok.withEquals fun q member => old q ?_, ?_⟩)
        · rw [KAvlEquals.all, list]
          exact mem_cons_of_mem _ member
        · refine (nodes p).trans (Perm.trans ?_ ((nodes _).symm.cons pNode))
          rw [KAvlEquals.all, list, head]
          exact Perm.refl _
    · rw [if_pos head]
      by_cases listed : pNode ∈ p.entry.data.pList
      · rw [if_pos listed]
        refine .inr (.inr ⟨_, rfl, ok.withEquals fun q member => old q ?_, ?_⟩)
        · rcases mem_cons.mp member with rfl | member
          · exact mem_cons_self ..
          · exact mem_cons_of_mem _ (mem_of_mem_erase member)
        · refine (nodes p).trans (Perm.trans ?_ ((nodes _).symm.cons pNode))
          have taken := ((perm_cons_erase listed).cons p.entry.data.pNode).append_right others
          exact taken.trans (Perm.swap ..)
      · rw [if_neg listed]
        refine .inr (.inl ⟨rfl, fun member => ?_⟩)
        obtain ⟨a, there, here⟩ := mem_flatMap.mp member
        have keys := searchTree_keys.mp ok.ok.sorted
        have nodup := keys.imp fun less => less.ne
        have sameKey : a.Key = p.entry.Key := (ok.keys a there pNode here).symm.trans same.symm
        obtain rfl : a = p.entry := inj_on_of_nodup_map nodup there inside sameKey
        rcases mem_cons.mp here with first | later
        · exact head first.symm
        · exact listed later

omit [DecidableEq ν] in
theorem kAvlRemoveBestFitEqual_spec (ok : EqualOk key t) (Key : κ) (fAbove : Bool) :
    (kAvlRemoveBestFitEqual t Key fAbove = none ∧ kAvlMaxStack < t.depth) ∨
    (kAvlRemoveBestFitEqual t Key fAbove = some (none, t)) ∨
    ∃ pNode t', kAvlRemoveBestFitEqual t Key fAbove = some (some pNode, t') ∧ EqualOk key t' ∧
      (treeNodes t).Perm (pNode :: treeNodes t') := by
  rw [kAvlRemoveBestFitEqual]
  cases best : kAvlGetBestFit t Key fAbove with
  | none => exact .inr (.inl rfl)
  | some a =>
    have member := kAvlGetBestFit_mem best
    dsimp only
    cases search : locate a.Key t [] with
    | none => exact absurd rfl (locate_none ok.ok.sorted search a member)
    | some place =>
      obtain ⟨fs, p, left, right⟩ := place
      obtain ⟨whole, -⟩ := locate_some search
      rw [plugAll] at whole
      subst whole
      obtain ⟨others, nodes⟩ := exists_treeNodes fs left right
      have inside : p.entry ∈ entries (plugAll fs (.node p left right)) := by
        rw [entries_around]
        simp
      have old := ok.keys p.entry inside
      dsimp only
      cases list : p.entry.data.pList with
      | nil =>
        dsimp only
        rcases ok.remove inside list with ⟨run, deep⟩ | ⟨t', run, ok', moved⟩
        · exact .inl ⟨by rw [run]; rfl, deep⟩
        · exact .inr (.inr ⟨_, t', by rw [run]; rfl, ok', moved⟩)
      | cons pRet pList =>
        refine .inr (.inr ⟨pRet, _, rfl, ok.withEquals fun q here => old q ?_, ?_⟩)
        · rw [KAvlEquals.all, list]
          rcases mem_cons.mp here with rfl | here
          · exact mem_cons_self ..
          · exact mem_cons_of_mem _ (mem_cons_of_mem _ here)
        · refine (nodes p).trans (Perm.trans ?_ ((nodes _).symm.cons pRet))
          rw [KAvlEquals.all, list]
          exact Perm.swap ..

end Calls

/-! ### Iteration and destruction -/

section Visits

variable {t : KAvlEqualTree κ ν}

section

variable {pfnCallBack : σ → ν → Int × σ} (succeeds : ∀ s p, (pfnCallBack s p).1 = 0)

include succeeds

omit [LinearOrder κ] in
theorem callAll_succeeds (nodes : List ν) (s : σ) :
    callAll pfnCallBack nodes s = (0, nodes.foldl (fun s p => (pfnCallBack s p).2) s) := by
  induction nodes generalizing s with
  | nil => rfl
  | cons p ps ih =>
    rw [callAll, foldl_cons]
    dsimp only
    rw [if_neg (not_not_intro (succeeds s p)), ih]

omit [LinearOrder κ] in
theorem kAvlDoWithAllEqual_visits (levels : t.depth ≤ kAvlMaxStack) (fFromLeft : Bool) (pvParam : σ)
    : kAvlDoWithAllEqual t fFromLeft pfnCallBack pvParam =
      some (0, ((orderOf fFromLeft t).flatMap fun a => a.data.all).foldl
        (fun s p => (pfnCallBack s p).2) pvParam) := by
  rw [kAvlDoWithAllEqual, kAvlDoWithAll_visits (fun s a => ?_) levels]
  · simp only [callAll_succeeds succeeds, foldl_flatMap]
  · rw [callAll_succeeds succeeds]

end

/-- No key has duplicates, or links are pointers. -/
def DestroyOk (offset : Bool) (t : KAvlEqualTree κ ν) : Prop :=
  offset = false ∨ ∀ a ∈ entries t, a.data.pList = []

omit [LinearOrder κ] in
theorem destroyEquals_ok {offset : Bool} {pfnCallBack : σ → ν → σ} {list : List ν}
    (clean : offset = false ∨ list = []) (s : σ) :
    destroyEquals offset pfnCallBack list s = some (list.foldl pfnCallBack s) := by
  induction list generalizing s with
  | nil => rfl
  | cons pEqual rest ih =>
    obtain rfl : offset = false := clean.resolve_right (cons_ne_nil _ _)
    rw [destroyEquals]
    cases rest with
    | nil => rfl
    | cons q rest => exact ih (.inl rfl) _

omit [LinearOrder κ] in
theorem destroyEqualLoop_visits {offset : Bool} {pfnCallBack : σ → ν → σ}
    {fs : KAvlStack κ (KAvlEquals ν)} {t : KAvlEqualTree κ ν} {pvUser : σ}
    (some' : isNull t = false) (clean : DestroyOk offset (plugAll fs t)) :
    (destroyEqualLoop offset pfnCallBack fs t pvUser = none ∧ kAvlMaxStack < (plugAll fs t).depth) ∨
    ∃ order : List ν, order.Perm (treeNodes (plugAll fs t)) ∧
      destroyEqualLoop offset pfnCallBack fs t pvUser =
        some (order.foldl pfnCallBack pvUser, .null) := by
  fun_induction destroyEqualLoop offset pfnCallBack fs t pvUser with
  | case1 => cases some'
  | case2 fs p l leftLeft leftRight right pvUser full =>
    refine .inl ⟨rfl, ?_⟩
    rw [depth_plugAll]
    have up := add_length_le_rootDepth fs (Lib.Tree.node p (.node l leftLeft leftRight) right).depth
    simp only [Lib.Tree.depth] at up ⊢
    omega
  | case3 fs p l leftLeft leftRight right pvUser room ih => exact ih rfl clean
  | case4 fs p r rightLeft rightRight pvUser full =>
    refine .inl ⟨rfl, ?_⟩
    rw [depth_plugAll]
    have up := add_length_le_rootDepth fs
      (Lib.Tree.node p .null (.node r rightLeft rightRight)).depth
    simp only [Lib.Tree.depth] at up ⊢
    omega
  | case5 fs p r rightLeft rightRight pvUser room ih => exact ih rfl clean
  | case6 p pvUser =>
    have list : offset = false ∨ p.entry.data.pList = [] :=
      clean.imp_right fun none => none p.entry (by simp [plugAll, entries_node])
    refine .inr ⟨p.entry.data.pList ++ [p.entry.data.pNode], ?_, ?_⟩
    · have whole : treeNodes (plugAll [] (.node p .null .null)) = p.entry.data.all ++ [] := rfl
      rw [whole, append_nil]
      exact perm_append_singleton _ _
    · rw [destroyEquals_ok list, foldl_append]
      rfl
  | case7 f fs p pvUser failed =>
    have inside : p.entry ∈ entries (plugAll (f :: fs) (.node p .null .null)) := by
      rw [entries_around]
      simp
    have list : offset = false ∨ p.entry.data.pList = [] :=
      clean.imp_right fun none => none p.entry inside
    rw [destroyEquals_ok list] at failed
    cases failed
  | case8 f fs p pvUser pvUser' listed ih =>
    have whole := entries_around (f :: fs) p .null .null
    have rest : entries (plugAll fs (f.plug .null)) =
        (entriesBefore (f :: fs) ++ entries .null) ++
          (entries .null ++ entriesAfter (f :: fs)) := by
      rw [← plugAll, entries_plugAll]
      simp [entries, Lib.Tree.inorder]
    have list : offset = false ∨ p.entry.data.pList = [] := by
      refine clean.imp_right fun none => none p.entry ?_
      rw [whole]
      simp
    rw [destroyEquals_ok list] at listed
    cases listed
    have plain : isNull (f.plug (.null : KAvlEqualTree κ ν)) = false := by cases f <;> rfl
    have lower : (plugAll fs (f.plug .null)).depth ≤
        (plugAll (f :: fs) (.node p .null .null)).depth := by
      rw [← plugAll, depth_plugAll, depth_plugAll]
      exact rootDepth_mono (Nat.zero_le _)
    have cleaner : DestroyOk offset (plugAll fs (f.plug .null)) := by
      refine clean.imp_right fun none a member => none a ?_
      rw [rest] at member
      rw [whole]
      rcases mem_append.mp member with before | behind
      · exact mem_append_left _ before
      · exact mem_append_right _ (mem_cons_of_mem _ behind)
    obtain ⟨run, deep⟩ | ⟨order, nodes, result⟩ := ih plain cleaner
    · exact .inl ⟨run, deep.trans_le lower⟩
    refine .inr ⟨p.entry.data.pList ++ p.entry.data.pNode :: order, ?_, ?_⟩
    · have split : (treeNodes (plugAll (f :: fs) (.node p .null .null))).Perm
          (p.entry.data.all ++ treeNodes (plugAll fs (f.plug .null))) := by
        rw [treeNodes, treeNodes, whole, rest]
        generalize entriesBefore (f :: fs) ++ entries .null = xs
        generalize entries .null ++ entriesAfter (f :: fs) = ys
        rw [flatMap_append, flatMap_cons, flatMap_append]
        exact perm_append_comm_assoc _ _ _
      refine Perm.trans ?_ split.symm
      exact perm_middle.trans ((nodes.append_left _).cons _)
    · rw [result, foldl_append, foldl_cons]

omit [LinearOrder κ] in
/-- `Destroy` calls back for every node and leaves the tree empty. -/
theorem kAvlDestroyEqual_visits {offset : Bool} (clean : DestroyOk offset t)
    (pfnCallBack : σ → ν → σ) (pvUser : σ) :
    (kAvlDestroyEqual offset t pfnCallBack pvUser = none ∧ kAvlMaxStack < t.depth) ∨
    ∃ order : List ν, order.Perm (treeNodes t) ∧ kAvlDestroyEqual offset t pfnCallBack pvUser =
      some (order.foldl pfnCallBack pvUser, .null) := by
  rw [kAvlDestroyEqual]
  split
  · rename_i none
    cases t with
    | null => exact .inr ⟨[], Perm.refl _, rfl⟩
    | node p left right => cases none
  · rename_i some
    have clean' : DestroyOk offset (plugAll [] t) := clean
    exact destroyEqualLoop_visits (Bool.eq_false_of_not_eq_true some) clean'

end Visits

/-! ### Runs -/

/-- A call. -/
inductive EqualOp (κ ν : Type) where
  | insert (pNode : ν)
  | removeNode (pNode : ν)
  | removeBestFit (Key : κ) (fAbove : Bool)
  | doWithAll (fFromLeft : Bool)
  | destroy

/-- What a call returns: whether it inserted, the node it removed, or the nodes it called back for.
-/
inductive EqualResult (ν : Type) where
  | inserted (ok : Bool)
  | removed (pNode : Option ν)
  | visited (nodes : List ν)

def EqualOp.exec [DecidableEq ν] (offset : Bool) (key : ν → κ) (t : KAvlEqualTree κ ν) :
    EqualOp κ ν → Option (EqualResult ν × KAvlEqualTree κ ν)
  | .insert pNode => (kAvlInsertEqual key t pNode).map fun r => (.inserted r.1, r.2)
  | .removeNode pNode => (kAvlRemoveNode key t pNode).map fun r => (.removed r.1, r.2)
  | .removeBestFit Key fAbove =>
    (kAvlRemoveBestFitEqual t Key fAbove).map fun r => (.removed r.1, r.2)
  | .doWithAll fFromLeft =>
    (kAvlDoWithAllEqual t fFromLeft (fun nodes p => (0, nodes ++ [p])) []).map fun r =>
      (.visited r.2, t)
  | .destroy =>
    (kAvlDestroyEqual offset t (fun nodes p => nodes ++ [p]) []).map fun r => (.visited r.1, r.2)

abbrev EqualCall (κ ν : Type) := EqualOp κ ν × EqualResult ν

def insertedNodes : EqualCall κ ν → List ν
  | (.insert pNode, .inserted true) => [pNode]
  | _ => []

def removedNodes : EqualCall κ ν → List ν
  | (_, .removed (some pNode)) => [pNode]
  | (.destroy, .visited nodes) => nodes
  | _ => []

/-- The caller inserts no node that is in the tree, and destroys no tree of offsets that has
duplicates. -/
def EqualGuard (offset : Bool) (t : KAvlEqualTree κ ν) (call : EqualCall κ ν) : Prop :=
  match call.1 with
  | .insert pNode => pNode ∉ treeNodes t
  | .destroy => DestroyOk offset t
  | _ => True

def EqualReturns [DecidableEq ν] (offset : Bool) (key : ν → κ) (t : KAvlEqualTree κ ν)
    (call : EqualCall κ ν) (t' : KAvlEqualTree κ ν) : Prop :=
  call.1.exec offset key t = some (call.2, t')

/-- No node is lost: what holds after a sequence of calls. -/
structure NoneLost [DecidableEq ν] (offset : Bool) (key : ν → κ) (calls : List (EqualCall κ ν))
    (t : KAvlEqualTree κ ν) : Prop where
  nodes : (calls.flatMap insertedNodes).Perm (calls.flatMap removedNodes ++ treeNodes t)
  once : (treeNodes t).Nodup
  heads : (entries t).Pairwise fun a b => a.Key < b.Key
  keys : ∀ a ∈ entries t, ∀ p ∈ a.data.all, key p = a.Key
  inserts : ∀ pNode ok t', kAvlInsertEqual key t pNode = some (ok, t') → ok = true
  removes : ∀ pNode ∈ treeNodes t, ∀ removed t',
    kAvlRemoveNode key t pNode = some (removed, t') → removed = some pNode
  foreign : ∀ pNode, pNode ∉ treeNodes t → ∀ removed t',
    kAvlRemoveNode key t pNode = some (removed, t') → removed = none ∧ t' = t
  defined : (entries t).length ≤ 832038 → ∀ pNode Key fAbove,
    kAvlInsertEqual key t pNode ≠ none ∧ kAvlRemoveNode key t pNode ≠ none ∧
      kAvlRemoveBestFitEqual t Key fAbove ≠ none
  doWithAll : (entries t).length ≤ 832038 → ∀ fFromLeft, ∃ order : List ν,
    order.Perm (treeNodes t) ∧
      (order.map key).Pairwise (fun k k' => if fFromLeft then k ≤ k' else k' ≤ k) ∧
      ∀ (σ : Type) (pfnCallBack : σ → ν → Int × σ) (pvParam : σ),
        (∀ s p, (pfnCallBack s p).1 = 0) →
        kAvlDoWithAllEqual t fFromLeft pfnCallBack pvParam =
          some (0, order.foldl (fun s p => (pfnCallBack s p).2) pvParam)
  destroy : (entries t).length ≤ 832038 → DestroyOk offset t →
    ∀ (σ : Type) (pfnCallBack : σ → ν → σ) (pvUser : σ), ∃ order : List ν,
      order.Perm (treeNodes t) ∧ kAvlDestroyEqual offset t pfnCallBack pvUser =
        some (order.foldl pfnCallBack pvUser, .null)

section Runs

variable [DecidableEq ν] {offset : Bool} {key : ν → κ} {t t' : KAvlEqualTree κ ν}

omit [DecidableEq ν] in
theorem equalOk_null : EqualOk key (.null : KAvlEqualTree κ ν) := by
  refine ⟨kAvlOk_null, fun a member => ?_⟩
  cases member

omit [DecidableEq ν] in
/-- The nodes in the order of an iteration have their keys in order. -/
theorem EqualOk.ordered (ok : EqualOk key t) (fFromLeft : Bool) :
    (((orderOf fFromLeft t).flatMap fun a => a.data.all).map key).Pairwise
      fun k k' => if fFromLeft then k ≤ k' else k' ≤ k := by
  have inside {a : KAvlEntry κ (KAvlEquals ν)} (member : a ∈ orderOf fFromLeft t) :
      a ∈ entries t := by
    cases fFromLeft with
    | true => exact member
    | false => exact mem_reverse.mp member
  have heads : (orderOf fFromLeft t).Pairwise fun a b =>
      if fFromLeft then a.Key < b.Key else b.Key < a.Key := by
    cases fFromLeft with
    | true => exact ok.ok.sorted.keys
    | false => exact pairwise_reverse.mpr ok.ok.sorted.keys
  rw [map_flatMap]
  refine pairwise_flatMap.mpr ⟨fun a member => ?_, heads.imp_of_mem ?_⟩
  · refine pairwise_map.mpr (pairwise_of_forall_mem_list fun p first q second => ?_)
    rw [ok.keys a (inside member) p first, ok.keys a (inside member) q second]
    split <;> exact le_refl _
  · intro a b first second less k here k' there
    obtain ⟨p, hp, rfl⟩ := List.mem_map.mp here
    obtain ⟨q, hq, rfl⟩ := List.mem_map.mp there
    rw [ok.keys a (inside first) p hp, ok.keys b (inside second) q hq]
    split at less
    · rename_i up
      rw [if_pos up]
      exact less.le
    · rename_i down
      rw [if_neg down]
      exact less.le

omit [LinearOrder κ] [DecidableEq ν] in
theorem foldl_visited (nodes before : List ν) :
    nodes.foldl (fun s p => s ++ [p]) before = before ++ nodes := by
  induction nodes generalizing before with
  | nil => simp
  | cons p ps ih => rw [foldl_cons, ih, append_assoc, singleton_append]

/-- One call keeps the tree right and the balance of nodes. -/
theorem EqualOk.step (ok : EqualOk key t) {call : EqualCall κ ν} (guard : EqualGuard offset t call)
    (returns : EqualReturns offset key t call t') : EqualOk key t' ∧
      (insertedNodes call ++ treeNodes t).Perm (removedNodes call ++ treeNodes t') := by
  obtain ⟨op, result⟩ := call
  rw [EqualReturns] at returns
  cases op with
  | insert pNode =>
    rcases kAvlInsertEqual_spec ok pNode with ⟨run, -⟩ | ⟨next, run, ok', nodes⟩
    · rw [EqualOp.exec, run] at returns
      cases returns
    · rw [EqualOp.exec, run] at returns
      cases returns
      exact ⟨ok', nodes.symm⟩
  | removeNode pNode =>
    rcases kAvlRemoveNode_spec ok pNode with ⟨run, -⟩ | ⟨run, -⟩ | ⟨next, run, ok', nodes⟩
    · rw [EqualOp.exec, run] at returns
      cases returns
    · rw [EqualOp.exec, run] at returns
      cases returns
      exact ⟨ok, Perm.refl _⟩
    · rw [EqualOp.exec, run] at returns
      cases returns
      exact ⟨ok', nodes⟩
  | removeBestFit Key fAbove =>
    rcases kAvlRemoveBestFitEqual_spec ok Key fAbove with
      ⟨run, -⟩ | run | ⟨p, next, run, ok', nodes⟩
    · rw [EqualOp.exec, run] at returns
      cases returns
    · rw [EqualOp.exec, run] at returns
      cases returns
      exact ⟨ok, Perm.refl _⟩
    · rw [EqualOp.exec, run] at returns
      cases returns
      exact ⟨ok', nodes⟩
  | doWithAll fFromLeft =>
    obtain ⟨r, -, pair⟩ := Option.map_eq_some_iff.mp returns
    cases pair
    exact ⟨ok, Perm.refl _⟩
  | destroy =>
    rcases kAvlDestroyEqual_visits guard (fun nodes p => nodes ++ [p]) [] with
      ⟨run, -⟩ | ⟨order, nodes, run⟩
    · rw [EqualOp.exec, run] at returns
      cases returns
    · rw [EqualOp.exec, run, foldl_visited] at returns
      cases returns
      refine ⟨equalOk_null, ?_⟩
      have all : removedNodes ((.destroy, .visited ([] ++ order)) : EqualCall κ ν) ++
          treeNodes (.null : KAvlEqualTree κ ν) = order := append_nil order
      exact nodes.symm.trans (Perm.of_eq all.symm)

/-- What the invariant says of the calls that come next. -/
theorem EqualOk.noneLost (ok : EqualOk key t) {calls : List (EqualCall κ ν)}
    (nodes : (calls.flatMap insertedNodes).Perm (calls.flatMap removedNodes ++ treeNodes t))
    (once : (treeNodes t).Nodup) : NoneLost offset key calls t := by
  refine ⟨nodes, once, ok.ok.sorted.keys, ok.keys, ?_, ?_, ?_, ?_, ?_, ?_⟩
  · intro pNode inserted t' run
    rcases kAvlInsertEqual_spec ok pNode with ⟨run', -⟩ | ⟨next, run', -⟩
    · cases run'.symm.trans run
    · cases run'.symm.trans run
      rfl
  · intro pNode member removed t' run
    rcases kAvlRemoveNode_spec ok pNode with ⟨run', -⟩ | ⟨-, absent⟩ | ⟨next, run', -⟩
    · cases run'.symm.trans run
    · exact absurd member absent
    · cases run'.symm.trans run
      rfl
  · intro pNode absent removed t' run
    rcases kAvlRemoveNode_spec ok pNode with ⟨run', -⟩ | ⟨run', -⟩ | ⟨next, run', -, nodes⟩
    · cases run'.symm.trans run
    · cases run'.symm.trans run
      exact ⟨rfl, rfl⟩
    · exact absurd (nodes.symm.subset (mem_cons_self ..)) absent
  · intro few pNode Key fAbove
    have levels := kAvlOk_small ok.ok few
    refine ⟨fun run => ?_, fun run => ?_, fun run => ?_⟩
    · rcases kAvlInsertEqual_spec ok pNode with ⟨-, deep⟩ | ⟨next, run', -⟩
      · omega
      · cases run'.symm.trans run
    · rcases kAvlRemoveNode_spec ok pNode with ⟨-, deep⟩ | ⟨run', -⟩ | ⟨next, run', -⟩
      · omega
      · cases run'.symm.trans run
      · cases run'.symm.trans run
    · rcases kAvlRemoveBestFitEqual_spec ok Key fAbove with ⟨-, deep⟩ | run' | ⟨p, next, run', -⟩
      · omega
      · cases run'.symm.trans run
      · cases run'.symm.trans run
  · intro few fFromLeft
    refine ⟨_, ?_, ok.ordered fFromLeft, fun σ pfnCallBack pvParam succeeds =>
      kAvlDoWithAllEqual_visits succeeds (kAvlOk_small ok.ok few) fFromLeft pvParam⟩
    cases fFromLeft with
    | true => exact Perm.refl _
    | false => exact (reverse_perm _).flatMap_right _
  · intro few clean σ pfnCallBack pvUser
    have levels := kAvlOk_small ok.ok few
    rcases kAvlDestroyEqual_visits clean pfnCallBack pvUser with ⟨-, deep⟩ | visited
    · omega
    · exact visited

omit [LinearOrder κ] [DecidableEq ν] in
theorem nodup_inserted {call : EqualCall κ ν} (guard : EqualGuard offset t call)
    (once : (treeNodes t).Nodup) : (insertedNodes call ++ treeNodes t).Nodup := by
  obtain ⟨op, result⟩ := call
  cases op with
  | insert pNode =>
    cases result with
    | inserted done =>
      cases done with
      | true => exact nodup_cons.mpr ⟨guard, once⟩
      | false => exact once
    | removed pNode => exact once
    | visited nodes => exact once
  | _ => exact once

/-- After every sequence of calls, pointers or offsets: exactly the nodes inserted and not removed
are stored, each once and at the tree node with its key, and the calls that come next treat them
as they should. -/
theorem equalRun_noneLost {calls : List (EqualCall κ ν)}
    (run : Run (Guarded (EqualGuard offset) (EqualReturns offset key)) .null calls t) :
    NoneLost offset key calls t := by
  have start : EqualOk key (.null : KAvlEqualTree κ ν) ∧
      (([] : List (EqualCall κ ν)).flatMap insertedNodes).Perm
        (([] : List (EqualCall κ ν)).flatMap removedNodes ++
          treeNodes (.null : KAvlEqualTree κ ν)) ∧
      (treeNodes (.null : KAvlEqualTree κ ν)).Nodup :=
    ⟨equalOk_null, Perm.refl _, nodup_nil⟩
  have kept := run.history (fun past t => EqualOk key t ∧
    (past.flatMap insertedNodes).Perm (past.flatMap removedNodes ++ treeNodes t) ∧
    (treeNodes t).Nodup) ?_ start
  · exact kept.1.noneLost kept.2.1 kept.2.2
  · rintro past s call s' ⟨ok, nodes, once⟩ ⟨guard, returns⟩
    obtain ⟨ok', moved⟩ := ok.step guard returns
    refine ⟨ok', ?_, ?_⟩
    · rw [flatMap_append, flatMap_append, flatMap_singleton, flatMap_singleton,
        append_assoc]
      calc past.flatMap insertedNodes ++ insertedNodes call
          |>.Perm ((past.flatMap removedNodes ++ treeNodes s) ++ insertedNodes call) :=
            nodes.append_right _
        _ |>.Perm (past.flatMap removedNodes ++ (insertedNodes call ++ treeNodes s)) := by
            rw [append_assoc]
            exact perm_append_comm.append_left _
        _ |>.Perm _ := moved.append_left _
    · exact (nodup_append.mp (moved.nodup_iff.mp (nodup_inserted guard once))).2.1

end Runs

/-! ### Concrete runs -/

/-- A node at some address, with its key. -/
abbrev KeyedNode := Fin (2 ^ 64) × Nat

def twinKey : Fin (2 ^ 64) := ⟨7, by decide⟩

/-- The tree of one key and two nodes. -/
def twins : KAvlEqualTree (Fin (2 ^ 64)) KeyedNode :=
  .node ⟨⟨twinKey, twinKey, ⟨(twinKey, 0), [(twinKey, 1)]⟩⟩, 1⟩ .null .null

def twinInserts : List (EqualCall (Fin (2 ^ 64)) KeyedNode) :=
  [(.insert (twinKey, 0), .inserted true), (.insert (twinKey, 1), .inserted true)]

theorem run_twins (offset : Bool) :
    Run (Guarded (EqualGuard offset) (EqualReturns offset Prod.fst)) .null twinInserts twins := by
  have fresh : ((twinKey, 1) : KeyedNode) ∉ [((twinKey, 0) : KeyedNode)] := by decide
  exact .next ⟨not_mem_nil, rfl⟩ (.next ⟨fresh, rfl⟩ (.done _))

theorem equalRun_noneLost_twins : NoneLost false Prod.fst twinInserts twins :=
  equalRun_noneLost (run_twins false)

/-- With offsets `Destroy` does not come through a list of duplicates. -/
theorem destroy_twins_loses :
    ¬ ∀ (calls : List (EqualCall (Fin (2 ^ 64)) KeyedNode)) (t : KAvlEqualTree _ KeyedNode),
      Run (Guarded (EqualGuard true) (EqualReturns true Prod.fst)) .null calls t →
      (entries t).length ≤ 832038 →
      ∃ order : List KeyedNode, order.Perm (treeNodes t) ∧
        kAvlDestroyEqual true t (fun nodes p => nodes ++ [p]) [] = some (order, .null) := by
  intro whole
  obtain ⟨order, -, run⟩ := whole twinInserts twins (run_twins true) (by decide)
  have crash : kAvlDestroyEqual true twins (fun nodes p => nodes ++ [p]) [] = none := by
    rw [kAvlDestroyEqual, twins, isNull, if_neg (by decide), destroyEqualLoop]
    rfl
  rw [crash] at run
  cases run

end VBox.Runtime
