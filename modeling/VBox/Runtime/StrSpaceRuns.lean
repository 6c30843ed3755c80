import VBox.Runtime.StrSpace

/-!
A unique string space is a map.

The tree holds one node for each hash that occurs, and every string is on the list of its hash. The
nodes of the tree are compared up to their order: taking the head of a list out of the tree and
putting the next string there moves nodes around.
-/

namespace VBox.Runtime

open Option (bind_some map_eq_none_iff map_eq_some_iff some some_ne_none)
open VBox.Lib List

abbrev StrSpaceEntry := KAvlEntry Nat (List StrSpaceCore)

/-! ### The lists in the tree -/

variable {list : List StrSpaceCore}

section Lists

variable {t : StrSpaceTree} {Key : Nat}

theorem searchTree_iff {nodes : List StrSpaceEntry} :
    SearchTree false nodes ↔ (nodes.map KAvlEntry.Key).Pairwise (· < ·) := by
  rw [pairwise_map]
  exact ⟨fun sorted => sorted.ordered, fun ordered => ⟨fun _ _ => le_refl _, ordered⟩⟩

theorem KAvlOk.keys_nodup (ok : KAvlOk false t) : ((entries t).map KAvlEntry.Key).Nodup :=
  (searchTree_iff.mp ok.sorted).imp fun less => less.ne

/-- Two entries with the same key are the same. -/
theorem KAvlOk.entry_eq (ok : KAvlOk false t) {e e' : StrSpaceEntry} (left : e ∈ entries t)
    (right : e' ∈ entries t) (same : e.Key = e'.Key) : e = e' :=
  inj_on_of_nodup_map ok.keys_nodup left right same

/-- The list that is found, and what changing it does. -/
theorem kAvlGet_some (found : kAvlGet Key t = some list) :
    ∃ (e : StrSpaceEntry) (xs ys : List StrSpaceEntry), entries t = xs ++ e :: ys ∧
      e.Key = Key ∧ e.data = list ∧
      ∀ f, entries (changeList Key f t) = xs ++ { e with data := f e.data } :: ys := by
  induction t with
  | null => cases found
  | node p left right leftIh rightIh =>
    rw [kAvlGet] at found
    split at found
    · rename_i same
      refine ⟨p.entry, entries left, entries right, entries_node p left right, same,
        some.inj found, fun f => ?_⟩
      rw [changeList, if_pos same, entries_node]
    · rename_i apart
      split at found
      · rename_i less
        obtain ⟨e, xs, ys, nodes, key, data, changed⟩ := leftIh found
        refine ⟨e, xs, ys ++ p.entry :: entries right, ?_, key, data, fun f => ?_⟩
        · rw [entries_node, nodes]
          simp
        · rw [changeList, if_neg apart, if_pos less, entries_node, changed f]
          simp
      · rename_i notLess
        obtain ⟨e, xs, ys, nodes, key, data, changed⟩ := rightIh found
        refine ⟨e, entries left ++ p.entry :: xs, ys, ?_, key, data, fun f => ?_⟩
        · rw [entries_node, nodes]
          simp
        · rw [changeList, if_neg apart, if_neg notLess, entries_node, changed f]
          simp

/-- A key that is stored is found. -/
theorem kAvlGet_none (sorted : SearchTree false (entries t)) (absent : kAvlGet Key t = none) :
    ∀ e ∈ entries t, e.Key ≠ Key := by
  induction t with
  | null =>
    intro e member
    cases member
  | node p left right leftIh rightIh =>
    have order := searchTree_iff.mp sorted
    rw [entries_node, map_append, map_cons, pairwise_append] at order
    obtain ⟨leftOrder, rest, across⟩ := order
    obtain ⟨behind, rightOrder⟩ := pairwise_cons.mp rest
    rw [kAvlGet] at absent
    split at absent
    · cases absent
    · rename_i apart
      intro e member same
      rw [entries_node] at member
      rcases mem_append.mp member with inLeft | inRight
      · have less := across _ (List.mem_map_of_mem inLeft) _ mem_cons_self
        rw [same] at less
        rw [if_pos less] at absent
        exact leftIh (searchTree_iff.mpr leftOrder) absent e inLeft same
      · rcases mem_cons.mp inRight with rfl | inRight
        · exact apart same
        · have less := behind _ (List.mem_map_of_mem inRight)
          rw [same] at less
          rw [if_neg (Nat.not_lt.mpr less.le)] at absent
          exact rightIh (searchTree_iff.mpr rightOrder) absent e inRight same

theorem depth_changeList (Key : Nat) (f : List StrSpaceCore → List StrSpaceCore) :
    (changeList Key f t).depth = t.depth := by
  induction t with
  | null => rfl
  | node p left right leftIh rightIh =>
    rw [changeList]
    split
    · rfl
    · split <;> simp only [Lib.Tree.depth, leftIh, rightIh]

theorem avlOk_changeList (Key : Nat) (f : List StrSpaceCore → List StrSpaceCore)
    (ok : AvlOk t) : AvlOk (changeList Key f t) := by
  induction t with
  | null => exact ok
  | node p left right leftIh rightIh =>
    obtain ⟨height, low, high, leftOk, rightOk⟩ := ok
    rw [changeList]
    split
    · exact ⟨height, low, high, leftOk, rightOk⟩
    · split
      · simp only [AvlOk, depth_changeList]
        exact ⟨height, low, high, leftIh leftOk, rightOk⟩
      · simp only [AvlOk, depth_changeList]
        exact ⟨height, low, high, leftOk, rightIh rightOk⟩

/-- Changing a list that is there changes nothing else. -/
theorem KAvlOk.changeList (ok : KAvlOk false t) {list : List StrSpaceCore}
    (found : kAvlGet Key t = some list) :
    ∃ (e : StrSpaceEntry) (zs : List StrSpaceEntry), (entries t).Perm (e :: zs) ∧
      e.Key = Key ∧ e.data = list ∧ ∀ f, KAvlOk false (changeList Key f t) ∧
        (entries (changeList Key f t)).Perm ({ e with data := f e.data } :: zs) := by
  obtain ⟨e, xs, ys, nodes, key, data, changed⟩ := kAvlGet_some found
  refine ⟨e, xs ++ ys, ?_, key, data, fun f => ⟨⟨avlOk_changeList Key f ok.avl, ?_, ?_⟩, ?_⟩⟩
  · rw [nodes]
    exact perm_middle
  · have sorted := searchTree_iff.mp ok.sorted
    rw [searchTree_iff, changed]
    rw [nodes] at sorted
    simpa using sorted
  · rw [depth_changeList]
    exact ok.depth
  · rw [changed]
    exact perm_middle

/-- `Insert` of a key that is not stored. -/
theorem strSpaceAvlInsert_spec (ok : KAvlOk false t) (pNode : StrSpaceCore)
    (fresh : ∀ e ∈ entries t, e.Key ≠ Key) :
    (strSpaceAvlInsert t Key pNode = none ∧ kAvlMaxStack < t.depth) ∨
      ∃ t', strSpaceAvlInsert t Key pNode = some t' ∧ KAvlOk false t' ∧
        (entries t').Perm (⟨Key, Key, [pNode]⟩ :: entries t) := by
  have accepted : ¬ Refused false t ⟨Key, Key, [pNode]⟩ := by
    rintro (⟨range, -⟩ | ⟨e, member, meets⟩)
    · cases range
    · obtain ⟨low, high⟩ := intersects_iff.mp meets
      exact fresh e member (Nat.le_antisymm low high)
  have insert := kAvlInsert_spec ok (⟨Key, Key, [pNode]⟩ : StrSpaceEntry)
  rw [kAvlInsert, if_neg fun both => Bool.noConfusion both.1] at insert
  rw [strSpaceAvlInsert]
  cases search : insertSearch false (⟨Key, Key, [pNode]⟩ : StrSpaceEntry) t [] with
  | none =>
    rw [search] at insert
    rcases insert with ⟨-, deep⟩ | ⟨run, -⟩ | ⟨t', run, -⟩
    · exact .inl ⟨rfl, deep⟩
    · cases run
    · cases run
  | some place =>
    rw [search] at insert
    cases place with
    | none =>
      rcases insert with ⟨run, -⟩ | ⟨-, refused⟩ | ⟨t', run, -⟩
      · cases run
      · exact absurd refused accepted
      · cases run
    | some fs =>
      rcases insert with ⟨run, deep⟩ | ⟨-, refused⟩ | ⟨t', run, -, ok', nodes⟩
      · exact .inl ⟨map_eq_none_iff.mp run, deep⟩
      · exact absurd refused accepted
      · obtain ⟨t'', result, pair⟩ := map_eq_some_iff.mp run
        cases pair
        exact .inr ⟨t', result, ok', nodes⟩

end Lists

/-! ### The strings -/

/-- All nodes of the space. -/
def stored (t : StrSpaceTree) : List StrSpaceCore := (entries t).flatMap KAvlEntry.data

/-- The strings of a list have its hash, and no string is on it twice. -/
structure ListOk (e : StrSpaceEntry) : Prop where
  nonempty : e.data ≠ []
  hashes : ∀ core ∈ e.data, (hashOf core.pszString.chars).toNat = e.Key ∧
    core.cchString = core.pszString.chars.length
  distinct : (e.data.map StrSpaceCore.pszString).Nodup

structure StrSpaceOk (t : StrSpaceTree) : Prop where
  ok : KAvlOk false t
  lists : ∀ e ∈ entries t, ListOk e

variable {e : StrSpaceEntry} {core : StrSpaceCore}

section Strings

variable {t : StrSpaceTree} {s : CString}

theorem stored_perm {zs : List StrSpaceEntry} (nodes : (entries t).Perm (e :: zs)) :
    (stored t).Perm (e.data ++ zs.flatMap KAvlEntry.data) :=
  nodes.flatMap_right KAvlEntry.data

/-- The comparison is that of the strings. -/
theorem sameString_iff (length : core.cchString = core.pszString.chars.length) :
    sameString s.chars.length s core = true ↔ core.pszString = s := by
  rw [sameString, Bool.and_eq_true, beq_iff_eq, beq_iff_eq, take_length]
  constructor
  · rintro ⟨same, chars⟩
    rw [← same, length, take_length] at chars
    cases core with
    | mk address pszString cchString =>
      cases pszString
      cases s
      cases chars
      rfl
  · rintro rfl
    exact ⟨length, take_length⟩

theorem StrSpaceOk.mem_stored (inv : StrSpaceOk t) {core : StrSpaceCore}
    (member : core ∈ stored t) :
    ∃ e ∈ entries t, core ∈ e.data ∧ e.Key = (hashOf core.pszString.chars).toNat ∧
      core.cchString = core.pszString.chars.length := by
  obtain ⟨e, entry, inList⟩ := mem_flatMap.mp member
  obtain ⟨hash, length⟩ := (inv.lists e entry).hashes core inList
  exact ⟨e, entry, inList, hash.symm, length⟩

/-- No string is stored twice. -/
theorem StrSpaceOk.distinct (inv : StrSpaceOk t) :
    ((stored t).map StrSpaceCore.pszString).Nodup := by
  rw [stored, map_flatMap, nodup_flatMap]
  refine ⟨fun e entry => (inv.lists e entry).distinct, ?_⟩
  have keys := pairwise_map.mp inv.ok.keys_nodup
  refine List.Pairwise.imp_of_mem ?_ keys
  intro e e' entry entry' apart p inFirst inSecond
  obtain ⟨core, first, rfl⟩ := List.mem_map.mp inFirst
  obtain ⟨core', second, same⟩ := List.mem_map.mp inSecond
  have hash := ((inv.lists e entry).hashes core first).1
  have hash' := ((inv.lists e' entry').hashes core' second).1
  rw [same] at hash'
  exact apart (hash.symm.trans hash')

/-- The list of a hash, or no string with it. -/
theorem StrSpaceOk.get_cases (inv : StrSpaceOk t) (hash : UInt32) : (kAvlGet hash.toNat t = none ∧
      ∀ core ∈ stored t, hashOf core.pszString.chars ≠ hash) ∨
    ∃ list, kAvlGet hash.toNat t = some list ∧ ∃ e ∈ entries t, e.Key = hash.toNat ∧ e.data = list ∧
        ∀ core ∈ stored t, hashOf core.pszString.chars = hash → core ∈ list := by
  cases found : kAvlGet hash.toNat t with
  | none =>
    refine .inl ⟨rfl, fun core member same => ?_⟩
    obtain ⟨e, entry, -, key, -⟩ := inv.mem_stored member
    exact kAvlGet_none inv.ok.sorted found e entry (key.trans (congrArg UInt32.toNat same))
  | some list =>
    obtain ⟨e, xs, ys, nodes, key, data, -⟩ := kAvlGet_some found
    have entry : e ∈ entries t := by
      rw [nodes]
      exact mem_append_right _ mem_cons_self
    refine .inr ⟨list, rfl, e, entry, key, data, fun core member same => ?_⟩
    obtain ⟨e', entry', inList, key', -⟩ := inv.mem_stored member
    have equal := inv.ok.entry_eq entry' entry
      (key'.trans ((congrArg UInt32.toNat same).trans key.symm))
    rw [← data, ← equal]
    exact inList

theorem rtStrSpaceGet_spec (inv : StrSpaceOk t) (s : CString) :
    (rtStrSpaceGet t s = none ∧ ∀ core ∈ stored t, core.pszString ≠ s) ∨
      ∃ core, rtStrSpaceGet t s = some core ∧ core ∈ stored t ∧ core.pszString = s := by
  rw [rtStrSpaceGet, sdbm_eq, findString]
  rcases inv.get_cases (hashOf s.chars) with ⟨absent, others⟩ | ⟨list, found, e, entry, key,
    data, complete⟩
  · refine .inl ⟨by rw [absent]; rfl, fun core member same => others core member ?_⟩
    rw [same]
  · rw [found, bind_some]
    have lengths := fun core inList => ((inv.lists e entry).hashes core (data ▸ inList)).2
    cases search : list.find? (sameString s.chars.length s) with
    | none =>
      refine .inl ⟨rfl, fun core member same => ?_⟩
      have inList := complete core member (by rw [same])
      exact find?_eq_none.mp search core inList ((sameString_iff (lengths core inList)).mpr same)
    | some core =>
      have inList := mem_of_find?_eq_some search
      refine .inr ⟨core, rfl, mem_flatMap.mpr ⟨e, entry, data ▸ inList⟩, ?_⟩
      exact (sameString_iff (lengths core inList)).mp (find?_some search)

/-- A lookup with a limit looks up the string as far as the limit. -/
theorem rtStrSpaceGetN_eq (s : CString) (cchMax : Nat) :
    rtStrSpaceGetN t s cchMax = rtStrSpaceGet t (s.cut cchMax) := by
  rw [rtStrSpaceGetN, sdbmN_eq, rtStrSpaceGet, findString, findString, sdbm_eq]
  congr 1
  funext list
  congr 1
  funext core
  rw [sameString, sameString]
  congr 2
  rw [CString.cut, take_length]
  simp

end Strings

/-! ### Insertion -/

section Insertion

variable {t : StrSpaceTree}

theorem listOk_cons (ok : ListOk e) {list : List StrSpaceCore} {core : StrSpaceCore}
    (place : list.Perm (core :: e.data)) (hash : (hashOf core.pszString.chars).toNat = e.Key)
    (length : core.cchString = core.pszString.chars.length)
    (fresh : ∀ other ∈ e.data, other.pszString ≠ core.pszString) :
    ListOk { e with data := list } where
  nonempty := by
    rintro rfl
    exact cons_ne_nil _ _ (nil_perm.mp place)
  hashes other member := by
    rcases mem_cons.mp (place.subset member) with rfl | old
    · exact ⟨hash, length⟩
    · exact ok.hashes other old
  distinct := by
    have strings := place.map StrSpaceCore.pszString
    rw [strings.nodup_iff, map_cons, nodup_cons]
    refine ⟨fun again => ?_, ok.distinct⟩
    obtain ⟨other, member, same⟩ := List.mem_map.mp again
    exact fresh other member same

theorem linkBehindHead_perm (pStr : StrSpaceCore) (list : List StrSpaceCore) :
    (linkBehindHead pStr list).Perm (pStr :: list) := by
  cases list with
  | nil => exact Perm.refl _
  | cons head rest => exact Perm.swap _ _ _

/-- More nodes than are sure to fit into the stack. -/
theorem KAvlOk.many (ok : KAvlOk false t) (deep : kAvlMaxStack < t.depth) :
    832038 < (entries t).length :=
  Nat.not_le.mp fun few => absurd (kAvlOk_small ok few) (Nat.not_le_of_lt deep)

theorem rtStrSpaceInsert_spec (inv : StrSpaceOk t) (address : Nat) (s : CString) :
    (rtStrSpaceInsert t address s = none ∧ 832038 < (entries t).length) ∨
    (rtStrSpaceInsert t address s = some (false, t) ∧ ∃ core ∈ stored t, core.pszString = s) ∨
    ∃ t', rtStrSpaceInsert t address s = some (true, t') ∧
      (∀ core ∈ stored t, core.pszString ≠ s) ∧ StrSpaceOk t' ∧
      (stored t').Perm (⟨address, s, s.chars.length⟩ :: stored t) := by
  rw [rtStrSpaceInsert, sdbm_eq]
  dsimp only
  rcases inv.get_cases (hashOf s.chars) with ⟨absent, others⟩ | ⟨list, found, e, entry, key,
    data, complete⟩
  · rw [absent]
    dsimp only
    rcases strSpaceAvlInsert_spec inv.ok ⟨address, s, s.chars.length⟩
      (kAvlGet_none inv.ok.sorted absent) with ⟨run, deep⟩ | ⟨t', run, ok', nodes⟩
    · exact .inl ⟨by rw [run]; rfl, inv.ok.many deep⟩
    · refine .inr (.inr ⟨t', by rw [run]; rfl, fun core member same => others core member ?_,
        ⟨ok', fun e member => ?_⟩, ?_⟩)
      · rw [same]
      · rcases mem_cons.mp (nodes.subset member) with rfl | old
        · refine ⟨cons_ne_nil _ _, fun core inList => ?_, nodup_singleton _⟩
          rw [mem_singleton.mp inList]
          exact ⟨rfl, rfl⟩
        · exact inv.lists e old
      · exact stored_perm nodes
  · rw [found]
    dsimp only
    have lengths := fun core inList => ((inv.lists e entry).hashes core (data ▸ inList)).2
    by_cases clash : list.any (sameString s.chars.length s) = true
    · rw [if_pos clash]
      obtain ⟨core, inList, same⟩ := List.any_eq_true.mp clash
      exact .inr (.inl ⟨rfl, core, mem_flatMap.mpr ⟨e, entry, data ▸ inList⟩,
        (sameString_iff (lengths core inList)).mp same⟩)
    · rw [if_neg clash]
      have fresh : ∀ core ∈ list, core.pszString ≠ s := fun core inList same =>
        clash (List.any_eq_true.mpr ⟨core, inList,
          (sameString_iff (lengths core inList)).mpr same⟩)
      obtain ⟨e', zs, nodes, key', data', change⟩ := inv.ok.changeList found
      obtain ⟨ok', nodes'⟩ := change (linkBehindHead ⟨address, s, s.chars.length⟩)
      have listOk := inv.lists e' (nodes.mem_iff.mpr mem_cons_self)
      refine .inr (.inr ⟨_, rfl, fun core member same => ?_, ⟨ok', fun other member => ?_⟩, ?_⟩)
      · exact fresh core (complete core member (by rw [same])) same
      · rcases mem_cons.mp (nodes'.subset member) with rfl | old
        · refine listOk_cons listOk (linkBehindHead_perm _ _) key'.symm rfl fun core inList => ?_
          exact fresh core (data' ▸ inList)
        · exact inv.lists other (nodes.mem_iff.mpr (mem_cons_of_mem _ old))
      · have before := stored_perm nodes
        have after := stored_perm nodes'
        exact after.trans (((linkBehindHead_perm _ _).append_right _).trans (before.symm.cons _))

end Insertion

/-! ### Removal -/

section Removal

variable {t : StrSpaceTree}

/-- Some string is taken off the list, and the rest keeps its order. -/
theorem unlinkString_some {s : CString} {rest : List StrSpaceCore}
    (lengths : ∀ core ∈ list, core.cchString = core.pszString.chars.length)
    (found : unlinkString s.chars.length s list = some (core, rest)) :
    core.pszString = s ∧ list.Perm (core :: rest) := by
  induction list generalizing rest with
  | nil => cases found
  | cons head tail ih =>
    rw [unlinkString] at found
    split at found
    · rename_i same
      cases found
      exact ⟨(sameString_iff (lengths _ mem_cons_self)).mp same, Perm.refl _⟩
    · obtain ⟨⟨core', rest'⟩, result, pair⟩ := map_eq_some_iff.mp found
      cases pair
      obtain ⟨same, place⟩ := ih (fun core member => lengths core (mem_cons_of_mem _ member)) result
      exact ⟨same, (place.cons head).trans (Perm.swap _ _ _)⟩

theorem unlinkString_none {s : CString}
    (lengths : ∀ core ∈ list, core.cchString = core.pszString.chars.length)
    (absent : unlinkString s.chars.length s list = none) : ∀ core ∈ list, core.pszString ≠ s := by
  induction list with
  | nil =>
    intro core member
    cases member
  | cons head tail ih =>
    rw [unlinkString] at absent
    split at absent
    · cases absent
    · rename_i apart
      intro core member same
      rcases mem_cons.mp member with rfl | inTail
      · exact apart ((sameString_iff (lengths _ mem_cons_self)).mpr same)
      · exact ih (fun core member => lengths core (mem_cons_of_mem _ member))
          (map_eq_none_iff.mp absent) core inTail same

theorem listOk_sublist (ok : ListOk e) {list : List StrSpaceCore} {core : StrSpaceCore}
    (place : e.data.Perm (core :: list)) (nonempty : list ≠ []) :
    ListOk { e with data := list } where
  nonempty := nonempty
  hashes other member := ok.hashes other (place.mem_iff.mpr (mem_cons_of_mem _ member))
  distinct := by
    have strings := (place.map StrSpaceCore.pszString).nodup_iff.mp ok.distinct
    exact (nodup_cons.mp strings).2

/-- What removing a string comes to. -/
def RemovesString (t : StrSpaceTree) (s : CString)
    (result : Option (Option StrSpaceCore × StrSpaceTree)) : Prop :=
  (result = none ∧ 832038 < (entries t).length) ∨
  (result = some (none, t) ∧ ∀ core ∈ stored t, core.pszString ≠ s) ∨
  ∃ core t', result = some (some core, t') ∧ core.pszString = s ∧ StrSpaceOk t' ∧
    (stored t).Perm (core :: stored t')

/-- Removing the head of a list: its node is taken out and the next string, if there is one, put in
with the list saved before. -/
theorem removeHead_spec (inv : StrSpaceOk t) {Key : Nat} {head : StrSpaceCore}
    {pList : List StrSpaceCore} (found : kAvlGet Key t = some (head :: pList)) :
    RemovesString t head.pszString (removeHead t Key pList) := by
  obtain ⟨e, zs, nodes, key, data, change⟩ := inv.ok.changeList found
  obtain ⟨ok', nodes'⟩ := change (setList [])
  have listOk := inv.lists e (nodes.mem_iff.mpr mem_cons_self)
  have count : (entries (changeList Key (setList []) t)).length = (entries t).length := by
    rw [nodes'.length_eq, nodes.length_eq, length_cons, length_cons]
  have single : setList [] e.data = [head] := by rw [data]; rfl
  rw [single] at nodes'
  rw [removeHead]
  rcases kAvlRemove_spec ok' Key with ⟨run, deep⟩ | ⟨-, absent⟩ | ⟨p, t', run, key', ok'', takes⟩
  · rw [run]
    exact .inl ⟨rfl, count ▸ ok'.many deep⟩
  · exact absurd key (absent { e with data := [head] } (nodes'.mem_iff.mpr mem_cons_self))
  · rw [run]
    have removed : p = { e with data := [head] } :=
      ok'.entry_eq (takes.perm.mem_iff.mpr mem_cons_self)
        (nodes'.mem_iff.mpr mem_cons_self) (key'.trans key.symm)
    subst removed
    have others : (entries t').Perm zs := (takes.perm.symm.trans nodes').cons_inv
    have keys := (nodes.map KAvlEntry.Key).nodup_iff.mp inv.ok.keys_nodup
    rw [map_cons, nodup_cons] at keys
    have storedBefore := stored_perm nodes
    rw [data] at storedBefore
    cases pList with
    | nil =>
      refine .inr (.inr ⟨head, t', rfl, rfl, ⟨ok'', fun other member => ?_⟩, ?_⟩)
      · exact inv.lists other (nodes.mem_iff.mpr (mem_cons_of_mem _ (others.mem_iff.mp member)))
      · exact storedBefore.trans ((others.symm.flatMap_right KAvlEntry.data).cons head)
    | cons pInsert pList =>
      have fresh : ∀ other ∈ entries t', other.Key ≠ Key := fun other member same => by
        refine keys.1 (List.mem_map.mpr ⟨other, others.mem_iff.mp member, ?_⟩)
        rw [same, key]
      dsimp only [bind_some, head?_cons]
      rcases strSpaceAvlInsert_spec ok'' pInsert fresh with ⟨run', deep⟩ | ⟨u, run', okU, nodesU⟩
      · rw [run']
        refine .inl ⟨rfl, ?_⟩
        have many := ok''.many deep
        rw [others.length_eq] at many
        rw [nodes.length_eq, length_cons]
        omega
      · rw [run']
        -- the list is found again and linked to the new node
        have there : kAvlGet Key u ≠ none := fun absent =>
          kAvlGet_none okU.sorted absent _ (nodesU.mem_iff.mpr mem_cons_self) rfl
        obtain ⟨list, again⟩ := Option.ne_none_iff_exists'.mp there
        obtain ⟨e', ys, nodesV, keyV, -, change'⟩ := okU.changeList again
        obtain ⟨okW, nodesW⟩ := change' (setList pList)
        have inserted : e' = ⟨Key, Key, [pInsert]⟩ :=
          okU.entry_eq (nodesV.mem_iff.mpr mem_cons_self)
            (nodesU.mem_iff.mpr mem_cons_self) keyV
        subst inserted
        have rest : ys.Perm zs := ((nodesV.symm.trans nodesU).cons_inv).trans others
        have linked : setList pList [pInsert] = pInsert :: pList := rfl
        dsimp only at nodesW
        rw [linked] at nodesW
        refine .inr (.inr ⟨head, _, rfl, rfl, ⟨okW, fun other member => ?_⟩, ?_⟩)
        · rcases mem_cons.mp (nodesW.subset member) with rfl | old
          · have tail := listOk_sublist listOk (Perm.of_eq data) (cons_ne_nil pInsert pList)
            refine ⟨tail.nonempty, fun core inList => ?_, tail.distinct⟩
            obtain ⟨hash, length⟩ := tail.hashes core inList
            exact ⟨hash.trans key, length⟩
          · exact inv.lists other (nodes.mem_iff.mpr (mem_cons_of_mem _ (rest.mem_iff.mp old)))
        · have after := stored_perm nodesW
          refine storedBefore.trans (Perm.cons head ?_)
          refine Perm.trans ?_ after.symm
          exact (rest.symm.flatMap_right KAvlEntry.data).append_left _

theorem rtStrSpaceRemove_spec (inv : StrSpaceOk t) (s : CString) :
    RemovesString t s (rtStrSpaceRemove t s) := by
  rw [rtStrSpaceRemove, sdbm_eq]
  dsimp only
  rcases inv.get_cases (hashOf s.chars) with ⟨absent, others⟩ | ⟨list, found, e, entry, key,
    data, complete⟩
  · rw [absent]
    refine .inr (.inl ⟨rfl, fun core member same => others core member ?_⟩)
    rw [same]
  · rw [found]
    have lengths := fun core inList => ((inv.lists e entry).hashes core (data ▸ inList)).2
    cases list with
    | nil => exact absurd data (inv.lists e entry).nonempty
    | cons head pList =>
      dsimp only
      split
      · rename_i same
        have string := (sameString_iff (lengths head mem_cons_self)).mp same
        have removes := removeHead_spec inv found
        rwa [string] at removes
      · rename_i apart
        have tails := fun core inList => lengths core (mem_cons_of_mem head inList)
        cases search : unlinkString s.chars.length s pList with
        | none =>
          refine .inr (.inl ⟨rfl, fun core member same => ?_⟩)
          rcases mem_cons.mp (complete core member (by rw [same])) with rfl | inTail
          · exact apart ((sameString_iff (lengths _ mem_cons_self)).mpr same)
          · exact unlinkString_none tails search core inTail same
        | some result =>
          obtain ⟨core, rest⟩ := result
          obtain ⟨string, place⟩ := unlinkString_some tails search
          obtain ⟨e', zs, nodes, key', data', change⟩ := inv.ok.changeList found
          obtain ⟨ok', nodes'⟩ := change (setList rest)
          have listOk := inv.lists e' (nodes.mem_iff.mpr mem_cons_self)
          have linked : setList rest e'.data = head :: rest := by rw [data']; rfl
          have whole : e'.data.Perm (core :: head :: rest) := by
            rw [data']
            exact (place.cons head).trans (Perm.swap _ _ _)
          rw [linked] at nodes'
          refine .inr (.inr ⟨core, _, rfl, string, ⟨ok', fun other member => ?_⟩, ?_⟩)
          · rcases mem_cons.mp (nodes'.subset member) with rfl | old
            · exact listOk_sublist listOk whole (cons_ne_nil head rest)
            · exact inv.lists other (nodes.mem_iff.mpr (mem_cons_of_mem _ old))
          · have before := stored_perm nodes
            have after := stored_perm nodes'
            refine before.trans ((whole.append_right _).trans ?_)
            exact (after.symm.cons core)

end Removal

/-! ### Enumeration -/

section Enumeration

/-- What is left to be visited for an entry of the stack. -/
def visits : Bool × StrSpaceTree → List StrSpaceCore
  | (_, .null) => []
  | (false, t) => stored t
  | (true, .node p _ right) => p.entry.data ++ stored right

theorem stored_node (p : KAvlNode Nat (List StrSpaceCore)) (left right : StrSpaceTree) :
    stored (.node p left right) = stored left ++ (p.entry.data ++ stored right) := by
  rw [stored, entries_node, flatMap_append, flatMap_cons]
  rfl

variable {visited : List StrSpaceCore}

/-- The loop visits what is left on the stack. -/
theorem doWithAll_visits {rounds : Nat} {stack : List (Bool × StrSpaceTree)}
    (result : doWithAll rounds stack = some visited) : visited = stack.flatMap visits := by
  induction rounds generalizing stack visited with
  | zero =>
    cases stack with
    | nil =>
      cases result
      rfl
    | cons entry stack => cases result
  | succ rounds ih =>
    cases stack with
    | nil =>
      cases result
      rfl
    | cons entry stack =>
      obtain ⟨fDone, t⟩ := entry
      cases t with
      | null => cases result
      | node p left right =>
        rw [doWithAll] at result
        split at result
        · rename_i down
          obtain ⟨rfl, -⟩ := down
          split at result
          · cases result
          · rw [ih result, flatMap_cons, flatMap_cons, flatMap_cons, ← append_assoc]
            refine congrArg (· ++ _) ?_
            have both : visits (false, left) = stored left := by cases left <;> rfl
            rw [both]
            exact (stored_node p left right).symm
        · rename_i center
          obtain ⟨rest, found, rfl⟩ := map_eq_some_iff.mp result
          have here : visits (fDone, .node p left right) = p.entry.data ++ stored right := by
            cases fDone with
            | true => rfl
            | false =>
              have leaf : left = .null := by
                by_contra more
                exact center ⟨rfl, more⟩
              subst leaf
              exact stored_node p .null right
          rw [ih found, flatMap_cons, here, append_assoc]
          refine congrArg (p.entry.data ++ ·) ?_
          split
          · rename_i leaf
            subst leaf
            rfl
          · have next : visits (false, right) = stored right := by cases right <;> rfl
            rw [flatMap_cons, next]

/-- The loop ends in the rounds there are, as long as the tree fits into the stack. -/
theorem doWithAll_defined {t : StrSpaceTree} (nonempty : t ≠ .null) {rounds : Nat}
    {stack : List (Bool × StrSpaceTree)} (room : stack.length + t.depth ≤ kAvlMaxStack)
    (rest : doWithAll rounds stack ≠ none) :
    doWithAll (doWithAllRounds t + rounds) ((false, t) :: stack) ≠ none := by
  induction t generalizing rounds stack with
  | null => exact absurd rfl nonempty
  | node p left right leftIh rightIh =>
    rw [Lib.Tree.depth] at room
    -- the node itself and its right subtree
    have center : ∀ fDone, ¬ (fDone = false ∧ left ≠ .null) →
        doWithAll (doWithAllRounds right + 1 + rounds)
          ((fDone, .node p left right) :: stack) ≠ none := by
      intro fDone done
      have split : doWithAllRounds right + 1 + rounds = doWithAllRounds right + rounds + 1 := by
        omega
      rw [split, doWithAll, if_neg done, Ne, map_eq_none_iff]
      by_cases leaf : right = .null
      · subst leaf
        rw [if_pos rfl, doWithAllRounds, Nat.zero_add]
        exact rest
      · rw [if_neg leaf]
        exact rightIh leaf (by omega) rest
    by_cases leaf : left = .null
    · have same : doWithAllRounds (.node p left right) + rounds =
          doWithAllRounds right + 1 + rounds := by
        rw [doWithAllRounds, if_pos leaf]
        omega
      rw [same]
      exact center false fun down => down.2 leaf
    · have same : doWithAllRounds (.node p left right) + rounds =
          doWithAllRounds left + (doWithAllRounds right + 1 + rounds) + 1 := by
        rw [doWithAllRounds, if_neg leaf]
        omega
      have level : 0 < left.depth := by
        cases left with
        | null => exact absurd rfl leaf
        | node q l r => exact Nat.succ_pos _
      rw [same, doWithAll, if_pos ⟨rfl, leaf⟩, if_neg (by omega)]
      refine leftIh leaf ?_ (center true fun down => Bool.noConfusion down.1)
      rw [length_cons]
      omega

theorem rtStrSpaceEnumerate_some {t : StrSpaceTree} (result : rtStrSpaceEnumerate t = some visited)
    : visited = stored t := by
  rw [rtStrSpaceEnumerate] at result
  split at result
  · rename_i empty
    cases result
    rw [empty]
    rfl
  · rw [doWithAll_visits result, flatMap_cons, flatMap_nil, append_nil]
    cases t <;> rfl

theorem rtStrSpaceEnumerate_defined {t : StrSpaceTree} (shallow : t.depth ≤ kAvlMaxStack) :
    rtStrSpaceEnumerate t ≠ none := by
  rw [rtStrSpaceEnumerate]
  split
  · exact some_ne_none _
  · rename_i nonempty
    have loop := @doWithAll_defined t nonempty 0 [] (by simpa using shallow)
      (some_ne_none _)
    exact loop

end Enumeration

/-! ### Runs -/

/-- A call with what it returned. -/
abbrev StrSpaceCall := StrSpaceOp × StrSpaceResult

/-- The node the call put into the space. -/
def insertedString : StrSpaceCall → Option StrSpaceCore
  | (.insert address pszString, .inserted true) =>
      some ⟨address, pszString, pszString.chars.length⟩
  | _ => none

/-- The node the call took out of the space. -/
def removedString : StrSpaceCall → Option StrSpaceCore
  | (_, .removed pStr) => pStr
  | _ => none

/-- The call returns that result. -/
def StrSpaceReturns (t : StrSpaceTree) (call : StrSpaceCall) (t' : StrSpaceTree) : Prop :=
  call.1.exec t = some (call.2, t')

/-- The space is the map of the strings inserted and not removed. -/
structure StrSpaceIsMap (calls : List StrSpaceCall) (t : StrSpaceTree) : Prop where
  nodes : (calls.filterMap insertedString).Perm (calls.filterMap removedString ++ stored t)
  distinct : ((stored t).map StrSpaceCore.pszString).Nodup
  inserts : ∀ address s ok t', rtStrSpaceInsert t address s = some (ok, t') →
    (ok = false ↔ ∃ core ∈ stored t, core.pszString = s) ∧ (ok = false → t' = t)
  removes : ∀ s pStr t', rtStrSpaceRemove t s = some (pStr, t') →
    (pStr = none ↔ ∀ core ∈ stored t, core.pszString ≠ s) ∧
      ∀ core ∈ pStr, core ∈ stored t ∧ core.pszString = s
  gets : ∀ s core, rtStrSpaceGet t s = some core ↔ core ∈ stored t ∧ core.pszString = s
  getNs : ∀ s cchMax, rtStrSpaceGetN t s cchMax = rtStrSpaceGet t (s.cut cchMax)
  enumerates : ∀ visited, rtStrSpaceEnumerate t = some visited → visited = stored t
  defined : (stored t).length ≤ 832038 →
    rtStrSpaceEnumerate t ≠ none ∧ ∀ op : StrSpaceOp, op.exec t ≠ none

section Runs

variable {t : StrSpaceTree}

theorem strSpaceOk_null : StrSpaceOk .null :=
  ⟨kAvlOk_null, fun e member => by cases member⟩

/-- There are at least as many strings as nodes in the tree. -/
theorem StrSpaceOk.length_le (inv : StrSpaceOk t) : (entries t).length ≤ (stored t).length := by
  rw [stored, length_flatMap]
  have each : ∀ nodes : List StrSpaceEntry, (∀ e ∈ nodes, ListOk e) →
      nodes.length ≤ (nodes.map fun e => e.data.length).sum := by
    intro nodes ok
    induction nodes with
    | nil => exact Nat.le_refl _
    | cons e rest ih =>
      have one := length_pos_of_ne_nil (ok e mem_cons_self).nonempty
      have others := ih fun other member => ok other (mem_cons_of_mem e member)
      rw [length_cons, map_cons, sum_cons]
      omega
  exact each _ inv.lists

/-- One call keeps the invariant and the balance of nodes. -/
theorem StrSpaceOk.step (inv : StrSpaceOk t) {call : StrSpaceCall} {t' : StrSpaceTree}
    (returns : StrSpaceReturns t call t') : StrSpaceOk t' ∧
      ((insertedString call).toList ++ stored t).Perm
        ((removedString call).toList ++ stored t') := by
  obtain ⟨op, result⟩ := call
  cases op with
  | insert address s =>
    obtain ⟨⟨ok, u⟩, run, pair⟩ := map_eq_some_iff.mp returns
    cases pair
    rcases rtStrSpaceInsert_spec inv address s with ⟨run', -⟩ | ⟨run', -⟩ |
      ⟨u', run', -, inv', nodes⟩
    · cases run'.symm.trans run
    · cases run'.symm.trans run
      exact ⟨inv, Perm.refl _⟩
    · cases run'.symm.trans run
      exact ⟨inv', nodes.symm⟩
  | remove s =>
    obtain ⟨⟨pStr, u⟩, run, pair⟩ := map_eq_some_iff.mp returns
    cases pair
    rcases rtStrSpaceRemove_spec inv s with ⟨run', -⟩ | ⟨run', -⟩ | ⟨core, u', run', -, inv', nodes⟩
    · cases run'.symm.trans run
    · cases run'.symm.trans run
      exact ⟨inv, Perm.refl _⟩
    · cases run'.symm.trans run
      exact ⟨inv', nodes⟩

theorem StrSpaceOk.isMap (inv : StrSpaceOk t) {calls : List StrSpaceCall}
    (nodes : (calls.filterMap insertedString).Perm
      (calls.filterMap removedString ++ stored t)) : StrSpaceIsMap calls t where
  nodes := nodes
  distinct := inv.distinct
  inserts address s ok t' run := by
    rcases rtStrSpaceInsert_spec inv address s with ⟨run', -⟩ | ⟨run', clash⟩ | ⟨u, run', fresh, -⟩
    · cases run'.symm.trans run
    · cases run'.symm.trans run
      exact ⟨iff_of_true rfl clash, fun _ => rfl⟩
    · cases run'.symm.trans run
      refine ⟨iff_of_false Bool.noConfusion ?_, fun impossible => Bool.noConfusion impossible⟩
      rintro ⟨core, member, same⟩
      exact fresh core member same
  removes s pStr t' run := by
    rcases rtStrSpaceRemove_spec inv s with ⟨run', -⟩ | ⟨run', absent⟩ |
      ⟨core, u, run', same, -, place⟩
    · cases run'.symm.trans run
    · cases run'.symm.trans run
      refine ⟨iff_of_true rfl absent, fun core found => ?_⟩
      cases found
    · cases run'.symm.trans run
      have member : core ∈ stored t := place.mem_iff.mpr mem_cons_self
      refine ⟨iff_of_false (some_ne_none core) fun absent => absent core member same,
        fun other found => ?_⟩
      cases found
      exact ⟨member, same⟩
  gets s core := by
    rcases rtStrSpaceGet_spec inv s with ⟨run, absent⟩ | ⟨found, run, member, same⟩
    · rw [run]
      exact iff_of_false (some_ne_none core).symm fun both => absent core both.1 both.2
    · rw [run]
      constructor
      · rintro ⟨⟩
        exact ⟨member, same⟩
      · rintro ⟨member', same'⟩
        exact congrArg some (inj_on_of_nodup_map inv.distinct member member'
          (same.trans same'.symm))
  getNs := rtStrSpaceGetN_eq
  enumerates _ := rtStrSpaceEnumerate_some
  defined few := by
    have small := inv.length_le.trans few
    refine ⟨rtStrSpaceEnumerate_defined (kAvlOk_small inv.ok small), fun op overflow => ?_⟩
    cases op with
    | insert address s =>
      have undefined := map_eq_none_iff.mp overflow
      rcases rtStrSpaceInsert_spec inv address s with ⟨-, many⟩ | ⟨run, -⟩ | ⟨u, run, -⟩
      · exact absurd small (Nat.not_le.mpr many)
      · cases run.symm.trans undefined
      · cases run.symm.trans undefined
    | remove s =>
      have undefined := map_eq_none_iff.mp overflow
      rcases rtStrSpaceRemove_spec inv s with ⟨-, many⟩ | ⟨run, -⟩ | ⟨core, u, run, -⟩
      · exact absurd small (Nat.not_le.mpr many)
      · cases run.symm.trans undefined
      · cases run.symm.trans undefined

/-- After every sequence of calls on an initially empty space that stays inside the stack the space
is the map of the strings inserted and not removed. -/
theorem run_strSpaceIsMap {calls : List StrSpaceCall} (run : Run StrSpaceReturns .null calls t) :
    StrSpaceIsMap calls t := by
  have start : StrSpaceOk .null ∧ (([] : List StrSpaceCall).filterMap insertedString).Perm
      (([] : List StrSpaceCall).filterMap removedString ++ stored .null) :=
    ⟨strSpaceOk_null, Perm.refl _⟩
  have kept := run.history (fun past t => StrSpaceOk t ∧
    (past.filterMap insertedString).Perm (past.filterMap removedString ++ stored t)) ?_ start
  · exact kept.1.isMap kept.2
  · rintro past s call s' ⟨inv, nodes⟩ returns
    obtain ⟨inv', moved⟩ := inv.step returns
    refine ⟨inv', ?_⟩
    have one : ∀ f : StrSpaceCall → Option StrSpaceCore,
        [call].filterMap f = (f call).toList := by
      intro f
      cases result : f call with
      | none => simp [result]
      | some p => simp [result]
    rw [filterMap_append, filterMap_append, one, one, append_assoc]
    calc past.filterMap insertedString ++ (insertedString call).toList
        |>.Perm ((past.filterMap removedString ++ stored s) ++ (insertedString call).toList) :=
          nodes.append_right _
      _ |>.Perm (past.filterMap removedString ++ ((insertedString call).toList ++ stored s)) := by
          rw [append_assoc]
          exact perm_append_comm.append_left _
      _ |>.Perm _ := moved.append_left _

end Runs

/-! ### Two strings with one hash -/

def clashing : CString := ⟨[155, 139, 64, 235], by decide⟩

def clashing' : CString := ⟨[188, 140, 97, 172], by decide⟩

/-- Both are inserted, the first once more, and then it is removed, which is the head of the
list. -/
def clashingCalls : List StrSpaceCall :=
  [(.insert 1 clashing, .inserted true), (.insert 2 clashing', .inserted true),
    (.insert 3 clashing, .inserted false), (.remove clashing, .removed (some ⟨1, clashing, 4⟩))]

/-- The tree with the given list. -/
def clashingTree (list : List StrSpaceCore) : StrSpaceTree :=
  .node ⟨⟨1884479323, 1884479323, list⟩, 1⟩ .null .null

theorem run_strSpaceIsMap_clashing : ∃ t, Run StrSpaceReturns .null clashingCalls t ∧
    StrSpaceIsMap clashingCalls t := by
  have first : StrSpaceReturns .null (.insert 1 clashing, .inserted true)
      (clashingTree [⟨1, clashing, 4⟩]) := by
    unfold StrSpaceReturns
    decide +kernel
  have second : StrSpaceReturns (clashingTree [⟨1, clashing, 4⟩])
      (.insert 2 clashing', .inserted true)
      (clashingTree [⟨1, clashing, 4⟩, ⟨2, clashing', 4⟩]) := by
    unfold StrSpaceReturns
    decide +kernel
  have third : StrSpaceReturns (clashingTree [⟨1, clashing, 4⟩, ⟨2, clashing', 4⟩])
      (.insert 3 clashing, .inserted false)
      (clashingTree [⟨1, clashing, 4⟩, ⟨2, clashing', 4⟩]) := by
    unfold StrSpaceReturns
    decide +kernel
  have last : StrSpaceReturns (clashingTree [⟨1, clashing, 4⟩, ⟨2, clashing', 4⟩])
      (.remove clashing, .removed (some ⟨1, clashing, 4⟩)) (clashingTree [⟨2, clashing', 4⟩]) := by
    unfold StrSpaceReturns
    decide +kernel
  have run : Run StrSpaceReturns .null clashingCalls (clashingTree [⟨2, clashing', 4⟩]) :=
    .next first (.next second (.next third (.next last (.done _))))
  exact ⟨_, run, run_strSpaceIsMap run⟩

/-! ### More strings than the stack allows

Every number is the hash of some string: the hashes that occur are closed under one more character,
which permutes them; so they are closed under taking the character 1 back and appending the
character 2 instead, which adds one. -/

theorem sdbmStep_eq (hash : UInt32) (c : UInt8) : sdbmStep hash c = c.toUInt32 + 65599 * hash := by
  refine UInt32.toNat_inj.mp ?_
  have bound := hash.toNat_lt
  rw [sdbmStep, UInt32.toNat_sub, UInt32.toNat_add, UInt32.toNat_add, UInt32.toNat_add,
    UInt32.toNat_mul, UInt32.toNat_shiftLeft, UInt32.toNat_shiftLeft]
  have six : (6 : UInt32).toNat % 32 = 6 := rfl
  have sixteen : (16 : UInt32).toNat % 32 = 16 := rfl
  have factor : (65599 : UInt32).toNat = 65599 := rfl
  rw [six, sixteen, factor, Nat.shiftLeft_eq, Nat.shiftLeft_eq]
  omega

/-- The factor of the hash has an inverse. -/
theorem sdbmStep_injective (c : UInt8) : Function.Injective fun hash => sdbmStep hash c := by
  have inverse : (2390421439 * 65599 : UInt32) = 1 := by decide +kernel
  intro hash hash' same
  have products : 65599 * hash = 65599 * hash' := by
    refine (UInt32.add_right_inj c.toUInt32).mp ?_
    rw [← sdbmStep_eq, ← sdbmStep_eq]
    exact same
  rw [← UInt32.one_mul hash, ← inverse, UInt32.mul_assoc, products, ← UInt32.mul_assoc, inverse,
    UInt32.one_mul]

theorem sdbmStep_two (hash : UInt32) : sdbmStep hash 2 = sdbmStep hash 1 + 1 := by
  have one : (1 : UInt8).toUInt32.toNat = 1 := rfl
  have two : (2 : UInt8).toUInt32.toNat = 2 := rfl
  refine UInt32.toNat_inj.mp ?_
  rw [sdbmStep_eq, sdbmStep_eq, UInt32.toNat_add, UInt32.toNat_add, UInt32.toNat_add, one, two,
    UInt32.toNat_one]
  omega

/-- A hash some string has. -/
def Hashed (hash : UInt32) : Prop := ∃ s : CString, hashOf s.chars = hash

variable {hash : UInt32}

theorem Hashed.append (hashed : Hashed hash) {c : UInt8} (char : c ≠ 0) :
    Hashed (sdbmStep hash c) := by
  obtain ⟨s, rfl⟩ := hashed
  have noNul : 0 ∉ s.chars ++ [c] := by
    rw [mem_append, mem_singleton, not_or]
    exact ⟨s.noNul, char.symm⟩
  exact ⟨⟨s.chars ++ [c], noNul⟩, by rw [hashOf, foldl_append]; rfl⟩

theorem finite_hashed : Finite { hash // Hashed hash } := by
  refine Finite.of_injective (fun hash => (⟨hash.1.toNat, hash.1.toNat_lt⟩ : Fin (2 ^ 32))) ?_
  intro hash hash' same
  exact Subtype.ext (UInt32.toNat_inj.mp (congrArg Fin.val same))

theorem Hashed.succ (hashed : Hashed hash) : Hashed (hash + 1) := by
  have one : (1 : UInt8) ≠ 0 := by decide
  have two : (2 : UInt8) ≠ 0 := by decide
  have finite := finite_hashed
  have injective : Function.Injective fun before : { hash // Hashed hash } =>
      (⟨_, before.2.append one⟩ : { hash // Hashed hash }) :=
    fun left right same => Subtype.ext (sdbmStep_injective 1 (Subtype.mk.inj same))
  obtain ⟨before, step⟩ := Finite.injective_iff_surjective.mp injective ⟨hash, hashed⟩
  have next := before.2.append two
  rwa [sdbmStep_two, Subtype.mk.inj step] at next

theorem hashed_all (n : Nat) : Hashed (UInt32.ofNat n) := by
  induction n with
  | zero => exact ⟨⟨[], not_mem_nil⟩, rfl⟩
  | succ n ih =>
    rw [UInt32.ofNat_add]
    exact ih.succ

/-- A string with the hash `n`. -/
noncomputable def manyString (n : Nat) : CString := (hashed_all n).choose

variable {n : Nat}

theorem hashOf_manyString (small : n < 2 ^ 32) : (hashOf (manyString n).chars).toNat = n := by
  rw [manyString, (hashed_all n).choose_spec]
  exact UInt32.toNat_ofNat_of_lt' small

/-- The node of such a string, at the address `n`. -/
noncomputable def manyCore (n : Nat) : StrSpaceCore :=
  ⟨n, manyString n, (manyString n).chars.length⟩

/-- Inserting strings with new hashes one after the other. -/
theorem run_manyStrings {calls : List StrSpaceCall} {m : Nat} {t t' : StrSpaceTree}
    (inv : StrSpaceOk t) (nodes : (stored t).Perm ((range n).map manyCore)) (small : n + m ≤ 2 ^ 32)
    (ops : calls.map Prod.fst = (range' n m).map fun i => .insert i (manyString i))
    (run : Run StrSpaceReturns t calls t') :
    StrSpaceOk t' ∧ (stored t').Perm ((range (n + m)).map manyCore) := by
  induction run generalizing m n with
  | done =>
    cases m with
    | zero => exact ⟨inv, nodes⟩
    | succ m => cases ops
  | @next s next u call calls taken rest ih =>
    cases m with
    | zero => cases ops
    | succ m =>
      rw [range'_succ, map_cons, map_cons] at ops
      obtain ⟨first, others⟩ := cons.inj ops
      obtain ⟨op, result⟩ := call
      subst first
      obtain ⟨inv', moved⟩ := inv.step taken
      obtain ⟨⟨ok, v⟩, run, pair⟩ := map_eq_some_iff.mp taken
      cases pair
      have fresh : ∀ core ∈ stored s, core.pszString ≠ manyString n := by
        intro core member same
        obtain ⟨i, below, rfl⟩ := List.mem_map.mp (nodes.mem_iff.mp member)
        have less := mem_range.mp below
        have hash := hashOf_manyString (show i < 2 ^ 32 by omega)
        have strings : manyString i = manyString n := same
        rw [strings, hashOf_manyString (by omega)] at hash
        exact less.ne hash.symm
      rcases rtStrSpaceInsert_spec inv n (manyString n) with
        ⟨run', -⟩ | ⟨-, core, member, same⟩ | ⟨v', run', -, -, grown⟩
      · cases run'.symm.trans run
      · exact absurd same (fresh core member)
      · cases run'.symm.trans run
        have nodes' : (stored v).Perm ((range (n + 1)).map manyCore) := by
          rw [range_succ, map_append]
          refine grown.trans ((nodes.cons _).trans ?_)
          exact (perm_append_singleton (manyCore n) _).symm
        have final := ih inv' nodes' (by omega) others
        rwa [Nat.add_assoc, Nat.add_comm 1 m] at final

/-- Strings with different hashes are on lists of their own. -/
theorem StrSpaceOk.length_eq {t : StrSpaceTree} (inv : StrSpaceOk t)
    (hashes : ((stored t).map fun core => hashOf core.pszString.chars).Nodup) :
    (entries t).length = (stored t).length := by
  refine Nat.le_antisymm inv.length_le ?_
  rw [stored, map_flatMap, nodup_flatMap] at hashes
  rw [stored, length_flatMap]
  have each : ∀ nodes : List StrSpaceEntry, (∀ e ∈ nodes, e ∈ entries t) →
      (nodes.map fun e => e.data.length).sum ≤ nodes.length := by
    intro nodes within
    induction nodes with
    | nil => exact Nat.le_refl _
    | cons e rest ih =>
      have entry := within e mem_cons_self
      have own := hashes.1 e entry
      have single : e.data.length ≤ 1 := by
        cases list : e.data with
        | nil => exact Nat.zero_le _
        | cons head tail =>
          cases tail with
          | nil => exact Nat.le_refl _
          | cons second tail =>
            have key := (inv.lists e entry).hashes
            rw [list] at key own
            have left := (key head mem_cons_self).1
            have right := (key second (mem_cons_of_mem _ mem_cons_self)).1
            rw [map_cons, map_cons, nodup_cons] at own
            exact absurd (mem_cons.mpr (.inl (UInt32.toNat_inj.mp (left.trans right.symm)))) own.1
      have others := ih fun other member => within other (mem_cons_of_mem e member)
      rw [length_cons, map_cons, sum_cons]
      omega
  exact each _ fun e member => member

/-- No run inserts strings with 2^28 different hashes: a tree that holds them is higher than the
stack, so some insertion writes behind the end of it. -/
theorem strSpace_many_overflows : ¬ ∃ calls t,
    calls.map Prod.fst =
        (range' 0 (2 ^ 28)).map (fun i => StrSpaceOp.insert i (manyString i)) ∧
      Run StrSpaceReturns .null calls t := by
  rintro ⟨calls, t, ops, run⟩
  obtain ⟨inv, nodes⟩ := run_manyStrings strSpaceOk_null (Perm.refl _) (by decide) ops run
  rw [Nat.zero_add] at nodes
  have hashes : ((stored t).map fun core => hashOf core.pszString.chars).Nodup := by
    rw [(nodes.map fun core => hashOf core.pszString.chars).nodup_iff, List.map_map]
    refine Nodup.map_on ?_ nodup_range
    intro i below j below' same
    have left := hashOf_manyString ((mem_range.mp below).trans (by decide))
    have right := hashOf_manyString ((mem_range.mp below').trans (by decide))
    have equal : hashOf (manyString i).chars = hashOf (manyString j).chars := same
    rw [← left, ← right, equal]
  have count := inv.length_eq hashes
  rw [nodes.length_eq, length_map, length_range] at count
  have size := t.length_inorder_lt
  have same : t.inorder.length = (entries t).length := (length_map _).symm
  have levels : 2 ^ t.depth ≤ 2 ^ 28 := Nat.pow_le_pow_right Nat.two_pos inv.ok.depth
  rw [same, count] at size
  exact absurd levels (Nat.not_le_of_lt size)

end VBox.Runtime
