import VBox.Vmm.Gmm.Arranged

/-!
The books of an allocation that picks its pages.

Every page that is picked is one that is wanted no longer, and one free page less in the set
of its chunk. An allocation that goes through all lists of a set without getting what it
wants leaves the set empty.
-/

namespace VBox.Vmm

open Function (update)
open VBox.Lib
open GmmChunk (Taken isPrivate isShared isPrivateOf ofKind)

/-- The free pages in the sets that are not bound to a VM. -/
noncomputable def Gmm.freeUnbound (g : Gmm) : Nat := g.freeOf .privateX + g.freeOf .shared

/-- What an allocation has picked since. -/
structure Picked (hGVM : Nat) (p p' : Pick) : Prop where
  arranged : p'.gmm.Arranged
  counters : Gmm.SameCounters p.gmm p'.gmm
  amount : ∃ n, p'.ids.length = p.ids.length + n ∧ p'.left.length + n = p.left.length ∧
    p'.gmm.used = p.gmm.used + n ∧
    ∀ h, p'.gmm.owned h = p.gmm.owned h + if h = hGVM then n else 0
  stays : ∀ id pSet n, p'.gmm.shelf id = some (pSet, n) → ∃ m, p.gmm.shelf id = some (pSet, m)
  enough : p.left.length ≤ p.gmm.freeUnbound → p'.left.length ≤ p'.gmm.freeUnbound

namespace Picked

variable {hGVM id : Nat} {p p' p'' : Pick}

theorem refl (arranged : p.gmm.Arranged) : Picked hGVM p p :=
  ⟨arranged, .refl _, ⟨0, rfl, rfl, (Nat.add_zero _).symm, fun h => by simp⟩,
    fun _ _ n on => ⟨n, on⟩, fun enough => enough⟩

theorem trans (first : Picked hGVM p p') (second : Picked hGVM p' p'') : Picked hGVM p p'' := by
  refine ⟨second.arranged, first.counters.trans second.counters, ?_, ?_,
    fun enough => second.enough (first.enough enough)⟩
  · obtain ⟨n, ids, left, used, owned⟩ := first.amount
    obtain ⟨m, ids', left', used', owned'⟩ := second.amount
    refine ⟨n + m, by omega, by omega, by omega, ?_⟩
    intro h
    rw [owned', owned]
    split <;> omega
  · intro i pSet n on
    obtain ⟨m, on⟩ := second.stays i pSet n on
    exact first.stays i pSet m on

/-- Beside the chunk's counts nothing changes but its place. -/
theorem freeOf_add {g g' : Gmm} {v : Option (SetId × Nat)} (known : id ∈ chunkIds)
    (shelf : g'.shelf = update g.shelf id v) (pSet : SetId) :
    g'.freeOf pSet + freeOn pSet (g.shelf id) = g.freeOf pSet + freeOn pSet v := by
  rw [Gmm.freeOf, Gmm.freeOf, shelf]
  exact sum_update_of_mem known (freeOn pSet)

/-- The set of a chunk loses the pages that are taken. -/
theorem freeOf_drop {g g' : Gmm} {set : SetId} {before after n : Nat} (known : id ∈ chunkIds)
    (shelf : g'.shelf = update g.shelf id (if 0 < after then some (set, after) else none))
    (old : g.shelf id = if 0 < before then some (set, before) else none)
    (cFree : after + n = before) (pSet : SetId) :
    g'.freeOf pSet + (if pSet = set then n else 0) = g.freeOf pSet := by
  have sums := freeOf_add known shelf pSet
  rw [old] at sums
  by_cases same : pSet = set
  · subst same
    rw [if_pos rfl]
    split at sums <;> split at sums <;> simp only [freeOn, if_true] at sums <;> omega
  · rw [if_neg same]
    split at sums <;> split at sums <;> simp only [freeOn, if_neg (Ne.symm same)] at sums <;> omega

/-- The chunk step as one relinking. -/
theorem chunk_eq (owner : Nat) (arranged : p.gmm.Arranged) (handle : hGVM < 2 ^ 16) {chunk : GmmChunk}
    (here : p.gmm.chunks id = some chunk) : ∃ taken ids left pSet n,
    p.allocatePagesFromChunk hGVM id { chunk with hGVM := owner } =
      ⟨((p.gmm.unlinkChunk id { chunk with hGVM := owner }).setChunk id taken).linkChunk id taken
        pSet, ids, left⟩ ∧
    Taken hGVM n { chunk with hGVM := owner, pSet := none } taken ∧
    (∀ s, chunk.pSet = some s → s = pSet) ∧
    ids.length = p.ids.length + n ∧ left.length + n = p.left.length ∧
    (left ≠ [] → taken.cFree = 0) := by
  obtain ⟨-, counted, linked⟩ := arranged.chunks id chunk here
  have counted' : { chunk with hGVM := owner, pSet := none }.Counted :=
    counted.congr rfl rfl rfl rfl rfl
  obtain ⟨n, taken, ids, left, stop⟩ := GmmChunk.takePages_taken handle id p.ids p.left counted'
  have all := taken
  unfold Pick.allocatePagesFromChunk
  simp only
  generalize Pick.takePages hGVM id p.ids p.left { chunk with hGVM := owner, pSet := none } = r at *
  obtain ⟨after, ids', left'⟩ := r
  cases on : chunk.pSet with
  | none =>
    have none : after.cFree = 0 := by
      have free := taken.cFree
      simp only at free
      rw [on] at linked
      by_contra some
      exact linked.1 (by omega) rfl
    refine ⟨after, ids', left', .privateX, n, ?_, all, ?_, ids, left, stop⟩
    · simp only [Gmm.linkChunk, none, Nat.lt_irrefl, if_false]
    · intro s eq
      cases eq
  | some pSet =>
    refine ⟨after, ids', left', pSet, n, rfl, all, ?_, ids, left, stop⟩
    intro s eq
    exact (Option.some.inj eq).symm

/-- Pages are taken from a chunk; if more are wanted, it has no free page left. -/
theorem chunk (owner : Nat) (arranged : p.gmm.Arranged) (handle : hGVM < 2 ^ 16) {chunk : GmmChunk}
    (here : p.gmm.chunks id = some chunk) :
    Picked hGVM p (p.allocatePagesFromChunk hGVM id { chunk with hGVM := owner }) ∧
    (∀ other, other ≠ id → (p.allocatePagesFromChunk hGVM id
      { chunk with hGVM := owner }).gmm.shelf other = p.gmm.shelf other) ∧
    ((p.allocatePagesFromChunk hGVM id { chunk with hGVM := owner }).left ≠ [] →
      (p.allocatePagesFromChunk hGVM id { chunk with hGVM := owner }).gmm.shelf id = none) := by
  obtain ⟨known, -, -⟩ := arranged.chunks id chunk here
  obtain ⟨after, ids', left', pSet, n, eq, taken, home, ids, left, stop⟩ :=
    chunk_eq owner arranged handle here
  have same : { chunk with hGVM := owner }.shelf = chunk.shelf := rfl
  obtain ⟨arranged', chunks, counters⟩ := arranged.relink pSet here same taken.counted taken.pSet
  rw [eq]
  generalize ((p.gmm.unlinkChunk id { chunk with hGVM := owner }).setChunk id after).linkChunk id
    after pSet = g' at *
  have shelf := Gmm.shelf_update chunks
  have cFree := taken.cFree
  simp only at cFree
  have place : (some { after with pSet := Gmm.linkedIn after pSet }).bind GmmChunk.shelf =
      if 0 < after.cFree then some (pSet, after.cFree) else none := by
    unfold Gmm.linkedIn
    split <;> rfl
  rw [place] at shelf
  have used : g'.used = p.gmm.used + n := by
    have sums := Gmm.total_update chunks known fun chunk => chunk.cPrivate + chunk.cShared
    have more := taken.used
    rw [here] at sums
    simp only [Option.map_some, Option.getD_some] at sums more
    rw [Gmm.used, Gmm.used]
    omega
  have owned : ∀ h, g'.owned h = p.gmm.owned h + if h = hGVM then n else 0 := by
    intro h
    have sums := Gmm.total_update chunks known (·.count (isPrivateOf h))
    have more : after.count (isPrivateOf h) =
      chunk.count (isPrivateOf h) + if h = hGVM then n else 0 := taken.owned h
    have pages : { after with pSet := Gmm.linkedIn after pSet }.count (isPrivateOf h) =
      after.count (isPrivateOf h) := rfl
    rw [here] at sums
    simp only [Option.map_some, Option.getD_some] at sums
    rw [pages] at sums
    rw [Gmm.owned, Gmm.owned]
    omega
  have old : p.gmm.shelf id = if 0 < chunk.cFree then some (pSet, chunk.cFree) else none := by
    rcases arranged.shelf_cases here with ⟨none, zero⟩ | ⟨s, on, some⟩
    · rw [none, zero]
      rfl
    · rw [some, home s on]
      have linked := (arranged.chunks id chunk here).2.2
      rw [on] at linked
      rw [if_pos (linked.2 (Option.some_ne_none s))]
  refine ⟨⟨arranged', counters, ⟨n, ids, left, used, owned⟩, ?_, ?_⟩, ?_, ?_⟩
  · intro other s m on
    simp only [shelf] at on
    by_cases eq' : other = id
    · rw [eq', Function.update_self] at on
      split at on
      · cases on
        exact ⟨chunk.cFree, by rw [eq', old, if_pos (by omega)]⟩
      · cases on
    · rw [Function.update_of_ne eq'] at on
      exact ⟨m, on⟩
  · intro enough
    have drop := freeOf_drop known shelf old cFree
    have privates := drop .privateX
    have shared := drop .shared
    simp only [Gmm.freeUnbound] at enough ⊢
    by_cases first : SetId.privateX = pSet
    · subst first
      simp only [if_true, reduceCtorEq, if_false] at privates shared
      omega
    · rw [if_neg first] at privates
      by_cases second : SetId.shared = pSet
      · rw [if_pos second] at shared
        omega
      · rw [if_neg second] at shared
        omega
  · intro other ne
    simp only [shelf]
    exact Function.update_of_ne ne _ _
  · intro more
    simp only [shelf, Function.update_self, stop more, Nat.lt_irrefl, if_false]

/-- The pages that are picked are booked, however the lists are scanned. -/
theorem rule (handle : hGVM < 2 ^ 16) :
    PickRule hGVM fun p p' => p.gmm.Arranged → Picked hGVM p p' where
  refl _ arranged := .refl arranged
  trans first second arranged := (first arranged).trans (second (first arranged).arranged)
  chunk _ _ _ _ here arranged := (Picked.chunk _ arranged handle here).1
  hint p id arranged := by
    exact ⟨arranged.congr rfl rfl rfl, .setVm p.gmm hGVM rfl, ⟨0, rfl, rfl, (Nat.add_zero _).symm, fun h => by
        simp only [ite_self]
        rfl⟩,
      fun _ _ n on => ⟨n, on⟩, fun enough => enough⟩

/-! ### Scanning a whole set -/

/-- A scan of a list that takes from every chunk. -/
theorem scanList_all (handle : hGVM < 2 ^ 16) (ids : List Nat) (p : Pick)
    (arranged : p.gmm.Arranged) :
    ((p.scanList hGVM ⟨fun _ => true, false, false⟩ ids).2 = true →
      (p.scanList hGVM ⟨fun _ => true, false, false⟩ ids).1.left = []) ∧
    ((p.scanList hGVM ⟨fun _ => true, false, false⟩ ids).2 = false →
      (∀ i ∈ ids, (p.scanList hGVM ⟨fun _ => true, false, false⟩ ids).1.gmm.shelf i = none) ∧
      ∀ i, (p.scanList hGVM ⟨fun _ => true, false, false⟩ ids).1.gmm.shelf i = none ∨
        (p.scanList hGVM ⟨fun _ => true, false, false⟩ ids).1.gmm.shelf i = p.gmm.shelf i) := by
  induction ids generalizing p with
  | nil =>
    refine ⟨?_, fun _ => ⟨?_, fun i => .inr rfl⟩⟩
    · intro returned
      cases returned
    · intro i mem
      cases mem
  | cons id ids ih =>
    unfold Pick.scanList
    cases here : p.gmm.chunks id with
    | none =>
      obtain ⟨done, through⟩ := ih p arranged
      refine ⟨done, fun eq => ⟨?_, (through eq).2⟩⟩
      intro i mem
      rcases List.mem_cons.1 mem with rfl | mem
      · have none : p.gmm.shelf i = none := by
          rw [Gmm.shelf, here]
          rfl
        rcases (through eq).2 i with off | off
        · exact off
        · rw [off, none]
      · exact (through eq).1 i mem
    | some chunk =>
      obtain ⟨picked, others, stop⟩ := Picked.chunk chunk.hGVM arranged handle here
      simp only [if_true, Bool.false_eq_true, if_false]
      generalize p.allocatePagesFromChunk hGVM id { chunk with hGVM := chunk.hGVM } = q at *
      split
      · rename_i got
        exact ⟨fun _ => got, Bool.noConfusion⟩
      · rename_i more
        obtain ⟨done, through⟩ := ih q picked.arranged
        refine ⟨done, fun eq => ⟨?_, ?_⟩⟩
        · intro i mem
          rcases List.mem_cons.1 mem with rfl | mem
          · rcases (through eq).2 i with off | off
            · exact off
            · rw [off, stop more]
          · exact (through eq).1 i mem
        · intro i
          rcases (through eq).2 i with off | off
          · exact .inl off
          · by_cases same : i = id
            · subst same
              exact .inl (off.trans (stop more))
            · exact .inr (off.trans (others i same))

theorem scanLists_all (handle : hGVM < 2 ^ 16) (pSet : SetId) (iLists : List Nat) (p : Pick)
    (arranged : p.gmm.Arranged) :
    (p.scanLists hGVM ⟨fun _ => true, false, false⟩ pSet iLists).left = [] ∨
    ∀ i, (p.scanLists hGVM ⟨fun _ => true, false, false⟩ pSet iLists).gmm.shelf i = none ∨
      ((p.scanLists hGVM ⟨fun _ => true, false, false⟩ pSet iLists).gmm.shelf i = p.gmm.shelf i ∧
        ∀ n, p.gmm.shelf i = some (pSet, n) → Gmm.selectFreeSetList n ∉ iLists) := by
  induction iLists generalizing p with
  | nil => exact .inr fun i => .inr ⟨rfl, fun n _ mem => by cases mem⟩
  | cons iList iLists ih =>
    obtain ⟨done, through⟩ := scanList_all handle ((p.gmm.sets pSet).apLists iList) p arranged
    have picked := (rule handle).scanList ⟨fun _ => true, false, false⟩
      ((p.gmm.sets pSet).apLists iList) p arranged
    unfold Pick.scanLists
    simp only
    generalize p.scanList hGVM ⟨fun _ => true, false, false⟩
      ((p.gmm.sets pSet).apLists iList) = r at *
    obtain ⟨q, returned⟩ := r
    cases returned with
    | true => exact .inl (done rfl)
    | false =>
      obtain ⟨emptied, same⟩ := through rfl
      rcases ih q picked.arranged with got | rest
      · exact .inl got
      · right
        intro i
        rcases rest i with off | ⟨still, other⟩
        · exact .inl off
        · rcases same i with off | same
          · exact .inl (still.trans off)
          · refine .inr ⟨still.trans same, ?_⟩
            intro n on mem
            rcases List.mem_cons.1 mem with eq | mem
            · have listed := (arranged.shelved.lists pSet iList i).2 ⟨n, on, eq.symm⟩
              have off := emptied i listed
              simp only at off same
              rw [off, on] at same
              cases same
            · exact other n (same.trans on) mem

/-- Going through all lists of a set gets what is wanted or leaves the set empty. -/
theorem indiscriminately_all (handle : hGVM < 2 ^ 16) (pSet : SetId) (p : Pick)
    (arranged : p.gmm.Arranged) : (p.indiscriminately hGVM pSet).left = [] ∨
      ∀ i n, (p.indiscriminately hGVM pSet).gmm.shelf i ≠ some (pSet, n) := by
  rcases scanLists_all handle pSet (List.range 33).reverse p arranged with got | rest
  · exact .inl got
  · right
    intro i n on
    rcases rest i with off | ⟨still, other⟩
    · cases off.symm.trans on
    · have before := still.symm.trans on
      apply other n before
      have small := (arranged.shelved.within i pSet n before).2
      rw [List.mem_reverse, List.mem_range, Gmm.selectFreeSetList]
      rw [chunkNumPages] at small
      omega

theorem freeOf_eq_zero {g : Gmm} {pSet : SetId} (none : ∀ i n, g.shelf i ≠ some (pSet, n)) :
    g.freeOf pSet = 0 := by
  apply Finset.sum_eq_zero
  intro i _
  cases on : g.shelf i with
  | none => rfl
  | some place =>
    obtain ⟨s, n⟩ := place
    apply if_neg
    rintro rfl
    exact none i n on

/-- An allocation that wants no more than there is gets it. -/
theorem scavenge (handle : hGVM < 2 ^ 16) (p : Pick) (arranged : p.gmm.Arranged)
    (enough : p.left.length ≤ p.gmm.freeUnbound) :
    ((p.indiscriminately hGVM .privateX).ifMore (Pick.indiscriminately hGVM .shared)).left = [] := by
  have first := (rule handle).indiscriminately .privateX p arranged
  unfold Pick.ifMore
  split
  · assumption
  · rename_i more
    have second := (rule handle).indiscriminately .shared _ first.arranged
    rcases indiscriminately_all handle .privateX p arranged with got | privates
    · exact absurd got more
    · rcases indiscriminately_all handle .shared _ first.arranged with got | shared
      · exact got
      · have within := second.enough (first.enough enough)
        have privates' := freeOf_eq_zero fun i n on => by
          obtain ⟨m, before⟩ := second.stays i .privateX n on
          exact privates i m before
        rw [Gmm.freeUnbound, privates', freeOf_eq_zero shared] at within
        exact List.eq_nil_of_length_eq_zero (Nat.le_zero.1 within)

end Picked

end VBox.Vmm
