import VBox.Vmm.Gmm.Accounting
import VBox.Lib.UpdateSum
import Mathlib.Data.Nat.ModEq
import Mathlib.Data.Set.Finite.Basic

/-!
The free sets: which chunks are on which list, and what the sets count.

A chunk that is on a list has a place there, its set and its number of free pages. A set is
right if its lists and its counter are those of the places; the operations on the lists
change one place each.
-/

namespace VBox.Vmm

open Function (update)
open VBox.Lib

/-- A counter of `w` bits for a total, from which something of the total is taken. -/
theorem subW_total {w a t b : Nat} (eq : a = (t + b) % 2 ^ w) (small : b ≤ 2 ^ w) :
    subW w a b = t % 2 ^ w := by
  subst eq
  have whole : (t + b) % 2 ^ w + 2 ^ w - b + b = (t + b) % 2 ^ w + 2 ^ w := by omega
  apply Nat.ModEq.add_right_cancel' b
  rw [whole]
  exact (Nat.add_mod_right _ _).trans (Nat.mod_mod _ _)

theorem addW_total {w a t : Nat} (b : Nat) (eq : a = t % 2 ^ w) : addW w a b = (t + b) % 2 ^ w := by
  rw [addW, eq, Nat.mod_add_mod]

/-- The place of a chunk on the lists: its set and its free pages. -/
def GmmChunk.shelf (chunk : GmmChunk) : Option (SetId × Nat) := chunk.pSet.map (·, chunk.cFree)

theorem GmmChunk.shelf_none {chunk : GmmChunk} (off : chunk.pSet = none) : chunk.shelf = none := by
  rw [GmmChunk.shelf, off]
  rfl

theorem GmmChunk.shelf_some {chunk : GmmChunk} {pSet : SetId} (on : chunk.pSet = some pSet) :
    chunk.shelf = some (pSet, chunk.cFree) := by
  rw [GmmChunk.shelf, on]
  rfl

/-- The free pages that a place counts for a set. -/
def freeOn (pSet : SetId) : Option (SetId × Nat) → Nat
  | some (s, n) => if s = pSet then n else 0
  | none => 0

/-- The ids a chunk can have. -/
noncomputable def chunkIds : Finset Nat := (Set.finite_le_nat chunkIdLast).toFinset

theorem mem_chunkIds {id : Nat} : id ∈ chunkIds ↔ id ≤ chunkIdLast :=
  (Set.finite_le_nat chunkIdLast).mem_toFinset

theorem chunkIds_eq : chunkIds = Finset.range (chunkIdLast + 1) := by
  ext id
  rw [mem_chunkIds, Finset.mem_range, Nat.lt_succ_iff]

namespace Gmm

variable {g g' : Gmm} {id : Nat}

def shelf (g : Gmm) (id : Nat) : Option (SetId × Nat) := (g.chunks id).bind GmmChunk.shelf

theorem shelf_of_chunk {chunk : GmmChunk} (here : g.chunks id = some chunk) :
    g.shelf id = chunk.shelf := by
  rw [shelf, here]
  rfl

theorem shelf_update {v : Option GmmChunk} (chunks : g'.chunks = update g.chunks id v) :
    g'.shelf = update g.shelf id (v.bind GmmChunk.shelf) := by
  funext other
  rw [shelf, chunks]
  by_cases eq : other = id
  · rw [eq, Function.update_self, Function.update_self]
  · rw [Function.update_of_ne eq, Function.update_of_ne eq]
    rfl

/-- The free pages of a set. -/
noncomputable def freeOf (g : Gmm) (pSet : SetId) : Nat := ∑ id ∈ chunkIds, freeOn pSet (g.shelf id)

/-- The lists and the counters of the sets are those of the places. -/
structure Shelved (g : Gmm) : Prop where
  within : ∀ id pSet n, g.shelf id = some (pSet, n) → id ∈ chunkIds ∧ n ≤ chunkNumPages
  lists : ∀ pSet iList id, id ∈ (g.sets pSet).apLists iList ↔
    ∃ n, g.shelf id = some (pSet, n) ∧ iList = selectFreeSetList n
  nodup : ∀ pSet iList, ((g.sets pSet).apLists iList).Nodup
  cFreePages : ∀ pSet, (g.sets pSet).cFreePages = g.freeOf pSet % 2 ^ 64

namespace Shelved

theorem congr (shelved : g.Shelved) (sets : g'.sets = g.sets) (shelf : g'.shelf = g.shelf) :
    g'.Shelved := by
  refine ⟨?_, ?_, ?_, ?_⟩
  · rw [shelf]
    exact shelved.within
  · rw [shelf, sets]
    exact shelved.lists
  · rw [sets]
    exact shelved.nodup
  · intro pSet
    rw [sets, freeOf, shelf]
    exact shelved.cFreePages pSet

/-- One place changes. -/
theorem place (shelved : g.Shelved) (known : id ∈ chunkIds) {v : Option (SetId × Nat)}
    (shelf : g'.shelf = update g.shelf id v)
    (fits : ∀ pSet n, v = some (pSet, n) → n ≤ chunkNumPages)
    (here : ∀ pSet iList, id ∈ (g'.sets pSet).apLists iList ↔
      ∃ n, v = some (pSet, n) ∧ iList = selectFreeSetList n)
    (others : ∀ pSet iList other, other ≠ id → (other ∈ (g'.sets pSet).apLists iList ↔
      other ∈ (g.sets pSet).apLists iList))
    (nodup : ∀ pSet iList, ((g'.sets pSet).apLists iList).Nodup)
    (counts : ∀ pSet t, (g.sets pSet).cFreePages = (t + freeOn pSet (g.shelf id)) % 2 ^ 64 →
      (g'.sets pSet).cFreePages = (t + freeOn pSet v) % 2 ^ 64) : g'.Shelved := by
  refine ⟨?_, ?_, nodup, ?_⟩
  · intro other pSet n on
    rw [shelf] at on
    by_cases eq : other = id
    · rw [eq, Function.update_self] at on
      exact ⟨eq ▸ known, fits pSet n on⟩
    · rw [Function.update_of_ne eq] at on
      exact shelved.within other pSet n on
  · intro pSet iList other
    rw [shelf]
    by_cases eq : other = id
    · rw [eq, Function.update_self]
      exact here pSet iList
    · rw [Function.update_of_ne eq, others pSet iList other eq]
      exact shelved.lists pSet iList other
  · intro pSet
    have before := Finset.sum_erase_add chunkIds (fun i => freeOn pSet (g.shelf i)) known
    have after := Finset.sum_erase_add chunkIds (fun i => freeOn pSet (g'.shelf i)) known
    have rest : ∑ i ∈ chunkIds.erase id, freeOn pSet (g'.shelf i) =
        ∑ i ∈ chunkIds.erase id, freeOn pSet (g.shelf i) := by
      apply Finset.sum_congr rfl
      intro i mem
      rw [shelf, Function.update_of_ne (Finset.ne_of_mem_erase mem)]
    rw [freeOf, ← after, rest]
    simp only [shelf, Function.update_self]
    apply counts
    rw [shelved.cFreePages, freeOf, ← before]

end Shelved

/-! ### The operations -/

theorem unlinkChunk_chunks {stored chunk : GmmChunk} (here : g.chunks id = some stored)
    (same : chunk.shelf = stored.shelf) : ∃ left, left.pSet = none ∧
      (g.unlinkChunk id chunk).chunks = update g.chunks id (some left) := by
  unfold unlinkChunk
  split
  · rename_i off
    have none : stored.pSet = none := by
      rw [GmmChunk.shelf_none off] at same
      exact Option.map_eq_none_iff.1 same.symm
    exact ⟨stored, none, (Function.update_eq_self_iff.2 here.symm).symm⟩
  · exact ⟨{ chunk with pSet := none }, rfl, rfl⟩

theorem Shelved.unlinkChunk (shelved : g.Shelved) {stored chunk : GmmChunk}
    (here : g.chunks id = some stored) (same : chunk.shelf = stored.shelf) :
    (g.unlinkChunk id chunk).Shelved := by
  obtain ⟨left, off, chunks⟩ := unlinkChunk_chunks here same
  have shelf := shelf_update chunks
  rw [Option.bind_some, GmmChunk.shelf_none off] at shelf
  cases on : chunk.pSet with
  | none =>
    have still : g.unlinkChunk id chunk = g := by
      unfold Gmm.unlinkChunk
      rw [on]
    rwa [still]
  | some pSet =>
    have old : g.shelf id = some (pSet, chunk.cFree) := by
      rw [shelf_of_chunk here, ← same, GmmChunk.shelf_some on]
    obtain ⟨known, small⟩ := shelved.within id pSet chunk.cFree old
    have sets : (g.unlinkChunk id chunk).sets = update g.sets pSet
        ⟨subW 64 (g.sets pSet).cFreePages chunk.cFree,
          fun i => ((g.sets pSet).apLists i).erase id⟩ := by
      unfold Gmm.unlinkChunk
      rw [on]
      rfl
    refine shelved.place known shelf ?_ ?_ ?_ ?_ ?_
    · intro _ _ eq
      cases eq
    · intro s iList
      constructor
      · intro mem
        rw [sets] at mem
        by_cases eq : s = pSet
        · rw [eq, Function.update_self] at mem
          exact absurd rfl ((shelved.nodup pSet iList).mem_erase_iff.1 mem).1
        · rw [Function.update_of_ne eq] at mem
          obtain ⟨n, on', -⟩ := (shelved.lists s iList id).1 mem
          rw [old] at on'
          cases on'
          exact absurd rfl eq
      · rintro ⟨n, eq, -⟩
        cases eq
    · intro s iList other ne
      rw [sets]
      by_cases eq : s = pSet
      · rw [eq, Function.update_self]
        exact List.mem_erase_of_ne ne
      · rw [Function.update_of_ne eq]
    · intro s iList
      rw [sets]
      by_cases eq : s = pSet
      · rw [eq, Function.update_self]
        exact (shelved.nodup pSet iList).erase id
      · rw [Function.update_of_ne eq]
        exact shelved.nodup s iList
    · intro s t count
      rw [old] at count
      rw [sets]
      by_cases eq : s = pSet
      · subst eq
        simp only [freeOn, if_true] at count
        rw [Function.update_self]
        exact subW_total count (small.trans (by decide))
      · rw [Function.update_of_ne eq, count, freeOn, if_neg (Ne.symm eq)]
        rfl

theorem Shelved.setChunk (shelved : g.Shelved) {chunk : GmmChunk} (same : g.shelf id = chunk.shelf) :
    (g.setChunk id chunk).Shelved := by
  refine shelved.congr rfl ?_
  have shelf := shelf_update (g.setChunk_chunks id chunk)
  rw [Option.bind_some, ← same, Function.update_eq_self] at shelf
  exact shelf

/-- A chunk goes to the front of the list for its free pages. -/
theorem Shelved.linkChunk (shelved : g.Shelved) (known : id ∈ chunkIds) {chunk : GmmChunk}
    (here : g.chunks id = some chunk) (off : chunk.pSet = none) (fits : chunk.cFree ≤ chunkNumPages)
    (pSet : SetId) : (g.linkChunk id chunk pSet).Shelved := by
  unfold Gmm.linkChunk
  split
  · rename_i some
    have old : g.shelf id = none := by rw [shelf_of_chunk here, GmmChunk.shelf_none off]
    have shelf : ∀ {set : FreeSet}, ((g.setSet pSet set).setChunk id
        { chunk with pSet := .some pSet }).shelf = update g.shelf id (.some (pSet, chunk.cFree)) := by
      intro set
      exact shelf_update (g := g) (v := .some { chunk with pSet := .some pSet }) rfl
    have fresh : ∀ iList, id ∉ (g.sets pSet).apLists iList := by
      intro iList mem
      obtain ⟨n, on, -⟩ := (shelved.lists pSet iList id).1 mem
      cases old.symm.trans on
    refine shelved.place known shelf ?_ ?_ ?_ ?_ ?_
    · intro s n eq
      cases eq
      exact fits
    · intro s iList
      constructor
      · intro mem
        by_cases eq : s = pSet
        · subst eq
          refine ⟨chunk.cFree, rfl, ?_⟩
          by_contra ne
          simp only [Gmm.setChunk, setSet, Function.update_self, Function.update_of_ne ne] at mem
          exact fresh iList mem
        · simp only [Gmm.setChunk, setSet, Function.update_of_ne eq] at mem
          obtain ⟨n, on, -⟩ := (shelved.lists s iList id).1 mem
          cases old.symm.trans on
      · rintro ⟨n, eq, rfl⟩
        cases eq
        simp [Gmm.setChunk, setSet]
    · intro s iList other ne
      by_cases eq : s = pSet
      · subst eq
        by_cases list : iList = selectFreeSetList chunk.cFree
        · subst list
          simp [Gmm.setChunk, setSet, ne]
        · simp [Gmm.setChunk, setSet, list]
      · simp [Gmm.setChunk, setSet, eq]
    · intro s iList
      by_cases eq : s = pSet
      · subst eq
        by_cases list : iList = selectFreeSetList chunk.cFree
        · subst list
          simp [Gmm.setChunk, setSet, fresh, shelved.nodup]
        · simp [Gmm.setChunk, setSet, list, shelved.nodup]
      · simp [Gmm.setChunk, setSet, eq, shelved.nodup]
    · intro s t count
      rw [old] at count
      by_cases eq : s = pSet
      · subst eq
        simp only [Gmm.setChunk, setSet, Function.update_self, freeOn, if_true]
        exact addW_total chunk.cFree count
      · simp only [Gmm.setChunk, setSet, Function.update_of_ne eq, freeOn, if_neg (Ne.symm eq)]
        exact count
  · exact shelved

/-- A chunk stays on its list with a page more. -/
theorem Shelved.countOne (shelved : g.Shelved) {stored : GmmChunk} (chunk : GmmChunk) {pSet : SetId}
    (here : g.chunks id = some stored) (on : stored.pSet = some pSet) (on' : chunk.pSet = some pSet)
    (more : chunk.cFree = stored.cFree + 1) (fits : chunk.cFree ≤ chunkNumPages)
    (same : selectFreeSetList chunk.cFree = selectFreeSetList stored.cFree) :
    ((g.setChunk id chunk).setSet pSet
      { g.sets pSet with cFreePages := addW 64 (g.sets pSet).cFreePages 1 }).Shelved := by
  have old : g.shelf id = some (pSet, stored.cFree) := by
    rw [shelf_of_chunk here, GmmChunk.shelf_some on]
  have shelf : ((g.setChunk id chunk).setSet pSet { g.sets pSet with
      cFreePages := addW 64 (g.sets pSet).cFreePages 1 }).shelf =
      update g.shelf id (some (pSet, chunk.cFree)) := by
    rw [← GmmChunk.shelf_some on']
    exact shelf_update (g := g) (v := some chunk) rfl
  have lists : ∀ s iList, (((g.setChunk id chunk).setSet pSet { g.sets pSet with
      cFreePages := addW 64 (g.sets pSet).cFreePages 1 }).sets s).apLists iList =
      (g.sets s).apLists iList := by
    intro s iList
    by_cases eq : s = pSet
    · subst eq
      simp [setSet, Gmm.setChunk]
    · simp [setSet, Gmm.setChunk, eq]
  refine shelved.place (shelved.within id pSet _ old).1 shelf ?_ ?_ ?_ ?_ ?_
  · intro s n eq
    cases eq
    exact fits
  · intro s iList
    rw [lists, shelved.lists, old]
    constructor
    · rintro ⟨n, eq, rfl⟩
      cases eq
      exact ⟨chunk.cFree, rfl, same.symm⟩
    · rintro ⟨n, eq, rfl⟩
      cases eq
      exact ⟨stored.cFree, rfl, same⟩
  · intro s iList other _
    rw [lists]
  · intro s iList
    rw [lists]
    exact shelved.nodup s iList
  · intro s t count
    rw [old] at count
    by_cases eq : s = pSet
    · subst eq
      simp only [freeOn, if_true] at count ⊢
      rw [more, ← Nat.add_assoc, ← addW_total 1 count]
      simp [setSet]
    · simp only [freeOn, if_neg (Ne.symm eq)] at count ⊢
      simpa [setSet, Gmm.setChunk, eq] using count

end Gmm

end VBox.Vmm
