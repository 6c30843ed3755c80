import VBox.Lib.IndexQueue
import VBox.Runtime.HandleTable
import Mathlib.Data.List.Range
import Mathlib.Data.List.Perm.Subperm

/-!
What the operations on a handle table keep.

The free list is a queue whose elements are exactly the free entries below `cCur`. An index is in
use with the entry found there, and every operation is described by what it does to the entries in
use.
-/

namespace VBox.Runtime.HandleTable

open List Option Function
open VBox.Lib (Threaded Queue)
open VBox.Storage (u32 u32Sub u32_of_lt)

/-! ### Indices in entries -/

theorem isFree_iff (pvObj : Nat) : isFree pvObj = true ↔ pvObj % 4 = 3 := by
  have low : pvObj &&& 3 = pvObj % 4 := Nat.and_two_pow_sub_one_eq_mod pvObj 2
  rw [isFree, low]
  exact beq_iff_eq

theorem setFreeIdx_eq (i : Nat) : setFreeIdx i = u32 i * 4 + 3 := by
  have added := Nat.shiftLeft_add_eq_or_of_lt (show 3 < 2 ^ 2 by decide) (u32 i)
  rw [setFreeIdx, ← added, Nat.shiftLeft_eq]

@[simp] theorem isFree_setFreeIdx (i : Nat) : isFree (setFreeIdx i) = true := by
  rw [isFree_iff, setFreeIdx_eq]
  omega

theorem getFreeIdx_setFreeIdx {i : Nat} (small : i < 2 ^ 32) : getFreeIdx (setFreeIdx i) = i := by
  rw [setFreeIdx_eq, getFreeIdx, Nat.shiftRight_eq_div_pow, u32_of_lt small]
  have back : (i * 4 + 3) / 2 ^ 2 = i := by omega
  rw [back, u32_of_lt small]

namespace Table

variable {table : Table} {i j : Nat} {entry : Entry} {free : List Nat}

/-! ### Entries -/

theorem entry_setEntry (present : (table.papvLevel1 (i / RTHT_LEVEL2_ENTRIES)).isSome) :
    (table.setEntry i entry).entry j = if j = i then entry else table.entry j := by
  obtain ⟨paTable, known⟩ := isSome_iff_exists.mp present
  unfold setEntry Table.entry
  by_cases level1 : j / RTHT_LEVEL2_ENTRIES = i / RTHT_LEVEL2_ENTRIES
  · simp only [level1, update_self, known, map_some]
    by_cases level2 : j % RTHT_LEVEL2_ENTRIES = i % RTHT_LEVEL2_ENTRIES
    · have same : j = i := by
        rw [← Nat.div_add_mod j RTHT_LEVEL2_ENTRIES, level1, level2, Nat.div_add_mod]
      rw [level2, update_self, if_pos same]
    · have other : j ≠ i := fun same => level2 (congrArg (· % RTHT_LEVEL2_ENTRIES) same)
      rw [update_of_ne level2, if_neg other]
  · have other : j ≠ i := fun same => level1 (congrArg (· / RTHT_LEVEL2_ENTRIES) same)
    simp only [update_of_ne level1]
    rw [if_neg other]

/-- Writing an entry leaves the first level as it is. -/
theorem isSome_setEntry {k : Nat} :
    ((table.setEntry i entry).papvLevel1 k).isSome = (table.papvLevel1 k).isSome := by
  unfold setEntry
  by_cases same : k = i / RTHT_LEVEL2_ENTRIES
  · subst same
    simp only [update_self, isSome_map]
  · simp only [update_of_ne same]

/-- The entry at an index, if it is in use. -/
def used (table : Table) (i : Nat) : Option Entry :=
  if i < table.cCur ∧ isFree (table.entry i).pvObj = false then some (table.entry i) else none

/-- What a table is never changed in. -/
structure SameKind (table table' : Table) : Prop where
  fContext : table'.fContext = table.fContext
  uBase : table'.uBase = table.uBase
  cMax : table'.cMax = table.cMax

/-- A table between two calls. -/
structure Sound (table : Table) (free : List Nat) : Prop where
  queue : Queue NIL_RTHT_INDEX table.next table.iFreeHead table.iFreeTail free
  mem : ∀ i, i ∈ free ↔ i < table.cCur ∧ isFree (table.entry i).pvObj = true
  count : table.cCurAllocated + free.length = table.cCur
  aligned : table.cCur % RTHT_LEVEL2_ENTRIES = 0
  alignedMax : table.cMax % RTHT_LEVEL2_ENTRIES = 0
  room : table.cCur ≤ table.cMax
  small : table.cMax ≤ 0xfffff800
  present : ∀ k < table.cCur / RTHT_LEVEL2_ENTRIES, (table.papvLevel1 k).isSome = true
  sized : table.cCur / RTHT_LEVEL2_ENTRIES ≤ table.cLevel1
  base : table.uBase < 2 ^ 32

namespace Sound

variable (sound : table.Sound free)
include sound

theorem lt_of_mem (member : i ∈ free) : i < table.cCur := ((sound.mem i).mp member).1

theorem cCur_le : table.cCur ≤ 0xfffff800 := sound.room.trans sound.small

theorem presentAt (below : i < table.cCur) :
    (table.papvLevel1 (i / RTHT_LEVEL2_ENTRIES)).isSome = true := by
  apply sound.present
  have aligned := sound.aligned
  unfold RTHT_LEVEL2_ENTRIES at *
  omega

theorem lookupIdx_eq :
    table.lookupIdx i = if i < table.cCur then some (table.entry i) else none := by
  rw [lookupIdx]
  split
  case isFalse => rfl
  case isTrue below =>
    obtain ⟨paTable, known⟩ := isSome_iff_exists.mp (sound.presentAt below)
    rw [Table.entry, known]
    rfl

/-- An index below `cCur` is free or in use. -/
theorem used_eq_none_iff : table.used i = none ↔ i < table.cCur → i ∈ free := by
  rw [used, sound.mem]
  cases isFree (table.entry i).pvObj <;> simp

theorem used_of_mem (member : i ∈ free) : table.used i = none :=
  sound.used_eq_none_iff.mpr fun _ => member

end Sound

/-! ### Taking the first free entry -/

theorem Sound.take {rest : List Nat} {pvObj pvCtx : Nat} (sound : table.Sound (i :: rest))
    (object : isFree pvObj = false) :
    (table.take i pvObj pvCtx).Sound rest ∧ table.SameKind (table.take i pvObj pvCtx) ∧
      ∀ j, (table.take i pvObj pvCtx).used j =
        if j = i then some ⟨pvObj, pvCtx⟩ else table.used j := by
  have below : i < table.cCur := sound.lt_of_mem mem_cons_self
  have entries : ∀ j, (table.take i pvObj pvCtx).entry j =
      if j = i then ⟨pvObj, pvCtx⟩ else table.entry j := fun j =>
    entry_setEntry (sound.presentAt below)
  have apart : i ∉ rest := (nodup_cons.mp sound.queue.nodup).1
  have away : ∀ j ∈ rest, j ≠ i := by
    rintro j member rfl
    exact apart member
  refine ⟨?_, ⟨rfl, rfl, rfl⟩, ?_⟩
  · refine
      { queue := sound.queue.pop.2.congr fun j member => ?_
        mem := fun j => ?_
        count := ?_
        aligned := sound.aligned
        alignedMax := sound.alignedMax
        room := sound.room
        small := sound.small
        present := fun k bound => isSome_setEntry.trans (sound.present k bound)
        sized := sound.sized
        base := sound.base }
    · rw [next, entries, if_neg (away j member), next]
    · rw [entries]
      constructor
      · intro member
        rw [if_neg (away j member)]
        exact (sound.mem j).mp (mem_cons_of_mem _ member)
      · rintro ⟨bound, isfree⟩
        split at isfree
        case isTrue => rw [object] at isfree; cases isfree
        case isFalse other =>
          exact (mem_cons.mp ((sound.mem j).mpr ⟨bound, isfree⟩)).resolve_left other
    · have count : table.cCurAllocated + (rest.length + 1) = table.cCur := sound.count
      exact (Nat.succ_add_eq_add_succ _ _).trans count
  · intro j
    unfold used
    rw [entries]
    by_cases same : j = i
    · subst same
      rw [if_pos rfl, if_pos rfl, if_pos ⟨below, object⟩]
    · rw [if_neg same, if_neg same]
      rfl

/-! ### Putting free entries behind the last one -/

theorem entry_linkTail (present : table.iFreeTail ≠ NIL_RTHT_INDEX →
      (table.papvLevel1 (table.iFreeTail / RTHT_LEVEL2_ENTRIES)).isSome) :
    (table.linkTail i).entry j =
      if table.iFreeTail ≠ NIL_RTHT_INDEX ∧ j = table.iFreeTail then
        { table.entry table.iFreeTail with pvObj := setFreeIdx i }
      else table.entry j := by
  unfold linkTail
  by_cases none : table.iFreeTail = NIL_RTHT_INDEX
  · rw [if_pos none, if_neg fun both => both.1 none]
    rfl
  · rw [if_neg none, entry_setEntry (present none)]
    simp only [ne_eq, none, not_false_eq_true, true_and]

theorem isSome_linkTail {k : Nat} :
    ((table.linkTail i).papvLevel1 k).isSome = (table.papvLevel1 k).isSome := by
  unfold linkTail
  split
  · rfl
  · exact isSome_setEntry

/-- Joining leaves everything but the links alone. -/
theorem linkTail_fields : table.SameKind (table.linkTail i) ∧ (table.linkTail i).cCur = table.cCur ∧
      (table.linkTail i).cLevel1 = table.cLevel1 ∧
      (table.linkTail i).cCurAllocated = table.cCurAllocated ∧ (table.linkTail i).iFreeHead =
        if table.iFreeTail = NIL_RTHT_INDEX then i else table.iFreeHead := by
  unfold linkTail
  split <;> exact ⟨⟨rfl, rfl, rfl⟩, rfl, rfl, rfl, rfl⟩

/-- The free list with the new entries, which begin with the one joined. -/
theorem queue_linkTail {y : Nat} {ys : List Nat}
    (queue : Queue NIL_RTHT_INDEX table.next table.iFreeHead table.iFreeTail free)
    (present : ∀ i ∈ free, (table.papvLevel1 (i / RTHT_LEVEL2_ENTRIES)).isSome)
    (new : Threaded table.next (y :: ys) NIL_RTHT_INDEX) (nodup : (free ++ y :: ys).Nodup)
    (proper : NIL_RTHT_INDEX ∉ y :: ys) (small : y < 2 ^ 32) :
    Queue NIL_RTHT_INDEX (table.linkTail y).next (table.linkTail y).iFreeHead
      ((y :: ys).getLast?.getD NIL_RTHT_INDEX) (free ++ y :: ys) := by
  have ends : table.iFreeTail ≠ NIL_RTHT_INDEX → table.iFreeTail ∈ free := fun some =>
    queue.tail_mem fun empty => some (queue.tail_eq_nil.mpr empty)
  have entries : ∀ j, (table.linkTail y).entry j = _ := fun j =>
    entry_linkTail fun some => present _ (ends some)
  have others : ∀ j, j ≠ table.iFreeTail → (table.linkTail y).next j = table.next j := by
    intro j other
    rw [next, entries, if_neg fun both => other both.2, next]
  rw [linkTail_fields.2.2.2.2]
  refine queue.append (new.congr fun j member => ?_) nodup proper ?_ fun j _ => others j
  · by_cases none : table.iFreeTail = NIL_RTHT_INDEX
    · rw [next, entries, if_neg fun both => both.1 none, next]
    · apply others
      rintro rfl
      exact (nodup_append.mp nodup).2.2 _ (ends none) _ member rfl
  · intro some
    have last : table.iFreeTail ≠ NIL_RTHT_INDEX := fun none => some (queue.tail_eq_nil.mp none)
    rw [next, entries, if_pos ⟨last, rfl⟩, getFreeIdx_setFreeIdx small]

/-- Joining writes a free entry only, and leaves it free. -/
theorem kept_linkTail (tail : table.iFreeTail ≠ NIL_RTHT_INDEX →
      (table.papvLevel1 (table.iFreeTail / RTHT_LEVEL2_ENTRIES)).isSome ∧
        isFree (table.entry table.iFreeTail).pvObj = true) :
    isFree ((table.linkTail i).entry j).pvObj = isFree (table.entry j).pvObj ∧
      (isFree (table.entry j).pvObj = false → (table.linkTail i).entry j = table.entry j) := by
  rw [entry_linkTail fun some => (tail some).1]
  by_cases here : table.iFreeTail ≠ NIL_RTHT_INDEX ∧ j = table.iFreeTail
  · obtain ⟨some, rfl⟩ := here
    rw [if_pos ⟨some, rfl⟩, isFree_setFreeIdx, (tail some).2]
    exact ⟨rfl, fun impossible => by cases impossible⟩
  · rw [if_neg here]
    exact ⟨rfl, fun _ => rfl⟩

theorem Sound.tail (sound : table.Sound free) (some : table.iFreeTail ≠ NIL_RTHT_INDEX) :
    table.iFreeTail ∈ free :=
  sound.queue.tail_mem fun empty => some (sound.queue.tail_eq_nil.mpr empty)

theorem Sound.nil_not_lt (sound : table.Sound free) : ¬ NIL_RTHT_INDEX < table.cCur :=
  Nat.not_lt.mpr (sound.cCur_le.trans (by decide))

/-- Fewer entries are free than there are, where one is in use. -/
theorem Sound.count_pos (sound : table.Sound free) (below : i < table.cCur) (apart : i ∉ free) :
    0 < table.cCurAllocated := by
  have nodup : (i :: free).Nodup := nodup_cons.mpr ⟨apart, sound.queue.nodup⟩
  have within : (i :: free) ⊆ range table.cCur := by
    intro j member
    rw [mem_range]
    rcases mem_cons.mp member with rfl | old
    · exact below
    · exact sound.lt_of_mem old
  have fewer := (subperm_of_subset nodup within).length_le
  rw [length_range, length_cons, ← sound.count] at fewer
  omega

theorem Sound.pushFree (sound : table.Sound free) (below : i < table.cCur)
    (inUse : isFree (table.entry i).pvObj = false) :
    let freed : Table :=
      { table.pushFree i with cCurAllocated := (table.pushFree i).cCurAllocated - 1 }
    freed.Sound (free ++ [i]) ∧ table.SameKind freed ∧
      ∀ j, freed.used j = if j = i then none else table.used j := by
  intro freed
  let marked : Table := table.setEntry i ⟨setFreeIdx NIL_RTHT_INDEX, freeCtx⟩
  have apart : i ∉ free := by
    intro member
    rw [((sound.mem i).mp member).2] at inUse
    cases inUse
  have away : ∀ j ∈ free, j ≠ i := by
    rintro j member rfl
    exact apart member
  have entries : ∀ j, marked.entry j = if j = i then ⟨setFreeIdx NIL_RTHT_INDEX, freeCtx⟩ else
      table.entry j := fun j => entry_setEntry (sound.presentAt below)
  have present : ∀ j ∈ free, (marked.papvLevel1 (j / RTHT_LEVEL2_ENTRIES)).isSome := fun j member =>
    isSome_setEntry.trans (sound.presentAt (sound.lt_of_mem member))
  have tail : marked.iFreeTail ≠ NIL_RTHT_INDEX →
      (marked.papvLevel1 (marked.iFreeTail / RTHT_LEVEL2_ENTRIES)).isSome ∧
        isFree (marked.entry marked.iFreeTail).pvObj = true := by
    intro some
    have member := sound.tail some
    refine ⟨present _ member, ?_⟩
    rw [entries]
    exact (congrArg (fun e : Entry => isFree e.pvObj) (if_neg (away _ member))).trans
      ((sound.mem _).mp member).2
  have kept : ∀ j, isFree (freed.entry j).pvObj = isFree (marked.entry j).pvObj ∧
      (isFree (marked.entry j).pvObj = false → freed.entry j = marked.entry j) := fun j =>
    kept_linkTail tail
  obtain ⟨same, cCur, cLevel1, cCurAllocated, -⟩ := @linkTail_fields marked i
  have cCur' : freed.cCur = table.cCur := cCur
  refine ⟨?_, ⟨same.fContext, same.uBase, same.cMax⟩, ?_⟩
  · refine
      { queue := ?_
        mem := fun j => ?_
        count := ?_
        aligned := cCur' ▸ sound.aligned
        alignedMax := (show freed.cMax = table.cMax from same.cMax) ▸ sound.alignedMax
        room := cCur' ▸ (show freed.cMax = table.cMax from same.cMax) ▸ sound.room
        small := (show freed.cMax = table.cMax from same.cMax) ▸ sound.small
        present := fun k bound => ?_
        sized := cCur' ▸ (show freed.cLevel1 = table.cLevel1 from cLevel1) ▸ sound.sized
        base := (show freed.uBase = table.uBase from same.uBase) ▸ sound.base }
    · have queue : Queue NIL_RTHT_INDEX marked.next marked.iFreeHead marked.iFreeTail free :=
        sound.queue.congr fun j member => by rw [next, entries, if_neg (away j member), next]
      have ended : marked.next i = NIL_RTHT_INDEX := by
        rw [next, entries, if_pos rfl, getFreeIdx_setFreeIdx (by decide)]
      have nodup : (free ++ [i]).Nodup :=
        nodup_append.mpr ⟨sound.queue.nodup, nodup_singleton i, fun j member k same => by
          rw [mem_singleton.mp same]
          exact away j member⟩
      have proper : NIL_RTHT_INDEX ∉ [i] := by
        intro member
        rw [← mem_singleton.mp member] at below
        exact sound.nil_not_lt below
      have new : Threaded marked.next [i] NIL_RTHT_INDEX := ⟨ended, trivial⟩
      exact queue_linkTail queue present new nodup proper
        (Nat.lt_of_lt_of_le below (sound.cCur_le.trans (by decide)))
    · rw [(kept j).1, entries, cCur', mem_append, mem_singleton, sound.mem]
      by_cases here : j = i
      · subst here
        rw [if_pos rfl, isFree_setFreeIdx]
        exact ⟨fun _ => ⟨below, rfl⟩, fun _ => .inr rfl⟩
      · rw [if_neg here]
        exact or_iff_left here
    · have positive := sound.count_pos below apart
      have counted := sound.count
      have fewer : freed.cCurAllocated = table.cCurAllocated - 1 := congrArg (· - 1) cCurAllocated
      rw [fewer, length_append, length_singleton, cCur']
      omega
    · rw [cCur'] at bound
      exact isSome_linkTail.trans (isSome_setEntry.trans (sound.present k bound))
  · intro j
    unfold used
    rw [cCur', (kept j).1, entries]
    by_cases here : j = i
    · subst here
      rw [if_pos rfl, if_pos rfl, isFree_setFreeIdx]
      exact if_neg fun both => by cases both.2
    · rw [if_neg here, if_neg here]
      split
      case isFalse => rfl
      case isTrue both =>
        have unmarked : marked.entry j = table.entry j := (entries j).trans (if_neg here)
        rw [(kept j).2 (unmarked ▸ both.2), unmarked]

/-! ### Expanding the table -/

theorem Sound.growLevel1 {cLevel1 : Nat} (sound : table.Sound free) :
    (table.growLevel1 cLevel1).Sound free ∧ table.SameKind (table.growLevel1 cLevel1) ∧
      ∀ j, (table.growLevel1 cLevel1).used j = table.used j := by
  unfold Table.growLevel1
  split
  case isFalse => exact ⟨sound, ⟨rfl, rfl, rfl⟩, fun _ => rfl⟩
  case isTrue more =>
    let grown : Table :=
      { table with
        papvLevel1 := fun i => if i < table.cLevel1 then table.papvLevel1 i else none
        cLevel1 }
    have entries : ∀ j < table.cCur, grown.entry j = table.entry j := by
      intro j below
      have within : j / RTHT_LEVEL2_ENTRIES < table.cLevel1 := by
        refine Nat.lt_of_lt_of_le ?_ sound.sized
        have aligned := sound.aligned
        unfold RTHT_LEVEL2_ENTRIES at *
        omega
      unfold Table.entry
      simp only [grown, if_pos within]
    refine ⟨?_, ⟨rfl, rfl, rfl⟩, ?_⟩
    · refine
        { queue := sound.queue.congr fun j member => ?_
          mem := fun j => ?_
          count := sound.count
          aligned := sound.aligned
          alignedMax := sound.alignedMax
          room := sound.room
          small := sound.small
          present := fun k bound => ?_
          sized := sound.sized.trans (Nat.le_of_lt more)
          base := sound.base }
      · rw [next, entries j (sound.lt_of_mem member), next]
      · rw [sound.mem]
        exact and_congr_right fun below => by rw [entries j below]
      · exact (congrArg isSome (if_pos (Nat.lt_of_lt_of_le bound sound.sized))).trans
          (sound.present k bound)
    · intro j
      unfold used
      by_cases below : j < table.cCur
      · rw [entries j below]
      · rw [if_neg fun both => below both.1, if_neg fun both => below both.1]

theorem newTable_next (cCur : Nat) (small : cCur + RTHT_LEVEL2_ENTRIES < 2 ^ 32)
    (bound : i < RTHT_LEVEL2_ENTRIES) : getFreeIdx (newTable cCur i).pvObj =
      if i + 1 < RTHT_LEVEL2_ENTRIES then cCur + i + 1 else NIL_RTHT_INDEX := by
  unfold newTable
  by_cases more : i < RTHT_LEVEL2_ENTRIES - 1
  · rw [if_pos more, if_pos (Nat.add_lt_of_lt_sub more), getFreeIdx_setFreeIdx (by omega)]
    omega
  · rw [if_neg more, if_neg (by omega), getFreeIdx_setFreeIdx (by decide)]

theorem entry_inserted (aligned : table.cCur % RTHT_LEVEL2_ENTRIES = 0) :
    (j < table.cCur → table.inserted.entry j = table.entry j) ∧ (i < RTHT_LEVEL2_ENTRIES →
        table.inserted.entry (table.cCur + i) = newTable table.cCur i) := by
  unfold Table.entry inserted
  constructor
  · intro below
    have other : j / RTHT_LEVEL2_ENTRIES ≠ table.cCur / RTHT_LEVEL2_ENTRIES := by
      unfold RTHT_LEVEL2_ENTRIES at *
      omega
    simp only [update_of_ne other]
  · intro bound
    have place : (table.cCur + i) / RTHT_LEVEL2_ENTRIES = table.cCur / RTHT_LEVEL2_ENTRIES ∧
        (table.cCur + i) % RTHT_LEVEL2_ENTRIES = i := by
      unfold RTHT_LEVEL2_ENTRIES at *
      omega
    simp only [place.1, place.2, update_self]

theorem Sound.present_inserted (sound : table.Sound free) {k : Nat}
    (bound : k < table.cCur / RTHT_LEVEL2_ENTRIES + 1) :
    (table.inserted.papvLevel1 k).isSome = true := by
  by_cases last : k = table.cCur / RTHT_LEVEL2_ENTRIES
  · subst last
    have new : table.inserted.papvLevel1 (table.cCur / RTHT_LEVEL2_ENTRIES) =
        some (newTable table.cCur) := update_self _ _ _
    rw [new, isSome_some]
  · have before : table.inserted.papvLevel1 k = table.papvLevel1 k := update_of_ne last _ _
    rw [before]
    exact sound.present k (Nat.lt_of_le_of_ne (Nat.le_of_lt_succ bound) last)

/-- The new entries are free, behind the old ones and linked through. -/
theorem Sound.inserted (sound : table.Sound free)
    (room : table.cCur + RTHT_LEVEL2_ENTRIES < NIL_RTHT_INDEX) :
    Queue NIL_RTHT_INDEX (table.inserted.linkTail table.cCur).next
        (table.inserted.linkTail table.cCur).iFreeHead (table.cCur + RTHT_LEVEL2_ENTRIES - 1)
        (free ++ range' table.cCur RTHT_LEVEL2_ENTRIES) ∧ (∀ j < table.cCur,
        isFree ((table.inserted.linkTail table.cCur).entry j).pvObj = isFree (table.entry j).pvObj ∧
          (isFree (table.entry j).pvObj = false →
            (table.inserted.linkTail table.cCur).entry j = table.entry j)) ∧
      ∀ i < RTHT_LEVEL2_ENTRIES,
        isFree ((table.inserted.linkTail table.cCur).entry (table.cCur + i)).pvObj = true := by
  have older : ∀ j < table.cCur, table.inserted.entry j = table.entry j := fun j =>
    (@entry_inserted table 0 j sound.aligned).1
  have newer : ∀ i < RTHT_LEVEL2_ENTRIES,
      table.inserted.entry (table.cCur + i) = newTable table.cCur i := fun i =>
    (@entry_inserted table i 0 sound.aligned).2
  have presentAt : ∀ j ∈ free,
      (table.inserted.papvLevel1 (j / RTHT_LEVEL2_ENTRIES)).isSome = true := fun j member =>
    sound.present_inserted (Nat.lt_succ_of_le (Nat.div_le_div_right
      (Nat.le_of_lt (sound.lt_of_mem member))))
  have kept := fun j => @kept_linkTail table.inserted table.cCur j fun some => by
    have member := sound.tail some
    refine ⟨presentAt _ member, ?_⟩
    have ends : table.inserted.iFreeTail = table.iFreeTail := rfl
    rw [ends, older _ (sound.lt_of_mem member)]
    exact ((sound.mem _).mp member).2
  refine ⟨?_, fun j below => ?_, fun i bound => ?_⟩
  · have queue : Queue NIL_RTHT_INDEX table.inserted.next table.inserted.iFreeHead
        table.inserted.iFreeTail free :=
      sound.queue.congr fun j member => by
        rw [next, older j (sound.lt_of_mem member), next]
    have new : Threaded table.inserted.next (range' table.cCur RTHT_LEVEL2_ENTRIES)
        NIL_RTHT_INDEX := by
      refine Threaded.range' fun j low high => ?_
      obtain ⟨i, rfl⟩ := Nat.exists_eq_add_of_le low
      have bound : i < RTHT_LEVEL2_ENTRIES := Nat.lt_of_add_lt_add_left high
      rw [next, newer i bound, newTable_next _ (Nat.lt_trans room (by decide)) bound]
      simp only [Nat.add_assoc, Nat.add_lt_add_iff_left]
    have nodup : (free ++ range' table.cCur RTHT_LEVEL2_ENTRIES).Nodup := by
      refine nodup_append.mpr ⟨sound.queue.nodup, nodup_range', ?_⟩
      rintro j member k new rfl
      exact Nat.not_lt.mpr (mem_range'_1.mp new).1 (sound.lt_of_mem member)
    have proper : NIL_RTHT_INDEX ∉ range' table.cCur RTHT_LEVEL2_ENTRIES := fun member =>
      Nat.lt_asymm room (mem_range'_1.mp member).2
    have first : range' table.cCur RTHT_LEVEL2_ENTRIES =
        table.cCur :: range' (table.cCur + 1) (RTHT_LEVEL2_ENTRIES - 1) := range'_succ
    have last : (range' table.cCur RTHT_LEVEL2_ENTRIES).getLast?.getD NIL_RTHT_INDEX =
        table.cCur + RTHT_LEVEL2_ENTRIES - 1 := by
      rw [getLast?_range', if_neg (by decide), getD_some]
    rw [← last]
    rw [first] at new nodup proper ⊢
    exact queue_linkTail queue presentAt new nodup proper
      (Nat.lt_of_le_of_lt (Nat.le_add_right _ _) (Nat.lt_trans room (by decide)))
  · rw [← older j below]
    exact kept j
  · rw [(kept _).1, newer i bound]
    exact isFree_setFreeIdx _

theorem Sound.insertTable {table' : Table} (sound : table.Sound free)
    (done : table.insertTable = some table') :
    table'.Sound (free ++ range' table.cCur RTHT_LEVEL2_ENTRIES) ∧ table.SameKind table' ∧
      ∀ j, table'.used j = table.used j := by
  unfold Table.insertTable at done
  simp only [ite_none_right_eq_some] at done
  obtain ⟨⟨level1, room⟩, done⟩ := done
  have room' : table.cCur + RTHT_LEVEL2_ENTRIES ≤ table.cMax := by
    have aligned := sound.aligned
    have alignedMax := sound.alignedMax
    unfold RTHT_LEVEL2_ENTRIES at *
    omega
  obtain ⟨queue, older, newer⟩ :=
    sound.inserted (Nat.lt_of_le_of_lt (room'.trans sound.small) (by decide))
  obtain ⟨same, -, cLevel1, cCurAllocated, -⟩ := @linkTail_fields table.inserted table.cCur
  injection done with done
  have entries : ∀ j, table'.entry j = (table.inserted.linkTail table.cCur).entry j := fun j => by
    rw [← done]
    rfl
  have cCur : table'.cCur = table.cCur + RTHT_LEVEL2_ENTRIES := by rw [← done]
  have level2 : (table.cCur + RTHT_LEVEL2_ENTRIES) / RTHT_LEVEL2_ENTRIES =
      table.cCur / RTHT_LEVEL2_ENTRIES + 1 := Nat.add_div_right _ (by decide)
  have split : ∀ {j}, j < table.cCur + RTHT_LEVEL2_ENTRIES → ¬ j < table.cCur →
      ∃ i < RTHT_LEVEL2_ENTRIES, j = table.cCur + i := fun {j} high low =>
    ⟨j - table.cCur, by omega, by omega⟩
  refine ⟨?_, ?_, ?_⟩
  · refine
      { queue := done ▸ queue
        mem := fun j => ?_
        count := ?_
        aligned := ?_
        alignedMax := ?_
        room := ?_
        small := ?_
        present := fun k bound => ?_
        sized := ?_
        base := ?_ }
    · rw [entries, cCur, mem_append, sound.mem, mem_range'_1]
      by_cases below : j < table.cCur
      · rw [(older j below).1]
        constructor
        · rintro (old | new)
          · exact ⟨Nat.lt_add_right _ old.1, old.2⟩
          · exact absurd new.1 (Nat.not_le.mpr below)
        · exact fun both => .inl ⟨below, both.2⟩
      · constructor
        · rintro (old | new)
          · exact absurd old.1 below
          · obtain ⟨i, bound, rfl⟩ := split new.2 below
            exact ⟨new.2, newer i bound⟩
        · exact fun both => .inr ⟨Nat.not_lt.mp below, both.1⟩
    · have unchanged : table'.cCurAllocated = table.cCurAllocated := by
        rw [← done]
        exact cCurAllocated
      rw [unchanged, cCur, length_append, length_range', ← Nat.add_assoc, sound.count]
    · rw [cCur, Nat.add_mod_right]
      exact sound.aligned
    · rw [← done]
      exact (congrArg (· % RTHT_LEVEL2_ENTRIES) same.cMax).trans sound.alignedMax
    · rw [← done]
      exact room'.trans (Nat.le_of_eq same.cMax.symm)
    · rw [← done]
      exact (Nat.le_of_eq same.cMax).trans sound.small
    · rw [cCur, level2] at bound
      rw [← done]
      exact isSome_linkTail.trans (sound.present_inserted bound)
    · rw [cCur, level2, ← done]
      exact (Nat.succ_le_of_lt level1).trans (Nat.le_of_eq cLevel1.symm)
    · rw [← done]
      exact Nat.lt_of_le_of_lt (Nat.le_of_eq same.uBase) sound.base
  · rw [← done]
    exact ⟨same.fContext, same.uBase, same.cMax⟩
  · intro j
    unfold used
    rw [entries, cCur]
    by_cases below : j < table.cCur
    · rw [(older j below).1]
      by_cases isfree : isFree (table.entry j).pvObj = false
      · rw [if_pos ⟨Nat.lt_add_right _ below, isfree⟩, if_pos ⟨below, isfree⟩,
          (older j below).2 isfree]
      · rw [if_neg fun both => isfree both.2, if_neg fun both => isfree both.2]
    · rw [if_neg fun both : j < table.cCur ∧ _ => below both.1]
      refine if_neg ?_
      rintro ⟨high, used⟩
      obtain ⟨i, bound, rfl⟩ := split high below
      rw [newer i bound] at used
      cases used

/-! ### Allocating -/

/-- What the allocation loop comes to. -/
theorem Sound.attempt_cases (sound : table.Sound free) (pvObj pvCtx : Nat) :
    (∃ i rest, free = i :: rest ∧
      table.attempt pvObj pvCtx = (.handle (table.handle i), table.take i pvObj pvCtx)) ∨
    (free = [] ∧ table.cMax ≤ table.cCur ∧ table.attempt pvObj pvCtx = (.noMoreHandles, table)) ∨
    ∃ cLevel1, table.attempt pvObj pvCtx = (.expand cLevel1, table) := by
  unfold attempt
  cases free with
  | cons i rest =>
    have first : table.iFreeHead = i := sound.queue.head
    have some : i ≠ NIL_RTHT_INDEX := by
      rintro rfl
      exact sound.queue.proper mem_cons_self
    refine .inl ⟨i, rest, rfl, ?_⟩
    simp only [first]
    exact if_pos some
  | nil =>
    have none : table.iFreeHead = NIL_RTHT_INDEX := sound.queue.head
    by_cases full : table.cMax ≤ table.cCur
    · refine .inr (.inl ⟨rfl, full, ?_⟩)
      simp only [none, ne_eq, not_true_eq_false, if_false, if_pos full]
    · refine .inr (.inr ⟨table.cLevel1New, ?_⟩)
      simp only [none, ne_eq, not_true_eq_false, if_false, if_neg full]

/-! ### Handles -/

/-- A handle and its index determine each other. -/
theorem index_eq_iff (base : table.uBase < 2 ^ 32) (small : i < 2 ^ 32) {h : UInt32} :
    table.index h = i ↔ h = table.handle i := by
  have bound := h.toNat_lt
  rw [← UInt32.toNat_inj, handle, UInt32.toNat_ofNat', index, u32Sub]
  split <;> omega

/-- The object found is that of the entry in use. -/
theorem Sound.retained_eq (sound : table.Sound free) (h : UInt32) (pvCtx : Nat)
    (fRetained : Bool) :
    table.retained h pvCtx fRetained =
      match table.used (table.index h) with
      | some entry =>
        if (!table.fContext || entry.pvCtx == pvCtx) && fRetained then entry.pvObj else 0
      | none => 0 := by
  unfold retained used
  rw [sound.lookupIdx_eq]
  by_cases below : table.index h < table.cCur
  · rw [if_pos below]
    cases isfree : isFree (table.entry (table.index h)).pvObj with
    | false => simp only [isfree, Bool.not_false, Bool.and_true, below, and_self, if_true]
    | true =>
      rw [if_neg fun both => by cases both.2]
      simp only [isfree, Bool.not_true, Bool.and_false, Bool.false_and, Bool.false_eq_true,
        if_false]
  · rw [if_neg below, if_neg fun both => below both.1]

end Table

theorem sound_createEx {fContext : Bool} {uBase cMax : Nat} {table : Table}
    (created : createEx fContext uBase cMax = some table) :
    table.Sound [] ∧ table.fContext = fContext ∧ ∀ i, table.used i = none := by
  unfold createEx at created
  simp only [ite_none_left_eq_some, some.injEq] at created
  obtain ⟨accepted, rfl⟩ := created
  refine ⟨?_, rfl, fun i => if_neg fun both => absurd both.1 (Nat.not_lt_zero i)⟩
  refine
    { queue := Queue.empty _ _
      mem := fun i =>
        ⟨fun member => absurd member not_mem_nil,
          fun both => absurd both.1 (Nat.not_lt_zero i)⟩
      count := rfl
      aligned := rfl
      alignedMax := Nat.mul_mod_left _ _
      room := Nat.zero_le _
      small := ?_
      present := fun k bound =>
        absurd (Nat.lt_of_lt_of_eq bound (Nat.zero_div RTHT_LEVEL2_ENTRIES)) (Nat.not_lt_zero k)
      sized := (Nat.le_of_eq (Nat.zero_div RTHT_LEVEL2_ENTRIES)).trans (Nat.zero_le _)
      base := ?_ }
  · have bound : ∀ n, n < 2 ^ 32 → n / 2048 * 2048 ≤ 0xfffff800 := by
      intro n small
      omega
    exact bound _ (Nat.mod_lt _ (by decide))
  · have least : UINT32_MAX - cMax < 2 ^ 32 := Nat.lt_of_le_of_lt (Nat.sub_le _ _) (by decide)
    exact Nat.lt_of_le_of_lt (Nat.not_lt.mp fun high => accepted (.inr high)) least

end VBox.Runtime.HandleTable
