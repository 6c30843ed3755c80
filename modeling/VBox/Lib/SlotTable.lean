import Mathlib.Data.Finset.Card
import Mathlib.Data.List.Basic
import VBox.Lib.Codec

/-!
Tables of slots with a reverse table.

A table entry is either a mark (no slot) or the number of a slot; which values
are slots is the predicate `used`. `Indexes used free table rev n` says that
the slots in use are pairwise different, all below `n`, and that `rev` is the
exact inverse: it names the entry of every slot in use and holds `free`
everywhere else. The lemmas say which updates keep it: changing marks, giving
the next slot to a mark, taking a slot away, moving an entry to a slot that
nothing names; filling the hole with the last slot is made of the last two.
-/

namespace VBox.Lib

open List Option

variable {used : Nat → Prop} {free n : Nat} {table rev : List Nat}

/-- The slot `p` is named by no entry of the table. -/
def Unnamed (used : Nat → Prop) (table : List Nat) (p : Nat) : Prop :=
  ∀ i : Nat, table[i]? = some p → ¬ used p

/-- `rev` is the inverse of the slots of `table`, which are all below `n`. -/
structure Indexes (used : Nat → Prop) (free : Nat) (table rev : List Nat) (n : Nat) : Prop where
  below : ∀ i p : Nat, table[i]? = some p → used p → p < n
  fits : n ≤ rev.length
  back : ∀ i p : Nat, table[i]? = some p → used p → rev[p]? = some i
  spare : ∀ p < rev.length, Unnamed used table p → rev[p]? = some free

namespace Indexes

/-- Two entries never share a slot. -/
theorem distinct (inv : Indexes used free table rev n) {i j p : Nat}
    (left : table[i]? = some p) (right : table[j]? = some p) (inUse : used p) : i = j := by
  have named := inv.back i p left inUse
  rw [inv.back j p right inUse] at named
  exact (some.inj named).symm

/-- A slot whose reverse entry is not `free` is named by that entry. -/
theorem named (inv : Indexes used free table rev n) {p j : Nat}
    (back : rev[p]? = some j) (taken : j ≠ free) : table[j]? = some p ∧ used p := by
  obtain ⟨below, -⟩ := List.getElem?_eq_some_iff.mp back
  by_contra absent
  have unnamed : Unnamed used table p := by
    intro i entry inUse
    have same := inv.back i p entry inUse
    rw [back] at same
    cases same
    exact absent ⟨entry, inUse⟩
  have spare := inv.spare p below unnamed
  rw [back] at spare
  exact taken (some.inj spare)

/-- The empty table. -/
theorem nil (inRange : n ≤ rev.length) (allFree : ∀ p < rev.length, rev[p]? = some free) :
    Indexes used free [] rev n where
  below i p found := by simp at found
  fits := inRange
  back i p found := by simp at found
  spare p below _ := allFree p below

section

variable (inv : Indexes used free table rev n)

include inv

/-- Appending a mark. -/
theorem appendMark {mark : Nat} (unused : ¬ used mark) :
    Indexes used free (table ++ [mark]) rev n := by
  have slots : ∀ j p : Nat, (table ++ [mark])[j]? = some p → used p → table[j]? = some p := by
    intro j p found inUse
    rw [getElem?_append] at found
    split at found
    · exact found
    · rw [getElem?_singleton] at found
      split at found
      · cases found
        exact absurd inUse unused
      · cases found
  refine ⟨fun j p found inUse => inv.below j p (slots j p found inUse) inUse, inv.fits,
    fun j p found inUse => inv.back j p (slots j p found inUse) inUse,
    fun p below unnamed => inv.spare p below fun j found inUse => unnamed j ?_ inUse⟩
  obtain ⟨inside, -⟩ := List.getElem?_eq_some_iff.mp found
  rwa [getElem?_append_left inside]

/-- Appending an entry for a slot nothing names yet. -/
theorem appendSlot {p : Nat} (small : p < n) (fresh : Unnamed used table p) (slot : used p) :
    Indexes used free (table ++ [p]) (rev.set p table.length) n := by
  have fits := inv.fits
  have cases_of : ∀ j q : Nat, (table ++ [p])[j]? = some q → used q →
      (j = table.length ∧ q = p) ∨ (table[j]? = some q ∧ q ≠ p) := by
    intro j q found inUse
    rw [getElem?_append] at found
    split at found
    · refine Or.inr ⟨found, ?_⟩
      rintro rfl
      exact fresh j found inUse
    · rw [getElem?_singleton] at found
      split at found
      · cases found
        exact Or.inl ⟨by omega, rfl⟩
      · cases found
  constructor
  · intro j q found inUse
    rcases cases_of j q found inUse with ⟨-, rfl⟩ | ⟨old, -⟩
    · exact small
    · exact inv.below j q old inUse
  · simpa using fits
  · intro j q found inUse
    rcases cases_of j q found inUse with ⟨rfl, rfl⟩ | ⟨old, different⟩
    · exact getElem?_set_self (by omega)
    · rw [getElem?_set_ne (Ne.symm different)]
      exact inv.back j q old inUse
  · intro q below unnamed
    have different : p ≠ q := by
      rintro rfl
      exact unnamed table.length (by simp) slot
    rw [length_set] at below
    rw [getElem?_set_ne different]
    refine inv.spare q below fun j found inUse => unnamed j ?_ inUse
    obtain ⟨inside, -⟩ := List.getElem?_eq_some_iff.mp found
    rwa [getElem?_append_left inside]

/-- Replacing a mark by a mark. -/
theorem setMark {i old mark : Nat} (entry : table[i]? = some old) (unusedOld : ¬ used old)
    (unusedMark : ¬ used mark) : Indexes used free (table.set i mark) rev n := by
  have slots : ∀ j p : Nat, (table.set i mark)[j]? = some p → used p → table[j]? = some p := by
    intro j p found inUse
    rw [getElem?_set] at found
    grind
  refine ⟨fun j p found inUse => inv.below j p (slots j p found inUse) inUse, inv.fits,
    fun j p found inUse => inv.back j p (slots j p found inUse) inUse,
    fun p below unnamed => inv.spare p below fun j found inUse => ?_⟩
  by_cases same : i = j
  · subst same
    rw [entry] at found
    cases found
    exact unusedOld inUse
  · refine unnamed j ?_ inUse
    rwa [getElem?_set_ne same]

/-- Giving slot `n`, the next one, to an entry that held a mark. -/
theorem allocate {i old : Nat} (entry : table[i]? = some old) (unusedOld : ¬ used old)
    (slot : used n) (room : n < rev.length) :
    Indexes used free (table.set i n) (rev.set n i) (n + 1) := by
  obtain ⟨inside, -⟩ := List.getElem?_eq_some_iff.mp entry
  have cases_of : ∀ j p : Nat, (table.set i n)[j]? = some p → used p →
      (j = i ∧ p = n) ∨ (j ≠ i ∧ table[j]? = some p ∧ p < n) := by
    intro j p found inUse
    by_cases same : i = j
    · subst same
      rw [getElem?_set_self inside] at found
      exact Or.inl ⟨rfl, (some.inj found).symm⟩
    · rw [getElem?_set_ne same] at found
      exact Or.inr ⟨Ne.symm same, found, inv.below j p found inUse⟩
  refine ⟨fun j p found inUse => ?_, by simp; omega, fun j p found inUse => ?_,
    fun p below unnamed => ?_⟩
  · rcases cases_of j p found inUse with ⟨-, rfl⟩ | ⟨-, -, small⟩ <;> omega
  · rcases cases_of j p found inUse with ⟨rfl, rfl⟩ | ⟨-, old, small⟩
    · exact getElem?_set_self room
    · rw [getElem?_set_ne (by omega)]
      exact inv.back j p old inUse
  · have different : n ≠ p := by
      rintro rfl
      exact unnamed i (getElem?_set_self inside) slot
    rw [length_set] at below
    rw [getElem?_set_ne different]
    refine inv.spare p below fun j found inUse => ?_
    by_cases same : i = j
    · subst same
      rw [entry] at found
      cases found
      exact unusedOld inUse
    · exact unnamed j (by rwa [getElem?_set_ne same]) inUse

end

/-- A slot that nothing names need not be counted. -/
theorem shrink (inv : Indexes used free table rev (n + 1)) (unnamed : Unnamed used table n) :
    Indexes used free table rev n := by
  refine ⟨fun i p found inUse => ?_, (Nat.le_succ n).trans inv.fits, inv.back, inv.spare⟩
  have small := inv.below i p found inUse
  have different : p ≠ n := by
    rintro rfl
    exact unnamed i found inUse
  omega

section

variable (inv : Indexes used free table rev n)

include inv

/-- Once its entry holds something else, nothing names a slot. -/
theorem unnamed_set {i p q : Nat} (entry : table[i]? = some p) (slot : used p)
    (other : used q → q ≠ p) : Unnamed used (table.set i q) p := by
  obtain ⟨inside, -⟩ := List.getElem?_eq_some_iff.mp entry
  intro j found inUse
  by_cases same : i = j
  · subst same
    rw [getElem?_set_self inside] at found
    cases found
    exact other inUse rfl
  · rw [getElem?_set_ne same] at found
    exact same (inv.distinct entry found slot)

/-- Taking a slot away, wherever it lies. -/
theorem release {i p mark : Nat} (entry : table[i]? = some p) (slot : used p)
    (unusedMark : ¬ used mark) : Indexes used free (table.set i mark) (rev.set p free) n := by
  obtain ⟨inside, -⟩ := List.getElem?_eq_some_iff.mp entry
  have gone := inv.unnamed_set entry slot fun inUse => absurd inUse unusedMark
  have old_of : ∀ j q : Nat, (table.set i mark)[j]? = some q → used q →
      table[j]? = some q ∧ p ≠ q := by
    intro j q found inUse
    have apart : p ≠ q := by
      rintro rfl
      exact gone j found inUse
    have different : i ≠ j := by
      rintro rfl
      rw [getElem?_set_self inside] at found
      cases found
      exact unusedMark inUse
    rw [getElem?_set_ne different] at found
    exact ⟨found, apart⟩
  refine ⟨fun j q found inUse => inv.below j q (old_of j q found inUse).1 inUse, ?_,
    fun j q found inUse => ?_, fun q below unnamed => ?_⟩
  · rw [length_set]
    exact inv.fits
  · obtain ⟨old, different⟩ := old_of j q found inUse
    rw [getElem?_set_ne different]
    exact inv.back j q old inUse
  · rw [length_set] at below
    by_cases same : p = q
    · subst same
      exact getElem?_set_self below
    · rw [getElem?_set_ne same]
      refine inv.spare q below fun j found inUse => unnamed j ?_ inUse
      rw [getElem?_set_ne]
      · exact found
      · rintro rfl
        rw [entry] at found
        exact same (some.inj found)

/-- Moving an entry to a slot nothing names. -/
theorem move {i p q : Nat} (entry : table[i]? = some p) (slot : used p)
    (fresh : Unnamed used table q) (slot' : used q) (small : q < n) :
    Indexes used free (table.set i q) ((rev.set q i).set p free) n := by
  obtain ⟨inside, -⟩ := List.getElem?_eq_some_iff.mp entry
  have fits := inv.fits
  have apart : p ≠ q := by
    rintro rfl
    exact fresh i entry slot
  have cases_of : ∀ j r : Nat, (table.set i q)[j]? = some r → used r →
      (j = i ∧ r = q) ∨ (table[j]? = some r ∧ p ≠ r ∧ q ≠ r) := by
    intro j r found inUse
    by_cases same : i = j
    · subst same
      rw [getElem?_set_self inside] at found
      exact Or.inl ⟨rfl, (some.inj found).symm⟩
    rw [getElem?_set_ne same] at found
    refine Or.inr ⟨found, ?_, ?_⟩
    · rintro rfl
      exact same (inv.distinct entry found slot)
    · rintro rfl
      exact fresh j found inUse
  refine ⟨fun j r found inUse => ?_, by simpa using fits, fun j r found inUse => ?_,
    fun r below unnamed => ?_⟩
  · rcases cases_of j r found inUse with ⟨-, rfl⟩ | ⟨old, -, -⟩
    · exact small
    · exact inv.below j r old inUse
  · rcases cases_of j r found inUse with ⟨rfl, rfl⟩ | ⟨old, notP, notQ⟩
    · rw [getElem?_set_ne apart]
      exact getElem?_set_self (by omega)
    · rw [getElem?_set_ne notP, getElem?_set_ne notQ]
      exact inv.back j r old inUse
  · simp only [length_set] at below
    have notQ : q ≠ r := by
      rintro rfl
      exact unnamed i (getElem?_set_self inside) slot'
    by_cases same : p = r
    · subst same
      exact getElem?_set_self (by simpa using below)
    · rw [getElem?_set_ne same, getElem?_set_ne notQ]
      refine inv.spare r below fun j found inUse => unnamed j ?_ inUse
      rw [getElem?_set_ne]
      · exact found
      · rintro rfl
        rw [entry] at found
        exact same (some.inj found)

end

/-- Taking away the last slot itself. -/
theorem dropLast (inv : Indexes used free table rev (n + 1)) {i mark : Nat}
    (entry : table[i]? = some n) (unusedMark : ¬ used mark) (slot : used n) :
    Indexes used free (table.set i mark) (rev.set n free) n :=
  (inv.release entry slot unusedMark).shrink
    (inv.unnamed_set entry slot fun inUse => absurd inUse unusedMark)

/-- Taking away slot `p` and moving the entry of the last slot into it. -/
theorem swapRemove (inv : Indexes used free table rev (n + 1)) {i j p mark : Nat}
    (entry : table[i]? = some p) (slot : used p) (unusedMark : ¬ used mark)
    (last : table[j]? = some n) (lastSlot : used n) (different : p ≠ n) :
    Indexes used free ((table.set i mark).set j p) ((rev.set n free).set p j) n := by
  have apart : i ≠ j := by
    rintro rfl
    rw [entry] at last
    exact different (some.inj last)
  have small := inv.below i p entry slot
  have last' : (table.set i mark)[j]? = some n := by
    rw [getElem?_set_ne apart]
    exact last
  have released := inv.release entry slot unusedMark
  have fresh := inv.unnamed_set entry slot fun inUse => absurd inUse unusedMark
  have moved := released.move last' lastSlot fresh slot small
  rw [set_set, set_comm _ _ different] at moved
  exact moved.shrink (released.unnamed_set last' lastSlot fun _ => different)

/-- A table whose slots are different and below `n` has an inverse. -/
theorem exists_of_distinct {len : Nat} (fits : n ≤ len)
    (below : ∀ i p : Nat, table[i]? = some p → used p → p < n)
    (distinct : ∀ i j p : Nat, table[i]? = some p → table[j]? = some p → used p → i = j) :
    ∃ rev, rev.length = len ∧ Indexes used free table rev n := by
  classical
  let rev := (range len).map fun p =>
    if named : ∃ i : Nat, table[i]? = some p ∧ used p then named.choose else free
  have entry : ∀ p < len, rev[p]? =
      some (if named : ∃ i : Nat, table[i]? = some p ∧ used p then named.choose else free) := by
    intro p small
    simp [rev, small]
  refine ⟨rev, by simp [rev], below, by simpa [rev] using fits, fun i p found inUse => ?_,
    fun p small unnamed => ?_⟩
  · have named : ∃ i : Nat, table[i]? = some p ∧ used p := ⟨i, found, inUse⟩
    rw [entry p ((below i p found inUse).trans_le fits), dif_pos named]
    exact congrArg some (distinct _ _ p named.choose_spec.1 found inUse)
  · have none : ¬ ∃ i : Nat, table[i]? = some p ∧ used p := by
      rintro ⟨i, found, inUse⟩
      exact unnamed i found inUse
    rw [entry p (by simpa [rev] using small), dif_neg none]

end Indexes

/-! ### Tables without unused slots -/

/-- Every slot below `n` is named. -/
def Packed (used : Nat → Prop) (table : List Nat) (n : Nat) : Prop :=
  ∀ p < n, ∃ i : Nat, table[i]? = some p ∧ used p

namespace Packed

/-- An entry that holds no slot leaves room for one more slot. -/
theorem room (packed : Packed used table n) {i mark : Nat} (entry : table[i]? = some mark)
    (unused : ¬ used mark) : n < table.length := by
  classical
  -- the entries of the slots are different from each other and from entry `i`
  choose! index named using packed
  have inside : i < table.length := (List.getElem?_eq_some_iff.mp entry).choose
  have maps : ∀ p ∈ Finset.range n, index p ∈ (Finset.range table.length).erase i := by
    intro p member
    obtain ⟨found, inUse⟩ := named p (Finset.mem_range.mp member)
    refine Finset.mem_erase.mpr ⟨?_, Finset.mem_range.mpr (List.getElem?_eq_some_iff.mp found).choose⟩
    intro same
    rw [same, entry] at found
    cases found
    exact unused inUse
  have injective : Set.InjOn index (Finset.range n) := by
    intro p member q member' same
    have left := (named p (Finset.mem_range.mp member)).1
    have right := (named q (Finset.mem_range.mp member')).1
    rw [same, right] at left
    exact (some.inj left).symm
  have count := Finset.card_le_card_of_injOn index maps injective
  rw [Finset.card_erase_of_mem (Finset.mem_range.mpr inside), Finset.card_range,
    Finset.card_range] at count
  omega

theorem setMark (packed : Packed used table n) {i old mark : Nat} (entry : table[i]? = some old)
    (unusedOld : ¬ used old) : Packed used (table.set i mark) n := by
  intro p below
  obtain ⟨j, found, inUse⟩ := packed p below
  refine ⟨j, ?_, inUse⟩
  rw [getElem?_set_ne]
  · exact found
  · rintro rfl
    rw [entry] at found
    cases found
    exact unusedOld inUse

theorem allocate (packed : Packed used table n) {i old : Nat} (entry : table[i]? = some old)
    (unusedOld : ¬ used old) (slot : used n) : Packed used (table.set i n) (n + 1) := by
  intro p below
  rcases Nat.lt_succ_iff_lt_or_eq.mp below with small | rfl
  · exact packed.setMark entry unusedOld p small
  · exact ⟨i, getElem?_set_self (List.getElem?_eq_some_iff.mp entry).choose, slot⟩

theorem dropLast (packed : Packed used table (n + 1)) {i mark : Nat}
    (entry : table[i]? = some n) : Packed used (table.set i mark) n := by
  intro p below
  obtain ⟨j, found, inUse⟩ := packed p (Nat.lt_succ_of_lt below)
  refine ⟨j, ?_, inUse⟩
  rw [getElem?_set_ne]
  · exact found
  · rintro rfl
    rw [entry] at found
    cases found
    exact absurd below (lt_irrefl _)

theorem swapRemove (packed : Packed used table (n + 1)) {i j p mark : Nat}
    (entry : table[i]? = some p) (slot : used p) (last : table[j]? = some n) (different : p ≠ n) :
    Packed used ((table.set i mark).set j p) n := by
  intro q below
  have insideJ : j < (table.set i mark).length := by
    rw [length_set]
    exact (List.getElem?_eq_some_iff.mp last).choose
  by_cases hole : q = p
  · subst hole
    exact ⟨j, getElem?_set_self insideJ, slot⟩
  · obtain ⟨k, found, inUse⟩ := packed q (Nat.lt_succ_of_lt below)
    refine ⟨k, ?_, inUse⟩
    rw [getElem?_set_ne, getElem?_set_ne]
    · exact found
    · rintro rfl
      rw [entry] at found
      exact hole (some.inj found).symm
    · rintro rfl
      rw [last] at found
      cases found
      exact absurd below (lt_irrefl _)

end Packed

end VBox.Lib
