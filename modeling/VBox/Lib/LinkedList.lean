import Mathlib.Data.List.Nodup
import Mathlib.Logic.Function.Basic

/-!
Doubly linked lists.

`Links` are the head of a list and the two links of every element; the operations
are the usual ones on links, with no look at the list. `Represents` says which list
the links form, and each operation has its equation on lists.
-/

namespace VBox.Lib

open List Option Function

variable {ι : Type} [DecidableEq ι]

structure Links (ι : Type) where
  head : Option ι
  next : ι → Option ι
  prev : ι → Option ι

namespace Links

def empty : Links ι := ⟨none, fun _ => none, fun _ => none⟩

/-- Make `x` the only element. -/
def insertFirst (s : Links ι) (x : ι) : Links ι := { s with head := some x }

/-- Put `x` before `cur`. -/
def insertBefore (s : Links ι) (x cur : ι) : Links ι :=
  match s.prev cur with
  | some p =>
      { s with
        next := Function.update (Function.update s.next x (some cur)) p (some x)
        prev := Function.update (Function.update s.prev x (some p)) cur (some x) }
  | none =>
      { head := some x
        next := Function.update s.next x (some cur)
        prev := Function.update (Function.update s.prev x none) cur (some x) }

/-- Put `x` behind the last element. -/
def insertLast (s : Links ι) (x last : ι) : Links ι :=
  { s with next := Function.update s.next last (some x)
           prev := Function.update s.prev x (some last) }

/-- Take `x` out, wherever its own links say it is. -/
def unlink (s : Links ι) (x : ι) : Links ι :=
  let next := match s.prev x with
    | some p => Function.update s.next p (s.next x)
    | none => s.next
  let prev := match s.next x with
    | some n => Function.update s.prev n (s.prev x)
    | none => s.prev
  { head := match s.prev x with
      | some _ => s.head
      | none => s.next x
    next := Function.update next x none
    prev := Function.update prev x none }

/-- A stretch of the list between two links. -/
def Segment (s : Links ι) : Option ι → List ι → Option ι → Prop
  | _, [], _ => True
  | p, a :: l, n => s.prev a = p ∧ s.next a = l.head?.or n ∧ Segment s (some a) l n

/-- The links form the list `l`, and nothing else is linked. -/
structure Represents (s : Links ι) (l : List ι) : Prop where
  nodup : l.Nodup
  head : s.head = l.head?
  segment : Segment s none l none
  outside : ∀ a, a ∉ l → s.next a = none ∧ s.prev a = none

section Segments

variable {s s' : Links ι} {xs ys : List ι} {p n : Option ι}

omit [DecidableEq ι] in
theorem segment_append : Segment s p (xs ++ ys) n ↔
      Segment s p xs (ys.head?.or n) ∧ Segment s (xs.getLast?.or p) ys n := by
  induction xs generalizing p with
  | nil => simp [Segment]
  | cons a xs ih =>
    have last : (a :: xs).getLast?.or p = xs.getLast?.or (some a) := by
      rw [getLast?_cons]
      cases xs.getLast? <;> rfl
    rw [cons_append, Segment, Segment, ih, head?_append, Option.or_assoc, last,
      and_assoc, and_assoc]

omit [DecidableEq ι] in
theorem segment_congr (same : ∀ a ∈ xs, s'.next a = s.next a ∧ s'.prev a = s.prev a)
    (segment : Segment s p xs n) : Segment s' p xs n := by
  induction xs generalizing p with
  | nil => trivial
  | cons a xs ih =>
    obtain ⟨prev, next, rest⟩ := segment
    obtain ⟨nextSame, prevSame⟩ := same a (mem_cons_self ..)
    exact ⟨prevSame.trans prev, nextSame.trans next,
      ih (fun b member => same b (mem_cons_of_mem a member)) rest⟩

end Segments

section Operations

variable {s : Links ι} {xs ys : List ι} {x cur : ι}

omit [DecidableEq ι] in
theorem represents_empty : Represents (empty : Links ι) [] :=
  ⟨nodup_nil, rfl, trivial, fun _ _ => ⟨rfl, rfl⟩⟩

omit [DecidableEq ι] in
/-- The links of an element in the middle. -/
theorem Represents.around (list : Represents s (xs ++ cur :: ys)) :
    s.prev cur = xs.getLast? ∧ s.next cur = ys.head? := by
  have segment := list.segment
  rw [segment_append] at segment
  obtain ⟨-, prev, next, -⟩ := segment
  rw [or_none] at prev next
  exact ⟨prev, next⟩

omit [DecidableEq ι] in
theorem Represents.insertFirst (list : Represents s []) (x : ι) :
    Represents (s.insertFirst x) [x] := by
  obtain ⟨next, prev⟩ := list.outside x (not_mem_nil)
  exact ⟨nodup_singleton x, rfl, ⟨prev, next, trivial⟩, fun a _ => list.outside a not_mem_nil⟩

theorem Represents.insertLast (list : Represents s (xs ++ [cur])) (fresh : x ∉ xs ++ [cur]) :
    Represents (s.insertLast x cur) (xs ++ [cur, x]) := by
  obtain ⟨prevCur, -⟩ := list.around
  obtain ⟨nextX, -⟩ := list.outside x fresh
  have nodup := list.nodup
  rw [nodup_append] at nodup
  have notCur : x ≠ cur := fun same => fresh (by simp [same])
  have apart : ∀ a ∈ xs, a ≠ cur ∧ a ≠ x := by
    intro a member
    refine ⟨nodup.2.2 a member cur (mem_singleton_self _), ?_⟩
    rintro rfl
    exact fresh (mem_append_left _ member)
  have frame : ∀ a, a ≠ cur → a ≠ x → (s.insertLast x cur).next a = s.next a ∧
      (s.insertLast x cur).prev a = s.prev a := by
    intro a notLast notNew
    exact ⟨update_of_ne notLast .., update_of_ne notNew ..⟩
  have segment := list.segment
  rw [segment_append] at segment
  constructor
  · rw [show xs ++ [cur, x] = xs ++ [cur] ++ [x] by simp, nodup_append]
    refine ⟨list.nodup, nodup_singleton x, ?_⟩
    intro a member b single
    rw [mem_singleton] at single
    subst single
    rintro rfl
    exact fresh member
  · rw [Links.insertLast]
    dsimp only
    rw [list.head]
    cases xs <;> rfl
  · rw [segment_append]
    refine ⟨segment_congr (fun a member => frame a (apart a member).1 (apart a member).2)
      segment.1, ?_, ?_, ?_, ?_, trivial⟩
    · rw [or_none, ← prevCur]
      exact update_of_ne notCur.symm ..
    · exact update_self ..
    · exact update_self ..
    · exact (update_of_ne notCur ..).trans nextX
  · intro a absent
    have notCur' : a ≠ cur := fun same => absent (by simp [same])
    have notX : a ≠ x := fun same => absent (by simp [same])
    obtain ⟨next, prev⟩ := frame a notCur' notX
    rw [next, prev]
    refine list.outside a fun member => absent ?_
    rcases mem_append.mp member with first | last
    · exact mem_append_left _ first
    · rw [mem_singleton] at last
      exact absurd last notCur'

theorem Represents.insertBefore (list : Represents s (xs ++ cur :: ys))
    (fresh : x ∉ xs ++ cur :: ys) : Represents (s.insertBefore x cur) (xs ++ x :: cur :: ys) := by
  obtain ⟨prevCur, nextCur⟩ := list.around
  have notCur : x ≠ cur := fun same => fresh (by simp [same])
  have segment := list.segment
  have nodup' : (xs ++ x :: cur :: ys).Nodup := by
    rw [nodup_middle, nodup_cons]
    exact ⟨fresh, list.nodup⟩
  rcases eq_nil_or_concat xs with rfl | ⟨us, p, rfl⟩
  · -- at the head
    simp only [getLast?_nil] at prevCur
    simp only [nil_append] at *
    have form : s.insertBefore x cur = ⟨some x, update s.next x (some cur),
        update (update s.prev x none) cur (some x)⟩ := by
      rw [Links.insertBefore, prevCur]
    have frame : ∀ a, a ≠ cur → a ≠ x → (s.insertBefore x cur).next a = s.next a ∧
        (s.insertBefore x cur).prev a = s.prev a := by
      intro a notCur' notX
      rw [form]
      exact ⟨update_of_ne notX .., by
        simp only [update_of_ne notCur', update_of_ne notX]⟩
    refine ⟨nodup', by rw [form]; rfl, ?_, ?_⟩
    · obtain ⟨-, next, rest⟩ := segment
      have curYs : cur ∉ ys := (nodup_cons.mp list.nodup).1
      refine ⟨?_, ?_, ?_, ?_, ?_⟩
      · rw [form]
        simp only [update_of_ne notCur, update_self]
      · rw [form]
        exact update_self ..
      · rw [form]
        exact update_self ..
      · rw [form]
        simp only [update_of_ne notCur.symm]
        exact next
      · refine segment_congr (fun a member => frame a ?_ ?_) rest
        · rintro rfl
          exact curYs member
        · rintro rfl
          exact fresh (mem_cons_of_mem _ member)
    · intro a absent
      rw [mem_cons, not_or] at absent
      have notCur' : a ≠ cur := fun same => absent.2 (by simp [same])
      obtain ⟨next, prev⟩ := frame a notCur' absent.1
      rw [next, prev]
      exact list.outside a absent.2
  · -- behind `p`
    rw [concat_eq_append] at *
    rw [getLast?_append] at prevCur
    simp only [getLast?_singleton, some_or] at prevCur
    have form : s.insertBefore x cur =
        { s with
          next := update (update s.next x (some cur)) p (some x)
          prev := update (update s.prev x (some p)) cur (some x) } := by
      rw [Links.insertBefore, prevCur]
    have notP : x ≠ p := fun same => fresh (by simp [same])
    have split := list.nodup
    rw [append_assoc, nodup_append] at split
    obtain ⟨-, inner, apart⟩ := split
    rw [singleton_append, nodup_cons, nodup_cons] at inner
    have pCur : p ≠ cur := fun same => inner.1 (by simp [same])
    have frame : ∀ a, a ≠ cur → a ≠ x → a ≠ p → (s.insertBefore x cur).next a = s.next a ∧
        (s.insertBefore x cur).prev a = s.prev a := by
      intro a notCur' notX notP'
      rw [form]
      constructor
      · simp only [update_of_ne notP', update_of_ne notX]
      · simp only [update_of_ne notCur', update_of_ne notX]
    rw [append_assoc, segment_append] at segment
    obtain ⟨front, prevP, nextP, -, nextCur', rest⟩ := segment
    refine ⟨nodup', ?_, ?_, ?_⟩
    · rw [form, list.head]
      cases us <;> rfl
    · rw [append_assoc, segment_append]
      refine ⟨segment_congr (fun a member => frame a ?_ ?_ ?_) front, ?_, ?_, ?_, ?_, ?_, ?_, ?_⟩
      · exact apart a member cur (by simp)
      · rintro rfl
        exact fresh (by simp [member])
      · exact apart a member p (by simp)
      · rw [form]
        simp only [update_of_ne pCur, update_of_ne notP.symm]
        exact prevP
      · rw [form]
        exact update_self ..
      · rw [form]
        simp only [update_of_ne notCur, update_self]
      · rw [form]
        simp only [update_of_ne notP, update_self]
        rfl
      · rw [form]
        exact update_self ..
      · rw [form]
        simp only [update_of_ne pCur.symm, update_of_ne notCur.symm]
        exact nextCur'
      · refine segment_congr (fun a member => frame a ?_ ?_ ?_) rest
        · rintro rfl
          exact inner.2.1 member
        · rintro rfl
          exact fresh (by simp [member])
        · rintro rfl
          exact inner.1 (mem_cons_of_mem _ member)
    · intro a absent
      have notX : a ≠ x := fun same => absent (by simp [same])
      have notCur' : a ≠ cur := fun same => absent (by simp [same])
      have notP' : a ≠ p := fun same => absent (by simp [same])
      obtain ⟨next, prev⟩ := frame a notCur' notX notP'
      rw [next, prev]
      refine list.outside a fun member => absent ?_
      rcases mem_append.mp member with first | last
      · exact mem_append_left _ first
      · exact mem_append_right _ (mem_cons_of_mem _ last)

/-- Taking an element out of the list it is on. -/
theorem Represents.unlink (list : Represents s (xs ++ x :: ys)) :
    Represents (s.unlink x) (xs ++ ys) := by
  obtain ⟨prevX, nextX⟩ := list.around
  have nodup := list.nodup
  rw [nodup_middle, nodup_cons, mem_append, not_or] at nodup
  obtain ⟨⟨notFirst, notLast⟩, nodup'⟩ := nodup
  have segment := list.segment
  rw [segment_append] at segment
  obtain ⟨front, -, -, back⟩ := segment
  -- only the neighbours of `x` change
  have nextOther : ∀ a, a ≠ x → s.prev x ≠ some a → (s.unlink x).next a = s.next a := by
    intro a notX notPrev
    rw [Links.unlink]
    dsimp only
    rw [update_of_ne notX]
    cases found : s.prev x with
    | none => rfl
    | some p =>
      refine update_of_ne ?_ ..
      rintro rfl
      exact notPrev found
  have prevOther : ∀ a, a ≠ x → s.next x ≠ some a → (s.unlink x).prev a = s.prev a := by
    intro a notX notNext
    rw [Links.unlink]
    dsimp only
    rw [update_of_ne notX]
    cases found : s.next x with
    | none => rfl
    | some n =>
      refine update_of_ne ?_ ..
      rintro rfl
      exact notNext found
  have nextPrev : ∀ p, s.prev x = some p → p ≠ x → (s.unlink x).next p = s.next x := by
    intro p found notX
    rw [Links.unlink]
    simp only [found, update_of_ne notX, update_self]
  have prevNext : ∀ n, s.next x = some n → n ≠ x → (s.unlink x).prev n = s.prev x := by
    intro n found notX
    rw [Links.unlink]
    simp only [found, update_of_ne notX, update_self]
  have apart : ∀ a ∈ xs, ∀ b ∈ ys, a ≠ b := (nodup_append.mp nodup').2.2
  have frontNodup := (nodup_append.mp nodup').1
  have backNodup := (nodup_append.mp nodup').2.1
  constructor
  · exact nodup'
  · rw [Links.unlink]
    dsimp only
    rw [prevX, nextX, list.head]
    rcases eq_nil_or_concat xs with rfl | ⟨us, p, rfl⟩
    · rfl
    · rw [concat_eq_append, getLast?_append]
      cases us with
      | nil => rfl
      | cons u us => rfl
  · rw [segment_append]
    constructor
    · -- the elements before `x`
      rcases eq_nil_or_concat xs with rfl | ⟨us, p, rfl⟩
      · trivial
      · rw [concat_eq_append] at *
        rw [segment_append] at front ⊢
        obtain ⟨front, prevP, -, -⟩ := front
        have prevIsP : s.prev x = some p := by simpa using prevX
        have notUs : p ∉ us := by
          intro member
          exact (nodup_append.mp frontNodup).2.2 p member p (mem_singleton_self p) rfl
        have inXs : p ∈ us ++ [p] := mem_append_right _ (mem_singleton_self p)
        have same : ∀ a ∈ us ++ [p], (s.unlink x).prev a = s.prev a := by
          intro a member
          refine prevOther a (fun same => notFirst (same ▸ member)) fun found => ?_
          rw [nextX] at found
          exact apart a member a (mem_of_head? found) rfl
        refine ⟨segment_congr (fun a member => ⟨nextOther a ?_ ?_, same a ?_⟩) front, ?_, ?_,
          trivial⟩
        · rintro rfl
          exact notFirst (mem_append_left _ member)
        · intro found
          rw [prevIsP] at found
          cases found
          exact notUs member
        · exact mem_append_left _ member
        · rw [same p inXs]
          exact prevP
        · rw [nextPrev p prevIsP fun same => notFirst (same ▸ inXs), nextX]
          simp
    · -- the elements behind it
      cases ys with
      | nil => trivial
      | cons n ys =>
        have nextIsN : s.next x = some n := nextX
        obtain ⟨-, nextN, rest⟩ := back
        have same : ∀ a ∈ n :: ys, (s.unlink x).next a = s.next a := by
          intro a member
          refine nextOther a (fun same => notLast (same ▸ member)) fun found => ?_
          rw [prevX] at found
          exact apart a (mem_of_getLast? found) a member rfl
        have inYs : n ∈ n :: ys := mem_cons_self ..
        refine ⟨?_, ?_, segment_congr (fun a member => ⟨same a ?_, prevOther a ?_ ?_⟩) rest⟩
        · rw [prevNext n nextIsN fun same => notLast (same ▸ inYs), prevX, or_none]
        · rw [same n inYs]
          exact nextN
        · exact mem_cons_of_mem n member
        · rintro rfl
          exact notLast (mem_cons_of_mem n member)
        · intro found
          rw [nextIsN] at found
          cases found
          exact (nodup_cons.mp backNodup).1 member
  · intro a absent
    rw [mem_append, not_or] at absent
    by_cases same : a = x
    · subst same
      rw [Links.unlink]
      exact ⟨update_self .., update_self ..⟩
    · have outside := list.outside a fun member => by
        rcases mem_append.mp member with first | last
        · exact absent.1 first
        · rcases mem_cons.mp last with rfl | last
          · exact same rfl
          · exact absent.2 last
      rw [nextOther a same, prevOther a same]
      · exact outside
      · intro found
        rw [nextX] at found
        exact absent.2 (mem_of_head? found)
      · intro found
        rw [prevX] at found
        exact absent.1 (mem_of_getLast? found)

end Operations

/-! ### Links that need not form one list -/

section Strays

variable {s : Links ι} {l : List ι} {x cur last f : ι}

/-- The two links of neighbours agree. -/
def Paired (s : Links ι) : Prop := ∀ a b, s.next a = some b ↔ s.prev b = some a

/-- No walk along the list comes to the element. -/
def Stray (s : Links ι) (f : ι) : Prop := s.prev f = none ∧ s.head ≠ some f

omit [DecidableEq ι] in
theorem Represents.paired (list : Represents s l) : s.Paired := by
  intro a b
  constructor
  · intro next
    have inList : a ∈ l := by
      by_contra absent
      rw [(list.outside a absent).1] at next
      cases next
    obtain ⟨xs, ys, rfl⟩ := append_of_mem inList
    rw [list.around.2] at next
    obtain ⟨ys, rfl⟩ := head?_eq_some_iff.mp next
    rw [append_cons] at list
    rw [list.around.1]
    simp
  · intro prev
    have inList : b ∈ l := by
      by_contra absent
      rw [(list.outside b absent).2] at prev
      cases prev
    obtain ⟨xs, ys, rfl⟩ := append_of_mem inList
    rw [list.around.1] at prev
    obtain ⟨xs, rfl⟩ := getLast?_eq_some_iff.mp prev
    rw [append_assoc, singleton_append] at list
    rw [list.around.2]
    rfl

omit [DecidableEq ι] in
theorem Represents.not_stray (list : Represents s l) (member : f ∈ l) : ¬ s.Stray f := by
  rintro ⟨prev, notHead⟩
  obtain ⟨xs, ys, rfl⟩ := append_of_mem member
  rw [list.around.1, getLast?_eq_none_iff] at prev
  subst prev
  exact notHead list.head

theorem Paired.unlink (paired : s.Paired) : (s.unlink x).Paired := by
  intro a b
  have ab := paired a b
  have xb := paired x b
  have ax := paired a x
  unfold Links.unlink
  cases prev : s.prev x with
  | none =>
    cases next : s.next x with
    | none =>
      simp only [update_apply]
      grind
    | some n =>
      have xn := paired x n
      simp only [update_apply]
      grind
  | some p =>
    have px := paired p x
    have pb := paired p b
    cases next : s.next x with
    | none =>
      simp only [update_apply]
      grind
    | some n =>
      have xn := paired x n
      have an := paired a n
      simp only [update_apply]
      grind

theorem Paired.insertLast (paired : s.Paired) (prev : s.prev x = none)
    (last_ : s.next last = none) : (s.insertLast x last).Paired := by
  intro a b
  have ab := paired a b
  have ax := paired a x
  simp only [Links.insertLast, update_apply]
  grind

theorem Paired.insertBefore (paired : s.Paired) (next : s.next x = none) (prev : s.prev x = none)
    (other : x ≠ cur) : (s.insertBefore x cur).Paired := by
  intro a b
  have ab := paired a b
  have ax := paired a x
  have xb := paired x b
  have aCur := paired a cur
  unfold Links.insertBefore
  cases before : s.prev cur with
  | none =>
    simp only [update_apply]
    grind
  | some p =>
    have pCur := paired p cur
    have pb := paired p b
    simp only [update_apply]
    grind

theorem Stray.unlink (stray : s.Stray f) (paired : s.Paired) (other : x ≠ f) :
    (s.unlink x).Stray f := by
  have xf := paired x f
  obtain ⟨prev, head⟩ := stray
  unfold Links.unlink Stray
  cases before : s.prev x <;> cases next : s.next x <;> simp only [update_apply] <;> grind

/-- With the first element taken out, one that was as good as first is not reached. -/
theorem Paired.stray_unlink (paired : s.Paired) (prevX : s.prev x = none)
    (prevF : s.prev f = none) (other : x ≠ f) : (s.unlink x).Stray f := by
  have xf := paired x f
  unfold Links.unlink Stray
  cases next : s.next x <;> simp only [prevX, update_apply] <;> grind

omit [DecidableEq ι] in
theorem Stray.insertFirst (stray : s.Stray f) (other : x ≠ f) : (s.insertFirst x).Stray f :=
  ⟨stray.1, fun same => other (some.inj same)⟩

theorem Stray.insertLast (stray : s.Stray f) (other : x ≠ f) : (s.insertLast x last).Stray f :=
  ⟨(update_of_ne other.symm ..).trans stray.1, stray.2⟩

theorem Stray.insertBefore (stray : s.Stray f) (other : x ≠ f) (notCur : cur ≠ f) :
    (s.insertBefore x cur).Stray f := by
  obtain ⟨prev, head⟩ := stray
  unfold Links.insertBefore Stray
  cases before : s.prev cur <;> simp only [update_apply] <;> grind

end Strays

end Links

end VBox.Lib
