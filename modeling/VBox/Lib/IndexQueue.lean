import Mathlib.Data.List.Nodup

/-!
Queues threaded through their elements.

Every element has a link to the next one and the last one to `nil`; the queue is known by its first
and its last element. Elements are taken off the front and put behind the end, one or
many at a time.
-/

namespace VBox.Lib

open List

variable {ι : Type} {next next' : ι → ι} {nil head tail q : ι} {xs ys : List ι}

/-- The links lead through the list and on to `q`. -/
def Threaded (next : ι → ι) : List ι → ι → Prop
  | [], _ => True
  | x :: rest, q => next x = rest.headD q ∧ Threaded next rest q

theorem threaded_append :
    Threaded next (xs ++ ys) q ↔ Threaded next xs (ys.headD q) ∧ Threaded next ys q := by
  induction xs with
  | nil => exact (and_iff_right trivial).symm
  | cons x rest ih =>
    have front : (rest ++ ys).headD q = rest.headD (ys.headD q) := by
      cases rest <;> rfl
    rw [cons_append, Threaded, Threaded, ih, front, and_assoc]

theorem Threaded.congr (path : Threaded next xs q) (same : ∀ x ∈ xs, next' x = next x) :
    Threaded next' xs q := by
  induction xs with
  | nil => trivial
  | cons x rest ih =>
    obtain ⟨first, later⟩ := path
    exact ⟨(same x mem_cons_self).trans first,
      ih later fun y member => same y (mem_cons_of_mem _ member)⟩

/-- Another end for a path: only the last element is linked anew. -/
theorem Threaded.relink {last q' : ι} (path : Threaded next (xs ++ [last]) q)
    (nodup : (xs ++ [last]).Nodup) (end' : next' last = q')
    (same : ∀ x ∈ xs ++ [last], x ≠ last → next' x = next x) :
    Threaded next' (xs ++ [last]) q' := by
  obtain ⟨front, -⟩ := threaded_append.mp path
  refine threaded_append.mpr ⟨front.congr fun x member => ?_, end', trivial⟩
  apply same x (mem_append_left _ member)
  rintro rfl
  exact (nodup_append.mp nodup).2.2 x member x mem_cons_self rfl

/-- Numbers linked one to the next. -/
theorem Threaded.range' {next : Nat → Nat} {start n q : Nat}
    (linked : ∀ i, start ≤ i → i < start + n → next i = if i + 1 < start + n then i + 1 else q) :
    Threaded next (range' start n) q := by
  induction n generalizing start with
  | zero => trivial
  | succ n ih =>
    have later : ∀ i, start + 1 ≤ i → i < start + 1 + n →
        next i = if i + 1 < start + 1 + n then i + 1 else q := by
      intro i low high
      rw [Nat.succ_add_eq_add_succ start n] at high ⊢
      exact linked i (Nat.le_of_succ_le low) high
    refine ⟨(linked start (Nat.le_refl _) (by omega)).trans ?_, ih later⟩
    cases n with
    | zero => exact if_neg (Nat.lt_irrefl _)
    | succ n => exact if_pos (by omega)

/-- A queue with its elements. -/
structure Queue (nil : ι) (next : ι → ι) (head tail : ι) (xs : List ι) : Prop where
  path : Threaded next xs nil
  head : head = xs.headD nil
  tail : tail = xs.getLast?.getD nil
  nodup : xs.Nodup
  proper : nil ∉ xs

theorem Queue.empty (nil : ι) (next : ι → ι) : Queue nil next nil nil [] :=
  ⟨trivial, rfl, rfl, nodup_nil, not_mem_nil⟩

theorem Queue.tail_mem (queue : Queue nil next head tail xs) (some : xs ≠ []) : tail ∈ xs := by
  rw [queue.tail, getLast?_eq_some_getLast some]
  exact getLast_mem some

theorem Queue.tail_eq_nil (queue : Queue nil next head tail xs) : tail = nil ↔ xs = [] := by
  constructor
  · rintro rfl
    by_contra some
    exact queue.proper (queue.tail_mem some)
  · rintro rfl
    exact queue.tail

theorem Queue.congr (queue : Queue nil next head tail xs) (same : ∀ x ∈ xs, next' x = next x) :
    Queue nil next' head tail xs :=
  ⟨queue.path.congr same, queue.head, queue.tail, queue.nodup, queue.proper⟩

/-- Taking the first element off. -/
theorem Queue.pop [DecidableEq ι] {x : ι} (queue : Queue nil next head tail (x :: xs)) :
    head = x ∧ Queue nil next (if x = tail then nil else next x) (if x = tail then nil else tail)
      xs := by
  obtain ⟨apart, nodup⟩ := nodup_cons.mp queue.nodup
  have proper : nil ∉ xs := fun member => queue.proper (mem_cons_of_mem _ member)
  refine ⟨queue.head, ?_⟩
  cases xs with
  | nil =>
    have last : x = tail := queue.tail.symm
    rw [if_pos last, if_pos last]
    exact Queue.empty nil next
  | cons y rest =>
    have tail' : tail = (y :: rest).getLast?.getD nil := queue.tail
    have inRest : tail ∈ y :: rest := by
      rw [tail', getLast?_eq_some_getLast (cons_ne_nil _ _)]
      exact getLast_mem _
    have other : x ≠ tail := fun same => apart (same ▸ inRest)
    rw [if_neg other, if_neg other]
    exact ⟨queue.path.2, queue.path.1, tail', nodup, proper⟩

/-- Putting elements behind the end, whose links lead through them. -/
theorem Queue.append [DecidableEq ι] {y : ι} (queue : Queue nil next head tail xs)
    (new : Threaded next' (y :: ys) nil) (nodup : (xs ++ y :: ys).Nodup) (proper : nil ∉ y :: ys)
    (linked : xs ≠ [] → next' tail = y) (same : ∀ x ∈ xs, x ≠ tail → next' x = next x) :
    Queue nil next' (if tail = nil then y else head) ((y :: ys).getLast?.getD nil)
      (xs ++ y :: ys) := by
  refine ⟨?_, ?_, ?_, nodup, ?_⟩
  · refine threaded_append.mpr ⟨?_, new⟩
    rcases eq_nil_or_concat xs with rfl | ⟨front, last, rfl⟩
    · trivial
    · rw [concat_eq_append] at *
      have known : tail = last := by
        rw [queue.tail, getLast?_append_of_ne_nil _ (cons_ne_nil _ _)]
        rfl
      rw [known] at linked same
      exact queue.path.relink queue.nodup
        (linked (append_ne_nil_of_right_ne_nil _ (cons_ne_nil _ _))) same
  · by_cases empty : xs = []
    · rw [if_pos (queue.tail_eq_nil.mpr empty), empty]
      rfl
    · rw [if_neg fun none => empty (queue.tail_eq_nil.mp none), queue.head]
      cases xs with
      | nil => exact absurd rfl empty
      | cons x rest => rfl
  · rw [getLast?_append_of_ne_nil _ (cons_ne_nil _ _)]
  · intro member
    rcases mem_append.mp member with old | added
    · exact queue.proper old
    · exact proper added

end VBox.Lib
