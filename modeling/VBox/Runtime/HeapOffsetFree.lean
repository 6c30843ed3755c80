import VBox.Runtime.HeapOffsetOps

/-!
Freeing a block of the offset heap.

A free block whose size is not known yet (`Unsized`) is linked in or merged with the one
on its left, merged with the one on its right, and gets its size last.
-/

namespace VBox.Runtime

open VBox.Lib List

section Insert

variable {mem : Words} {xs ys : List HeapBlock} {b : HeapBlock} {hi : Nat}

theorem insertHead_eq (words : BlockWords mem xs b ys) (used : b.free = false) :
    insertHead mem b.off (nextFree ys) =
      (mem.put (b.off + 12) (flagsMagic ||| 1)
        |>.put (b.off + 20) 0
        |>.put (b.off + 16) (nextFree ys)
        |>.put (backSlot (nextFree ys)) b.off
        |>.put 12 b.off) := by
  have fFlags := words.fFlags
  rw [used, flagsOf, if_neg Bool.false_ne_true] at fFlags
  rw [insertHead]
  simp only [Words.store, storeOr_back, fFlagsAt, offNextAt, offPrevAt, offFreeHeadAt, fFlags]

theorem insertHead_effect (around : Around mem xs b.off hi ys) (words : BlockWords mem xs b ys)
    (used : b.free = false) (area : b.off + 32 ≤ hi) (first : prevFree xs = 0) :
    Effect mem (insertHead mem b.off (nextFree ys)) xs b.off hi [{ b with free := true }] ys ∧
      insertHead mem b.off (nextFree ys) cbFreeAt = mem cbFreeAt := by
  rw [insertHead_eq words used]
  have lower := around.lower
  obtain ⟨next, back, -⟩ := Slots.of_around around
  have nextLink := around.next
  have nextFree' := around.nextFree
  have coreNext := words.coreNext
  have corePrev := words.corePrev
  have offSelf := words.offSelf
  refine ⟨⟨?_, fun some => ?_, ⟨?_, ?_, trivial⟩, ?_, fun some => absurd first some,
    fun some => ?_, ⟨?_, ?_, trivial⟩, fun none => ?_, fun none => ?_⟩, ?_⟩
  · intro x notSize notHead notTail outside notNext notFree notPrev
    have notBack := ne_backSlot notTail notFree
    have notAnchor : x ≠ 12 := fun same => notHead same first
    simp (disch := omega) only [Words.put_ne]
  · have nextAt : nextOff ys = hi := next.resolve_left some
    simp (disch := omega) only [corePrevAt, Words.put_ne, words.behind some]
    rfl
  · simp (disch := omega) only [corePrevAt, Words.put_ne, corePrev]
  · simp (disch := omega) only [coreNextAt, Words.put_ne, coreNext]
    rfl
  · intro c member
    rw [mem_singleton.mp member]
    simp (disch := omega) only [offSelfAt, fFlagsAt, Words.put_ne, Words.put_self, offSelf,
      true_and]
    rfl
  · have slot := backSlot_some some
    rw [slot] at back ⊢
    simp (disch := omega) only [offPrevAt, Words.put_ne, Words.put_self]
    rfl
  · simp (disch := omega) only [offPrevAt, Words.put_ne, Words.put_self, first]
  · simp (disch := omega) only [offNextAt, Words.put_ne, Words.put_self]
    rfl
  · simp only [offFreeHeadAt, Words.put_self]
    rfl
  · rw [backSlot_none none]
    simp (disch := omega) only [offFreeTailAt, Words.put_ne, Words.put_self]
    rfl
  · simp (disch := omega) only [cbFreeAt, Words.put_ne]

theorem linkBehind_eq (words : BlockWords mem xs b ys) (used : b.free = false) :
    linkBehind mem b.off (prevFree xs) (nextFree ys) =
      (mem.put (b.off + 12) (flagsMagic ||| 1)
        |>.put (b.off + 16) (nextFree ys)
        |>.put (b.off + 20) (prevFree xs)
        |>.put (prevFree xs + 16) b.off
        |>.put (backSlot (nextFree ys)) b.off) := by
  have fFlags := words.fFlags
  rw [used, flagsOf, if_neg Bool.false_ne_true] at fFlags
  rw [linkBehind]
  simp only [Words.store, storeOr_back, fFlagsAt, offNextAt, offPrevAt, fFlags]

theorem linkBehind_effect (around : Around mem xs b.off hi ys) (words : BlockWords mem xs b ys)
    (used : b.free = false) (area : b.off + 32 ≤ hi) (some : prevFree xs ≠ 0) :
    Effect mem (linkBehind mem b.off (prevFree xs) (nextFree ys)) xs b.off hi
        [{ b with free := true }] ys ∧
      linkBehind mem b.off (prevFree xs) (nextFree ys) cbFreeAt = mem cbFreeAt := by
  rw [linkBehind_eq words used]
  have lower := around.lower
  obtain ⟨lowerP, upperP⟩ := around.prevFree_some some
  obtain ⟨next, back, -⟩ := Slots.of_around around
  have nextLink := around.next
  have nextFree' := around.nextFree
  have coreNext := words.coreNext
  have corePrev := words.corePrev
  have offSelf := words.offSelf
  refine ⟨⟨?_, fun some' => ?_, ⟨?_, ?_, trivial⟩, ?_, fun _ => ?_,
    fun some' => ?_, ⟨?_, ?_, trivial⟩, fun none => absurd none some, fun none => ?_⟩, ?_⟩
  · intro x notSize notHead notTail outside notNext notFree notPrev
    have notBack := ne_backSlot notTail notFree
    have notForth := notPrev.resolve_left some
    simp (disch := omega) only [Words.put_ne]
  · have nextAt : nextOff ys = hi := next.resolve_left some'
    simp (disch := omega) only [corePrevAt, Words.put_ne, words.behind some']
    rfl
  · simp (disch := omega) only [corePrevAt, Words.put_ne, corePrev]
  · simp (disch := omega) only [coreNextAt, Words.put_ne, coreNext]
    rfl
  · intro c member
    rw [mem_singleton.mp member]
    simp (disch := omega) only [offSelfAt, fFlagsAt, Words.put_ne, Words.put_self, offSelf,
      true_and]
    rfl
  · simp (disch := omega) only [offNextAt, Words.put_ne, Words.put_self]
    rfl
  · have slot := backSlot_some some'
    rw [slot]
    simp only [offPrevAt, Words.put_self]
    rfl
  · simp (disch := omega) only [offPrevAt, Words.put_ne, Words.put_self]
  · simp (disch := omega) only [offNextAt, Words.put_ne, Words.put_self]
    rfl
  · rw [backSlot_none none]
    simp only [offFreeTailAt, Words.put_self]
    rfl
  · simp (disch := omega) only [cbFreeAt, Words.put_ne]

end Insert

section Merge

variable {mem : Words} {xs ys : List HeapBlock} {b l r : HeapBlock} {hi : Nat}

theorem mergeLeft_eq (around : Around mem xs l.off hi ys) (words : BlockWords mem (xs ++ [l]) b ys)
    (size : mem (cbAt l.off) = l.cb) (beside : b.off = l.off + 16 + l.cb) (least : 16 ≤ l.cb)
    (area : b.off + 32 ≤ hi) :
    mergeLeft mem b.off l.off =
      (mem.put l.off (nextOff ys)
        |>.putIf (nextOff ys) 4 l.off
        |>.put 8 (sub32 (mem 8) l.cb)) := by
  have lower := around.lower
  obtain ⟨next, -, -⟩ := Slots.of_around around
  have coreNext := words.coreNext
  rw [cbAt] at size
  rw [mergeLeft]
  simp (disch := omega) only [Words.store, storeIf_corePrev, coreNextAt, cbAt, cbFreeAt,
    Words.put_ne, Words.putIf_ne, coreNext, size]

/-- Two blocks as one. -/
def joined (l b : HeapBlock) : HeapBlock := ⟨l.off, l.cb + 16 + b.cb, true⟩

theorem mergeLeft_effect (around : Around mem xs l.off hi ys)
    (left : BlockWords mem xs l (b :: ys)) (words : BlockWords mem (xs ++ [l]) b ys)
    (free : l.free = true) (used : b.free = false) (size : mem (cbAt l.off) = l.cb)
    (beside : b.off = l.off + 16 + l.cb) (least : 16 ≤ l.cb) (area : b.off + 32 ≤ hi) :
    Effect mem (mergeLeft mem b.off l.off) xs l.off hi [joined l b] ys ∧
      mergeLeft mem b.off l.off cbFreeAt = sub32 (mem cbFreeAt) l.cb := by
  rw [mergeLeft_eq around words size beside least area]
  have lower := around.lower
  have size' := around.size
  obtain ⟨next, -, -⟩ := Slots.of_around around
  have corePrev := left.corePrev
  have offSelf := left.offSelf
  have fFlags := left.fFlags
  have offNext := left.offNext free
  have offPrev := left.offPrev free
  have skip : nextFree (b :: ys) = nextFree ys := by
    rw [nextFree, freeOffs_cons, used, if_neg Bool.false_ne_true, nextFree]
  rw [free] at fFlags
  rw [skip] at offNext
  have linkedBack := left.linkedBack free
  rw [skip] at linkedBack
  refine ⟨⟨?_, fun some => ?_, ⟨?_, ?_, trivial⟩, ?_, fun some => ?_, fun some => ?_,
    ⟨?_, ?_, trivial⟩, fun none => ?_, fun none => ?_⟩, ?_⟩
  · intro x notSize notHead notTail outside notNext notFree notPrev
    simp (disch := omega) only [Words.put_ne, Words.putIf_ne]
  · simp (disch := omega) only [corePrevAt, Words.put_ne, Words.putIf_self]
    rfl
  · show _ = prevOff xs
    simp (disch := omega) only [corePrevAt, joined, Words.put_ne, Words.putIf_ne, corePrev]
  · show _ = nextOff ys
    simp (disch := omega) only [coreNextAt, joined, Words.put_ne, Words.putIf_ne, Words.put_self]
  · intro c member
    rw [mem_singleton.mp member]
    simp (disch := omega) only [offSelfAt, fFlagsAt, joined, Words.put_ne, Words.putIf_ne, offSelf,
      fFlags, and_self]
  · obtain ⟨lowerP, upperP⟩ := around.prevFree_some some
    simp (disch := omega) only [offNextAt, Words.put_ne, Words.putIf_ne, (left.linked free).1 some]
    rfl
  · have lowerF := around.nextFree_some some
    simp (disch := omega) only [offPrevAt, Words.put_ne, Words.putIf_ne, linkedBack.1 some]
    rfl
  · show _ = prevFree xs
    simp (disch := omega) only [offPrevAt, joined, Words.put_ne, Words.putIf_ne, offPrev]
  · show _ = nextFree ys
    simp (disch := omega) only [offNextAt, joined, Words.put_ne, Words.putIf_ne, offNext]
  · simp (disch := omega) only [offFreeHeadAt, Words.put_ne, Words.putIf_ne]
    exact (left.linked free).2 none
  · simp (disch := omega) only [offFreeTailAt, Words.put_ne, Words.putIf_ne, linkedBack.2 none]
    rfl
  · simp only [cbFreeAt, Words.put_self]

theorem mergeRight_eq (around : Around mem xs b.off hi ys)
    (words : BlockWords mem (xs ++ [b]) r ys) (free : r.free = true)
    (size : mem (cbAt r.off) = r.cb) (beside : r.off = b.off + 16 + b.cb) (least : 16 ≤ b.cb)
    (area : hi = r.off + 16 + r.cb) (least' : 16 ≤ r.cb) :
    mergeRight mem b.off r.off =
      (mem.put b.off (nextOff ys)
        |>.putIf (nextOff ys) 4 b.off
        |>.put (b.off + 16) (nextFree ys)
        |>.put (backSlot (nextFree ys)) b.off
        |>.put 8 (sub32 (mem 8) r.cb)) := by
  have lower := around.lower
  obtain ⟨next, back, -⟩ := Slots.of_around around
  have coreNext := words.coreNext
  have offNext := words.offNext free
  have corePrev : mem (corePrevAt r.off) = b.off :=
    words.corePrev.trans (by rw [prevOff, offs_append, offs, offs]; exact getLastD_concat ..)
  rw [cbAt] at size
  have merges : r.off ≠ 0 ∧ mem (corePrevAt r.off) = b.off := ⟨by omega, corePrev⟩
  rw [mergeRight, if_pos merges]
  simp (disch := omega) only [Words.store, storeIf_corePrev, storeOr_back, coreNextAt, offNextAt,
    cbAt, cbFreeAt, Words.put_ne, Words.putIf_ne, coreNext, offNext, size]

theorem mergeRight_effect (around : Around mem xs b.off hi ys)
    (left : BlockWords mem xs b (r :: ys)) (words : BlockWords mem (xs ++ [b]) r ys)
    (freeB : b.free = true) (free : r.free = true) (size : mem (cbAt r.off) = r.cb)
    (beside : r.off = b.off + 16 + b.cb) (least : 16 ≤ b.cb) (area : hi = r.off + 16 + r.cb)
    (least' : 16 ≤ r.cb) : Effect mem (mergeRight mem b.off r.off) xs b.off hi [joined b r] ys ∧
      mergeRight mem b.off r.off cbFreeAt = sub32 (mem cbFreeAt) r.cb := by
  rw [mergeRight_eq around words free size beside least area least']
  have lower := around.lower
  obtain ⟨next, back, -⟩ := Slots.of_around around
  have corePrev := left.corePrev
  have offSelf := left.offSelf
  have fFlags := left.fFlags
  have offPrev := left.offPrev freeB
  rw [freeB] at fFlags
  refine ⟨⟨?_, fun some => ?_, ⟨?_, ?_, trivial⟩, ?_, fun some => ?_, fun some => ?_,
    ⟨?_, ?_, trivial⟩, fun none => ?_, fun none => ?_⟩, ?_⟩
  · intro x notSize notHead notTail outside notNext notFree notPrev
    have notBack := ne_backSlot notTail notFree
    clear notHead notTail notFree notPrev back
    simp (disch := omega) only [Words.put_ne, Words.putIf_ne]
  · simp (disch := omega) only [corePrevAt, Words.put_ne, Words.putIf_self]
    rfl
  · show _ = prevOff xs
    simp (disch := omega) only [corePrevAt, joined, Words.put_ne, Words.putIf_ne, corePrev]
  · show _ = nextOff ys
    simp (disch := omega) only [coreNextAt, joined, Words.put_ne, Words.putIf_ne, Words.put_self]
  · intro c member
    rw [mem_singleton.mp member]
    simp (disch := omega) only [offSelfAt, fFlagsAt, joined, Words.put_ne, Words.putIf_ne, offSelf,
      fFlags, and_self]
  · obtain ⟨lowerP, upperP⟩ := around.prevFree_some some
    simp (disch := omega) only [offNextAt, Words.put_ne, Words.putIf_ne, (left.linked freeB).1 some]
    rfl
  · have slot := backSlot_some some
    rw [slot] at back ⊢
    simp (disch := omega) only [offPrevAt, Words.put_ne, Words.put_self]
    rfl
  · show _ = prevFree xs
    simp (disch := omega) only [offPrevAt, joined, Words.put_ne, Words.putIf_ne, offPrev]
  · show _ = nextFree ys
    simp (disch := omega) only [offNextAt, joined, Words.put_ne, Words.put_self]
  · simp (disch := omega) only [offFreeHeadAt, Words.put_ne, Words.putIf_ne]
    exact (left.linked freeB).2 none
  · rw [backSlot_none none]
    simp (disch := omega) only [offFreeTailAt, Words.put_ne, Words.put_self]
    rfl
  · simp only [cbFreeAt, Words.put_self]

end Merge

variable {lo : Nat} {blocks : List HeapBlock}

section Neighbours

variable {mem : Words} {xs ys : List HeapBlock} {b : HeapBlock}

theorem isFree_eq (words : BlockWords mem xs b ys) : isFree mem b.off = b.free := by
  have fFlags := words.fFlags
  rw [isFree, fFlagsAt, fFlags]
  cases b.free <;> decide

theorem Tiles.length_le {hi : Nat} (tiles : Tiles lo blocks hi) : 32 * blocks.length + lo ≤ hi := by
  induction blocks generalizing lo with
  | nil => exact Nat.le_of_eq ((Nat.zero_add lo).trans tiles)
  | cons b blocks ih =>
    obtain ⟨start, size, -, rest⟩ := tiles
    have := ih rest
    rw [length_cons]
    omega

theorem findRight_eq (lists : Lists mem (xs ++ ys)) {fuel : Nat} (enough : ys.length < fuel) :
    findRight mem fuel (nextOff ys) = some (nextFree ys) := by
  induction ys generalizing xs fuel with
  | nil =>
    obtain ⟨fuel, rfl⟩ := Nat.exists_eq_succ_of_ne_zero (Nat.ne_of_gt enough)
    rw [findRight]
    exact if_pos rfl
  | cons b ys ih =>
    obtain ⟨fuel, rfl⟩ := Nat.exists_eq_succ_of_ne_zero (Nat.ne_of_gt (Nat.zero_lt_of_lt enough))
    have words := lists.words
    have lower := (lists.tiles.within.2 b (by simp)).lower
    have notNull : b.off ≠ 0 := by omega
    have start : nextOff (b :: ys) = b.off := rfl
    rw [findRight, start, if_neg notNull, isFree_eq words, nextFree, freeOffs_cons]
    split
    case isTrue => rfl
    case isFalse =>
      rw [coreNextAt, words.coreNext]
      have lists' : Lists mem ((xs ++ [b]) ++ ys) := by
        rw [append_assoc]
        exact lists
      exact ih lists' (by rw [length_cons] at enough; omega)

/-- What the links at a place in the free list say. -/
theorem Lists.freeAt (lists : Lists mem (xs ++ ys)) :
    (nextFree ys = 0 → mem offFreeTailAt = prevFree xs) ∧
      (nextFree ys ≠ 0 → mem (offPrevAt (nextFree ys)) = prevFree xs) := by
  constructor
  · intro none
    rw [lists.tail, freeOffs_append, getLastD_append]
    rcases nextFree_spec ys with ⟨-, empty⟩ | ⟨n, inside, -, at'⟩
    · rw [empty]
      rfl
    · have := (lists.tiles.within.2 n (by simp [inside])).lower
      omega
  · intro some
    have free := lists.free
    rw [freeOffs_append] at free
    cases list : freeOffs ys with
    | nil =>
      rw [nextFree, list] at some
      exact absurd rfl some
    | cons n l =>
      rw [list] at free
      rw [nextFree, list]
      exact free.around.1

theorem findNeighbours_eq (lists : Lists mem (xs ++ b :: ys)) (used : b.free = false) :
    findNeighbours mem b.off = some (prevFree xs, nextFree ys) := by
  have lists' : Lists mem ((xs ++ [b]) ++ ys) := by
    rw [append_assoc]
    exact lists
  have skip : prevFree (xs ++ [b]) = prevFree xs := by
    rw [prevFree, freeOffs_append, freeOffs_cons, used, if_neg Bool.false_ne_true, prevFree]
    exact congrArg (getLastD · 0) (append_nil _)
  obtain ⟨atEnd, before⟩ := lists'.freeAt
  rw [skip] at atEnd before
  rw [findNeighbours]
  split
  case isTrue none =>
    have empty : freeOffs (xs ++ b :: ys) = [] := by
      rw [lists.tail] at none
      rcases getLastD_cases (freeOffs (xs ++ b :: ys)) 0 with ⟨-, empty⟩ | member
      · exact empty
      · have pos := offs_pos lists.tiles (by decide) _ ((freeOffs_sublist _).subset member)
        exact absurd none pos
    rw [freeOffs_append, freeOffs_cons, used, if_neg Bool.false_ne_true, append_eq_nil_iff] at empty
    rw [prevFree, nextFree, empty.1, empty.2]
    rfl
  case isFalse =>
    have length := lists.tiles.length_le
    rw [length_append, length_cons] at length
    rw [coreNextAt, lists.words.coreNext, findRight_eq lists' (by omega), Option.map_some]
    split
    case isTrue none => rw [atEnd none, none]
    case isFalse some => rw [before some]

end Neighbours

section FreeBlock

variable {mem : Words} {xs ys : List HeapBlock} {b f : HeapBlock}

/-- The size of the heap and the user bytes of the blocks are as they were. -/
structure UserKept (mem mem' : Words) (blocks : List HeapBlock) : Prop where
  cbHeap : mem' cbHeapAt = mem cbHeapAt
  user : ∀ a ∈ blocks, a.free = false →
    ∀ x, a.off + 16 ≤ x → x < a.off + 16 + a.cb → mem' x = mem x

variable {mem' : Words}

theorem Patch.userKept {new : List HeapBlock} (patch : Patch mem mem' xs new ys) :
    UserKept mem mem' (xs ++ ys) :=
  ⟨patch.anchor.2, fun a member => patch.user a (mem_append.mp member)⟩

/-- A heap with a free block `f` whose size is not known yet. -/
structure Unsized (mem : Words) (xs : List HeapBlock) (f : HeapBlock) (ys : List HeapBlock) :
    Prop where
  lists : Lists mem (xs ++ [f] ++ ys)
  free : f.free = true
  cb : ∀ a, a ∈ xs ∨ a ∈ ys → a.free = true → mem (cbAt a.off) = a.cb
  cbFree : mem cbFreeAt = freeSize xs + freeSize ys

/-- The free block that is linked in, and what is left of the blocks before it. -/
inductive LeftJoined (xs : List HeapBlock) (b : HeapBlock) : List HeapBlock → HeapBlock → Prop where
  | alone : (∀ l, xs.getLast? = some l → l.free = false) →
      LeftJoined xs b xs { b with free := true }
  | joined {us : List HeapBlock} {l : HeapBlock} : xs = us ++ [l] → l.free = true →
      LeftJoined xs b us (joined l b)

inductive RightJoined (ys : List HeapBlock) (b : HeapBlock) : List HeapBlock → HeapBlock → Prop where
  | alone : (∀ r, ys.head? = some r → r.free = false) → RightJoined ys b ys b
  | joined {us : List HeapBlock} {r : HeapBlock} : ys = r :: us → r.free = true →
      RightJoined ys b us (joined b r)

theorem HeapOk.block (ok : HeapOk mem blocks) (split : blocks = xs ++ b :: ys) :
    ∃ hi, hi = b.off + 16 + b.cb ∧ 16 ≤ b.cb ∧ Around mem xs b.off hi ys ∧
      BlockWords mem xs b ys ∧ Lists mem (xs ++ [b] ++ ys) := by
  have lists := ok.lists
  rw [split] at lists
  have lists' : Lists mem (xs ++ [b] ++ ys) := by
    rw [append_assoc]
    exact lists
  obtain ⟨lo, hi, ⟨start, size, -, finish⟩, around⟩ := lists'.around (by simp)
  refine ⟨hi, finish.symm, size, ?_, lists.words, lists'⟩
  rw [start]
  exact around

/-- Another free block in the place of a used one. -/
theorem tiles_setFree {hi : Nat} {free : Bool} (tiles : Tiles lo [b] hi) :
    Tiles lo [{ b with free := free }] hi := tiles

theorem linkIn_ok {hi : Nat} (ok : HeapOk mem (xs ++ b :: ys)) (used : b.free = false)
    (around : Around mem xs b.off hi ys) (lists : Lists mem (xs ++ [b] ++ ys))
    (effect : Effect mem mem' xs b.off hi [{ b with free := true }] ys)
    (cbFree : mem' cbFreeAt = mem cbFreeAt) :
    Unsized mem' xs { b with free := true } ys ∧ UserKept mem mem' (xs ++ ys) := by
  have patch := effect.patch around
  refine ⟨⟨lists.replace patch tiles_setFree fun _ => rfl, rfl, ?_, ?_⟩, patch.userKept⟩
  · intro a member isFree
    rw [patch.cb a member]
    exact ok.cb a (by rcases member with member | member <;> simp [member]) isFree
  · rw [cbFree, ok.cbFree, freeSize_append, freeSize_cons, used, if_neg Bool.false_ne_true]

theorem prevFree_concat {l : HeapBlock} (free : l.free = true) : prevFree (xs ++ [l]) = l.off := by
  rw [prevFree, freeOffs_append, freeOffs_cons, if_pos free]
  exact getLastD_concat ..

theorem tiles_joined {hi : Nat} {l : HeapBlock} (tiles : Tiles lo [l, b] hi) :
    Tiles lo [joined l b] hi := by
  obtain ⟨start, size, aligned, start', size', aligned', finish⟩ := tiles
  have finish : b.off + 16 + b.cb = hi := finish
  refine ⟨start, ?_, ?_, ?_⟩
  · show 16 ≤ l.cb + 16 + b.cb
    omega
  · show (l.cb + 16 + b.cb) % 16 = 0
    omega
  · show l.off + 16 + (l.cb + 16 + b.cb) = hi
    omega

/-- Merging the block with a free one on its left. -/
theorem mergeLeft_ok {us : List HeapBlock} {l : HeapBlock} (ok : HeapOk mem (us ++ [l] ++ b :: ys))
    (free : l.free = true) (used : b.free = false) :
    Unsized (mergeLeft mem b.off l.off) us (joined l b) ys ∧
      UserKept mem (mergeLeft mem b.off l.off) (us ++ ys) := by
  obtain ⟨-, -, -, -, words, -⟩ := ok.block rfl
  obtain ⟨-, -, least, -, left, -⟩ := ok.block (append_assoc us [l] (b :: ys))
  have lists : Lists mem (us ++ [l, b] ++ ys) := by
    have same : us ++ [l] ++ b :: ys = us ++ [l, b] ++ ys := by simp
    rw [← same]
    exact ok.lists
  obtain ⟨lo, hi, ⟨start, -, -, startB, sizeB, -, finish⟩, around⟩ := lists.around (by simp)
  have finish : b.off + 16 + b.cb = hi := finish
  rw [← start] at around
  have size := ok.cb l (by simp) free
  obtain ⟨effect, cbFree⟩ :=
    mergeLeft_effect around left words free used size startB least (by omega)
  have patch := effect.patch around
  have small := around.small
  have total := freeSize_le ok.lists.tiles
  refine ⟨⟨lists.replace patch tiles_joined fun _ => rfl, rfl, ?_, ?_⟩, patch.userKept⟩
  · intro a member isFree
    rw [patch.cb a member]
    exact ok.cb a (by rcases member with member | member <;> simp [member]) isFree
  · have sum : freeSize (us ++ [l] ++ b :: ys) = freeSize us + l.cb + freeSize ys := by
      rw [freeSize_append, freeSize_append, freeSize_cons, freeSize_cons, free, used, if_pos rfl,
        if_neg Bool.false_ne_true]
      rfl
    rw [sum] at total
    rw [cbFree, ok.cbFree, sum, sub32_eq (by omega) (by omega)]
    omega

/-- Linking the block in, or merging it with the one on its left. -/
theorem linkFree_ok (ok : HeapOk mem (xs ++ b :: ys)) (used : b.free = false) :
    ∃ xs' f, Unsized (linkFree mem b.off (prevFree xs) (nextFree ys)).1 xs' f ys ∧
      (linkFree mem b.off (prevFree xs) (nextFree ys)).2 = f.off ∧ LeftJoined xs b xs' f ∧
      UserKept mem (linkFree mem b.off (prevFree xs) (nextFree ys)).1 (xs' ++ ys) := by
  obtain ⟨hi, area, least, around, words, lists⟩ := ok.block rfl
  have size : b.off + 32 ≤ hi := by omega
  have alone : (∀ l, xs.getLast? = some l → l.free = false) →
      (prevFree xs ≠ 0 → mem (coreNextAt (prevFree xs)) ≠ b.off) →
      ∃ xs' f, Unsized (linkFree mem b.off (prevFree xs) (nextFree ys)).1 xs' f ys ∧
        (linkFree mem b.off (prevFree xs) (nextFree ys)).2 = f.off ∧ LeftJoined xs b xs' f ∧
        UserKept mem (linkFree mem b.off (prevFree xs) (nextFree ys)).1 (xs' ++ ys) := by
    intro last apart
    rw [linkFree]
    by_cases none : prevFree xs = 0
    · rw [if_pos none]
      obtain ⟨effect, cbFree⟩ := insertHead_effect around words used size none
      obtain ⟨unsized, kept⟩ := linkIn_ok ok used around lists effect cbFree
      exact ⟨xs, _, unsized, rfl, .alone last, kept⟩
    · rw [if_neg none, if_neg (apart none)]
      obtain ⟨effect, cbFree⟩ := linkBehind_effect around words used size none
      obtain ⟨unsized, kept⟩ := linkIn_ok ok used around lists effect cbFree
      exact ⟨xs, _, unsized, rfl, .alone last, kept⟩
  rcases eq_nil_or_concat xs with rfl | ⟨us, l, rfl⟩
  · exact alone (fun _ none => by cases none) fun some => absurd rfl some
  · rw [concat_eq_append] at *
    have inside : l ∈ us ++ [l] := mem_append_right _ (mem_singleton_self l)
    obtain ⟨lower, -, -, -, -⟩ := around.before l inside
    by_cases free : l.free = true
    · have isPrev : prevFree (us ++ [l]) = l.off := prevFree_concat free
      obtain ⟨-, -, -, -, left, -⟩ := ok.block (append_assoc us [l] (b :: ys))
      have beside : mem (coreNextAt l.off) = b.off := left.coreNext
      have notNull : l.off ≠ 0 := by omega
      obtain ⟨unsized, kept⟩ := mergeLeft_ok ok free used
      rw [linkFree, isPrev, if_neg notNull, if_pos beside]
      exact ⟨us, _, unsized, rfl, .joined rfl free, kept⟩
    · refine alone (fun c last => ?_) fun some => ?_
      · rw [getLast?_concat] at last
        cases last
        simpa using free
      · -- a block lies between the free one and `b`
        rcases prevFree_spec (us ++ [l]) with ⟨none, -⟩ | ⟨p, inside', isFree, at'⟩
        · exact absurd none some
        · rw [← at']
          rcases mem_append.mp inside' with member | member
          · obtain ⟨vs, ws, rfl⟩ := append_of_mem member
            have whole : vs ++ p :: ws ++ [l] ++ b :: ys = vs ++ p :: (ws ++ [l] ++ b :: ys) := by
              simp
            obtain ⟨-, -, -, -, left, -⟩ := ok.block whole
            rw [coreNextAt, left.coreNext]
            have next : ∃ c ∈ ws ++ [l], nextOff (ws ++ [l] ++ b :: ys) = c.off := by
              cases ws with
              | nil => exact ⟨l, mem_singleton_self l, rfl⟩
              | cons c ws => exact ⟨c, mem_cons_self .., rfl⟩
            obtain ⟨c, memberC, next⟩ := next
            rw [next]
            have := (around.before c (by
              rw [append_assoc]
              exact mem_append_right _ (mem_cons_of_mem p memberC))).2.2.1
            omega
          · rw [mem_singleton.mp member] at isFree
            exact absurd isFree free

/-- Merging the block with a free one on its right. -/
theorem mergeRight_joined {r : HeapBlock} (unsized : Unsized mem xs f (r :: ys))
    (free : r.free = true) : Unsized (mergeRight mem f.off r.off) xs (joined f r) ys ∧
      UserKept mem (mergeRight mem f.off r.off) (xs ++ ys) := by
  have lists : Lists mem (xs ++ [f, r] ++ ys) := by
    have same : xs ++ [f] ++ r :: ys = xs ++ [f, r] ++ ys := by simp
    rw [← same]
    exact unsized.lists
  have left : BlockWords mem xs f (r :: ys) := by
    have lists' := unsized.lists
    rw [append_assoc] at lists'
    exact lists'.words
  obtain ⟨lo, hi, ⟨start, least, -, startR, leastR, -, finish⟩, around⟩ := lists.around (by simp)
  rw [← start] at around
  have size := unsized.cb r (.inr (mem_cons_self ..)) free
  obtain ⟨effect, cbFree⟩ := mergeRight_effect around left unsized.lists.words unsized.free free size
    startR least finish.symm leastR
  have patch := effect.patch around
  have small := around.small
  have total := freeSize_le unsized.lists.tiles
  refine ⟨⟨lists.replace patch tiles_joined fun _ => rfl, rfl, ?_, ?_⟩, patch.userKept⟩
  · intro a member isFree
    rw [patch.cb a member]
    exact unsized.cb a (member.imp_right (mem_cons_of_mem r)) isFree
  · have sum : freeSize (r :: ys) = r.cb + freeSize ys := by
      rw [freeSize_cons, if_pos free]
    rw [freeSize_append, freeSize_append, sum] at total
    rw [cbFree, unsized.cbFree, sum, sub32_eq (by omega) (by omega)]
    omega

theorem mergeRight_ok (unsized : Unsized mem xs f ys) :
    ∃ f' ys', Unsized (mergeRight mem f.off (nextFree ys)) xs f' ys' ∧ f'.off = f.off ∧
      RightJoined ys f ys' f' ∧ UserKept mem (mergeRight mem f.off (nextFree ys)) (xs ++ ys') := by
  have alone : (∀ r, ys.head? = some r → r.free = false) →
      (nextFree ys ≠ 0 → mem (corePrevAt (nextFree ys)) ≠ f.off) →
      ∃ f' ys', Unsized (mergeRight mem f.off (nextFree ys)) xs f' ys' ∧ f'.off = f.off ∧
        RightJoined ys f ys' f' ∧
        UserKept mem (mergeRight mem f.off (nextFree ys)) (xs ++ ys') := by
    intro first apart
    rw [mergeRight, if_neg fun merges => apart merges.1 merges.2]
    exact ⟨f, ys, unsized, rfl, .alone first, rfl, fun _ _ _ _ _ _ => rfl⟩
  cases ys with
  | nil => exact alone (fun _ none => by cases none) fun some => absurd rfl some
  | cons r us =>
    by_cases free : r.free = true
    · have isNext : nextFree (r :: us) = r.off := by
        rw [nextFree, freeOffs_cons, if_pos free]
        rfl
      obtain ⟨unsized', kept⟩ := mergeRight_joined unsized free
      rw [isNext]
      exact ⟨_, us, unsized', rfl, .joined rfl free, kept⟩
    · refine alone (fun c first => ?_) fun some => ?_
      · cases first
        simpa using free
      · -- a block lies between `f` and the free one
        rcases nextFree_spec (r :: us) with ⟨none, -⟩ | ⟨n, inside, isFree, at'⟩
        · exact absurd none some
        · rw [← at']
          rcases mem_cons.mp inside with rfl | member
          · exact absurd isFree free
          · obtain ⟨vs, ws, rfl⟩ := append_of_mem member
            have lists := unsized.lists
            obtain ⟨lo, hi, ⟨start, -, -, finish⟩, around⟩ := lists.around (by simp)
            have finish : f.off + 16 + f.cb = hi := finish
            have whole : xs ++ [f] ++ r :: (vs ++ n :: ws) = (xs ++ [f] ++ r :: vs) ++ n :: ws := by
              simp
            rw [whole] at lists
            rw [corePrevAt, lists.words.corePrev]
            have before : ∃ c ∈ r :: vs, prevOff (xs ++ [f] ++ r :: vs) = c.off := by
              rcases eq_nil_or_concat vs with rfl | ⟨us, c, rfl⟩
              · refine ⟨r, mem_cons_self .., ?_⟩
                rw [prevOff, offs_append]
                exact getLastD_concat ..
              · refine ⟨c, by simp, ?_⟩
                rw [concat_eq_append, ← cons_append, ← append_assoc, prevOff, offs_append]
                exact getLastD_concat ..
            obtain ⟨c, memberC, prev⟩ := before
            rw [prev]
            have behind := (around.behind c (by
              rw [← cons_append]
              exact mem_append_left _ memberC)).1
            omega

theorem addSize_eq {hi : Nat} (around : Around mem xs f.off hi ys) (words : BlockWords mem xs f ys)
    (area : hi = f.off + 16 + f.cb) :
    addSize mem f.off = (mem.put (f.off + 24) f.cb |>.put 8 (add32 (mem 8) f.cb)) := by
  have lower := around.lower
  have small := around.small
  have upper := around.upper
  have coreNext := words.coreNext
  have cut : sub32 (sub32 hi f.off) 16 = f.cb := by
    rw [sub32_sub32 (by omega) (by omega)]
    omega
  rw [addSize]
  simp (disch := omega) only [Words.store, coreNextAt, cbAt, cbFreeAt, cbHeapAt, Words.put_ne,
    Words.put_self, coreNext, endOf, around.end_eq, cut]

theorem addSize_effect {hi : Nat} (around : Around mem xs f.off hi ys)
    (words : BlockWords mem xs f ys) (free : f.free = true) (area : hi = f.off + 16 + f.cb)
    (least : 16 ≤ f.cb) : Effect mem (addSize mem f.off) xs f.off hi [f] ys ∧
      addSize mem f.off (cbAt f.off) = f.cb ∧
      addSize mem f.off cbFreeAt = add32 (mem cbFreeAt) f.cb := by
  rw [addSize_eq around words area]
  have lower := around.lower
  have next := around.next
  have coreNext := words.coreNext
  have corePrev := words.corePrev
  have offSelf := words.offSelf
  have fFlags := words.fFlags
  have offNext := words.offNext free
  have offPrev := words.offPrev free
  have frees : freeOffs [f] = [f.off] := by
    rw [freeOffs_cons, if_pos free]
    rfl
  refine ⟨⟨?_, fun some => ?_, ⟨?_, ?_, trivial⟩, ?_, fun some => ?_, fun some => ?_,
    ?_, fun none => ?_, fun none => ?_⟩, ?_, ?_⟩
  · intro x notSize notHead notTail outside notNext notFree notPrev
    simp (disch := omega) only [Words.put_ne]
  · simp (disch := omega) only [corePrevAt, Words.put_ne, words.behind some]
    rfl
  · simp (disch := omega) only [corePrevAt, Words.put_ne, corePrev]
  · simp (disch := omega) only [coreNextAt, Words.put_ne, coreNext]
    rfl
  · intro c member
    rw [mem_singleton.mp member]
    simp (disch := omega) only [offSelfAt, fFlagsAt, Words.put_ne, offSelf, fFlags, and_self]
  · obtain ⟨lowerP, upperP⟩ := around.prevFree_some some
    rw [frees]
    simp (disch := omega) only [offNextAt, Words.put_ne, (words.linked free).1 some]
    rfl
  · have lowerF := around.nextFree_some some
    rw [frees]
    simp (disch := omega) only [offPrevAt, Words.put_ne, (words.linkedBack free).1 some]
    rfl
  · rw [frees]
    refine ⟨?_, ?_, trivial⟩
    · simp (disch := omega) only [offPrevAt, Words.put_ne, offPrev]
    · simp (disch := omega) only [offNextAt, Words.put_ne, offNext]
      rfl
  · rw [frees]
    simp (disch := omega) only [offFreeHeadAt, Words.put_ne, (words.linked free).2 none]
    rfl
  · rw [frees]
    simp (disch := omega) only [offFreeTailAt, Words.put_ne, (words.linkedBack free).2 none]
    rfl
  · simp (disch := omega) only [cbAt, Words.put_ne, Words.put_self]
  · simp only [cbFreeAt, Words.put_self]

/-- Setting the size makes the heap whole again. -/
theorem addSize_ok (unsized : Unsized mem xs f ys) (apart : (xs ++ f :: ys).IsChain Apart) :
    HeapOk (addSize mem f.off) (xs ++ f :: ys) ∧ UserKept mem (addSize mem f.off) (xs ++ ys) := by
  obtain ⟨lo, hi, ⟨start, least, -, finish⟩, around⟩ := unsized.lists.around (by simp)
  have finish : f.off + 16 + f.cb = hi := finish
  have words : BlockWords mem xs f ys := by
    have lists := unsized.lists
    rw [append_assoc] at lists
    exact lists.words
  rw [← start] at around
  obtain ⟨effect, size, cbFree⟩ := addSize_effect around words unsized.free finish.symm least
  have patch := effect.patch around
  have small := around.small
  have total := freeSize_le unsized.lists.tiles
  have sum : freeSize (xs ++ [f] ++ ys) = freeSize xs + f.cb + freeSize ys := by
    rw [freeSize_append, freeSize_append, freeSize_cons, if_pos unsized.free]
    rfl
  rw [sum] at total
  have lists := unsized.lists.replace patch id fun _ => rfl
  have same : xs ++ [f] ++ ys = xs ++ f :: ys := by simp
  refine ⟨⟨same ▸ lists, ?_, ?_, apart⟩, patch.userKept⟩
  · intro a member isFree
    rcases mem_append.mp member with member | member
    · rw [patch.cb a (.inl member)]
      exact unsized.cb a (.inl member) isFree
    · rcases mem_cons.mp member with rfl | member
      · exact size
      · rw [patch.cb a (.inr member)]
        exact unsized.cb a (.inr member) isFree
  · rw [cbFree, unsized.cbFree, add32_eq (by omega), ← same, sum]
    omega

/-- The blocks in use. -/
def usedBlocks (blocks : List HeapBlock) : List HeapBlock := blocks.filter fun b => !b.free

theorem LeftJoined.spec {xs' : List HeapBlock} (left : LeftJoined xs b xs' f)
    (apart : xs.IsChain Apart) :
    xs'.IsChain Apart ∧ (∀ l ∈ xs'.getLast?, l.free = false) ∧ usedBlocks xs' = usedBlocks xs := by
  cases left with
  | alone last => exact ⟨apart, last, rfl⟩
  | @joined _ l split free =>
    subst split
    rw [isChain_append] at apart
    obtain ⟨chain, -, link⟩ := apart
    refine ⟨chain, fun c last => ?_, ?_⟩
    · have := link c last l rfl
      rw [Apart, free] at this
      simpa using this
    · simp [usedBlocks, free]

theorem RightJoined.spec {ys' : List HeapBlock} {f' : HeapBlock} (right : RightJoined ys f ys' f')
    (apart : ys.IsChain Apart) :
    ys'.IsChain Apart ∧ (∀ r ∈ ys'.head?, r.free = false) ∧ usedBlocks ys' = usedBlocks ys := by
  cases right with
  | alone first => exact ⟨apart, first, rfl⟩
  | @joined _ r split free =>
    subst split
    have whole : ([r] ++ ys').IsChain Apart := apart
    rw [isChain_append] at whole
    obtain ⟨-, chain, link⟩ := whole
    refine ⟨chain, fun c first => ?_, ?_⟩
    · have := link r rfl c first
      rw [Apart, free] at this
      simpa using this
    · simp [usedBlocks, free]

theorem mem_usedBlocks {a : HeapBlock} : a ∈ usedBlocks blocks ↔ a ∈ blocks ∧ a.free = false := by
  simp [usedBlocks]

/-- Freeing a block keeps the heap, the blocks in use and their bytes. -/
theorem rtHeapOffsetFreeBlock_ok {heap : OffsetHeap} (ok : HeapOk heap.mem (xs ++ b :: ys))
    (used : b.free = false) :
    ∃ mem' blocks', rtHeapOffsetFreeBlock heap b.off = some { heap with mem := mem' } ∧
      HeapOk mem' blocks' ∧ usedBlocks blocks' = usedBlocks (xs ++ ys) ∧
      UserKept heap.mem mem' (xs ++ ys) := by
  obtain ⟨xs', f, unsized, isF, left, kept⟩ := linkFree_ok ok used
  obtain ⟨f', ys', unsized', isF', right, kept'⟩ := mergeRight_ok unsized
  have apart := ok.apart
  rw [isChain_append, isChain_cons] at apart
  obtain ⟨chainXs, ⟨-, chainYs⟩, -⟩ := apart
  obtain ⟨chainXs', lastXs, usedXs⟩ := left.spec chainXs
  obtain ⟨chainYs', firstYs, usedYs⟩ := right.spec chainYs
  have apart' : (xs' ++ f' :: ys').IsChain Apart := by
    rw [isChain_append, isChain_cons]
    refine ⟨chainXs', ⟨fun r first => ?_, chainYs'⟩, fun l last c first => ?_⟩
    · rw [Apart, firstYs r first]
      simp
    · rw [Apart, lastXs l last]
      simp
  obtain ⟨ok', kept''⟩ := addSize_ok unsized' apart'
  have notLeft : prevFree xs ≠ b.off := by
    obtain ⟨hi, -, -, around, -, -⟩ := ok.block rfl
    have lower := around.lower
    have prev := around.prevFree
    omega
  refine ⟨_, _, ?_, ok', ?_, (kept''.cbHeap.trans kept'.cbHeap).trans kept.cbHeap, ?_⟩
  · rw [rtHeapOffsetFreeBlock, findNeighbours_eq ok.lists used, Option.map_some]
    dsimp only
    rw [if_neg notLeft, isF, isF']
  · simp only [usedBlocks, filter_append] at usedXs usedYs ⊢
    rw [filter_cons, unsized'.free, usedXs, usedYs]
    rfl
  · -- every block in use is still there
    intro a member isUsed x lower upper
    have stays : a ∈ xs' ++ ys' := by
      have inUse := mem_usedBlocks.mpr ⟨member, isUsed⟩
      rw [usedBlocks, filter_append] at inUse
      change a ∈ usedBlocks xs ++ usedBlocks ys at inUse
      rw [← usedXs, ← usedYs] at inUse
      rcases mem_append.mp inUse with inUse | inUse
      · exact mem_append_left _ (mem_usedBlocks.mp inUse).1
      · exact mem_append_right _ (mem_usedBlocks.mp inUse).1
    have stays' : a ∈ xs' ++ ys := by
      rcases mem_append.mp stays with inside | inside
      · exact mem_append_left _ inside
      · have inUse := mem_usedBlocks.mpr ⟨inside, isUsed⟩
        rw [usedYs] at inUse
        exact mem_append_right _ (mem_usedBlocks.mp inUse).1
    exact ((kept''.user a stays isUsed x lower upper).trans
      (kept'.user a stays isUsed x lower upper)).trans (kept.user a stays' isUsed x lower upper)

end FreeBlock

end VBox.Runtime
