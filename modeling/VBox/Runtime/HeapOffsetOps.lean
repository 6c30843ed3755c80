import VBox.Runtime.HeapOffsetBlocks

/-!
The operations of the offset heap on its blocks.

Each operation is first read as a chain of plain stores (`splitEnd_eq` and the like), with
the values its loads find, and then put to `Lists.replace`.
-/

namespace VBox.Runtime

open VBox.Lib

section Stores

variable {mem : Words} {off y v k : Nat}

theorem storeIf_corePrev {off v : Words → Nat} :
    mem.storeIf off corePrevAt v = mem.putIf (off mem) 4 (v mem) := rfl

/-- Where the link back to a block is kept. -/
def backSlot (off : Nat) : Nat := Words.slot off offPrevAt offFreeTailAt

def forthSlot (off : Nat) : Nat := Words.slot off offNextAt offFreeHeadAt

theorem backSlot_cases (off : Nat) : off = 0 ∧ backSlot off = 16 ∨ off ≠ 0 ∧ backSlot off = off + 20 := by
  by_cases none : off = 0
  · exact .inl ⟨none, by rw [none]; rfl⟩
  · exact .inr ⟨none, if_pos none⟩

theorem forthSlot_cases (off : Nat) :
    off = 0 ∧ forthSlot off = 12 ∨ off ≠ 0 ∧ forthSlot off = off + 16 := by
  by_cases none : off = 0
  · exact .inl ⟨none, by rw [none]; rfl⟩
  · exact .inr ⟨none, if_pos none⟩

theorem storeOr_back {off v : Words → Nat} :
    mem.storeOr off offPrevAt offFreeTailAt v = mem.put (backSlot (off mem)) (v mem) := rfl

theorem storeOr_forth {off v : Words → Nat} :
    mem.storeOr off offNextAt offFreeHeadAt v = mem.put (forthSlot (off mem)) (v mem) := rfl

theorem sub32_eq {a b : Nat} (le : b ≤ a) (small : a < 2 ^ 32) : sub32 a b = a - b := by
  rw [sub32]
  omega

theorem sub32_sub32 {a b : Nat} (le : b + 16 ≤ a) (small : a < 2 ^ 32) :
    sub32 (sub32 a b) 16 = a - b - 16 := by
  have first : sub32 a b = a - b := sub32_eq (by omega) small
  rw [first, sub32_eq (by omega) (by omega)]

theorem add32_eq {a b : Nat} (small : a + b < 2 ^ 32) : add32 a b = a + b :=
  Nat.mod_eq_of_lt small

end Stores

/-- The end of the area, as the link of its last block gives it. -/
theorem Around.end_eq {mem : Words} {xs ys : List HeapBlock} {lo hi : Nat}
    (around : Around mem xs lo hi ys) :
    (if nextOff ys ≠ 0 then nextOff ys else mem 4) = hi := by
  have size := around.size
  rcases around.next with ⟨none, atEnd⟩ | ⟨some, -⟩
  · rw [if_neg (by omega)]
    exact atEnd.symm
  · rw [if_pos (by omega), some]

/-- Where the links to the area lie. -/
structure Slots (xs : List HeapBlock) (lo hi : Nat) (ys : List HeapBlock) : Prop where
  next : nextOff ys = 0 ∨ nextOff ys = hi
  back : backSlot (nextFree ys) = 16 ∨ hi + 20 ≤ backSlot (nextFree ys)
  forth : forthSlot (prevFree xs) = 12 ∨
    48 ≤ forthSlot (prevFree xs) ∧ forthSlot (prevFree xs) + 16 ≤ lo

theorem Slots.of_around {mem : Words} {xs ys : List HeapBlock} {lo hi : Nat}
    (around : Around mem xs lo hi ys) : Slots xs lo hi ys := by
  constructor
  · exact around.next.imp And.left And.left
  · have nextFree' := around.nextFree
    rcases backSlot_cases (nextFree ys) with ⟨-, none⟩ | ⟨some, slot⟩
    · exact .inl none
    · exact .inr (by omega)
  · have prevFree' := around.prevFree
    rcases forthSlot_cases (prevFree xs) with ⟨-, none⟩ | ⟨some, slot⟩
    · exact .inl none
    · exact .inr (by omega)

theorem ne_backSlot {off x : Nat} (tail : x = 16 → off ≠ 0) (link : off = 0 ∨ x ≠ off + 20) :
    x ≠ backSlot off := by
  rcases backSlot_cases off with ⟨none, slot⟩ | ⟨some, slot⟩ <;> omega

theorem ne_forthSlot {off x : Nat} (head : x = 12 → off ≠ 0) (link : off = 0 ∨ x ≠ off + 16) :
    x ≠ forthSlot off := by
  rcases forthSlot_cases off with ⟨none, slot⟩ | ⟨some, slot⟩ <;> omega

theorem backSlot_none {off : Nat} (none : off = 0) : backSlot off = 16 := by
  rw [none]
  rfl

theorem backSlot_some {off : Nat} (some : off ≠ 0) : backSlot off = off + 20 := if_pos some

theorem forthSlot_none {off : Nat} (none : off = 0) : forthSlot off = 12 := by
  rw [none]
  rfl

theorem forthSlot_some {off : Nat} (some : off ≠ 0) : forthSlot off = off + 16 := if_pos some

section SplitEnd

variable {mem : Words} {xs ys : List HeapBlock} {b : HeapBlock} {cb hi : Nat}

theorem splitEnd_eq (around : Around mem xs b.off hi ys) (words : BlockWords mem xs b ys)
    (free : b.free = true) (size : mem (cbAt b.off) = b.cb) (area : hi = b.off + 16 + b.cb)
    (fits : cb + 32 ≤ b.cb) (least : 16 ≤ cb) (aligned : cb % 16 = 0) :
    splitEnd mem b.off cb =
      (mem.put (b.off + cb + 16 + 8) (b.off + cb + 16)
        |>.put (b.off + cb + 16) (nextOff ys)
        |>.putIf (nextOff ys) 4 (b.off + cb + 16)
        |>.put (b.off + cb + 16 + 4) b.off
        |>.put (b.off + cb + 16 + 12) (flagsMagic ||| 1)
        |>.put (b.off + cb + 16 + 16) (nextFree ys)
        |>.put (backSlot (nextFree ys)) (b.off + cb + 16)
        |>.put (b.off + cb + 16 + 20) (prevFree xs)
        |>.put (forthSlot (prevFree xs)) (b.off + cb + 16)
        |>.put (b.off + cb + 16 + 24) (b.cb - cb - 16)
        |>.put (b.off + 12) flagsMagic
        |>.put b.off (b.off + cb + 16)
        |>.put 8 (sub32 (mem 8) b.cb)
        |>.put 8 (add32 (sub32 (mem 8) b.cb) (b.cb - cb - 16))) := by
  have lower := around.lower
  obtain ⟨next, back, forth⟩ := Slots.of_around around
  have coreNext := words.coreNext
  have offNext := words.offNext free
  have offPrev := words.offPrev free
  have fFlags := words.fFlags
  have flags : (flagsMagic ||| 1) &&& 4294967294 = flagsMagic := by decide
  have cut : sub32 (sub32 hi (b.off + cb + 16)) 16 = b.cb - cb - 16 := by
    have small := around.small
    have upper := around.upper
    rw [sub32_sub32 (by omega) (by omega)]
    omega
  rw [free, flagsOf, if_pos rfl] at fFlags
  rw [cbAt] at size
  rw [splitEnd]
  simp (disch := omega) only [Words.store, storeIf_corePrev, storeOr_back, storeOr_forth, coreNextAt,
    corePrevAt, offSelfAt, fFlagsAt, offNextAt, offPrevAt, cbAt, cbFreeAt, cbHeapAt,
    Words.put_self, Words.put_ne, Words.putIf_ne, coreNext, offNext, offPrev, fFlags, size,
    endOf, around.end_eq, flags, cut]

/-- The two blocks a split leaves. -/
def endSplit (b : HeapBlock) (cb : Nat) : List HeapBlock :=
  [⟨b.off, cb, false⟩, ⟨b.off + cb + 16, b.cb - cb - 16, true⟩]

theorem splitEnd_effect (around : Around mem xs b.off hi ys) (words : BlockWords mem xs b ys)
    (free : b.free = true) (size : mem (cbAt b.off) = b.cb) (area : hi = b.off + 16 + b.cb)
    (fits : cb + 32 ≤ b.cb) (least : 16 ≤ cb) (aligned : cb % 16 = 0) :
    Effect mem (splitEnd mem b.off cb) xs b.off hi (endSplit b cb) ys ∧
      splitEnd mem b.off cb (cbAt (b.off + cb + 16)) = b.cb - cb - 16 ∧
      splitEnd mem b.off cb cbFreeAt = add32 (sub32 (mem cbFreeAt) b.cb) (b.cb - cb - 16) := by
  rw [splitEnd_eq around words free size area fits least aligned]
  have lower := around.lower
  obtain ⟨next, back, forth⟩ := Slots.of_around around
  have corePrev := words.corePrev
  have offSelf := words.offSelf
  refine ⟨⟨?_, fun some => ?_, ⟨?_, ?_, ?_, ?_, trivial⟩, ?_, fun some => ?_, fun some => ?_,
    ⟨?_, ?_, trivial⟩, fun none => ?_, fun none => ?_⟩, ?_, ?_⟩
  · intro x notSize notHead notTail outside notNext notFree notPrev
    have notBack := ne_backSlot notTail notFree
    have notForth := ne_forthSlot notHead notPrev
    clear notHead notTail notFree notPrev next back forth
    simp (disch := omega) only [Words.put_ne, Words.putIf_ne]
  · simp (disch := omega) only [corePrevAt, Words.put_ne, Words.putIf_self]
    rfl
  · simp (disch := omega) only [corePrevAt, Words.put_ne, Words.putIf_ne, corePrev]
  · simp (disch := omega) only [coreNextAt, Words.put_ne, Words.put_self]
    rfl
  · simp (disch := omega) only [corePrevAt, Words.put_ne, Words.put_self]
  · simp (disch := omega) only [coreNextAt, Words.put_ne, Words.putIf_ne, Words.put_self]
    rfl
  · intro c member
    rcases List.mem_cons.mp member with rfl | member
    · simp (disch := omega) only [offSelfAt, fFlagsAt, Words.put_ne, Words.putIf_ne,
        Words.put_self, offSelf, true_and]
      rfl
    · rw [List.mem_singleton.mp member]
      simp (disch := omega) only [offSelfAt, fFlagsAt, Words.put_ne, Words.putIf_ne,
        Words.put_self, true_and]
      rfl
  · have slot := forthSlot_some some
    rw [slot] at forth ⊢
    simp (disch := omega) only [offNextAt, Words.put_ne, Words.put_self]
    rfl
  · have slot := backSlot_some some
    rw [slot] at back ⊢
    simp (disch := omega) only [offPrevAt, Words.put_ne, Words.put_self]
    rfl
  · simp (disch := omega) only [offPrevAt, Words.put_ne, Words.put_self]
  · simp (disch := omega) only [offNextAt, Words.put_ne, Words.put_self]
    rfl
  · rw [forthSlot_none none]
    simp (disch := omega) only [offFreeHeadAt, Words.put_ne, Words.put_self]
    rfl
  · rw [backSlot_none none]
    simp (disch := omega) only [offFreeTailAt, Words.put_ne, Words.put_self]
    rfl
  · simp (disch := omega) only [cbAt, Words.put_ne, Words.put_self]
  · simp (disch := omega) only [cbFreeAt, Words.put_self]

end SplitEnd

section TakeWhole

variable {mem : Words} {xs ys : List HeapBlock} {b : HeapBlock} {hi : Nat}

section

variable (around : Around mem xs b.off hi ys) (words : BlockWords mem xs b ys)
  (free : b.free = true) (size : mem (cbAt b.off) = b.cb) (area : hi = b.off + 16 + b.cb)
  (least : 16 ≤ b.cb)

include around words free size area least

theorem takeWhole_eq :
    takeWhole mem b.off =
      (mem.put (backSlot (nextFree ys)) (prevFree xs)
        |>.put (forthSlot (prevFree xs)) (nextFree ys)
        |>.put 8 (sub32 (mem 8) b.cb)
        |>.put (b.off + 12) flagsMagic) := by
  have lower := around.lower
  obtain ⟨next, back, forth⟩ := Slots.of_around around
  have offNext := words.offNext free
  have offPrev := words.offPrev free
  have fFlags := words.fFlags
  have flags : (flagsMagic ||| 1) &&& 4294967294 = flagsMagic := by decide
  rw [free, flagsOf, if_pos rfl] at fFlags
  rw [cbAt] at size
  rw [takeWhole]
  simp (disch := omega) only [Words.store, storeOr_back, storeOr_forth, fFlagsAt, offNextAt,
    offPrevAt, cbAt, cbFreeAt, Words.put_ne, offNext, offPrev, fFlags, size, flags]

theorem takeWhole_effect :
    Effect mem (takeWhole mem b.off) xs b.off hi [{ b with free := false }] ys ∧
      takeWhole mem b.off cbFreeAt = sub32 (mem cbFreeAt) b.cb := by
  rw [takeWhole_eq around words free size area least]
  have lower := around.lower
  obtain ⟨next, back, forth⟩ := Slots.of_around around
  have nextLink := around.next
  have nextFree' := around.nextFree
  have coreNext := words.coreNext
  have corePrev := words.corePrev
  have offSelf := words.offSelf
  refine ⟨⟨?_, fun some => ?_, ⟨?_, ?_, trivial⟩, ?_, fun some => ?_, fun some => ?_,
    trivial, fun none => ?_, fun none => ?_⟩, ?_⟩
  · intro x notSize notHead notTail outside notNext notFree notPrev
    have notBack := ne_backSlot notTail notFree
    have notForth := ne_forthSlot notHead notPrev
    simp (disch := omega) only [Words.put_ne]
  · have nextAt : nextOff ys = hi := next.resolve_left some
    simp (disch := omega) only [corePrevAt, Words.put_ne, words.behind some]
    rfl
  · simp (disch := omega) only [corePrevAt, Words.put_ne, corePrev]
  · simp (disch := omega) only [coreNextAt, Words.put_ne, coreNext]
    rfl
  · intro c member
    rw [List.mem_singleton.mp member]
    simp (disch := omega) only [offSelfAt, fFlagsAt, Words.put_ne, Words.put_self, offSelf,
      true_and]
    rfl
  · have slot := forthSlot_some some
    rw [slot] at forth ⊢
    simp (disch := omega) only [offNextAt, Words.put_ne, Words.put_self]
    rfl
  · have slot := backSlot_some some
    rw [slot] at back ⊢
    simp (disch := omega) only [offPrevAt, Words.put_ne, Words.put_self]
    rfl
  · rw [forthSlot_none none]
    simp (disch := omega) only [offFreeHeadAt, Words.put_ne, Words.put_self]
    rfl
  · rw [backSlot_none none]
    simp (disch := omega) only [offFreeTailAt, Words.put_ne, Words.put_self]
    rfl
  · simp (disch := omega) only [cbFreeAt, Words.put_ne, Words.put_self]

end

end TakeWhole

section SplitAligned

variable {mem : Words} {xs ys : List HeapBlock} {b : HeapBlock} {pFree hi : Nat}

theorem splitAligned_eq (around : Around mem xs b.off hi ys) (words : BlockWords mem xs b ys)
    (free : b.free = true) (last : nextFree ys = 0) (first : b.off + 32 ≤ pFree)
    (second : pFree + 32 ≤ hi) :
    splitAligned mem b.off pFree =
      (mem.put (pFree + 4) b.off
        |>.put pFree (nextOff ys)
        |>.put (pFree + 8) pFree
        |>.put (pFree + 12) (flagsMagic ||| 1)
        |>.put (pFree + 20) b.off
        |>.put (pFree + 16) 0
        |>.put (pFree + 24) (hi - pFree - 16)
        |>.put b.off pFree
        |>.put (b.off + 16) pFree
        |>.put (b.off + 24) (pFree - b.off - 16)
        |>.putIf (nextOff ys) 4 pFree
        |>.put 16 pFree
        |>.put 8 (sub32 (mem 8) 16)) := by
  have lower := around.lower
  obtain ⟨next, -, -⟩ := Slots.of_around around
  have small := around.small
  have upper := around.upper
  have coreNext := words.coreNext
  have offSelf := words.offSelf
  have offNext := words.offNext free
  have cutSecond : sub32 (sub32 hi pFree) 16 = hi - pFree - 16 :=
    sub32_sub32 (by omega) (by omega)
  have cutFirst : sub32 (sub32 pFree b.off) 16 = pFree - b.off - 16 :=
    sub32_sub32 (by omega) (by omega)
  have noNext : ¬ (0 ≠ 0) := by simp
  rw [splitAligned]
  simp (disch := omega) only [Words.store, Words.storeCase, storeIf_corePrev, coreNextAt, corePrevAt,
    offSelfAt, fFlagsAt, offNextAt, offPrevAt, cbAt, cbFreeAt, cbHeapAt, offFreeTailAt, Words.put_self,
    Words.put_ne, Words.putIf_ne, coreNext, offSelf, offNext, last, endOf, around.end_eq,
    cutFirst, cutSecond, if_neg noNext]

/-- The two blocks a split for the alignment leaves. -/
def alignedSplit (b : HeapBlock) (pFree : Nat) : List HeapBlock :=
  [⟨b.off, pFree - b.off - 16, true⟩, ⟨pFree, b.off + b.cb - pFree, true⟩]

theorem splitAligned_effect (around : Around mem xs b.off hi ys) (words : BlockWords mem xs b ys)
    (free : b.free = true) (area : hi = b.off + 16 + b.cb) (last : nextFree ys = 0)
    (first : b.off + 32 ≤ pFree) (second : pFree + 32 ≤ hi) :
    Effect mem (splitAligned mem b.off pFree) xs b.off hi (alignedSplit b pFree) ys ∧
      splitAligned mem b.off pFree (cbAt b.off) = pFree - b.off - 16 ∧
      splitAligned mem b.off pFree (cbAt pFree) = b.off + b.cb - pFree ∧
      splitAligned mem b.off pFree cbFreeAt = sub32 (mem cbFreeAt) 16 := by
  rw [splitAligned_eq around words free last first second]
  have lower := around.lower
  obtain ⟨next, back, forth⟩ := Slots.of_around around
  have corePrev := words.corePrev
  have offSelf := words.offSelf
  have fFlags := words.fFlags
  have offPrev := words.offPrev free
  have prevLinks := words.linked free
  rw [free] at fFlags
  refine ⟨⟨?_, fun some => ?_, ⟨?_, ?_, ?_, ?_, trivial⟩, ?_, fun some => ?_,
    fun some => absurd last some, ⟨?_, ?_, ?_, ?_, trivial⟩, fun none => ?_, fun none => ?_⟩,
    ?_, ?_, ?_⟩
  · intro x notSize notHead notTail outside notNext notFree notPrev
    have notAnchor : x ≠ 16 := fun same => notTail same last
    clear notHead notTail notFree notPrev back forth
    simp (disch := omega) only [Words.put_ne, Words.putIf_ne]
  · simp (disch := omega) only [corePrevAt, Words.put_ne, Words.putIf_self]
    rfl
  · simp (disch := omega) only [corePrevAt, Words.put_ne, Words.putIf_ne, corePrev]
  · simp (disch := omega) only [coreNextAt, Words.put_ne, Words.putIf_ne, Words.put_self]
    rfl
  · simp (disch := omega) only [corePrevAt, Words.put_ne, Words.putIf_ne, Words.put_self]
  · simp (disch := omega) only [coreNextAt, Words.put_ne, Words.putIf_ne, Words.put_self]
    rfl
  · intro c member
    rcases List.mem_cons.mp member with rfl | member
    · simp (disch := omega) only [offSelfAt, fFlagsAt, Words.put_ne, Words.putIf_ne, offSelf,
        fFlags, and_self]
    · rw [List.mem_singleton.mp member]
      simp (disch := omega) only [offSelfAt, fFlagsAt, Words.put_ne, Words.putIf_ne,
        Words.put_self, true_and]
      rfl
  · obtain ⟨lowerP, upperP⟩ := around.prevFree_some some
    simp (disch := omega) only [offNextAt, Words.put_ne, Words.putIf_ne, prevLinks.1 some]
    rfl
  · simp (disch := omega) only [offPrevAt, Words.put_ne, Words.putIf_ne, offPrev]
  · simp (disch := omega) only [offNextAt, Words.put_ne, Words.putIf_ne, Words.put_self]
    rfl
  · simp (disch := omega) only [offPrevAt, Words.put_ne, Words.putIf_ne, Words.put_self]
  · simp (disch := omega) only [offNextAt, Words.put_ne, Words.putIf_ne, Words.put_self, last]
    rfl
  · simp (disch := omega) only [offFreeHeadAt, Words.put_ne, Words.putIf_ne]
    exact prevLinks.2 none
  · simp (disch := omega) only [offFreeTailAt, Words.put_ne, Words.put_self]
    rfl
  · simp (disch := omega) only [cbAt, Words.put_ne, Words.putIf_ne, Words.put_self]
  · simp (disch := omega) only [cbAt, Words.put_ne, Words.putIf_ne, Words.put_self]
    omega
  · simp (disch := omega) only [cbFreeAt, Words.put_self]

end SplitAligned

end VBox.Runtime
