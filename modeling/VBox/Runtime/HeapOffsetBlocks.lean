import VBox.Runtime.HeapOffset
import Mathlib.Data.List.Chain
import Mathlib.Algebra.BigOperators.Group.List.Basic

/-!
The blocks of an offset heap.

`Lists` says that the memory holds a given list of blocks that tile the heap, with both
lists of the source linked through them, and `HeapOk` adds the sizes of the free ones.
`Lists.replace` is the rule every operation goes through: it puts other blocks in the
place of some, and asks what the words of the others are.
-/

namespace VBox.Runtime

open VBox.Lib List

structure HeapBlock where
  off : Nat
  cb : Nat
  free : Bool
  deriving DecidableEq

/-- The blocks lie side by side. -/
def Tiles : Nat → List HeapBlock → Nat → Prop
  | lo, [], hi => lo = hi
  | lo, b :: blocks, hi =>
      b.off = lo ∧ 16 ≤ b.cb ∧ b.cb % 16 = 0 ∧ Tiles (b.off + 16 + b.cb) blocks hi

def offs (blocks : List HeapBlock) : List Nat := blocks.map HeapBlock.off

def freeBlocks (blocks : List HeapBlock) : List HeapBlock := blocks.filter HeapBlock.free

def freeOffs (blocks : List HeapBlock) : List Nat := offs (freeBlocks blocks)

/-- The sum of the free sizes. -/
def freeSize (blocks : List HeapBlock) : Nat := ((freeBlocks blocks).map HeapBlock.cb).sum

/-- Two free blocks are not next to each other. -/
def Apart (a b : HeapBlock) : Prop := ¬ (a.free = true ∧ b.free = true)

/-- `fFlags` of a block. -/
def flagsOf (free : Bool) : Nat := if free then flagsMagic ||| 1 else flagsMagic

abbrev CoreLinked (mem : Words) : Nat → List Nat → Nat → Prop :=
  Linked (fun off => mem (coreNextAt off)) (fun off => mem (corePrevAt off))

abbrev FreeLinked (mem : Words) : Nat → List Nat → Nat → Prop :=
  Linked (fun off => mem (offNextAt off)) (fun off => mem (offPrevAt off))

variable {p q : Nat} {l l' : List Nat}

theorem coreLinked_append {mem : Words} : CoreLinked mem p (l ++ l') q ↔
      CoreLinked mem p l (l'.headD q) ∧ CoreLinked mem (l.getLastD p) l' q :=
  linked_append

theorem freeLinked_append {mem : Words} : FreeLinked mem p (l ++ l') q ↔
      FreeLinked mem p l (l'.headD q) ∧ FreeLinked mem (l.getLastD p) l' q :=
  linked_append

/-- The blocks of the heap and its two lists. -/
structure Lists (mem : Words) (blocks : List HeapBlock) : Prop where
  magic : mem u32MagicAt = heapMagic
  small : mem cbHeapAt < 2 ^ 32
  tiles : Tiles 32 blocks (mem cbHeapAt)
  core : CoreLinked mem 0 (offs blocks) 0
  header : ∀ b ∈ blocks, mem (offSelfAt b.off) = b.off ∧ mem (fFlagsAt b.off) = flagsOf b.free
  free : FreeLinked mem 0 (freeOffs blocks) 0
  head : mem offFreeHeadAt = (freeOffs blocks).headD 0
  tail : mem offFreeTailAt = (freeOffs blocks).getLastD 0

/-- The state of a heap between two calls. -/
structure HeapOk (mem : Words) (blocks : List HeapBlock) : Prop where
  lists : Lists mem blocks
  cb : ∀ b ∈ blocks, b.free = true → mem (cbAt b.off) = b.cb
  cbFree : mem cbFreeAt = freeSize blocks
  apart : blocks.IsChain Apart

section Tiling

variable {lo hi : Nat} {xs ys blocks : List HeapBlock} {b : HeapBlock}

@[simp] theorem offs_append : offs (xs ++ ys) = offs xs ++ offs ys := map_append

@[simp] theorem freeOffs_append : freeOffs (xs ++ ys) = freeOffs xs ++ freeOffs ys := by
  simp [freeOffs, freeBlocks]

@[simp] theorem freeSize_append : freeSize (xs ++ ys) = freeSize xs + freeSize ys := by
  simp [freeSize, freeBlocks]

theorem freeOffs_cons : freeOffs (b :: blocks) =
    if b.free = true then b.off :: freeOffs blocks else freeOffs blocks := by
  rw [freeOffs, freeBlocks, filter_cons]
  split <;> rfl

theorem freeSize_cons : freeSize (b :: blocks) =
    if b.free = true then b.cb + freeSize blocks else freeSize blocks := by
  rw [freeSize, freeBlocks, filter_cons]
  split <;> rfl

theorem tiles_append : Tiles lo (xs ++ ys) hi ↔ ∃ mid, Tiles lo xs mid ∧ Tiles mid ys hi := by
  induction xs generalizing lo with
  | nil => simp [Tiles]
  | cons b xs ih =>
    rw [cons_append, Tiles, ih]
    constructor
    · rintro ⟨start, size, aligned, mid, first, second⟩
      exact ⟨mid, ⟨start, size, aligned, first⟩, second⟩
    · rintro ⟨mid, ⟨start, size, aligned, first⟩, second⟩
      exact ⟨start, size, aligned, mid, first, second⟩

/-- A block lies in the area. -/
structure Within (lo hi : Nat) (b : HeapBlock) : Prop where
  lower : lo ≤ b.off
  upper : b.off + 16 + b.cb ≤ hi
  size : 16 ≤ b.cb
  aligned : b.off % 16 = lo % 16

theorem Tiles.within (tiles : Tiles lo blocks hi) : lo ≤ hi ∧ ∀ b ∈ blocks, Within lo hi b := by
  induction blocks generalizing lo with
  | nil => exact ⟨Nat.le_of_eq tiles, fun _ member => by cases member⟩
  | cons b blocks ih =>
    obtain ⟨start, size, aligned, rest⟩ := tiles
    obtain ⟨order, inside⟩ := ih rest
    refine ⟨by omega, ?_⟩
    intro c member
    rcases mem_cons.mp member with rfl | member
    · exact ⟨by omega, by omega, size, by rw [start]⟩
    · obtain ⟨lower, upper, size', aligned'⟩ := inside c member
      exact ⟨by omega, upper, size', by omega⟩

/-- A block lies before another. -/
def Before (b c : HeapBlock) : Prop := b.off + 16 + b.cb ≤ c.off ∧ 16 ≤ b.cb

theorem Tiles.pairwise (tiles : Tiles lo blocks hi) : blocks.Pairwise Before := by
  induction blocks generalizing lo with
  | nil => exact .nil
  | cons b blocks ih =>
    obtain ⟨-, size, -, rest⟩ := tiles
    exact .cons (fun c member => ⟨(rest.within.2 c member).lower, size⟩) (ih rest)

theorem Tiles.nodup (tiles : Tiles lo blocks hi) : (offs blocks).Nodup := by
  rw [offs, Nodup, pairwise_map]
  refine tiles.pairwise.imp ?_
  intro b c before
  have := before.1
  omega

theorem freeOffs_sublist (blocks : List HeapBlock) : (freeOffs blocks).Sublist (offs blocks) :=
  filter_sublist.map _

theorem mem_freeOffs {off : Nat} :
    off ∈ freeOffs blocks ↔ ∃ b ∈ blocks, b.free = true ∧ b.off = off := by
  simp [freeOffs, freeBlocks, offs, and_assoc]

theorem freeSize_le (tiles : Tiles lo blocks hi) : freeSize blocks + lo ≤ hi := by
  induction blocks generalizing lo with
  | nil => exact Nat.le_of_eq ((Nat.zero_add lo).trans tiles)
  | cons b blocks ih =>
    obtain ⟨start, -, -, rest⟩ := tiles
    have below := ih rest
    rw [freeSize_cons]
    split <;> omega

/-- The first block that is linked behind others, or zero. -/
def nextOff (blocks : List HeapBlock) : Nat := (offs blocks).headD 0

def prevOff (blocks : List HeapBlock) : Nat := (offs blocks).getLastD 0

def nextFree (blocks : List HeapBlock) : Nat := (freeOffs blocks).headD 0

def prevFree (blocks : List HeapBlock) : Nat := (freeOffs blocks).getLastD 0

theorem headD_cases (l : List Nat) (q : Nat) : l.headD q = q ∧ l = [] ∨ l.headD q ∈ l := by
  cases l with
  | nil => exact .inl ⟨rfl, rfl⟩
  | cons a l => exact .inr (mem_cons_self ..)

theorem getLastD_cases (l : List Nat) (p : Nat) : l.getLastD p = p ∧ l = [] ∨ l.getLastD p ∈ l := by
  rcases eq_nil_or_concat l with rfl | ⟨us, z, rfl⟩
  · exact .inl ⟨rfl, rfl⟩
  · rw [concat_eq_append, getLastD_concat]
    exact .inr (mem_append_right _ (mem_singleton_self z))

end Tiling

section Replace

variable {mem mem' : Words} {xs old new ys : List HeapBlock}

/-- The words behind a change of some blocks between `xs` and `ys`. -/
structure Patch (mem mem' : Words) (xs new ys : List HeapBlock) : Prop where
  anchor : mem' u32MagicAt = mem u32MagicAt ∧ mem' cbHeapAt = mem cbHeapAt
  before : ∀ a ∈ xs, mem' (coreNextAt a.off) = mem (coreNextAt a.off) ∧
    mem' (corePrevAt a.off) = mem (corePrevAt a.off) ∧
    mem' (offSelfAt a.off) = mem (offSelfAt a.off) ∧
    mem' (fFlagsAt a.off) = mem (fFlagsAt a.off)
  behind : ∀ a ∈ ys, mem' (coreNextAt a.off) = mem (coreNextAt a.off) ∧
    (a.off ≠ nextOff ys → mem' (corePrevAt a.off) = mem (corePrevAt a.off)) ∧
    mem' (offSelfAt a.off) = mem (offSelfAt a.off) ∧
    mem' (fFlagsAt a.off) = mem (fFlagsAt a.off)
  next : nextOff ys ≠ 0 → mem' (corePrevAt (nextOff ys)) = (offs new).getLastD (prevOff xs)
  core : CoreLinked mem' (prevOff xs) (offs new) (nextOff ys)
  header : ∀ b ∈ new, mem' (offSelfAt b.off) = b.off ∧ mem' (fFlagsAt b.off) = flagsOf b.free
  freeBefore : ∀ off ∈ freeOffs xs, mem' (offPrevAt off) = mem (offPrevAt off) ∧
    (off ≠ prevFree xs → mem' (offNextAt off) = mem (offNextAt off))
  freeBehind : ∀ off ∈ freeOffs ys, mem' (offNextAt off) = mem (offNextAt off) ∧
    (off ≠ nextFree ys → mem' (offPrevAt off) = mem (offPrevAt off))
  freePrev : prevFree xs ≠ 0 →
    mem' (offNextAt (prevFree xs)) = (freeOffs new).headD (nextFree ys)
  freeNext : nextFree ys ≠ 0 →
    mem' (offPrevAt (nextFree ys)) = (freeOffs new).getLastD (prevFree xs)
  free : FreeLinked mem' (prevFree xs) (freeOffs new) (nextFree ys)
  head : mem' offFreeHeadAt =
    if prevFree xs = 0 then (freeOffs new).headD (nextFree ys) else mem offFreeHeadAt
  tail : mem' offFreeTailAt =
    if nextFree ys = 0 then (freeOffs new).getLastD (prevFree xs) else mem offFreeTailAt
  cb : ∀ a, a ∈ xs ∨ a ∈ ys → mem' (cbAt a.off) = mem (cbAt a.off)
  user : ∀ a, a ∈ xs ∨ a ∈ ys → a.free = false →
    ∀ x, a.off + 16 ≤ x → x < a.off + 16 + a.cb → mem' x = mem x

theorem offs_pos {lo hi : Nat} {blocks : List HeapBlock} (tiles : Tiles lo blocks hi)
    (pos : 0 < lo) : ∀ off ∈ offs blocks, off ≠ 0 := by
  intro off member
  obtain ⟨b, inside, rfl⟩ := mem_map.mp member
  have := (tiles.within.2 b inside).lower
  omega

theorem getLastD_append (xs ys : List Nat) (p : Nat) :
    (xs ++ ys).getLastD p = ys.getLastD (xs.getLastD p) := by
  rw [getLastD_eq_getLast?, getLastD_eq_getLast?, getLastD_eq_getLast?, getLast?_append]
  cases ys.getLast? <;> rfl

theorem getLastD_of_ne (ne : l.getLastD 0 ≠ 0) : l.getLastD p = l.getLastD 0 := by
  rcases eq_nil_or_concat l with rfl | ⟨us, z, rfl⟩
  · exact absurd rfl ne
  · rw [concat_eq_append, getLastD_concat, getLastD_concat]

/-- Other blocks in the place of `old`. -/
theorem Lists.replace (lists : Lists mem (xs ++ old ++ ys)) (patch : Patch mem mem' xs new ys)
    (tiles : ∀ {lo hi}, Tiles lo old hi → Tiles lo new hi)
    (start : ∀ q, (offs new).headD q = (offs old).headD q) : Lists mem' (xs ++ new ++ ys) := by
  obtain ⟨hi, tilesOld, tilesYs⟩ := tiles_append.mp lists.tiles
  obtain ⟨mid, tilesXs, tilesOld⟩ := tiles_append.mp tilesOld
  have posXs := offs_pos tilesXs (by decide)
  have posYs : ∀ off ∈ offs ys, off ≠ 0 := by
    have := tilesXs.within.1
    have := tilesOld.within.1
    exact offs_pos tilesYs (by omega)
  have nodupXs := tilesXs.nodup
  have nodupYs := tilesYs.nodup
  have core := lists.core
  rw [offs_append, offs_append, coreLinked_append, coreLinked_append] at core
  obtain ⟨⟨coreXs, -⟩, coreYs⟩ := core
  have free := lists.free
  rw [freeOffs_append, freeOffs_append, freeLinked_append, freeLinked_append] at free
  obtain ⟨⟨freeXs, -⟩, freeYs⟩ := free
  constructor
  · rw [patch.anchor.1]
    exact lists.magic
  · rw [patch.anchor.2]
    exact lists.small
  · rw [patch.anchor.2, tiles_append]
    exact ⟨hi, tiles_append.mpr ⟨mid, tilesXs, tiles tilesOld⟩, tilesYs⟩
  · rw [offs_append, offs_append, coreLinked_append, coreLinked_append]
    refine ⟨⟨?_, patch.core⟩, ?_⟩
    · rw [start]
      refine coreXs.congr fun off member => ?_
      obtain ⟨a, inside, rfl⟩ := mem_map.mp member
      exact ⟨(patch.before a inside).1, (patch.before a inside).2.1⟩
    · rw [getLastD_append]
      refine coreYs.relink_start nodupYs (fun off member => ?_) (fun off member other => ?_)
        fun off first => ?_
      · obtain ⟨a, inside, rfl⟩ := mem_map.mp member
        exact (patch.behind a inside).1
      · obtain ⟨a, inside, rfl⟩ := mem_map.mp member
        refine (patch.behind a inside).2.1 fun same => other ?_
        cases ys with
        | nil => cases inside
        | cons c ys => exact congrArg some same.symm
      · have isNext : nextOff ys = off := by
          rw [nextOff, headD_eq_head?_getD, first]
          rfl
        have inside : off ∈ offs ys := mem_of_head? first
        rw [← isNext]
        exact patch.next (by rw [isNext]; exact posYs off inside)
  · intro b member
    rcases mem_append.mp member with member | member
    · rcases mem_append.mp member with member | member
      · obtain ⟨-, -, self, flags⟩ := patch.before b member
        rw [self, flags]
        exact lists.header b (by simp [member])
      · exact patch.header b member
    · obtain ⟨-, -, self, flags⟩ := patch.behind b member
      rw [self, flags]
      exact lists.header b (by simp [member])
  · rw [freeOffs_append, freeOffs_append, freeLinked_append, freeLinked_append]
    refine ⟨⟨?_, patch.free⟩, ?_⟩
    · refine freeXs.relink_end (nodupXs.sublist (freeOffs_sublist xs))
        (fun off member => (patch.freeBefore off member).1) (fun off member other => ?_)
        fun off last => ?_
      · refine (patch.freeBefore off member).2 fun same => other ?_
        rcases eq_nil_or_concat (freeOffs xs) with none | ⟨us, z, some⟩
        · rw [none] at member
          cases member
        · rw [same, prevFree, some, concat_eq_append, getLast?_concat, getLastD_concat]
      · have isPrev : prevFree xs = off := by
          rw [prevFree, getLastD_eq_getLast?, last]
          rfl
        have inside : off ∈ offs xs := (freeOffs_sublist xs).subset (mem_of_getLast? last)
        rw [← isPrev]
        exact patch.freePrev (by rw [isPrev]; exact posXs off inside)
    · rw [getLastD_append]
      refine freeYs.relink_start (nodupYs.sublist (freeOffs_sublist ys))
        (fun off member => (patch.freeBehind off member).1) (fun off member other => ?_)
        fun off first => ?_
      · refine (patch.freeBehind off member).2 fun same => other ?_
        rw [same, nextFree]
        cases list : freeOffs ys with
        | nil =>
          rw [list] at member
          cases member
        | cons c l => rfl
      · have isNext : nextFree ys = off := by
          rw [nextFree, headD_eq_head?_getD, first]
          rfl
        have inside : off ∈ offs ys := (freeOffs_sublist ys).subset (mem_of_head? first)
        rw [← isNext]
        exact patch.freeNext (by rw [isNext]; exact posYs off inside)
  · rw [patch.head, freeOffs_append, freeOffs_append, append_assoc, headD_append, headD_append]
    split
    case isTrue none =>
      rcases getLastD_cases (freeOffs xs) 0 with ⟨-, empty⟩ | member
      · rw [empty]
        rfl
      · exact absurd none (posXs _ ((freeOffs_sublist xs).subset member))
    case isFalse some =>
      rw [lists.head, freeOffs_append, freeOffs_append, append_assoc, headD_append]
      cases list : freeOffs xs with
      | nil =>
        rw [prevFree, list] at some
        exact absurd rfl some
      | cons c l => rfl
  · rw [patch.tail, freeOffs_append, freeOffs_append, getLastD_append, getLastD_append]
    split
    case isTrue none =>
      rcases headD_cases (freeOffs ys) 0 with ⟨-, empty⟩ | member
      · rw [empty]
        rfl
      · exact absurd none (posYs _ ((freeOffs_sublist ys).subset member))
    case isFalse some =>
      have last : (freeOffs ys).getLastD 0 ≠ 0 := by
        rcases getLastD_cases (freeOffs ys) 0 with ⟨-, empty⟩ | member
        · rw [nextFree, empty] at some
          exact absurd rfl some
        · exact posYs _ ((freeOffs_sublist ys).subset member)
      rw [lists.tail, freeOffs_append, freeOffs_append, getLastD_append]
      exact (getLastD_of_ne last).trans (getLastD_of_ne last).symm

end Replace

section Around

variable {mem : Words} {xs ys : List HeapBlock} {b : HeapBlock}

/-- A block is the one at `off`, or its first 32 bytes are apart from those there. -/
def OrApart (a : HeapBlock) (off : Nat) : Prop :=
  a.off = off ∨ a.off + 32 ≤ off ∨ off + 32 ≤ a.off

/-- A block in use has no byte in the first 32 bytes at `off`. -/
def ClearOf (a : HeapBlock) (off : Nat) : Prop :=
  a.free = false → off = 0 ∨ a.off + 16 + a.cb ≤ off ∨ off + 32 ≤ a.off

/-- Where the other blocks and the links lie, seen from the area between `lo` and `hi`. -/
structure Around (mem : Words) (xs : List HeapBlock) (lo hi : Nat) (ys : List HeapBlock) :
    Prop where
  lower : 32 ≤ lo
  size : lo + 32 ≤ hi
  aligned : lo % 16 = 0
  upper : hi ≤ mem cbHeapAt
  small : mem cbHeapAt < 2 ^ 32
  before : ∀ a ∈ xs, 32 ≤ a.off ∧ 16 ≤ a.cb ∧ a.off + 16 + a.cb ≤ lo ∧ a.off % 16 = 0 ∧
    OrApart a (prevFree xs) ∧ ClearOf a (prevFree xs)
  behind : ∀ a ∈ ys, hi ≤ a.off ∧ 16 ≤ a.cb ∧ a.off % 16 = 0 ∧
    OrApart a (nextFree ys) ∧ OrApart a (nextOff ys) ∧ ClearOf a (nextFree ys)
  next : nextOff ys = 0 ∧ hi = mem cbHeapAt ∨
    nextOff ys = hi ∧ nextOff ys + 32 ≤ mem cbHeapAt
  nextFree : nextFree ys = 0 ∨ hi ≤ nextFree ys ∧ nextFree ys % 16 = 0 ∧
    (nextFree ys = nextOff ys ∨ nextOff ys + 32 ≤ nextFree ys)
  prevFree : prevFree xs = 0 ∨ 32 ≤ prevFree xs ∧ prevFree xs + 32 ≤ lo ∧
    prevFree xs % 16 = 0

theorem before_or_before {blocks : List HeapBlock} {a c : HeapBlock}
    (apart : blocks.Pairwise Before) (ha : a ∈ blocks) (hc : c ∈ blocks) :
    a = c ∨ Before a c ∨ Before c a := by
  induction apart with
  | nil => cases ha
  | cons first _ ih =>
    rcases mem_cons.mp ha with rfl | inA
    · rcases mem_cons.mp hc with rfl | inC
      · exact .inl rfl
      · exact .inr (.inl (first c inC))
    · rcases mem_cons.mp hc with rfl | inC
      · exact .inr (.inr (first a inA))
      · exact ih inA inC

theorem prevFree_spec (blocks : List HeapBlock) : prevFree blocks = 0 ∧ freeOffs blocks = [] ∨
      ∃ p ∈ blocks, p.free = true ∧ p.off = prevFree blocks := by
  rcases getLastD_cases (freeOffs blocks) 0 with empty | member
  · exact .inl empty
  · exact .inr (mem_freeOffs.mp member)

theorem nextFree_spec (blocks : List HeapBlock) : nextFree blocks = 0 ∧ freeOffs blocks = [] ∨
      ∃ n ∈ blocks, n.free = true ∧ n.off = nextFree blocks := by
  rcases headD_cases (freeOffs blocks) 0 with empty | member
  · exact .inl empty
  · exact .inr (mem_freeOffs.mp member)

theorem Lists.around {old : List HeapBlock} (lists : Lists mem (xs ++ old ++ ys))
    (some : old ≠ []) : ∃ lo hi, Tiles lo old hi ∧ Around mem xs lo hi ys := by
  have tiles := lists.tiles
  rw [append_assoc] at tiles
  obtain ⟨lo, tilesXs, tiles⟩ := tiles_append.mp tiles
  obtain ⟨hi, tilesOld, tilesYs⟩ := tiles_append.mp tiles
  obtain ⟨lower, insideXs⟩ := tilesXs.within
  obtain ⟨upper, insideYs⟩ := tilesYs.within
  obtain ⟨b, old, rfl⟩ := exists_cons_of_ne_nil some
  obtain ⟨startB, sizeB, alignedCb, tilesB⟩ := tilesOld
  have afterB := tilesB.within.1
  have aligned : lo % 16 = 0 := by
    have whole := (lists.tiles.within.2 b (by simp)).aligned
    omega
  have alignedYs : ∀ a ∈ ys, a.off % 16 = 0 := by
    intro a member
    have := (lists.tiles.within.2 a (by simp [member])).aligned
    omega
  have cases' : ys = [] ∨ ∃ c ys', ys = c :: ys' := by
    cases ys with
    | nil => exact .inl rfl
    | cons c ys => exact .inr ⟨c, ys, rfl⟩
  refine ⟨lo, hi, ⟨startB, sizeB, alignedCb, tilesB⟩, ?_⟩
  constructor
  · exact lower
  · omega
  · exact aligned
  · exact upper
  · exact lists.small
  · intro a member
    obtain ⟨lowerA, upperA, sizeA, alignedA⟩ := insideXs a member
    refine ⟨lowerA, sizeA, by omega, by omega, ?_⟩
    rcases prevFree_spec xs with ⟨none, -⟩ | ⟨p, inside, isFree, at'⟩
    · rw [none]
      exact ⟨.inr (.inr (by omega)), fun _ => .inl rfl⟩
    · rw [← at']
      rcases before_or_before tilesXs.pairwise member inside with rfl | below | above
      · exact ⟨.inl rfl, fun used => by rw [isFree] at used; cases used⟩
      · obtain ⟨below, -⟩ := below
        exact ⟨.inr (.inl (by omega)), fun _ => .inr (.inl below)⟩
      · obtain ⟨above, sizeP⟩ := above
        exact ⟨.inr (.inr (by omega)), fun _ => .inr (.inr (by omega))⟩
  · intro a member
    obtain ⟨lowerA, upperA, sizeA, -⟩ := insideYs a member
    refine ⟨lowerA, sizeA, alignedYs a member, ?_⟩
    have next : OrApart a (nextOff ys) := by
      obtain ⟨c, ys', rfl⟩ := cases'.resolve_left (ne_nil_of_mem member)
      rcases before_or_before tilesYs.pairwise member (mem_cons_self ..) with rfl | below | above
      · exact .inl rfl
      · have := below.1
        exact .inr (.inl (by show _ ≤ c.off; omega))
      · obtain ⟨above, sizeC⟩ := above
        exact .inr (.inr (by show c.off + 32 ≤ _; omega))
    rcases nextFree_spec ys with ⟨none, -⟩ | ⟨n, inside, isFree, at'⟩
    · rw [none]
      exact ⟨.inr (.inr (by omega)), next, fun _ => .inl rfl⟩
    · rw [← at']
      rcases before_or_before tilesYs.pairwise member inside with rfl | below | above
      · exact ⟨.inl rfl, next, fun used => by rw [isFree] at used; cases used⟩
      · obtain ⟨below, -⟩ := below
        exact ⟨.inr (.inl (by omega)), next, fun _ => .inr (.inl below)⟩
      · obtain ⟨above, sizeN⟩ := above
        exact ⟨.inr (.inr (by omega)), next, fun _ => .inr (.inr (by omega))⟩
  · rcases cases' with rfl | ⟨c, ys', rfl⟩
    · exact .inl ⟨rfl, tilesYs⟩
    · obtain ⟨startC, sizeC, -, tilesC⟩ := tilesYs
      have := tilesC.within.1
      exact .inr ⟨startC, by show c.off + 32 ≤ _; omega⟩
  · rcases nextFree_spec ys with ⟨none, -⟩ | ⟨n, inside, -, at'⟩
    · exact .inl none
    · rw [← at']
      refine .inr ⟨(insideYs n inside).lower, alignedYs n inside, ?_⟩
      obtain ⟨c, ys', rfl⟩ := cases'.resolve_left (ne_nil_of_mem inside)
      obtain ⟨startC, sizeC, -, tilesC⟩ := tilesYs
      rcases mem_cons.mp inside with rfl | member
      · exact .inl rfl
      · have := (tilesC.within.2 n member).lower
        exact .inr (by show c.off + 32 ≤ _; omega)
  · rcases prevFree_spec xs with ⟨none, -⟩ | ⟨p, inside, -, at'⟩
    · exact .inl none
    · obtain ⟨lowerP, upperP, sizeP, alignedP⟩ := insideXs p inside
      rw [← at']
      exact .inr ⟨lowerP, by omega, by omega⟩

theorem Around.prevFree_some {lo hi : Nat} (around : Around mem xs lo hi ys)
    (some : Runtime.prevFree xs ≠ 0) : 32 ≤ Runtime.prevFree xs ∧ Runtime.prevFree xs + 32 ≤ lo :=
  have ⟨lower, upper, _⟩ := around.prevFree.resolve_left some
  ⟨lower, upper⟩

theorem Around.nextFree_some {lo hi : Nat} (around : Around mem xs lo hi ys)
    (some : Runtime.nextFree ys ≠ 0) : hi ≤ Runtime.nextFree ys :=
  (around.nextFree.resolve_left some).1

/-- The words of a block. -/
structure BlockWords (mem : Words) (xs : List HeapBlock) (b : HeapBlock) (ys : List HeapBlock) :
    Prop where
  coreNext : mem b.off = nextOff ys
  corePrev : mem (b.off + 4) = prevOff xs
  offSelf : mem (b.off + 8) = b.off
  fFlags : mem (b.off + 12) = flagsOf b.free
  offNext : b.free = true → mem (b.off + 16) = Runtime.nextFree ys
  offPrev : b.free = true → mem (b.off + 20) = Runtime.prevFree xs
  behind : nextOff ys ≠ 0 → mem (nextOff ys + 4) = b.off
  linked : b.free = true → (Runtime.prevFree xs ≠ 0 → mem (Runtime.prevFree xs + 16) = b.off) ∧
    (Runtime.prevFree xs = 0 → mem 12 = b.off)
  linkedBack : b.free = true → (Runtime.nextFree ys ≠ 0 → mem (Runtime.nextFree ys + 20) = b.off) ∧
    (Runtime.nextFree ys = 0 → mem 16 = b.off)

theorem Lists.words (lists : Lists mem (xs ++ b :: ys)) : BlockWords mem xs b ys := by
  have core := lists.core
  rw [offs_append] at core
  have free := lists.free
  rw [freeOffs_append] at free
  have header := lists.header b (by simp)
  refine ⟨core.around.2, core.around.1, header.1, header.2, fun isFree => ?_, fun isFree => ?_,
    fun some => ?_, fun isFree => ⟨fun some => ?_, fun none => ?_⟩,
    fun isFree => ⟨fun some => ?_, fun none => ?_⟩⟩
  · rw [freeOffs_cons, if_pos isFree] at free
    exact free.around.2
  · rw [freeOffs_cons, if_pos isFree] at free
    exact free.around.1
  · cases ys with
    | nil => exact absurd rfl some
    | cons c ys =>
      have core' : CoreLinked mem 0 ((offs xs ++ [b.off]) ++ c.off :: offs ys) 0 := by
        rw [append_assoc]
        exact core
      exact core'.around.1.trans (getLastD_concat ..)
  · rw [freeOffs_cons, if_pos isFree] at free
    rcases eq_nil_or_concat (freeOffs xs) with empty | ⟨us, p, list⟩
    · rw [prevFree, empty] at some
      exact absurd rfl some
    · rw [concat_eq_append] at list
      have isPrev : prevFree xs = p := by rw [prevFree, list, getLastD_concat]
      rw [list, append_assoc] at free
      rw [isPrev]
      exact free.around.2
  · have head := lists.head
    rw [freeOffs_append, freeOffs_cons, if_pos isFree, headD_append] at head
    rcases prevFree_spec xs with ⟨-, empty⟩ | ⟨p, inside, -, at'⟩
    · rw [empty] at head
      exact head
    · have pos := (lists.tiles.within.2 p (by simp [inside])).lower
      omega
  · rw [freeOffs_cons, if_pos isFree] at free
    cases list : freeOffs ys with
    | nil =>
      rw [nextFree, list] at some
      exact absurd rfl some
    | cons n l =>
      have free' : FreeLinked mem 0 ((freeOffs xs ++ [b.off]) ++ n :: l) 0 := by
        rw [append_assoc, ← list]
        exact free
      rw [nextFree, list]
      exact free'.around.1.trans (getLastD_concat ..)
  · have tail := lists.tail
    rw [freeOffs_append, freeOffs_cons, if_pos isFree, getLastD_append, getLastD_cons] at tail
    rcases nextFree_spec ys with ⟨-, empty⟩ | ⟨n, inside, -, at'⟩
    · rw [empty] at tail
      exact tail
    · have pos := (lists.tiles.within.2 n (by simp [inside])).lower
      omega

/-- What a change of the area between `lo` and `hi` is: it stores there, and into the links
to it. -/
structure Effect (mem mem' : Words) (xs : List HeapBlock) (lo hi : Nat) (new ys : List HeapBlock) :
    Prop where
  frame : ∀ x, x ≠ 8 → (x = 12 → prevFree xs ≠ 0) → (x = 16 → nextFree ys ≠ 0) →
    (x < lo ∨ hi ≤ x) → (nextOff ys = 0 ∨ x ≠ nextOff ys + 4) →
    (nextFree ys = 0 ∨ x ≠ nextFree ys + 20) → (prevFree xs = 0 ∨ x ≠ prevFree xs + 16) →
    mem' x = mem x
  next : nextOff ys ≠ 0 → mem' (corePrevAt (nextOff ys)) = (offs new).getLastD (prevOff xs)
  core : CoreLinked mem' (prevOff xs) (offs new) (nextOff ys)
  header : ∀ b ∈ new, mem' (offSelfAt b.off) = b.off ∧ mem' (fFlagsAt b.off) = flagsOf b.free
  freePrev : prevFree xs ≠ 0 →
    mem' (offNextAt (prevFree xs)) = (freeOffs new).headD (nextFree ys)
  freeNext : nextFree ys ≠ 0 →
    mem' (offPrevAt (nextFree ys)) = (freeOffs new).getLastD (prevFree xs)
  free : FreeLinked mem' (prevFree xs) (freeOffs new) (nextFree ys)
  head : prevFree xs = 0 → mem' offFreeHeadAt = (freeOffs new).headD (nextFree ys)
  tail : nextFree ys = 0 → mem' offFreeTailAt = (freeOffs new).getLastD (prevFree xs)

theorem Effect.patch {mem' : Words} {lo hi : Nat} {new : List HeapBlock}
    (effect : Effect mem mem' xs lo hi new ys) (around : Around mem xs lo hi ys) :
    Patch mem mem' xs new ys := by
  have lower := around.lower
  have size := around.size
  have aligned := around.aligned
  have next := around.next
  have nextFree' := around.nextFree
  have prevFree' := around.prevFree
  -- the words of a block before the area
  have before : ∀ a ∈ xs, ∀ k, k < 32 → k ≠ 16 ∨ a.off ≠ Runtime.prevFree xs →
      mem' (a.off + k) = mem (a.off + k) := by
    intro a member k less notLink
    obtain ⟨lowerA, sizeA, upperA, alignedA, apartA, -⟩ := around.before a member
    rw [OrApart] at apartA
    apply effect.frame <;> omega
  have behind : ∀ a ∈ ys, ∀ k, k < 32 → (k ≠ 4 ∨ a.off ≠ nextOff ys) →
      (k ≠ 20 ∨ a.off ≠ Runtime.nextFree ys) → mem' (a.off + k) = mem (a.off + k) := by
    intro a member k less notCore notLink
    obtain ⟨lowerA, sizeA, alignedA, apartA, nextA, -⟩ := around.behind a member
    rw [OrApart] at apartA nextA
    apply effect.frame <;> omega
  constructor
  · constructor
    · apply effect.frame <;> rw [u32MagicAt] <;> omega
    · apply effect.frame <;> rw [cbHeapAt] <;> omega
  · intro a member
    exact ⟨before a member 0 (by decide) (.inl (by decide)),
      before a member 4 (by decide) (.inl (by decide)),
      before a member 8 (by decide) (.inl (by decide)),
      before a member 12 (by decide) (.inl (by decide))⟩
  · intro a member
    exact ⟨behind a member 0 (by decide) (.inl (by decide)) (.inl (by decide)),
      fun other => behind a member 4 (by decide) (.inr other) (.inl (by decide)),
      behind a member 8 (by decide) (.inl (by decide)) (.inl (by decide)),
      behind a member 12 (by decide) (.inl (by decide)) (.inl (by decide))⟩
  · exact effect.next
  · exact effect.core
  · exact effect.header
  · intro off member
    obtain ⟨a, inside, -, rfl⟩ := mem_freeOffs.mp member
    exact ⟨before a inside 20 (by decide) (.inl (by decide)),
      fun other => before a inside 16 (by decide) (.inr other)⟩
  · intro off member
    obtain ⟨a, inside, -, rfl⟩ := mem_freeOffs.mp member
    exact ⟨behind a inside 16 (by decide) (.inl (by decide)) (.inl (by decide)),
      fun other => behind a inside 20 (by decide) (.inl (by decide)) (.inr other)⟩
  · exact effect.freePrev
  · exact effect.freeNext
  · exact effect.free
  · split
    case isTrue none => exact effect.head none
    case isFalse some => apply effect.frame <;> rw [offFreeHeadAt] <;> omega
  · split
    case isTrue none => exact effect.tail none
    case isFalse some => apply effect.frame <;> rw [offFreeTailAt] <;> omega
  · rintro a (member | member)
    · exact before a member 24 (by decide) (.inl (by decide))
    · exact behind a member 24 (by decide) (.inl (by decide)) (.inl (by decide))
  · rintro a (member | member) used x lowerX upperX
    · obtain ⟨lowerA, -, upperA, alignedA, -, clearA⟩ := around.before a member
      have clear := clearA used
      apply effect.frame <;> omega
    · obtain ⟨lowerA, -, alignedA, -, nextA, clearA⟩ := around.behind a member
      have clear := clearA used
      rw [OrApart] at nextA
      apply effect.frame <;> omega

end Around

end VBox.Runtime
