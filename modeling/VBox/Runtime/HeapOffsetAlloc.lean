import VBox.Runtime.HeapOffsetFree
import Mathlib.Data.Nat.Bitwise

/-!
Allocating from the offset heap.

The first free block that fits is taken as a whole or in part. Where it is split for its
alignment the heap is whole again only if no free block follows (`splitAligned_ok`).
-/

namespace VBox.Runtime

open VBox.Lib List

/-- A heap in which two free blocks may be next to each other. -/
structure Sized (mem : Words) (blocks : List HeapBlock) : Prop where
  lists : Lists mem blocks
  cb : ∀ b ∈ blocks, b.free = true → mem (cbAt b.off) = b.cb
  cbFree : mem cbFreeAt = freeSize blocks

section Take

variable {mem : Words} {xs ys : List HeapBlock} {b : HeapBlock} {cb : Nat}

theorem Sized.block (sized : Sized mem (xs ++ b :: ys)) :
    ∃ hi, hi = b.off + 16 + b.cb ∧ 16 ≤ b.cb ∧ b.cb % 16 = 0 ∧ Around mem xs b.off hi ys ∧
      BlockWords mem xs b ys ∧ Lists mem (xs ++ [b] ++ ys) := by
  have lists : Lists mem (xs ++ [b] ++ ys) := by
    rw [append_assoc]
    exact sized.lists
  obtain ⟨lo, hi, ⟨start, size, aligned, finish⟩, around⟩ := lists.around (by simp)
  refine ⟨hi, finish.symm, size, aligned, ?_, sized.lists.words, lists⟩
  rw [start]
  exact around

theorem freeSize_around (free : b.free = true) :
    freeSize (xs ++ b :: ys) = freeSize xs + b.cb + freeSize ys := by
  rw [freeSize_append, freeSize_cons, if_pos free, Nat.add_assoc]

/-- The blocks that are left of a block: nothing, or one free block. -/
def Rest (post : List HeapBlock) : Prop := post = [] ∨ ∃ r, post = [r] ∧ r.free = true

/-- Taking a block, or the front of it. -/
theorem takeBlock_ok (sized : Sized mem (xs ++ b :: ys)) (free : b.free = true) (fits : cb ≤ b.cb)
    (least : 16 ≤ cb) (aligned : cb % 16 = 0) : ∃ c post, cb ≤ c ∧ Rest post ∧
      Sized (takeBlock mem b.off cb) (xs ++ (⟨b.off, c, false⟩ :: post) ++ ys) ∧
      UserKept mem (takeBlock mem b.off cb) (xs ++ ys) := by
  obtain ⟨hi, area, leastB, alignedB, around, words, lists⟩ := sized.block
  have size := sized.cb b (by simp) free
  have small := around.small
  have total := freeSize_le sized.lists.tiles
  rw [freeSize_around free] at total
  have others : ∀ a, a ∈ xs ∨ a ∈ ys → a.free = true → mem (cbAt a.off) = a.cb :=
    fun a member => sized.cb a (by rcases member with member | member <;> simp [member])
  rw [takeBlock, size]
  split
  case isTrue room =>
    obtain ⟨effect, sizeNew, cbFree⟩ :=
      splitEnd_effect around words free size area room least aligned
    have patch := effect.patch around
    refine ⟨cb, _, Nat.le_refl _, .inr ⟨_, rfl, rfl⟩, ⟨lists.replace patch (fun {lo hi} tiles => ?_)
      fun _ => rfl, ?_, ?_⟩, patch.userKept⟩
    · obtain ⟨start, -, -, finish⟩ := tiles
      have finish : b.off + 16 + b.cb = hi := finish
      refine ⟨start, least, aligned, ?_, ?_, ?_, ?_⟩
      · show b.off + cb + 16 = b.off + 16 + cb
        omega
      · show 16 ≤ b.cb - cb - 16
        omega
      · show (b.cb - cb - 16) % 16 = 0
        omega
      · show b.off + cb + 16 + 16 + (b.cb - cb - 16) = hi
        omega
    · intro a member isFree
      simp only [mem_append, mem_cons, not_mem_nil, or_false] at member
      rcases member with (member | rfl | rfl) | member
      · rw [patch.cb a (.inl member)]
        exact others a (.inl member) isFree
      · cases isFree
      · exact sizeNew
      · rw [patch.cb a (.inr member)]
        exact others a (.inr member) isFree
    · have sum : freeSize (xs ++ endSplit b cb ++ ys) =
          freeSize xs + (b.cb - cb - 16) + freeSize ys := by
        rw [freeSize_append, freeSize_append]
        rfl
      rw [endSplit] at sum
      rw [cbFree, sized.cbFree, freeSize_around free, sum, sub32_eq (by omega) (by omega),
        add32_eq (by omega)]
      omega
  case isFalse =>
    obtain ⟨effect, cbFree⟩ := takeWhole_effect around words free size area leastB
    have patch := effect.patch around
    refine ⟨b.cb, [], fits, .inl rfl, ⟨lists.replace patch tiles_setFree fun _ => rfl, ?_, ?_⟩,
      patch.userKept⟩
    · intro a member isFree
      simp only [mem_append, mem_cons, not_mem_nil, or_false] at member
      rcases member with (member | rfl) | member
      · rw [patch.cb a (.inl member)]
        exact others a (.inl member) isFree
      · cases isFree
      · rw [patch.cb a (.inr member)]
        exact others a (.inr member) isFree
    · have sum : freeSize (xs ++ [⟨b.off, b.cb, false⟩] ++ ys) = freeSize xs + freeSize ys := by
        rw [freeSize_append, freeSize_append]
        rfl
      rw [cbFree, sized.cbFree, freeSize_around free, sum, sub32_eq (by omega) (by omega)]
      omega

/-- Splitting the last free block. -/
theorem splitAligned_ok {pFree : Nat} (sized : Sized mem (xs ++ b :: ys)) (free : b.free = true)
    (last : nextFree ys = 0) (first : b.off + 32 ≤ pFree) (second : pFree + 16 ≤ b.off + b.cb)
    (aligned : pFree % 16 = 0) : Sized (splitAligned mem b.off pFree)
        (xs ++ [⟨b.off, pFree - b.off - 16, true⟩] ++ ⟨pFree, b.off + b.cb - pFree, true⟩ :: ys) ∧
      UserKept mem (splitAligned mem b.off pFree) (xs ++ ys) := by
  obtain ⟨hi, area, leastB, alignedB, around, words, lists⟩ := sized.block
  have small := around.small
  have lower := around.aligned
  have total := freeSize_le sized.lists.tiles
  rw [freeSize_around free] at total
  obtain ⟨effect, sizeFirst, sizeSecond, cbFree⟩ :=
    splitAligned_effect around words free area last first (by omega)
  have patch := effect.patch around
  have same : xs ++ alignedSplit b pFree ++ ys =
      xs ++ [⟨b.off, pFree - b.off - 16, true⟩] ++ ⟨pFree, b.off + b.cb - pFree, true⟩ :: ys := by
    simp [alignedSplit]
  rw [← same]
  refine ⟨⟨lists.replace patch (fun {lo hi} tiles => ?_) fun _ => rfl, ?_, ?_⟩, patch.userKept⟩
  · obtain ⟨start, -, -, finish⟩ := tiles
    have finish : b.off + 16 + b.cb = hi := finish
    refine ⟨start, ?_, ?_, ?_, ?_, ?_, ?_⟩
    · show 16 ≤ pFree - b.off - 16
      omega
    · show (pFree - b.off - 16) % 16 = 0
      omega
    · show pFree = b.off + 16 + (pFree - b.off - 16)
      omega
    · show 16 ≤ b.off + b.cb - pFree
      omega
    · show (b.off + b.cb - pFree) % 16 = 0
      omega
    · show pFree + 16 + (b.off + b.cb - pFree) = hi
      omega
  · intro a member isFree
    simp only [alignedSplit, mem_append, mem_cons, not_mem_nil, or_false] at member
    rcases member with (member | rfl | rfl) | member
    · rw [patch.cb a (.inl member)]
      exact sized.cb a (by simp [member]) isFree
    · exact sizeFirst
    · exact sizeSecond
    · rw [patch.cb a (.inr member)]
      exact sized.cb a (by simp [member]) isFree
  · have sum : freeSize (xs ++ alignedSplit b pFree ++ ys) =
        freeSize xs + ((pFree - b.off - 16) + (b.off + b.cb - pFree)) + freeSize ys := by
      rw [freeSize_append, freeSize_append]
      rfl
    rw [cbFree, sized.cbFree, freeSize_around free, sum, sub32_eq (by omega) (by omega)]
    omega

end Take

section Find

variable {heap : OffsetHeap} {xs ys : List HeapBlock} {b : HeapBlock} {cb uAlignment : Nat}

/-- Where `pBlock` would have to begin in a free block. -/
def offAlignOf (heap : OffsetHeap) (uAlignment pFree : Nat) : Nat :=
  uAlignment - ((heap.pHeapInt + pFree + 48) &&& (uAlignment - 1))

/-- A free block that fits, as `findFit` returns it. -/
def Fits (heap : OffsetHeap) (cb uAlignment : Nat) (b : HeapBlock) : Option Nat → Prop
  | none => cb ≤ b.cb ∧ (heap.pHeapInt + b.off + 16) &&& (uAlignment - 1) = 0
  | some offAlign => cb ≤ b.cb ∧ offAlign = offAlignOf heap uAlignment b.off ∧
      cb + offAlign + 32 ≤ b.cb

theorem findFit_spec (sized : Sized heap.mem (xs ++ ys)) {fuel : Nat}
    (enough : (freeOffs ys).length < fuel) :
    findFit heap cb uAlignment fuel (nextFree ys) = some (0, none) ∨
      ∃ us b vs offAlign?, xs ++ ys = us ++ b :: vs ∧ b.free = true ∧
        findFit heap cb uAlignment fuel (nextFree ys) = some (b.off, offAlign?) ∧
        Fits heap cb uAlignment b offAlign? := by
  induction ys generalizing xs fuel with
  | nil =>
    obtain ⟨fuel, rfl⟩ := Nat.exists_eq_succ_of_ne_zero (Nat.ne_of_gt enough)
    rw [findFit]
    exact .inl (if_pos rfl)
  | cons b ys ih =>
    have whole : (xs ++ [b]) ++ ys = xs ++ b :: ys := by rw [append_assoc]; rfl
    have next : ∀ fuel, (freeOffs ys).length < fuel →
        findFit heap cb uAlignment fuel (nextFree ys) = some (0, none) ∨
        ∃ us c vs offAlign?, xs ++ b :: ys = us ++ c :: vs ∧ c.free = true ∧
          findFit heap cb uAlignment fuel (nextFree ys) = some (c.off, offAlign?) ∧
          Fits heap cb uAlignment c offAlign? := by
      intro fuel enough
      rw [← whole]
      exact ih (by rw [whole]; exact sized) enough
    by_cases free : b.free = true
    · rw [freeOffs_cons, if_pos free, length_cons] at enough
      obtain ⟨fuel, rfl⟩ := Nat.exists_eq_succ_of_ne_zero (Nat.ne_of_gt (Nat.zero_lt_of_lt enough))
      have lower := (sized.lists.tiles.within.2 b (by simp)).lower
      have notNull : b.off ≠ 0 := by omega
      have first : nextFree (b :: ys) = b.off := by
        rw [nextFree, freeOffs_cons, if_pos free]
        rfl
      have rest := next fuel (by omega)
      rw [first, findFit, if_neg notNull, sized.cb b (by simp) free, offNextAt,
        sized.lists.words.offNext free]
      split
      case isTrue => exact rest
      case isFalse large =>
        have large : cb ≤ b.cb := Nat.not_lt.mp large
        split
        case isTrue misaligned =>
          dsimp only
          split
          case isTrue => exact rest
          case isFalse room =>
            exact .inr ⟨xs, b, ys, _, rfl, free, rfl, large, rfl, Nat.not_lt.mp room⟩
        case isFalse alignedHere =>
          exact .inr ⟨xs, b, ys, none, rfl, free, rfl, large, not_not.mp alignedHere⟩
    · rw [nextFree, freeOffs_cons, if_neg free] at *
      exact next fuel enough

end Find

section Alignment

variable {x off uAlignment : Nat}

/-- An alignment the allocator works with. -/
def PowerOfTwo (n : Nat) : Prop := ∃ k, n = 2 ^ k

theorem and_pred_eq_mod (power : PowerOfTwo uAlignment) : x &&& (uAlignment - 1) = x % uAlignment := by
  obtain ⟨k, rfl⟩ := power
  exact Nat.and_two_pow_sub_one_eq_mod x k

theorem adjustAlignment_spec {cbAlignment : Nat} (valid : cbAlignment = 0 ∨ PowerOfTwo cbAlignment) :
    PowerOfTwo (adjustAlignment cbAlignment) ∧ 16 ∣ adjustAlignment cbAlignment ∧
      (cbAlignment ≠ 0 → cbAlignment ∣ adjustAlignment cbAlignment) := by
  have sixteen : PowerOfTwo 16 := ⟨4, rfl⟩
  rw [adjustAlignment]
  rcases valid with rfl | ⟨k, rfl⟩
  · exact ⟨sixteen, Nat.dvd_refl 16, fun some => absurd rfl some⟩
  · have pos : 2 ^ k ≠ 0 := Nat.pos_iff_ne_zero.mp (Nat.two_pow_pos k)
    rw [if_neg pos]
    by_cases small : 2 ^ k < 16
    · have less : k < 4 := (Nat.pow_lt_pow_iff_right (by decide)).mp small
      rw [if_pos small]
      exact ⟨sixteen, Nat.dvd_refl 16, fun _ => pow_dvd_pow 2 less.le⟩
    · have more : 4 ≤ k := by
        by_contra less
        exact small ((Nat.pow_lt_pow_iff_right (by decide)).mpr (Nat.not_le.mp less))
      rw [if_neg small]
      exact ⟨⟨k, rfl⟩, pow_dvd_pow 2 more, fun _ => Nat.dvd_refl _⟩

/-- Stepping up to the next multiple. -/
theorem dvd_step (pos : 0 < uAlignment) : uAlignment ∣ x + (uAlignment - x % uAlignment) := by
  have less := Nat.mod_lt x pos
  have split := Nat.div_add_mod x uAlignment
  refine ⟨x / uAlignment + 1, ?_⟩
  rw [Nat.mul_add, Nat.mul_one]
  omega

theorem adjustSize_spec {cb : Nat} (small : cb + 15 < 2 ^ 64) :
    cb ≤ adjustSize cb ∧ 16 ≤ adjustSize cb ∧ adjustSize cb % 16 = 0 := by
  rw [adjustSize]
  split <;> omega

end Alignment

section Alloc

variable {heap : OffsetHeap} {blocks : List HeapBlock} {cb cbAlignment : Nat}

/-- A split for the alignment is made in the last free block only. -/
def SplitsLast (heap : OffsetHeap) (cb cbAlignment : Nat) : Prop :=
  ∀ fit ∈ findFit heap (adjustSize cb) (adjustAlignment cbAlignment) (heap.mem cbHeapAt)
    (heap.mem offFreeHeadAt), fit.2 = none ∨ heap.mem (offNextAt fit.1) = 0

instance : Decidable (SplitsLast heap cb cbAlignment) :=
  inferInstanceAs (Decidable (∀ _ ∈ _, _))

/-- What an allocation does: nothing, or one more block is in use. -/
def Allocated (heap : OffsetHeap) (blocks : List HeapBlock) (cb cbAlignment : Nat)
    (result : OffsetHeap × Option Nat) : Prop :=
  result = (heap, none) ∨
    ∃ mem' us vs b, result = ({ heap with mem := mem' }, some (b.off + 16)) ∧ b.free = false ∧
      HeapOk mem' (us ++ b :: vs) ∧ usedBlocks (us ++ vs) = usedBlocks blocks ∧
      UserKept heap.mem mem' (us ++ vs) ∧ cb ≤ b.cb ∧
      (cbAlignment ≠ 0 → cbAlignment ∣ heap.pHeapInt + (b.off + 16))

variable {us vs pre post : List HeapBlock}

/-- Taking a free block keeps the free ones apart. -/
theorem take_apart {b u : HeapBlock} (apart : (us ++ b :: vs).IsChain Apart) (free : b.free = true)
    (used : u.free = false) (before : Rest pre) (behind : Rest post) :
    (us ++ pre ++ u :: (post ++ vs)).IsChain Apart := by
  rw [isChain_append, isChain_cons] at apart
  obtain ⟨chainUs, ⟨first, chainVs⟩, last⟩ := apart
  have lastUsed : ∀ l ∈ us.getLast?, l.free = false := by
    intro l member
    have := last l member b rfl
    rw [Apart, free] at this
    simpa using this
  have firstUsed : ∀ r ∈ vs.head?, r.free = false := by
    intro r member
    have := first r member
    rw [Apart, free] at this
    simpa using this
  have tail : (u :: (post ++ vs)).IsChain Apart := by
    rw [isChain_cons]
    refine ⟨fun r _ => by rw [Apart, used]; simp, ?_⟩
    rcases behind with rfl | ⟨r, rfl, -⟩
    · exact chainVs
    · rw [singleton_append, isChain_cons]
      refine ⟨fun c member => ?_, chainVs⟩
      rw [Apart, firstUsed c member]
      simp
  have link : ∀ l ∈ (us ++ pre).getLast?, ∀ c ∈ (u :: (post ++ vs)).head?, Apart l c := by
    intro l _ c member
    cases member
    rw [Apart, used]
    simp
  rw [isChain_append]
  refine ⟨?_, tail, link⟩
  rcases before with rfl | ⟨p, rfl, -⟩
  · rw [append_nil]
    exact chainUs
  · rw [isChain_append]
    refine ⟨chainUs, isChain_singleton p, fun l member c _ => ?_⟩
    rw [Apart, lastUsed l member]
    simp

theorem usedBlocks_rest (rest : Rest post) : usedBlocks post = [] := by
  rcases rest with rfl | ⟨r, rfl, free⟩
  · rfl
  · simp [usedBlocks, free]

/-- Blocks that are free have no user bytes. -/
theorem UserKept.more {mem mem' : Words} (kept : UserKept mem mem' (us ++ vs)) (before : Rest pre)
    (behind : Rest post) : UserKept mem mem' ((us ++ pre) ++ (post ++ vs)) := by
  refine ⟨kept.cbHeap, fun a member used => kept.user a ?_ used⟩
  have inUse := mem_usedBlocks.mpr ⟨member, used⟩
  have frees := usedBlocks_rest before
  have frees' := usedBlocks_rest behind
  simp only [usedBlocks, filter_append] at inUse frees frees'
  rw [frees, frees', append_nil, nil_append, ← filter_append] at inUse
  exact (mem_filter.mp inUse).1

theorem usedBlocks_taken {b : HeapBlock} (free : b.free = true) (before : Rest pre)
    (behind : Rest post) :
    usedBlocks ((us ++ pre) ++ (post ++ vs)) = usedBlocks (us ++ b :: vs) := by
  have frees := usedBlocks_rest before
  have frees' := usedBlocks_rest behind
  simp only [usedBlocks, filter_append] at frees frees' ⊢
  rw [frees, frees', append_nil, nil_append, filter_cons, free]
  rfl

/-- An allocation keeps the heap, the blocks in use and their bytes. -/
theorem rtHeapOffsetAlloc_ok (ok : HeapOk heap.mem blocks) (base : heap.pHeapInt % 16 = 0)
    (valid : cbAlignment = 0 ∨ PowerOfTwo cbAlignment) (small : cb + 15 < 2 ^ 64)
    (splits : SplitsLast heap cb cbAlignment) :
    ∃ result, rtHeapOffsetAlloc heap cb cbAlignment = some result ∧
      Allocated heap blocks cb cbAlignment result := by
  have sized : Sized heap.mem ([] ++ blocks) := ⟨ok.lists, ok.cb, ok.cbFree⟩
  obtain ⟨larger, least, aligned⟩ := adjustSize_spec small
  obtain ⟨power, sixteen, divides⟩ := adjustAlignment_spec valid
  have pos : 0 < adjustAlignment cbAlignment := by
    obtain ⟨k, is⟩ := power
    rw [is]
    exact Nat.two_pow_pos k
  have magic : ¬ heap.mem u32MagicAt ≠ heapMagic := not_not.mpr ok.lists.magic
  have head : heap.mem offFreeHeadAt = nextFree blocks := ok.lists.head
  have enough : (freeOffs blocks).length < heap.mem cbHeapAt := by
    have length := ok.lists.tiles.length_le
    have shorter := (freeOffs_sublist blocks).length_le
    rw [offs, length_map] at shorter
    omega
  rw [SplitsLast, head] at splits
  rw [rtHeapOffsetAlloc, rtHeapOffsetAllocBlock, if_neg magic, head]
  rcases findFit_spec sized enough with none | ⟨us, b, vs, offAlign?, split, free, found, fits⟩
  · rw [none]
    exact ⟨_, rfl, .inl rfl⟩
  · rw [nil_append] at split sized
    subst split
    obtain ⟨hi, area, leastB, alignedB, around, words, -⟩ := sized.block
    have lower := around.lower
    have alignedOff := around.aligned
    have notNull : b.off ≠ 0 := by omega
    rw [found] at splits ⊢
    dsimp only
    rw [if_neg notNull]
    cases offAlign? with
    | none =>
      obtain ⟨large, atMultiple⟩ := fits
      obtain ⟨c, post, room, rest, sized', kept⟩ := takeBlock_ok sized free large least aligned
      have none : Rest ([] : List HeapBlock) := .inl rfl
      have same : us ++ (⟨b.off, c, false⟩ :: post) ++ vs =
          (us ++ []) ++ ⟨b.off, c, false⟩ :: (post ++ vs) := by simp
      rw [same] at sized'
      refine ⟨_, rfl, .inr ⟨_, us ++ [], post ++ vs, ⟨b.off, c, false⟩, ?_, rfl,
        ⟨sized'.lists, sized'.cb, sized'.cbFree, take_apart ok.apart free rfl none rest⟩,
        usedBlocks_taken free none rest, kept.more none rest, larger.trans room, fun some => ?_⟩⟩
      · dsimp only
        rw [if_pos notNull]
      · rw [and_pred_eq_mod power] at atMultiple
        exact (divides some).trans (Nat.dvd_of_mod_eq_zero atMultiple)
    | some offAlign =>
      obtain ⟨large, isOffAlign, room⟩ := fits
      rw [offAlignOf, and_pred_eq_mod power] at isOffAlign
      have last : nextFree vs = 0 := by
        rw [← words.offNext free]
        exact (splits (b.off, some offAlign) rfl).resolve_left fun none => by cases none
      have multiple : adjustAlignment cbAlignment ∣ heap.pHeapInt + b.off + 48 + offAlign := by
        rw [isOffAlign]
        exact dvd_step pos
      have alignedNew : (b.off + 32 + offAlign) % 16 = 0 := by
        have := Nat.mod_eq_zero_of_dvd (sixteen.trans multiple)
        omega
      obtain ⟨sized₁, kept₁⟩ :=
        splitAligned_ok sized free last (by omega) (show b.off + 32 + offAlign + 16 ≤ _ by omega)
          alignedNew
      obtain ⟨c, post, room', rest, sized', kept'⟩ := takeBlock_ok sized₁ rfl
        (show adjustSize cb ≤ b.off + b.cb - (b.off + 32 + offAlign) by omega) least aligned
      have front : Rest [⟨b.off, b.off + 32 + offAlign - b.off - 16, true⟩] := .inr ⟨_, rfl, rfl⟩
      have none : Rest ([] : List HeapBlock) := .inl rfl
      have notNull' : b.off + 32 + offAlign ≠ 0 := by omega
      rw [append_assoc _ (_ :: post), cons_append] at sized'
      have keptAll : UserKept heap.mem (takeBlock
          (splitAligned heap.mem b.off (b.off + 32 + offAlign)) (b.off + 32 + offAlign)
          (adjustSize cb)) (us ++ vs) := by
        refine ⟨kept'.cbHeap.trans kept₁.cbHeap, fun a member used x lowerX upperX => ?_⟩
        have inside : a ∈ (us ++ [⟨b.off, b.off + 32 + offAlign - b.off - 16, true⟩]) ++ vs := by
          rcases mem_append.mp member with member | member <;> simp [member]
        exact (kept'.user a inside used x lowerX upperX).trans
          (kept₁.user a member used x lowerX upperX)
      refine ⟨_, rfl, .inr ⟨_, _, post ++ vs, ⟨b.off + 32 + offAlign, c, false⟩, ?_, rfl,
        ⟨sized'.lists, sized'.cb, sized'.cbFree, take_apart ok.apart free rfl front rest⟩,
        usedBlocks_taken free front rest, keptAll.more front rest, larger.trans room',
        fun some => ?_⟩⟩
      · dsimp only
        rw [if_pos notNull']
      · refine (divides some).trans ?_
        have same : heap.pHeapInt + (b.off + 32 + offAlign + 16) =
            heap.pHeapInt + b.off + 48 + offAlign := by omega
        rw [same]
        exact multiple

end Alloc

end VBox.Runtime
