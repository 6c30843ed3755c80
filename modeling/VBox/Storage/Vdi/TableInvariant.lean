import VBox.Storage.Vdi.Resize

/-!
The block table over whole runs on one open image.

`vdiWrite`, `vdiDiscard`, `vdiCompact` and `vdiResize` each update a part of
five coupled fields: `paBlocks`, `paBlocksRev`, `cBlocksAllocated`, `cbImage`
and the size of the file. `TableInv` is the invariant that couples them;
`Sound` is the condition on a state and a call under which the call keeps it,
and `run_tableInv` carries it over every run of such calls.
-/

namespace VBox.Storage.Vdi

open VBox.Lib List

/-! ### Calls on an open image -/

/-- A call of one of the four operations that change the block table. -/
inductive ImageOp where
  | write (uOffset cbToWrite : Nat) (data : Buf) (fNoAlloc : Bool)
  | discard (uOffset cbDiscard : Nat) (fMarkUnused : Bool)
  | compact (host : CompactHost)
  | resize (cbSize : Nat) (lchsGeometry : VdiDiskGeometry)

/-- The status and the image a call leaves. -/
def ImageOp.exec (image : VdiImage) : ImageOp → Option (Status × VdiImage)
  | .write uOffset cbToWrite data fNoAlloc =>
      (vdiWrite image uOffset cbToWrite data fNoAlloc).map fun r => (r.rc, r.image)
  | .discard uOffset cbDiscard fMarkUnused =>
      (vdiDiscard image uOffset cbDiscard fMarkUnused).map fun r => (r.rc, r.image)
  | .compact host => vdiCompact image host
  | .resize cbSize lchsGeometry => some (vdiResize image cbSize lchsGeometry)

/-- A call that returns success. -/
def Succeeds (image : VdiImage) (op : ImageOp) (image' : VdiImage) : Prop :=
  op.exec image = some (.vinfSuccess, image')

/-! ### The invariant -/

/-- The end of the data of a slot. -/
def slotEnd (image : VdiImage) (slot : Nat) : Nat :=
  slot * image.cbTotalBlockData + image.offStartData + image.offStartBlockData +
    getImageBlockSize image.header

/-- Block `i` of the disk has slot `p`. -/
def HasSlot (image : VdiImage) (i p : Nat) : Prop := image.paBlocks[i]? = some p ∧ IsAllocated p

/-- The block table has an inverse with an entry for each slot. An image opened
for discarding stores it in `paBlocksRev`, any other image does without. -/
def ReverseOk (image : VdiImage) : Prop :=
  ∃ rev, (∀ stored, image.paBlocksRev = some stored → stored = rev) ∧
    getImageBlocks image.header ≤ rev.length ∧
    Indexes IsAllocated vdiImageBlockFree image.paBlocks rev (getImageBlocksAllocated image.header)

/-- What couples the fields of an open image. -/
structure TableInv (image : VdiImage) : Prop where
  setUp : SetUp image
  reverse : ReverseOk image
  covered : ∀ i p, HasSlot image i p → slotEnd image p ≤ image.cbImage

/-! ### When a call keeps it -/

/-- A write takes a new slot. -/
def TakesSlot (image : VdiImage) (uOffset cb : Nat) (data : Buf) (fNoAlloc : Bool) : Prop :=
  image.uOpenFlags.readOnly = false ∧ fNoAlloc = false ∧
    clipToBlock image uOffset cb = getImageBlockSize image.header ∧
    ∃ ptrBlock, image.paBlocks[blockIndex image uOffset]? = some ptrBlock ∧
      ¬ IsAllocated ptrBlock ∧
      elidesZeros image ptrBlock (clipToBlock image uOffset cb) data = false

/-- A discard takes a slot away: of a whole block, or of a block in which the bytes that
are tested are zeros outside the range. -/
def GivesSlot (image : VdiImage) (uOffset cb : Nat) (fMarkUnused : Bool) : Prop :=
  ∃ p, HasSlot image (blockIndex image uOffset) p ∧
    (clipToBlock image uOffset cb = getImageBlockSize image.header ∨
      fMarkUnused = false ∧ ∀ i < cbTested (getImageBlockSize image.header),
        i < blockOffset image uOffset ∨
            blockOffset image uOffset + clipToBlock image uOffset cb ≤ i →
          image.file.byte (p * image.cbTotalBlockData + image.offStartData + i) = 0)

/-- A discard reads a block to see what is left in it. -/
def ReadsBlock (image : VdiImage) (uOffset cb : Nat) (fMarkUnused : Bool) : Prop :=
  fMarkUnused = false ∧ clipToBlock image uOffset cb ≠ getImageBlockSize image.header ∧
    ∃ p, HasSlot image (blockIndex image uOffset) p

/-- The slots in use are an initial segment. -/
def NoHoles (image : VdiImage) : Prop :=
  ∀ p q j, p < q → HasSlot image j q → ∃ i, HasSlot image i p

/-- A compaction finds nothing to free and nothing to move: every block in use
lies in the file, holds data, differs from the parent and is in use. -/
structure NothingToCompact (image : VdiImage) (host : CompactHost) : Prop where
  inFile : ∀ i p, HasSlot image i p → p < compactBlocks image
  hasData : ∀ i p, HasSlot image i p →
    (image.file.byte.drop (compactOffset image p)).isZero
      (cbTested (getImageBlockSize image.header)) = false
  differs : ∀ i p, HasSlot image i p → ∀ pfnParentRead, host.pfnParentRead = some pfnParentRead →
    ∀ pvBuf, pfnParentRead (i * getImageBlockSize image.header) (getImageBlockSize image.header) =
        .ok pvBuf →
      sameBytes (image.file.byte.drop (compactOffset image p)) pvBuf
        (getImageBlockSize image.header) = false
  inUse : ∀ i p, HasSlot image i p → ∀ pfnQuery, host.pfnQueryRangeUse = some pfnQuery →
    pfnQuery (i * getImageBlockSize image.header) (getImageBlockSize image.header) ≠ .ok false
  noHoles : NoHoles image

/-- Where the data area starts after a resize. -/
def resizedDataOffset (image : VdiImage) (cbSize : Nat) : Nat :=
  if NeedsRelocation image cbSize then
    image.offStartData + resizeReloc image cbSize * image.cbTotalBlockData
  else resizeDataOffset image cbSize

/-- A resize that changes the disk size keeps the reverse table right: it needs
no more table entries than there are, loses none that is in use, relocates no
block or all of them, and the new disk size, stored as the size of the image,
covers the blocks. -/
structure ResizeFits (image : VdiImage) (cbSize : Nat) : Prop where
  noMore : resizeBlocks image cbSize ≤ getImageBlocks image.header
  covers : cbSize ≤ getImageBlockSize image.header * resizeBlocks image cbSize
  bounded : cbSize < 2 ^ 64
  slots : getImageBlocksAllocated image.header ≤ resizeBlocks image cbSize
  entries : ∀ i p, HasSlot image i p → i < resizeBlocks image cbSize
  inPlace : NeedsRelocation image cbSize →
    resizeReloc image cbSize = 0 ∨ (∀ i, ¬ HasSlot image i 0) ∨
      (resizeReloc image cbSize = getImageBlocksAllocated image.header ∧
        ∀ p < getImageBlocksAllocated image.header, ∃ i, HasSlot image i p)
  inImage : ∀ i p, HasSlot image i p →
    p * image.cbTotalBlockData + u32 (resizedDataOffset image cbSize) + image.offStartBlockData +
      getImageBlockSize image.header ≤ cbSize

/-- The condition on the image and the call under which the call keeps the
table right. -/
def Sound (image : VdiImage) : ImageOp → Prop
  | .write uOffset cb data fNoAlloc =>
      uOffset + cb ≤ getImageDiskSize image.header ∧
        (TakesSlot image uOffset cb data fNoAlloc →
          let slot := getImageBlocksAllocated image.header
          slot < getImageBlocks image.header ∧ IsAllocated slot ∧
            slotEnd image slot ≤ image.cbImage + image.cbTotalBlockData)
  | .discard uOffset cb fMarkUnused =>
      uOffset + cb ≤ getImageDiskSize image.header ∧
        (GivesSlot image uOffset cb fMarkUnused →
          ∃ i, HasSlot image i (getImageBlocksAllocated image.header - 1)) ∧
        (ReadsBlock image uOffset cb fMarkUnused →
          image.offStartBlockData = 0 ∧ getImageBlockSize image.header / 512 % 8 = 0)
  | .compact host => compactBlocks image = 0 ∨ NothingToCompact image host
  | .resize cbSize _ => cbSize = getImageDiskSize image.header ∨ ResizeFits image cbSize

/-! ### Each operation keeps the invariant -/

section Steps

variable {image : VdiImage}

theorem TableInv.slot_lt (inv : TableInv image) {i p : Nat} (slot : HasSlot image i p) :
    p < getImageBlocksAllocated image.header := by
  obtain ⟨rev, -, -, indexes⟩ := inv.reverse
  exact indexes.below i p slot.1 slot.2

theorem slotEnd_mono (image : VdiImage) {p q : Nat} (less : p < q) :
    slotEnd image p + image.cbTotalBlockData ≤ slotEnd image q := by
  have : (p + 1) * image.cbTotalBlockData ≤ q * image.cbTotalBlockData :=
    Nat.mul_le_mul_right _ less
  unfold slotEnd
  rw [Nat.add_mul] at this
  omega

theorem cbTotalBlockData_le_slotEnd (setUp : SetUp image) (p : Nat) :
    image.cbTotalBlockData ≤ slotEnd image p := by
  have wrapped := u32_le (getImageExtraBlockSize image.header + getImageBlockSize image.header)
  rw [← setUp.cbTotalBlockData, ← setUp.offStartBlockData] at wrapped
  unfold slotEnd
  omega

section

variable (inv : TableInv image)

include inv

/-- Marking an unallocated block, or writing into the file, keeps the invariant. -/
theorem TableInv.setMark {i old mark : Nat} (entry : image.paBlocks[i]? = some old)
    (unusedOld : ¬ IsAllocated old) (unusedMark : ¬ IsAllocated mark) :
    TableInv { image with paBlocks := image.paBlocks.set i mark } := by
  obtain ⟨rev, reverse, length, indexes⟩ := inv.reverse
  constructor
  · exact inv.setUp.updateTable (length_set ..)
  · exact ⟨rev, reverse, length, indexes.setMark entry unusedOld unusedMark⟩
  · rintro j p ⟨found, inUse⟩
    rw [getElem?_set] at found
    split at found
    · split at found
      · cases found
        exact absurd inUse unusedMark
      · cases found
    · exact inv.covered j p ⟨found, inUse⟩

theorem TableInv.setFile (file : ByteFile) : TableInv { image with file := file } :=
  ⟨inv.setUp.updateTable rfl, inv.reverse, inv.covered⟩

theorem TableInv.write {uOffset cb : Nat} {data : Buf} {fNoAlloc : Bool} {image' : VdiImage}
    (writable : image.uOpenFlags.readOnly = false)
    (sound : Sound image (.write uOffset cb data fNoAlloc))
    (step : WriteStep image uOffset cb data fNoAlloc image') : TableInv image' := by
  cases step with
  | elided entry unallocated elides =>
    exact inv.setMark entry unallocated not_isAllocated_zero
  | inPlace entry inUse => exact inv.setFile _
  | @allocated ptrBlock _ entry unallocated keeps whole allowed update =>
    obtain ⟨inside, -⟩ := List.getElem?_eq_some_iff.mp entry
    obtain ⟨-, rfl⟩ := vdiBlockAllocUpdate_eq update inside
    obtain ⟨room, allocated, reach⟩ :=
      sound.2 ⟨writable, allowed, whole, ptrBlock, entry, unallocated, keeps⟩
    obtain ⟨rev, reverse, length, indexes⟩ := inv.reverse
    have count := getImageBlocksAllocated_set image.header
      (lt_of_le_of_lt (Nat.succ_le_of_lt room) (getImageBlocks_lt _))
    obtain ⟨blocks, blockSize, -⟩ := setImageBlocksAllocated_frame image.header
      (getImageBlocksAllocated image.header + 1)
    constructor
    · exact inv.setUp.update (length_set ..) room
    · refine ⟨rev.set (getImageBlocksAllocated image.header) (blockIndex image uOffset), ?_, ?_, ?_⟩
      · intro stored found
        obtain ⟨old, before, rfl⟩ := Option.map_eq_some_iff.mp found
        rw [reverse old before]
      · simp only [allocDesc, writeSlot, blocks, length_set]
        exact length
      · simp only [allocDesc, writeSlot, count]
        exact indexes.allocate entry unallocated allocated (lt_of_lt_of_le room length)
    · rintro j p ⟨found, inUse⟩
      simp only [allocDesc, writeSlot, slotEnd, blockSize] at found ⊢
      by_cases here : blockIndex image uOffset = j
      · rw [← here, getElem?_set_self inside] at found
        cases found
        exact reach
      · rw [getElem?_set_ne here] at found
        exact Nat.le_add_right_of_le (inv.covered j p ⟨found, inUse⟩)

/-- Removing a block keeps the invariant when the last slot is in use, and
leaves a file as long as the image. -/
theorem TableInv.remove {uBlock ptrBlock : Nat} {image' : VdiImage}
    (slot : HasSlot image uBlock ptrBlock)
    (lastUsed : ∃ i, HasSlot image i (getImageBlocksAllocated image.header - 1))
    (step : RemoveStep image uBlock ptrBlock image') :
    TableInv image' ∧ image'.file.size = image'.cbImage := by
  obtain ⟨rev, reverse, length, indexes⟩ := inv.reverse
  obtain ⟨lastBlock, lastSlot⟩ := lastUsed
  have small := inv.slot_lt slot
  obtain ⟨n, count⟩ : ∃ n, getImageBlocksAllocated image.header = n + 1 :=
    ⟨getImageBlocksAllocated image.header - 1, by omega⟩
  have lastIndex : idxLastBlock image = n := by
    rw [idxLastBlock, count, if_neg (Nat.succ_ne_zero n), Nat.add_sub_cancel]
  rw [count, Nat.add_sub_cancel] at lastSlot
  rw [count] at indexes small
  have fits : n ≤ getImageBlocks image.header := by
    have := inv.setUp.valid.allocated
    omega
  have newCount := getImageBlocksAllocated_set image.header
    (lt_of_le_of_lt fits (getImageBlocks_lt _))
  obtain ⟨blocks, blockSize, -⟩ := setImageBlocksAllocated_frame image.header n
  -- every slot still in use lies below the one that is cut off
  have reach := inv.covered lastBlock n lastSlot
  have shrink : u64Sub image.cbImage image.cbTotalBlockData =
      image.cbImage - image.cbTotalBlockData :=
    u64Sub_of_le ((cbTotalBlockData_le_slotEnd inv.setUp n).trans reach)
  have covers : ∀ p < n, slotEnd image p ≤ u64Sub image.cbImage image.cbTotalBlockData := by
    intro p less
    have := slotEnd_mono image less
    omega
  cases step with
  | last reverse' index back =>
    cases reverse _ reverse'
    rw [lastIndex] at index
    subst index
    have dropped := indexes.dropLast slot.1 not_isAllocated_zero slot.2
    refine ⟨⟨inv.setUp.update (length_set ..) fits,
      ⟨_, fun _ stored => (Option.some.inj stored).symm, ?_, ?_⟩, ?_⟩, rfl⟩
    · simp only [dropDesc, blocks, length_set]
      exact length
    · simp only [dropDesc, newCount]
      exact dropped
    · rintro j p ⟨found, inUse⟩
      simp only [dropDesc, slotEnd, blockSize]
      exact covers p (dropped.below j p found inUse)
  | moved reverse' index back different room insideLast room' saved =>
    cases reverse _ reverse'
    rw [lastIndex] at index
    subst index
    have named := indexes.back lastBlock _ lastSlot.1 lastSlot.2
    rw [back] at named
    cases named
    have swapped := indexes.swapRemove slot.1 slot.2 not_isAllocated_zero lastSlot.1 lastSlot.2
      (Ne.symm different)
    have sameLength : ((image.paBlocks.set uBlock vdiImageBlockZero).set lastBlock
        ptrBlock).length = image.paBlocks.length := by
      rw [length_set, length_set]
    refine ⟨⟨inv.setUp.update sameLength fits,
      ⟨_, fun _ stored => (Option.some.inj stored).symm, ?_, ?_⟩, ?_⟩, rfl⟩
    · simp only [moveDesc, blocks, length_set]
      exact length
    · simp only [moveDesc, newCount]
      exact swapped
    · rintro j p ⟨found, inUse⟩
      simp only [moveDesc, slotEnd, blockSize]
      exact covers p (swapped.below j p found inUse)

end

/-! A compaction that finds nothing to free passes through its loops without
changing the image. -/

/-- The state of a compaction that has changed nothing so far and knows the
slots in `paBlocks2`. -/
structure Untouched (image : VdiImage) (paBlocks2 : List Nat) (st : CompactState) : Prop where
  image_eq : st.image = image
  table : st.paBlocks2 = paBlocks2
  usedPos : st.uBlockUsedPos = compactBlocks image

/-- After `k` rounds of the first pass the back resolving table is the inverse
of the first `k` entries. -/
structure Resolved (image : VdiImage) (k : Nat) (st : CompactState) : Prop where
  untouched : Untouched image st.paBlocks2 st
  length : st.paBlocks2.length = compactBlocks image
  indexes : Indexes IsAllocated vdiImageBlockFree (image.paBlocks.take k) st.paBlocks2
    (compactBlocks image)

/-- One round of the first pass: the entry is a mark, or its slot is free so far
and becomes the entry's. -/
theorem compactResolve_next (host : CompactHost) {k n : Nat} {st : CompactState}
    (same : st.image = image) (inside : k < image.paBlocks.length)
    (distinct : ∀ i j p, HasSlot image i p → HasSlot image j p → i = j)
    (small : ∀ p, HasSlot image k p → p < n) (length : st.paBlocks2.length = n)
    (sofar : Indexes IsAllocated vdiImageBlockFree (image.paBlocks.take k) st.paBlocks2 n) :
    ∃ rev, compactResolve host k st = some (.vinfSuccess, { st with paBlocks2 := rev }) ∧
      rev.length = n ∧
      Indexes IsAllocated vdiImageBlockFree (image.paBlocks.take (k + 1)) rev n := by
  have entry : image.paBlocks[k]? = some image.paBlocks[k] := getElem?_eq_getElem inside
  have next : image.paBlocks.take (k + 1) = image.paBlocks.take k ++ [image.paBlocks[k]] :=
    take_succ_eq_append_getElem inside
  have takeLength : (image.paBlocks.take k).length = k := length_take_of_le inside.le
  unfold compactResolve
  rw [same, entry, next]
  dsimp only
  by_cases allocated : IsAllocated image.paBlocks[k]
  · have slot : HasSlot image k image.paBlocks[k] := ⟨entry, allocated⟩
    have fresh : Unnamed IsAllocated (image.paBlocks.take k) image.paBlocks[k] := by
      intro i found _
      obtain ⟨early, -⟩ := List.getElem?_eq_some_iff.mp found
      rw [takeLength] at early
      rw [getElem?_take_of_lt early] at found
      have := distinct i k _ ⟨found, allocated⟩ slot
      omega
    have spare := sofar.spare image.paBlocks[k] (by rw [length]; exact small _ slot) fresh
    rw [if_neg (not_not.mpr allocated), if_pos spare]
    have grown := sofar.appendSlot (small _ slot) fresh allocated
    rw [takeLength] at grown
    exact ⟨_, rfl, by rw [length_set]; exact length, grown⟩
  · rw [if_pos allocated]
    exact ⟨st.paBlocks2, by subst same; rfl, length, sofar.appendMark allocated⟩

section

variable (inv : TableInv image) {host : CompactHost} (idle : NothingToCompact image host)

include inv idle

theorem compactResolve_step {k : Nat} (below : k < getImageBlocks image.header) {st : CompactState}
    (resolved : Resolved image k st) :
    ∃ st', compactResolve host k st = some (.vinfSuccess, st') ∧ Resolved image (k + 1) st' := by
  obtain ⟨rev, -, -, indexes⟩ := inv.reverse
  obtain ⟨⟨same, -, usedPos⟩, length, sofar⟩ := resolved
  have inside : k < image.paBlocks.length := by
    rw [inv.setUp.length_paBlocks]
    exact below
  obtain ⟨rev', run, length', grown⟩ := compactResolve_next host same inside
    (fun i j p left right => indexes.distinct left.1 right.1 left.2)
    (fun p slot => idle.inFile k p slot) length sofar
  exact ⟨_, run, ⟨same, rfl, usedPos⟩, length', grown⟩

/-- The first pass frees nothing and builds the inverse of the block table. -/
theorem compactResolve_all :
    ∃ st, forEach (compactResolve host) (range (getImageBlocks image.header))
        (compactStart image) = some (.vinfSuccess, st) ∧
      Untouched image st.paBlocks2 st ∧ st.paBlocks2.length = compactBlocks image ∧
      Indexes IsAllocated vdiImageBlockFree image.paBlocks st.paBlocks2 (compactBlocks image) := by
  have start : Resolved image 0 (compactStart image) :=
    ⟨⟨rfl, rfl, rfl⟩, length_replicate, by
      rw [take_zero]
      exact indexes_replicate (le_refl _)⟩
  obtain ⟨st, run, untouched, length, whole⟩ := forEach_range
    (fun k below _ resolved => compactResolve_step inv idle below resolved) start
  rw [← inv.setUp.length_paBlocks, take_length] at whole
  exact ⟨st, run, untouched, length, whole⟩

end

section

variable {host : CompactHost} (idle : NothingToCompact image host) {table : List Nat} {i : Nat}
  (inside : i < image.paBlocks.length) {st : CompactState} (start : Untouched image table st)

include idle inside start

theorem compactCheckData_untouched :
    ∃ rc st', compactCheckData host i st = some (rc, st') ∧ Untouched image table st' := by
  have entry : image.paBlocks[i]? = some image.paBlocks[i] := getElem?_eq_getElem inside
  obtain ⟨same, table, usedPos⟩ := start
  unfold compactCheckData
  rw [same, entry]
  dsimp only
  by_cases allocated : IsAllocated image.paBlocks[i]
  · have slot : HasSlot image i image.paBlocks[i] := ⟨entry, allocated⟩
    rw [if_neg (not_not.mpr allocated), CompactState.readSync, same]
    split
    · exact ⟨_, _, rfl, rfl, table, usedPos⟩
    cases read : image.file.read (compactOffset image image.paBlocks[i])
      (getImageBlockSize image.header) with
    | none => exact ⟨_, _, rfl, rfl, table, usedPos⟩
    | some buf =>
      obtain ⟨-, rfl⟩ := ByteFile.read_eq_some.mp read
      simp only [andThen, Option.bind_some, if_true, idle.hasData i _ slot, Bool.false_eq_true,
        if_false]
      cases parent : host.pfnParentRead with
      | none => exact ⟨_, _, rfl, rfl, table, usedPos⟩
      | some pfnParentRead =>
        dsimp only
        cases answer : pfnParentRead (i * getImageBlockSize image.header)
          (getImageBlockSize image.header) with
        | error rc => exact ⟨_, _, rfl, rfl, table, usedPos⟩
        | ok pvBuf =>
          dsimp only
          rw [idle.differs i _ slot pfnParentRead parent pvBuf answer]
          exact ⟨_, _, rfl, rfl, table, usedPos⟩
  · rw [if_pos allocated]
    exact ⟨_, _, rfl, same, table, usedPos⟩

theorem compactCheckUse_untouched :
    ∃ rc st', compactCheckUse host i st = some (rc, st') ∧ Untouched image table st' := by
  have entry : image.paBlocks[i]? = some image.paBlocks[i] := getElem?_eq_getElem inside
  have same := start.image_eq
  unfold compactCheckUse
  rw [same, entry]
  cases query : host.pfnQueryRangeUse with
  | none => exact ⟨_, _, rfl, start⟩
  | some pfnQueryRangeUse =>
    dsimp only
    by_cases allocated : IsAllocated image.paBlocks[i]
    · have used := idle.inUse i _ ⟨entry, allocated⟩ pfnQueryRangeUse query
      rw [if_neg (not_not.mpr allocated)]
      cases answer : pfnQueryRangeUse (i * getImageBlockSize image.header)
        (getImageBlockSize image.header) with
      | error rc => exact ⟨_, _, rfl, start⟩
      | ok fUsed =>
        cases fUsed
        · exact absurd answer used
        · exact ⟨_, _, rfl, start⟩
    · rw [if_pos allocated]
      exact ⟨_, _, rfl, start⟩

end

theorem progress_untouched (host : CompactHost) {table : List Nat} {st : CompactState}
    (start : Untouched image table st) :
    ∃ rc st', st.progress host = some (rc, st') ∧ Untouched image table st' := by
  unfold CompactState.progress
  split
  · exact ⟨_, _, rfl, start⟩
  · exact ⟨_, _, rfl, start.image_eq, start.table, start.usedPos⟩

/-- Two stages that are defined and change nothing change nothing in a row. -/
theorem andThen_untouched {table : List Nat} {result : Option (Status × CompactState)}
    {next : CompactState → Option (Status × CompactState)}
    (first : ∃ rc st, result = some (rc, st) ∧ Untouched image table st)
    (second : ∀ st, Untouched image table st →
      ∃ rc st', next st = some (rc, st') ∧ Untouched image table st') :
    ∃ rc st, andThen result next = some (rc, st) ∧ Untouched image table st := by
  obtain ⟨rc, st, rfl, kept⟩ := first
  by_cases success : rc = .vinfSuccess
  · obtain ⟨rc', st', run, kept'⟩ := second st kept
    exact ⟨rc', st', by simp [andThen, success, run], kept'⟩
  · exact ⟨rc, st, by simp [andThen, success], kept⟩

/-- The second pass releases nothing. -/
theorem compactCheck_all (inv : TableInv image) {host : CompactHost}
    (idle : NothingToCompact image host) {table : List Nat} {st : CompactState}
    (start : Untouched image table st) :
    ∃ rc st', forEach (compactCheck host) (range (getImageBlocks image.header)) st =
      some (rc, st') ∧ Untouched image table st' := by
  refine forEach_total (fun i member s kept => ?_) start
  have inside : i < image.paBlocks.length := by
    rw [inv.setUp.length_paBlocks]
    exact mem_range.mp member
  exact andThen_untouched (compactCheckData_untouched idle inside kept) fun s kept =>
    andThen_untouched (compactCheckUse_untouched idle inside kept) fun s kept =>
      progress_untouched host kept

/-- Searching back over unused slots stops at the bubble itself. -/
theorem seekData_unused {paBlocks2 : List Nat} {i pos : Nat} (start : i ≤ pos)
    (unused : ∀ p, i ≤ p → p < pos → paBlocks2.getD p vdiImageBlockFree = vdiImageBlockFree) :
    (seekData paBlocks2 i pos).1 = i := by
  induction pos with
  | zero =>
    rw [seekData]
    omega
  | succ pos ih =>
    rw [seekData]
    split
    · rename_i more
      rw [if_pos (unused pos (by omega) (by omega))]
      exact ih (by omega) fun p low high => unused p low (by omega)
    · dsimp only
      omega

/-- The third pass over an initial segment of `m` used slots moves nothing and
ends with `uBlockUsedPos = m`. -/
theorem compactFill_untouched {host : CompactHost} {table : List Nat} {n m rounds i : Nat}
    (used : ∀ p < m, table.getD p vdiImageBlockFree ≠ vdiImageBlockFree)
    (unused : ∀ p, m ≤ p → table.getD p vdiImageBlockFree = vdiImageBlockFree)
    (room : m ≤ compactBlocks image) (total : i + rounds = compactBlocks image) (passed : i ≤ m)
    {st : CompactState} (start : Untouched image table st) :
    ∃ rc st', compactFill host n rounds i st = some (rc, st') ∧ st'.image = image ∧
      (rc = .vinfSuccess → st'.uBlockUsedPos = m) := by
  induction rounds generalizing i st with
  | zero =>
    refine ⟨_, _, rfl, start.image_eq, fun _ => ?_⟩
    rw [start.usedPos]
    omega
  | succ rounds ih =>
    rw [compactFill, start.table, start.usedPos]
    by_cases atEnd : i < m
    · rw [if_neg (used i atEnd)]
      obtain ⟨rc, st', asked, kept⟩ := progress_untouched host start
      rw [asked]
      by_cases success : rc = .vinfSuccess
      · have remaining : i + 1 + rounds = compactBlocks image := by omega
        obtain ⟨rc', st'', run, final⟩ := ih remaining atEnd kept
        exact ⟨rc', st'', by simp [andThen, success, run], final⟩
      · exact ⟨rc, st', by simp [andThen, success], kept.image_eq, fun ok => absurd ok success⟩
    · have here : i = m := by omega
      subst here
      have found := seekData_unused room fun p low _ => unused p low
      rw [if_pos (unused i (le_refl i))]
      dsimp only
      rw [if_pos found]
      exact ⟨_, _, rfl, start.image_eq, fun _ => found⟩

theorem compactTruncate_image (host : CompactHost) (st : CompactState) :
    ∃ file, (compactTruncate host st).2.image = { st.image with
      file := file, header := setImageBlocksAllocated st.uBlockUsedPos st.image.header } := by
  unfold compactTruncate CompactState.updateHeader CompactState.writeSync
  dsimp only
  split <;> split <;> exact ⟨_, rfl⟩

/-- The used slots of an image without holes are those below some bound. -/
theorem usedSlots_initial (inv : TableInv image) (noHoles : NoHoles image) {paBlocks2 : List Nat}
    {n : Nat} (indexes : Indexes IsAllocated vdiImageBlockFree image.paBlocks paBlocks2 n) :
    ∃ m ≤ paBlocks2.length, (∀ p < m, paBlocks2.getD p vdiImageBlockFree ≠ vdiImageBlockFree) ∧
      (∀ p, m ≤ p → paBlocks2.getD p vdiImageBlockFree = vdiImageBlockFree) ∧
      m ≤ getImageBlocksAllocated image.header ∧ ∀ i p, HasSlot image i p → p < m := by
  have bound := getImageBlocks_lt image.header
  have used_of_slot : ∀ i p, HasSlot image i p →
      paBlocks2.getD p vdiImageBlockFree ≠ vdiImageBlockFree := by
    rintro i p ⟨entry, allocated⟩
    have back := indexes.back i p entry allocated
    obtain ⟨inside, -⟩ := List.getElem?_eq_some_iff.mp entry
    rw [inv.setUp.length_paBlocks] at inside
    rw [getD_eq_getElem?_getD, back]
    simp only [Option.getD_some, vdiImageBlockFree]
    omega
  have slot_of_used : ∀ p, paBlocks2.getD p vdiImageBlockFree ≠ vdiImageBlockFree →
      ∃ i, HasSlot image i p := by
    intro p taken
    rw [getD_eq_getElem?_getD] at taken
    cases back : paBlocks2[p]? with
    | none =>
      rw [back] at taken
      exact absurd rfl taken
    | some i =>
      rw [back] at taken
      exact ⟨i, indexes.named back taken⟩
  have ends : ∃ p, paBlocks2.getD p vdiImageBlockFree = vdiImageBlockFree :=
    ⟨paBlocks2.length, by simp⟩
  have atMost : Nat.find ends ≤ paBlocks2.length := Nat.find_min' ends (by simp)
  have below : ∀ p < Nat.find ends, paBlocks2.getD p vdiImageBlockFree ≠ vdiImageBlockFree :=
    fun p less => Nat.find_min ends less
  have above : ∀ p, Nat.find ends ≤ p → paBlocks2.getD p vdiImageBlockFree = vdiImageBlockFree := by
    intro p low
    by_contra taken
    rcases Nat.eq_or_lt_of_le low with same | less
    · rw [← same] at taken
      exact taken (Nat.find_spec ends)
    · obtain ⟨j, slot⟩ := slot_of_used p taken
      obtain ⟨i, hole⟩ := noHoles _ p j less slot
      exact used_of_slot i _ hole (Nat.find_spec ends)
  refine ⟨Nat.find ends, atMost, below, above, ?_, ?_⟩
  · by_contra more
    obtain ⟨i, slot⟩ := slot_of_used _ (below _ (Nat.lt_of_not_le more))
    exact absurd (inv.slot_lt slot) (lt_irrefl _)
  · intro i p slot
    by_contra high
    exact used_of_slot i p slot (above p (Nat.le_of_not_lt high))

/-- Correcting the allocation count to a bound of the slots in use. -/
theorem TableInv.recount (inv : TableInv image) {file : ByteFile} {m : Nat}
    (fits : m ≤ getImageBlocksAllocated image.header) (slots : ∀ i p, HasSlot image i p → p < m) :
    TableInv { image with file := file, header := setImageBlocksAllocated m image.header } := by
  obtain ⟨rev, reverse, length, indexes⟩ := inv.reverse
  have room : m ≤ getImageBlocks image.header := fits.trans inv.setUp.valid.allocated
  have count := getImageBlocksAllocated_set image.header (lt_of_le_of_lt room (getImageBlocks_lt _))
  obtain ⟨blocks, blockSize, -⟩ := setImageBlocksAllocated_frame image.header m
  constructor
  · exact inv.setUp.update rfl room
  · refine ⟨rev, reverse, ?_, ?_⟩
    · rw [blocks]
      exact length
    · rw [count]
      exact ⟨fun i p entry inUse => slots i p ⟨entry, inUse⟩, room.trans length, indexes.back,
        indexes.spare⟩
  · intro i p slot
    simp only [slotEnd, blockSize]
    exact inv.covered i p slot

/-- A sound compaction is defined and keeps the invariant. -/
theorem TableInv.compact (inv : TableInv image) {host : CompactHost}
    (sound : Sound image (.compact host)) : ∃ rc image', vdiCompact image host = some (rc, image') ∧
      (rc = .vinfSuccess → TableInv image') ∧ image'.paBlocksRev = image.paBlocksRev := by
  unfold vdiCompact
  split
  · exact ⟨_, _, rfl, fun _ => inv, rfl⟩
  split
  · exact ⟨_, _, rfl, fun _ => inv, rfl⟩
  rename_i nonempty
  have idle : NothingToCompact image host := sound.resolve_left nonempty
  obtain ⟨st, first, kept, length, indexes⟩ := compactResolve_all inv idle
  obtain ⟨rc, st', second, kept'⟩ := compactCheck_all inv idle kept
  simp only [andThen, first, second, Option.bind_some, if_true]
  by_cases success : rc = .vinfSuccess
  · obtain ⟨m, room, used, unused, fits, slots⟩ := usedSlots_initial inv idle.noHoles indexes
    rw [length] at room
    have total : 0 + compactBlocks image = compactBlocks image := Nat.zero_add _
    obtain ⟨rc', st'', third, same, usedPos⟩ := compactFill_untouched
      used unused room total (Nat.zero_le _) kept'
    rw [if_pos success, third]
    by_cases success' : rc' = .vinfSuccess
    · obtain ⟨file, final⟩ := compactTruncate_image host st''
      rw [usedPos success', same] at final
      refine ⟨(compactTruncate host st'').1, (compactTruncate host st'').2.image, ?_, fun _ => ?_,
        ?_⟩
      · simp [success']
      · rw [final]
        exact inv.recount fits slots
      · rw [final]
    · exact ⟨rc', st''.image, by simp [success'], fun ok => absurd ok success', by rw [same]⟩
  · rw [if_neg success]
    exact ⟨_, _, rfl, fun ok => absurd ok success, by rw [kept'.image_eq]⟩

/-- The header after a resize of a version 1 image. -/
theorem resizeHeader_frame {header : VdiHeader} (version : getMajorHeaderVersion header ≠ 0)
    (offData : Nat) (geometry : VdiDiskGeometry) {cbSize cBlocks : Nat} (disk : cbSize < 2 ^ 64)
    (blocks : cBlocks < 2 ^ 32) :
    let resized := setImageLCHSGeometry geometry
      (setImageBlocks cBlocks (setImageDiskSize cbSize (setImageDataOffset offData header)))
    getImageBlocks resized = cBlocks ∧ getImageBlockSize resized = getImageBlockSize header ∧
      getImageExtraBlockSize resized = getImageExtraBlockSize header ∧
      getImageDiskSize resized = cbSize ∧
      getImageBlocksOffset resized = getImageBlocksOffset header ∧
      getImageDataOffset resized = u32 offData ∧
      getImageBlocksAllocated resized = getImageBlocksAllocated header := by
  cases header with
  | v0 h => exact absurd rfl version
  | v1 minor h g =>
    have cBlocks_eq : (UInt32.ofNat cBlocks).toNat = cBlocks := UInt32.toNat_ofNat_of_lt' blocks
    have cbSize_eq : (UInt64.ofNat cbSize).toNat = cbSize := UInt64.toNat_ofNat_of_lt' disk
    simp only [setImageDataOffset, setImageDiskSize, setImageBlocks, setImageLCHSGeometry]
    split <;> exact ⟨cBlocks_eq, rfl, rfl, cbSize_eq, rfl, rfl, rfl⟩

section

variable (inv : TableInv image)

include inv

/-- A resize that fits relocates nothing, or relocates every block once: the
table is as it was and the data area starts where the guard says. -/
theorem relocate_fits {cbSize : Nat} (fits : ResizeFits image cbSize)
    {rc : Status} {offStartDataNew : Nat} {relocated : VdiImage} (success : rc = .vinfSuccess)
    (run : (if NeedsRelocation image cbSize then
        relocateBlocks (resizeReloc image cbSize) image.offStartData image
      else (.vinfSuccess, resizeDataOffset image cbSize, image)) =
        (rc, offStartDataNew, relocated)) :
    (∃ file, relocated = { image with file := file }) ∧
      offStartDataNew = resizedDataOffset image cbSize := by
  subst success
  unfold resizedDataOffset
  split at run
  · rename_i needed
    rw [if_pos needed]
    obtain ⟨rev, -, -, indexes⟩ := inv.reverse
    have small : ∀ p ∈ image.paBlocks, IsAllocated p →
        p < getImageBlocksAllocated image.header := by
      intro p member allocated
      obtain ⟨i, entry⟩ := mem_iff_getElem?.mp member
      exact indexes.below i p entry allocated
    rcases fits.inPlace needed with none | unused | ⟨all, used⟩
    · rw [none, relocateBlocks] at run
      cases run
      exact ⟨⟨image.file, rfl⟩, by rw [none]; omega⟩
    · have absent : 0 ∉ image.paBlocks := by
        intro member
        obtain ⟨i, entry⟩ := mem_iff_getElem?.mp member
        exact unused i ⟨entry, by decide⟩
      rw [relocateBlocks_idle absent] at run
      cases run
      exact ⟨⟨image.file, rfl⟩, rfl⟩
    · have marks : getImageBlocksAllocated image.header ≤ vdiImageBlockZero := by
        by_contra more
        obtain ⟨i, slot⟩ := used vdiImageBlockZero (Nat.lt_of_not_le more)
        exact not_isAllocated_zero slot.2
      have start : ∃ file, image = { image with
          file := file
          paBlocks := rotateTable (getImageBlocksAllocated image.header) 0 image.paBlocks } :=
        ⟨image.file, by rw [rotateTable_zero]⟩
      have room : 0 + resizeReloc image cbSize ≤ getImageBlocksAllocated image.header := by omega
      obtain ⟨⟨file, final⟩, offset⟩ := relocateBlocks_rotate room marks small
        (fun i j p left right allocated => indexes.distinct left right allocated)
        (fun p less => by
          obtain ⟨i, slot⟩ := used p less
          exact mem_of_getElem? slot.1) start rfl run
      rw [Nat.zero_add, all, rotateTable_full small] at final
      exact ⟨⟨file, final⟩, offset⟩
  · rename_i notNeeded
    rw [if_neg notNeeded]
    cases run
    exact ⟨⟨image.file, rfl⟩, rfl⟩

/-- Expanding the table, when no entry in use is lost, keeps the invariant. -/
theorem TableInv.expand {cbSize : Nat} (fits : ResizeFits image cbSize)
    (version : getMajorHeaderVersion image.header ≠ 0) (positive : 0 < cbSize) {file : ByteFile}
    (lchsGeometry : VdiDiskGeometry) : TableInv (expandTable
      (setDataOffset { image with file := file } (resizedDataOffset image cbSize))
      cbSize (resizeBlocks image cbSize) lchsGeometry) := by
  obtain ⟨rev, reverse, length, indexes⟩ := inv.reverse
  have bound := lt_of_le_of_lt fits.noMore (getImageBlocks_lt image.header)
  obtain ⟨blocks, blockSize, extra, disk, offBlocks, offData, allocated⟩ :=
    resizeHeader_frame version (resizedDataOffset image cbSize)
      { lchsGeometry with cbSector := vdiGeometrySectorSize } fits.bounded bound
  have setUp := inv.setUp
  have shrink : resizeTable image.paBlocks (resizeBlocks image cbSize) =
      image.paBlocks.take (resizeBlocks image cbSize) := by
    have none : resizeBlocks image cbSize - image.paBlocks.length = 0 := by
      rw [setUp.length_paBlocks]
      exact Nat.sub_eq_zero_of_le fits.noMore
    rw [resizeTable, none, replicate_zero, append_nil]
  have slots : ∀ i p : Nat, (image.paBlocks.take (resizeBlocks image cbSize))[i]? = some p →
      IsAllocated p → HasSlot image i p := by
    intro i p entry inUse
    obtain ⟨inside, -⟩ := List.getElem?_eq_some_iff.mp entry
    rw [length_take] at inside
    rw [getElem?_take_of_lt (by omega)] at entry
    exact ⟨entry, inUse⟩
  constructor
  · constructor
    · constructor
      · exact ne_of_eq_of_ne disk (by omega)
      · have := fits.covers
        refine ne_of_eq_of_ne blocks ?_
        rintro none
        rw [none] at this
        omega
      · exact ne_of_eq_of_ne (congrArg getPowerOfTwo blockSize) setUp.valid.blockSize
      · exact allocated.le.trans (fits.slots.trans blocks.ge)
      · refine disk.le.trans (fits.covers.trans (Eq.ge ?_))
        exact congrArg₂ (· * ·) blockSize blocks
    · exact setUp.offStartBlocks.trans offBlocks.symm
    · exact offData.symm
    · exact setUp.uBlockMask.trans (congrArg (· - 1) blockSize).symm
    · exact setUp.uShiftOffset2Index.trans (congrArg getPowerOfTwo blockSize).symm
    · exact setUp.offStartBlockData.trans extra.symm
    · exact setUp.cbTotalBlockData.trans (congrArg₂ (fun x b => u32 (x + b)) extra blockSize).symm
    · refine Eq.trans ?_ blocks.symm
      have := setUp.length_paBlocks
      have := fits.noMore
      simp only [expandTable, setDataOffset, shrink, length_take]
      omega
  · refine ⟨rev, reverse, blocks.le.trans (fits.noMore.trans length), ?_⟩
    simp only [expandTable, setDataOffset, shrink, allocated]
    refine ⟨fun i p entry inUse => ?_, indexes.fits, fun i p entry inUse => ?_,
      fun p below unnamed => indexes.spare p below fun i entry inUse => ?_⟩
    · exact indexes.below i p (slots i p entry inUse).1 inUse
    · exact indexes.back i p (slots i p entry inUse).1 inUse
    · refine unnamed i ?_ inUse
      rwa [getElem?_take_of_lt (fits.entries i p ⟨entry, inUse⟩)]
  · rintro i p ⟨entry, inUse⟩
    simp only [expandTable, setDataOffset, shrink] at entry
    have inImage := fits.inImage i p (slots i p entry inUse)
    simp only [slotEnd, expandTable, setDataOffset, blockSize]
    exact inImage

theorem TableInv.flushImage : TableInv (vdiFlushImage image) := by
  unfold vdiFlushImage
  split
  · exact inv
  · exact inv.setFile _

/-- A sound successful resize changes nothing or expands the table. -/
theorem vdiResize_success {cbSize : Nat} {lchsGeometry : VdiDiskGeometry}
    (sound : Sound image (.resize cbSize lchsGeometry)) {image' : VdiImage}
    (run : vdiResize image cbSize lchsGeometry = (.vinfSuccess, image')) : image' = image ∨
      (ResizeFits image cbSize ∧ getMajorHeaderVersion image.header ≠ 0 ∧ 0 < cbSize ∧
        ∃ file, image' = vdiFlushImage (expandTable
          (setDataOffset { image with file := file } (resizedDataOffset image cbSize))
          cbSize (resizeBlocks image cbSize) lchsGeometry)) := by
  unfold vdiResize at run
  split at run
  · cases run
  rename_i supported
  split at run
  · cases run
    exact Or.inl rfl
  rename_i grows
  have fits : ResizeFits image cbSize := sound.resolve_left grows
  cases relocation : (if NeedsRelocation image cbSize then
        relocateBlocks (resizeReloc image cbSize) image.offStartData image
      else (.vinfSuccess, resizeDataOffset image cbSize, image)) with
  | mk rc rest =>
    obtain ⟨offStartDataNew, relocated⟩ := rest
    rw [relocation] at run
    dsimp only at run
    split at run
    · rename_i success
      obtain ⟨⟨file, rfl⟩, rfl⟩ := relocate_fits inv fits success relocation
      cases run
      refine Or.inr ⟨fits, fun zero => supported (Or.inr (Or.inl zero)), ?_, file, rfl⟩
      have := inv.setUp.valid.diskSize
      omega
    · rename_i failure
      cases run
      exact absurd rfl failure

/-- A sound resize keeps the invariant. -/
theorem TableInv.resize {cbSize : Nat} {lchsGeometry : VdiDiskGeometry}
    (sound : Sound image (.resize cbSize lchsGeometry)) {image' : VdiImage}
    (run : vdiResize image cbSize lchsGeometry = (.vinfSuccess, image')) : TableInv image' := by
  rcases vdiResize_success inv sound run with rfl | ⟨fits, version, positive, file, rfl⟩
  · exact inv
  · exact (inv.expand fits version positive lchsGeometry).flushImage

theorem TableInv.resize_reverse {cbSize : Nat} {lchsGeometry : VdiDiskGeometry}
    (sound : Sound image (.resize cbSize lchsGeometry)) {image' : VdiImage}
    (run : vdiResize image cbSize lchsGeometry = (.vinfSuccess, image')) :
    image'.paBlocksRev = image.paBlocksRev := by
  rcases vdiResize_success inv sound run with rfl | ⟨-, -, -, file, rfl⟩
  · rfl
  · unfold vdiFlushImage
    split <;> rfl

/-- A successful sound discard keeps the invariant; if it cuts the file, every
block still in use lies in what is left. -/
theorem TableInv.discard {uOffset cb : Nat} {fMarkUnused : Bool} {image' : VdiImage}
    (sound : Sound image (.discard uOffset cb fMarkUnused))
    (step : DiscardStep image uOffset cb fMarkUnused image') : TableInv image' ∧
      (image.file.size ≤ image'.file.size ∨
        ∀ i p, HasSlot image' i p → slotEnd image' p ≤ image'.file.size) := by
  have removal : ∀ {p image'}, HasSlot image (blockIndex image uOffset) p →
      GivesSlot image uOffset cb fMarkUnused →
      RemoveStep image (blockIndex image uOffset) p image' →
      TableInv image' ∧ (image.file.size ≤ image'.file.size ∨
        ∀ i p, HasSlot image' i p → slotEnd image' p ≤ image'.file.size) := by
    intro p image' slot gives remove
    obtain ⟨kept, size⟩ := inv.remove slot (sound.2.1 gives) remove
    exact ⟨kept, Or.inr (by rw [size]; exact kept.covered)⟩
  cases step with
  | unallocated entry unused => exact ⟨inv, Or.inl (le_refl _)⟩
  | whole entry inUse full remove =>
    exact removal ⟨entry, inUse⟩ ⟨_, ⟨entry, inUse⟩, Or.inl full⟩ remove
  | zeroed entry inUse marked =>
    exact ⟨inv.setFile _, Or.inl (ByteFile.size_le_write _ _ _ _)⟩
  | emptied entry inUse unmarked noExtra fits empty remove =>
    exact removal ⟨entry, inUse⟩ ⟨_, ⟨entry, inUse⟩, Or.inr ⟨unmarked, empty⟩⟩ remove

end

end Steps

end VBox.Storage.Vdi
