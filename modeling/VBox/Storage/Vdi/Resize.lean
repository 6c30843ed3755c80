import VBox.Storage.Vdi.Compact

/-!
`vdiResize`: growing the disk of a dynamic image.

A larger block table may reach into the data area. The blocks in the way are
then appended to the file one by one, and all slots are renumbered so that the
data area can start one block later each time. The geometry handed over for
the LCHS fields is a parameter; the PCHS geometry, which no modelled function
reads, is left out.
-/

namespace VBox.Storage.Vdi

open VBox.Lib List

/-- `cBlocksNew`: the number of blocks after the resize. -/
def resizeBlocks (image : VdiImage) (cbSize : Nat) : Nat :=
  let cbBlock := getImageBlockSize image.header
  if cbSize % cbBlock ≠ 0 then u32 (u32 (cbSize / cbBlock) + 1) else u32 (cbSize / cbBlock)

/-- `offStartDataNew` before any relocation: behind the new block table. -/
def resizeDataOffset (image : VdiImage) (cbSize : Nat) : Nat :=
  rtAlign32 (image.offStartBlocks + resizeBlocks image cbSize * 4) vdiDataAlign

/-- The data area has to move and has blocks in it. -/
def NeedsRelocation (image : VdiImage) (cbSize : Nat) : Prop :=
  image.offStartData ≠ resizeDataOffset image cbSize ∧ 0 < getImageBlocksAllocated image.header

instance (image : VdiImage) (cbSize : Nat) : Decidable (NeedsRelocation image cbSize) := by
  unfold NeedsRelocation
  infer_instance

/-- `cBlocksReloc`: how many blocks are relocated. -/
def resizeReloc (image : VdiImage) (cbSize : Nat) : Nat :=
  let cbOverlapping := u64Sub (resizeDataOffset image cbSize) image.offStartData
  let cbBlock := getImageBlockSize image.header
  min (if cbOverlapping % cbBlock ≠ 0 then u32 (u32 (cbOverlapping / cbBlock) + 1)
    else u32 (cbOverlapping / cbBlock)) (getImageBlocksAllocated image.header)

/-- The entries after slot 0 went to the end: the entry of block `idxBlock`
names the last slot, every other slot number decreases. -/
def renumber (paBlocks : List Nat) (cBlocksAllocated idxBlock : Nat) : List Nat :=
  (paBlocks.set idxBlock (cBlocksAllocated - 1)).mapIdx fun idxBlock2 ptrBlock =>
    if idxBlock2 ≠ idxBlock ∧ IsAllocated ptrBlock then
      (if ptrBlock = 0 then vdiImageBlockFree else ptrBlock - 1)
    else ptrBlock

/-- Relocate the block in slot 0, if there is one. -/
def relocateBlock (image : VdiImage) (offStartDataNew : Nat) : Status × VdiImage :=
  match image.paBlocks.findIdx? (· == 0) with
  | none => (.vinfSuccess, image)
  | some idxBlock =>
      match image.file.read offStartDataNew image.cbTotalBlockData with
      | none => (.verrEof, image)
      | some pvBuf =>
          let file := image.file.write image.file.size image.cbTotalBlockData pvBuf
          let file := file.write offStartDataNew image.cbTotalBlockData fun _ => 0
          (.vinfSuccess, { image with
            file := file
            paBlocks := renumber image.paBlocks (getImageBlocksAllocated image.header) idxBlock })

/-- Relocate `cBlocksReloc` blocks, moving the data start behind each of them. -/
def relocateBlocks : Nat → Nat → VdiImage → Status × Nat × VdiImage
  | 0, offStartDataNew, image => (.vinfSuccess, offStartDataNew, image)
  | cBlocksReloc + 1, offStartDataNew, image =>
      match relocateBlock image offStartDataNew with
      | (.vinfSuccess, image) =>
          relocateBlocks cBlocksReloc (offStartDataNew + image.cbTotalBlockData) image
      | (rc, image) => (rc, offStartDataNew, image)

/-- Store the new start of the data area. -/
def setDataOffset (image : VdiImage) (offStartDataNew : Nat) : VdiImage :=
  { image with
    offStartData := u32 offStartDataNew
    header := setImageDataOffset offStartDataNew image.header }

/-- The block table with `cBlocksNew` entries, new ones FREE. -/
def resizeTable (paBlocks : List Nat) (cBlocksNew : Nat) : List Nat :=
  paBlocks.take cBlocksNew ++ List.replicate (cBlocksNew - paBlocks.length) vdiImageBlockFree

/-- Expand the block table, write it, and store the new sizes. -/
def expandTable (image : VdiImage) (cbSize cBlocksNew : Nat) (lchsGeometry : VdiDiskGeometry) :
    VdiImage :=
  let paBlocks := resizeTable image.paBlocks cBlocksNew
  { image with
    paBlocks := paBlocks
    file := image.file.write image.offStartBlocks (cBlocksNew * 4) (ofWords paBlocks)
    header := setImageLCHSGeometry { lchsGeometry with cbSector := vdiGeometrySectorSize }
      (setImageBlocks cBlocksNew (setImageDiskSize cbSize image.header))
    cbImage := cbSize }

/-- `vdiResize`. -/
def vdiResize (image : VdiImage) (cbSize : Nat) (lchsGeometry : VdiDiskGeometry) :
    Status × VdiImage :=
  if cbSize < getImageDiskSize image.header ∨ getMajorHeaderVersion image.header = 0 ∨
      hasFlag image.uImageFlags vdImageFlagsFixed then (.verrNotSupported, image)
  else if cbSize = getImageDiskSize image.header then (.vinfSuccess, image)
  else
    let (rc, offStartDataNew, relocated) :=
      if NeedsRelocation image cbSize then
        relocateBlocks (resizeReloc image cbSize) image.offStartData image
      else (.vinfSuccess, resizeDataOffset image cbSize, image)
    let moved := setDataOffset relocated offStartDataNew
    if rc = .vinfSuccess then
      (.vinfSuccess,
        vdiFlushImage (expandTable moved cbSize (resizeBlocks image cbSize) lchsGeometry))
    else (rc, vdiFlushImage moved)

/-! ### What a successful resize does to the block table -/

/-- Slot numbers after `k` relocations out of `n` slots. -/
def rotated (n k p : Nat) : Nat := if p < k then p + n - k else p - k

/-- The block table with every slot number rotated by `k`. -/
def rotateTable (n k : Nat) (paBlocks : List Nat) : List Nat :=
  paBlocks.map fun p => if IsAllocated p then rotated n k p else p

theorem rotateTable_zero (n : Nat) (paBlocks : List Nat) : rotateTable n 0 paBlocks = paBlocks := by
  have same : ∀ p, (if IsAllocated p then rotated n 0 p else p) = p := by
    intro p
    split
    · simp [rotated]
    · rfl
  simp [rotateTable, same]

theorem rotateTable_full {n : Nat} {paBlocks : List Nat}
    (small : ∀ p ∈ paBlocks, IsAllocated p → p < n) : rotateTable n n paBlocks = paBlocks := by
  rw [rotateTable]
  conv_rhs => rw [← List.map_id paBlocks]
  refine map_congr_left fun p member => ?_
  split
  · rename_i allocated
    have := small p member allocated
    simp [rotated, this]
  · rfl

theorem getElem?_rotateTable (n k : Nat) (paBlocks : List Nat) (i : Nat) :
    (rotateTable n k paBlocks)[i]? =
      (paBlocks[i]?).map fun p => if IsAllocated p then rotated n k p else p := by
  simp [rotateTable]

theorem rotated_lt {n k p : Nat} (room : k ≤ n) (small : p < n) : rotated n k p < n := by
  unfold rotated
  split <;> omega

/-- One more rotation takes one from every slot number but 0. -/
theorem rotated_succ {n k p : Nat} (room : k < n) (other : p ≠ k) :
    rotated n k p ≠ 0 ∧ rotated n (k + 1) p = rotated n k p - 1 := by
  unfold rotated
  split <;> split <;> omega

theorem rotated_self {n k : Nat} : rotated n k k = 0 ∧ rotated n (k + 1) k = n - 1 := by
  unfold rotated
  split <;> split <;> omega

theorem rotated_eq_zero {n k p : Nat} (room : k < n) (zero : rotated n k p = 0) : p = k := by
  by_contra other
  exact (rotated_succ room other).1 zero

/-- Relocating the one block in slot 0 rotates the table by one more. -/
theorem renumber_rotateTable {n k idxBlock : Nat} {paBlocks : List Nat}
    (room : k < n) (marks : n ≤ vdiImageBlockZero) (small : ∀ p ∈ paBlocks, IsAllocated p → p < n)
    (distinct : ∀ i j p : Nat, paBlocks[i]? = some p → paBlocks[j]? = some p → IsAllocated p →
      i = j) (entry : (rotateTable n k paBlocks)[idxBlock]? = some 0) :
    renumber (rotateTable n k paBlocks) n idxBlock = rotateTable n (k + 1) paBlocks := by
  -- slot 0 of the rotated table is slot `k` of the original one
  obtain ⟨p, source, zero⟩ := Option.map_eq_some_iff.mp
    ((getElem?_rotateTable n k paBlocks idxBlock).symm.trans entry)
  have allocated : IsAllocated p := by
    by_contra mark
    rw [if_neg mark] at zero
    rw [zero] at mark
    exact mark (by decide)
  rw [if_pos allocated] at zero
  have atK := rotated_eq_zero room zero
  subst atK
  refine ext_getElem? fun j => ?_
  rw [renumber, getElem?_mapIdx, getElem?_rotateTable]
  by_cases here : idxBlock = j
  · subst here
    have inside : idxBlock < (rotateTable n p paBlocks).length :=
      (List.getElem?_eq_some_iff.mp entry).choose
    rw [getElem?_set_self inside, source]
    simp [allocated, rotated_self.2]
  · rw [getElem?_set_ne here, getElem?_rotateTable]
    cases other : paBlocks[j]? with
    | none => rfl
    | some q =>
      by_cases mark : IsAllocated q
      · have below := small q (mem_of_getElem? other) mark
        have different : q ≠ p := by
          rintro rfl
          exact here (distinct idxBlock j q source other mark)
        obtain ⟨nonzero, less⟩ := rotated_succ room different
        have stays : IsAllocated (rotated n p q) := by
          have := rotated_lt room.le below
          unfold IsAllocated
          omega
        simp [mark, stays, nonzero, less, Ne.symm here]
      · simp [mark]

/-- Relocating a prefix of the slots, all of them in use, rotates the table. -/
theorem relocateBlocks_rotate {n cBlocksReloc k off off' : Nat} {paBlocks : List Nat}
    {image image' : VdiImage} (fits : k + cBlocksReloc ≤ n) (marks : n ≤ vdiImageBlockZero)
    (small : ∀ p ∈ paBlocks, IsAllocated p → p < n)
    (distinct : ∀ i j p : Nat, paBlocks[i]? = some p → paBlocks[j]? = some p → IsAllocated p →
      i = j) (named : ∀ p < n, p ∈ paBlocks)
    (start : ∃ file, image' = { image with file := file, paBlocks := rotateTable n k paBlocks })
    (count : getImageBlocksAllocated image.header = n)
    {result : VdiImage} (run : relocateBlocks cBlocksReloc off image' = (.vinfSuccess, off', result)) :
    (∃ file, result = { image with
      file := file, paBlocks := rotateTable n (k + cBlocksReloc) paBlocks }) ∧
      off' = off + cBlocksReloc * image.cbTotalBlockData := by
  induction cBlocksReloc generalizing k off image' with
  | zero =>
    cases run
    exact ⟨start, by omega⟩
  | succ rest ih =>
    obtain ⟨file, rfl⟩ := start
    -- the slot that is now 0 is in use, so the search finds its block
    have zeroMember : 0 ∈ rotateTable n k paBlocks := by
      refine List.mem_map.mpr ⟨k, named k (by omega), ?_⟩
      have : IsAllocated k := by unfold IsAllocated; omega
      rw [if_pos this, rotated_self.1]
    have found : ((rotateTable n k paBlocks).findIdx? (· == 0)).isSome := by
      rw [findIdx?_isSome, List.any_eq_true]
      exact ⟨0, zeroMember, by simp⟩
    obtain ⟨idxBlock, search⟩ := Option.isSome_iff_exists.mp found
    obtain ⟨inside, isZero, -⟩ := findIdx?_eq_some_iff_getElem.mp search
    have entry : (rotateTable n k paBlocks)[idxBlock]? = some 0 := by
      rw [getElem?_eq_getElem inside]
      simpa using isZero
    rw [relocateBlocks, relocateBlock] at run
    simp only [search] at run
    cases read : file.read off image.cbTotalBlockData with
    | none =>
      rw [read] at run
      cases run
    | some pvBuf =>
      rw [read] at run
      dsimp only at run
      rw [count, renumber_rotateTable (by omega) marks small distinct entry] at run
      obtain ⟨table, offset⟩ := ih (by omega) ⟨_, rfl⟩ run
      refine ⟨?_, ?_⟩
      · rw [show k + (rest + 1) = k + 1 + rest by omega]
        exact table
      · rw [offset]
        ring

/-- With slot 0 unused the data area only images later. -/
theorem relocateBlocks_idle {image : VdiImage} (unused : 0 ∉ image.paBlocks) (rounds off : Nat) :
    relocateBlocks rounds off image =
      (.vinfSuccess, off + rounds * image.cbTotalBlockData, image) := by
  have search : image.paBlocks.findIdx? (· == 0) = none := by
    rw [findIdx?_eq_none_iff]
    intro p member
    simp only [beq_eq_false_iff_ne, ne_eq]
    rintro rfl
    exact unused member
  induction rounds generalizing off with
  | zero => rw [relocateBlocks, Nat.zero_mul, Nat.add_zero]
  | succ rounds ih =>
    rw [relocateBlocks, relocateBlock, search]
    dsimp only
    rw [ih, Nat.succ_mul, Nat.add_assoc, Nat.add_comm image.cbTotalBlockData]

end VBox.Storage.Vdi
