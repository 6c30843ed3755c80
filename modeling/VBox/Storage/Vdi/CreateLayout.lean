import VBox.Storage.Vdi.DurableRuns

/-!
Where the parts of a new image lie.

The table starts at the data alignment and ends somewhere below the start of the data area, as far
as neither offset wraps around in its 32 bits; nor may the sum of the start of the data and an
offset in a block, which reading and writing compute in 32 bits too.
-/

namespace VBox.Storage.Vdi

open VBox.Lib

/-! ### Rounding up to a power of two -/

/-- Clearing the low bits of a word. -/
theorem and_clear_low {x k : Nat} (small : k ≤ 32) (bound : x < 2 ^ 32) :
    x &&& (2 ^ 32 - 1 - (2 ^ k - 1)) = x / 2 ^ k * 2 ^ k := by
  have positive := Nat.two_pow_pos k
  have power : 2 ^ k ≤ 2 ^ 32 := Nat.pow_le_pow_right (by decide) small
  have mask : 2 ^ 32 - 1 - (2 ^ k - 1) = 2 ^ 32 - (2 ^ k - 1 + 1) := by omega
  rw [mask]
  refine Nat.eq_of_testBit_eq fun i => ?_
  rw [Nat.testBit_and, Nat.testBit_two_pow_sub_succ (by omega), Nat.testBit_two_pow_sub_one,
    Nat.testBit_mul_two_pow, Nat.testBit_div_two_pow]
  by_cases low : k ≤ i
  · by_cases high : i < 32
    · simp [low, high, Nat.not_lt.mpr low, Nat.sub_add_cancel low]
    · have beyond : x < 2 ^ i :=
        lt_of_lt_of_le bound (Nat.pow_le_pow_right (by decide) (Nat.not_lt.mp high))
      simp [low, Nat.testBit_lt_two_pow beyond, Nat.sub_add_cancel low]
  · simp [low, Nat.lt_of_not_le low]

/-- `n` rounded up to a multiple of `2 ^ k`. -/
def roundUp (n k : Nat) : Nat := (n + (2 ^ k - 1)) / 2 ^ k * 2 ^ k

theorem le_roundUp (n k : Nat) : n ≤ roundUp n k := by
  have positive := Nat.two_pow_pos k
  have split := Nat.div_add_mod (n + (2 ^ k - 1)) (2 ^ k)
  rw [Nat.mul_comm] at split
  unfold roundUp
  omega

theorem roundUp_lt (n k : Nat) : roundUp n k < n + 2 ^ k := by
  have positive := Nat.two_pow_pos k
  have whole := Nat.div_mul_le_self (n + (2 ^ k - 1)) (2 ^ k)
  unfold roundUp
  omega

theorem dvd_roundUp (n k : Nat) : 2 ^ k ∣ roundUp n k := Nat.dvd_mul_left _ _

/-- Rounding up in 32 bits is rounding up, and then wrapping around. -/
theorem rtAlign32_two_pow (n : Nat) {k : Nat} (small : k ≤ 31) :
    rtAlign32 n (2 ^ k) = roundUp n k % 2 ^ 32 := by
  have positive := Nat.two_pow_pos k
  have word : 2 ^ k < 2 ^ 32 := Nat.pow_lt_pow_right (by decide) (by omega)
  have split : 2 ^ 32 = 2 ^ k * 2 ^ (32 - k) := by
    rw [← Nat.pow_add, Nat.add_sub_cancel' (by omega)]
  have mask : u32Sub (u32 (2 ^ k)) 1 = 2 ^ k - 1 := by
    rw [u32_of_lt word]
    exact if_pos positive
  have sum : u32 (u32 n + (2 ^ k - 1)) = (n + (2 ^ k - 1)) % 2 ^ 32 := Nat.mod_add_mod _ _ _
  rw [rtAlign32, mask, and_clear_low (by omega) (u32_lt _), sum, roundUp]
  conv_lhs => rw [split, Nat.mod_mul_right_div_self]
  conv_rhs => rw [split, Nat.mul_comm (2 ^ k) (2 ^ (32 - k)), Nat.mul_mod_mul_right]

/-! ### The parts of a new image -/

/-- The descriptor of a new image. -/
def createdDesc (args : CreateArgs) : VdiImage :=
  vdiSetupImageDesc (openDesc .empty {} (createHeader args))

/-- A new image can be opened, and its parts do not overlap. -/
structure CreatedRight (args : CreateArgs) : Prop where
  validated : vdiValidateHeader (createHeader args) = .vinfSuccess
  tableEnd : getImageBlocksOffset (createHeader args) + getImageBlocks (createHeader args) * 4 ≤
    getImageDataOffset (createHeader args)
  /-- No place of a block lies in the block table. -/
  table : ∀ p < getImageBlocks (createHeader args), ∀ off < vdiImageDefaultBlockSize,
    dataOffset (createdDesc args) p off < getImageBlocksOffset (createHeader args) ∨
      getImageBlocksOffset (createHeader args) + getImageBlocks (createHeader args) * 4 ≤
        dataOffset (createdDesc args) p off
  /-- No place of a block is one of another block. -/
  blocks : ∀ p < getImageBlocks (createHeader args), ∀ q < getImageBlocks (createHeader args),
    p ≠ q → ∀ off < vdiImageDefaultBlockSize, ∀ off' < vdiImageDefaultBlockSize,
      dataOffset (createdDesc args) p off ≠ dataOffset (createdDesc args) q off'
  reopens : ∀ image, vdiCreateImage args = .ok image → Survives image

/-- Where the data area starts if no sum wraps around: the table starts at `2 ^ k`, and the data
behind it at a multiple of `2 ^ k`. -/
def dataAreaStart (args : CreateArgs) (k : Nat) : Nat :=
  roundUp (2 ^ k + createBlockCount args * 4) k

section Offsets

variable {args : CreateArgs} {k : Nat}

section

variable (align : args.cbDataAlign = 2 ^ k) (sector : 9 ≤ k) (word : k ≤ 31)

include align sector word

theorem createHeader_offBlocks : getImageBlocksOffset (createHeader args) = 2 ^ k := by
  have large : 2 ^ 9 ≤ 2 ^ k := Nat.pow_le_pow_right (by decide) sector
  have small : 2 ^ k < 2 ^ 32 := Nat.pow_lt_pow_right (by decide) (by omega)
  have one : (sizeofPreHeader + sizeofHeader1Plus + (2 ^ k - 1)) / 2 ^ k = 1 := by
    have size : sizeofPreHeader + sizeofHeader1Plus = 472 := rfl
    rw [size, Nat.div_eq_of_lt_le] <;> omega
  have offset : rtAlign32 (sizeofPreHeader + sizeofHeader1Plus) args.cbDataAlign = 2 ^ k := by
    rw [align, rtAlign32_two_pow _ word, roundUp, one, Nat.one_mul, Nat.mod_eq_of_lt small]
  have header : getImageBlocksOffset (createHeader args) = (UInt32.ofNat
    (rtAlign32 (sizeofPreHeader + sizeofHeader1Plus) args.cbDataAlign)).toNat := rfl
  rw [header, offset]
  exact UInt32.toNat_ofNat_of_lt' small

theorem createHeader_offData :
    getImageDataOffset (createHeader args) = dataAreaStart args k % 2 ^ 32 := by
  have offBlocks := createHeader_offBlocks align sector word
  have header : getImageDataOffset (createHeader args) = (UInt32.ofNat
    (rtAlign32 (rtAlign32 (sizeofPreHeader + sizeofHeader1Plus) args.cbDataAlign +
      createBlockCount args * 4) args.cbDataAlign)).toNat := rfl
  have inner : rtAlign32 (sizeofPreHeader + sizeofHeader1Plus) args.cbDataAlign = 2 ^ k := by
    refine Eq.trans (Eq.symm ?_) offBlocks
    exact UInt32.toNat_ofNat_of_lt' (Nat.lt_of_le_of_lt Nat.and_le_left (u32_lt _))
  rw [header, inner, align, rtAlign32_two_pow _ word]
  exact UInt32.toNat_ofNat_of_lt' (Nat.mod_lt _ (by decide))

theorem layoutFits_of_start (fits : dataAreaStart args k + vdiImageDefaultBlockSize ≤ 2 ^ 32) :
    LayoutFits args := by
  have offBlocks := createHeader_offBlocks align sector word
  have offData := createHeader_offData align sector word
  have large : 2 ^ 9 ≤ 2 ^ k := Nat.pow_le_pow_right (by decide) sector
  have size : sizeofPreHeader + sizeofHeader1Plus = 472 := rfl
  have block : vdiImageDefaultBlockSize = 2 ^ 20 := rfl
  have behind := le_roundUp (2 ^ k + createBlockCount args * 4) k
  rw [Nat.mod_eq_of_lt (by omega)] at offData
  refine ⟨?_, ?_, ?_⟩
  · rw [offBlocks]
    omega
  · rw [offBlocks, offData, createHeader_blocks]
    exact behind
  · rw [offData]
    exact fits

end

theorem createdDesc_cbTotalBlockData (args : CreateArgs) :
    (createdDesc args).cbTotalBlockData = vdiImageDefaultBlockSize := by
  have fields : (createdDesc args).cbTotalBlockData =
    u32 (getImageExtraBlockSize (createHeader args) + getImageBlockSize (createHeader args)) := rfl
  rw [fields, createHeader_extra, createHeader_blockSize]
  decide

/-- With a start of the data low enough, a place of a block is where it should be. -/
theorem createdDesc_dataOffset (fits : LayoutFits args) (p : Nat) {off : Nat}
    (inside : off < vdiImageDefaultBlockSize) : dataOffset (createdDesc args) p off =
      p * vdiImageDefaultBlockSize + (getImageDataOffset (createHeader args) + off) := by
  have noWrap := fits.noWrap
  have total := createdDesc_cbTotalBlockData args
  have data : (createdDesc args).offStartData = getImageDataOffset (createHeader args) := rfl
  have extra : (createdDesc args).offStartBlockData = 0 := createHeader_extra args
  rw [dataOffset, total, data, extra, Nat.add_zero, u32_of_lt (by omega)]

theorem createdRight_of_fits (accepted : AcceptedSize args) (fits : LayoutFits args)
    (created : rtUuidIsNull args.uuid = false) (modified : rtUuidIsNull args.uuidModify = false) :
    CreatedRight args where
  validated := accepted.validated fits created modified
  tableEnd := fits.tableEnd
  table := by
    intro p _ off inside
    have tableEnd := fits.tableEnd
    rw [createdDesc_dataOffset fits p inside]
    exact .inr (by omega)
  blocks := by
    intro p _ q _ apart off inside off' inside'
    rw [createdDesc_dataOffset fits p inside, createdDesc_dataOffset fits q inside']
    rcases Nat.lt_or_gt_of_ne apart with less | less
    · have below := Nat.mul_le_mul_right vdiImageDefaultBlockSize (Nat.succ_le_of_lt less)
      rw [Nat.succ_mul] at below
      omega
    · have below := Nat.mul_le_mul_right vdiImageDefaultBlockSize (Nat.succ_le_of_lt less)
      rw [Nat.succ_mul] at below
      omega
  reopens := by
    intro image made
    have new := vdiCreateImage_created accepted fits made
    refine Durable.survives ⟨new.storeInv fits, new.onDisk, ?_⟩
    rw [new.header_eq]
    exact accepted.validated fits created modified

/-- A start of the data that wraps around lies in the table, and one that is just below the end
sends places of the second block into the table. -/
theorem fits_of_createdRight (align : args.cbDataAlign = 2 ^ k)
    (sector : 9 ≤ k) (word : k ≤ 31) (right : CreatedRight args) :
    dataAreaStart args k + vdiImageDefaultBlockSize ≤ 2 ^ 32 := by
  have offBlocks := createHeader_offBlocks align sector word
  have offData := createHeader_offData align sector word
  have tableEnd := right.tableEnd
  have count := createHeader_blocks args
  have bound := getImageBlocks_lt (createHeader args)
  have block : vdiImageDefaultBlockSize = 2 ^ 20 := rfl
  have near := roundUp_lt (2 ^ k + createBlockCount args * 4) k
  have small : 2 ^ k ≤ 2 ^ 31 := Nat.pow_le_pow_right (by decide) word
  have positive := Nat.two_pow_pos k
  rw [← dataAreaStart] at near
  by_contra late
  rw [offBlocks, offData, count] at tableEnd
  by_cases wraps : 2 ^ 32 ≤ dataAreaStart args k
  · have less : dataAreaStart args k % 2 ^ 32 ≤ dataAreaStart args k - 2 ^ 32 := by
      rw [Nat.mod_eq_sub_mod wraps]
      exact Nat.mod_le _ _
    omega
  · have start : dataAreaStart args k % 2 ^ 32 = dataAreaStart args k :=
      Nat.mod_eq_of_lt (Nat.not_le.mp wraps)
    -- the alignment is below the block size, since the start is a multiple of it
    have aligned : 2 ^ k < 2 ^ 20 := by
      obtain ⟨m, whole⟩ := dvd_roundUp (2 ^ k + createBlockCount args * 4) k
      rw [← dataAreaStart] at whole
      have power : 2 ^ 32 = 2 ^ k * 2 ^ (32 - k) := by
        rw [← Nat.pow_add, Nat.add_sub_cancel' (by omega)]
      have less : m < 2 ^ (32 - k) := by
        refine Nat.lt_of_mul_lt_mul_left (a := 2 ^ k) ?_
        rw [← whole, ← power]
        exact Nat.not_le.mp wraps
      have next := Nat.mul_le_mul_left (2 ^ k) (Nat.succ_le_of_lt less)
      rw [Nat.mul_succ, ← whole, ← power] at next
      omega
    have total := createdDesc_cbTotalBlockData args
    have data : (createdDesc args).offStartData = dataAreaStart args k := by
      rw [← start, ← offData]
      rfl
    have extra : (createdDesc args).offStartBlockData = 0 := createHeader_extra args
    have inside : 2 ^ 32 - dataAreaStart args k < vdiImageDefaultBlockSize := by omega
    have place : dataOffset (createdDesc args) 1 (2 ^ 32 - dataAreaStart args k) = 2 ^ 20 := by
      have sum : dataAreaStart args k + 0 + (2 ^ 32 - dataAreaStart args k) = 2 ^ 32 := by omega
      rw [dataOffset, total, data, extra, sum]
      rfl
    have second := right.table 1 (by rw [count]; omega) _ inside
    rw [place, offBlocks, count] at second
    omega

end Offsets

/-- A new image is right exactly if its data area starts, without wrapping around, a block below
4 GiB. -/
theorem create_right_iff {args : CreateArgs} (accepted : AcceptedSize args) {k : Nat}
    (align : args.cbDataAlign = 2 ^ k) (sector : 9 ≤ k) (word : k ≤ 31)
    (created : rtUuidIsNull args.uuid = false) (modified : rtUuidIsNull args.uuidModify = false) :
    CreatedRight args ↔ dataAreaStart args k + vdiImageDefaultBlockSize ≤ 2 ^ 32 := by
  constructor
  · exact fits_of_createdRight align sector word
  · intro fits
    exact createdRight_of_fits accepted (layoutFits_of_start align sector word fits) created
      modified

/-- A dynamic image of that size with the data aligned to `2 ^ k`. -/
def alignedArgs (cbSize k : Nat) : CreateArgs where
  cbSize := cbSize
  uImageFlags := 0
  szComment := Vector.replicate 256 0
  lchsGeometry := geometryNotCalculated
  uuid := Vector.replicate 16 1
  uuidModify := Vector.replicate 16 1
  cbDataAlign := 2 ^ k
  cbFree := none

/-- One TiB with the default alignment. -/
theorem create_right_tib : CreatedRight (alignedArgs (2 ^ 40) 20) :=
  (create_right_iff ⟨by decide, by decide⟩ rfl (by decide) (by decide) (by decide)
    (by decide)).mpr (by decide)

/-- Near the limit for the size the header of a new image is not accepted; with an alignment of a
sector, a PiB less 256 MiB has an accepted header, but data in the block table. -/
theorem exists_create_wrong :
    ¬ CreatedRight (alignedArgs (2 ^ 52 - 2 ^ 22) 20) ∧
      ¬ CreatedRight (alignedArgs (2 ^ 50 - 2 ^ 28) 9) ∧
      vdiValidateHeader (createHeader (alignedArgs (2 ^ 50 - 2 ^ 28) 9)) = .vinfSuccess := by
  refine ⟨fun right => ?_, fun right => ?_, by decide⟩
  · exact absurd right.validated (by decide)
  · exact absurd (right.table 1 (by decide) 512 (by decide)) (by decide)

end VBox.Storage.Vdi
