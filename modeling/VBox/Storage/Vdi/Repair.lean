import VBox.Storage.Vdi.Reopen

/-!
Repairing a VDI image: `vdiRepair` works on the bytes of the file.

The header is read as for a read-only image, without a conversion. Where its read fails the function
goes on with what is on the stack, which the C code does not define; nor is a bit outside the block
bitmap defined. `ASMBitTestAndSet` takes its index as a signed 32-bit number.
-/

namespace VBox.Storage.Vdi

open VBox.Lib

inductive RepairStatus where
  | vinfSuccess
  | verrEof
  | verrVdImageRepairImpossible
  deriving DecidableEq, Repr

/-- What a repair comes to. -/
inductive RepairVerdict where
  | undefined
  | returned (rc : RepairStatus) (file : ByteFile)

/-- The status of a repair that returns. -/
def RepairVerdict.status : RepairVerdict → Option RepairStatus
  | .undefined => none
  | .returned rc _ => some rc

def RepairVerdict.file : RepairVerdict → ByteFile
  | .undefined => .empty
  | .returned _ file => file

/-! ### The block array -/

/-- The bits of `RT_ALIGN_Z(cBlocks / 8, 4)` bytes. -/
def blockBitmapBits (cBlocks : Nat) : Nat := (cBlocks / 8 + 3) / 4 * 4 * 8

/-- The bytes of a block with its extra data, a 32-bit sum. -/
def repairBlockSize (header : VdiHeader) : Nat :=
  u32 (getImageExtraBlockSize header + getImageBlockSize header)

/-- The whole block lies in the file. -/
def InFile (header : VdiHeader) (cbFile ptrBlock : Nat) : Prop :=
  ptrBlock * repairBlockSize header + getImageDataOffset header + repairBlockSize header ≤ cbFile

instance (header : VdiHeader) (cbFile ptrBlock : Nat) :
    Decidable (InFile header cbFile ptrBlock) :=
  inferInstanceAs (Decidable (_ ≤ _))

/-- The index `ASMBitTestAndSet` is called with is one of a bit of the bitmap. -/
def InBitmap (header : VdiHeader) (ptrBlock : Nat) : Prop :=
  ptrBlock < blockBitmapBits (getImageBlocks header) ∧ ptrBlock < 2 ^ 31

instance (header : VdiHeader) (ptrBlock : Nat) : Decidable (InBitmap header ptrBlock) :=
  inferInstanceAs (Decidable (_ ∧ _))

/-- The checks of the block array: the array behind them and `fRepairBlockArray`. The bitmap is the
list of the bits that are set. -/
def checkBlocks (header : VdiHeader) (cbFile : Nat) :
    List Nat → Bool → List Nat → Option (List Nat × Bool)
  | _, fRepairBlockArray, [] => some ([], fRepairBlockArray)
  | bitmap, fRepairBlockArray, ptrBlock :: rest =>
      let keep := fun bitmap => (checkBlocks header cbFile bitmap fRepairBlockArray rest).map
        fun (rest, fRepair) => (ptrBlock :: rest, fRepair)
      let clear := (checkBlocks header cbFile bitmap true rest).map
        fun (rest, fRepair) => (vdiImageBlockFree :: rest, fRepair)
      if IsAllocated ptrBlock then
        if ¬ InFile header cbFile ptrBlock then clear
        else if ¬ InBitmap header ptrBlock then none
        else if ptrBlock ∈ bitmap then clear
        else keep (ptrBlock :: bitmap)
      else keep bitmap

/-- `vdiRepair`; `fDryRun` is `VD_REPAIR_DRY_RUN`. -/
def vdiRepair (fDryRun : Bool) (file : ByteFile) : RepairVerdict :=
  match file.read 0 sizeofPreHeader with
  | none => .returned .verrEof file
  | some buf =>
      let preHdr := preHeaderCodec.dec buf
      if vdiValidatePreHeader preHdr ≠ .vinfSuccess then
        .returned .verrVdImageRepairImpossible file
      else
        match readHeader file { readOnly := true } preHdr.u32Version with
        | (rc, hdr) =>
            if rc ≠ .vinfSuccess then .undefined
            else if vdiValidateHeader hdr ≠ .vinfSuccess then
              .returned .verrVdImageRepairImpossible file
            else
              match file.read (getImageBlocksOffset hdr) (getImageBlocks hdr * 4) with
              | none => .returned .verrVdImageRepairImpossible file
              | some table =>
                  match checkBlocks hdr file.size [] false (words table (getImageBlocks hdr)) with
                  | none => .undefined
                  | some (paBlocks, fRepairBlockArray) =>
                      if fRepairBlockArray && !fDryRun then
                        .returned .vinfSuccess (file.write (getImageBlocksOffset hdr)
                          (getImageBlocks hdr * 4) (ofWords paBlocks))
                      else .returned .vinfSuccess file

/-! ### The bits that are tested -/

section Bits

variable {header : VdiHeader} {cbFile : Nat}

/-- The checks are undefined exactly where a block inside the file has no bit. -/
theorem checkBlocks_eq_none {bitmap paBlocks : List Nat} {fRepairBlockArray : Bool} :
    checkBlocks header cbFile bitmap fRepairBlockArray paBlocks = none ↔
      ∃ ptrBlock ∈ paBlocks, IsAllocated ptrBlock ∧ InFile header cbFile ptrBlock ∧
        ¬ InBitmap header ptrBlock := by
  induction paBlocks generalizing bitmap fRepairBlockArray with
  | nil => simp [checkBlocks]
  | cons ptrBlock rest ih =>
    rw [checkBlocks, List.exists_mem_cons_iff]
    dsimp only
    by_cases allocated : IsAllocated ptrBlock
    · rw [if_pos allocated]
      by_cases place : InFile header cbFile ptrBlock
      · rw [if_neg (not_not.mpr place)]
        by_cases bit : InBitmap header ptrBlock
        · rw [if_neg (not_not.mpr bit)]
          split <;> simp [ih, bit]
        · rw [if_pos bit]
          exact iff_of_true rfl (.inl ⟨allocated, place, bit⟩)
      · rw [if_pos place]
        simp [ih, place]
    · rw [if_neg allocated]
      simp [ih, allocated]

/-- The file is too short for a block with the first number that has no bit. -/
def BitmapCovers (header : VdiHeader) (cbFile : Nat) : Prop :=
  cbFile < getImageDataOffset header +
    (min (blockBitmapBits (getImageBlocks header)) (2 ^ 31) + 1) * repairBlockSize header

/-- A repair stays inside its bitmap, whatever the block array holds, exactly if the file is too
short for a block that has no bit. -/
theorem checkBlocks_inside_iff (valid : vdiValidateHeader header = .vinfSuccess) :
    (∀ paBlocks : List Nat, paBlocks.length = getImageBlocks header →
      (∀ ptrBlock ∈ paBlocks, ptrBlock < 2 ^ 32) →
        checkBlocks header cbFile [] false paBlocks ≠ none) ↔ BitmapCovers header cbFile := by
  have blocks := (validHeader_of_success valid).blocks
  unfold BitmapCovers
  constructor
  · intro inside
    by_contra long
    -- the first number without a bit, in the first entry
    obtain ⟨first, number⟩ : ∃ first,
        first = min (blockBitmapBits (getImageBlocks header)) (2 ^ 31) := ⟨_, rfl⟩
    have bound : first ≤ 2 ^ 31 := number ▸ Nat.min_le_right _ _
    rw [← number] at long
    have place : InFile header cbFile first := by
      rw [Nat.succ_mul] at long
      unfold InFile
      omega
    have noBit : ¬ InBitmap header first := by
      rintro ⟨below, small⟩
      exact absurd (lt_min below small) (number ▸ Nat.lt_irrefl _)
    refine inside (first :: List.replicate (getImageBlocks header - 1) vdiImageBlockFree) ?_ ?_ ?_
    · rw [List.length_cons, List.length_replicate, Nat.sub_add_cancel (by omega)]
    · intro ptrBlock member
      rcases List.mem_cons.mp member with rfl | member
      · omega
      · rw [List.eq_of_mem_replicate member]
        decide
    · refine checkBlocks_eq_none.mpr ⟨first, List.mem_cons_self, ?_, place, noBit⟩
      unfold IsAllocated vdiImageBlockZero
      omega
  · intro short paBlocks _ _ undefined
    obtain ⟨ptrBlock, -, -, place, noBit⟩ := checkBlocks_eq_none.mp undefined
    have behind : min (blockBitmapBits (getImageBlocks header)) (2 ^ 31) ≤ ptrBlock := by
      by_contra below
      obtain ⟨bit, small⟩ := lt_min_iff.mp (Nat.not_le.mp below)
      exact noBit ⟨bit, small⟩
    have more := Nat.mul_le_mul_right (repairBlockSize header) behind
    rw [Nat.succ_mul] at short
    unfold InFile at place
    omega

end Bits

/-- An image with 32 blocks of 512 bytes, the first one allocated. -/
theorem checkBlocks_inside_small :
    checkBlocks (smallHeader 1024 512 0 32 1) 1536 [] false
      (0 :: List.replicate 31 vdiImageBlockFree) ≠ none :=
  (checkBlocks_inside_iff (by decide +kernel)).mpr (by unfold BitmapCovers; decide +kernel) _
    (by decide +kernel) (by decide +kernel)

/-- The header of an image with one block is valid, and its bitmap has no bytes; the one block, if
it is allocated, is looked up there all the same. -/
theorem exists_checkBlocks_outside :
    vdiValidateHeader (smallHeader 1024 512 0 1 1) = .vinfSuccess ∧
      blockBitmapBits 1 = 0 ∧ IsAllocated 0 ∧ InFile (smallHeader 1024 512 0 1 1) 1536 0 ∧
      checkBlocks (smallHeader 1024 512 0 1 1) 1536 [] false [0] = none ∧
      (vdiRepair false
        (imageFile (smallHeader 1024 512 0 1 1) [0] 1536 fun _ => 1)).status = none :=
  ⟨by decide +kernel, by decide, by decide, by decide +kernel, by decide +kernel,
    by decide +kernel⟩

end VBox.Storage.Vdi
