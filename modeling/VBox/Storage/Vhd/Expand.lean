import VBox.Storage.Vhd.Bounds
import VBox.Lib.ByteFile
import VBox.Lib.Run

/-!
Allocating a block of a dynamic VHD image.

`vhdWrite` submits four transfers for a new block. Each one succeeds or fails at once, or is in
progress and completes after the submitter has released the disk. Two bits of `fFlags` say how far
each transfer is; whoever finds all four complete runs `vhdAsyncExpansionComplete`. A failed transfer
leaves anything in the range it was for.
-/

namespace VBox.Storage.Vhd

open VBox.Lib

/-- The transfers of an expansion. -/
inductive Step where
  | blockBitmap
  | userBlock
  | bat
  | footer
  deriving DecidableEq, Repr

/-- `VHDIMAGEEXPAND_*_STATUS_SHIFT`. -/
def Step.shift : Step → UInt32
  | .blockBitmap => 0
  | .userBlock => 2
  | .footer => 4
  | .bat => 6

def stepFailed : UInt32 := 0x2
def stepSuccess : UInt32 := 0x3
def allSuccess : UInt32 := 0xff
def allComplete : UInt32 := 0xaa

/-- `VHDIMAGEEXPAND_STATUS_GET`. -/
def statusGet (fFlags cShift : UInt32) : UInt32 := fFlags >>> cShift &&& 0x3

/-- `VHDIMAGEEXPAND_STATUS_SET`. -/
def statusSet (fFlags cShift uVal : UInt32) : UInt32 := fFlags ||| (uVal &&& 0x3) <<< cShift

/-- A 32-bit value in memory, and big endian. -/
def host32 (value : UInt32) : Buf := leByte value.toNat
def be32 (value : UInt32) : Buf := fun i => leByte value.toNat (3 - i)

/-- An opened image with its file and the footer to be written behind the last block. -/
structure Disk where
  image : VhdImage
  vhdFooterCopy : Buf
  file : ByteFile

/-- `VHDIMAGEEXPAND`. -/
structure Expand where
  fFlags : UInt32
  idxBatAllocated : Nat
  idxBlockBe : Buf
  cbEofOld : Nat
  au8Bitmap : Buf

/-- A write on its way to the file. -/
structure Transfer where
  off : Nat
  cb : Nat
  bytes : Buf

/-- How a transfer ends. -/
inductive Outcome where
  | success
  | failed (cbLeft : Nat) (left : Buf)

def Outcome.succeeded : Outcome → Bool
  | .success => true
  | .failed _ _ => false

/-- What the submission of a transfer returns. -/
inductive Answer where
  | done (outcome : Outcome)
  | inProgress

/-- What a transfer leaves in the file. -/
def Transfer.apply (transfer : Transfer) (file : ByteFile) : Outcome → ByteFile
  | .success => file.write transfer.off transfer.cb transfer.bytes
  | .failed cbLeft left => file.write transfer.off (min cbLeft transfer.cb) left

/-- An expansion. The completed transfers and the number of rollbacks are kept as a record. -/
structure Expansion where
  disk : Disk
  expand : Expand
  pending : List (Step × Transfer)
  fIoInProgress : Bool
  completed : List (Step × Bool)
  cRollbacks : Nat

/-- The footer's size. -/
def cbFooter : Nat := 512

/-- Where the table entry is in the file. -/
def entryOffset (image : VhdImage) (entry : Nat) : Nat :=
  u64 (image.uBlockAllocationTableOffset + entry * 4)

/-- What `vhdAsyncExpansionComplete` undoes after a failure. Its writes succeed. -/
def rollback (s : Expansion) : Expansion :=
  let image := s.disk.image
  let idx := s.expand.idxBatAllocated
  let uStatus := statusGet s.expand.fFlags Step.bat.shift
  let table :=
    if uStatus = stepFailed ∨ uStatus = stepSuccess then
      Function.update image.blockAllocationTable idx freeEntry
    else image.blockAllocationTable
  let restored :=
    if uStatus = stepSuccess then
      s.disk.file.write (entryOffset image idx) 4 (host32 (table idx))
    else s.disk.file
  let cut := restored.setSize (u64 (s.expand.cbEofOld + cbFooter))
  { s with
    disk :=
      { s.disk with
        image :=
          { image with
            blockAllocationTable := table
            uCurrentEndOfFile := s.expand.cbEofOld }
        file := cut.write s.expand.cbEofOld cbFooter s.disk.vhdFooterCopy }
    cRollbacks := s.cRollbacks + 1 }

/-- `vhdAsyncExpansionComplete`. -/
def vhdAsyncExpansionComplete (s : Expansion) : Expansion :=
  if s.expand.fFlags = allSuccess then s else rollback s

/-- Note the state of a step. -/
def Expansion.setStatus (s : Expansion) (step : Step) (uVal : UInt32) : Expansion :=
  { s with expand := { s.expand with fFlags := statusSet s.expand.fFlags step.shift uVal } }

/-- A transfer has ended. -/
def Expansion.transferred (s : Expansion) (step : Step) (transfer : Transfer) (outcome : Outcome) :
    Expansion :=
  { s with
    disk := { s.disk with file := transfer.apply s.disk.file outcome }
    completed := (step, outcome.succeeded) :: s.completed }

/-- `vhdAsyncExpansionStepCompleted` for the transfer of a step. -/
def vhdAsyncExpansionStepCompleted (s : Expansion) (step : Step) (transfer : Transfer)
    (outcome : Outcome) : Expansion :=
  let s := (s.transferred step transfer outcome).setStatus step
    (if outcome.succeeded then stepSuccess else stepFailed)
  if s.expand.fFlags &&& allComplete = allComplete then vhdAsyncExpansionComplete s else s

/-- One of the transfers in progress completes. -/
def Completes (s : Expansion) (label : Step × Outcome) (t : Expansion) : Prop :=
  ∃ past transfer rest, s.pending = past ++ (label.1, transfer) :: rest ∧
    t = vhdAsyncExpansionStepCompleted { s with pending := past ++ rest } label.1 transfer label.2

/-! ### The submitter -/

/-- A step and the ones after it, which are not started if it fails at once. -/
def Step.onwards : Step → List Step
  | .blockBitmap => [.blockBitmap, .userBlock, .bat, .footer]
  | .userBlock => [.userBlock, .bat, .footer]
  | .bat => [.bat, .footer]
  | .footer => [.footer]

/-- Submit a transfer. The loop goes on with `.ok` and is left with `.error`. -/
def submit (s : Expansion) (step : Step) (transfer : Transfer) :
    Answer → Except Expansion Expansion
  | .done .success =>
    .ok ((s.transferred step transfer .success).setStatus step stepSuccess)
  | .inProgress =>
    .ok { s with pending := s.pending ++ [(step, transfer)], fIoInProgress := true }
  | .done (.failed cbLeft left) =>
    .error (step.onwards.foldl (fun s later => s.setStatus later stepFailed)
      (s.transferred step transfer (.failed cbLeft left)))

/-- The bytes of a block's bitmap in the file. -/
def cbBitmapSectors (image : VhdImage) : Nat := u32 (image.cDataBlockBitmapSectors * VHD_SECTOR_SIZE)

/-- Link the new block into the table and move the end of the file. -/
def link (s : Expansion) (entry : Nat) : Expansion :=
  let image := s.disk.image
  { s with
    disk :=
      { s.disk with
        image :=
          { image with
            blockAllocationTable := Function.update image.blockAllocationTable entry
              (UInt32.ofNat (image.uCurrentEndOfFile / VHD_SECTOR_SIZE))
            uCurrentEndOfFile :=
              u64 (image.uCurrentEndOfFile + u32 (cbBitmapSectors image + image.cbDataBlock)) } } }

/-- The loop that submits the transfers. -/
def submitAll (s : Expansion) (entry cbWrite : Nat) (user : Buf) (answer : Step → Answer) :
    Except Expansion Expansion := do
  let s ← submit s .blockBitmap
    ⟨s.disk.image.uCurrentEndOfFile, cbBitmapSectors s.disk.image, s.expand.au8Bitmap⟩
    (answer .blockBitmap)
  let s ← submit s .userBlock
    ⟨u64 (s.disk.image.uCurrentEndOfFile + cbBitmapSectors s.disk.image), cbWrite, user⟩
    (answer .userBlock)
  let s ← submit s .bat ⟨entryOffset s.disk.image entry, 4, s.expand.idxBlockBe⟩ (answer .bat)
  let s := link s entry
  submit s .footer ⟨s.disk.image.uCurrentEndOfFile, cbFooter, s.disk.vhdFooterCopy⟩
    (answer .footer)

/-- `vhdBlockBitmapSectorSet`. -/
def vhdBlockBitmapSectorSet (bitmap : Buf) (sector : Nat) : Buf :=
  Function.update bitmap (sector / 8) (bitmap (sector / 8) ||| 1 <<< UInt8.ofNat (7 - sector % 8))

/-- The state the submitter starts with. -/
def startExpand (disk : Disk) (entry cBATEntryIndex cbWrite : Nat) : Expansion :=
  { disk
    expand :=
      { fFlags := 0
        idxBatAllocated := entry
        idxBlockBe := be32 (UInt32.ofNat (disk.image.uCurrentEndOfFile / VHD_SECTOR_SIZE))
        cbEofOld := disk.image.uCurrentEndOfFile
        au8Bitmap := (List.range (cbWrite / VHD_SECTOR_SIZE)).foldl
          (fun bitmap iSector => vhdBlockBitmapSectorSet bitmap (cBATEntryIndex + iSector))
          fun _ => 0 }
    pending := []
    fIoInProgress := false
    completed := []
    cRollbacks := 0 }

/-- What the submitter does after the loop. -/
def afterLoop : Except Expansion Expansion → Expansion
  | .ok s => if s.fIoInProgress then s else vhdAsyncExpansionComplete s
  | .error s => if s.fIoInProgress then s else vhdAsyncExpansionComplete s

/-- `vhdWrite` where it allocates a block. -/
def vhdWriteExpand (disk : Disk) (uOffset cbWrite : Nat) (fNoAlloc fAlloc : Bool) (user : Buf)
    (answer : Step → Answer) : Option Expansion :=
  let image := disk.image
  let cSector := u32 (uOffset / VHD_SECTOR_SIZE)
  let cBlockAllocationTableEntry := cSector / image.cSectorsPerDataBlock
  let cBATEntryIndex := cSector % image.cSectorsPerDataBlock
  let cbClipped := min cbWrite (restOfBlock image cBATEntryIndex)
  if image.blockAllocationTable cBlockAllocationTableEntry = freeEntry ∧
      ¬(fNoAlloc ∨ cbClipped ≠ image.cbDataBlock) ∧ fAlloc then
    some (afterLoop (submitAll (startExpand disk cBlockAllocationTableEntry cBATEntryIndex cbClipped)
      cBlockAllocationTableEntry cbClipped user answer))
  else none

/-! ### What a block reads as -/

/-- A sector of a block: `none` where the image has no data for it. -/
def readSector (disk : Disk) (block sector : Nat) : Option (List UInt8) :=
  let entry := disk.image.blockAllocationTable block
  if entry = freeEntry then none
  else if (disk.file.byte (entry.toNat * VHD_SECTOR_SIZE + sector / 8)).toNat.testBit
      (7 - sector % 8) then
    some ((List.range VHD_SECTOR_SIZE).map fun i => disk.file.byte
      ((entry.toNat + disk.image.cDataBlockBitmapSectors + sector) * VHD_SECTOR_SIZE + i))
  else none

end VBox.Storage.Vhd
