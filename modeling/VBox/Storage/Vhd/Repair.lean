import VBox.Storage.Vhd.Expand

/-!
Repairing a VHD image: `vhdRepair` works on the bytes of the file.

An access of the host fails where the parameter says so; a failed write is taken to leave the file
as it was. The checks end in what is to be written back, or they leave before it.
-/

namespace VBox.Storage.Vhd

open VBox.Lib

/-- What is asked of the host in a repair. -/
inductive RepairAccess where
  | openFile
  | getSize
  | readFooter
  | readBackup
  | readHeader
  | allocTable
  | readTable
  | allocBitmap
  | writeTable
  | writeHeader
  | writeBackup
  | writeFooter
  | close
  deriving DecidableEq, Repr

inductive RepairError where
  | io
  | noMemory
  | invalidSize
  | repairImpossible
  deriving DecidableEq, Repr

/-- How the checks leave before anything is written. -/
inductive Leave where
  | error (rc : RepairError)
  /-- The `break` behind a wrong checksum. -/
  | checksum
  | divideByZero
  /-- A bit outside the block bitmap. -/
  | outside
  deriving DecidableEq, Repr

/-! ### Structures in the file -/

/-- The number whose `w` big-endian bytes the buffer starts with. -/
def beNat (w : Nat) (b : Buf) : Nat := leNat w fun i => b (w - 1 - i)

def cbHeader : Nat := 1024

def fCookie (footer : Buf) : Bool :=
  (List.range 8).map footer == [0x63, 0x6f, 0x6e, 0x65, 0x63, 0x74, 0x69, 0x78]

def dataOffset (footer : Buf) : Nat := beNat 8 (footer.drop 16)
def diskType (footer : Buf) : Nat := beNat 4 (footer.drop 60)
def tableOffset (header : Buf) : Nat := beNat 8 (header.drop 16)
def maxTableEntries (header : Buf) : Nat := beNat 4 (header.drop 28)
def blockSize (header : Buf) : Nat := beNat 4 (header.drop 32)

/-- `vhdChecksum`. -/
def vhdChecksum (header : Buf) (cbSize : Nat) : Nat :=
  2 ^ 32 - 1 -
    (List.range cbSize).foldl (fun checksum i => u32 (checksum + (header i).toNat)) 0

/-- A structure with its checksum set to zero. -/
def withoutChecksum (offChecksum : Nat) (header : Buf) : Buf :=
  fun i => if offChecksum ≤ i ∧ i < offChecksum + 4 then 0 else header i

def fChecksum (offChecksum cbSize : Nat) (header : Buf) : Bool :=
  beNat 4 (header.drop offChecksum) == vhdChecksum (withoutChecksum offChecksum header) cbSize

def footerChecksum (footer : Buf) : Bool := fChecksum 64 cbFooter footer
def headerChecksum (header : Buf) : Bool := fChecksum 36 cbHeader header

def fDynamicType (footer : Buf) : Bool :=
  diskType footer == VHD_FOOTER_DISK_TYPE_DYNAMIC ||
    diskType footer == VHD_FOOTER_DISK_TYPE_DIFFERENCING

/-- An entry of the block allocation table. -/
def batEntry (table : Buf) (i : Nat) : Nat := beNat 4 (table.drop (4 * i))

def batEntries (table : Buf) (cBatEntries : Nat) : List Nat :=
  (List.range cBatEntries).map (batEntry table)

/-- The bytes of a table, big-endian. -/
def batBytes (paBat : List Nat) : Buf := fun i => leByte (paBat.getD (i / 4) 0) (3 - i % 4)

/-! ### The block allocation table -/

def cleared : Nat := 0xffffffff

/-- What the checks of the entries go by. -/
structure BatLimits where
  cbFile : Nat
  /-- The bytes of a block with its bitmap. -/
  cbBlock : Nat
  idxMinBlock : Nat
  /-- The bits of the block bitmap. -/
  cBits : Nat

/-- What the checks of the entries change. -/
structure BatScan where
  /-- The bits set in the block bitmap. -/
  blockBitmap : List Nat
  offFooter : Nat
  fRepairBat : Bool

/-- The bit of an entry's block. -/
def BatLimits.bit (limits : BatLimits) (entry : Nat) : Nat :=
  (entry - limits.idxMinBlock) / (limits.cbBlock / VHD_SECTOR_SIZE)

/-- The checks of one entry. -/
def checkEntry (limits : BatLimits) (scan : BatScan) (entry : Nat) :
    Except Leave (Nat × BatScan) :=
  let offEnd := entry * VHD_SECTOR_SIZE + limits.cbBlock
  if entry = cleared then .ok (entry, scan)
  else if limits.cbFile < offEnd then .ok (cleared, { scan with fRepairBat := true })
  else if limits.cbBlock / VHD_SECTOR_SIZE = 0 then .error .divideByZero
  else if limits.cBits ≤ limits.bit entry ∨ 2 ^ 31 ≤ limits.bit entry then .error .outside
  else
    let offFooter := max scan.offFooter offEnd
    let fCrosses := decide (scan.offFooter < offEnd)
    if limits.bit entry ∈ scan.blockBitmap then
      .ok (cleared, { scan with offFooter, fRepairBat := true })
    else
      .ok (entry, ⟨limits.bit entry :: scan.blockBitmap, offFooter, scan.fRepairBat || fCrosses⟩)

def checkEntries (limits : BatLimits) : BatScan → List Nat → Except Leave (List Nat × BatScan)
  | scan, [] => .ok ([], scan)
  | scan, entry :: rest =>
    match checkEntry limits scan entry with
    | .error leave => .error leave
    | .ok (entry, scan) =>
      match checkEntries limits scan rest with
      | .error leave => .error leave
      | .ok (rest, scan) => .ok (entry :: rest, scan)

/-! ### The checks -/

/-- What is written back, where to, and the status before it. -/
structure Repair where
  rc : Option RepairError
  fDynamic : Bool
  fRepairFooter : Bool
  fRepairBat : Bool
  footer : Buf
  offFooter : Nat
  offBat : Nat
  paBat : List Nat

/-- The footer, or its backup if it is missing. -/
def readFooter (fails : RepairAccess → Bool) (file : ByteFile) : Except Leave (Buf × Bool) :=
  if fails .openFile ∨ fails .getSize then .error (.error .io)
  else if file.size < cbFooter then .error (.error .invalidSize)
  else if fails .readFooter then .error (.error .io)
  else if fCookie (file.byte.drop (file.size - cbFooter)) then
    .ok (file.byte.drop (file.size - cbFooter), false)
  else if fails .readBackup then .error (.error .io)
  else if fCookie file.byte then .ok (file.byte, true)
  else .error (.error .repairImpossible)

/-- The size of a block with its bitmap, in bytes. -/
def cbBlockOf (header : Buf) : Nat := blockSize header + blockSize header / VHD_SECTOR_SIZE / 8

/-- `RT_ALIGN_Z(cBatEntries / 8, 4)` bytes of bitmap, in bits. -/
def cBitsOf (cBatEntries : Nat) : Nat := (cBatEntries / 8 + 3) / 4 * 4 * 8

def idxMinBlockOf (paBat : List Nat) : Nat := paBat.foldl min cleared

def limitsOf (cbFile : Nat) (header : Buf) (paBat : List Nat) : BatLimits :=
  { cbFile
    cbBlock := cbBlockOf header
    idxMinBlock := idxMinBlockOf paBat
    cBits := cBitsOf (maxTableEntries header) }

def checkTable (fails : RepairAccess → Bool) (file : ByteFile) (footer header : Buf)
    (fRepairFooter : Bool) : Except Leave Repair :=
  let offBat := tableOffset header
  let cBatEntries := maxTableEntries header
  if file.size < u64 (offBat + 4 * cBatEntries) then .error (.error .repairImpossible)
  else if fails .allocTable then .error (.error .repairImpossible)
  else if fails .readTable ∨ file.size < offBat + 4 * cBatEntries then
    .error (.error .repairImpossible)
  else if fails .allocBitmap then .error (.error .noMemory)
  else
    let paBat := batEntries (file.byte.drop offBat) cBatEntries
    match checkEntries (limitsOf file.size header paBat) ⟨[], file.size - cbFooter, false⟩
      paBat with
    | .error leave => .error leave
    | .ok (paBat, scan) =>
      .ok { rc := none, fDynamic := true, fRepairFooter, fRepairBat := scan.fRepairBat, footer,
            offFooter := scan.offFooter, offBat, paBat }

def checkDynamic (fails : RepairAccess → Bool) (file : ByteFile) (footer : Buf)
    (fRepairFooter : Bool) : Except Leave Repair :=
  let offHeader := dataOffset footer
  if file.size < u64 (offHeader + cbHeader) then .error (.error .repairImpossible)
  else if fails .readHeader ∨ file.size < offHeader + cbHeader then
    .error (.error .repairImpossible)
  else if headerChecksum (file.byte.drop offHeader) then
    checkTable fails file footer (file.byte.drop offHeader) fRepairFooter
  else .error .checksum

/-- The checks. That a type is not supported leaves the `switch` only. -/
def check (fails : RepairAccess → Bool) (file : ByteFile) : Except Leave Repair :=
  match readFooter fails file with
  | .error leave => .error leave
  | .ok (footer, fRepairFooter) =>
    if footerChecksum footer = false then .error .checksum
    else if fDynamicType footer then checkDynamic fails file footer fRepairFooter
    else
      .ok { rc := if diskType footer = VHD_FOOTER_DISK_TYPE_FIXED then none
                  else some .repairImpossible
            fDynamic := false, fRepairFooter, fRepairBat := false, footer
            offFooter := file.size - cbFooter, offBat := 0, paBat := [] }

/-! ### Writing back -/

/-- One write; after a failed one the others are left out. -/
def writeUnless (fails : Bool) (off cb : Nat) (bytes : Buf)
    (s : Option RepairError × ByteFile) : Option RepairError × ByteFile :=
  match s with
  | (some rc, file) => (some rc, file)
  | (none, file) =>
    if fails then (some .repairImpossible, file) else (none, file.write off cb bytes)

/-- The dynamic disk header is never written: where it needs repair, the checks have left. -/
def writeBack (fails : RepairAccess → Bool) (repair : Repair) (file : ByteFile) :
    Option RepairError × ByteFile :=
  let s := (none, file)
  let s := if repair.fRepairBat then
      writeUnless (fails .writeTable) repair.offBat (4 * repair.paBat.length)
        (batBytes repair.paBat) s
    else s
  if repair.fRepairFooter then
    let s := if repair.fDynamic then
        writeUnless (fails .writeBackup) 0 cbFooter repair.footer s
      else s
    writeUnless (fails .writeFooter) repair.offFooter cbFooter repair.footer s
  else s

/-- What a repair comes to. -/
inductive RepairVerdict where
  | undefined (leave : Leave)
  /-- The status, whether something was found to repair, and the file. -/
  | returned (rc : Option RepairError) (found : Bool) (file : ByteFile)

/-- The status and the finding, and the file, of a repair that returns. -/
def RepairVerdict.status : RepairVerdict → Option (Option RepairError × Bool)
  | .undefined _ => none
  | .returned rc found _ => some (rc, found)

def RepairVerdict.file : RepairVerdict → ByteFile
  | .undefined _ => .empty
  | .returned _ _ file => file

/-- Closing the file changes the status only of a successful repair. -/
def closeStatus (fails : RepairAccess → Bool) (rc : Option RepairError) : Option RepairError :=
  if rc = none ∧ fails .close then some .io else rc

/-- `vhdRepair`; `fDryRun` is `VD_REPAIR_DRY_RUN`. -/
def vhdRepair (fails : RepairAccess → Bool) (fDryRun : Bool) (file : ByteFile) : RepairVerdict :=
  match check fails file with
  | .error (.error rc) => .returned (some rc) false file
  | .error .checksum => .returned (closeStatus fails none) true file
  | .error .divideByZero => .undefined .divideByZero
  | .error .outside => .undefined .outside
  | .ok repair =>
    if repair.fRepairBat || repair.fRepairFooter then
      if fDryRun then .returned (closeStatus fails repair.rc) true file
      else
        let (rc, file) := writeBack fails repair file
        .returned (closeStatus fails rc) true file
    else .returned (closeStatus fails repair.rc) false file

end VBox.Storage.Vhd
