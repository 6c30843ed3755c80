import VBox.Storage.Basic
import Mathlib.Logic.Function.Basic

/-!
The SCSI interface for the BIOS: the command register is fed byte by byte, the data register
moves a buffer, and the owning device turns a complete command into a request.

Beside the registers the model keeps the heap, the requests in flight and a log. Every access the
C code makes through an index, a pointer or a counter that could go wrong leaves an entry in the
log with what decides whether it did.
-/

namespace VBox.Devices.Scsi

open VBox.Storage (u32)

/-- `VBOXSCSISTATE`. -/
inductive ScsiState where
  | noCommand
  | readTxdir
  | readCdbSizeBufhi
  | readBufferSizeLsb
  | readBufferSizeMid
  | readCommand
  | commandReady
  deriving DecidableEq, Repr

def VBOXSCSI_TXDIR_FROM_DEVICE : Nat := 0
def VBOXSCSI_TXDIR_TO_DEVICE : Nat := 1
def VBOXSCSI_CDB_SIZE_MAX : Nat := 10

/-- `sizeof(abCDB)`. -/
def sizeofCdb : Nat := 12

/-- `VBOXSCSI`. The buffer is named by its allocation. -/
structure VBoxScsi where
  regIdentify : Nat
  uTargetDevice : Nat
  uTxDir : Nat
  cbCDB : Nat
  abCDB : List Nat
  iCDB : Nat
  pbBuf : Option Nat
  cbBuf : Nat
  iBuf : Nat
  rcCompletion : Int
  fBusy : Bool
  enmState : ScsiState
  deriving DecidableEq, Repr

/-- The part of `PDMSCSIREQUEST` that `vboxscsiSetupRequest` fills in. -/
structure Request where
  cbCDB : Nat
  uTargetDevice : Nat
  cbSeg : Nat
  pvSeg : Option Nat
  deriving DecidableEq, Repr

/-- An access that can go wrong, with what decides whether it did. -/
inductive Access where
  /-- A byte written to `abCDB`. -/
  | cdb (iCDB : Nat)
  /-- Bytes of the buffer read or written; its size, if it is allocated. -/
  | buffer (size : Option Nat) (off len : Nat)
  /-- A buffer freed: whether it was allocated, and whether a request in flight points to it. -/
  | free (allocated referenced : Bool)
  /-- A 32-bit counter increased. -/
  | increase (counter n : Nat)
  /-- A 32-bit counter decreased. -/
  | decrease (counter n : Nat)
  deriving DecidableEq, Repr

/-- The access stays inside what it accesses. -/
def Access.Safe : Access → Prop
  | .cdb iCDB => iCDB < sizeofCdb
  | .buffer size off len => len = 0 ∨ off + len ≤ size.getD 0
  | .free allocated referenced => allocated = true ∧ referenced = false
  | .increase counter n => counter + n < 2 ^ 32
  | .decrease counter n => n ≤ counter

instance (access : Access) : Decidable access.Safe := by
  cases access <;> unfold Access.Safe <;> infer_instance

/-- The interface with its surroundings: the heap, the answers `VERR_MORE_DATA` for which the
device has not yet set up a request, the requests in flight, and the log. -/
structure Device where
  scsi : VBoxScsi
  heap : Nat → Option (List UInt8)
  cAllocs : Nat
  cMoreData : Nat
  inFlight : List Request
  log : List Access

namespace Device

/-- The size of the buffer a pointer points to. -/
def sizeOf (d : Device) (pb : Option Nat) : Option Nat :=
  pb.bind fun block => (d.heap block).map List.length

/-- Whether a request in flight points to the buffer. -/
def referenced (d : Device) (pb : Option Nat) : Bool :=
  d.inFlight.any fun request => request.pvSeg == pb

def record (d : Device) (access : Access) : Device := { d with log := access :: d.log }

/-- `RTMemFree`. -/
def memFree (d : Device) (pb : Option Nat) : Device :=
  match pb with
  | none => d
  | some block =>
    { d with
      heap := Function.update d.heap block none
      log := .free (d.heap block).isSome (d.referenced (some block)) :: d.log }

/-- `RTMemAllocZ` for the buffer. -/
def memAllocZ (d : Device) (success : Bool) (cb : Nat) : Device :=
  if success then
    { d with
      scsi := { d.scsi with pbBuf := some d.cAllocs }
      heap := Function.update d.heap d.cAllocs (some (List.replicate cb 0))
      cAllocs := d.cAllocs + 1 }
  else { d with scsi := { d.scsi with pbBuf := none } }

/-- Store bytes into a buffer. -/
def store (d : Device) (pb : Option Nat) (off : Nat) (bytes : List UInt8) : Device :=
  match pb with
  | none => d
  | some block =>
    { d with
      heap := Function.update d.heap block ((d.heap block).map fun old =>
        (List.range old.length).map fun i =>
          if off ≤ i then (bytes[i - off]?).getD (old.getD i 0) else old.getD i 0) }

/-- Return `VERR_MORE_DATA` with the busy flag set. -/
def moreData (d : Device) : Device :=
  { d with scsi := { d.scsi with fBusy := true }, cMoreData := d.cMoreData + 1 }

/-- `vboxscsiReset`; the transfer direction stays. -/
def vboxscsiReset (d : Device) : Device :=
  let d := d.memFree d.scsi.pbBuf
  { d with
    scsi := { d.scsi with
      regIdentify := 0
      cbCDB := 0
      abCDB := List.replicate sizeofCdb 0
      iCDB := 0
      fBusy := false
      rcCompletion := 0
      uTargetDevice := 0
      cbBuf := 0
      iBuf := 0
      pbBuf := none
      enmState := .noCommand } }

/-- `vboxscsiInitialize`, on an interface that holds anything. -/
def vboxscsiInitialize (scsi : VBoxScsi) : Device :=
  vboxscsiReset
    { scsi := { scsi with pbBuf := none }
      heap := fun _ => none
      cAllocs := 0
      cMoreData := 0
      inFlight := []
      log := [] }

/-- The last byte of a transfer is through: free the buffer and forget the command. -/
def endTransfer (d : Device) : Device :=
  let d := d.memFree d.scsi.pbBuf
  { d with
    scsi := { d.scsi with
      pbBuf := none
      cbCDB := 0
      iCDB := 0
      iBuf := 0
      uTargetDevice := 0
      enmState := .noCommand
      abCDB := List.replicate sizeofCdb 0 } }

/-- Move the position in the buffer by `n` bytes. -/
def advance (d : Device) (n : Nat) : Device :=
  { d with
    scsi := { d.scsi with
      iBuf := u32 (d.scsi.iBuf + n)
      cbBuf := VBox.Storage.u32Sub d.scsi.cbBuf n }
    log := .decrease d.scsi.cbBuf n :: .increase d.scsi.iBuf n :: d.log }

/-- Register 1 read: a byte of the buffer. -/
def readData (d : Device) : Device :=
  if d.scsi.enmState = .commandReady ∧ 0 < d.scsi.cbBuf then
    let d := (d.record (.buffer (d.sizeOf d.scsi.pbBuf) d.scsi.iBuf 1)).advance 1
    if d.scsi.cbBuf = 0 then
      let d := d.endTransfer
      { d with scsi := { d.scsi with rcCompletion := 0 } }
    else d
  else d

/-- `vboxscsiReadRegister`: only register 1 changes anything. -/
def vboxscsiReadRegister (d : Device) (iRegister : UInt8) : Device :=
  if iRegister = 1 then d.readData else d

/-- The value `vboxscsiReadRegister` returns. -/
def readValue (d : Device) (iRegister : UInt8) : Int :=
  if iRegister = 0 then
    (if d.scsi.fBusy then 1 else 0) + if d.scsi.rcCompletion ≠ 0 then 2 else 0
  else if iRegister = 1 then
    if d.scsi.enmState = .commandReady ∧ 0 < d.scsi.cbBuf then
      (((d.scsi.pbBuf.bind d.heap).getD []).getD d.scsi.iBuf 0).toNat
    else 0
  else if iRegister = 2 then d.scsi.regIdentify
  else if iRegister = 3 then d.scsi.rcCompletion % 256
  else 0

/-- A byte of the command descriptor block; the last one makes the command ready. -/
def writeCdb (d : Device) (uVal : UInt8) (fAlloc : Bool) : Device :=
  let d := { d with
    scsi := { d.scsi with
      abCDB := d.scsi.abCDB.set d.scsi.iCDB uVal.toNat
      iCDB := (d.scsi.iCDB + 1) % 256 }
    log := .cdb d.scsi.iCDB :: d.log }
  if d.scsi.iCDB = d.scsi.cbCDB then
    let d := { d with scsi := { d.scsi with enmState := .commandReady } }
    if d.scsi.uTxDir = VBOXSCSI_TXDIR_TO_DEVICE then d.memAllocZ fAlloc d.scsi.cbBuf
    else d.moreData
  else d

/-- Register 0 written: the next byte of a command. -/
def writeCommand (d : Device) (uVal : UInt8) (fAlloc : Bool) : Device :=
  match d.scsi.enmState with
  | .noCommand =>
    { d with scsi := { d.scsi with enmState := .readTxdir, uTargetDevice := uVal.toNat } }
  | .readTxdir =>
    if uVal.toNat ≠ VBOXSCSI_TXDIR_FROM_DEVICE ∧ uVal.toNat ≠ VBOXSCSI_TXDIR_TO_DEVICE then
      d.vboxscsiReset
    else { d with scsi := { d.scsi with enmState := .readCdbSizeBufhi, uTxDir := uVal.toNat } }
  | .readCdbSizeBufhi =>
    if VBOXSCSI_CDB_SIZE_MAX < uVal.toNat &&& 0x0f then d.vboxscsiReset
    else
      { d with
        scsi := { d.scsi with
          enmState := .readBufferSizeLsb
          cbCDB := uVal.toNat &&& 0x0f
          cbBuf := (uVal.toNat &&& 0xf0) <<< 12 } }
  | .readBufferSizeLsb =>
    { d with
      scsi := { d.scsi with
        enmState := .readBufferSizeMid, cbBuf := d.scsi.cbBuf ||| uVal.toNat } }
  | .readBufferSizeMid =>
    { d with
      scsi := { d.scsi with
        enmState := .readCommand, cbBuf := d.scsi.cbBuf ||| uVal.toNat <<< 8 } }
  | .readCommand => d.writeCdb uVal fAlloc
  | .commandReady => d

/-- Register 1 written: a byte of the buffer, or a reset if no data is expected. -/
def writeData (d : Device) (uVal : UInt8) : Device :=
  if d.scsi.enmState ≠ .commandReady ∨ d.scsi.uTxDir ≠ VBOXSCSI_TXDIR_TO_DEVICE then
    d.vboxscsiReset
  else
    let d := (d.record (.buffer (d.sizeOf d.scsi.pbBuf) d.scsi.iBuf 1)).store
      d.scsi.pbBuf d.scsi.iBuf [uVal]
    let d := { d with
      scsi := { d.scsi with iBuf := u32 (d.scsi.iBuf + 1) }
      log := .increase d.scsi.iBuf 1 :: d.log }
    if d.scsi.iBuf = d.scsi.cbBuf then d.moreData else d

/-- `vboxscsiWriteRegister`. -/
def vboxscsiWriteRegister (d : Device) (iRegister uVal : UInt8) (fAlloc : Bool) : Device :=
  if iRegister = 0 then d.writeCommand uVal fAlloc
  else if iRegister = 1 then d.writeData uVal
  else if iRegister = 2 then { d with scsi := { d.scsi with regIdentify := uVal.toNat } }
  else if iRegister = 3 then d.vboxscsiReset
  else d

/-- The bytes a string instruction transfers, cut to what the buffer has left. -/
def cbTransfer (d : Device) (cTransfer : UInt64) (cb : UInt32) : Nat :=
  min (u32 (cTransfer.toNat * cb.toNat)) d.scsi.cbBuf

/-- `vboxscsiReadString`. -/
def vboxscsiReadString (d : Device) (cTransfer : UInt64) (cb : UInt32) : Device :=
  if d.scsi.pbBuf = none then d
  else
    let n := d.cbTransfer cTransfer cb
    let d := (d.record (.buffer (d.sizeOf d.scsi.pbBuf) d.scsi.iBuf n)).advance n
    if d.scsi.cbBuf = 0 then d.endTransfer else d

/-- `vboxscsiWriteString`. -/
def vboxscsiWriteString (d : Device) (cTransfer : UInt64) (cb : UInt32) (abSrc : List UInt8) :
    Device :=
  if d.scsi.pbBuf = none then d
  else
    let n := d.cbTransfer cTransfer cb
    let d := (d.record (.buffer (d.sizeOf d.scsi.pbBuf) d.scsi.iBuf n)).store
      d.scsi.pbBuf d.scsi.iBuf (abSrc.take n)
    (d.advance n).moreData

/-- The end of `vboxscsiSetupRequest`: with a scatter/gather element the request goes out, and
the device may access its whole segment. -/
def sendRequest (d : Device) (fAllocSg : Bool) : Device :=
  if fAllocSg then
    { d with
      inFlight := d.inFlight ++ [{ cbCDB := d.scsi.cbCDB, uTargetDevice := d.scsi.uTargetDevice,
                                   cbSeg := d.scsi.cbBuf, pvSeg := d.scsi.pbBuf }]
      log := .buffer (d.sizeOf d.scsi.pbBuf) 0 d.scsi.cbBuf :: d.log }
  else
    let d := d.memFree d.scsi.pbBuf
    { d with scsi := { d.scsi with pbBuf := none } }

/-- `vboxscsiSetupRequest`. -/
def vboxscsiSetupRequest (d : Device) (fAllocBuf fAllocSg : Bool) : Device :=
  let d := { d with scsi := { d.scsi with rcCompletion := 0 }, cMoreData := d.cMoreData - 1 }
  if d.scsi.uTxDir = VBOXSCSI_TXDIR_FROM_DEVICE then
    let d := (d.memFree d.scsi.pbBuf).memAllocZ fAllocBuf d.scsi.cbBuf
    if d.scsi.pbBuf = none then d else d.sendRequest fAllocSg
  else d.sendRequest fAllocSg

/-- `vboxscsiRequestFinished` for the request at position `i`, into whose segment the device has
put `abData`. -/
def vboxscsiRequestFinished (d : Device) (i : Nat) (rcCompletion : Int) (abData : List UInt8) :
    Device :=
  match d.inFlight[i]? with
  | none => d
  | some request =>
    let d := d.store request.pvSeg 0 (abData.take request.cbSeg)
    let d := { d with inFlight := d.inFlight.eraseIdx i }
    let d :=
      if d.scsi.uTxDir = VBOXSCSI_TXDIR_TO_DEVICE then
        let d := d.endTransfer
        { d with scsi := { d.scsi with cbBuf := 0 } }
      else d
    { d with scsi := { d.scsi with rcCompletion, fBusy := false } }

end Device

/-- What the guest and the owning device do with the interface. -/
inductive Op where
  | readRegister (iRegister : UInt8)
  | writeRegister (iRegister uVal : UInt8) (fAlloc : Bool)
  | readString (cTransfer : UInt64) (cb : UInt32)
  | writeString (cTransfer : UInt64) (cb : UInt32) (abSrc : List UInt8)
  | setupRequest (fAllocBuf fAllocSg : Bool)
  | requestFinished (i : Nat) (rcCompletion : Int) (abData : List UInt8)

/-- The device sets up a request for a `VERR_MORE_DATA` it has got, and finishes one that is in
flight; the guest does anything at any time. -/
def step (d : Device) : Op → Option Device
  | .readRegister iRegister => some (d.vboxscsiReadRegister iRegister)
  | .writeRegister iRegister uVal fAlloc => some (d.vboxscsiWriteRegister iRegister uVal fAlloc)
  | .readString cTransfer cb => some (d.vboxscsiReadString cTransfer cb)
  | .writeString cTransfer cb abSrc => some (d.vboxscsiWriteString cTransfer cb abSrc)
  | .setupRequest fAllocBuf fAllocSg =>
    if 0 < d.cMoreData then some (d.vboxscsiSetupRequest fAllocBuf fAllocSg) else none
  | .requestFinished i rcCompletion abData =>
    if i < d.inFlight.length then some (d.vboxscsiRequestFinished i rcCompletion abData) else none

end VBox.Devices.Scsi
