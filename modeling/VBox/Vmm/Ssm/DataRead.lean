import VBox.Lib.Fallible
import VBox.Vmm.Ssm.Strm

/-!
Reading a data unit of a saved state: the records of the second format and the buffers they
are read into.

What each step asks to be written where, and what it subtracts, is kept beside the handle.
A buffer the stream has filled is the list of its bytes; who fills it, what a failed read leaves
in a buffer, the progress indicator and units of the first format are left out.
-/

namespace VBox.Vmm.Ssm

open VBox.Lib

/-! ### The stream -/

/-- What there is behind the last buffer. -/
inductive StrmEnd where
  | eof
  | cancelled
  | failed
deriving DecidableEq

/-- `SSMSTRM` for reading: the rest of the current buffer, and the buffers to come. -/
structure SsmInStrm where
  cur : List UInt8
  bufs : List (List UInt8)
  rcEnd : StrmEnd
  fChecksummed : Bool
  u32StreamCRC : UInt32

namespace SsmInStrm

/-- The bytes of a read, and what is left of the current buffer and of the others. -/
def copyBufs (cbToRead : Nat) (cur : List UInt8) :
    List (List UInt8) → List UInt8 × List UInt8 × List (List UInt8)
  | [] => (cur.take cbToRead, cur.drop cbToRead, [])
  | buf :: bufs =>
      if cbToRead ≤ cur.length then (cur.take cbToRead, cur.drop cbToRead, buf :: bufs)
      else
        let (bytes, rest) := copyBufs (cbToRead - cur.length) buf bufs
        (cur ++ bytes, rest)

/-- `ssmR3StrmRead`: fewer bytes than asked for are a failure. -/
def read (s : SsmInStrm) (cbToRead : Nat) : List UInt8 × SsmInStrm :=
  let (bytes, cur, bufs) := copyBufs cbToRead s.cur s.bufs
  (bytes, { s with cur, bufs, u32StreamCRC := crc32Process s.u32StreamCRC bytes })

/-- `ssmR3StrmReadDirect` -/
def readDirect (s : SsmInStrm) (cbToRead : Nat) : Option (List UInt8 × SsmInStrm) :=
  if 0 < cbToRead ∧ cbToRead ≤ s.cur.length then some (s.read cbToRead) else none

/-- `ssmR3StrmFinalCRC` -/
def finalCRC (s : SsmInStrm) : UInt32 := if s.fChecksummed then s.u32StreamCRC ^^^ 0xffffffff else 0

/-- The bytes to come. -/
def size (s : SsmInStrm) : Nat := s.cur.length + (s.bufs.map List.length).sum

end SsmInStrm

/-! ### The handle -/

inductive SsmRc where
  | success
  | cancelled
  | streamError
  | loadedTooMuch
  | integrityRecHdr
  | integrityRecTerm
  | integrityRecTermCrc
  | integrityDecompression
  | badRecType
deriving DecidableEq

/-- A call has failed, or the bound on the turns of its loop is used up. -/
inductive Stop where
  | failed (rc : SsmRc)
  | outOfFuel

/-- `sizeof(abDataBuffer)` and `sizeof(abComprBuffer)` -/
def cbData : Nat := 4096

/-- What is written to; the caller's buffer has the size of the call. -/
inductive Dest where
  | abDataBuffer
  | abComprBuffer
  | abHdr
  | termRec
  | cKB
  | pvBuf (cbBuf : Nat)

def Dest.size : Dest → Nat
  | .abDataBuffer => cbData
  | .abComprBuffer => cbData
  | .abHdr => 8
  | .termRec => 16
  | .cKB => 1
  | .pvBuf cbBuf => cbBuf

/-- A request to write, or a subtraction. -/
inductive Ask where
  | write (dest : Dest) (off cb : Nat)
  | sub (a b : Nat)

def Ask.Fits : Ask → Prop
  | .write dest off cb => off + cb ≤ dest.size
  | .sub a b => b ≤ a

/-- `SSMHANDLE` for reading, and what has been asked for since the unit began. -/
structure SsmRead where
  strm : SsmInStrm
  rc : SsmRc
  fDebugIt : Bool
  offUnit : Nat
  offUnitUser : Nat
  cbRecLeft : Nat
  cbDataBuffer : Nat
  offDataBuffer : Nat
  fEndOfData : Bool
  u8TypeAndFlags : UInt8
  abDataBuffer : Buf
  asked : List Ask

abbrev ReadM := Fallible SsmRead Stop

open Fallible (get modify fail)

def ask (a : Ask) : ReadM Unit := modify fun s => { s with asked := a :: s.asked }

/-- `AssertLogRelMsgReturn` -/
def check (c : Prop) [Decidable c] (rc : SsmRc) : ReadM Unit :=
  if c then pure () else fail (.failed rc)

/-- `return pSSM->rc = rc` -/
def noted {α : Type} : ReadM α → ReadM α :=
  Fallible.noting fun e s =>
    match e with
    | .failed rc => { s with rc }
    | .outOfFuel => s

/-- `cbRecLeft -= cb`, on 32 bits. -/
def recLess (cb : Nat) : ReadM Unit := modify fun s =>
  { s with
    cbRecLeft := (s.cbRecLeft + 2 ^ 32 - cb) % 2 ^ 32
    asked := .sub s.cbRecLeft cb :: s.asked }

/-- `offUnitUser += cb` -/
def userMore (cb : Nat) : ReadM Unit := modify fun s =>
  { s with offUnitUser := (s.offUnitUser + cb) % 2 ^ 64 }

/-- The data buffer is filled from its start. -/
def fill (bytes : List UInt8) : ReadM Unit := modify fun s =>
  { s with abDataBuffer := memcpy s.abDataBuffer 0 bytes }

def setData (cbDataBuffer offDataBuffer : Nat) : ReadM Unit := modify fun s =>
  { s with cbDataBuffer, offDataBuffer }

/-- `ssmR3DataReadBeginV2` -/
def dataReadBeginV2 (s : SsmRead) : SsmRead :=
  { s with
    offUnit := 0
    offUnitUser := 0
    cbRecLeft := 0
    cbDataBuffer := 0
    offDataBuffer := 0
    fEndOfData := false
    u8TypeAndFlags := 0
    asked := [] }

/-- What becomes of a stream that ends. -/
def endRc (s : SsmRead) : SsmRc :=
  match s.strm.rcEnd with
  | .cancelled => .cancelled
  | .eof => if s.fDebugIt then .streamError else .loadedTooMuch
  | .failed => .streamError

/-- `ssmR3DataReadV2Raw` -/
def dataReadV2Raw (dest : Dest) (off cbToRead : Nat) : ReadM (List UInt8) := do
  ask (.write dest off cbToRead)
  let s ← get
  let (bytes, strm) := s.strm.read cbToRead
  if bytes.length = cbToRead then
    modify fun s => { s with strm, offUnit := (s.offUnit + cbToRead) % 2 ^ 64 }
    pure bytes
  else
    modify fun s => { s with strm }
    fail (.failed (endRc s))

/-- `ssmR3DataReadV2RawLzfHdr` -/
def dataReadV2RawLzfHdr : ReadM Nat := do
  let s ← get
  noted (check (1 < s.cbRecLeft ∧ s.cbRecLeft ≤ cbData + 2) .integrityDecompression)
  let cKB ← noted (dataReadV2Raw .cKB 0 1)
  recLess 1
  let s ← get
  let cbDecompr := (cKB.getD 0 0).toNat * 1024
  noted (check (s.cbRecLeft ≤ cbDecompr ∧ cbDecompr ≤ cbData) .integrityDecompression)
  pure cbDecompr

section

variable (decompress : List UInt8 → Nat → Option (List UInt8))

/-- The compressed bytes, in the stream's buffer if they are all there. -/
def dataReadCompr (cbCompr : Nat) : ReadM (List UInt8) := do
  let s ← get
  match s.strm.readDirect cbCompr with
  | some (bytes, strm) =>
      modify fun s => { s with strm, offUnit := (s.offUnit + cbCompr) % 2 ^ 64 }
      pure bytes
  | none => noted (dataReadV2Raw .abComprBuffer 0 cbCompr)

/-- `ssmR3DataReadV2RawLzf`; `decompress` is `RTZipBlockDecompress`. -/
def dataReadV2RawLzf (dest : Dest) (off cbDecompr : Nat) : ReadM (List UInt8) := do
  let s ← get
  modify fun s => { s with cbRecLeft := 0 }
  let pb ← dataReadCompr s.cbRecLeft
  ask (.write dest off cbDecompr)
  let bytes := (decompress pb cbDecompr).getD []
  noted (check ((decompress pb cbDecompr).isSome ∧ bytes.length = cbDecompr) .integrityDecompression)
  pure bytes

/-- `ssmR3DataReadV2RawZeroHdr` -/
def dataReadV2RawZeroHdr : ReadM Nat := do
  let s ← get
  noted (check (s.cbRecLeft = 1) .integrityDecompression)
  let cKB ← noted (dataReadV2Raw .cKB 0 1)
  modify fun s => { s with cbRecLeft := 0 }
  let cbZero := (cKB.getD 0 0).toNat * 1024
  noted (check (cbZero ≤ cbData) .integrityDecompression)
  pure cbZero

/-- The rest of a termination record. -/
def dataReadTermRec (hdr : List UInt8) : ReadM Unit := do
  modify fun s => { s with cbRecLeft := 0, fEndOfData := true }
  check (hdr.getD 1 0 = 14) .integrityRecTerm
  check (hdr.getD 0 0 &&& 0x10 ≠ 0) .integrityRecTerm
  let s ← get
  let u32StreamCRC := s.strm.finalCRC.toNat
  let rec' ← dataReadV2Raw .termRec 2 14
  let fFlags := leNat 2 fun i => rec'.getD i 0
  let crc := leNat 4 fun i => rec'.getD (2 + i) 0
  let s ← get
  check (leNat 8 (fun i => rec'.getD (6 + i) 0) = s.offUnit) .integrityRecTerm
  check (fFlags ≤ 1) .integrityRecTerm
  check (fFlags = 1 ∨ crc = 0) .integrityRecTerm
  check (fFlags = 1 → s.strm.fChecksummed → crc = u32StreamCRC) .integrityRecTermCrc

/-- How many bytes the size takes, by the first of them. -/
def cbOfSize (b : Nat) : Option Nat :=
  if ¬ b.testBit 5 then some 2
  else if ¬ b.testBit 4 then some 3
  else if ¬ b.testBit 3 then some 4
  else if ¬ b.testBit 2 then some 5
  else if ¬ b.testBit 1 then some 6
  else none

/-- The sizes that `cb` bytes may stand for. -/
def sizeInRange (cb size : Nat) : Bool :=
  match cb with
  | 6 => 0x04000000 ≤ size ∧ size ≤ 0x7fffffff
  | 5 => 0x00200000 ≤ size ∧ size ≤ 0x03ffffff
  | 4 => 0x00010000 ≤ size ∧ size ≤ 0x001fffff
  | _ => true

/-- The size behind a first byte of more. -/
def dataReadSize (b : Nat) : ReadM Unit :=
  match cbOfSize b with
  | none => fail (.failed .integrityRecHdr)
  | some cb => do
      let rest ← dataReadV2Raw .abHdr 2 (cb - 1)
      check (rest.all (· &&& 0xc0 = 0x80)) .integrityRecHdr
      let size := rest.foldl (fun n byte => n * 64 + byte.toNat % 64) (b % 2 ^ (7 - cb))
      check (sizeInRange cb size) .integrityRecHdr
      modify fun s => { s with cbRecLeft := size }

/-- `ssmR3DataReadRecHdrV2` -/
def dataReadRecHdrV2 : ReadM Unit := do
  let s ← get
  check (s.fEndOfData = false) .loadedTooMuch
  let hdr ← dataReadV2Raw .abHdr 0 2
  let u8TypeAndFlags := hdr.getD 0 0
  modify fun s => { s with u8TypeAndFlags }
  check (u8TypeAndFlags &&& 0xe0 = 0x80 ∧ 0 < u8TypeAndFlags &&& 0x0f ∧
    u8TypeAndFlags &&& 0x0f ≤ 5) .integrityRecHdr
  let cb := (hdr.getD 1 0).toNat
  if u8TypeAndFlags &&& 0x0f = 1 then dataReadTermRec hdr
  else if cb < 128 then modify fun s => { s with cbRecLeft := cb }
  else dataReadSize cb

/-- What the loops of the two reads begin with: a record with data. -/
def dataReadRec : ReadM Unit := do
  let s ← get
  (if s.cbRecLeft = 0 then noted dataReadRecHdrV2 else pure ())
  let s ← get
  noted (check (s.fEndOfData = false) .loadedTooMuch)

/-- Copy out what the data buffer holds; only the buffered read counts it. -/
def copyOut (cbBuf : Nat) (counts : Bool) : ReadM (List UInt8) := do
  let s ← get
  ask (.sub s.cbDataBuffer s.offDataBuffer)
  let cbToCopy := s.cbDataBuffer - s.offDataBuffer
  if 0 < cbToCopy then
    ask (.write (.pvBuf cbBuf) 0 cbToCopy)
    ask (.sub cbBuf cbToCopy)
    userMore (if counts then cbToCopy else 0)
    setData 0 0
    pure (bytesAt s.abDataBuffer s.offDataBuffer cbToCopy)
  else pure []

/-- Zeros that the caller's buffer has no room for. -/
def spill (cbToRead cbBuf : Nat) : ReadM Unit := do
  ask (.sub cbToRead cbBuf)
  ask (.write .abDataBuffer 0 (cbToRead - cbBuf))
  fill (List.replicate (cbToRead - cbBuf) 0)
  setData (cbToRead - cbBuf) 0

/-- A turn of the loop of `ssmR3DataReadUnbufferedV2`, with `off` bytes in the buffer. -/
def unbufferedRec (cbOrg off : Nat) : ReadM (List UInt8) := do
  let cbBuf := cbOrg - off
  let s ← get
  match (s.u8TypeAndFlags &&& 0x0f).toNat with
  | 2 =>
      let cbToRead := min cbBuf s.cbRecLeft
      let bytes ← noted (dataReadV2Raw (.pvBuf cbOrg) off cbToRead)
      recLess cbToRead
      pure bytes
  | 3 =>
      let cbToRead ← dataReadV2RawLzfHdr
      if cbToRead ≤ cbBuf then dataReadV2RawLzf decompress (.pvBuf cbOrg) off cbToRead
      else
        let bytes ← dataReadV2RawLzf decompress .abDataBuffer 0 cbToRead
        fill bytes
        setData cbToRead cbBuf
        ask (.write (.pvBuf cbOrg) off cbBuf)
        pure (bytes.take cbBuf)
  | 4 =>
      let cbToRead ← dataReadV2RawZeroHdr
      (if cbBuf < cbToRead then spill cbToRead cbBuf else pure ())
      ask (.write (.pvBuf cbOrg) off (min cbBuf cbToRead))
      pure (List.replicate (min cbBuf cbToRead) 0)
  | _ => noted (fail (.failed .badRecType))

/-- The record of a turn of the other loop is read into the data buffer. -/
def bufferedFill : ReadM (List UInt8) := do
  let s ← get
  match (s.u8TypeAndFlags &&& 0x0f).toNat with
  | 2 =>
      let cbToRead := min cbData s.cbRecLeft
      let bytes ← noted (dataReadV2Raw .abDataBuffer 0 cbToRead)
      recLess cbToRead
      pure bytes
  | 3 =>
      let cbToRead ← dataReadV2RawLzfHdr
      dataReadV2RawLzf decompress .abDataBuffer 0 cbToRead
  | 4 =>
      let cbToRead ← dataReadV2RawZeroHdr
      ask (.write .abDataBuffer 0 cbToRead)
      pure (List.replicate cbToRead 0)
  | _ => noted (fail (.failed .badRecType))

/-- A turn of the loop of `ssmR3DataReadBufferedV2`. -/
def bufferedRec (cbOrg off : Nat) : ReadM (List UInt8) := do
  let bytes ← bufferedFill decompress
  fill bytes
  let cbToCopy := min (cbOrg - off) bytes.length
  setData bytes.length cbToCopy
  ask (.write (.pvBuf cbOrg) off cbToCopy)
  pure (bytes.take cbToCopy)

/-- Read records until the caller's buffer is full. -/
def dataReadLoop (turn : Nat → ReadM (List UInt8)) (cbOrg : Nat) :
    Nat → List UInt8 → ReadM (List UInt8)
  | 0, _ => fail .outOfFuel
  | fuel + 1, out => do
      dataReadRec
      let bytes ← turn out.length
      ask (.sub (cbOrg - out.length) bytes.length)
      userMore bytes.length
      if out.length + bytes.length < cbOrg then dataReadLoop turn cbOrg fuel (out ++ bytes)
      else pure (out ++ bytes)

/-- `ssmR3DataReadUnbufferedV2` -/
def dataReadUnbufferedV2 (fuel cbBuf : Nat) : ReadM (List UInt8) := do
  let bytes ← copyOut cbBuf false
  dataReadLoop (unbufferedRec decompress cbBuf) cbBuf fuel bytes

/-- `ssmR3DataReadBufferedV2` -/
def dataReadBufferedV2 (fuel cbBuf : Nat) : ReadM (List UInt8) := do
  let bytes ← copyOut cbBuf true
  dataReadLoop (bufferedRec decompress cbBuf) cbBuf fuel bytes

/-- `ssmR3DataRead`: the bytes it hands out. -/
def dataRead (fuel cbBuf : Nat) : ReadM (List UInt8) := do
  let s ← get
  if s.rc ≠ .success then fail (.failed s.rc)
  else if s.cbDataBuffer < (s.offDataBuffer + cbBuf) % 2 ^ 64 ∨ cbData < cbBuf then
    if cbBuf ≤ cbData / 8 then dataReadBufferedV2 decompress fuel cbBuf
    else dataReadUnbufferedV2 decompress fuel cbBuf
  else
    ask (.write (.pvBuf cbBuf) 0 cbBuf)
    setData s.cbDataBuffer (s.offDataBuffer + cbBuf)
    userMore cbBuf
    pure (bytesAt s.abDataBuffer s.offDataBuffer cbBuf)

/-- Calls in a row, each with as many turns as there are bytes to come, and one more. -/
def dataReads : List Nat → SsmRead → SsmRead
  | [], s => s
  | cbBuf :: rest, s => dataReads rest (dataRead decompress (s.strm.size + 1) cbBuf s).1

end

end VBox.Vmm.Ssm
