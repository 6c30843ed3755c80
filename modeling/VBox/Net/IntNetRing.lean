import VBox.Lib.Codec

/-!
The ring buffer of the internal network, with one reader and serialized writers.

Offsets are those from the ring buffer structure. A step of the reader or a writer is one
access to `offReadX`, `offWriteInt` or `offWriteCom`; what it does to the frames between two
of them belongs to the first. Statistics are left out.
-/

namespace VBox.Net

open VBox.Lib

/-- `a - b` on `uint32_t`. -/
def sub32 (a b : Nat) : Nat := (a + 2 ^ 32 - b) % 2 ^ 32

/-- `RT_ALIGN_32` to `INTNETHDR_ALIGNMENT`. -/
def align32 (x : Nat) : Nat := (x + 7) % 2 ^ 32 / 8 * 8

/-- Put `n` bytes into memory. -/
def put (mem : Buf) (off n : Nat) (data : Buf) : Buf :=
  fun i => if off ≤ i ∧ i < off + n then data (i - off) else mem i

/-- `n` bytes of memory. -/
def get (mem : Buf) (off n : Nat) : List UInt8 := List.ofFn fun i : Fin n => mem (off + i)

/-! ### Frame headers -/

/-- `INTNETHDR`: 24 bits, 8 bits, and a signed offset of 32 bits. -/
structure IntNetHdr where
  u8Type : Nat
  cbFrame : Nat
  offFrame : Nat
  deriving DecidableEq

/-- `sizeof(INTNETHDR)`, which is `INTNETHDR_ALIGNMENT` too. -/
def cbHdr : Nat := 8

/-- `sizeof(PDMNETWORKGSO)` -/
def cbGso : Nat := 8

def typeFrame : Nat := 0x42
def typePadding : Nat := 0x53
def typeGso : Nat := 0x64

def IntNetHdr.bytes (h : IntNetHdr) : Buf := fun i =>
  if i < 4 then leByte (h.cbFrame % 2 ^ 24 + h.u8Type * 2 ^ 24) i else leByte h.offFrame (i - 4)

def hdrAt (mem : Buf) (off : Nat) : IntNetHdr :=
  ⟨leNat 4 (mem.drop off) / 2 ^ 24, leNat 4 (mem.drop off) % 2 ^ 24, leNat 4 (mem.drop (off + 4))⟩

def putHdr (mem : Buf) (off : Nat) (h : IntNetHdr) : Buf := put mem off cbHdr h.bytes

/-! ### The ring -/

/-- `INTNETRINGBUF` and the memory behind it. -/
structure IntNetRingBuf where
  offStart : Nat
  offEnd : Nat
  offReadX : Nat
  offWriteInt : Nat
  offWriteCom : Nat
  mem : Buf

/-- A frame as its writer commits it and its reader gets it. -/
structure Frame where
  u8Type : Nat
  bytes : List UInt8
  deriving DecidableEq

/-- `IntNetHdrGetFramePtr` -/
def framePtr (mem : Buf) (off : Nat) : Nat := (off + (hdrAt mem off).offFrame) % 2 ^ 32

/-- The first `cb` bytes of the frame with its header at `off`. -/
def frameAt (mem : Buf) (off cb : Nat) : Frame :=
  ⟨(hdrAt mem off).u8Type, get mem (framePtr mem off) cb⟩

namespace IntNetRingBuf

variable (r : IntNetRingBuf)

/-- Where an offset goes on that may have reached the end. -/
def wrap (off : Nat) : Nat := if r.offEnd ≤ off then r.offStart else off

/-- Where a frame of `cb` bytes fits: the new `offWriteInt`, and the frame's `offFrame`. -/
def fit (cb offWriteInt offRead : Nat) : Option (Nat × Nat) :=
  if offRead ≤ offWriteInt then
    if cb + cbHdr ≤ sub32 r.offEnd offWriteInt then
      some (r.wrap ((offWriteInt + cb + cbHdr) % 2 ^ 32), cbHdr)
    else if cb < sub32 offRead r.offStart then
      some ((r.offStart + cb) % 2 ^ 32, sub32 r.offStart offWriteInt)
    else none
  else if cb + cbHdr < sub32 offRead offWriteInt then
    some ((offWriteInt + cb + cbHdr) % 2 ^ 32, cbHdr)
  else none

/-- `intnetRingAllocateFrameInternal` from its compare and swap on. Where it lets the frame
in, it returns the ring and the offset of the header. -/
def allocateFrameInternal (u8Type cbFrame offWriteInt offRead : Nat) :
    Option (IntNetRingBuf × Nat) :=
  match r.fit (align32 cbFrame) offWriteInt offRead with
  | some (offNew, offFrame) =>
      if r.offWriteInt = offWriteInt then
        some ({ r with
          offWriteInt := offNew
          mem := putHdr r.mem offWriteInt ⟨u8Type, cbFrame, offFrame⟩ }, offWriteInt)
      else none
  | none => none

/-- `IntNetRingSkipFrame`, up to the new `offReadX`. -/
def skipFrame : Nat :=
  let hdr := hdrAt r.mem r.offReadX
  r.wrap (align32 (r.offReadX + hdr.offFrame + hdr.cbFrame))

/-- `IntNetRingCommitFrame`, up to the new `offWriteCom`. -/
def commitFrame (pHdr : Nat) : Nat :=
  r.wrap ((framePtr r.mem pHdr + align32 (hdrAt r.mem pHdr).cbFrame) % 2 ^ 32)

/-- What `IntNetRingCommitFrameEx` takes for used. -/
def used (pHdr cbUsed : Nat) : Nat :=
  if (hdrAt r.mem pHdr).u8Type = typeGso then cbUsed + cbGso else cbUsed

/-- `IntNetRingCommitFrameEx`, up to the new `offWriteCom`: the memory it leaves. -/
def commitFrameEx (pHdr cbUsed : Nat) : Buf :=
  let hdr := hdrAt r.mem pHdr
  let cbUsed := r.used pHdr cbUsed
  let cbAlignedFrame := align32 hdr.cbFrame
  let cbAlignedUsed := align32 cbUsed
  if cbAlignedFrame ≠ cbAlignedUsed then
    let padded := putHdr r.mem ((framePtr r.mem pHdr + cbAlignedUsed) % 2 ^ 32)
      ⟨typePadding, sub32 (sub32 cbAlignedFrame cbAlignedUsed) cbHdr, cbHdr⟩
    putHdr padded pHdr { hdr with cbFrame := cbUsed }
  else r.mem

end IntNetRingBuf

/-! ### Reader and writers -/

/-- What a writer asks for. -/
inductive RingRequest where
  | allocateFrame (cbFrame : Nat)
  | allocateGsoFrame (cbFrame : Nat) (pGso : Buf)
  | writeFrame (pvFrame : Buf) (cbFrame : Nat)

def RingRequest.u8Type : RingRequest → Nat
  | .allocateGsoFrame _ _ => typeGso
  | _ => typeFrame

/-- The size that is allocated. -/
def RingRequest.cbFrame : RingRequest → Nat
  | .allocateFrame cbFrame => cbFrame
  | .allocateGsoFrame cbFrame _ => (cbFrame + cbGso) % 2 ^ 32
  | .writeFrame _ cbFrame => cbFrame

/-- What is copied to the start of the frame when it is allocated. -/
def RingRequest.copied : RingRequest → Nat × Buf
  | .allocateFrame _ => (0, fun _ => 0)
  | .allocateGsoFrame _ pGso => (cbGso, pGso)
  | .writeFrame pvFrame cbFrame => (cbFrame, pvFrame)

inductive WriterPc where
  | idle
  | readRead (request : RingRequest) (offWriteInt : Nat)
  | swap (request : RingRequest) (offWriteInt offRead : Nat)
  /-- `IntNetRingWriteFrame` is about to set `offWriteCom`. -/
  | publish (offNew : Nat) (frame : Frame)

inductive ReaderPc where
  | idle
  /-- There is a frame to read. -/
  | found
  /-- The frame is read, and `offReadX` is about to be set. -/
  | skip (offReadNew : Nat)
  deriving DecidableEq

/-- The ring and who uses it. `allocated` are the headers of the frames that are not
committed yet; `committed` and `delivered` keep what was committed and read so far, except
for padding. -/
structure RingMachine where
  ring : IntNetRingBuf
  writer : WriterPc
  reader : ReaderPc
  allocated : List Nat
  committed : List Frame
  delivered : List Frame

inductive RingLabel where
  | request (request : RingRequest)
  | writer
  /-- The owner of an allocated frame writes to it. -/
  | fill (k off n : Nat) (data : Buf)
  | commit
  | commitEx (cbUsed : Nat)
  | reader

namespace RingMachine

variable (m : RingMachine)

def writerStep : Option RingMachine :=
  match m.writer with
  | .idle => none
  | .readRead request offWriteInt =>
      some { m with writer := .swap request offWriteInt m.ring.offReadX }
  | .swap request offWriteInt offRead =>
      match m.ring.allocateFrameInternal request.u8Type request.cbFrame offWriteInt offRead with
      | none => some { m with writer := .idle }
      | some (ring, pHdr) =>
          let mem := put ring.mem (framePtr ring.mem pHdr) request.copied.1 request.copied.2
          some { m with
            ring := { ring with mem := mem }
            allocated := m.allocated ++ [pHdr]
            writer := match request with
              | .writeFrame pvFrame cbFrame =>
                  .publish ring.offWriteInt ⟨typeFrame, get pvFrame 0 cbFrame⟩
              | _ => .idle }
  | .publish offNew frame =>
      some { m with
        ring := { m.ring with offWriteCom := offNew }
        writer := .idle
        allocated := m.allocated.tail
        committed := m.committed ++ [frame] }

def readerStep : RingMachine :=
  match m.reader with
  | .idle =>
      if m.ring.offReadX = m.ring.offWriteCom then m else { m with reader := .found }
  | .found =>
      let frame := frameAt m.ring.mem m.ring.offReadX (hdrAt m.ring.mem m.ring.offReadX).cbFrame
      { m with
        reader := .skip m.ring.skipFrame
        delivered :=
          if frame.u8Type = typePadding then m.delivered else m.delivered ++ [frame] }
  | .skip offReadNew =>
      { m with ring := { m.ring with offReadX := offReadNew }, reader := .idle }

/-- `IntNetRingWriteFrame` commits what it allocates, so that nothing else may wait for its
commit. -/
def MayRequest : RingRequest → Prop
  | .writeFrame _ _ => m.allocated = []
  | _ => True

instance : DecidablePred m.MayRequest
  | .writeFrame _ _ => inferInstanceAs (Decidable (_ = _))
  | .allocateFrame _ => inferInstanceAs (Decidable True)
  | .allocateGsoFrame _ _ => inferInstanceAs (Decidable True)

/-- The writers are serialized: calls start where none is on its way, and frames are
committed in the order they were allocated in. -/
def idleStep : RingLabel → Option RingMachine
  | .request request =>
      if m.MayRequest request then some { m with writer := .readRead request m.ring.offWriteInt }
      else none
  | .fill k off n data =>
      match m.allocated[k]? with
      | none => none
      | some pHdr =>
          if off + n ≤ (hdrAt m.ring.mem pHdr).cbFrame then
            some { m with ring := { m.ring with
              mem := put m.ring.mem (framePtr m.ring.mem pHdr + off) n data } }
          else none
  | .commit =>
      match m.allocated with
      | [] => none
      | pHdr :: rest =>
          some { m with
            ring := { m.ring with offWriteCom := m.ring.commitFrame pHdr }
            allocated := rest
            committed := m.committed ++
              [frameAt m.ring.mem pHdr (hdrAt m.ring.mem pHdr).cbFrame] }
  | .commitEx cbUsed =>
      match m.allocated with
      | [] => none
      | pHdr :: rest =>
          if m.ring.used pHdr cbUsed ≤ (hdrAt m.ring.mem pHdr).cbFrame then
            some { m with
              ring := { m.ring with
                offWriteCom := m.ring.commitFrame pHdr
                mem := m.ring.commitFrameEx pHdr cbUsed }
              allocated := rest
              committed := m.committed ++ [frameAt m.ring.mem pHdr (m.ring.used pHdr cbUsed)] }
          else none
  | .writer | .reader => none

def step : RingLabel → Option RingMachine
  | .reader => some m.readerStep
  | .writer => m.writerStep
  | label =>
      match m.writer with
      | .idle => m.idleStep label
      | _ => none

end RingMachine

def RingStep (m : RingMachine) (label : RingLabel) (m' : RingMachine) : Prop :=
  m.step label = some m'

/-- A ring between two offsets, as `IntNetBufInit` leaves it, with anything in its memory. -/
def RingMachine.init (offStart offEnd : Nat) (mem : Buf) : RingMachine :=
  ⟨⟨offStart, offEnd, offStart, offStart, offStart, mem⟩, .idle, .idle, [], [], []⟩

end VBox.Net
