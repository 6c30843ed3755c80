import VBox.Lib.Codec
import VBox.Lib.Splice

/-!
Scatter/gather buffers (`Runtime/common/misc/sg.cpp`).

A `RtSgBuf` is a list of segments with a cursor: the index of the current
segment, a pointer into it and the number of bytes left of it. `sgBufGet` hands
out the next chunk and moves the cursor; the transfer functions loop over it.
-/

namespace VBox.Runtime

open VBox.Lib

/-! ### The buffer -/

/-- A pointer into a segment. -/
structure SegPtr where
  seg : Nat
  off : Nat
  deriving DecidableEq, Repr

/-- `RTSGBUF`, with the bytes of the segments. -/
structure RtSgBuf where
  paSegs : List (List UInt8)
  idxSeg : Nat
  pvSegCur : SegPtr
  cbSegLeft : Nat
  deriving DecidableEq, Repr

/-- `RTSgBufInit`. -/
def rtSgBufInit (paSegs : List (List UInt8)) : RtSgBuf :=
  ⟨paSegs, 0, ⟨0, 0⟩, (paSegs[0]?.map List.length).getD 0⟩

/-- The bound `sgBufGet` asserts on a piece. -/
def cbSegMax : Nat := 32 * 2 ^ 20

/-- The release assertion of `sgBufGet`. -/
def sgAssert (sg : RtSgBuf) : Bool :=
  match sg.paSegs[sg.idxSeg]? with
  | none => false
  | some seg =>
      sg.cbSegLeft ≤ cbSegMax && sg.pvSegCur.seg == sg.idxSeg &&
        decide (sg.pvSegCur.off + sg.cbSegLeft ≤ seg.length)

/-- `sgBufGet`: the pointer, `*pcbData` and the moved cursor; `none` where the
assertion fails. -/
def sgBufGet (sg : RtSgBuf) (cbData : Nat) : Option (Option SegPtr × Nat × RtSgBuf) :=
  if sg.idxSeg = sg.paSegs.length ∧ sg.cbSegLeft = 0 then some (none, 0, sg)
  else if sgAssert sg = false then none
  else
    let cb := min cbData sg.cbSegLeft
    let left := sg.cbSegLeft - cb
    if left = 0 then
      -- advance to the next segment; at the last one the pointer stays
      match sg.paSegs[sg.idxSeg + 1]? with
      | some seg =>
          some (some sg.pvSegCur, cb,
            { sg with idxSeg := sg.idxSeg + 1, pvSegCur := ⟨sg.idxSeg + 1, 0⟩,
                      cbSegLeft := seg.length })
      | none => some (some sg.pvSegCur, cb, { sg with idxSeg := sg.idxSeg + 1, cbSegLeft := 0 })
    else
      some (some sg.pvSegCur, cbData,
        { sg with pvSegCur := ⟨sg.pvSegCur.seg, sg.pvSegCur.off + cb⟩, cbSegLeft := left })

/-- `n` bytes of memory. -/
def readMem (mem : List (List UInt8)) (ptr : SegPtr) (n : Nat) : List UInt8 :=
  match mem[ptr.seg]? with
  | some seg => (seg.drop ptr.off).take n
  | none => []

def writeMem (mem : List (List UInt8)) (ptr : SegPtr) (data : List UInt8) : List (List UInt8) :=
  match mem[ptr.seg]? with
  | some seg => mem.set ptr.seg (splice seg ptr.off data)
  | none => mem

/-- What a transfer does with a chunk of memory and its own state. -/
abbrev ChunkUse (α : Type) := List (List UInt8) → SegPtr → Nat → α → List (List UInt8) × α

/-- The loop the transfer functions share: chunk by chunk until the request is
done or a chunk is empty. Returns what is left of the request. -/
def sgLoop {α : Type} (use : ChunkUse α) (cbLeft : Nat) (sg : RtSgBuf) (a : α) :
    Option (Nat × RtSgBuf × α) :=
  if cbLeft = 0 then some (0, sg, a)
  else
    match sgBufGet sg cbLeft with
    | some (some ptr, cbThis, sg') =>
        if cbThis = 0 then some (cbLeft, sg', a)
        else
          sgLoop use (cbLeft - cbThis) { sg' with paSegs := (use sg'.paSegs ptr cbThis a).1 }
            (use sg'.paSegs ptr cbThis a).2
    | some (none, _, sg') => some (cbLeft, sg', a)
    | none => none
  termination_by cbLeft

/-! ### The transfer functions -/

def memset (ubFill : UInt8) : ChunkUse Unit :=
  fun mem ptr n _ => (writeMem mem ptr (List.replicate n ubFill), ())

def memcpyOut : ChunkUse (List UInt8) := fun mem ptr n out => (mem, out ++ readMem mem ptr n)

def memcpyIn : ChunkUse Buf :=
  fun mem ptr n buf => (writeMem mem ptr ((List.range n).map buf), buf.drop n)

def skip : ChunkUse Unit := fun mem _ _ a => (mem, a)

/-- `RTSgBufSet`. -/
def rtSgBufSet (sg : RtSgBuf) (ubFill : UInt8) (cbSet : Nat) : Option (Nat × RtSgBuf) :=
  (sgLoop (memset ubFill) cbSet sg ()).map fun r => (cbSet - r.1, r.2.1)

/-- `RTSgBufCopyToBuf`, with the bytes put into `pvBuf`. -/
def rtSgBufCopyToBuf (sg : RtSgBuf) (cbCopy : Nat) : Option (Nat × RtSgBuf × List UInt8) :=
  (sgLoop memcpyOut cbCopy sg []).map fun r => (cbCopy - r.1, r.2.1, r.2.2)

/-- `RTSgBufCopyFromBuf`. -/
def rtSgBufCopyFromBuf (sg : RtSgBuf) (pvBuf : Buf) (cbCopy : Nat) : Option (Nat × RtSgBuf) :=
  (sgLoop memcpyIn cbCopy sg pvBuf).map fun r => (cbCopy - r.1, r.2.1)

/-- `RTSgBufAdvance`. -/
def rtSgBufAdvance (sg : RtSgBuf) (cbAdvance : Nat) : Option (Nat × RtSgBuf) :=
  (sgLoop skip cbAdvance sg ()).map fun r => (cbAdvance - r.1, r.2.1)

/-- The loop of `RTSgBufCopy`. -/
def sgCopyLoop (cbLeft : Nat) (sgDst sgSrc : RtSgBuf) : Option (Nat × RtSgBuf × RtSgBuf) :=
  if cbLeft = 0 then some (0, sgDst, sgSrc)
  else
    let cbThisCopy := min (min sgDst.cbSegLeft cbLeft) sgSrc.cbSegLeft
    if cbThisCopy = 0 then some (cbLeft, sgDst, sgSrc)
    else
      match sgBufGet sgDst cbThisCopy with
      | some (some pvBufDst, cbTmp, sgDst') =>
          match sgBufGet sgSrc cbTmp with
          | some (some pvBufSrc, _, sgSrc') =>
              let data := readMem sgSrc'.paSegs pvBufSrc cbThisCopy
              sgCopyLoop (cbLeft - cbThisCopy)
                { sgDst' with paSegs := writeMem sgDst'.paSegs pvBufDst data } sgSrc'
          | _ => none
      | _ => none
  termination_by cbLeft

/-- `RTSgBufCopy`, for two buffers that share no memory. -/
def rtSgBufCopy (sgDst sgSrc : RtSgBuf) (cbCopy : Nat) : Option (Nat × RtSgBuf × RtSgBuf) :=
  (sgCopyLoop cbCopy sgDst sgSrc).map fun r => (cbCopy - r.1, r.2.1, r.2.2)

end VBox.Runtime
