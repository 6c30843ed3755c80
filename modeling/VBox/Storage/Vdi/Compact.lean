import VBox.Storage.Vdi.Discard

/-!
`vdiCompact`: dropping the blocks whose data is redundant and closing the holes
they leave.

The function asks its caller for the parent's data, for the ranges in use and
for leave to go on; `CompactHost` holds the answers, and which of its file
operations fail. A failed read leaves the buffer as it was, a failed write the
file. The percentages handed to the progress callback are left out.
-/

namespace VBox.Storage.Vdi

open VBox.Lib

/-- Everything `vdiCompact` does not compute itself. -/
structure CompactHost where
  /-- the file operations that fail, by their number -/
  fails : Nat → Bool
  pfnParentRead : Option (Nat → Nat → Except Status Buf)
  pfnQueryRangeUse : Option (Nat → Nat → Except Status Bool)
  /-- the progress callback, by the number of the call -/
  pfnProgress : Option (Nat → Status)

/-- The local variables of `vdiCompact` beside the image. -/
structure CompactState where
  image : VdiImage
  paBlocks2 : List Nat
  pvTmp : Buf
  uBlockUsedPos : Nat
  cBlocksMoved : Nat
  ops : Nat
  progressCalls : Nat

namespace CompactState

def readSync (st : CompactState) (host : CompactHost) (off cb : Nat) : Status × CompactState :=
  if host.fails st.ops then (.verrGeneralFailure, { st with ops := st.ops + 1 })
  else
    match st.image.file.read off cb with
    | none => (.verrEof, { st with ops := st.ops + 1 })
    | some buf => (.vinfSuccess, { st with ops := st.ops + 1, pvTmp := buf })

def writeSync (st : CompactState) (host : CompactHost) (off cb : Nat) (buf : Buf) :
    Status × CompactState :=
  if host.fails st.ops then (.verrGeneralFailure, { st with ops := st.ops + 1 })
  else
    (.vinfSuccess,
      { st with ops := st.ops + 1, image := { st.image with file := st.image.file.write off cb buf } })

/-- `vdiUpdateHeader`. -/
def updateHeader (st : CompactState) (host : CompactHost) : Status × CompactState :=
  st.writeSync host sizeofPreHeader (headerBytes st.image.header).1 (headerBytes st.image.header).2

/-- `vdiUpdateBlockInfo`. -/
def updateBlockInfo (st : CompactState) (host : CompactHost) (uBlock : Nat) :
    Option (Status × CompactState) :=
  andThen (some (st.updateHeader host)) fun st =>
    (st.image.paBlocks[uBlock]?).map fun ptrBlock =>
      st.writeSync host (st.image.offStartBlocks + uBlock * 4) 4 (leByte ptrBlock)

/-- Ask the progress callback whether to go on. -/
def progress (st : CompactState) (host : CompactHost) : Option (Status × CompactState) :=
  match host.pfnProgress with
  | none => some (.vinfSuccess, st)
  | some callback =>
      some (callback st.progressCalls, { st with progressCalls := st.progressCalls + 1 })

/-- Change the block table entry of a block in memory. -/
def setEntry (st : CompactState) (uBlock entry : Nat) : CompactState :=
  { st with image := { st.image with paBlocks := st.image.paBlocks.set uBlock entry } }

end CompactState

/-- Where the data of a slot starts, for `vdiCompact`. -/
def compactOffset (image : VdiImage) (slot : Nat) : Nat :=
  slot * image.cbTotalBlockData + u32 (image.offStartData + image.offStartBlockData)

/-- `cBlocksAllocated` of `vdiCompact`: how many blocks the file size has room for. -/
def compactBlocks (image : VdiImage) : Nat :=
  u32 (u64Sub (u64Sub image.file.size image.offStartData) image.offStartBlockData >>>
    image.uShiftOffset2Index)

/-- First pass over a block: fill the back resolving table, freeing cross-linked
and out-of-bounds entries. -/
def compactResolve (host : CompactHost) (i : Nat) (st : CompactState) :
    Option (Status × CompactState) :=
  match st.image.paBlocks[i]? with
  | none => none
  | some ptrBlock =>
      if ¬ IsAllocated ptrBlock then some (.vinfSuccess, st)
      else if st.paBlocks2[ptrBlock]? = some vdiImageBlockFree then
        some (.vinfSuccess, { st with paBlocks2 := st.paBlocks2.set ptrBlock i })
      else (st.setEntry i vdiImageBlockFree).updateBlockInfo host i

/-- Take the slot of a block away, leaving `mark` in the table. -/
def compactRelease (host : CompactHost) (i ptrBlock mark : Nat) (st : CompactState) :
    Option (Status × CompactState) :=
  andThen ((st.setEntry i mark).updateBlockInfo host i) fun st =>
    if ptrBlock < st.paBlocks2.length then
      some (.vinfSuccess, { st with paBlocks2 := st.paBlocks2.set ptrBlock vdiImageBlockFree })
    else none

/-- The first `n` bytes of two buffers are equal. -/
def sameBytes (a b : Buf) (n : Nat) : Bool := (List.range n).all fun i => a i == b i

/-- Second pass, first half: release a block of zeros and a block that repeats
the parent. -/
def compactCheckData (host : CompactHost) (i : Nat) (st : CompactState) :
    Option (Status × CompactState) :=
  match st.image.paBlocks[i]? with
  | none => none
  | some ptrBlock =>
      let cbBlock := getImageBlockSize st.image.header
      if ¬ IsAllocated ptrBlock then some (.vinfSuccess, st)
      else
        andThen (some (st.readSync host (compactOffset st.image ptrBlock) cbBlock)) fun st =>
          if st.pvTmp.isZero (cbTested cbBlock) then
            compactRelease host i ptrBlock vdiImageBlockZero st
          else
            match host.pfnParentRead with
            | none => some (.vinfSuccess, st)
            | some pfnParentRead =>
                match pfnParentRead (i * cbBlock) cbBlock with
                | .error rc => some (rc, st)
                | .ok pvBuf =>
                    if sameBytes st.pvTmp pvBuf cbBlock then
                      compactRelease host i ptrBlock vdiImageBlockFree st
                    else some (.vinfSuccess, st)

/-- Second pass, second half: release a block whose range is not in use. -/
def compactCheckUse (host : CompactHost) (i : Nat) (st : CompactState) :
    Option (Status × CompactState) :=
  match st.image.paBlocks[i]?, host.pfnQueryRangeUse with
  | none, _ => none
  | some _, none => some (.vinfSuccess, st)
  | some ptrBlock, some pfnQueryRangeUse =>
      let cbBlock := getImageBlockSize st.image.header
      if ¬ IsAllocated ptrBlock then some (.vinfSuccess, st)
      else
        match pfnQueryRangeUse (i * cbBlock) cbBlock with
        | .error rc => some (rc, st)
        | .ok fUsed =>
            if fUsed then some (.vinfSuccess, st)
            else compactRelease host i ptrBlock vdiImageBlockZero st

/-- Second pass over a block. -/
def compactCheck (host : CompactHost) (i : Nat) (st : CompactState) :
    Option (Status × CompactState) :=
  andThen (compactCheckData host i st) fun st =>
    andThen (compactCheckUse host i st) fun st => st.progress host

/-- Search backwards from `uBlockUsedPos` for a slot with data, not below `i`. -/
def seekData (paBlocks2 : List Nat) (i : Nat) : Nat → Nat × Nat
  | 0 => (0, vdiImageBlockFree)
  | pos + 1 =>
      if i < pos + 1 then
        if paBlocks2.getD pos vdiImageBlockFree = vdiImageBlockFree then seekData paBlocks2 i pos
        else (pos, paBlocks2.getD pos vdiImageBlockFree)
      else (pos + 1, vdiImageBlockFree)

/-- Copy the data of slot `uBlockUsedPos` into the bubble `i` and redirect its
block. The status of the read is overwritten by that of the write. -/
def compactMove (host : CompactHost) (cBlocksAllocated i uBlockData : Nat) (st : CompactState) :
    Option (Status × CompactState) :=
  let cbBlock := getImageBlockSize st.image.header
  let st := (st.readSync host (compactOffset st.image st.uBlockUsedPos) cbBlock).2
  let st := (st.writeSync host (compactOffset st.image i) cbBlock st.pvTmp).2
  if uBlockData < st.image.paBlocks.length then
    let st := st.setEntry uBlockData i
    let st := { st with image := { st.image with
      header := setImageBlocksAllocated (cBlocksAllocated - st.cBlocksMoved) st.image.header } }
    andThen (st.updateBlockInfo host uBlockData) fun st =>
      some (.vinfSuccess, { st with
        paBlocks2 := (st.paBlocks2.set i uBlockData).set st.uBlockUsedPos vdiImageBlockFree
        cBlocksMoved := st.cBlocksMoved + 1 })
  else none

/-- Third pass from slot `i` on: fill the bubbles with data from the end. -/
def compactFill (host : CompactHost) (cBlocksAllocated : Nat) :
    Nat → Nat → CompactState → Option (Status × CompactState)
  | 0, _, st => some (.vinfSuccess, st)
  | rounds + 1, i, st =>
      if st.paBlocks2.getD i vdiImageBlockFree = vdiImageBlockFree then
        let found := seekData st.paBlocks2 i st.uBlockUsedPos
        let st := { st with uBlockUsedPos := found.1 }
        -- terminate early if there is no block which needs copying
        if st.uBlockUsedPos = i then some (.vinfSuccess, st)
        else
          andThen (compactMove host cBlocksAllocated i found.2 st) fun st =>
            andThen (st.progress host) (compactFill host cBlocksAllocated rounds (i + 1))
      else andThen (st.progress host) (compactFill host cBlocksAllocated rounds (i + 1))

/-- Update the header, whose status is ignored, and cut the file. -/
def compactTruncate (host : CompactHost) (st : CompactState) : Status × CompactState :=
  let st := { st with image := { st.image with
    header := setImageBlocksAllocated st.uBlockUsedPos st.image.header } }
  let st := (st.updateHeader host).2
  if host.fails st.ops then (.verrGeneralFailure, st)
  else
    (.vinfSuccess, { st with image := { st.image with
      file := st.image.file.setSize (st.uBlockUsedPos * st.image.cbTotalBlockData +
        st.image.offStartData + st.image.offStartBlockData) } })

/-- The variables of `vdiCompact` before its first pass. -/
def compactStart (image : VdiImage) : CompactState where
  image := image
  paBlocks2 := List.replicate (compactBlocks image) vdiImageBlockFree
  pvTmp := fun _ => 0
  uBlockUsedPos := compactBlocks image
  cBlocksMoved := 0
  ops := 0
  progressCalls := 0

/-- `vdiCompact`. -/
def vdiCompact (image : VdiImage) (host : CompactHost) : Option (Status × VdiImage) :=
  if image.uOpenFlags.readOnly then some (.verrVdImageReadOnly, image)
  else if compactBlocks image = 0 then some (.vinfSuccess, image)
  else
    let blocks := List.range (getImageBlocks image.header)
    (andThen (forEach (compactResolve host) blocks (compactStart image)) fun st =>
      andThen (forEach (compactCheck host) blocks st) fun st =>
        andThen (compactFill host (compactBlocks image) (compactBlocks image) 0 st) fun st =>
          some (compactTruncate host st)).map fun (rc, st) => (rc, st.image)

end VBox.Storage.Vdi
