import VBox.Lib.ByteFile
import VBox.Storage.Vci.BlkMap

/-!
Block maps of the VCI cache in the image.

`vciBlkMapSave` and `vciBlkMapLoad` hand numbers of blocks to functions of the I/O
interface that take bytes, so the one writes and the other reads a single byte of the
512 of the header. What a function finds in memory nobody has written is an argument of
its model, and `save_load_never` uses it.
-/

namespace VBox.Storage.Vci

open VBox.Lib

/-- `VCI_BYTE2BLOCK` -/
def vciByte2Block (u : Nat) : Nat := u / 512

/-- `VCI_BLOCK2BYTE` -/
def vciBlock2Byte (u : Nat) : Nat := u * 512

/-- The structure `VciBlkMap` of the image. -/
structure VciBlkMapHdr where
  u32Magic : UInt32
  u32Version : UInt32
  cBlocks : UInt64
  cBlocksFree : UInt64
  cBlocksAllocMeta : UInt64
  cBlocksAllocData : UInt64
  au8Reserved : Vector UInt8 472

def blkMapMagic : UInt32 := 0x4b4c4256

def blkMapVersion : UInt32 := 1

/-- The size of the header is one block. -/
def hdrCodec : Codec VciBlkMapHdr :=
  (Codec.u32le.seq (Codec.u32le.seq (Codec.u64le.seq (Codec.u64le.seq (Codec.u64le.seq
    (Codec.u64le.seq (Codec.bytes 472))))))).iso
    (fun h => (h.u32Magic, h.u32Version, h.cBlocks, h.cBlocksFree, h.cBlocksAllocMeta,
      h.cBlocksAllocData, h.au8Reserved))
    (fun t => ⟨t.1, t.2.1, t.2.2.1, t.2.2.2.1, t.2.2.2.2.1, t.2.2.2.2.2.1, t.2.2.2.2.2.2⟩)
    fun _ => rfl

/-- `sizeof(abBitmapBuffer)` -/
def cbBitmapBuffer : Nat := 16 * 1024

inductive VciRc where
  | vdGenInvalidHeader
  | internalError
  /-- The status of a read that comes to the end of the file. -/
  | eof
  deriving DecidableEq, Repr

/-! ### Bitmaps -/

/-- Bit `i` of a buffer. -/
def bitAt (b : Buf) (i : Nat) : Bool := (b (i / 8)).toNat.testBit (i % 8)

/-- The buffer with given bits. -/
def ofBits (bit : Nat → Bool) : Buf := fun k =>
  UInt8.ofNat (((List.range 8).map fun j => if bit (8 * k + j) then 2 ^ j else 0).sum)

/-- `ASMBitSetRange` and `ASMBitClearRange` -/
def setRange (bit : Nat → Bool) (iBitStart iBitEnd : Nat) (value : Bool) : Nat → Bool := fun i =>
  if iBitStart ≤ i ∧ i < iBitEnd then value else bit i

/-- The first of `cBits` bits from `start` on that has a value. -/
def firstBit (b : Buf) (value : Bool) (start cBits : Nat) : Option Nat :=
  ((List.range cBits).map (start + ·)).find? fun i => bitAt b i == value

/-- `ASMBitNextSet` and `ASMBitNextClear`. They look at words of 32 bits to their end, and
`cBits - iBitPrev` may wrap. -/
def nextBit (b : Buf) (value : Bool) (cBits iBitPrev : Nat) : Option Nat :=
  let iBitPrev := (iBitPrev + 1) % 2 ^ 32
  let aligned (iBitPrev : Nat) :=
    firstBit b value iBitPrev (((cBits + 2 ^ 32 - iBitPrev) % 2 ^ 32 + 31) % 2 ^ 32 / 32 * 32)
  if iBitPrev % 32 = 0 then aligned iBitPrev
  else
    match firstBit b value iBitPrev (32 - iBitPrev % 32) with
    | some iBit => some iBit
    | none =>
        let iBitPrev := (iBitPrev / 32 + 1) * 32
        if cBits ≤ iBitPrev then none else aligned iBitPrev

/-! ### Saving -/

/-- Where `vciBlkMapSave` stands. -/
structure SaveLocals where
  file : ByteFile
  offBlkMap : Nat
  abBitmapBuffer : Nat → Bool
  iBit : Nat

/-- The loop over the blocks of a range; every round takes a block at least. -/
def saveBlocks (fFree : Bool) : Nat → Nat → SaveLocals → SaveLocals
  | fuel + 1, cBlocks, s =>
      if cBlocks = 0 then s
      else
        let cBlocksMax := min cBlocks (cbBitmapBuffer * 8 - s.iBit)
        let bits := setRange s.abBitmapBuffer s.iBit (s.iBit + cBlocksMax) !fFree
        if s.iBit + cBlocksMax = cbBitmapBuffer * 8 then
          saveBlocks fFree fuel (cBlocks - cBlocksMax)
            { file := s.file.write s.offBlkMap (vciByte2Block cbBitmapBuffer) (ofBits bits)
              offBlkMap := s.offBlkMap + vciByte2Block cbBitmapBuffer
              abBitmapBuffer := bits
              iBit := 0 }
        else
          saveBlocks fFree fuel (cBlocks - cBlocksMax)
            { s with abBitmapBuffer := bits, iBit := s.iBit + cBlocksMax }
  | 0, _, s => s

def saveRanges : List VciBlkRangeDesc → SaveLocals → SaveLocals
  | [], s => s
  | r :: ranges, s => saveRanges ranges (saveBlocks r.fFree r.cBlocks r.cBlocks s)

def VciBlkMap.hdr (m : VciBlkMap) : VciBlkMapHdr where
  u32Magic := blkMapMagic
  u32Version := blkMapVersion
  cBlocks := m.cBlocks
  cBlocksFree := m.cBlocksFree
  cBlocksAllocMeta := m.cBlocksAllocMeta
  cBlocksAllocData := m.cBlocksAllocData
  au8Reserved := Vector.replicate 472 0

/-- `vciBlkMapSave` onto a medium that does not fail; `bits` is what the buffer on the stack
holds at first. -/
def vciBlkMapSave (m : VciBlkMap) (file : ByteFile) (offBlkMap cBlkMap : Nat)
    (bits : Nat → Bool) : Except VciRc ByteFile :=
  if vciByte2Block (m.cBlocks.toNat / 8) + vciByte2Block hdrCodec.width = cBlkMap then
    let s := saveRanges m.ranges
      { file := file.write offBlkMap (vciByte2Block hdrCodec.width) (hdrCodec.enc m.hdr)
        offBlkMap := offBlkMap + vciByte2Block hdrCodec.width
        abBitmapBuffer := bits
        iBit := 0 }
    if s.iBit = 0 then .ok s.file
    else .ok (s.file.write s.offBlkMap (vciByte2Block (s.iBit / 8)) (ofBits s.abBitmapBuffer))
  else .error .internalError

/-! ### Loading -/

/-- `vdIfIoIntFileReadSync` into memory that holds `old`. -/
def readInto (file : ByteFile) (off cb : Nat) (old : Buf) : Except VciRc Buf :=
  match file.read off cb with
  | some b => .ok fun i => if i < cb then b i else old i
  | none => .error .eof

/-- The ranges found so far, the last in front; `pRangeCur` is the first of them. -/
structure LoadLocals where
  pRangeCur : VciBlkRangeDesc
  before : List VciBlkRangeDesc

/-- The loop over the bits of a buffer. -/
def loadBits (abBitmapBuffer : Buf) : Nat → Nat → Nat → LoadLocals → Option LoadLocals
  | 0, _, _, _ => none
  | fuel + 1, cBits, iBitPrev, l =>
      if cBits = 0 then some l
      else
        match nextBit abBitmapBuffer l.pRangeCur.fFree cBits iBitPrev with
        | none =>
            some { l with pRangeCur :=
              { l.pRangeCur with cBlocks := l.pRangeCur.cBlocks + cBits } }
        | some iBit =>
            let pRangeCur := { l.pRangeCur with cBlocks := l.pRangeCur.cBlocks + iBit }
            loadBits abBitmapBuffer fuel ((cBits + 2 ^ 32 - iBit) % 2 ^ 32) iBit
              { pRangeCur :=
                  { offAddrStart := pRangeCur.offAddrStart + pRangeCur.cBlocks
                    cBlocks := 0
                    fFree := !pRangeCur.fFree }
                before := pRangeCur :: l.before }

/-- The loop over the buffers; `none` when it needs more rounds. -/
def loadChunks (file : ByteFile) (fuel : Nat) :
    Nat → Nat → Nat → Nat → Buf → LoadLocals → Option (Except VciRc LoadLocals)
  | 0, _, _, _, _, _ => none
  | rounds + 1, offBlkMap, cBlocksLeft, cBlocksRead, abBitmapBuffer, l =>
      if cBlocksLeft = 0 then some (.ok l)
      else
        (loadBits abBitmapBuffer fuel (vciBlock2Byte cBlocksRead * 8) (2 ^ 32 - 1) l).bind fun l =>
          let cBlocksLeft := cBlocksLeft - cBlocksRead
          let offBlkMap := offBlkMap + cBlocksRead
          if cBlocksLeft = 0 then some (.ok l)
          else
            let cBlocksRead := min (vciByte2Block cbBitmapBuffer) cBlocksLeft
            match readInto file offBlkMap cBlocksRead abBitmapBuffer with
            | .ok abBitmapBuffer =>
                loadChunks file fuel rounds offBlkMap cBlocksLeft cBlocksRead abBitmapBuffer l
            | .error rc => some (.error rc)

/-- The range list, from the bitmap at `offBlkMap`. -/
def loadRanges (file : ByteFile) (fuel offBlkMap : Nat) (h : VciBlkMapHdr) (stack : Buf) :
    Option (Except VciRc VciBlkMap) :=
  let cBlocksLeft := vciByte2Block (h.cBlocks.toNat / 8)
  let cBlocksRead := min (vciByte2Block cbBitmapBuffer) cBlocksLeft
  match readInto file offBlkMap cBlocksRead stack with
  | .error rc => some (.error rc)
  | .ok abBitmapBuffer =>
      let first : VciBlkRangeDesc := ⟨0, 0, !bitAt abBitmapBuffer 0⟩
      (loadChunks file fuel fuel offBlkMap cBlocksLeft cBlocksRead abBitmapBuffer ⟨first, []⟩).map
        fun loaded => loaded.map fun l =>
          { cBlocks := h.cBlocks
            cBlocksAllocMeta := h.cBlocksAllocMeta
            cBlocksAllocData := h.cBlocksAllocData
            cBlocksFree := h.cBlocksFree
            ranges := (l.pRangeCur :: l.before).reverse }

/-- `vciBlkMapLoad` with memory to spare; `stackHdr` and `stack` are what the header and the
buffer on the stack hold at first. -/
def vciBlkMapLoad (file : ByteFile) (fuel offBlkMap cBlkMap : Nat) (stackHdr stack : Buf) :
    Option (Except VciRc VciBlkMap) :=
  if vciByte2Block hdrCodec.width ≤ cBlkMap then
    let cBlkMap := cBlkMap - vciByte2Block hdrCodec.width
    match readInto file offBlkMap (vciByte2Block hdrCodec.width) stackHdr with
    | .error rc => some (.error rc)
    | .ok b =>
        let h := hdrCodec.dec b
        let offBlkMap := offBlkMap + vciByte2Block hdrCodec.width
        if h.u32Magic = blkMapMagic ∧ h.u32Version = blkMapVersion ∧
            h.cBlocks = h.cBlocksFree + h.cBlocksAllocMeta + h.cBlocksAllocData ∧
            vciByte2Block (h.cBlocks.toNat / 8) = cBlkMap then
          loadRanges file fuel offBlkMap h stack
        else some (.error .vdGenInvalidHeader)
  else some (.error .vdGenInvalidHeader)

/-! ### The round trip -/

/-- Saved and loaded again the map is the same, whatever the stack holds. -/
def RoundTrips (m : VciBlkMap) (file : ByteFile) (offBlkMap cBlkMap : Nat) : Prop :=
  ∀ (bits : Nat → Bool) (stackHdr stack : Buf), ∃ file' fuel,
    vciBlkMapSave m file offBlkMap cBlkMap bits = .ok file' ∧
    vciBlkMapLoad file' fuel offBlkMap cBlkMap stackHdr stack = some (.ok m)

/-- Alternating ranges over all the blocks, which the counters add up to. -/
structure VciBlkMap.Whole (m : VciBlkMap) : Prop where
  gapFree : GapFree 0 m.ranges m.cBlocks.toNat
  alternating : m.ranges.IsChain fun a b => a.fFree ≠ b.fFree
  positive : ∀ r ∈ m.ranges, 0 < r.cBlocks
  sectors : 4096 ∣ m.cBlocks.toNat
  free : m.cBlocksFree.toNat = blocksOf true m.ranges
  allocated : m.cBlocksAllocMeta.toNat + m.cBlocksAllocData.toNat = blocksOf false m.ranges

/-- A magic of which only the first byte was read, the others being zero, is none. -/
theorem magic_ne {b : Buf} (rest : ∀ i, 1 ≤ i → b i = 0) :
    (hdrCodec.dec b).u32Magic ≠ blkMapMagic := by
  have one : leNat 4 b = (b 0).toNat := by
    simp [leNat, Buf.drop_apply, rest]
  have small := (b 0).toNat_lt
  intro same
  have value : (UInt32.ofNat (leNat 4 b)).toNat = blkMapMagic.toNat := congrArg UInt32.toNat same
  rw [one, UInt32.toNat_ofNat_of_lt' (small.trans (by decide))] at value
  exact absurd (value ▸ small) (by decide)

theorem load_fails (file : ByteFile) (fuel offBlkMap cBlkMap : Nat) (stack : Buf) (m : VciBlkMap) :
    vciBlkMapLoad file fuel offBlkMap cBlkMap (fun _ => 0) stack ≠ some (.ok m) := by
  unfold vciBlkMapLoad
  split
  · cases found : readInto file offBlkMap (vciByte2Block hdrCodec.width) fun _ => 0 with
    | error rc => exact nofun
    | ok b =>
      have rest : ∀ i, 1 ≤ i → b i = 0 := by
        intro i positive
        unfold readInto at found
        split at found
        · cases found
          exact if_neg (Nat.not_lt.mpr positive)
        · cases found
      dsimp only
      rw [if_neg fun ok => magic_ne rest ok.1]
      exact nofun
  · exact nofun

/-- No map is sure to come back, from wherever in whatever file. -/
theorem save_load_never (m : VciBlkMap) (file : ByteFile) (offBlkMap cBlkMap : Nat) :
    ¬ RoundTrips m file offBlkMap cBlkMap := by
  intro trips
  obtain ⟨file', fuel, -, loaded⟩ := trips (fun _ => false) (fun _ => 0) fun _ => 0
  exact load_fails file' fuel offBlkMap cBlkMap _ m loaded

/-- A new map of 4096 blocks, all of them free. -/
def newMap : VciBlkMap := ⟨4096, 0, 0, 4096, [⟨0, 4096, true⟩]⟩

/-- It is saved, but is not a map when it is loaded. -/
theorem newMap_lost : newMap.Whole ∧
    (∃ file', vciBlkMapSave newMap .empty 0 2 (fun _ => false) = .ok file') ∧
    ¬ RoundTrips newMap .empty 0 2 := by
  refine ⟨?_, ?_, ?_⟩
  · exact
      { gapFree := ⟨rfl, rfl⟩
        alternating := List.isChain_singleton _
        positive := by simp [newMap]
        sectors := ⟨1, rfl⟩
        free := rfl
        allocated := rfl }
  · unfold vciBlkMapSave
    rw [if_pos (by decide)]
    dsimp only
    split <;> exact ⟨_, rfl⟩
  · intro trips
    obtain ⟨file', fuel, -, loaded⟩ := trips (fun _ => false) (fun _ => 0) fun _ => 0
    exact load_fails file' fuel 0 2 _ newMap loaded

end VBox.Storage.Vci
