import VBox.Storage.Vdi.CompactSteps

/-!
The third pass of `vdiCompact`: filling the holes with blocks from the end.

`Filling` is its invariant: the slots below the current one are in use, those
from `uBlockUsedPos` on are not, every move takes four file operations, and the
image shows the same over its parent unless a read or a write of a move failed.
-/

namespace VBox.Storage.Vdi

open VBox.Lib List Option

/-! ### The search for a block to move -/

/-- Slot `p` of the back resolving table is free. -/
def FreeSlot (paBlocks2 : List Nat) (p : Nat) : Prop :=
  paBlocks2.getD p vdiImageBlockFree = vdiImageBlockFree

/-- The search from `pos` stops at the hole or at the last slot in use behind it. -/
theorem seekData_spec {table : List Nat} {i pos : Nat} (start : i ≤ pos)
    (hole : FreeSlot table i) (empty : ∀ p, pos ≤ p → FreeSlot table p) :
    ((seekData table i pos).1 = i ∧ ∀ p, i ≤ p → FreeSlot table p) ∨
      (i < (seekData table i pos).1 ∧ (seekData table i pos).1 < pos ∧
        (seekData table i pos).2 = table.getD (seekData table i pos).1 vdiImageBlockFree ∧
        ¬ FreeSlot table (seekData table i pos).1 ∧
        ∀ p, (seekData table i pos).1 < p → FreeSlot table p) := by
  induction pos with
  | zero =>
    obtain rfl : i = 0 := by omega
    exact Or.inl ⟨rfl, empty⟩
  | succ pos ih =>
    rw [seekData]
    split
    · rename_i more
      have next : FreeSlot table pos → ∀ p, pos ≤ p → FreeSlot table p := by
        intro free p low
        rcases Nat.eq_or_lt_of_le low with rfl | high
        · exact free
        · exact empty p high
      split
      · rename_i free
        rcases ih (by omega) (next free) with found | ⟨above, below, rest⟩
        · exact Or.inl found
        · exact Or.inr ⟨above, by omega, rest⟩
      · rename_i taken
        rcases Nat.eq_or_lt_of_le (show i ≤ pos by omega) with rfl | above
        · exact absurd hole taken
        · exact Or.inr ⟨above, Nat.lt_succ_self pos, rfl, taken, fun p high => empty p high⟩
    · obtain rfl : i = pos + 1 := by omega
      exact Or.inl ⟨rfl, empty⟩

/-! ### What a moved block shows -/

section Moves

variable {image : VdiImage} {host : CompactHost} {parent : Buf}

theorem setImageBlocksAllocated_set (n m : Nat) (header : VdiHeader) :
    setImageBlocksAllocated n (setImageBlocksAllocated m header) =
      setImageBlocksAllocated n header := by
  cases header <;> rfl

/-- Correcting the count of allocated blocks keeps the shape. -/
theorem SameShape.recount {image' : VdiImage} (shape : SameShape image image') (n : Nat) :
    SameShape image { image' with header := setImageBlocksAllocated n image'.header } := by
  refine ⟨shape.uOpenFlags, shape.offStartBlocks, shape.offStartData, shape.uBlockMask,
    shape.uShiftOffset2Index, shape.offStartBlockData, shape.cbTotalBlockData, Or.inr ⟨n, ?_⟩⟩
  rcases shape.header with same | ⟨m, same⟩
  · rw [same]
  · rw [same, setImageBlocksAllocated_set]

/-- The data of one slot lies outside the data of another. -/
theorem Compactable.slotByte_apart (comp : Compactable image) {p q off : Nat} (apart : p ≠ q)
    (inside : off < getImageBlockSize image.header) : slotByte image p off < slotByte image q 0 ∨
      slotByte image q (getImageBlockSize image.header) ≤ slotByte image p off := by
  have total := comp.layout.cbTotalBlockData_eq comp.setUp
  have outside := slotByte_outside total apart inside
  have start : slotByte image q 0 =
    image.offStartData + q * image.cbTotalBlockData + image.offStartBlockData := rfl
  have last : slotByte image q (getImageBlockSize image.header) =
    slotByte image q 0 + getImageBlockSize image.header := rfl
  omega

/-- A file in which slot `i` holds what slot `q` held and nothing else of the
data area has changed. -/
structure CopiedTo (image : VdiImage) (q i : Nat) (file file' : ByteFile) : Prop where
  copied : ∀ off < getImageBlockSize image.header,
    file'.byte (slotByte image i off) = file.byte (slotByte image q off)
  rest : ∀ j, image.offStartData ≤ j →
    j < slotByte image i 0 ∨ slotByte image i (getImageBlockSize image.header) ≤ j →
      file'.byte j = file.byte j

theorem copiedTo_write (image : VdiImage) (q i : Nat) (file : ByteFile) :
    CopiedTo image q i file (file.write (slotByte image i 0) (getImageBlockSize image.header)
      (file.byte.drop (slotByte image q 0))) := by
  constructor
  · intro off inside
    have place : slotByte image i off = slotByte image i 0 + off := rfl
    rw [ByteFile.byte_write_of_mem (by omega) (by omega), Buf.drop_apply, place,
      Nat.add_sub_cancel_left]
    rfl
  · intro j _ outside
    have last : slotByte image i (getImageBlockSize image.header) =
      slotByte image i 0 + getImageBlockSize image.header := rfl
    exact ByteFile.byte_write_of_not_mem (by omega)

theorem CopiedTo.sameData {q i : Nat} {file file' file'' : ByteFile}
    (copy : CopiedTo image q i file file') (same : SameData image.offStartData file' file'') :
    CopiedTo image q i file file'' := by
  constructor
  · intro off inside
    rw [same.data _ (le_slotByte image i off)]
    exact copy.copied off inside
  · intro j high outside
    rw [same.data j high]
    exact copy.rest j high outside

/-- Redirecting a block to a copy of its data shows the same everywhere. -/
theorem content_moved (comp : Compactable image) {old new : VdiImage}
    (shape : SameShape image old) (step : SameShape old new)
    (entries : ∀ p ∈ old.paBlocks, p < 2 ^ 32) {u q i : Nat} (slot : HasSlot old u q)
    (fresh : Unnamed IsAllocated old.paBlocks i) (slot' : IsAllocated i)
    (table : new.paBlocks = old.paBlocks.set u i)
    (copy : CopiedTo image q i old.file new.file) (o : Nat) : content new o = content old o := by
  have inside := (List.getElem?_eq_some_iff.mp slot.1).choose
  have offset := Nat.mod_lt o comp.setUp.blockSize_pos
  by_cases here : o / getImageBlockSize image.header = u
  · rw [content, content, step.blockSize, shape.blockSize, table, here,
      getElem?_set_self inside, slot.1, bind_some, bind_some,
      pointerContent_slot slot', pointerContent_slot slot.2, step.slotByte_eq,
      shape.slotByte_eq, shape.slotByte_eq, copy.copied _ offset]
  · refine content_frame entries step ?_ fun p found => ?_
    · rw [table, shape.blockSize, getElem?_set_ne (Ne.symm here)]
    · have apart : p ≠ i := by
        rintro rfl
        exact fresh _ found.1 found.2
      rw [shape.slotByte_eq, shape.blockSize]
      exact copy.rest _ (le_slotByte image p _) (comp.slotByte_apart apart offset)

/-! ### One move -/

/-- Before slot `i` of the third pass. -/
structure Filling (image : VdiImage) (host : CompactHost) (parent : Buf) (i : Nat)
    (st : CompactState) : Prop where
  packing : Packing image st.image st.paBlocks2
  ops_eq : st.ops = firstMove image host + 4 * st.cBlocksMoved
  passed : i ≤ st.uBlockUsedPos
  top : st.uBlockUsedPos ≤ compactBlocks image
  filled : ∀ p < i, ¬ FreeSlot st.paBlocks2 p
  empty : ∀ p, st.uBlockUsedPos ≤ p → FreeSlot st.paBlocks2 p
  fine : ∀ op < st.ops, host.fails op = true → Unnoticed image host op
  settled : ∀ k < getImageBlocks image.header, Settled image host st.image.paBlocks k
  shows : Noticed image host → ZerosAreZero image host → ShowsSame image host parent st.image
  stored : TableOnDisk image → (∀ op, host.fails op = false) → TableOnDisk st.image

theorem Checking.filling {st : CompactState}
    (c : Checking image host parent (getImageBlocks image.header) (firstMove image host) st) :
    Filling image host parent 0 st := by
  refine ⟨c.packing, ?_, Nat.zero_le _, c.usedPos.le, fun p none => absurd none (Nat.not_lt_zero p),
    fun p high => ?_, fun op early fails => ?_, c.settled, fun _ => c.shows, c.stored⟩
  · rw [c.ops_eq, c.moved, Nat.mul_zero, Nat.add_zero]
  · rw [c.usedPos, ← c.packing.rev] at high
    rw [FreeSlot, getD_eq_getElem?_getD, getElem?_eq_none high, getD_none]
  · rw [c.ops_eq] at early
    rw [c.fine op early] at fails
    cases fails

namespace Packing

variable {st : CompactState}

section

variable (packing : Packing image st.image st.paBlocks2)

include packing

theorem block_lt (comp : Compactable image) {u q : Nat} (slot : HasSlot st.image u q) :
    u < getImageBlocks image.header := by
  rw [← comp.setUp.length_paBlocks, ← packing.length]
  exact (List.getElem?_eq_some_iff.mp slot.1).choose

/-- A slot that is not free is named by the entry of its block. -/
theorem slot_of_taken {q : Nat} (taken : ¬ FreeSlot st.paBlocks2 q) : q < compactBlocks image ∧
      HasSlot st.image (st.paBlocks2.getD q vdiImageBlockFree) q := by
  unfold FreeSlot at taken
  cases back : st.paBlocks2[q]? with
  | none =>
    rw [getD_eq_getElem?_getD, back] at taken
    exact absurd rfl taken
  | some u =>
    obtain ⟨inside, -⟩ := List.getElem?_eq_some_iff.mp back
    rw [getD_eq_getElem?_getD, back, getD_some] at taken ⊢
    rw [packing.rev] at inside
    exact ⟨inside, packing.indexes.named back taken⟩

/-- No entry names a free slot. -/
theorem unnamed_of_free (comp : Compactable image) {p : Nat} (free : FreeSlot st.paBlocks2 p) :
    Unnamed IsAllocated st.image.paBlocks p := by
  intro u entry inUse
  have back := packing.indexes.back u p entry inUse
  have small := packing.block_lt comp ⟨entry, inUse⟩
  have bound := getImageBlocks_lt image.header
  rw [FreeSlot, getD_eq_getElem?_getD, back, getD_some] at free
  unfold vdiImageBlockFree at free
  omega

end

end Packing

/-- What a read leaves when its status is ignored. -/
theorem readSync_snd (host : CompactHost) (st : CompactState) (off cb : Nat)
    (inside : off + cb ≤ st.image.file.size) :
    ∃ buf, (st.readSync host off cb).2 = { st with ops := st.ops + 1, pvTmp := buf } ∧
      (host.fails st.ops = false → buf = st.image.file.byte.drop off) := by
  unfold CompactState.readSync
  split
  · rename_i fails
    exact ⟨st.pvTmp, rfl, fun fine => absurd fails (by rw [fine]; decide)⟩
  · rw [ByteFile.read_eq_some.mpr ⟨inside, rfl⟩]
    exact ⟨_, rfl, fun _ => rfl⟩

/-- What a write leaves when its status is ignored. -/
theorem writeSync_snd (host : CompactHost) (st : CompactState) (off cb : Nat) (buf : Buf) :
    ∃ file, (st.writeSync host off cb buf).2 =
        { st with image := { st.image with file := file }, ops := st.ops + 1 } ∧
      (file = st.image.file ∨ file = st.image.file.write off cb buf) ∧
      (host.fails st.ops = false → file = st.image.file.write off cb buf) := by
  unfold CompactState.writeSync
  split
  · rename_i fails
    exact ⟨_, rfl, Or.inl rfl, fun fine => absurd fails (by rw [fine]; decide)⟩
  · exact ⟨_, rfl, Or.inr rfl, fun _ => rfl⟩

/-- The first two operations of a move go unnoticed, the next two do not. -/
theorem unnoticed_move (image : VdiImage) (host : CompactHost) (moved : Nat) {j : Nat}
    (four : j < 4) : Unnoticed image host (firstMove image host + 4 * moved + j) ↔ j < 2 := by
  unfold Unnoticed
  omega

/-- The file after the first two operations of a move. -/
structure MovedData (image : VdiImage) (i : Nat) (file file' : ByteFile) : Prop where
  size : file'.size = file.size
  rest : ∀ j, j < slotByte image i 0 ∨ slotByte image i (getImageBlockSize image.header) ≤ j →
    file'.byte j = file.byte j

theorem movedData_of_write {i : Nat} {file file' : ByteFile} {buf : Buf}
    (inside : slotByte image i (getImageBlockSize image.header) ≤ file.size)
    (cases_of : file' = file ∨
      file' = file.write (slotByte image i 0) (getImageBlockSize image.header) buf) :
    MovedData image i file file' := by
  have last : slotByte image i (getImageBlockSize image.header) =
      slotByte image i 0 + getImageBlockSize image.header := rfl
  rcases cases_of with rfl | rfl
  · exact ⟨rfl, fun _ _ => rfl⟩
  · constructor
    · rw [ByteFile.size_write]
      split
      · rfl
      · omega
    · intro j outside
      exact ByteFile.byte_write_of_not_mem (by omega)

/-- The variables of `vdiCompact` before it saves the entry of a moved block. -/
def redirected (st : CompactState) (cBlocksAllocated q i u : Nat) (buf : Buf) (file : ByteFile) :
    CompactState :=
  { st with
    uBlockUsedPos := q
    pvTmp := buf
    ops := st.ops + 2
    image := { st.image with
      file := file
      paBlocks := st.image.paBlocks.set u i
      header := setImageBlocksAllocated (cBlocksAllocated - st.cBlocksMoved) st.image.header } }

/-- Block `u` in slot `q`, the last one in use, is to be moved into the hole `i`. -/
structure MoveReady (image : VdiImage) (host : CompactHost) (parent : Buf) (i q u : Nat)
    (st : CompactState) : Prop where
  filling : Filling image host parent i st
  hole : FreeSlot st.paBlocks2 i
  above : i < q
  small : q < compactBlocks image
  taken : ¬ FreeSlot st.paBlocks2 q
  named : st.paBlocks2.getD q vdiImageBlockFree = u
  slot : HasSlot st.image u q
  empty : ∀ p, q < p → FreeSlot st.paBlocks2 p

/-- The read and the write of the move have been made, whatever their status. -/
structure DataMoved (image : VdiImage) (host : CompactHost) (i q : Nat) (st : CompactState)
    (file : ByteFile) : Prop where
  moved : MovedData image i st.image.file file
  copied : Noticed image host → CopiedTo image q i st.image.file file

namespace MoveReady

variable {i q u : Nat} {st : CompactState} (ready : MoveReady image host parent i q u st)

include ready

theorem insideTable : u < st.image.paBlocks.length :=
  (List.getElem?_eq_some_iff.mp ready.slot.1).choose

theorem inUse : IsAllocated i := lt_trans ready.above ready.slot.2

theorem unnoticed {j : Nat} (four : j < 4) : Unnoticed image host (st.ops + j) ↔ j < 2 := by
  rw [ready.filling.ops_eq]
  exact unnoticed_move image host st.cBlocksMoved four

theorem shape (buf : Buf) (file : ByteFile) :
    SameShape image (redirected st (compactBlocks image) q i u buf file).image :=
  (ready.filling.packing.shape.update file (st.image.paBlocks.set u i)).recount _

/-- The read and the write of a move, and what is left to do after them. -/
theorem moveData (comp : Compactable image) : ∃ buf file, DataMoved image host i q st file ∧
    compactMove host (compactBlocks image) i u { st with uBlockUsedPos := q } =
      andThen ((redirected st (compactBlocks image) q i u buf file).updateBlockInfo host u)
        fun st => some (.vinfSuccess, { st with
          paBlocks2 := (st.paBlocks2.set i u).set st.uBlockUsedPos vdiImageBlockFree
          cBlocksMoved := st.cBlocksMoved + 1 }) := by
  have packing := ready.filling.packing
  have atQ := packing.inFile u q ready.slot
  have less := slotEnd_mono image ready.above
  have place : ∀ p, slotEnd image p = slotByte image p 0 + getImageBlockSize image.header := by
    intro p
    rw [slotEnd, slotByte]
    omega
  obtain ⟨buf, read, readOk⟩ := readSync_snd host { st with uBlockUsedPos := q }
    (compactOffset image q) (getImageBlockSize image.header)
    (by rw [comp.offset_eq, packing.size, ← place]; exact atQ)
  obtain ⟨file, write, writeCases, writeOk⟩ := writeSync_snd host
    { st with uBlockUsedPos := q, ops := st.ops + 1, pvTmp := buf } (compactOffset image i)
    (getImageBlockSize image.header) buf
  refine ⟨buf, file, ⟨?_, fun noticed => ?_⟩, ?_⟩
  · rw [comp.offset_eq] at writeCases
    refine movedData_of_write (show slotByte image i 0 + _ ≤ _ from ?_) writeCases
    rw [← place, packing.size]
    omega
  · rw [comp.offset_eq] at readOk writeOk
    have fine : ∀ j < 2, host.fails (st.ops + j) = false := by
      intro j two
      by_contra fails
      exact noticed _ (by simpa using fails) ((ready.unnoticed (by omega)).mpr two)
    have copy := copiedTo_write image q i st.image.file
    rwa [← readOk (fine 0 (by omega)), ← writeOk (fine 1 (by omega))] at copy
  · unfold compactMove
    simp only [packing.shape.compactOffset_eq, packing.shape.blockSize, read, write]
    exact if_pos ready.insideTable

section

variable (comp : Compactable image) {buf : Buf} {file file' : ByteFile}
  (data : DataMoved image host i q st file) (same : SameData st.image.offStartData file file')

include comp data same

/-- With both operations noticed the image shows the same. -/
theorem shows (noticed : Noticed image host) (zeros : ZerosAreZero image host) :
    ShowsSame image host parent
      { (redirected st (compactBlocks image) q i u buf file).image with file := file' } := by
  intro o disk used
  have packing := ready.filling.packing
  have fresh := packing.unnamed_of_free comp ready.hole
  have step : SameShape st.image
      { (redirected st (compactBlocks image) q i u buf file).image with file := file' } :=
    ⟨rfl, rfl, rfl, rfl, rfl, rfl, rfl, Or.inr ⟨_, rfl⟩⟩
  rw [packing.shape.offStartData] at same
  rw [← ready.filling.shows noticed zeros o disk used, overParent, overParent]
  rw [content_moved comp packing.shape step packing.entries ready.slot fresh ready.inUse rfl
    ((data.copied noticed).sameData same) o]

/-- The tables after the move. -/
theorem packing :
    Packing image { (redirected st (compactBlocks image) q i u buf file).image with file := file' }
      ((st.paBlocks2.set i u).set q vdiImageBlockFree) := by
  have packing := ready.filling.packing
  have fresh := packing.unnamed_of_free comp ready.hole
  have less := slotEnd_mono image ready.above
  have atQ := packing.inFile u q ready.slot
  refine ⟨ready.shape buf file', ?_, entries_set packing.entries u ready.inUse.small, ?_, ?_, ?_,
    packing.indexes.move ready.slot.1 ready.slot.2 fresh ready.inUse
      (lt_trans ready.above ready.small)⟩
  · simp only [redirected, length_set]
    exact packing.length
  · exact same.size.trans (data.moved.size.trans packing.size)
  · rintro k p ⟨found, inUse⟩
    simp only [redirected] at found
    by_cases here : u = k
    · subst here
      rw [getElem?_set_self ready.insideTable] at found
      cases found
      omega
    · rw [getElem?_set_ne here] at found
      exact packing.inFile k p ⟨found, inUse⟩
  · simp only [length_set]
    exact packing.rev

end

/-- The back resolving table after the move. -/
theorem getD_moved (p : Nat) :
    ((st.paBlocks2.set i u).set q vdiImageBlockFree).getD p vdiImageBlockFree =
      if p = q then vdiImageBlockFree else if p = i then u
        else st.paBlocks2.getD p vdiImageBlockFree := by
  have insideI : i < st.paBlocks2.length := by
    rw [ready.filling.packing.rev]
    exact lt_trans ready.above ready.small
  simp only [getD_eq_getElem?_getD]
  grind

/-- A block that holds zeros has no slot, so that it is not the one that moves. -/
theorem settled : ∀ k < getImageBlocks image.header,
    Settled image host (st.image.paBlocks.set u i) k := by
  intro k below p found
  obtain ⟨zeroed, answers⟩ := ready.filling.settled k below p found
  refine ⟨fun tests => ?_, answers⟩
  have other : u ≠ k := by
    rintro rfl
    have entry := zeroed tests
    rw [ready.slot.1] at entry
    exact not_isAllocated_zero (some.inj entry ▸ ready.slot.2)
  rw [getElem?_set_ne other]
  exact zeroed tests

section

variable (comp : Compactable image) {buf : Buf} {file file' : ByteFile}
  (data : DataMoved image host i q st file)

include comp data

/-- The entry of the block is saved, the others are where they were. -/
theorem stored (stored : TableOnDisk st.image)
    (saved : StoresEntry st.image.offStartBlocks u i file file') : TableOnDisk
      { (redirected st (compactBlocks image) q i u buf file).image with file := file' } := by
  have packing := ready.filling.packing
  intro k p found
  refine (saved k).trans ?_
  simp only [redirected] at found ⊢
  by_cases here : k = u
  · subst here
    rw [if_pos rfl]
    rw [getElem?_set_self ready.insideTable] at found
    exact some.inj found
  · rw [if_neg here]
    rw [getElem?_set_ne (Ne.symm here)] at found
    rw [← stored k p found]
    have blockK : k < getImageBlocks image.header := by
      rw [← comp.setUp.length_paBlocks, ← packing.length]
      exact (List.getElem?_eq_some_iff.mp found).choose
    have below := comp.layout.entry_below blockK
    have dataArea := le_slotByte image i 0
    refine storedEntry_congr fun j _ high => data.moved.rest j (Or.inl ?_)
    rw [packing.shape.offStartBlocks] at high
    omega

/-- The state after the move. -/
theorem next (same : SameData st.image.offStartData file file')
    (saved : StoresEntry st.image.offStartBlocks u i file file')
    (fine : ∀ j, st.ops + 2 ≤ j → j < st.ops + 2 + 2 → host.fails j = false) :
    Filling image host parent (i + 1) { st with
      uBlockUsedPos := q
      pvTmp := buf
      ops := st.ops + 4
      image := { (redirected st (compactBlocks image) q i u buf file).image with file := file' }
      paBlocks2 := (st.paBlocks2.set i u).set q vdiImageBlockFree
      cBlocksMoved := st.cBlocksMoved + 1 } := by
  have above := ready.above
  refine ⟨ready.packing comp data same, ?_, above, ready.small.le, ?_, ?_, ?_, ready.settled,
    ready.shows comp data same,
    fun onDisk quiet => ready.stored comp data (ready.filling.stored onDisk quiet) saved⟩
  · have := ready.filling.ops_eq
    dsimp only
    omega
  · intro p early
    rw [FreeSlot, ready.getD_moved, if_neg (by omega)]
    split
    · rw [← ready.named]
      exact ready.taken
    · exact ready.filling.filled p (by omega)
  · intro p high
    rw [FreeSlot, ready.getD_moved]
    split
    · rfl
    · have high : q ≤ p := high
      rw [if_neg (by omega)]
      exact ready.empty p (by omega)
  · intro op early fails
    have early : op < st.ops + 4 := early
    by_cases old : op < st.ops
    · exact ready.filling.fine op old fails
    obtain ⟨j, rfl⟩ : ∃ j, op = st.ops + j := ⟨op - st.ops, by omega⟩
    rw [ready.unnoticed (by omega)]
    by_contra late
    rw [fine _ (by omega) (by omega)] at fails
    cases fails

end

end MoveReady

namespace Filling

variable {i q : Nat} {st : CompactState}

/-- Moving the last block into a hole. -/
theorem move (f : Filling image host parent i st) (comp : Compactable image)
    (hole : FreeSlot st.paBlocks2 i) (above : i < q)
    (taken : ¬ FreeSlot st.paBlocks2 q) (empty : ∀ p, q < p → FreeSlot st.paBlocks2 p) :
    Outcome (Filling image host parent (i + 1)) (Broken image host parent)
      (compactMove host (compactBlocks image) i (st.paBlocks2.getD q vdiImageBlockFree)
        { st with uBlockUsedPos := q }) := by
  obtain ⟨small, slot⟩ := f.packing.slot_of_taken taken
  generalize named : st.paBlocks2.getD q vdiImageBlockFree = u at slot
  have ready : MoveReady image host parent i q u st :=
    ⟨f, hole, above, small, taken, named, slot, empty⟩
  obtain ⟨buf, file, data, run⟩ := ready.moveData comp
  have shape := ready.shape buf file
  have inside : image.offStartData ≤ file.size := by
    rw [data.moved.size, f.packing.size]
    exact le_of_add_le_left comp.dataInside
  rw [run]
  have update := updateBlockInfo_outcome host (redirected st (compactBlocks image) q i u buf file)
    (comp.layout.sameShape shape) (by rw [shape.blocks]; exact f.packing.block_lt comp slot)
    (getElem?_set_self ready.insideTable) ready.inUse.small
    (by rw [shape.offStartData]; exact inside)
  refine (update.mono (fun _ here => here) ?_).seq ?_
  · rintro s ⟨file', ops, rfl, same, op, low, high, fails⟩
    refine ⟨ready.shows comp data same, fun _ fine => ?_, Or.inl ⟨op, fails, ?_⟩⟩
    · rw [fine op] at fails
      cases fails
    · simp only [redirected] at low high
      obtain ⟨j, rfl⟩ : ∃ j, op = st.ops + j := ⟨op - st.ops, by omega⟩
      rw [ready.unnoticed (by omega)]
      omega
  · rintro s ⟨file', rfl, same, saved, fine⟩
    exact ⟨_, _, rfl, Or.inl ⟨rfl, ready.next comp data same saved fine⟩⟩

/-- Stopping here shows what the image showed. -/
theorem broken (f : Filling image host parent i st) (blamed : Blamed image host) :
    Broken image host parent st :=
  ⟨f.shows, f.stored, blamed⟩

theorem progressCalls {n : Nat} (f : Filling image host parent i st) :
    Filling image host parent i { st with progressCalls := n } :=
  ⟨f.packing, f.ops_eq, f.passed, f.top, f.filled, f.empty, f.fine, f.settled, f.shows,
    f.stored⟩

section

variable (f : Filling image host parent i st)

include f

theorem progress :
    Outcome (Filling image host parent i) (Broken image host parent) (st.progress host) :=
  progress_outcome (fun _ => f.progressCalls) fun _ rough => f.progressCalls.broken (Or.inr rough)

/-- There is nothing to move from the hole at `i` on. -/
theorem stop (empty : ∀ p, i ≤ p → FreeSlot st.paBlocks2 p) :
    Filling image host parent i { st with uBlockUsedPos := i } :=
  ⟨f.packing, f.ops_eq, le_refl i, f.passed.trans f.top, f.filled, empty, f.fine,
    f.settled, f.shows, f.stored⟩

/-- A slot in use needs no filling. -/
theorem keep (taken : ¬ FreeSlot st.paBlocks2 i) : Filling image host parent (i + 1) st := by
  refine { f with passed := ?_, filled := fun p early => ?_ }
  · by_contra late
    exact taken (f.empty i (by omega))
  · rcases Nat.lt_succ_iff_lt_or_eq.mp early with old | rfl
    · exact f.filled p old
    · exact taken

end

/-- The third pass ends with the slots below `uBlockUsedPos` in use and no others. -/
theorem fill (comp : Compactable image) {rounds : Nat} (f : Filling image host parent i st)
    (total : i + rounds = compactBlocks image) :
    Outcome (fun s => Filling image host parent s.uBlockUsedPos s) (Broken image host parent)
      (compactFill host (compactBlocks image) rounds i st) := by
  induction rounds generalizing i st with
  | zero =>
    have here : st.uBlockUsedPos = i := by
      have := f.passed
      have := f.top
      omega
    refine Outcome.done ?_
    rw [here]
    exact f
  | succ rounds ih =>
    have rest : ∀ s, Filling image host parent (i + 1) s →
        Outcome (fun s => Filling image host parent s.uBlockUsedPos s) (Broken image host parent)
          (andThen (s.progress host)
            (compactFill host (compactBlocks image) rounds (i + 1))) :=
      fun s next => next.progress.seq fun t later => ih later (by omega)
    rw [compactFill]
    by_cases hole : FreeSlot st.paBlocks2 i
    · rw [if_pos (show st.paBlocks2.getD i _ = _ from hole)]
      dsimp only
      rcases seekData_spec f.passed hole f.empty with ⟨found, empty⟩ | found
      · rw [if_pos found, found]
        exact Outcome.done (f.stop empty)
      · obtain ⟨above, below, data, taken, empty⟩ := found
        rw [if_neg (by omega), data]
        exact (f.move comp hole above taken empty).seq rest
    · rw [if_neg (show ¬ st.paBlocks2.getD i _ = _ from hole)]
      exact rest st (f.keep hole)

end Filling

end Moves

end VBox.Storage.Vdi
