import VBox.Storage.Vdi.Durability

/-!
What `vdiCompact` leaves of the disk when it stops: the first two passes.

`Outcome` is the rule for the loops of the function: a stage succeeds and keeps
an invariant, or it breaks off in a state of which less is known. The first
pass builds the inverse of the block table. The second one drops blocks; it
keeps the data area, and `Checking` says that the image shows the same over
its parent, how many file operations were made and that none of them failed.
-/

open List Option

namespace VBox.Storage

section Stages

variable {σ : Type} {inv mid stopped : σ → Prop}

/-- A stage succeeds in a state with `inv`, or breaks off in one with `stopped`. -/
def Outcome (inv stopped : σ → Prop) (result : Option (Status × σ)) : Prop :=
  ∃ rc s, result = some (rc, s) ∧
    (rc = .vinfSuccess ∧ inv s ∨ rc ≠ .vinfSuccess ∧ stopped s)

namespace Outcome

theorem done {s : σ} (here : inv s) : Outcome inv stopped (some (.vinfSuccess, s)) :=
  ⟨_, _, rfl, Or.inl ⟨rfl, here⟩⟩

theorem broken {rc : Status} {s : σ} (failure : rc ≠ .vinfSuccess) (here : stopped s) :
    Outcome inv stopped (some (rc, s)) :=
  ⟨_, _, rfl, Or.inr ⟨failure, here⟩⟩

theorem mono {inv' stopped' : σ → Prop} {result : Option (Status × σ)}
    (outcome : Outcome inv stopped result) (keeps : ∀ s, inv s → inv' s)
    (stops : ∀ s, stopped s → stopped' s) : Outcome inv' stopped' result := by
  obtain ⟨rc, s, rfl, ⟨success, here⟩ | ⟨failure, here⟩⟩ := outcome
  · exact ⟨rc, s, rfl, Or.inl ⟨success, keeps s here⟩⟩
  · exact ⟨rc, s, rfl, Or.inr ⟨failure, stops s here⟩⟩

theorem seq {result : Option (Status × σ)} {next : σ → Option (Status × σ)}
    (first : Outcome mid stopped result) (second : ∀ s, mid s → Outcome inv stopped (next s)) :
    Outcome inv stopped (andThen result next) := by
  obtain ⟨rc, s, rfl, ⟨rfl, here⟩ | ⟨failure, here⟩⟩ := first
  · simpa [andThen] using second s here
  · exact ⟨rc, s, by simp [andThen, failure], Or.inr ⟨failure, here⟩⟩

/-- A loop over the numbers below `n`, with an invariant that counts the rounds. -/
theorem range {body : Nat → σ → Option (Status × σ)} {inv : Nat → σ → Prop} {n : Nat}
    (round : ∀ k < n, ∀ s, inv k s → Outcome (inv (k + 1)) stopped (body k s)) {s : σ}
    (start : inv 0 s) : Outcome (inv n) stopped (forEach body (range n) s) := by
  have rounds : ∀ len k s, k + len = n → inv k s →
      Outcome (inv n) stopped (forEach body (range' k len) s) := by
    intro len
    induction len with
    | zero =>
      intro k s total here
      rw [← total]
      exact done here
    | succ len ih =>
      intro k s total here
      rw [range'_succ, forEach]
      exact (round k (by omega) s here).seq fun t next => ih (k + 1) t (by omega) next
  rw [range_eq_range']
  exact rounds n 0 s (by omega) start

end Outcome

end Stages

end VBox.Storage

namespace VBox.Storage.Vdi

open VBox.Lib

/-! ### Images to compact -/

/-- A dynamic image whose slots are different and lie in the file; the file
reaches to the data of the first slot and has room for fewer than 2^32 blocks. -/
structure Compactable (image : VdiImage) : Prop where
  setUp : SetUp image
  layout : Layout image
  entries : ∀ p ∈ image.paBlocks, p < 2 ^ 32
  distinct : ∀ i j p, HasSlot image i p → HasSlot image j p → i = j
  inFile : ∀ i p, HasSlot image i p → slotEnd image p ≤ image.file.size
  dataInside : image.offStartData + image.offStartBlockData ≤ image.file.size
  room : image.file.size <
    image.offStartData + image.offStartBlockData + 2 ^ 32 * getImageBlockSize image.header

section Compactable

variable {image : VdiImage}

theorem Compactable.offset_eq (comp : Compactable image) (p : Nat) :
    compactOffset image p = slotByte image p 0 := by
  have noWrap := comp.layout.noWrap
  have positive := comp.setUp.blockSize_pos
  rw [compactOffset, slotByte, u32_of_lt (by omega)]
  omega

theorem Compactable.blocks_eq (comp : Compactable image) : compactBlocks image =
      (image.file.size - image.offStartData - image.offStartBlockData) /
        getImageBlockSize image.header := by
  have inside := comp.dataInside
  have room := comp.room
  have positive := comp.setUp.blockSize_pos
  rw [compactBlocks, u64Sub_of_le (show image.offStartData ≤ image.file.size by omega),
    u64Sub_of_le (show image.offStartBlockData ≤ image.file.size - image.offStartData by omega),
    Nat.shiftRight_eq_div_pow, comp.setUp.uShiftOffset2Index,
    ← getPowerOfTwo_spec comp.setUp.valid.blockSize]
  refine u32_of_lt ?_
  rw [Nat.div_lt_iff_lt_mul positive]
  omega

/-- A slot the file holds is below `cBlocksAllocated` of the compaction. -/
theorem Compactable.slot_lt (comp : Compactable image) {i p : Nat} (slot : HasSlot image i p) :
    p < compactBlocks image := by
  have held := comp.inFile i p slot
  have larger : p * getImageBlockSize image.header ≤ p * image.cbTotalBlockData :=
    Nat.mul_le_mul_left p (by rw [comp.layout.cbTotalBlockData_eq comp.setUp]; omega)
  rw [slotEnd] at held
  rw [comp.blocks_eq, Nat.lt_iff_add_one_le, Nat.le_div_iff_mul_le comp.setUp.blockSize_pos,
    Nat.succ_mul]
  omega

/-! ### The first pass -/

/-- A compaction that has filled nothing but `paBlocks2` so far. -/
structure Started (image : VdiImage) (st : CompactState) : Prop where
  image_eq : st.image = image
  usedPos : st.uBlockUsedPos = compactBlocks image
  moved : st.cBlocksMoved = 0
  ops : st.ops = 0

/-- After `k` rounds of the first pass nothing has changed but the back
resolving table, the inverse of the first `k` entries. -/
structure Resolving (image : VdiImage) (k : Nat) (st : CompactState) : Prop where
  start : Started image st
  length : st.paBlocks2.length = compactBlocks image
  indexes : Indexes IsAllocated vdiImageBlockFree (image.paBlocks.take k) st.paBlocks2
    (compactBlocks image)

theorem Compactable.resolve (comp : Compactable image) (host : CompactHost) {k : Nat}
    (below : k < getImageBlocks image.header) {st : CompactState} (sofar : Resolving image k st) :
    ∃ st', compactResolve host k st = some (.vinfSuccess, st') ∧ Resolving image (k + 1) st' := by
  obtain ⟨⟨same, usedPos, moved, ops⟩, length, indexes⟩ := sofar
  have inside : k < image.paBlocks.length := by
    rw [comp.setUp.length_paBlocks]
    exact below
  obtain ⟨rev, run, length', grown⟩ := compactResolve_next host same inside comp.distinct
    (fun p slot => comp.slot_lt slot) length indexes
  exact ⟨_, run, ⟨same, usedPos, moved, ops⟩, length', grown⟩

/-- The first pass frees nothing and builds the inverse of the block table. -/
theorem Compactable.resolve_all (comp : Compactable image) (host : CompactHost) :
    ∃ st, forEach (compactResolve host) (range (getImageBlocks image.header))
        (compactStart image) = some (.vinfSuccess, st) ∧ Started image st ∧
      st.paBlocks2.length = compactBlocks image ∧
      Indexes IsAllocated vdiImageBlockFree image.paBlocks st.paBlocks2 (compactBlocks image) := by
  have start : Resolving image 0 (compactStart image) :=
    ⟨⟨rfl, rfl, rfl, rfl⟩, length_replicate, by
      rw [take_zero]
      exact indexes_replicate (le_refl _)⟩
  obtain ⟨st, run, same, length, whole⟩ := forEach_range
    (fun k below _ sofar => comp.resolve host below sofar) start
  rw [← comp.setUp.length_paBlocks, take_length] at whole
  exact ⟨st, run, same, length, whole⟩

end Compactable

/-! ### Writing metadata -/

/-- Two files of the same size with the same data area. -/
structure SameData (offStartData : Nat) (file file' : ByteFile) : Prop where
  size : file'.size = file.size
  data : ∀ j, offStartData ≤ j → file'.byte j = file.byte j

/-- The second file stores one entry anew and keeps all others. -/
def StoresEntry (offStartBlocks i p : Nat) (file file' : ByteFile) : Prop :=
  ∀ k, storedEntry file' offStartBlocks k =
    if k = i then p else storedEntry file offStartBlocks k

section Metadata

theorem SameData.write {offStartData : Nat} {file file' : ByteFile}
    (same : SameData offStartData file file') (inside : offStartData ≤ file.size) {off n : Nat}
    {b : Buf} (below : off + n ≤ offStartData) :
    SameData offStartData file (file'.write off n b) := by
  obtain ⟨size, data⟩ := same
  constructor
  · rw [ByteFile.size_write]
    split
    · exact size
    · omega
  · intro j high
    rw [ByteFile.byte_write_of_not_mem (by omega)]
    exact data j high

/-- A write changes the file or fails. -/
theorem writeSync_outcome (host : CompactHost) (st : CompactState) (off cb : Nat) (buf : Buf) :
    Outcome
      (fun s => s = { st with
        image := { st.image with file := st.image.file.write off cb buf }, ops := st.ops + 1 } ∧
          host.fails st.ops = false)
      (fun s => s = { st with ops := st.ops + 1 } ∧ host.fails st.ops = true)
      (some (st.writeSync host off cb buf)) := by
  unfold CompactState.writeSync
  split
  · rename_i fails
    exact Outcome.broken (by decide) ⟨rfl, fails⟩
  · rename_i fine
    exact Outcome.done ⟨rfl, by simpa using fine⟩

/-- Saving an entry writes the header and the entry, or fails in one of the two. -/
theorem updateBlockInfo_outcome (host : CompactHost) (st : CompactState)
    (layout : Layout st.image) {i p : Nat} (block : i < getImageBlocks st.image.header)
    (entry : st.image.paBlocks[i]? = some p)
    (small : p < 2 ^ 32) (inside : st.image.offStartData ≤ st.image.file.size) : Outcome
      (fun s => ∃ file, s = { st with image := { st.image with file := file }, ops := st.ops + 2 } ∧
        SameData st.image.offStartData st.image.file file ∧
        StoresEntry st.image.offStartBlocks i p st.image.file file ∧
        ∀ j, st.ops ≤ j → j < st.ops + 2 → host.fails j = false)
      (fun s => ∃ file ops, s = { st with image := { st.image with file := file }, ops := ops } ∧
        SameData st.image.offStartData st.image.file file ∧
        ∃ j, st.ops ≤ j ∧ j < st.ops + 2 ∧ host.fails j = true)
      (st.updateBlockInfo host i) := by
  have headerBelow := layout.header_below
  have entryBelow := layout.entry_below block
  have headerEnd := layout.headerEnd
  have start : SameData st.image.offStartData st.image.file st.image.file := ⟨rfl, fun _ _ => rfl⟩
  have header := writeSync_outcome host st sizeofPreHeader (headerBytes st.image.header).1
    (headerBytes st.image.header).2
  unfold CompactState.updateBlockInfo
  refine (header.mono (fun _ here => here) ?_).seq ?_
  · rintro s ⟨rfl, fails⟩
    exact ⟨st.image.file, st.ops + 1, rfl, start, st.ops, le_refl _, by omega, fails⟩
  · rintro s ⟨rfl, fine⟩
    have headerData := start.write inside (b := (headerBytes st.image.header).2) headerBelow
    dsimp only
    rw [entry, map_some, CompactState.writeSync]
    split
    · rename_i fails
      exact Outcome.broken (by decide)
        ⟨_, _, rfl, headerData, st.ops + 1, by omega, by omega, fails⟩
    · rename_i fine'
      refine Outcome.done ⟨_, rfl, headerData.write inside entryBelow, fun k => ?_, ?_⟩
      · rw [storedEntry_save small]
        split
        · rfl
        · exact storedEntry_write (by omega)
      · intro j low high
        rcases Nat.eq_or_lt_of_le low with rfl | next
        · exact fine
        · have : j = st.ops + 1 := by omega
          rw [this]
          simpa using fine'

end Metadata

/-! ### What the second pass decides

The decisions are functions of the image before the compaction: the pass
changes no data. -/

/-- The data of a slot, as the file has it. -/
def slotData (image : VdiImage) (p : Nat) : Buf := image.file.byte.drop (compactOffset image p)

/-- `ASMBitFirstSet` finds no bit in the data of slot `p`. -/
def TestsZero (image : VdiImage) (p : Nat) : Prop :=
  (slotData image p).isZero (cbTested (getImageBlockSize image.header)) = true

instance instDecidableTestsZero (image : VdiImage) (p : Nat) : Decidable (TestsZero image p) :=
  inferInstanceAs (Decidable (_ = true))

/-- The data of slot `p` is what the parent has for block `i`. -/
def RepeatsParent (image : VdiImage) (host : CompactHost) (i p : Nat) : Prop :=
  match host.pfnParentRead with
  | none => False
  | some pfnParentRead =>
      match pfnParentRead (i * getImageBlockSize image.header) (getImageBlockSize image.header) with
      | .error _ => False
      | .ok pvBuf => sameBytes (slotData image p) pvBuf (getImageBlockSize image.header) = true

instance instDecidableRepeatsParent (image : VdiImage) (host : CompactHost) (i p : Nat) :
    Decidable (RepeatsParent image host i p) := by
  unfold RepeatsParent
  split
  · infer_instance
  · split <;> infer_instance

/-- The caller reports the range of block `i` unused. -/
def ReportedUnused (image : VdiImage) (host : CompactHost) (i : Nat) : Prop :=
  match host.pfnQueryRangeUse with
  | none => False
  | some pfnQueryRangeUse =>
      match pfnQueryRangeUse (i * getImageBlockSize image.header)
          (getImageBlockSize image.header) with
      | .error _ => False
      | .ok fUsed => fUsed = false

instance instDecidableReportedUnused (image : VdiImage) (host : CompactHost) (i : Nat) :
    Decidable (ReportedUnused image host i) := by
  unfold ReportedUnused
  split
  · infer_instance
  · split <;> infer_instance

/-- The second pass takes the slot of block `i` away. -/
def Drops (image : VdiImage) (host : CompactHost) (i p : Nat) : Prop :=
  TestsZero image p ∨ RepeatsParent image host i p ∨ ReportedUnused image host i

instance instDecidableDrops (image : VdiImage) (host : CompactHost) (i p : Nat) :
    Decidable (Drops image host i p) :=
  inferInstanceAs (Decidable (_ ∨ _ ∨ _))

/-- The file operations of the second pass on block `i`: a read, and two writes
where the slot is taken away. -/
def checkCost (image : VdiImage) (host : CompactHost) (i : Nat) : Nat :=
  match image.paBlocks[i]? with
  | none => 0
  | some p => if IsAllocated p then (if Drops image host i p then 3 else 1) else 0

/-- The file operations of the second pass on the blocks below `k`. -/
def checkOps (image : VdiImage) (host : CompactHost) (k : Nat) : Nat :=
  ((List.range k).map (checkCost image host)).sum

/-- The number of file operations before the first block is moved. -/
def firstMove (image : VdiImage) (host : CompactHost) : Nat :=
  checkOps image host (getImageBlocks image.header)

/-- The operations whose failure goes unnoticed. A move reads, writes, updates
the header and saves the entry; the status of the first two is overwritten. The
update of the header after the last move is not checked either. -/
def Unnoticed (image : VdiImage) (host : CompactHost) (op : Nat) : Prop :=
  firstMove image host ≤ op ∧ (op - firstMove image host) % 4 < 2

instance instDecidableUnnoticed (image : VdiImage) (host : CompactHost) (op : Nat) :
    Decidable (Unnoticed image host op) :=
  inferInstanceAs (Decidable (_ ∧ _))

/-- Every failure is noticed. -/
def Noticed (image : VdiImage) (host : CompactHost) : Prop :=
  ∀ op, host.fails op = true → ¬ Unnoticed image host op

/-- A block in which `ASMBitFirstSet` finds no bit holds nothing but zeros inside
the disk, or is not in use. -/
def ZerosAreZero (image : VdiImage) (host : CompactHost) : Prop :=
  ∀ i p, HasSlot image i p → TestsZero image p → ReportedUnused image host i ∨
    ∀ off < getImageBlockSize image.header,
      i * getImageBlockSize image.header + off < getImageDiskSize image.header →
        image.file.byte (slotByte image p off) = 0

/-- The callbacks present the parent's data, and their errors are failures. -/
structure Presents (host : CompactHost) (parent : Buf) : Prop where
  data : ∀ pfnParentRead, host.pfnParentRead = some pfnParentRead → ∀ off cb pvBuf,
    pfnParentRead off cb = .ok pvBuf → ∀ j < cb, pvBuf j = parent (off + j)
  parentFails : ∀ pfnParentRead, host.pfnParentRead = some pfnParentRead → ∀ off cb rc,
    pfnParentRead off cb = .error rc → rc ≠ .vinfSuccess
  queryFails : ∀ pfnQueryRangeUse, host.pfnQueryRangeUse = some pfnQueryRangeUse → ∀ off cb rc,
    pfnQueryRangeUse off cb = .error rc → rc ≠ .vinfSuccess

/-- The parent answers for block `i`, where it is asked. -/
def ParentAnswers (image : VdiImage) (host : CompactHost) (i : Nat) : Prop :=
  ∀ pfnParentRead, host.pfnParentRead = some pfnParentRead →
    ∃ pvBuf, pfnParentRead (i * getImageBlockSize image.header)
      (getImageBlockSize image.header) = .ok pvBuf

/-- The second pass is through with block `i`. -/
def Settled (image : VdiImage) (host : CompactHost) (paBlocks : List Nat) (i : Nat) : Prop :=
  ∀ p, HasSlot image i p →
    (TestsZero image p → paBlocks[i]? = some vdiImageBlockZero) ∧
      (¬ TestsZero image p → ParentAnswers image host i)

/-- The callbacks answer, and nothing cancels the compaction. -/
structure Smooth (image : VdiImage) (host : CompactHost) : Prop where
  goesOn : ∀ pfnProgress, host.pfnProgress = some pfnProgress → ∀ n, pfnProgress n = .vinfSuccess
  reads : ∀ i p, HasSlot image i p → ¬ TestsZero image p → ParentAnswers image host i
  answers : ∀ pfnQueryRangeUse, host.pfnQueryRangeUse = some pfnQueryRangeUse → ∀ i,
    ∃ fUsed, pfnQueryRangeUse (i * getImageBlockSize image.header)
      (getImageBlockSize image.header) = .ok fUsed

/-- A compaction that stops early has a reason to. -/
def Blamed (image : VdiImage) (host : CompactHost) : Prop :=
  (∃ op, host.fails op = true ∧ ¬ Unnoticed image host op) ∨ ¬ Smooth image host

/-- What an image shows at a virtual offset over its parent. -/
def overParent (image : VdiImage) (parent : Buf) (o : Nat) : UInt8 :=
  (content image o).getD (parent o)

/-- The ranges in use show the same over the parent. -/
def ShowsSame (image : VdiImage) (host : CompactHost) (parent : Buf) (image' : VdiImage) : Prop :=
  ∀ o < getImageDiskSize image.header,
    ¬ ReportedUnused image host (o / getImageBlockSize image.header) →
      overParent image' parent o = overParent image parent o

/-- The state in which a compaction stops early. -/
structure Broken (image : VdiImage) (host : CompactHost) (parent : Buf) (st : CompactState) :
    Prop where
  shows : Noticed image host → ZerosAreZero image host → ShowsSame image host parent st.image
  stored : TableOnDisk image → (∀ op, host.fails op = false) → TableOnDisk st.image
  blamed : Blamed image host

/-- A compaction has kept the layout of the image, the slots lie in the file and
`paBlocks2` inverts the block table. -/
structure Packing (image image' : VdiImage) (paBlocks2 : List Nat) : Prop where
  shape : SameShape image image'
  length : image'.paBlocks.length = image.paBlocks.length
  entries : ∀ p ∈ image'.paBlocks, p < 2 ^ 32
  size : image'.file.size = image.file.size
  inFile : ∀ i p, HasSlot image' i p → slotEnd image p ≤ image.file.size
  rev : paBlocks2.length = compactBlocks image
  indexes : Indexes IsAllocated vdiImageBlockFree image'.paBlocks paBlocks2 (compactBlocks image)

/-- After `ops` operations of the second pass, with the blocks from `k` on as
they were. -/
structure Checking (image : VdiImage) (host : CompactHost) (parent : Buf) (k ops : Nat)
    (st : CompactState) : Prop where
  packing : Packing image st.image st.paBlocks2
  ops_eq : st.ops = ops
  usedPos : st.uBlockUsedPos = compactBlocks image
  moved : st.cBlocksMoved = 0
  data : ∀ j, image.offStartData ≤ j → st.image.file.byte j = image.file.byte j
  ahead : ∀ i, k ≤ i → st.image.paBlocks[i]? = image.paBlocks[i]?
  settled : ∀ i < k, Settled image host st.image.paBlocks i
  fine : ∀ op < ops, host.fails op = false
  shows : ZerosAreZero image host → ShowsSame image host parent st.image
  stored : TableOnDisk image → (∀ op, host.fails op = false) → TableOnDisk st.image

section Checking

variable {image : VdiImage} {host : CompactHost} {parent : Buf}

theorem checkOps_succ (k : Nat) :
    checkOps image host (k + 1) = checkOps image host k + checkCost image host k := by
  rw [checkOps, range_succ, map_append, sum_append]
  simp [checkOps]

theorem checkOps_le {k n : Nat} (le : k ≤ n) : checkOps image host k ≤ checkOps image host n := by
  induction le with
  | refl => exact le_refl _
  | step _ ih =>
    rw [checkOps_succ]
    omega

/-- A failure before the first move is noticed. -/
theorem Blamed.early {op : Nat} (fails : host.fails op = true) (early : op < firstMove image host) :
    Blamed image host :=
  Or.inl ⟨op, fails, fun unnoticed => absurd unnoticed.1 (by omega)⟩

/-- An image whose block has a mark shows the mark there and everywhere else
what it showed. -/
theorem content_mark {image' : VdiImage} {i mark : Nat} (inside : i < image.paBlocks.length)
    (shape : SameShape image image') (table : image'.paBlocks = image.paBlocks.set i mark)
    (data : ∀ j, image.offStartData ≤ j → image'.file.byte j = image.file.byte j) (o : Nat) :
    content image' o =
      if o / getImageBlockSize image.header = i then
        pointerContent image' mark (o % getImageBlockSize image.header)
      else content image o := by
  rw [content, shape.blockSize, table]
  split
  · rename_i here
    rw [here, getElem?_set_self inside, bind_some]
  · rename_i elsewhere
    rw [getElem?_set_ne (Ne.symm elsewhere), content]
    refine congrArg _ (funext fun p => ?_)
    simp only [pointerContent, shape.slotByte_eq, data _ (le_slotByte image p _)]

/-- The descriptor with a new file and a new block table has the same shape. -/
theorem SameShape.update {image' : VdiImage} (shape : SameShape image image') (file : ByteFile)
    (paBlocks : List Nat) :
    SameShape image { image' with file := file, paBlocks := paBlocks } :=
  ⟨shape.uOpenFlags, shape.offStartBlocks, shape.offStartData, shape.uBlockMask,
    shape.uShiftOffset2Index, shape.offStartBlockData, shape.cbTotalBlockData, shape.header⟩

/-- `mark` stands for the data of block `k` in slot `p`. -/
def StandsFor (image : VdiImage) (host : CompactHost) (parent : Buf) (k p mark : Nat) : Prop :=
  ∀ o < getImageDiskSize image.header, o / getImageBlockSize image.header = k →
    ¬ ReportedUnused image host k →
      (pointerContent image mark 0).getD (parent o) =
        image.file.byte (slotByte image p (o % getImageBlockSize image.header))

namespace Checking

variable {k n p mark : Nat} {st : CompactState}

section

variable (c : Checking image host parent k n st)

include c

/-- The block still has its slot. -/
theorem slot (slot : HasSlot image k p) : HasSlot st.image k p :=
  ⟨(c.ahead k (le_refl k)).trans slot.1, slot.2⟩

theorem inside (slot : HasSlot image k p) : k < st.image.paBlocks.length :=
  (List.getElem?_eq_some_iff.mp (c.slot slot).1).choose

/-- Putting a mark in place of the data it stands for shows the same. -/
theorem showsSame_mark (slot : HasSlot image k p)
    (marks : mark = vdiImageBlockFree ∨ mark = vdiImageBlockZero)
    (stands : StandsFor image host parent k p mark) {file : ByteFile}
    (same : SameData st.image.offStartData st.image.file file) (zeros : ZerosAreZero image host) :
    ShowsSame image host parent
      { st.image with file := file, paBlocks := st.image.paBlocks.set k mark } := by
  intro o disk used
  rw [← c.shows zeros o disk used, overParent, overParent]
  have inside := c.inside slot
  have shape : SameShape st.image
      { st.image with file := file, paBlocks := st.image.paBlocks.set k mark } :=
    ⟨rfl, rfl, rfl, rfl, rfl, rfl, rfl, Or.inl rfl⟩
  rw [content_mark inside shape rfl same.data o, c.packing.shape.blockSize]
  split
  · rename_i here
    rw [here] at used
    have old : content st.image o = some (image.file.byte
        (slotByte image p (o % getImageBlockSize image.header))) := by
      rw [content_of_entry (by rw [c.packing.shape.blockSize, here]; exact (c.slot slot).1),
        pointerContent_slot slot.2, c.packing.shape.slotByte_eq, c.packing.shape.blockSize,
        c.data _ (le_slotByte image p _)]
    rw [old, getD_some, ← stands o disk here used]
    rcases marks with rfl | rfl <;> rfl
  · rfl

/-- The tables with a mark in place of the slot. -/
theorem packing_mark (slot : HasSlot image k p) (unused : ¬ IsAllocated mark)
    (small : mark < 2 ^ 32) {file : ByteFile}
    (same : SameData st.image.offStartData st.image.file file) :
    Packing image { st.image with file := file, paBlocks := st.image.paBlocks.set k mark }
      (st.paBlocks2.set p vdiImageBlockFree) := by
  have slot' := c.slot slot
  refine ⟨c.packing.shape.update file _, ?_, entries_set c.packing.entries k small,
    same.size.trans c.packing.size, ?_, ?_, c.packing.indexes.release slot'.1 slot'.2 unused⟩
  · rw [length_set]
    exact c.packing.length
  · rintro i q ⟨found, inUse⟩
    have other : k ≠ i := by
      rintro rfl
      rw [getElem?_set_self (c.inside slot)] at found
      cases found
      exact unused inUse
    rw [getElem?_set_ne other] at found
    exact c.packing.inFile i q ⟨found, inUse⟩
  · rw [length_set]
    exact c.packing.rev

/-- The mark settles the block. -/
theorem settled_mark (slot : HasSlot image k p)
    (zeroes : TestsZero image p → mark = vdiImageBlockZero)
    (answers : ¬ TestsZero image p → ParentAnswers image host k) :
    ∀ i < k + 1, Settled image host (st.image.paBlocks.set k mark) i := by
  intro i earlier q found
  by_cases here : k = i
  · subst here
    have same : q = p := some.inj (found.1.symm.trans slot.1)
    rw [same, getElem?_set_self (c.inside slot)]
    exact ⟨fun tests => congrArg some (zeroes tests), answers⟩
  · rw [getElem?_set_ne here]
    exact c.settled i (by omega) q found

/-- With the mark saved the table is on the disk again. -/
theorem stored_mark (slot : HasSlot image k p) {file : ByteFile} (stored : TableOnDisk st.image)
    (saved : StoresEntry st.image.offStartBlocks k mark st.image.file file) :
    TableOnDisk { st.image with file := file, paBlocks := st.image.paBlocks.set k mark } := by
  intro i q found
  refine (saved i).trans ?_
  by_cases here : i = k
  · subst here
    rw [if_pos rfl]
    rw [getElem?_set_self (c.inside slot)] at found
    exact some.inj found
  · rw [if_neg here]
    rw [getElem?_set_ne (Ne.symm here)] at found
    exact stored i q found

/-- Taking a slot away keeps everything or breaks off in a state that shows the same. -/
theorem release (comp : Compactable image) (slot : HasSlot image k p)
    (early : n + 2 ≤ firstMove image host)
    (marks : mark = vdiImageBlockFree ∨ mark = vdiImageBlockZero)
    (stands : ZerosAreZero image host → StandsFor image host parent k p mark)
    (zeroes : TestsZero image p → mark = vdiImageBlockZero)
    (answers : ¬ TestsZero image p → ParentAnswers image host k) : Outcome
      (fun s => Checking image host parent (k + 1) (n + 2) s ∧ s.image.paBlocks[k]? = some mark)
      (Broken image host parent) (compactRelease host k p mark st) := by
  have slot' := c.slot slot
  have inside := c.inside slot
  have unused : ¬ IsAllocated mark := by
    rcases marks with rfl | rfl
    · exact not_isAllocated_free
    · exact not_isAllocated_zero
  have small : mark < 2 ^ 32 := by
    rcases marks with rfl | rfl <;> decide
  have shape := c.packing.shape
  have blocks : k < getImageBlocks st.image.header := by
    rw [shape.blocks, ← comp.setUp.length_paBlocks, ← c.packing.length]
    exact inside
  have update := updateBlockInfo_outcome host (st.setEntry k mark)
    (comp.layout.sameShape (shape.update st.image.file (st.image.paBlocks.set k mark))) blocks
    (getElem?_set_self inside) small
    (by
      have := comp.dataInside
      rw [← c.packing.size, ← shape.offStartData] at this
      exact le_of_add_le_left this)
  have below : p < st.paBlocks2.length := by
    rw [c.packing.rev]
    exact c.packing.indexes.below k p slot'.1 slot'.2
  unfold compactRelease
  refine (update.mono (fun _ here => here) ?_).seq ?_
  · rintro s ⟨file, ops, rfl, same, op, low, high, fails⟩
    refine ⟨fun _ zeros => c.showsSame_mark slot marks (stands zeros) same zeros, ?_, ?_⟩
    · intro _ fine
      rw [fine op] at fails
      cases fails
    · refine Blamed.early fails ?_
      have := c.ops_eq
      simp only [CompactState.setEntry] at high
      omega
  · rintro s ⟨file, rfl, same, saved, fine⟩
    have next : Checking image host parent (k + 1) (n + 2) { st with
        image := { st.image with file := file, paBlocks := st.image.paBlocks.set k mark }
        paBlocks2 := st.paBlocks2.set p vdiImageBlockFree
        ops := st.ops + 2 } := by
      refine ⟨c.packing_mark slot unused small same, ?_, c.usedPos, c.moved, ?_, ?_,
        c.settled_mark slot zeroes answers, ?_,
        fun zeros => c.showsSame_mark slot marks (stands zeros) same zeros,
        fun onDisk quiet => c.stored_mark slot (c.stored onDisk quiet) saved⟩
      · rw [← c.ops_eq]
      · intro j high
        rw [← c.data j high]
        exact same.data j (by rw [← shape.offStartData] at high; exact high)
      · intro i high
        rw [getElem?_set_ne (by omega)]
        exact c.ahead i (by omega)
      · intro op earlier
        by_cases old : op < n
        · exact c.fine op old
        · have := c.ops_eq
          exact fine op (by simp only [CompactState.setEntry]; omega)
            (by simp only [CompactState.setEntry]; omega)
    exact ⟨_, _, if_pos below, Or.inl ⟨rfl, next, getElem?_set_self inside⟩⟩

/-- Stopping here shows what the image showed. -/
theorem broken (blamed : Blamed image host) : Broken image host parent st :=
  ⟨fun _ => c.shows, c.stored, blamed⟩

/-- The blocks up to the next one are done. -/
theorem advance (settled : Settled image host st.image.paBlocks k) :
    Checking image host parent (k + 1) n st :=
  { c with
    ahead := fun i high => c.ahead i (by omega)
    settled := fun i earlier => by
      rcases Nat.lt_succ_iff_lt_or_eq.mp earlier with old | rfl
      · exact c.settled i old
      · exact settled }

/-- An operation that does not fail and fills the buffer. -/
theorem read (fine : host.fails st.ops = false) (buf : Buf) :
    Checking image host parent k (n + 1) { st with ops := st.ops + 1, pvTmp := buf } := by
  refine ⟨c.packing, by rw [← c.ops_eq], c.usedPos, c.moved, c.data, c.ahead, c.settled,
    ?_, c.shows, c.stored⟩
  intro op earlier
  rcases Nat.lt_succ_iff_lt_or_eq.mp earlier with old | rfl
  · exact c.fine op old
  · rw [← c.ops_eq]
    exact fine

end

end Checking

/-! Which marks stand for the data of a block. -/

theorem Compactable.slotData_apply (comp : Compactable image) (p off : Nat) :
    slotData image p off = image.file.byte (slotByte image p off) := by
  rw [slotData, Buf.drop_apply, comp.offset_eq]
  rfl

theorem sameBytes_iff {a b : Buf} {n : Nat} : sameBytes a b n = true ↔ ∀ j < n, a j = b j := by
  simp [sameBytes]

variable {k p : Nat}

/-- Blocks of less than 512 MB are tested completely. -/
theorem zerosAreZero_of_small (comp : Compactable image)
    (small : getImageBlockSize image.header < 2 ^ 29) : ZerosAreZero image host := by
  have tested := cbTested_of_small small
  intro i p _ zero
  refine Or.inr fun off inside _ => ?_
  rw [TestsZero, tested] at zero
  rw [← comp.slotData_apply]
  exact Buf.isZero_iff.mp zero off inside

theorem standsFor_zeros (comp : Compactable image) (slot : HasSlot image k p)
    (zero : TestsZero image p) (zeros : ZerosAreZero image host) :
    StandsFor image host parent k p vdiImageBlockZero := by
  intro o disk block used
  rw [pointerContent_zero, getD_some]
  have positive := comp.setUp.blockSize_pos
  have split := Nat.div_add_mod o (getImageBlockSize image.header)
  rw [block, Nat.mul_comm] at split
  refine ((zeros k p slot zero).resolve_left used _ (Nat.mod_lt o positive) ?_).symm
  rw [split]
  exact disk

theorem standsFor_unused (unused : ReportedUnused image host k) (mark : Nat) :
    StandsFor image host parent k p mark :=
  fun _ _ _ used => absurd unused used

theorem standsFor_parent (comp : Compactable image) (presents : Presents host parent)
    (repeats : RepeatsParent image host k p) :
    StandsFor image host parent k p vdiImageBlockFree := by
  intro o _ block _
  have positive := comp.setUp.blockSize_pos
  have split := Nat.div_add_mod o (getImageBlockSize image.header)
  rw [block, Nat.mul_comm] at split
  unfold RepeatsParent at repeats
  cases parentRead : host.pfnParentRead with
  | none => simp [parentRead] at repeats
  | some pfnParentRead =>
    simp only [parentRead] at repeats
    cases answer : pfnParentRead (k * getImageBlockSize image.header)
        (getImageBlockSize image.header) with
    | error rc => simp [answer] at repeats
    | ok pvBuf =>
      simp only [answer] at repeats
      have same := sameBytes_iff.mp repeats _ (Nat.mod_lt o positive)
      rw [comp.slotData_apply, presents.data _ parentRead _ _ _ answer _ (Nat.mod_lt o positive),
        split] at same
      rw [same]
      rfl

/-! ### The second pass -/

/-- After the first half of the second pass on block `k`: its slot is gone, or
the data has been read and is needed. -/
def CheckedData (image : VdiImage) (host : CompactHost) (parent : Buf) (k : Nat)
    (st : CompactState) : Prop :=
  (∃ mark, st.image.paBlocks[k]? = some mark ∧ ¬ IsAllocated mark ∧
      Checking image host parent (k + 1) (checkOps image host (k + 1)) st) ∨
    ∃ p, HasSlot image k p ∧ ¬ TestsZero image p ∧ ¬ RepeatsParent image host k p ∧
      ParentAnswers image host k ∧ Checking image host parent k (checkOps image host k + 1) st

theorem checkCost_slot (host : CompactHost) (slot : HasSlot image k p) :
    checkCost image host k = if Drops image host k p then 3 else 1 := by
  simp only [checkCost, slot.1, if_pos slot.2]

theorem SameShape.compactOffset_eq {image' : VdiImage} (shape : SameShape image image') (p : Nat) :
    compactOffset image' p = compactOffset image p := by
  simp only [compactOffset, shape.cbTotalBlockData, shape.offStartData, shape.offStartBlockData]

/-- Reading the data of a block succeeds unless the operation fails. -/
theorem Checking.readSlot {n : Nat} {st : CompactState}
    (c : Checking image host parent k n st) (comp : Compactable image) (slot : HasSlot image k p)
    (early : n < firstMove image host) : Outcome
      (fun s => s.pvTmp = slotData image p ∧ Checking image host parent k (n + 1) s)
      (Broken image host parent) (some (st.readSync host (compactOffset st.image p)
        (getImageBlockSize st.image.header))) := by
  have shape := c.packing.shape
  rw [shape.compactOffset_eq, shape.blockSize, CompactState.readSync]
  split
  · rename_i fails
    refine Outcome.broken (by decide) ⟨fun _ => c.shows, c.stored, Blamed.early fails ?_⟩
    rw [c.ops_eq]
    exact early
  rename_i fine
  have held := comp.inFile k p slot
  have place := comp.offset_eq p
  rw [slotEnd] at held
  rw [slotByte] at place
  have inside : compactOffset image p + getImageBlockSize image.header ≤ st.image.file.size := by
    rw [c.packing.size]
    omega
  have read := ByteFile.read_eq_some.mpr ⟨inside, rfl⟩
  rw [read]
  refine Outcome.done ⟨?_, c.read (by simpa using fine) _⟩
  funext j
  exact c.data _ (by omega)

/-- Taking away the slot of a block that is dropped ends its round. -/
theorem Checking.drop {mark : Nat} {st : CompactState}
    (c : Checking image host parent k (checkOps image host k + 1) st) (comp : Compactable image)
    (slot : HasSlot image k p) (below : k < getImageBlocks image.header)
    (drops : Drops image host k p) (marks : mark = vdiImageBlockFree ∨ mark = vdiImageBlockZero)
    (stands : ZerosAreZero image host → StandsFor image host parent k p mark)
    (zeroes : TestsZero image p → mark = vdiImageBlockZero)
    (answers : ¬ TestsZero image p → ParentAnswers image host k) : Outcome
      (fun s => Checking image host parent (k + 1) (checkOps image host (k + 1)) s ∧
        s.image.paBlocks[k]? = some mark)
      (Broken image host parent) (compactRelease host k p mark st) := by
  have bound : checkOps image host (k + 1) ≤ firstMove image host := checkOps_le below
  have total : checkOps image host (k + 1) = checkOps image host k + 1 + 2 := by
    rw [checkOps_succ, checkCost_slot host slot, if_pos drops]
  rw [total] at bound ⊢
  exact c.release comp slot bound marks stands zeroes answers

theorem Checking.checkData {st : CompactState}
    (c : Checking image host parent k (checkOps image host k) st) (comp : Compactable image)
    (presents : Presents host parent) (below : k < getImageBlocks image.header) :
    Outcome (CheckedData image host parent k) (Broken image host parent)
      (compactCheckData host k st) := by
  have inside : k < image.paBlocks.length := by
    rw [comp.setUp.length_paBlocks]
    exact below
  have entry : image.paBlocks[k]? = some image.paBlocks[k] := getElem?_eq_getElem inside
  have shape := c.packing.shape
  have bound : checkOps image host (k + 1) ≤ firstMove image host := checkOps_le below
  unfold compactCheckData
  rw [c.ahead k (le_refl k), entry]
  dsimp only
  by_cases allocated : IsAllocated image.paBlocks[k]
  · have slot : HasSlot image k image.paBlocks[k] := ⟨entry, allocated⟩
    have cost := checkCost_slot host slot
    rw [checkOps_succ, cost] at bound
    rw [if_neg (not_not.mpr allocated)]
    have early : checkOps image host k < firstMove image host := by
      split at bound <;> omega
    refine (c.readSlot comp slot early).seq ?_
    rintro s ⟨buf, read⟩
    have released : ∀ mark, mark = vdiImageBlockFree ∨ mark = vdiImageBlockZero →
        Drops image host k image.paBlocks[k] →
        (ZerosAreZero image host → StandsFor image host parent k image.paBlocks[k] mark) →
        (TestsZero image image.paBlocks[k] → mark = vdiImageBlockZero) →
        (¬ TestsZero image image.paBlocks[k] → ParentAnswers image host k) →
        Outcome (CheckedData image host parent k) (Broken image host parent)
          (compactRelease host k image.paBlocks[k] mark s) := by
      intro mark marks drops stands zeroes answers
      refine (read.drop comp slot below drops marks stands zeroes answers).mono ?_
        fun _ here => here
      rintro t ⟨next, found⟩
      refine Or.inl ⟨mark, found, ?_, next⟩
      rcases marks with rfl | rfl
      · exact not_isAllocated_free
      · exact not_isAllocated_zero
    rw [buf, shape.blockSize]
    by_cases zero : TestsZero image image.paBlocks[k]
    · rw [if_pos (show (slotData image _).isZero _ = true from zero)]
      exact released _ (Or.inr rfl) (Or.inl zero) (standsFor_zeros comp slot zero)
        (fun _ => rfl) fun nonzero => absurd zero nonzero
    · rw [if_neg (show ¬ (slotData image _).isZero _ = true from zero)]
      cases parentRead : host.pfnParentRead with
      | none =>
        refine Outcome.done (Or.inr ⟨_, slot, zero, ?_, fun f found => ?_, read⟩)
        · simp [RepeatsParent, parentRead]
        · rw [parentRead] at found
          cases found
      | some pfnParentRead =>
        dsimp only
        cases answer : pfnParentRead (k * getImageBlockSize image.header)
            (getImageBlockSize image.header) with
        | error rc =>
          refine Outcome.broken (presents.parentFails _ parentRead _ _ _ answer)
            (read.broken (Or.inr fun smooth => ?_))
          obtain ⟨pvBuf, ok⟩ := smooth.reads k _ slot zero _ parentRead
          rw [answer] at ok
          cases ok
        | ok pvBuf =>
          have decides : RepeatsParent image host k image.paBlocks[k] ↔
              sameBytes (slotData image image.paBlocks[k]) pvBuf
                (getImageBlockSize image.header) = true := by
            simp only [RepeatsParent, parentRead, answer]
          have answers : ParentAnswers image host k := by
            intro f found
            rw [parentRead] at found
            cases found
            exact ⟨pvBuf, answer⟩
          dsimp only
          by_cases repeats : RepeatsParent image host k image.paBlocks[k]
          · rw [if_pos (decides.mp repeats)]
            exact released _ (Or.inl rfl) (Or.inr (Or.inl repeats))
              (fun _ => standsFor_parent comp presents repeats) (fun tests => absurd tests zero)
              fun _ => answers
          · rw [if_neg (mt decides.mpr repeats)]
            exact Outcome.done (Or.inr ⟨_, slot, zero, repeats, answers, read⟩)
  · rw [if_pos allocated]
    refine Outcome.done (Or.inl ⟨_, (c.ahead k (le_refl k)).trans entry, allocated, ?_⟩)
    have free : checkCost image host k = 0 := by
      simp only [checkCost, entry, if_neg allocated]
    rw [checkOps_succ, free]
    refine c.advance fun p slot => absurd slot.2 ?_
    rw [← some.inj (entry.symm.trans slot.1)]
    exact allocated

theorem Checking.checkUse {st : CompactState} (checked : CheckedData image host parent k st)
    (comp : Compactable image) (presents : Presents host parent)
    (below : k < getImageBlocks image.header) :
    Outcome (Checking image host parent (k + 1) (checkOps image host (k + 1)))
      (Broken image host parent) (compactCheckUse host k st) := by
  unfold compactCheckUse
  rcases checked with ⟨mark, found, unused, c⟩ | ⟨p, slot, zero, repeats, answers, c⟩
  · rw [found]
    cases host.pfnQueryRangeUse with
    | none => exact Outcome.done c
    | some pfnQueryRangeUse =>
      dsimp only
      rw [if_pos unused]
      exact Outcome.done c
  · have cost := checkCost_slot host slot
    have needed : ¬ ReportedUnused image host k →
        checkOps image host (k + 1) = checkOps image host k + 1 := by
      intro used
      have kept : ¬ Drops image host k p := by
        rintro (tests | same | gone)
        · exact zero tests
        · exact repeats same
        · exact used gone
      rw [checkOps_succ, cost, if_neg kept]
    have settled : Settled image host st.image.paBlocks k := by
      intro q found
      rw [some.inj (found.1.symm.trans slot.1)]
      exact ⟨fun tests => absurd tests zero, fun _ => answers⟩
    rw [(c.slot slot).1]
    cases query : host.pfnQueryRangeUse with
    | none =>
      refine Outcome.done ?_
      rw [needed (by simp [ReportedUnused, query])]
      exact c.advance settled
    | some pfnQueryRangeUse =>
      dsimp only
      rw [if_neg (not_not.mpr slot.2), c.packing.shape.blockSize]
      cases answer : pfnQueryRangeUse (k * getImageBlockSize image.header)
          (getImageBlockSize image.header) with
      | error rc =>
        refine Outcome.broken (presents.queryFails _ query _ _ _ answer)
          (c.broken (Or.inr fun smooth => ?_))
        obtain ⟨fUsed, ok⟩ := smooth.answers _ query k
        rw [answer] at ok
        cases ok
      | ok fUsed =>
        have decides : ReportedUnused image host k ↔ fUsed = false := by
          simp only [ReportedUnused, query, answer]
        dsimp only
        cases fUsed with
        | true =>
          refine Outcome.done ?_
          rw [needed (by rw [decides]; decide)]
          exact c.advance settled
        | false =>
          have unused := decides.mpr rfl
          refine (c.drop comp slot below (Or.inr (Or.inr unused)) (Or.inr rfl)
            (fun _ => standsFor_unused unused _) (fun _ => rfl) fun _ => answers).mono ?_
            fun _ here => here
          rintro s ⟨next, -⟩
          exact next

/-- Asking for leave to go on changes nothing. -/
theorem progress_outcome {inv stopped : CompactState → Prop} {st : CompactState}
    (here : ∀ n, inv { st with progressCalls := n })
    (stops : ∀ n, ¬ Smooth image host → stopped { st with progressCalls := n }) :
    Outcome inv stopped (st.progress host) := by
  unfold CompactState.progress
  cases asks : host.pfnProgress with
  | none => exact Outcome.done (here st.progressCalls)
  | some pfnProgress =>
    by_cases goesOn : pfnProgress st.progressCalls = .vinfSuccess
    · refine ⟨_, _, rfl, Or.inl ⟨goesOn, here _⟩⟩
    · exact Outcome.broken goesOn
        (stops _ fun smooth => goesOn (smooth.goesOn _ asks st.progressCalls))

theorem Checking.progressCalls {n m : Nat} {st : CompactState}
    (c : Checking image host parent k n st) :
    Checking image host parent k n { st with progressCalls := m } :=
  ⟨c.packing, c.ops_eq, c.usedPos, c.moved, c.data, c.ahead, c.settled, c.fine, c.shows,
    c.stored⟩

theorem Checking.check {st : CompactState}
    (c : Checking image host parent k (checkOps image host k) st) (comp : Compactable image)
    (presents : Presents host parent) (below : k < getImageBlocks image.header) :
    Outcome (Checking image host parent (k + 1) (checkOps image host (k + 1)))
      (Broken image host parent) (compactCheck host k st) := by
  refine (c.checkData comp presents below).seq fun s checked => ?_
  refine (checkUse checked comp presents below).seq fun t next => ?_
  exact progress_outcome (fun _ => next.progressCalls)
    fun _ rough => next.progressCalls.broken (Or.inr rough)

/-- The second pass over all blocks. -/
theorem Checking.check_all {st : CompactState} (c : Checking image host parent 0 0 st)
    (comp : Compactable image) (presents : Presents host parent) :
    Outcome (Checking image host parent (getImageBlocks image.header) (firstMove image host))
      (Broken image host parent)
      (forEach (compactCheck host) (range (getImageBlocks image.header)) st) :=
  @Outcome.range _ _ _ (fun k => Checking image host parent k (checkOps image host k)) _
    (fun _ below _ here => here.check comp presents below) st c

theorem Compactable.checking (comp : Compactable image) {st : CompactState}
    (start : Started image st) (length : st.paBlocks2.length = compactBlocks image)
    (indexes : Indexes IsAllocated vdiImageBlockFree image.paBlocks st.paBlocks2
      (compactBlocks image)) : Checking image host parent 0 0 st := by
  obtain ⟨same, usedPos, moved, ops⟩ := start
  refine ⟨⟨?_, ?_, ?_, ?_, ?_, length, ?_⟩, ops, usedPos, moved, ?_, ?_, ?_, ?_, ?_, ?_⟩
  · rw [same]
    exact ⟨rfl, rfl, rfl, rfl, rfl, rfl, rfl, Or.inl rfl⟩
  · rw [same]
  · rw [same]
    exact comp.entries
  · rw [same]
  · rw [same]
    exact comp.inFile
  · rw [same]
    exact indexes
  · exact fun _ _ => by rw [same]
  · exact fun _ _ => by rw [same]
  · exact fun i none => absurd none (Nat.not_lt_zero i)
  · exact fun op none => absurd none (Nat.not_lt_zero op)
  · exact fun _ _ _ _ => by rw [same]
  · exact fun stored _ => by rwa [same]

end Checking

end VBox.Storage.Vdi
