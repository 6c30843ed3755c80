import VBox.Storage.Vdi.CompactMoves
import VBox.Storage.Vdi.Reopen

/-!
Whole runs of `vdiCompact`.

A run that ends leaves a packed image that shows the same over its parent;
a run that stops early leaves one that shows the same, unless the read or the
write of a move failed without the function noticing.
-/

namespace VBox.Storage.Vdi

open VBox.Lib List Option

/-- The allocated entries are the numbers below `cBlocksAllocated` in some
order, and the file ends behind the last slot. -/
structure IsPacked (image : VdiImage) : Prop where
  slots : (image.paBlocks.filter fun p => decide (IsAllocated p)).Perm
    (List.range (getImageBlocksAllocated image.header))
  size : image.file.size =
    image.offStartData + getImageBlocksAllocated image.header * image.cbTotalBlockData

/-- The passes of `vdiCompact`, with the variables they leave. -/
def compactPasses (image : VdiImage) (host : CompactHost) : Option (Status × CompactState) :=
  let blocks := List.range (getImageBlocks image.header)
  andThen (forEach (compactResolve host) blocks (compactStart image)) fun st =>
    andThen (forEach (compactCheck host) blocks st) fun st =>
      andThen (compactFill host (compactBlocks image) (compactBlocks image) 0 st) fun st =>
        some (compactTruncate host st)

section Runs

variable {image : VdiImage} {host : CompactHost} {parent : Buf}

theorem vdiCompact_eq (host : CompactHost) (writable : image.uOpenFlags.readOnly = false)
    (nonempty : compactBlocks image ≠ 0) :
    vdiCompact image host = (compactPasses image host).map fun (rc, st) => (rc, st.image) := by
  rw [vdiCompact, if_neg (by rw [writable]; decide), if_neg nonempty]
  rfl

/-! ### Cutting the file -/

/-- A block table whose slots are those below `m`, all of them once. -/
theorem perm_range {table : List Nat} {m : Nat}
    (below : ∀ i p : Nat, table[i]? = some p → IsAllocated p → p < m)
    (all : ∀ p < m, ∃ i : Nat, table[i]? = some p ∧ IsAllocated p)
    (distinct : ∀ i j p : Nat, table[i]? = some p → table[j]? = some p → IsAllocated p → i = j) :
    (table.filter fun p => decide (IsAllocated p)).Perm (range m) := by
  have once : (table.filter fun p => decide (IsAllocated p)).Nodup := by
    rw [Nodup, pairwise_filter, pairwise_iff_getElem]
    intro i j insideI insideJ less inUse _ same
    refine absurd (distinct i j _ (getElem?_eq_getElem insideI) ?_ (of_decide_eq_true inUse))
      less.ne
    rw [same]
    exact getElem?_eq_getElem insideJ
  rw [perm_ext_iff_of_nodup once nodup_range]
  intro p
  rw [mem_filter, mem_range, decide_eq_true_iff]
  constructor
  · rintro ⟨member, inUse⟩
    obtain ⟨i, entry⟩ := mem_iff_getElem?.mp member
    exact below i p entry inUse
  · intro small
    obtain ⟨i, entry, inUse⟩ := all p small
    exact ⟨mem_of_getElem? entry, inUse⟩

/-- The state in which a compaction returns success. -/
structure Compacted (image : VdiImage) (host : CompactHost) (parent : Buf) (st : CompactState) :
    Prop where
  fine : ∀ op < st.ops, host.fails op = true → Unnoticed image host op
  shape : SameShape image st.image
  settled : ∀ k < getImageBlocks image.header, Settled image host st.image.paBlocks k
  packed : image.offStartBlockData = 0 → IsPacked st.image
  shows : Noticed image host → ZerosAreZero image host → ShowsSame image host parent st.image
  stored : TableOnDisk image → (∀ op, host.fails op = false) → TableOnDisk st.image

/-- The state in which it returns a failure. -/
structure Stopped (image : VdiImage) (host : CompactHost) (parent : Buf) (st : CompactState) :
    Prop where
  shows : Noticed image host → ZerosAreZero image host → ShowsSame image host parent st.image
  stored : TableOnDisk image → (∀ op, host.fails op = false) → TableOnDisk st.image
  blamed : Blamed image host ∨ host.fails st.ops = true

theorem Broken.stopped {st : CompactState} (broken : Broken image host parent st) :
    Stopped image host parent st :=
  ⟨broken.shows, broken.stored, Or.inl broken.blamed⟩

theorem Filling.slot_lt {st : CompactState}
    (f : Filling image host parent st.uBlockUsedPos st) (comp : Compactable image) {i p : Nat}
    (slot : HasSlot st.image i p) : p < st.uBlockUsedPos := by
  by_contra high
  exact f.packing.unnamed_of_free comp (f.empty p (by omega)) i slot.1 slot.2

/-- The variables of `vdiCompact` before it cuts the file. -/
def headed (st : CompactState) (file : ByteFile) : CompactState :=
  { st with
    ops := st.ops + 1
    image := { st.image with
      header := setImageBlocksAllocated st.uBlockUsedPos st.image.header
      file := file } }

/-- The variables after it has. -/
def truncated (st : CompactState) (file : ByteFile) : CompactState :=
  { headed st file with
    image := { (headed st file).image with
      file := file.setSize (st.uBlockUsedPos * st.image.cbTotalBlockData +
        st.image.offStartData + st.image.offStartBlockData) } }

/-- The header update changes nothing but the header in the file. -/
theorem Filling.truncate_eq {st : CompactState}
    (f : Filling image host parent st.uBlockUsedPos st) (comp : Compactable image) :
    ∃ file, SameData image.offStartData st.image.file file ∧
      (∀ k, storedEntry file image.offStartBlocks k =
        storedEntry st.image.file image.offStartBlocks k) ∧ compactTruncate host st =
        if host.fails (st.ops + 1) then (.verrGeneralFailure, headed st file)
        else (.vinfSuccess, truncated st file) := by
  have shape := f.packing.shape
  have headerBelow := comp.layout.headerEnd
  have dataBelow := comp.layout.header_below
  obtain ⟨file, write, cases_of, -⟩ := writeSync_snd host
    { st with image := { st.image with
      header := setImageBlocksAllocated st.uBlockUsedPos st.image.header } }
    sizeofPreHeader (headerBytes (setImageBlocksAllocated st.uBlockUsedPos st.image.header)).1
    (headerBytes (setImageBlocksAllocated st.uBlockUsedPos st.image.header)).2
  have headerSize := (shape.recount st.uBlockUsedPos).headerSize
  dsimp only at headerSize cases_of
  rw [headerSize] at cases_of
  refine ⟨file, ?_, fun k => ?_, ?_⟩
  · have start : SameData image.offStartData st.image.file st.image.file := ⟨rfl, fun _ _ => rfl⟩
    rcases cases_of with rfl | rfl
    · exact start
    · refine start.write ?_ dataBelow
      rw [f.packing.size]
      exact le_of_add_le_left comp.dataInside
  · rcases cases_of with rfl | rfl
    · rfl
    · exact storedEntry_write (by omega)
  · unfold compactTruncate CompactState.updateHeader
    dsimp only
    rw [write]
    rfl

namespace Filling

variable {st : CompactState} (f : Filling image host parent st.uBlockUsedPos st)

include f

/-- Where the file is cut. -/
theorem cut_eq : st.uBlockUsedPos * st.image.cbTotalBlockData + st.image.offStartData +
    st.image.offStartBlockData = image.offStartData + st.uBlockUsedPos * image.cbTotalBlockData +
        image.offStartBlockData := by
  have shape := f.packing.shape
  rw [shape.cbTotalBlockData, shape.offStartData, shape.offStartBlockData]
  omega

theorem shape_headed (file : ByteFile) : SameShape image (headed st file).image :=
  (f.packing.shape.update file _).recount _

theorem count_truncated (file : ByteFile) :
    getImageBlocksAllocated (truncated st file).image.header = st.uBlockUsedPos :=
  getImageBlocksAllocated_set st.image.header (lt_of_le_of_lt f.top (u32_lt _))

theorem content_headed {file : ByteFile} (same : SameData image.offStartData st.image.file file)
    (o : Nat) : content (headed st file).image o = content st.image o := by
  have step : SameShape st.image (headed st file).image :=
    ⟨rfl, rfl, rfl, rfl, rfl, rfl, rfl, Or.inr ⟨st.uBlockUsedPos, rfl⟩⟩
  refine content_frame f.packing.entries step rfl fun p _ => same.data _ ?_
  rw [← f.packing.shape.offStartData]
  exact le_slotByte st.image p _

/-- The cut takes nothing from the slots below it. -/
theorem content_truncated (comp : Compactable image) (file : ByteFile) (o : Nat) :
    content (truncated st file).image o = content (headed st file).image o := by
  have step : SameShape (headed st file).image (truncated st file).image :=
    ⟨rfl, rfl, rfl, rfl, rfl, rfl, rfl, Or.inl rfl⟩
  have entries : ∀ p ∈ (headed st file).image.paBlocks, p < 2 ^ 32 := f.packing.entries
  refine content_frame entries step rfl fun p slot => ?_
  refine ByteFile.byte_setSize_of_lt ?_
  have below := slot_below image.cbTotalBlockData (f.slot_lt comp slot)
  have total := comp.layout.cbTotalBlockData_eq comp.setUp
  have offset := Nat.mod_lt o comp.setUp.blockSize_pos
  rw [f.cut_eq, (f.shape_headed file).slotByte_eq, slotByte, (f.shape_headed file).blockSize]
  omega

theorem isPacked (comp : Compactable image) (noExtra : image.offStartBlockData = 0)
    (file : ByteFile) : IsPacked (truncated st file).image := by
  have shape : SameShape image (truncated st file).image := (f.packing.shape.update _ _).recount _
  constructor
  · rw [f.count_truncated]
    refine perm_range (fun i p entry inUse => f.slot_lt comp ⟨entry, inUse⟩)
      (fun p below => ?_)
      fun i j p left right inUse => f.packing.indexes.distinct left right inUse
    have slot := (f.packing.slot_of_taken (f.filled p below)).2
    exact ⟨_, slot.1, slot.2⟩
  · rw [f.count_truncated, shape.offStartData, shape.cbTotalBlockData]
    exact f.cut_eq.trans (by rw [noExtra]; rfl)

theorem truncate (comp : Compactable image) :
    Outcome (Compacted image host parent) (Stopped image host parent)
      (some (compactTruncate host st)) := by
  obtain ⟨file, same, saved, run⟩ := f.truncate_eq comp
  have shape := f.packing.shape
  have shape' : SameShape image (truncated st file).image := (shape.update _ _).recount _
  rw [run]
  split
  · rename_i fails
    refine Outcome.broken (by decide) ⟨fun noticed zeros o disk used => ?_,
      fun _ fine => absurd fails (by rw [fine]; decide), Or.inr fails⟩
    rw [← f.shows noticed zeros o disk used, overParent, overParent, f.content_headed same]
  · refine Outcome.done ⟨?_, shape', f.settled, fun noExtra => f.isPacked comp noExtra file, ?_, ?_⟩
    · intro op early fails
      rcases Nat.lt_succ_iff_lt_or_eq.mp early with old | rfl
      · exact f.fine op old fails
      · rw [f.ops_eq]
        exact (unnoticed_move image host st.cBlocksMoved (j := 0) (by omega)).mpr (by omega)
    · intro noticed zeros o disk used
      rw [← f.shows noticed zeros o disk used, overParent, overParent, f.content_truncated comp,
        f.content_headed same]
    · intro stored quiet k p entry
      rw [← f.stored stored quiet k p entry, shape.offStartBlocks, ← saved k]
      have block : k < getImageBlocks image.header := by
        rw [← comp.setUp.length_paBlocks, ← f.packing.length]
        exact (List.getElem?_eq_some_iff.mp entry).choose
      have below := comp.layout.entry_below block
      rw [shape'.offStartBlocks]
      exact storedEntry_setSize (by rw [f.cut_eq]; omega)

end Filling

/-- Every run is defined, and ends packed or stopped. -/
theorem Compactable.run (comp : Compactable image) (presents : Presents host parent) :
    Outcome (Compacted image host parent) (Stopped image host parent)
      (compactPasses image host) := by
  obtain ⟨st, first, start, length, indexes⟩ := comp.resolve_all host
  have resolved : Outcome (Checking image host parent 0 0) (Stopped image host parent)
      (forEach (compactResolve host) (range (getImageBlocks image.header))
        (compactStart image)) :=
    ⟨_, st, first, Or.inl ⟨rfl, comp.checking start length indexes⟩⟩
  unfold compactPasses
  dsimp only
  refine resolved.seq fun r checking => ?_
  refine ((checking.check_all comp presents).mono (fun _ here => here)
    fun _ broken => broken.stopped).seq fun s checked => ?_
  refine ((checked.filling.fill comp (Nat.zero_add _)).mono (fun _ here => here)
    fun _ broken => broken.stopped).seq fun t filled => ?_
  exact filled.truncate comp

/-! ### Runs without failures -/

/-- Nothing cancels the compaction. -/
def NeverCancels (host : CompactHost) : Prop :=
  ∀ pfnProgress, host.pfnProgress = some pfnProgress → ∀ n, pfnProgress n = .vinfSuccess

/-- The parent accepts just the reads inside the disk, and every question about a
range is answered. -/
structure Answers (image : VdiImage) (host : CompactHost) (parent : Buf) : Prop where
  presents : Presents host parent
  accepts : ∀ pfnParentRead, host.pfnParentRead = some pfnParentRead → ∀ off cb,
    (∃ pvBuf, pfnParentRead off cb = .ok pvBuf) ↔ off + cb ≤ getImageDiskSize image.header
  answers : ∀ pfnQueryRangeUse, host.pfnQueryRangeUse = some pfnQueryRangeUse → ∀ i,
    ∃ fUsed, pfnQueryRangeUse (i * getImageBlockSize image.header)
      (getImageBlockSize image.header) = .ok fUsed

/-- What makes a compaction right: a block is zero where `ASMBitFirstSet` says
so, no block that is compared with the parent reaches over the end of the disk,
and an image without room for a block is packed already. -/
structure CompactsRight (image : VdiImage) (host : CompactHost) : Prop where
  zeros : ZerosAreZero image host
  whole : host.pfnParentRead ≠ none → ∀ i p, HasSlot image i p → ¬ TestsZero image p →
    i * getImageBlockSize image.header + getImageBlockSize image.header ≤
      getImageDiskSize image.header
  empty : compactBlocks image = 0 → getImageBlocksAllocated image.header = 0 ∧
    image.file.size = image.offStartData

/-- The compaction keeps what the image shows and the table in the file. -/
def KeepsDisk (image : VdiImage) (host : CompactHost) (parent : Buf) (image' : VdiImage) : Prop :=
  ShowsSame image host parent image' ∧ TableOnDisk image'

theorem Answers.smooth (answers : Answers image host parent) (right : CompactsRight image host)
    (goesOn : NeverCancels host) : Smooth image host := by
  refine ⟨goesOn, fun i p slot zero f found => ?_, answers.answers⟩
  have some : host.pfnParentRead ≠ none := by
    rw [found]
    exact some_ne_none f
  exact (answers.accepts f found _ _).mpr (right.whole some i p slot zero)

/-- Without a slot in use an image is packed when it counts none and ends where
its data area starts. -/
theorem isPacked_iff_of_unused (unused : ∀ i p, ¬ HasSlot image i p) :
    IsPacked image ↔ getImageBlocksAllocated image.header = 0 ∧
      image.file.size = image.offStartData := by
  have none : (image.paBlocks.filter fun p => decide (IsAllocated p)) = [] := by
    rw [filter_eq_nil_iff]
    intro p member allocated
    obtain ⟨i, entry⟩ := mem_iff_getElem?.mp member
    exact unused i p ⟨entry, of_decide_eq_true allocated⟩
  constructor
  · rintro ⟨slots, size⟩
    rw [none] at slots
    have count : getImageBlocksAllocated image.header = 0 := by
      simpa using slots.length_eq.symm
    rw [count] at size
    exact ⟨count, by omega⟩
  · rintro ⟨count, size⟩
    refine ⟨?_, ?_⟩
    · rw [none, count]
      exact Perm.nil
    · rw [count, size]
      omega

/-- A compaction that went through has looked at every block. -/
theorem Compacted.compactsRight {st : CompactState} (done : Compacted image host parent st)
    (comp : Compactable image) (answers : Answers image host parent)
    (shows : ShowsSame image host parent st.image) (nonempty : compactBlocks image ≠ 0) :
    CompactsRight image host := by
  have block : ∀ {i p}, HasSlot image i p → i < getImageBlocks image.header := fun slot => by
    rw [← comp.setUp.length_paBlocks]
    exact (List.getElem?_eq_some_iff.mp slot.1).choose
  refine ⟨fun i p slot zero => ?_, fun some i p slot nonzero => ?_,
    fun none => absurd none nonempty⟩
  · by_cases unused : ReportedUnused image host i
    · exact Or.inl unused
    refine Or.inr fun off inside disk => ?_
    have entry := ((done.settled i (block slot)) p slot).1 zero
    have positive := comp.setUp.blockSize_pos
    have index : (i * getImageBlockSize image.header + off) / getImageBlockSize image.header =
        i := by
      rw [Nat.add_comm, Nat.add_mul_div_right _ _ positive, Nat.div_eq_of_lt inside, Nat.zero_add]
    have offset : (i * getImageBlockSize image.header + off) % getImageBlockSize image.header =
        off := by
      rw [Nat.add_comm, Nat.add_mul_mod_self_right, Nat.mod_eq_of_lt inside]
    have same := shows _ disk (by rw [index]; exact unused)
    rw [overParent, overParent, content_of_entry (by rw [done.shape.blockSize, index]; exact entry),
      content_of_entry (by rw [index]; exact slot.1), pointerContent_zero,
      pointerContent_slot slot.2, offset, getD_some, getD_some] at same
    exact same.symm
  · obtain ⟨f, found⟩ := ne_none_iff_exists'.mp some
    exact (answers.accepts f found _ _).mp
      (((done.settled i (block slot)) p slot).2 nonzero f found)

/-- Without failing operations a compaction keeps the disk whenever it stops and
packs the image when nothing cancels it, where its three conditions hold; and
only there when nothing cancels it. -/
theorem vdiCompact_packs_iff (comp : Compactable image)
    (noExtra : image.offStartBlockData = 0) (stored : TableOnDisk image)
    (answers : Answers image host parent) (writable : image.uOpenFlags.readOnly = false)
    (quiet : ∀ op, host.fails op = false) :
    ∃ rc image', vdiCompact image host = some (rc, image') ∧
      (CompactsRight image host → KeepsDisk image host parent image') ∧
      (NeverCancels host →
        (CompactsRight image host ↔
          KeepsDisk image host parent image' ∧ rc = .vinfSuccess ∧ IsPacked image')) := by
  have noticed : Noticed image host := fun op fails => by
    rw [quiet op] at fails
    cases fails
  by_cases nonempty : compactBlocks image = 0
  · have unused : ∀ i p, ¬ HasSlot image i p := fun i p slot => by
      have := comp.slot_lt slot
      omega
    have keeps : KeepsDisk image host parent image := ⟨fun _ _ _ => rfl, stored⟩
    refine ⟨.vinfSuccess, image, ?_, fun _ => keeps, fun _ => ⟨fun right => ?_, ?_⟩⟩
    · rw [vdiCompact, if_neg (by rw [writable]; decide), if_pos nonempty]
    · exact ⟨keeps, rfl, (isPacked_iff_of_unused unused).mpr (right.empty nonempty)⟩
    · rintro ⟨-, -, packed⟩
      exact ⟨fun i p slot => absurd slot (unused i p), fun _ i p slot => absurd slot (unused i p),
        fun _ => (isPacked_iff_of_unused unused).mp packed⟩
  · obtain ⟨rc, st, run, outcome⟩ := comp.run answers.presents
    have result : vdiCompact image host = some (rc, st.image) := by
      rw [vdiCompact_eq host writable nonempty, run]
      rfl
    refine ⟨rc, st.image, result, fun right => ?_, fun goesOn => ⟨fun right => ?_, ?_⟩⟩
    · rcases outcome with ⟨-, done⟩ | ⟨-, stopped⟩
      · exact ⟨done.shows noticed right.zeros, done.stored stored quiet⟩
      · exact ⟨stopped.shows noticed right.zeros, stopped.stored stored quiet⟩
    · rcases outcome with ⟨success, done⟩ | ⟨-, stopped⟩
      · exact ⟨⟨done.shows noticed right.zeros, done.stored stored quiet⟩, success,
          done.packed noExtra⟩
      · rcases stopped.blamed with (⟨op, fails, -⟩ | rough) | fails
        · rw [quiet op] at fails
          cases fails
        · exact absurd (answers.smooth right goesOn) rough
        · rw [quiet] at fails
          cases fails
    · rintro ⟨⟨shows, -⟩, success, -⟩
      rcases outcome with ⟨-, done⟩ | ⟨failure, -⟩
      · exact done.compactsRight comp answers shows nonempty
      · exact absurd success failure

/-! A child with two blocks of 512 bytes, of which the disk has one and a half. -/

/-- The header of a small image, with another disk size. -/
def shorterDisk (cbDisk : UInt64) : VdiHeader → VdiHeader
  | .v0 h => .v0 h
  | .v1 minor h g => .v1 minor { h with cbDisk := cbDisk } g

/-- An image with the given block table and disk size, each slot full of its number. -/
def numberedImage (paBlocks : List Nat) (cbDisk : UInt64) (slots : Nat) : VdiImage :=
  openedImage (imageFile (shorterDisk cbDisk (smallHeader 1024 512 0 2 2)) paBlocks
    (1024 + slots * 512) fun j => UInt8.ofNat (j / 512 + 1)) {}

/-- A parent of zeros of the size of a disk. -/
def zeroParentHost (cbDisk : Nat) : CompactHost where
  fails _ := false
  pfnParentRead := some fun off cb =>
    if off + cb ≤ cbDisk then .ok fun _ => 0 else .error .verrInvalidParameter
  pfnQueryRangeUse := none
  pfnProgress := none

theorem zeroParentHost_answers {image : VdiImage} :
    Answers image (zeroParentHost (getImageDiskSize image.header)) fun _ => 0 := by
  refine ⟨⟨?_, ?_, ?_⟩, ?_, ?_⟩
  · intro f found off cb pvBuf read j _
    cases found
    dsimp only at read
    split at read <;> cases read
    rfl
  · intro f found off cb rc read
    cases found
    dsimp only at read
    split at read <;> cases read
    decide
  · intro f found
    cases found
  · intro f found off cb
    cases found
    dsimp only
    split
    · rename_i inside
      exact ⟨fun _ => inside, fun _ => ⟨_, rfl⟩⟩
    · rename_i outside
      refine ⟨?_, fun inside => absurd inside outside⟩
      rintro ⟨pvBuf, read⟩
      cases read
  · intro f found
    cases found

theorem Opened.compactable {file : ByteFile} {uOpenFlags : OpenFlags}
    (opened : Opened file uOpenFlags image) (layout : Layout image) (once : image.paBlocks.Nodup)
    (inFile : ∀ p ∈ image.paBlocks, slotEnd image p ≤ image.file.size)
    (dataInside : image.offStartData + image.offStartBlockData ≤ image.file.size)
    (room : image.file.size <
      image.offStartData + image.offStartBlockData + 2 ^ 32 * getImageBlockSize image.header) :
    Compactable image := by
  refine ⟨opened.setUp, layout, opened.entries, fun i j p left right => ?_,
    fun i p slot => inFile p (mem_of_getElem? slot.1), dataInside, room⟩
  exact (getElem?_inj (List.getElem?_eq_some_iff.mp left.1).choose once).mp
    (left.1.trans right.1.symm)

/-- Slot 0 is a hole; the compaction moves slot 2 there. -/
def holeImage : VdiImage := numberedImage [2, 1] 1024 3

theorem holeImage_opened : Opened (imageFile (shorterDisk 1024 (smallHeader 1024 512 0 2 2)) [2, 1]
    2560 fun j => UInt8.ofNat (j / 512 + 1)) {} holeImage :=
  vdiOpenImage_opened (openedImage_eq (by decide +kernel))

theorem holeImage_compactable : Compactable holeImage :=
  holeImage_opened.compactable
    ⟨by decide +kernel, by decide +kernel, by decide +kernel⟩ (by decide +kernel)
    (by decide +kernel) (by decide +kernel) (by decide +kernel)

theorem vdiCompact_packs_hole : ∃ rc image', vdiCompact holeImage (zeroParentHost 1024) =
      some (rc, image') ∧
    KeepsDisk holeImage (zeroParentHost 1024) (fun _ => 0) image' ∧ rc = .vinfSuccess ∧
      IsPacked image' := by
  have disk : getImageDiskSize holeImage.header = 1024 := by decide +kernel
  have answers : Answers holeImage (zeroParentHost 1024) fun _ => 0 := by
    rw [← disk]
    exact zeroParentHost_answers
  obtain ⟨rc, image', run, -, packs⟩ := vdiCompact_packs_iff holeImage_compactable
    (by decide +kernel) holeImage_opened.onDisk.table answers (by decide +kernel) fun _ => rfl
  refine ⟨rc, image', run, (packs ?_).mp ⟨?_, ?_, ?_⟩⟩
  · intro f found
    cases found
  · exact zerosAreZero_of_small holeImage_compactable (by decide +kernel)
  · intro _ i p slot _
    have inside : i < 2 := lt_of_lt_of_eq
      (List.getElem?_eq_some_iff.mp slot.1).choose (by decide +kernel)
    have cbBlock : getImageBlockSize holeImage.header = 512 := by decide +kernel
    rw [disk, cbBlock]
    omega
  · intro none
    exact absurd none (by decide +kernel)

example : (vdiCompact holeImage (zeroParentHost 1024)).map (fun r => r.2.paBlocks) =
    some [0, 1] := by decide +kernel

/-- The last block of a disk of one and a half blocks is compared with more than
the parent has: the compaction fails with the status of the parent read. -/
def partImage : VdiImage := numberedImage [0, 1] 768 2

theorem partImage_opened : Opened (imageFile (shorterDisk 768 (smallHeader 1024 512 0 2 2)) [0, 1]
    2048 fun j => UInt8.ofNat (j / 512 + 1)) {} partImage :=
  vdiOpenImage_opened (openedImage_eq (by decide +kernel))

example : getImageDiskSize partImage.header = 768 := by decide +kernel

theorem exists_compact_partial : ∃ image host parent, Compactable image ∧
    image.offStartBlockData = 0 ∧ TableOnDisk image ∧ Answers image host parent ∧
    image.uOpenFlags.readOnly = false ∧ (∀ op, host.fails op = false) ∧ NeverCancels host ∧
    ∃ rc image', vdiCompact image host = some (rc, image') ∧ rc ≠ .vinfSuccess := by
  have disk : getImageDiskSize partImage.header = 768 := by decide +kernel
  have status : (vdiCompact partImage (zeroParentHost 768)).map Prod.fst =
      some .verrInvalidParameter := by decide +kernel
  obtain ⟨⟨rc, image'⟩, run, found⟩ := map_eq_some_iff.mp status
  refine ⟨partImage, zeroParentHost 768, fun _ => 0, ?_, by decide +kernel,
    partImage_opened.onDisk.table, by rw [← disk]; exact zeroParentHost_answers,
    by decide +kernel, fun _ => rfl, fun f found => ?_, rc, image', run, ?_⟩
  · exact partImage_opened.compactable
      ⟨by decide +kernel, by decide +kernel, by decide +kernel⟩ (by decide +kernel)
      (by decide +kernel) (by decide +kernel) (by decide +kernel)
  · cases found
  · rw [show rc = .verrInvalidParameter from found]
    decide

/-! ### Runs with one failing operation -/

/-- A failed compaction has kept what the image shows, and says that it failed. -/
def FailsSafely (image : VdiImage) (host : CompactHost) (parent : Buf) (rc : Status)
    (image' : VdiImage) : Prop :=
  ShowsSame image host parent image' ∧ rc ≠ .vinfSuccess

/-- When one operation of a compaction fails, the compaction fails safely if the
failure is noticed; and it is taken for a success otherwise. -/
theorem vdiCompact_failsSafely_iff (comp : Compactable image) (presents : Presents host parent)
    (writable : image.uOpenFlags.readOnly = false) (nonempty : compactBlocks image ≠ 0) {k : Nat}
    (fails : ∀ op, host.fails op = true ↔ op = k) :
    ∃ rc st, compactPasses image host = some (rc, st) ∧
      vdiCompact image host = some (rc, st.image) ∧
      (k < st.ops →
        (¬ Unnoticed image host k ∧ ZerosAreZero image host →
          FailsSafely image host parent rc st.image) ∧
        (Smooth image host → FailsSafely image host parent rc st.image →
          ¬ Unnoticed image host k)) := by
  obtain ⟨rc, st, run, outcome⟩ := comp.run presents
  refine ⟨rc, st, run, ?_, fun carried => ⟨?_, fun smooth safe => ?_⟩⟩
  · rw [vdiCompact_eq host writable nonempty, run]
    rfl
  · rintro ⟨seen, zeros⟩
    have noticed : Noticed image host := fun op failed => by
      rw [(fails op).mp failed]
      exact seen
    rcases outcome with ⟨-, done⟩ | ⟨failure, stopped⟩
    · exact absurd (done.fine k carried ((fails k).mpr rfl)) seen
    · exact ⟨stopped.shows noticed zeros, failure⟩
  · rcases outcome with ⟨success, -⟩ | ⟨-, stopped⟩
    · exact absurd success safe.2
    · rcases stopped.blamed with (⟨op, failed, seen⟩ | rough) | failed
      · rw [(fails op).mp failed] at seen
        exact seen
      · exact absurd smooth rough
      · exact absurd ((fails _).mp failed) (by omega)

/-- No callbacks, and one operation that fails. -/
def failingHost (k : Nat) : CompactHost := { quietHost with fails := fun op => op == k }

theorem failingHost_presents (k : Nat) (parent : Buf) : Presents (failingHost k) parent := by
  constructor <;> intro f found <;> cases found

theorem failingHost_fails {k : Nat} (op : Nat) : (failingHost k).fails op = true ↔ op = k :=
  beq_iff_eq

/-- The first read of the second pass fails. -/
theorem vdiCompact_failsSafely_hole : ∃ rc image',
    vdiCompact holeImage (failingHost 0) = some (rc, image') ∧
      FailsSafely holeImage (failingHost 0) (fun _ => 0) rc image' := by
  obtain ⟨rc, st, run, result, safe⟩ := vdiCompact_failsSafely_iff holeImage_compactable
    (failingHost_presents 0 fun _ => 0) (by decide +kernel) (by decide +kernel) failingHost_fails
  have ops : (compactPasses holeImage (failingHost 0)).map (fun r => r.2.ops) = some 1 := by
    decide +kernel
  rw [run] at ops
  have carried : 0 < st.ops := by
    rw [show st.ops = 1 from some.inj ops]
    decide
  exact ⟨rc, st.image, result, (safe carried).1 ⟨by decide +kernel,
    zerosAreZero_of_small holeImage_compactable (by decide +kernel)⟩⟩

/-- The read of the only move fails: the block at the front of the disk now shows
what the buffer held before, the data of the other block, and the compaction
reports success. -/
theorem exists_compact_unnoticed : ∃ image host parent, Compactable image ∧
    Presents host parent ∧ image.uOpenFlags.readOnly = false ∧
    (∀ op, host.fails op = true ↔ op = 2) ∧
    ∃ image', vdiCompact image host = some (.vinfSuccess, image') ∧
      0 < getImageDiskSize image.header ∧ ¬ ReportedUnused image host 0 ∧
      overParent image' parent 0 ≠ overParent image parent 0 := by
  have shown : (vdiCompact holeImage (failingHost 2)).map
      (fun r => (r.1, overParent r.2 (fun _ => 0) 0)) = some (.vinfSuccess, 2) := by decide +kernel
  obtain ⟨⟨rc, image'⟩, run, found⟩ := map_eq_some_iff.mp shown
  obtain ⟨rfl, after⟩ := Prod.mk.inj found
  refine ⟨holeImage, failingHost 2, fun _ => 0, holeImage_compactable, failingHost_presents 2 _,
    by decide +kernel, failingHost_fails, image', run, by decide +kernel, by decide +kernel, ?_⟩
  rw [after]
  decide +kernel

end Runs

end VBox.Storage.Vdi
