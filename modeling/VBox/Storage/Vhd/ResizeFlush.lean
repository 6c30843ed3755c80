import VBox.Storage.Vhd.ResizeMoves

/-!
Flushing an image with its header, and opening the file again.

The table, the header, the locators, the backup of the footer and the footer lie apart, so each is
what was last written to it.
-/

namespace VBox.Storage.Vhd

open VBox.Lib List

/-! ### Checksums -/

theorem beNat_leByte {w n : Nat} {b : Buf} (bytes : ∀ i < w, b i = leByte n (w - 1 - i))
    (small : n < 256 ^ w) : beNat w b = n := by
  have read : beNat w b = leNat w (leByte n) := by
    refine leNat_congr fun i below => ?_
    rw [bytes _ (by omega)]
    congr 1
    omega
  rw [read, leNat_leByte]
  exact Nat.mod_eq_of_lt small

/-- A structure with its checksum filled in has a right one. -/
theorem fChecksum_sealed {offChecksum cbSize : Nat} (bytes : Buf) :
    fChecksum offChecksum cbSize (sealed offChecksum cbSize bytes) = true := by
  have without : withoutChecksum offChecksum (sealed offChecksum cbSize bytes) =
      withoutChecksum offChecksum bytes := by
    funext i
    unfold withoutChecksum sealed
    split
    · rfl
    · rfl
  have small : vhdChecksum (withoutChecksum offChecksum bytes) cbSize < 256 ^ 4 := by
    rw [vhdChecksum]
    omega
  rw [fChecksum, without, beq_iff_eq]
  refine beNat_leByte (fun i below => ?_) small
  rw [Buf.drop_apply, sealed, if_pos ⟨by omega, by omega⟩]
  congr 1
  omega

theorem sealed_of_lt {offChecksum cbSize i : Nat} (below : i < offChecksum) (bytes : Buf) :
    sealed offChecksum cbSize bytes i = bytes i := if_neg (by omega)

section Header

variable (info : HeaderInfo) (ddh : Buf) (cEntries : Nat)

theorem newHeader_checksum : headerChecksum (newHeader info ddh cEntries) = true :=
  fChecksum_sealed _

theorem newHeader_of_lt {i : Nat} (below : i < 28) : newHeader info ddh cEntries i = ddh i := by
  rw [newHeader, sealed_of_lt (by omega), if_neg (by omega), if_pos (by omega)]

theorem newHeader_cookie : headerCookie (newHeader info ddh cEntries) = headerCookie ddh := by
  have same : (range 8).map (newHeader info ddh cEntries) = (range 8).map ddh :=
    map_congr_left fun i member =>
      newHeader_of_lt info ddh cEntries (lt_trans (mem_range.mp member) (by decide))
  rw [headerCookie, headerCookie, same]

theorem newHeader_tableOffset : tableOffset (newHeader info ddh cEntries) = tableOffset ddh :=
  beNat_drop_congr (fun _ below => newHeader_of_lt info ddh cEntries below) (by decide)

theorem newHeader_entries (small : cEntries < 2 ^ 32) :
    maxTableEntries (newHeader info ddh cEntries) = cEntries := by
  refine beNat_leByte (fun i below => ?_) small
  rw [Buf.drop_apply, newHeader, sealed_of_lt (by omega), if_pos ⟨by omega, by omega⟩]
  congr 1
  omega

theorem newHeader_blockSize : blockSize (newHeader info ddh cEntries) = blockSize ddh := by
  refine beNat_congr fun i below => ?_
  rw [Buf.drop_apply, Buf.drop_apply, newHeader, sealed_of_lt (by omega), if_neg (by omega),
    if_pos (by omega)]

end Header

section Footer

variable (copy : Buf) (cbSize : Nat) (geometry : Buf)

theorem newFooter_of_lt {i : Nat} (below : i < 48) : newFooter copy cbSize geometry i = copy i := by
  rw [newFooter, sealed_of_lt (by omega), if_neg (by omega), if_neg (by omega)]

theorem newFooter_cookie : fCookie (newFooter copy cbSize geometry) = fCookie copy := by
  have same : (range 8).map (newFooter copy cbSize geometry) = (range 8).map copy :=
    map_congr_left fun i member =>
      newFooter_of_lt copy cbSize geometry (lt_trans (mem_range.mp member) (by decide))
  rw [fCookie, fCookie, same]

theorem newFooter_dataOffset : dataOffset (newFooter copy cbSize geometry) = dataOffset copy :=
  beNat_drop_congr (fun _ below => newFooter_of_lt copy cbSize geometry below) (by decide)

theorem newFooter_type : diskType (newFooter copy cbSize geometry) = diskType copy := by
  refine beNat_congr fun i below => ?_
  rw [Buf.drop_apply, Buf.drop_apply, newFooter, sealed_of_lt (by omega), if_neg (by omega),
    if_neg (by omega)]

theorem newFooter_size (small : cbSize < 2 ^ 64) :
    beNat 8 ((newFooter copy cbSize geometry).drop 48) = cbSize := by
  refine beNat_leByte (fun i below => ?_) small
  rw [Buf.drop_apply, newFooter, sealed_of_lt (by omega), if_pos ⟨by omega, by omega⟩]
  congr 1
  omega

end Footer

/-! ### Writing the locators -/

theorem writeLocators_outside {locators : List Locator} {x : Nat}
    (outside : ∀ locator ∈ locators, x < locator.offset ∨ locator.offset + locator.cbSpace ≤ x)
    (file : ByteFile) : (writeLocators locators file).byte x = file.byte x := by
  unfold writeLocators
  induction locators generalizing file with
  | nil => rfl
  | cons locator rest ih =>
    obtain ⟨here, others⟩ := forall_mem_cons.mp outside
    rw [foldl_cons, ih others, ByteFile.byte_write_of_not_mem]
    have within := locator.within
    omega

theorem writeLocators_size {locators : List Locator} {file : ByteFile}
    (inside : ∀ locator ∈ locators, locator.offset + locator.cbSpace ≤ file.size) :
    (writeLocators locators file).size = file.size := by
  unfold writeLocators
  induction locators generalizing file with
  | nil => rfl
  | cons locator rest ih =>
    obtain ⟨here, others⟩ := forall_mem_cons.mp inside
    have within := locator.within
    have same : (file.write locator.offset locator.cbWritten locator.bytes).size = file.size :=
      size_write_inside (by omega)
    rw [foldl_cons, ih (fun other member => same ▸ others other member), same]

/-! ### Flushing -/

/-- An image whose structures lie apart in front of the footer. -/
structure Flushable (info : HeaderInfo) (disk : Disk) : Prop where
  sizeLow : disk.image.uCurrentEndOfFile ≤ disk.file.size
  sizeHigh : disk.file.size ≤ disk.image.uCurrentEndOfFile + cbFooter
  tableBehind : cbFooter ≤ disk.image.uBlockAllocationTableOffset
  tableFront : disk.image.uBlockAllocationTableOffset +
    4 * disk.image.cBlockAllocationTableEntries ≤ disk.image.uCurrentEndOfFile
  headerBehind : cbFooter ≤ info.u64DataOffset
  headerFront : info.u64DataOffset + cbHeader ≤ disk.image.uCurrentEndOfFile
  headerApart : Apart info.u64DataOffset cbHeader disk.image.uBlockAllocationTableOffset
    (4 * disk.image.cBlockAllocationTableEntries)
  locators : ∀ locator ∈ info.locators, cbFooter ≤ locator.offset ∧
    locator.offset + locator.cbSpace ≤ disk.image.uCurrentEndOfFile ∧
    Apart locator.offset locator.cbSpace info.u64DataOffset cbHeader ∧
    Apart locator.offset locator.cbSpace disk.image.uBlockAllocationTableOffset
      (4 * disk.image.cBlockAllocationTableEntries)
  updates : info.fParentUpdates = true
  cookie : headerCookie (disk.file.byte.drop info.u64DataOffset) = true
  checksum : headerChecksum (disk.file.byte.drop info.u64DataOffset) = true

/-- What a flush leaves. -/
structure Flushed (info : HeaderInfo) (disk after : Disk) : Prop where
  image : after.image = disk.image
  copy : after.vhdFooterCopy = newFooter disk.vhdFooterCopy disk.image.cbSize info.geometry
  size : after.file.size = disk.image.uCurrentEndOfFile + cbFooter
  table : ∀ block < disk.image.cBlockAllocationTableEntries, ∀ k < 4,
    after.file.byte (disk.image.uBlockAllocationTableOffset + 4 * block + k) =
      be32 (disk.image.blockAllocationTable block) k
  header : ∃ ddh : Buf, (∀ i < cbHeader, ddh i = disk.file.byte (info.u64DataOffset + i)) ∧
    ∀ i < cbHeader, after.file.byte (info.u64DataOffset + i) =
      newHeader info ddh disk.image.cBlockAllocationTableEntries i
  last : ∀ i < cbFooter, after.file.byte (disk.image.uCurrentEndOfFile + i) =
    newFooter disk.vhdFooterCopy disk.image.cbSize info.geometry i
  others : ∀ x, cbFooter ≤ x → x < disk.image.uCurrentEndOfFile →
    (x < disk.image.uBlockAllocationTableOffset ∨ disk.image.uBlockAllocationTableOffset +
      4 * disk.image.cBlockAllocationTableEntries ≤ x) →
    (x < info.u64DataOffset ∨ info.u64DataOffset + cbHeader ≤ x) →
    (∀ locator ∈ info.locators, x < locator.offset ∨ locator.offset + locator.cbSpace ≤ x) →
    after.file.byte x = disk.file.byte x

theorem headerCookie_congr {b c : Buf} (agree : ∀ i < cbHeader, b i = c i) :
    headerCookie b = headerCookie c := by
  have same : (range 8).map b = (range 8).map c := map_congr_left fun i member =>
      agree i (lt_trans (mem_range.mp member) (by decide))
  rw [headerCookie, headerCookie, same]

theorem Flushable.flushed {info : HeaderInfo} {disk : Disk} (flushable : Flushable info disk) :
    Flushed info disk (flushWithHeader info disk) := by
  obtain ⟨sizeLow, sizeHigh, tableBehind, tableFront, headerBehind, headerFront, headerApart,
    locators, updates, cookie, checksum⟩ := flushable
  have footerSize : cbFooter = 512 := rfl
  have headerSize : cbHeader = 1024 := rfl
  obtain ⟨written, writtenEq⟩ : ∃ written, written =
      disk.file.write disk.image.uBlockAllocationTableOffset
        (4 * disk.image.cBlockAllocationTableEntries)
        (tableBytes disk.image.blockAllocationTable) := ⟨_, rfl⟩
  have writtenSize : written.size = disk.file.size := by
    rw [writtenEq]
    exact size_write_inside (by omega)
  have outsideTable : ∀ x, (x < disk.image.uBlockAllocationTableOffset ∨
      disk.image.uBlockAllocationTableOffset + 4 * disk.image.cBlockAllocationTableEntries ≤ x) →
      written.byte x = disk.file.byte x := by
    intro x outside
    rw [writtenEq]
    exact ByteFile.byte_write_of_not_mem outside
  have ddh : ∀ i < cbHeader, written.byte.drop info.u64DataOffset i =
      disk.file.byte (info.u64DataOffset + i) := by
    intro i below
    refine outsideTable _ ?_
    rcases headerApart with first | second
    · exact .inl (by omega)
    · exact .inr (by omega)
  have read : written.read info.u64DataOffset cbHeader =
      some (written.byte.drop info.u64DataOffset) :=
    ByteFile.read_eq_some.mpr ⟨by omega, rfl⟩
  have updated : vhdDynamicHeaderUpdate info disk.image.cBlockAllocationTableEntries written =
      some ((writeLocators info.locators written).write info.u64DataOffset cbHeader
        (newHeader info (written.byte.drop info.u64DataOffset)
          disk.image.cBlockAllocationTableEntries)) := by
    rw [vhdDynamicHeaderUpdate, read]
    simp only
    rw [if_pos]
    rw [headerCookie_congr ddh, (header_congr ddh).1]
    exact Bool.and_eq_true_iff.mpr ⟨Bool.and_eq_true_iff.mpr ⟨cookie, checksum⟩, updates⟩
  have locatorSize : (writeLocators info.locators written).size = disk.file.size := by
    rw [writeLocators_size fun locator member => ?_, writtenSize]
    have := (locators locator member).2.1
    omega
  -- the bytes behind the backup of the footer, before the footer
  have flush : flushWithHeader info disk =
      { image := disk.image
        vhdFooterCopy := newFooter disk.vhdFooterCopy disk.image.cbSize info.geometry
        file := ((((writeLocators info.locators written).write info.u64DataOffset cbHeader
          (newHeader info (written.byte.drop info.u64DataOffset)
            disk.image.cBlockAllocationTableEntries)).write 0 cbFooter
              (newFooter disk.vhdFooterCopy disk.image.cbSize info.geometry)).write
                disk.image.uCurrentEndOfFile cbFooter
                (newFooter disk.vhdFooterCopy disk.image.cbSize info.geometry)) } := by
    rw [flushWithHeader]
    rw [← writtenEq, updated]
    rfl
  have middle : ∀ x, cbFooter ≤ x → x < disk.image.uCurrentEndOfFile →
      (flushWithHeader info disk).file.byte x =
        if info.u64DataOffset ≤ x ∧ x < info.u64DataOffset + cbHeader then
          newHeader info (written.byte.drop info.u64DataOffset)
            disk.image.cBlockAllocationTableEntries (x - info.u64DataOffset)
        else (writeLocators info.locators written).byte x := by
    intro x low high
    rw [flush]
    simp only
    rw [ByteFile.byte_write_of_not_mem (.inl high),
      ByteFile.byte_write_of_not_mem (.inr (by omega)), ByteFile.byte_write]
  refine ⟨by rw [flush], by rw [flush], ?_, fun block known k short => ?_,
    ⟨written.byte.drop info.u64DataOffset, ddh, fun i below => ?_⟩, fun i below => ?_,
    fun x low high table header outside => ?_⟩
  · rw [flush]
    simp only [ByteFile.size_write, locatorSize]
    rw [if_neg (by decide), if_neg (by decide), if_neg (by decide)]
    omega
  · have inTable : disk.image.uBlockAllocationTableOffset + 4 * block + k <
        disk.image.uBlockAllocationTableOffset +
          4 * disk.image.cBlockAllocationTableEntries := by omega
    rw [middle _ (by omega) (by omega), if_neg (by rcases headerApart with h | h <;> omega),
      writeLocators_outside fun locator member => ?_]
    · rw [writtenEq, ByteFile.byte_write_of_mem (by omega) inTable, Nat.add_assoc,
        Nat.add_sub_cancel_left, tableBytes]
      have entry : (4 * block + k) / 4 = block := by omega
      have byte : (4 * block + k) % 4 = k := by omega
      rw [entry, byte]
    · rcases (locators locator member).2.2.2 with first | second
      · exact .inr (by omega)
      · exact .inl (by omega)
  · rw [middle _ (by omega) (by omega), if_pos ⟨by omega, by omega⟩, Nat.add_sub_cancel_left]
  · rw [flush]
    simp only
    rw [ByteFile.byte_write_of_mem (by omega) (by omega), Nat.add_sub_cancel_left]
  · rw [middle x low high, if_neg (by omega), writeLocators_outside outside, outsideTable x table]

/-- A flushed image can be flushed again. -/
theorem Flushed.again {info : HeaderInfo} {disk after : Disk} (flushable : Flushable info disk)
    (flushed : Flushed info disk after) : Flushable info after := by
  obtain ⟨ddh, same, header⟩ := flushed.header
  have agree : ∀ i < cbHeader, after.file.byte.drop info.u64DataOffset i =
      newHeader info ddh disk.image.cBlockAllocationTableEntries i := header
  have old : ∀ i < cbHeader, ddh i = disk.file.byte.drop info.u64DataOffset i := same
  refine
    { sizeLow := ?_
      sizeHigh := ?_
      tableBehind := by rw [flushed.image]; exact flushable.tableBehind
      tableFront := by rw [flushed.image]; exact flushable.tableFront
      headerBehind := flushable.headerBehind
      headerFront := by rw [flushed.image]; exact flushable.headerFront
      headerApart := by rw [flushed.image]; exact flushable.headerApart
      locators := by rw [flushed.image]; exact flushable.locators
      updates := flushable.updates
      cookie := ?_
      checksum := ?_ }
  · rw [flushed.image, flushed.size]
    exact Nat.le_add_right _ _
  · rw [flushed.image, flushed.size]
  · rw [headerCookie_congr agree, newHeader_cookie, headerCookie_congr old]
    exact flushable.cookie
  · rw [(header_congr agree).1]
    exact newHeader_checksum info ddh _

end VBox.Storage.Vhd
