import VBox.Storage.Vdi.Repair

/-!
What a repair leaves in the file.

The repair goes by the size of the file, opening an image for discards by the number of allocated
blocks in the header, which the repair does not change. The table is written as a whole; where it
begins in the geometry of a 1.1+ header, which the header checks allow, an entry that is cleared may
lie over the sector size there, which the next check of the header looks at.
-/

namespace VBox.Storage.Vdi

open VBox.Lib List

/-! ### The entries -/

section Entries

variable {header : VdiHeader} {cbFile : Nat}

/-- The entry is cleared if it names a block outside the file or one that was named before. -/
def IsCleared (header : VdiHeader) (cbFile : Nat) (before : List Nat) (ptrBlock : Nat) : Prop :=
  IsAllocated ptrBlock ∧ ¬ (InFile header cbFile ptrBlock ∧ ptrBlock ∉ before)

instance (before : List Nat) (ptrBlock : Nat) :
    Decidable (IsCleared header cbFile before ptrBlock) :=
  inferInstanceAs (Decidable (_ ∧ _))

theorem isCleared_congr {before before' : List Nat} {ptrBlock : Nat}
    (same : IsAllocated ptrBlock → InFile header cbFile ptrBlock →
      (ptrBlock ∈ before ↔ ptrBlock ∈ before')) :
    IsCleared header cbFile before ptrBlock ↔ IsCleared header cbFile before' ptrBlock := by
  refine and_congr_right fun allocated => not_congr (and_congr_right fun place => ?_)
  exact not_congr (same allocated place)

/-- What the checks make of one entry, and the bits that are set behind it. -/
theorem checkBlocks_cons {bitmap rest checked : List Nat} {head : Nat} {fBefore fAfter : Bool}
    (result : checkBlocks header cbFile bitmap fBefore (head :: rest) = some (checked, fAfter)) :
    ∃ bitmap' head' fBetween tail, checked = head' :: tail ∧
      checkBlocks header cbFile bitmap' fBetween rest = some (tail, fAfter) ∧
      head' = (if IsCleared header cbFile bitmap head then vdiImageBlockFree else head) ∧
      fBetween = (fBefore || decide (head' ≠ head)) ∧
      ∀ other, IsAllocated other → InFile header cbFile other →
        (other ∈ bitmap' ↔ other ∈ bitmap ++ [head]) := by
  have changed : IsAllocated head → vdiImageBlockFree ≠ head := fun allocated same =>
    not_isAllocated_free (same ▸ allocated)
  rw [checkBlocks] at result
  dsimp only at result
  by_cases allocated : IsAllocated head
  · rw [if_pos allocated] at result
    by_cases place : InFile header cbFile head
    · rw [if_neg (not_not.mpr place)] at result
      by_cases bit : InBitmap header head
      · rw [if_neg (not_not.mpr bit)] at result
        by_cases again : head ∈ bitmap
        · rw [if_pos again] at result
          obtain ⟨⟨tail, fTail⟩, found, pair⟩ := Option.map_eq_some_iff.mp result
          cases pair
          refine ⟨bitmap, _, true, tail, rfl, found,
            (if_pos ⟨allocated, fun kept => kept.2 again⟩).symm,
            by simp [changed allocated], fun other _ _ => ?_⟩
          rw [mem_append, mem_singleton]
          exact ⟨.inl, fun either => either.elim id fun same => same ▸ again⟩
        · rw [if_neg again] at result
          obtain ⟨⟨tail, fTail⟩, found, pair⟩ := Option.map_eq_some_iff.mp result
          cases pair
          refine ⟨head :: bitmap, _, fBefore, tail, rfl, found,
            (if_neg fun cleared => cleared.2 ⟨place, again⟩).symm, by simp, fun other _ _ => ?_⟩
          rw [mem_cons, mem_append, mem_singleton, or_comm]
      · rw [if_pos bit] at result
        cases result
    · rw [if_pos place] at result
      obtain ⟨⟨tail, fTail⟩, found, pair⟩ := Option.map_eq_some_iff.mp result
      cases pair
      refine ⟨bitmap, _, true, tail, rfl, found,
        (if_pos ⟨allocated, fun kept => place kept.1⟩).symm,
        by simp [changed allocated], fun other _ inFile => ?_⟩
      have apart : other ≠ head := fun same => place (same ▸ inFile)
      simp [apart]
  · rw [if_neg allocated] at result
    obtain ⟨⟨tail, fTail⟩, found, pair⟩ := Option.map_eq_some_iff.mp result
    cases pair
    refine ⟨bitmap, _, fBefore, tail, rfl, found,
      (if_neg fun cleared => allocated cleared.1).symm, by simp, fun other inUse _ => ?_⟩
    have apart : other ≠ head := fun same => allocated (same ▸ inUse)
    simp [apart]

/-- What the checks make of the entries, one by one, and when they report a repair. -/
theorem checkBlocks_spec {bitmap paBlocks checked : List Nat} {fBefore fAfter : Bool}
    (result : checkBlocks header cbFile bitmap fBefore paBlocks = some (checked, fAfter)) :
    checked.length = paBlocks.length ∧ fAfter = (fBefore || decide (checked ≠ paBlocks)) ∧
      ∀ i ptrBlock, paBlocks[i]? = some ptrBlock → checked[i]? =
        some (if IsCleared header cbFile (bitmap ++ paBlocks.take i) ptrBlock then
          vdiImageBlockFree else ptrBlock) := by
  induction paBlocks generalizing bitmap checked fBefore with
  | nil =>
    cases result
    exact ⟨rfl, by simp, fun i ptrBlock found => by simp at found⟩
  | cons head rest ih =>
    obtain ⟨bitmap', head', fBetween, tail, rfl, found, first, flag, bits⟩ :=
      checkBlocks_cons result
    obtain ⟨length, flag', entries⟩ := ih found
    refine ⟨by simp [length], ?_, ?_⟩
    · rw [flag', flag, Bool.or_assoc]
      congr 1
      by_cases same : head' = head <;> simp [same]
    · rintro (_ | i) ptrBlock entry
      · rw [getElem?_cons_zero] at entry
        cases entry
        rw [take_zero, append_nil, getElem?_cons_zero, first]
      · rw [getElem?_cons_succ] at entry ⊢
        rw [entries i ptrBlock entry]
        refine congrArg some (if_congr (isCleared_congr fun allocated place => ?_) rfl rfl)
        have here := bits ptrBlock allocated place
        rw [mem_append, mem_singleton] at here
        rw [mem_append, here, take_succ_cons, mem_append, mem_cons, or_assoc]

/-- The checks leave an array alone whose allocated entries are different blocks in the file. -/
theorem checkBlocks_of_distinct {bitmap paBlocks : List Nat} {fRepairBlockArray : Bool}
    (places : ∀ ptrBlock ∈ paBlocks, IsAllocated ptrBlock →
      InFile header cbFile ptrBlock ∧ InBitmap header ptrBlock ∧ ptrBlock ∉ bitmap)
    (distinct : paBlocks.Pairwise fun p q => IsAllocated p → p ≠ q) :
    checkBlocks header cbFile bitmap fRepairBlockArray paBlocks =
      some (paBlocks, fRepairBlockArray) := by
  induction paBlocks generalizing bitmap with
  | nil => rfl
  | cons head rest ih =>
    obtain ⟨first, others⟩ := pairwise_cons.mp distinct
    rw [checkBlocks]
    dsimp only
    by_cases allocated : IsAllocated head
    · obtain ⟨place, bit, fresh⟩ := places head mem_cons_self allocated
      have tail : ∀ ptrBlock ∈ rest, IsAllocated ptrBlock →
          InFile header cbFile ptrBlock ∧ InBitmap header ptrBlock ∧
            ptrBlock ∉ head :: bitmap := by
        intro ptrBlock member inUse
        obtain ⟨place, bit, fresh⟩ := places ptrBlock (mem_cons_of_mem _ member) inUse
        have apart := (first ptrBlock member allocated).symm
        exact ⟨place, bit, fun again => (mem_cons.mp again).elim apart fresh⟩
      rw [if_pos allocated, if_neg (not_not.mpr place), if_neg (not_not.mpr bit), if_neg fresh,
        ih tail others]
      rfl
    · rw [if_neg allocated,
        ih (fun ptrBlock member => places ptrBlock (mem_cons_of_mem _ member)) others]
      rfl

end Entries

/-! ### The file behind a repair -/

section File

variable {header : VdiHeader} {file file' : ByteFile}

/-- The entries of the table in front of entry `i`. -/
def entriesBefore (header : VdiHeader) (file : ByteFile) (i : Nat) : List Nat :=
  (List.range i).map (storedEntry file (getImageBlocksOffset header))

/-- A repair clears entry `i` of the table. -/
def ClearsEntry (header : VdiHeader) (file : ByteFile) (i : Nat) : Prop :=
  IsCleared header file.size (entriesBefore header file i)
    (storedEntry file (getImageBlocksOffset header) i)

instance (i : Nat) : Decidable (ClearsEntry header file i) :=
  inferInstanceAs (Decidable (_ ∧ _))

theorem mem_entriesBefore {i ptrBlock : Nat} : ptrBlock ∈ entriesBefore header file i ↔
    ∃ j < i, storedEntry file (getImageBlocksOffset header) j = ptrBlock := by
  simp [entriesBefore]

/-- A repair changes the entries it clears and nothing else. -/
structure Repaired (header : VdiHeader) (file file' : ByteFile) : Prop where
  size : file'.size = file.size
  cleared : ∀ i < getImageBlocks header, ClearsEntry header file i →
    storedEntry file' (getImageBlocksOffset header) i = vdiImageBlockFree
  frame : ∀ k, (∀ i < getImageBlocks header, ClearsEntry header file i →
    k < getImageBlocksOffset header + i * 4 ∨ getImageBlocksOffset header + i * 4 + 4 ≤ k) →
    file'.byte k = file.byte k
  bits : ∀ i < getImageBlocks header,
    IsAllocated (storedEntry file (getImageBlocksOffset header) i) →
    InFile header file.size (storedEntry file (getImageBlocksOffset header) i) →
    InBitmap header (storedEntry file (getImageBlocksOffset header) i)

theorem Repaired.kept (repaired : Repaired header file file') {i : Nat}
    (stays : ¬ ClearsEntry header file i) : storedEntry file' (getImageBlocksOffset header) i =
      storedEntry file (getImageBlocksOffset header) i := by
  refine storedEntry_congr fun k low high => repaired.frame k fun j _ clears => ?_
  have apart : j ≠ i := fun same => stays (same ▸ clears)
  omega

/-- The checks of the table in the file. -/
theorem checkBlocks_stored {checked : List Nat} {fRepair : Bool}
    (result : checkBlocks header file.size [] false
      (words (file.byte.drop (getImageBlocksOffset header)) (getImageBlocks header)) =
        some (checked, fRepair)) {i : Nat} (below : i < getImageBlocks header) :
    checked[i]? = some (if ClearsEntry header file i then vdiImageBlockFree
      else storedEntry file (getImageBlocksOffset header) i) := by
  obtain ⟨-, -, entries⟩ := checkBlocks_spec result
  have before : (words (file.byte.drop (getImageBlocksOffset header))
      (getImageBlocks header)).take i = entriesBefore header file i := by
    rw [words, ← map_take, take_range, Nat.min_eq_left below.le]
    rfl
  have entry := entries i (storedEntry file (getImageBlocksOffset header) i)
    (by rw [getElem?_words, if_pos below]; rfl)
  rw [nil_append, before] at entry
  exact entry

/-- Writing the table back. -/
theorem repaired_of_checked {checked : List Nat} {fRepair : Bool}
    (inside : getImageBlocksOffset header + getImageBlocks header * 4 ≤ file.size)
    (result : checkBlocks header file.size [] false
      (words (file.byte.drop (getImageBlocksOffset header)) (getImageBlocks header)) =
        some (checked, fRepair)) :
    Repaired header file (if fRepair then file.write (getImageBlocksOffset header)
      (getImageBlocks header * 4) (ofWords checked) else file) := by
  have bits : ∀ i < getImageBlocks header,
      IsAllocated (storedEntry file (getImageBlocksOffset header) i) →
      InFile header file.size (storedEntry file (getImageBlocksOffset header) i) →
      InBitmap header (storedEntry file (getImageBlocksOffset header) i) := by
    intro i below allocated place
    by_contra outside
    have member : storedEntry file (getImageBlocksOffset header) i ∈
        words (file.byte.drop (getImageBlocksOffset header)) (getImageBlocks header) :=
      List.mem_map_of_mem (mem_range.mpr below)
    have undefined : checkBlocks header file.size [] false
        (words (file.byte.drop (getImageBlocksOffset header)) (getImageBlocks header)) = none :=
      checkBlocks_eq_none.mpr ⟨_, member, allocated, place, outside⟩
    rw [result] at undefined
    cases undefined
  obtain ⟨length, flag, -⟩ := checkBlocks_spec result
  rw [length_words] at length
  split
  · -- the table is written as a whole
    have byte : ∀ i < getImageBlocks header, ∀ k < 4,
        (file.write (getImageBlocksOffset header) (getImageBlocks header * 4)
          (ofWords checked)).byte (getImageBlocksOffset header + i * 4 + k) =
        leByte (if ClearsEntry header file i then vdiImageBlockFree
          else storedEntry file (getImageBlocksOffset header) i) k := by
      intro i below k small
      have place : getImageBlocksOffset header + i * 4 + k - getImageBlocksOffset header =
          i * 4 + k := by omega
      have quotient : (i * 4 + k) / 4 = i := by omega
      have remainder : (i * 4 + k) % 4 = k := by omega
      rw [ByteFile.byte_write_of_mem (by omega) (by omega), place, ofWords, quotient, remainder,
        getD_eq_getElem?_getD, checkBlocks_stored result below]
      rfl
    refine ⟨?_, fun i below clears => ?_, fun k outside => ?_, bits⟩
    · rw [ByteFile.size_write]
      split <;> omega
    · refine wordAt_of_bytes (fun k small => ?_) (by decide)
      rw [Buf.drop_apply, Nat.mul_comm 4 i, ← Nat.add_assoc, byte i below k small, if_pos clears]
    · by_cases table : getImageBlocksOffset header ≤ k ∧
          k < getImageBlocksOffset header + getImageBlocks header * 4
      · obtain ⟨i, j, small, rfl⟩ : ∃ i j, j < 4 ∧ k = getImageBlocksOffset header + i * 4 + j :=
          ⟨(k - getImageBlocksOffset header) / 4, (k - getImageBlocksOffset header) % 4,
            by omega, by omega⟩
        have below : i < getImageBlocks header := by omega
        have stays : ¬ ClearsEntry header file i := by
          intro clears
          have := outside i below clears
          omega
        rw [byte i below j small, if_neg stays, storedEntry, wordAt, leByte_leNat _ small,
          Buf.drop_apply, Buf.drop_apply]
        congr 1
        omega
      · exact ByteFile.byte_write_of_not_mem (by omega)
  · rename_i unchanged
    have same : checked =
        words (file.byte.drop (getImageBlocksOffset header)) (getImageBlocks header) := by
      by_contra differs
      simp [differs] at flag
      exact unchanged flag
    refine ⟨rfl, fun i below clears => ?_, fun _ _ => rfl, bits⟩
    have entry := checkBlocks_stored result below
    rw [if_pos clears, same, getElem?_words, if_pos below] at entry
    exact Option.some.inj entry

/-- The file has valid headers and the whole table. -/
structure Checked (header : VdiHeader) (file : ByteFile) : Prop where
  pre : sizeofPreHeader ≤ file.size
  preValid : vdiValidatePreHeader (preHeaderCodec.dec (file.byte.drop 0)) = .vinfSuccess
  found : readHeader file { readOnly := true }
    (preHeaderCodec.dec (file.byte.drop 0)).u32Version = (.vinfSuccess, header)
  valid : vdiValidateHeader header = .vinfSuccess
  inside : getImageBlocksOffset header + getImageBlocks header * 4 ≤ file.size

/-- What a successful repair has checked and done. -/
theorem vdiRepair_success {fDryRun : Bool}
    (result : vdiRepair fDryRun file = .returned .vinfSuccess file') :
    ∃ header, Checked header file ∧ (fDryRun = false → Repaired header file file') := by
  unfold vdiRepair at result
  cases preRead : file.read 0 sizeofPreHeader with
  | none =>
    simp only [preRead] at result
    cases result
  | some buf =>
    obtain ⟨preInside, rfl⟩ := ByteFile.read_eq_some.mp preRead
    simp only [preRead] at result
    split at result
    · cases result
    rename_i preValid
    cases headerRead : readHeader file { readOnly := true }
        (preHeaderCodec.dec (file.byte.drop 0)).u32Version with
    | mk rc header =>
      simp only [headerRead] at result
      split at result
      · cases result
      rename_i success
      split at result
      · cases result
      rename_i valid
      split at result
      · cases result
      rename_i table tableRead
      obtain ⟨inside, rfl⟩ := ByteFile.read_eq_some.mp tableRead
      split at result
      · cases result
      rename_i checked fRepair checks
      refine ⟨header, ⟨by omega, not_not.mp preValid, ?_, not_not.mp valid, inside⟩, ?_⟩
      · rw [headerRead, not_not.mp success]
      rintro rfl
      have repaired := repaired_of_checked inside checks
      rw [Bool.not_false, Bool.and_true] at result
      split at result
      · rename_i on
        rw [if_pos on] at repaired
        cases result
        exact repaired
      · rename_i off
        rw [if_neg off] at repaired
        cases result
        exact repaired

/-- A repair leaves a file alone in which no entry is cleared. -/
theorem Checked.unchanged {fDryRun : Bool} (checked : Checked header file)
    (checks : checkBlocks header file.size [] false
      (words (file.byte.drop (getImageBlocksOffset header)) (getImageBlocks header)) =
        some (words (file.byte.drop (getImageBlocksOffset header)) (getImageBlocks header),
          false)) : vdiRepair fDryRun file = .returned .vinfSuccess file := by
  obtain ⟨pre, preValid, found, valid, inside⟩ := checked
  have preRead : file.read 0 sizeofPreHeader = some (file.byte.drop 0) :=
    ByteFile.read_eq_some.mpr ⟨by omega, rfl⟩
  have tableRead : file.read (getImageBlocksOffset header) (getImageBlocks header * 4) =
      some (file.byte.drop (getImageBlocksOffset header)) :=
    ByteFile.read_eq_some.mpr ⟨inside, rfl⟩
  unfold vdiRepair
  rw [preRead]
  dsimp only
  rw [if_neg (not_not.mpr preValid), found]
  dsimp only
  rw [if_neg (not_not.mpr rfl), if_neg (not_not.mpr valid), tableRead]
  dsimp only
  rw [checks]
  rfl

/-- What is still allocated is named once. -/
theorem Repaired.allocated (repaired : Repaired header file file') {i : Nat}
    (below : i < getImageBlocks header)
    (inUse : IsAllocated (storedEntry file' (getImageBlocksOffset header) i)) :
    storedEntry file' (getImageBlocksOffset header) i =
        storedEntry file (getImageBlocksOffset header) i ∧
      InFile header file.size (storedEntry file (getImageBlocksOffset header) i) ∧
      storedEntry file (getImageBlocksOffset header) i ∉ entriesBefore header file i := by
  have stays : ¬ ClearsEntry header file i := fun clears =>
    not_isAllocated_free (repaired.cleared i below clears ▸ inUse)
  have kept := repaired.kept stays
  rw [kept] at inUse
  exact ⟨kept, by_contra fun broken => stays ⟨inUse, broken⟩⟩

theorem Repaired.distinct (repaired : Repaired header file file') {i j : Nat}
    (less : i < j) (below : j < getImageBlocks header)
    (inUse : IsAllocated (storedEntry file' (getImageBlocksOffset header) i)) :
    storedEntry file' (getImageBlocksOffset header) i ≠
      storedEntry file' (getImageBlocksOffset header) j := by
  intro same
  obtain ⟨left, -, -⟩ := repaired.allocated (less.trans below) inUse
  obtain ⟨right, -, first⟩ := repaired.allocated below (same ▸ inUse)
  exact first (mem_entriesBefore.mpr ⟨i, less, left.symm.trans (same.trans right)⟩)

end File

/-! ### The header behind a repair -/

section Header

variable {header : VdiHeader} {file file' : ByteFile}

/-- The sector size in the LCHS geometry of a 1.1+ header. -/
def offSectorSize : Nat := sizeofPreHeader + sizeofHeader1 + 12

theorem offSectorSize_eq : offSectorSize = 468 := rfl

theorem cbSector_dec (b : Buf) :
    (geometryCodec.dec b).cbSector = UInt32.ofNat (leNat 4 (b.drop 12)) := by
  refine congrArg UInt32.ofNat (leNat_congr fun i _ => ?_)
  refine congrArg b ?_
  change 4 + (4 + (4 + i)) = 12 + i
  omega

/-- The header as the repaired file has it: the geometry may have changed. -/
def headerBehind (file' : ByteFile) : VdiHeader → VdiHeader
  | .v0 h => .v0 h
  | .v1 minor h g => .v1 minor h
      (if h.cbHeader.toNat < sizeofHeader1Plus then g
        else geometryCodec.dec (file'.byte.drop (sizeofPreHeader + sizeofHeader1)))

theorem headerBehind_same : SameFields header (headerBehind file' header) := by
  cases header <;> exact ⟨rfl, rfl, rfl, rfl, rfl, rfl, rfl⟩

theorem VersionOf.behind {u32Version : UInt32} (version : VersionOf u32Version header) :
    VersionOf u32Version (headerBehind file' header) := by
  cases header <;> exact version

/-- The header up to the geometry lies in front of the table. -/
theorem Repaired.stored (repaired : Repaired header file file')
    (valid : vdiValidateHeader header = .vinfSuccess) (stored : StoredHeader file header) :
    StoredHeader file' (headerBehind file' header) := by
  have front : ∀ k < getImageBlocksOffset header, file'.byte k = file.byte k := fun k before =>
    repaired.frame k fun i _ _ => .inl (by omega)
  cases header with
  | v0 h =>
    obtain ⟨fits, decoded⟩ := stored
    refine ⟨repaired.size ▸ fits, ?_⟩
    rw [← decoded]
    exact header0Codec.dec_congr _ _ fun k below => front _ (Nat.add_lt_add_left below _)
  | v1 minor h g =>
    have offsets := (vdiValidateHeader_eq_success.mp valid).1
    simp only [validateOffsets, Bool.and_eq_true, decide_eq_true_eq] at offsets
    have same : header1Codec.dec (file'.byte.drop sizeofPreHeader) =
        header1Codec.dec (file.byte.drop sizeofPreHeader) := by
      refine header1Codec.dec_congr _ _ fun k below => front _ ?_
      exact lt_of_lt_of_le (Nat.add_lt_add_left below _) offsets.1.2
    rw [StoredHeader] at stored
    rw [headerBehind, StoredHeader]
    split at stored
    · rename_i short
      obtain ⟨fits, decoded⟩ := stored
      rw [if_pos short]
      exact ⟨repaired.size ▸ fits, same.trans decoded⟩
    · rename_i long
      obtain ⟨fits, decoded⟩ := stored
      rw [if_neg long, if_neg long]
      refine ⟨repaired.size ▸ fits, Prod.ext (same.trans (congrArg Prod.fst decoded)) ?_⟩
      refine congrArg geometryCodec.dec (funext fun k => congrArg file'.byte ?_)
      exact (Nat.add_assoc _ _ _).symm

theorem cbSector_of_valid {g : VdiDiskGeometry} (valid : vdiValidateHeader header = .vinfSuccess)
    (geometry : getImageLCHSGeometry header = some g) : g.cbSector = vdiGeometrySectorSize := by
  obtain ⟨-, common⟩ := vdiValidateHeader_eq_success.mp valid
  simp only [commonChecksFail, Bool.or_eq_false_iff] at common
  have sector := common.1.1.1.1.1.1.2
  rw [geometry] at sector
  simpa using sector

/-- The header is still valid where the sector size has not changed. -/
theorem headerBehind_valid (valid : vdiValidateHeader header = .vinfSuccess)
    (stored : StoredHeader file header) (sector : getImageLCHSGeometry header ≠ none → ∀ k < 4,
      file'.byte (offSectorSize + k) = file.byte (offSectorSize + k)) :
    vdiValidateHeader (headerBehind file' header) = .vinfSuccess := by
  cases header with
  | v0 h => exact valid
  | v1 minor h g =>
    rw [headerBehind]
    split
    · exact valid
    · rename_i long
      have offsets := (vdiValidateHeader_eq_success.mp valid).1
      simp only [validateOffsets, Bool.and_eq_true, decide_eq_true_eq] at offsets
      refine vdiValidateHeader_geometry valid rfl offsets.1.1 ?_
      rw [getImageLCHSGeometry, if_neg long]
      split
      · rename_i one
        have present : getImageLCHSGeometry (.v1 minor h g) = some g := by
          rw [getImageLCHSGeometry, if_pos one, if_neg long]
        rw [StoredHeader, if_neg long] at stored
        have geometry : g = geometryCodec.dec
            ((file.byte.drop sizeofPreHeader).drop sizeofHeader1) :=
          (congrArg Prod.snd stored.2).symm
        have before := cbSector_of_valid valid present
        rw [geometry, cbSector_dec] at before
        have same : (geometryCodec.dec
            (file'.byte.drop (sizeofPreHeader + sizeofHeader1))).cbSector =
              vdiGeometrySectorSize := by
          rw [cbSector_dec, ← before]
          refine congrArg UInt32.ofNat (leNat_congr fun k below => ?_)
          have byte := sector (by rw [present]; exact Option.some_ne_none g) k below
          rw [offSectorSize, Nat.add_assoc] at byte
          rw [Buf.drop_apply, Buf.drop_apply, Buf.drop_apply, Buf.drop_apply, Buf.drop_apply, byte]
          refine congrArg file.byte ?_
          omega
        rw [Option.any_some, same]
        rfl
      · rfl

/-- Where the header is still valid, the sector size has its bytes. -/
theorem sectorSize_of_valid (valid : vdiValidateHeader (headerBehind file' header) = .vinfSuccess)
    (geometry : getImageLCHSGeometry header ≠ none) {k : Nat} (below : k < 4) :
    file'.byte (offSectorSize + k) = leByte vdiGeometrySectorSize.toNat k := by
  cases header with
  | v0 h => exact absurd rfl geometry
  | v1 minor h g =>
    rw [getImageLCHSGeometry] at geometry
    split at geometry
    · rename_i one
      split at geometry
      · exact absurd rfl geometry
      · rename_i long
        rw [headerBehind, if_neg long] at valid
        have present : getImageLCHSGeometry (.v1 minor h (geometryCodec.dec
            (file'.byte.drop (sizeofPreHeader + sizeofHeader1)))) = some (geometryCodec.dec
              (file'.byte.drop (sizeofPreHeader + sizeofHeader1))) := by
          rw [getImageLCHSGeometry, if_pos one, if_neg long]
        have sector := cbSector_of_valid valid present
        rw [cbSector_dec] at sector
        have number := congrArg UInt32.toNat sector
        rw [UInt32.toNat_ofNat_of_lt' (leNat_lt 4 _)] at number
        rw [← number, leByte_leNat _ below, Buf.drop_apply, Buf.drop_apply, offSectorSize,
          Nat.add_assoc]
    · exact absurd rfl geometry

end Header

/-! ### Opening the file behind a repair -/

section Opening

variable {header : VdiHeader} {file file' : ByteFile}

/-- What a repair is for. -/
structure Restored (header : VdiHeader) (file file' : ByteFile) : Prop where
  /-- The image opens for discards: no slot is shared, and every one is counted. -/
  opens : ∀ uOpenFlags : OpenFlags, uOpenFlags.discard = true → ∃ image,
    vdiOpenImage file' uOpenFlags = .ok image ∧
      (∀ i j p, HasSlot image i p → HasSlot image j p → i = j) ∧
      ∀ i p, HasSlot image i p → p < getImageBlocksAllocated image.header
  kept : ∀ i < getImageBlocks header, ¬ ClearsEntry header file i →
    storedEntry file' (getImageBlocksOffset header) i =
      storedEntry file (getImageBlocksOffset header) i
  cleared : ∀ i < getImageBlocks header, ClearsEntry header file i →
    storedEntry file' (getImageBlocksOffset header) i = vdiImageBlockFree
  again : vdiRepair false file' = .returned .vinfSuccess file'

/-- The header counts every slot the file has a block for and an entry names, and no entry to be
cleared lies over the sector size in the header. -/
structure Restorable (header : VdiHeader) (file : ByteFile) : Prop where
  counted : ∀ i < getImageBlocks header,
    IsAllocated (storedEntry file (getImageBlocksOffset header) i) →
    InFile header file.size (storedEntry file (getImageBlocksOffset header) i) →
    storedEntry file (getImageBlocksOffset header) i < getImageBlocksAllocated header
  sectorSize : getImageLCHSGeometry header ≠ none → ∀ i < getImageBlocks header,
    ClearsEntry header file i → getImageBlocksOffset header + i * 4 + 4 ≤ offSectorSize ∨
      offSectorSize + 4 ≤ getImageBlocksOffset header + i * 4

/-- A slot is named first by some entry. -/
theorem exists_first_entry {i ptrBlock : Nat}
    (entry : storedEntry file (getImageBlocksOffset header) i = ptrBlock) :
    ∃ j ≤ i, storedEntry file (getImageBlocksOffset header) j = ptrBlock ∧
      ptrBlock ∉ entriesBefore header file j := by
  classical
  have named : ∃ j, storedEntry file (getImageBlocksOffset header) j = ptrBlock := ⟨i, entry⟩
  refine ⟨Nat.find named, Nat.find_min' named entry, Nat.find_spec named, fun before => ?_⟩
  obtain ⟨j, less, again⟩ := mem_entriesBefore.mp before
  exact Nat.find_min named less again

/-- What an entry of the array behind a repair is. -/
theorem words_stored {i ptrBlock : Nat}
    (entry : (words (file'.byte.drop (getImageBlocksOffset header))
      (getImageBlocks header))[i]? = some ptrBlock) : i < getImageBlocks header ∧
      storedEntry file' (getImageBlocksOffset header) i = ptrBlock := by
  rw [getElem?_words] at entry
  split at entry
  · rename_i below
    exact ⟨below, Option.some.inj entry⟩
  · cases entry

theorem SameFields.trans {header' header'' : VdiHeader} (left : SameFields header header')
    (right : SameFields header' header'') : SameFields header header'' :=
  ⟨right.blocks.trans left.blocks, right.blockSize.trans left.blockSize,
    right.extra.trans left.extra, right.diskSize.trans left.diskSize,
    right.allocated.trans left.allocated, right.blocksOffset.trans left.blocksOffset,
    right.dataOffset.trans left.dataOffset⟩

/-- A second repair finds nothing. -/
theorem Repaired.again (repaired : Repaired header file file') {fDryRun : Bool}
    {header' : VdiHeader} (same : SameFields header header') (checked : Checked header' file') :
    vdiRepair fDryRun file' = .returned .vinfSuccess file' := by
  have block : repairBlockSize header' = repairBlockSize header := by
    rw [repairBlockSize, repairBlockSize, same.extra, same.blockSize]
  refine checked.unchanged (checkBlocks_of_distinct ?_ ?_)
  · rw [same.blocksOffset, same.blocks]
    intro ptrBlock member inUse
    obtain ⟨i, entry⟩ := mem_iff_getElem?.mp member
    obtain ⟨below, rfl⟩ := words_stored entry
    obtain ⟨kept, place, -⟩ := repaired.allocated below inUse
    have bit := repaired.bits i below (kept ▸ inUse) place
    rw [kept]
    refine ⟨?_, ?_, not_mem_nil⟩
    · unfold InFile at place ⊢
      rw [block, same.dataOffset, repaired.size]
      exact place
    · unfold InBitmap at bit ⊢
      rw [same.blocks]
      exact bit
  · rw [same.blocksOffset, same.blocks, pairwise_iff_getElem]
    intro i j left right less inUse
    rw [length_words] at right
    have entry : ∀ k (below : k < _), (words (file'.byte.drop (getImageBlocksOffset header))
        (getImageBlocks header))[k] = storedEntry file' (getImageBlocksOffset header) k := by
      intro k below
      simp [words, storedEntry]
    rw [entry] at inUse
    rw [entry, entry]
    exact repaired.distinct less right inUse

/-- The slots of the array behind a repair are different. -/
theorem Repaired.words_distinct (repaired : Repaired header file file') (i j p : Nat)
    (left : (words (file'.byte.drop (getImageBlocksOffset header))
      (getImageBlocks header))[i]? = some p)
    (right : (words (file'.byte.drop (getImageBlocksOffset header))
      (getImageBlocks header))[j]? = some p) (inUse : IsAllocated p) : i = j := by
  obtain ⟨small, first⟩ := words_stored left
  obtain ⟨small', second⟩ := words_stored right
  rcases Nat.lt_trichotomy i j with less | same | less
  · exact absurd (first.trans second.symm) (repaired.distinct less small' (first ▸ inUse))
  · exact same
  · exact absurd (second.trans first.symm) (repaired.distinct less small (second ▸ inUse))

/-- Entries to be cleared that lie over the sector size spoil it. -/
theorem Repaired.sectorSize (repaired : Repaired header file file')
    (valid : vdiValidateHeader (headerBehind file' header) = .vinfSuccess)
    (geometry : getImageLCHSGeometry header ≠ none) {i : Nat} (below : i < getImageBlocks header)
    (clears : ClearsEntry header file i) : getImageBlocksOffset header + i * 4 + 4 ≤ offSectorSize ∨
      offSectorSize + 4 ≤ getImageBlocksOffset header + i * 4 := by
  by_contra overlaps
  obtain ⟨k, byte, low, high⟩ : ∃ k < 4, getImageBlocksOffset header + i * 4 ≤
      offSectorSize + k ∧ offSectorSize + k < getImageBlocksOffset header + i * 4 + 4 :=
    ⟨getImageBlocksOffset header + i * 4 - offSectorSize, by omega, by omega, by omega⟩
  have sector := sectorSize_of_valid valid geometry byte
  have cleared : file'.byte (offSectorSize + k) = leByte vdiImageBlockFree
      (offSectorSize + k - (getImageBlocksOffset header + i * 4)) := by
    rw [← repaired.cleared i below clears, storedEntry, wordAt, leByte_leNat _ (by omega),
      Buf.drop_apply, Buf.drop_apply]
    refine congrArg file'.byte ?_
    omega
  have ones : ∀ n < 4, leByte vdiImageBlockFree n = 255 := by decide
  have size : ∀ n < 4, leByte vdiGeometrySectorSize.toNat n ≠ 255 := by decide
  refine size k byte ?_
  rw [← sector, cleared, ones _ (by omega)]

/-- The file behind a repair as far as it does not depend on the geometry. -/
structure Behind (header : VdiHeader) (file' : ByteFile) : Prop where
  pre : sizeofPreHeader ≤ file'.size
  preValid : vdiValidatePreHeader (preHeaderCodec.dec (file'.byte.drop 0)) = .vinfSuccess
  version : VersionOf (preHeaderCodec.dec (file'.byte.drop 0)).u32Version
    (headerBehind file' header)
  stored : StoredHeader file' (headerBehind file' header)
  inside : getImageBlocksOffset header + getImageBlocks header * 4 ≤ file'.size

theorem Repaired.behind (repaired : Repaired header file file') (checked : Checked header file) :
    Behind header file' := by
  obtain ⟨pre, preValid, found, valid, inside⟩ := checked
  obtain ⟨version, stored⟩ := readHeader_success found
  have early : sizeofPreHeader ≤ getImageBlocksOffset header := by
    cases header with
    | v0 h => exact Nat.le_add_right _ _
    | v1 minor h g =>
      have offsets := (vdiValidateHeader_eq_success.mp valid).1
      simp only [validateOffsets, Bool.and_eq_true, decide_eq_true_eq] at offsets
      exact (Nat.le_add_right _ _).trans offsets.1.2
  have samePre : preHeaderCodec.dec (file'.byte.drop 0) =
      preHeaderCodec.dec (file.byte.drop 0) := by
    refine preHeaderCodec.dec_congr _ _ fun k below => repaired.frame _ fun i _ _ => .inl ?_
    have before : k < sizeofPreHeader := below
    omega
  constructor
  · rw [repaired.size]
    exact pre
  · rw [samePre]
    exact preValid
  · rw [samePre]
    exact version.behind
  · exact repaired.stored valid (stored rfl)
  · rw [repaired.size]
    exact inside

/-- If the file opens at all, the header in it is valid. -/
theorem Behind.valid_of_opens (behind : Behind header file') {uOpenFlags : OpenFlags}
    {image : VdiImage} (opened : Opened file' uOpenFlags image)
    (geometry : getImageLCHSGeometry header ≠ none) :
    vdiValidateHeader (headerBehind file' header) = .vinfSuccess := by
  obtain ⟨-, -, version, stored, -⟩ := behind
  cases header with
  | v0 h => exact absurd rfl geometry
  | v1 minor h g =>
    have long : ¬ h.cbHeader.toNat < sizeofHeader1Plus := by
      intro short
      rw [getImageLCHSGeometry, if_pos short, ite_self] at geometry
      exact geometry rfl
    rw [headerBehind, if_neg long] at version stored ⊢
    rw [StoredHeader, if_neg long] at stored
    have whole := @readHeader_plus _ _ _ file' uOpenFlags version.1 (Nat.le_of_not_lt long)
      stored.1 stored.2
    rw [← version.2, opened.header] at whole
    rw [← (Prod.mk.inj whole).2]
    exact opened.validated

/-- What an image that opens for discards after the repair says about the file before. -/
theorem Restored.restorable (restored : Restored header file file')
    (checked : Checked header file) (repaired : Repaired header file file') :
    Restorable header file := by
  have behind := repaired.behind checked
  have stored := (readHeader_success checked.found).2 rfl
  obtain ⟨image, opens, -, below⟩ := restored.opens { discard := true } rfl
  have opened := vdiOpenImage_opened opens
  have valid : vdiValidateHeader (headerBehind file' header) = .vinfSuccess := by
    by_cases geometry : getImageLCHSGeometry header = none
    · exact headerBehind_valid checked.valid stored fun present => absurd geometry present
    · exact behind.valid_of_opens opened geometry
  obtain ⟨header', read, fields, -⟩ :=
    readHeader_stored behind.version behind.stored valid { discard := true }
  rw [opened.header] at read
  obtain rfl := (Prod.mk.inj read).2
  have same := headerBehind_same.trans fields
  refine ⟨fun i small inUse place => ?_, fun geometry i small clears =>
    repaired.sectorSize valid geometry small clears⟩
  obtain ⟨j, le, entry, first⟩ := @exists_first_entry header file i _ rfl
  have stays : ¬ ClearsEntry header file j := by
    rintro ⟨-, broken⟩
    rw [entry] at broken
    exact broken ⟨place, first⟩
  have slot : HasSlot image j (storedEntry file (getImageBlocksOffset header) i) := by
    refine ⟨?_, inUse⟩
    rw [opened.paBlocks_eq, getElem?_words, same.blocks, if_pos (by omega),
      opened.setUp.offStartBlocks, same.blocksOffset]
    exact congrArg some ((repaired.kept stays).trans entry)
  rw [← same.allocated]
  exact below j _ slot

theorem Restorable.restored (restorable : Restorable header file)
    (checked : Checked header file) (repaired : Repaired header file file') :
    Restored header file file' := by
  have behind := repaired.behind checked
  have stored := (readHeader_success checked.found).2 rfl
  have valid : vdiValidateHeader (headerBehind file' header) = .vinfSuccess := by
    refine headerBehind_valid checked.valid stored fun geometry k below => ?_
    refine repaired.frame _ fun i small clears => ?_
    rcases restorable.sectorSize geometry i small clears with before | after
    · exact .inr (by omega)
    · exact .inl (by omega)
  constructor
  · intro uOpenFlags discard
    obtain ⟨header', read, fields, valid'⟩ :=
      readHeader_stored behind.version behind.stored valid uOpenFlags
    have same := headerBehind_same.trans fields
    have counted : ∀ i p : Nat, (words (file'.byte.drop (getImageBlocksOffset header))
        (getImageBlocks header))[i]? = some p → IsAllocated p →
          p < getImageBlocksAllocated header' := by
      intro i p entry inUse
      obtain ⟨below, rfl⟩ := words_stored entry
      obtain ⟨kept, place, -⟩ := repaired.allocated below inUse
      rw [same.allocated, kept]
      exact restorable.counted i below (kept ▸ inUse) place
    obtain ⟨rev, -, indexes⟩ : ∃ rev, rev.length = getImageBlocksAllocated header' ∧
        Indexes IsAllocated vdiImageBlockFree (words (file'.byte.drop
          (getImageBlocksOffset header)) (getImageBlocks header)) rev
          (getImageBlocksAllocated header') :=
      Indexes.exists_of_distinct (le_refl _) counted repaired.words_distinct
    rw [← same.blocksOffset, ← same.blocks] at indexes
    obtain ⟨image, opens, sameHeader, paBlocks⟩ := vdiOpenImage_stored behind.pre behind.preValid
      read valid' (by rw [same.blocksOffset, same.blocks]; exact behind.inside)
      fun _ => ⟨rev, indexes⟩
    rw [same.blocksOffset, same.blocks] at paBlocks
    refine ⟨image, opens, fun i j p left right => ?_, fun i p slot => ?_⟩
    · exact repaired.words_distinct i j p (paBlocks ▸ left.1) (paBlocks ▸ right.1) left.2
    · rw [sameHeader]
      exact counted i p (paBlocks ▸ slot.1) slot.2
  · exact fun i _ stays => repaired.kept stays
  · exact repaired.cleared
  · obtain ⟨header', read, fields, valid'⟩ :=
      readHeader_stored behind.version behind.stored valid { readOnly := true }
    have same := headerBehind_same.trans fields
    refine repaired.again same ⟨behind.pre, behind.preValid, read, valid', ?_⟩
    rw [same.blocksOffset, same.blocks]
    exact behind.inside

/-- A successful repair gives an image that can be used again exactly if the header counts the
blocks that stay and its sector size does. -/
theorem vdiRepair_restores_iff (result : vdiRepair false file = .returned .vinfSuccess file')
    (found : readHeader file { readOnly := true }
      (preHeaderCodec.dec (file.byte.drop 0)).u32Version = (.vinfSuccess, header)) :
    Restored header file file' ↔ Restorable header file := by
  obtain ⟨header', checked, repair⟩ := vdiRepair_success result
  have read := checked.found
  rw [found] at read
  obtain rfl := (Prod.mk.inj read).2
  have repaired := repair rfl
  exact ⟨fun restored => restored.restorable checked repaired,
    fun restorable => restorable.restored checked repaired⟩

end Opening

/-! ### Small files -/

theorem vdiRepair_of_status {fDryRun : Bool} {file : ByteFile} {rc : RepairStatus}
    (status : (vdiRepair fDryRun file).status = some rc) :
    vdiRepair fDryRun file = .returned rc (vdiRepair fDryRun file).file := by
  cases result : vdiRepair fDryRun file with
  | undefined =>
    rw [result] at status
    cases status
  | returned rc' file' =>
    rw [result] at status
    cases status
    rfl

/-- One slot, named twice, and a slot behind the end of the file. -/
def damagedFile : ByteFile :=
  imageFile (smallHeader 1024 512 0 32 1) ([0, 0, 7] ++ List.replicate 29 vdiImageBlockFree) 1536
    fun _ => 1

/-- The header of the file is the one it was written with. -/
theorem readHeader_damagedFile : readHeader damagedFile { readOnly := true }
    (preHeaderCodec.dec (damagedFile.byte.drop 0)).u32Version =
      (.vinfSuccess, smallHeader 1024 512 0 32 1) := by
  have version : (preHeaderCodec.dec (damagedFile.byte.drop 0)).u32Version = 65537 := by
    decide +kernel
  have length : (headerBytes (smallHeader 1024 512 0 32 1)).1 = 400 := rfl
  have table : getImageBlocksOffset (smallHeader 1024 512 0 32 1) = 512 := rfl
  rw [version]
  refine readHeader_plus (by decide) (by decide) (by decide) ?_
  refine header1PlusCodec.dec_enc _ _ fun i below => ?_
  have inside : i < 400 := below
  rw [Buf.drop, damagedFile, imageFile, length, table, sizeofPreHeader_eq,
    ByteFile.byte_write_of_not_mem (by omega), ByteFile.byte_write_of_mem (by omega) (by omega),
    Nat.add_sub_cancel_left]
  rfl

theorem vdiRepair_restores_damaged :
    Restored (smallHeader 1024 512 0 32 1) damagedFile (vdiRepair false damagedFile).file := by
  refine (vdiRepair_restores_iff (vdiRepair_of_status (by decide +kernel))
    readHeader_damagedFile).mpr ⟨by decide +kernel, fun _ i _ _ => .inr ?_⟩
  have offset : getImageBlocksOffset (smallHeader 1024 512 0 32 1) = 512 := rfl
  rw [offset, offSectorSize_eq]
  omega

/-- A slot in the file that the header does not count. -/
def uncountedFile : ByteFile :=
  imageFile (smallHeader 1024 512 0 32 0) (0 :: List.replicate 31 vdiImageBlockFree) 1536
    fun _ => 1

/-- A header whose table begins eight bytes in front of its own end. -/
def overlappingHeader : VdiHeader :=
  match smallHeader 1024 512 0 32 0 with
  | .v0 h => .v0 h
  | .v1 minor h g => .v1 minor { h with offBlocks := 464 } g

/-- The second entry of the table is the sector size in the header. -/
def overlappingFile : ByteFile :=
  imageFile overlappingHeader ([vdiImageBlockFree, 512] ++ List.replicate 30 vdiImageBlockFree)
    1024 fun _ => 1

/-- After a repair that succeeds the first file does not open for discards, and the second one has
no valid header. -/
theorem exists_repair_unusable :
    (vdiRepair false uncountedFile).status = some .vinfSuccess ∧
      ¬ Restored (smallHeader 1024 512 0 32 0) uncountedFile
        (vdiRepair false uncountedFile).file ∧
    (vdiRepair false overlappingFile).status = some .vinfSuccess ∧
      ¬ Restored overlappingHeader overlappingFile (vdiRepair false overlappingFile).file := by
  refine ⟨by decide +kernel, fun restored => ?_, by decide +kernel, fun restored => ?_⟩
  · obtain ⟨image, opens, -⟩ := restored.opens { discard := true } rfl
    have refused : (vdiOpenImage (vdiRepair false uncountedFile).file
        { discard := true }).isOk = false := by decide +kernel
    rw [opens] at refused
    cases refused
  · have refused : (vdiRepair false (vdiRepair false overlappingFile).file).status =
        some .verrVdImageRepairImpossible := by decide +kernel
    rw [restored.again] at refused
    cases refused

end VBox.Storage.Vdi
