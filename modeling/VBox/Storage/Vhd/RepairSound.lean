import VBox.Storage.Vhd.RepairTable

/-!
When a repair leaves a sound image.

The condition is on the file: no checksum is wrong, the backup of the footer is right, every entry
of the block allocation table is free, points beyond the file or at a block of the data area that
has a bit in the block bitmap, and two blocks are the same or apart.
-/

namespace VBox.Storage.Vhd

open VBox.Lib

/-! ### What a repaired file is -/

/-- Two ranges of the file do not meet. -/
def Apart (off cb off' cb' : Nat) : Prop := off + cb ≤ off' ∨ off' + cb' ≤ off

instance (off cb off' cb' : Nat) : Decidable (Apart off cb off' cb') :=
  inferInstanceAs (Decidable (_ ∨ _))

/-- The last sector of the file, where the footer belongs. -/
def lastSector (file : ByteFile) : Buf := file.byte.drop (file.size - cbFooter)

def ValidFooter (footer : Buf) : Prop := fCookie footer = true ∧ footerChecksum footer = true

/-- Where the structures of a dynamic image lie. -/
structure Layout where
  cbFile : Nat
  offHeader : Nat
  offBat : Nat
  cBatEntries : Nat
  cbData : Nat

def layoutOf (file : ByteFile) (footer : Buf) : Layout :=
  let header := file.byte.drop (dataOffset footer)
  { cbFile := file.size
    offHeader := dataOffset footer
    offBat := tableOffset header
    cBatEntries := maxTableEntries header
    cbData := blockSize header }

/-- The bytes a block takes in the file, with the sectors of its bitmap. -/
def Layout.cbOnDisk (layout : Layout) : Nat :=
  let cbBitmap := layout.cbData / VHD_SECTOR_SIZE / 8
  (cbBitmap / VHD_SECTOR_SIZE + if 0 < cbBitmap % VHD_SECTOR_SIZE then 1 else 0) *
    VHD_SECTOR_SIZE + layout.cbData

/-- The entry's block lies in the data area. -/
structure Layout.DataBlock (layout : Layout) (entry : Nat) : Prop where
  allocated : entry ≠ cleared
  front : entry * VHD_SECTOR_SIZE + layout.cbOnDisk ≤ layout.cbFile - cbFooter
  backup : cbFooter ≤ entry * VHD_SECTOR_SIZE
  header : Apart (entry * VHD_SECTOR_SIZE) layout.cbOnDisk layout.offHeader cbHeader
  table : Apart (entry * VHD_SECTOR_SIZE) layout.cbOnDisk layout.offBat (4 * layout.cBatEntries)

instance (layout : Layout) (entry : Nat) : Decidable (layout.DataBlock entry) :=
  decidable_of_iff
    (entry ≠ cleared ∧
      entry * VHD_SECTOR_SIZE + layout.cbOnDisk ≤ layout.cbFile - cbFooter ∧
      cbFooter ≤ entry * VHD_SECTOR_SIZE ∧
      Apart (entry * VHD_SECTOR_SIZE) layout.cbOnDisk layout.offHeader cbHeader ∧
      Apart (entry * VHD_SECTOR_SIZE) layout.cbOnDisk layout.offBat (4 * layout.cBatEntries))
    ⟨fun h => ⟨h.1, h.2.1, h.2.2.1, h.2.2.2.1, h.2.2.2.2⟩,
      fun h => ⟨h.allocated, h.front, h.backup, h.header, h.table⟩⟩

/-- The entries of the table in the file. -/
def Layout.entries (layout : Layout) (file : ByteFile) : List Nat :=
  batEntries (file.byte.drop layout.offBat) layout.cBatEntries

/-- An entry is the first reference to a block of the data area. -/
def Layout.First (layout : Layout) (entries : List Nat) (i entry : Nat) : Prop :=
  layout.DataBlock entry ∧ entry ∉ entries.take i

structure TableRepaired (layout : Layout) (before after : ByteFile) : Prop where
  unchanged : ∀ i entry, (layout.entries before)[i]? = some entry →
    layout.First (layout.entries before) i entry → (layout.entries after)[i]? = some entry
  others : ∀ i entry, (layout.entries before)[i]? = some entry →
    ¬ layout.First (layout.entries before) i entry → (layout.entries after)[i]? = some cleared
  apart : (layout.entries after).Pairwise fun entry other => entry ≠ cleared → other ≠ cleared →
    Apart (entry * VHD_SECTOR_SIZE) layout.cbOnDisk (other * VHD_SECTOR_SIZE) layout.cbOnDisk

/-- What a successful repair should leave. -/
structure Repaired (before after : ByteFile) : Prop where
  large : cbFooter ≤ after.size
  footer : ValidFooter (lastSector after)
  backup : fDynamicType (lastSector after) = true → ValidFooter after.byte
  header : fDynamicType (lastSector after) = true →
    headerChecksum (after.byte.drop (dataOffset (lastSector after))) = true
  table : fDynamicType (lastSector after) = true →
    TableRepaired (layoutOf after (lastSector after)) before after
  again : ∀ fDryRun, vhdRepair (fun _ => false) fDryRun after = .returned none false after

/-- What the repair of a file should do, whatever fails. -/
structure RepairRight (file : ByteFile) : Prop where
  defined : ∀ fails fDryRun leave, vhdRepair fails fDryRun file ≠ .undefined leave
  repaired : ∀ fails found after,
    vhdRepair fails false file = .returned none found after → Repaired file after

/-! ### What the file must hold -/

/-- The footer the repair goes by, and whether it is missing at the end of the file. -/
structure Chosen (file : ByteFile) (footer : Buf) (fMissing : Bool) : Prop where
  large : cbFooter ≤ file.size
  cookie : fCookie footer = true
  last : fMissing = false → footer = lastSector file
  absent : fMissing = true → fCookie (lastSector file) = false
  backup : fMissing = true → footer = file.byte

/-- The bits of the block bitmap suffice for the entry. -/
def Mapped (limits : BatLimits) (entry : Nat) : Prop :=
  limits.bit entry < limits.cBits ∧ limits.bit entry < 2 ^ 31

def Layout.limits (layout : Layout) (entries : List Nat) : BatLimits :=
  { cbFile := layout.cbFile
    cbBlock := layout.cbData + layout.cbData / VHD_SECTOR_SIZE / 8
    idxMinBlock := idxMinBlockOf entries
    cBits := cBitsOf layout.cBatEntries }

structure SoundTable (file : ByteFile) (layout : Layout) (fMissing : Bool) : Prop where
  backup : fMissing = false → ValidFooter file.byte
  header : layout.offHeader + cbHeader ≤ layout.cbFile - cbFooter
  table : layout.offBat + 4 * layout.cBatEntries ≤ layout.cbFile - cbFooter
  behind : cbFooter ≤ layout.offBat
  apart : Apart layout.offHeader cbHeader layout.offBat (4 * layout.cBatEntries)
  entries : ∀ entry ∈ layout.entries file, entry = cleared ∨
    layout.cbFile < entry * VHD_SECTOR_SIZE + (layout.limits (layout.entries file)).cbBlock ∨
    layout.DataBlock entry ∧ VHD_SECTOR_SIZE ≤ layout.cbData ∧
      Mapped (layout.limits (layout.entries file)) entry
  disjoint : ∀ entry ∈ layout.entries file, ∀ other ∈ layout.entries file,
    layout.DataBlock entry → layout.DataBlock other → entry = other ∨
      Apart (entry * VHD_SECTOR_SIZE) layout.cbOnDisk (other * VHD_SECTOR_SIZE) layout.cbOnDisk

/-- A dynamic image whose header and table lie in the file has them right. -/
def SoundDynamic (file : ByteFile) (footer : Buf) (fMissing : Bool) : Prop :=
  let layout := layoutOf file footer
  layout.offHeader + cbHeader ≤ file.size →
    headerChecksum (file.byte.drop layout.offHeader) = true ∧
      (layout.offBat + 4 * layout.cBatEntries ≤ file.size → SoundTable file layout fMissing)

/-- The files that are repaired. -/
def Sound (file : ByteFile) : Prop :=
  ∀ footer fMissing, Chosen file footer fMissing →
    footerChecksum footer = true ∧
      (fDynamicType footer = false → fMissing = true →
        diskType footer = VHD_FOOTER_DISK_TYPE_FIXED) ∧
      (fDynamicType footer = true → SoundDynamic file footer fMissing)

/-! ### The checks of a sound file -/

theorem Layout.cbBlock_le (layout : Layout) :
    layout.cbData + layout.cbData / VHD_SECTOR_SIZE / 8 ≤ layout.cbOnDisk := by
  unfold Layout.cbOnDisk VHD_SECTOR_SIZE
  simp only
  split <;> omega

section Table

variable {file : ByteFile} {layout : Layout} {fMissing : Bool}

theorem SoundTable.of_fits (sound : SoundTable file layout fMissing) {entry : Nat}
    (member : entry ∈ layout.entries file)
    (fits : (layout.limits (layout.entries file)).fits entry = true) :
    layout.DataBlock entry ∧ VHD_SECTOR_SIZE ≤ layout.cbData ∧
      Mapped (layout.limits (layout.entries file)) entry := by
  obtain ⟨live, inFile⟩ := Bool.and_eq_true_iff.mp fits
  rcases sound.entries entry member with free | beyond | data
  · exact absurd free (bne_iff_ne.mp live)
  · exact absurd beyond (Nat.not_lt.mpr (of_decide_eq_true inFile))
  · exact data

theorem Layout.DataBlock.fits {entry : Nat} (data : layout.DataBlock entry) (table : List Nat) :
    (layout.limits table).fits entry = true := by
  refine Bool.and_eq_true_iff.mpr ⟨bne_iff_ne.mpr data.allocated, decide_eq_true ?_⟩
  have front := data.front
  have least := layout.cbBlock_le
  simp only [Layout.limits]
  omega

/-- The bits stay apart when the least entry does not become smaller. -/
theorem SoundTable.indexed (sound : SoundTable file layout fMissing) {table : List Nat}
    (sub : ∀ entry ∈ table, entry = cleared ∨ entry ∈ layout.entries file)
    (least : idxMinBlockOf (layout.entries file) ≤ idxMinBlockOf table) :
    Indexed (layout.limits table) (layout.cbFile - cbFooter) table := by
  have data : ∀ entry ∈ table, (layout.limits table).fits entry = true →
      entry ∈ layout.entries file ∧ layout.DataBlock entry ∧ VHD_SECTOR_SIZE ≤ layout.cbData ∧
        Mapped (layout.limits (layout.entries file)) entry := by
    intro entry member fits
    rcases sub entry member with free | known
    · exact absurd free (bne_iff_ne.mp (Bool.and_eq_true_iff.mp fits).1)
    · exact ⟨known, sound.of_fits known fits⟩
  have sectors : VHD_SECTOR_SIZE ≤ layout.cbData →
      (layout.limits table).cbBlock / VHD_SECTOR_SIZE ≠ 0 := by
    intro large
    exact Nat.ne_of_gt (Nat.div_pos (le_trans large (Nat.le_add_right _ _)) (by decide))
  have ordered : ∀ entry ∈ table, ∀ other, VHD_SECTOR_SIZE ≤ layout.cbData →
      entry * VHD_SECTOR_SIZE + layout.cbOnDisk ≤ other * VHD_SECTOR_SIZE →
      (layout.limits table).bit entry < (layout.limits table).bit other := by
    intro entry member other large first
    refine bit_lt_bit (sectors large) (idxMinBlockOf_le member) ?_
    have fitting := layout.cbBlock_le
    have : (layout.limits table).cbBlock = layout.cbData + layout.cbData / VHD_SECTOR_SIZE / 8 :=
      rfl
    unfold VHD_SECTOR_SIZE at *
    omega
  refine ⟨fun entry member fits => ?_, fun entry member fits => ?_, fun entry member fits => ?_,
    fun entry member other member' fits fits' same => ?_⟩
  · exact sectors (data entry member fits).2.2.1
  · obtain ⟨-, -, -, inside, short⟩ := data entry member fits
    have smaller : (layout.limits table).bit entry ≤
        (layout.limits (layout.entries file)).bit entry :=
      Nat.div_le_div_right (Nat.sub_le_sub_left least entry)
    exact ⟨lt_of_le_of_lt smaller inside, lt_of_le_of_lt smaller short⟩
  · exact le_trans (Nat.add_le_add_left layout.cbBlock_le _) (data entry member fits).2.1.front
  · obtain ⟨known, block, large, -⟩ := data entry member fits
    obtain ⟨known', block', -, -⟩ := data other member' fits'
    rcases sound.disjoint entry known other known' block block' with equal | first | second
    · exact equal
    · exact absurd same (Nat.ne_of_lt (ordered entry member other large first))
    · exact absurd same (Nat.ne_of_gt (ordered other member' entry large second))

end Table

/-- The entries a repair keeps. -/
def Layout.kept (layout : Layout) (file : ByteFile) : List Nat :=
  firsts (layout.limits (layout.entries file)).fits [] (layout.entries file)

/-- What is written back to a sound dynamic image. -/
def tableRepair (file : ByteFile) (footer : Buf) (fMissing : Bool) : Repair :=
  let layout := layoutOf file footer
  { rc := none
    fDynamic := true
    fRepairFooter := fMissing
    fRepairBat := decide (layout.kept file ≠ layout.entries file)
    footer
    offFooter := file.size - cbFooter
    offBat := layout.offBat
    paBat := layout.kept file }

/-- What is written back to an image without a table. -/
def plainRepair (file : ByteFile) (footer : Buf) (fMissing : Bool) : Repair :=
  { rc := if diskType footer = VHD_FOOTER_DISK_TYPE_FIXED then none else some .repairImpossible
    fDynamic := false
    fRepairFooter := fMissing
    fRepairBat := false
    footer
    offFooter := file.size - cbFooter
    offBat := 0
    paBat := [] }

section Checks

variable {file : ByteFile} {footer : Buf} {fMissing : Bool}

theorem SoundTable.checkEntries (sound : SoundTable file (layoutOf file footer) fMissing) :
    ∃ blockBitmap, checkEntries (limitsOf file.size (file.byte.drop (dataOffset footer))
        ((layoutOf file footer).entries file))
      ⟨[], file.size - cbFooter, false⟩ ((layoutOf file footer).entries file) =
      .ok ((layoutOf file footer).kept file, ⟨blockBitmap, file.size - cbFooter,
        decide ((layoutOf file footer).kept file ≠ (layoutOf file footer).entries file)⟩) :=
  @checkEntries_eq _ _ _ (sound.indexed (fun _ member => .inr member) (Nat.le_refl _)) _ []
    (fun _ member => member) (fun _ member => (List.not_mem_nil member).elim) false

theorem u64_le_of_le {n size : Nat} (small : n ≤ size) : ¬ size < u64 n :=
  Nat.not_lt.mpr (le_trans (Nat.mod_le _ _) small)

theorem checkTable_sound (sound : (layoutOf file footer).offBat +
      4 * (layoutOf file footer).cBatEntries ≤ file.size →
        SoundTable file (layoutOf file footer) fMissing) (fails : RepairAccess → Bool) :
    (∃ rc, checkTable fails file footer (file.byte.drop (dataOffset footer)) fMissing =
      .error (.error rc)) ∨ SoundTable file (layoutOf file footer) fMissing ∧
      checkTable fails file footer (file.byte.drop (dataOffset footer)) fMissing =
        .ok (tableRepair file footer fMissing) := by
  rw [checkTable]
  simp only
  split
  · exact .inl ⟨_, rfl⟩
  · split
    · exact .inl ⟨_, rfl⟩
    · split
      · exact .inl ⟨_, rfl⟩
      · rename_i inside
        have sound := sound (Nat.not_lt.mp (not_or.mp inside).2)
        obtain ⟨blockBitmap, checked⟩ := sound.checkEntries
        split
        · exact .inl ⟨_, rfl⟩
        · refine .inr ⟨sound, ?_⟩
          have same : batEntries ((file.byte.drop (dataOffset footer) |> fun header =>
                file.byte.drop (tableOffset header)))
              (maxTableEntries (file.byte.drop (dataOffset footer))) =
              (layoutOf file footer).entries file := rfl
          simp only at same
          rw [same, checked]
          rfl

/-- What the checks of a sound file come to. -/
inductive Planned (file : ByteFile) : Repair → Prop where
  | plain {footer : Buf} {fMissing : Bool} (chosen : Chosen file footer fMissing)
      (checksum : footerChecksum footer = true) (static : fDynamicType footer = false)
      (supported : fMissing = true → diskType footer = VHD_FOOTER_DISK_TYPE_FIXED) :
      Planned file (plainRepair file footer fMissing)
  | table {footer : Buf} {fMissing : Bool} (chosen : Chosen file footer fMissing)
      (checksum : footerChecksum footer = true) (dynamic : fDynamicType footer = true)
      (header : headerChecksum (file.byte.drop (dataOffset footer)) = true)
      (sound : SoundTable file (layoutOf file footer) fMissing) :
      Planned file (tableRepair file footer fMissing)

theorem readFooter_chosen (fails : RepairAccess → Bool) :
    (∃ rc, readFooter fails file = .error (.error rc)) ∨
      ∃ footer fMissing, readFooter fails file = .ok (footer, fMissing) ∧
        Chosen file footer fMissing := by
  rw [readFooter]
  split
  · exact .inl ⟨_, rfl⟩
  · split
    · exact .inl ⟨_, rfl⟩
    · rename_i large
      split
      · exact .inl ⟨_, rfl⟩
      · split
        · rename_i cookie
          exact .inr ⟨_, _, rfl, Nat.not_lt.mp large, cookie, fun _ => rfl,
            (fun no => by cases no), (fun no => by cases no)⟩
        · rename_i absent
          split
          · exact .inl ⟨_, rfl⟩
          · split
            · rename_i cookie
              exact .inr ⟨_, _, rfl, Nat.not_lt.mp large, cookie, (fun no => by cases no),
                fun _ => Bool.eq_false_iff.mpr absent, fun _ => rfl⟩
            · exact .inl ⟨_, rfl⟩

theorem check_sound (sound : Sound file) (fails : RepairAccess → Bool) :
    (∃ rc, check fails file = .error (.error rc)) ∨
      ∃ repair, check fails file = .ok repair ∧ Planned file repair := by
  rcases readFooter_chosen fails with ⟨rc, failed⟩ | ⟨footer, fMissing, read, chosen⟩
  · exact .inl ⟨rc, by rw [check, failed]⟩
  · obtain ⟨checksum, supported, dynamic⟩ := sound footer fMissing chosen
    rw [check, read]
    simp only [checksum, Bool.true_eq_false, if_false]
    cases isDynamic : fDynamicType footer with
    | false =>
      exact .inr ⟨_, by simp only [Bool.false_eq_true, if_false]; rfl,
        .plain chosen checksum isDynamic (supported isDynamic)⟩
    | true =>
      simp only [if_true, checkDynamic]
      split
      · exact .inl ⟨_, rfl⟩
      · split
        · exact .inl ⟨_, rfl⟩
        · rename_i inside
          obtain ⟨header, table⟩ := dynamic isDynamic (Nat.not_lt.mp (not_or.mp inside).2)
          have header : headerChecksum (file.byte.drop (dataOffset footer)) = true := header
          rw [if_pos header]
          exact (checkTable_sound table fails).imp_right fun ⟨sound, checked⟩ =>
            ⟨_, checked, .table chosen checksum isDynamic header sound⟩

end Checks

end VBox.Storage.Vhd
