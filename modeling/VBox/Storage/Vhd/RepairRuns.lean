import VBox.Storage.Vhd.RepairSound
import Mathlib.Data.List.Basic
import Mathlib.Data.List.GetD

/-!
A sound file after its repair: what was written, and that a second repair finds nothing.
-/

namespace VBox.Storage.Vhd

open VBox.Lib List

/-! ### Structures depend on their own bytes -/

variable {off n entry : Nat}

section Congruence

variable {b c : Buf}

variable {w : Nat}

theorem beNat_congr (agree : ∀ i < w, b i = c i) : beNat w b = beNat w c :=
  leNat_congr fun i below => agree (w - 1 - i) (by omega)

theorem beNat_drop_congr {cb : Nat} (agree : ∀ i < cb, b i = c i) (inside : off + w ≤ cb) :
    beNat w (b.drop off) = beNat w (c.drop off) :=
  beNat_congr fun i below => agree (off + i) (by omega)

theorem beNat_lt (w : Nat) (b : Buf) : beNat w b < 256 ^ w := leNat_lt w _

theorem fCookie_congr (agree : ∀ i < cbFooter, b i = c i) : fCookie b = fCookie c := by
  have same : (range 8).map b = (range 8).map c := map_congr_left fun i member =>
      agree i (lt_trans (mem_range.mp member) (by decide))
  rw [fCookie, fCookie, same]

variable {cbSize : Nat}

theorem vhdChecksum_congr (agree : ∀ i < cbSize, b i = c i) :
    vhdChecksum b cbSize = vhdChecksum c cbSize := by
  have same : (range cbSize).foldl (fun checksum i => u32 (checksum + (b i).toNat)) 0 =
      (range cbSize).foldl (fun checksum i => u32 (checksum + (c i).toNat)) 0 := by
    refine foldl_ext _ _ _ fun checksum i member => ?_
    rw [agree i (mem_range.mp member)]
  rw [vhdChecksum, vhdChecksum, same]

theorem fChecksum_congr {offChecksum : Nat} (agree : ∀ i < cbSize, b i = c i)
    (inside : offChecksum + 4 ≤ cbSize) :
    fChecksum offChecksum cbSize b = fChecksum offChecksum cbSize c := by
  have without : ∀ i < cbSize, withoutChecksum offChecksum b i = withoutChecksum offChecksum c i :=
    fun i below => if_congr Iff.rfl rfl (agree i below)
  rw [fChecksum, fChecksum, beNat_drop_congr agree inside, vhdChecksum_congr without]

/-- What the repair looks at in a footer. -/
theorem footer_congr (agree : ∀ i < cbFooter, b i = c i) :
    fCookie b = fCookie c ∧ footerChecksum b = footerChecksum c ∧ dataOffset b = dataOffset c ∧
      diskType b = diskType c :=
  ⟨fCookie_congr agree, fChecksum_congr agree (by decide), beNat_drop_congr agree (by decide),
    beNat_drop_congr agree (by decide)⟩

/-- What the repair looks at in a dynamic disk header. -/
theorem header_congr (agree : ∀ i < cbHeader, b i = c i) :
    headerChecksum b = headerChecksum c ∧ tableOffset b = tableOffset c ∧
      maxTableEntries b = maxTableEntries c ∧ blockSize b = blockSize c :=
  ⟨fChecksum_congr agree (by decide), beNat_drop_congr agree (by decide),
    beNat_drop_congr agree (by decide), beNat_drop_congr agree (by decide)⟩

variable {table : Buf}

/-- A written table is read back. -/
theorem batEntries_written {paBat : List Nat} (small : ∀ entry ∈ paBat, entry < 2 ^ 32)
    (agree : ∀ i < 4 * paBat.length, table i = batBytes paBat i) :
    batEntries table paBat.length = paBat := by
  refine ext_getElem (by simp [batEntries]) fun i below below' => ?_
  have read : batEntry table i = leNat 4 (leByte paBat[i]) := by
    refine leNat_congr fun k less => ?_
    rw [Buf.drop_apply, agree _ (by omega), batBytes, show (4 * i + (4 - 1 - k)) / 4 = i by omega,
      show 3 - (4 * i + (4 - 1 - k)) % 4 = k by omega, getD_eq_getElem _ _ below']
  simp only [batEntries, getElem_map, getElem_range]
  rw [read, leNat_leByte]
  exact Nat.mod_eq_of_lt (small _ (getElem_mem below'))

theorem batEntries_congr (agree : ∀ i < 4 * n, b i = c i) : batEntries b n = batEntries c n := by
  refine map_congr_left fun i member => beNat_congr fun k less => ?_
  have below := mem_range.mp member
  exact agree _ (by omega)

theorem batEntries_lt (member : entry ∈ batEntries table n) : entry < 2 ^ 32 := by
  obtain ⟨i, -, rfl⟩ := List.mem_map.mp member
  exact beNat_lt 4 _

end Congruence

/-! ### Writing back -/

variable {fails : RepairAccess → Bool} {repair : Repair}

/-- A successful write-back is the one in which nothing fails. -/
theorem writeBack_of_success {file after : ByteFile}
    (success : writeBack fails repair file = (none, after)) :
    (writeBack (fun _ => false) repair file).2 = after := by
  obtain ⟨rc, fDynamic, fRepairFooter, fRepairBat, footer, offFooter, offBat, paBat⟩ := repair
  cases table : fails .writeTable <;> cases backup : fails .writeBackup <;>
    cases footer : fails .writeFooter <;> cases fRepairBat <;> cases fRepairFooter <;>
      cases fDynamic <;> simp_all [writeBack, writeUnless]

theorem closeStatus_none {rc : Option RepairError} (status : closeStatus fails rc = none) :
    rc = none := by
  unfold closeStatus at status
  split at status
  · cases status
  · exact status

/-- A repair that succeeds is the write-back in which nothing fails. -/
theorem vhdRepair_success {file after : ByteFile} {found : Bool}
    (checked : check fails file = .ok repair)
    (returned : vhdRepair fails false file = .returned none found after) :
    (writeBack (fun _ => false) repair file).2 = after ∧
      (repair.fRepairBat = false → repair.fRepairFooter = false → repair.rc = none) := by
  rw [vhdRepair, checked] at returned
  simp only [Bool.false_eq_true, if_false] at returned
  split at returned
  · rename_i flagged
    obtain ⟨status, -, same⟩ := RepairVerdict.returned.inj returned
    refine ⟨writeBack_of_success (Prod.ext (closeStatus_none status) same), fun bat footer => ?_⟩
    rw [bat, footer] at flagged
    cases flagged
  · rename_i clear
    obtain ⟨status, -, same⟩ := RepairVerdict.returned.inj returned
    have clear := Bool.or_eq_false_iff.mp (Bool.eq_false_iff.mpr clear)
    constructor
    · simp only [writeBack, clear.1, clear.2, Bool.false_eq_true, if_false, same]
    · exact fun _ _ => closeStatus_none status

/-- What a repair leaves of a sound dynamic image. -/
structure WrittenTable (file : ByteFile) (footer : Buf) (after : ByteFile) : Prop where
  size : after.size = file.size
  backup : ∀ i < cbFooter, after.byte i = file.byte i
  last : ∀ i < cbFooter, lastSector after i = footer i
  header : ∀ i < cbHeader,
    after.byte (dataOffset footer + i) = file.byte (dataOffset footer + i)
  entries : (layoutOf file footer).entries after = (layoutOf file footer).kept file

section Written

variable {file after : ByteFile} {footer : Buf} {fMissing : Bool}

theorem size_write_inside {b : Buf} (inside : off + n ≤ file.size) :
    (file.write off n b).size = file.size := by
  rw [ByteFile.size_write]
  split
  · rfl
  · exact Nat.max_eq_left inside

/-- The file once the table is written, if it is. -/
def tableWritten (file : ByteFile) (footer : Buf) : ByteFile :=
  let layout := layoutOf file footer
  if layout.kept file = layout.entries file then file
  else file.write layout.offBat (4 * layout.cBatEntries) (batBytes (layout.kept file))

theorem length_kept (layout : Layout) (file : ByteFile) :
    (layout.kept file).length = layout.cBatEntries := by
  simp [Layout.kept, Layout.entries, batEntries]

theorem kept_lt {layout : Layout} {file : ByteFile} (member : entry ∈ layout.kept file) :
    entry < 2 ^ 32 := by
  rcases mem_of_mem_firsts member with free | known
  · exact free ▸ (by decide)
  · exact batEntries_lt known

theorem tableWritten_size (sound : SoundTable file (layoutOf file footer) fMissing) :
    (tableWritten file footer).size = file.size := by
  unfold tableWritten
  simp only
  split
  · rfl
  · exact size_write_inside (le_trans sound.table (Nat.sub_le _ _))

theorem tableWritten_outside {i : Nat} (outside : i < (layoutOf file footer).offBat ∨
    (layoutOf file footer).offBat + 4 * (layoutOf file footer).cBatEntries ≤ i) :
    (tableWritten file footer).byte i = file.byte i := by
  unfold tableWritten
  simp only
  split
  · rfl
  · exact ByteFile.byte_write_of_not_mem outside

theorem tableWritten_entries : (layoutOf file footer).entries (tableWritten file footer) =
      (layoutOf file footer).kept file := by
  unfold tableWritten
  simp only
  split
  · rename_i same
    exact same.symm
  · have read := @batEntries_written
      ((file.write (layoutOf file footer).offBat (4 * (layoutOf file footer).cBatEntries)
        (batBytes ((layoutOf file footer).kept file))).byte.drop (layoutOf file footer).offBat)
      ((layoutOf file footer).kept file) (fun entry member => kept_lt member) (fun i below => by
        rw [length_kept] at below
        rw [Buf.drop_apply, ByteFile.byte_write_of_mem (by omega) (by omega),
          Nat.add_sub_cancel_left])
    rw [length_kept] at read
    exact read

/-- The writes of a sound dynamic image. -/
theorem writeBack_tableRepair (file : ByteFile) (footer : Buf) (fMissing : Bool) :
    (writeBack (fun _ => false) (tableRepair file footer fMissing) file).2 =
      if fMissing then
        ((tableWritten file footer).write 0 cbFooter footer).write (file.size - cbFooter) cbFooter
          footer
      else tableWritten file footer := by
  simp only [writeBack, tableRepair, tableWritten, length_kept]
  cases fMissing <;>
    by_cases same : (layoutOf file footer).kept file = (layoutOf file footer).entries file <;>
      simp [writeUnless, same]

theorem writtenTable (chosen : Chosen file footer fMissing)
    (sound : SoundTable file (layoutOf file footer) fMissing) : WrittenTable file footer
      (writeBack (fun _ => false) (tableRepair file footer fMissing) file).2 := by
  have large := chosen.large
  have behind := sound.behind
  have headerInside : dataOffset footer + cbHeader ≤ file.size - cbFooter := sound.header
  have tableInside : (layoutOf file footer).offBat + 4 * (layoutOf file footer).cBatEntries ≤
    file.size - cbFooter := sound.table
  have apart : Apart (dataOffset footer) cbHeader _ _ := sound.apart
  have size := tableWritten_size sound
  have footerSize : cbFooter = 512 := rfl
  have headerSize : cbHeader = 1024 := rfl
  rw [writeBack_tableRepair]
  cases fMissing with
  | false =>
    rw [if_neg (by decide)]
    refine ⟨size, fun i below => ?_, fun i below => ?_, fun i below => ?_, tableWritten_entries⟩
    · exact tableWritten_outside (.inl (by omega))
    · rw [lastSector, size, Buf.drop_apply, tableWritten_outside (.inr (by omega)),
        chosen.last rfl]
      rfl
    · refine tableWritten_outside ?_
      rcases apart with first | second
      · exact .inl (by omega)
      · exact .inr (by omega)
  | true =>
    rw [if_pos rfl]
    have same : footer = file.byte := chosen.backup rfl
    have size1 : ((tableWritten file footer).write 0 cbFooter footer).size = file.size := by
      rw [size_write_inside (by omega), size]
    have size2 : (((tableWritten file footer).write 0 cbFooter footer).write
        (file.size - cbFooter) cbFooter footer).size = file.size := by
      rw [size_write_inside (by omega), size1]
    -- writing the backup over itself changes nothing
    have start : ∀ i < file.size - cbFooter,
        (((tableWritten file footer).write 0 cbFooter footer).write
          (file.size - cbFooter) cbFooter footer).byte i =
            (tableWritten file footer).byte i := by
      intro i below
      rw [ByteFile.byte_write_of_not_mem (.inl below)]
      by_cases inside : i < cbFooter
      · rw [ByteFile.byte_write_of_mem (Nat.zero_le _) (by omega), Nat.sub_zero,
          tableWritten_outside (.inl (by omega)), same]
      · exact ByteFile.byte_write_of_not_mem (.inr (by omega))
    refine ⟨size2, fun i below => ?_, fun i below => ?_, fun i below => ?_, ?_⟩
    · rw [start i (by omega)]
      exact tableWritten_outside (.inl (by omega))
    · rw [lastSector, size2, Buf.drop_apply,
        ByteFile.byte_write_of_mem (Nat.le_add_right _ _) (by omega), Nat.add_sub_cancel_left]
    · rw [start _ (by omega)]
      refine tableWritten_outside ?_
      rcases apart with first | second
      · exact .inl (by omega)
      · exact .inr (by omega)
    · rw [← tableWritten_entries]
      refine batEntries_congr fun i below => ?_
      rw [Buf.drop_apply, Buf.drop_apply, start _ (by omega)]

end Written

/-! ### A second repair -/

section Again

variable {file : ByteFile}

theorem readFooter_last (large : cbFooter ≤ file.size) (cookie : fCookie (lastSector file) = true) :
    readFooter (fun _ => false) file = .ok (lastSector file, false) := by
  rw [readFooter, if_neg (by decide), if_neg (Nat.not_lt.mpr large), if_neg (by decide)]
  exact if_pos cookie

/-- A fixed image with its footer at the end is consistent. -/
theorem vhdRepair_fixed (large : cbFooter ≤ file.size) (valid : ValidFooter (lastSector file))
    (fixed : diskType (lastSector file) = VHD_FOOTER_DISK_TYPE_FIXED) (fDryRun : Bool) :
    vhdRepair (fun _ => false) fDryRun file = .returned none false file := by
  have static : fDynamicType (lastSector file) = false := by
    rw [fDynamicType, fixed]
    rfl
  rw [vhdRepair, check, readFooter_last large valid.1]
  simp [valid.2, static, fixed, closeStatus]

/-- A dynamic image with right checksums is consistent if the checks of its table keep it. -/
theorem vhdRepair_dynamic (large : cbFooter ≤ file.size) (valid : ValidFooter (lastSector file))
    (dynamic : fDynamicType (lastSector file) = true)
    (headerInside : dataOffset (lastSector file) + cbHeader ≤ file.size)
    (header : headerChecksum (file.byte.drop (dataOffset (lastSector file))) = true)
    (tableInside : (layoutOf file (lastSector file)).offBat +
      4 * (layoutOf file (lastSector file)).cBatEntries ≤ file.size)
    {offFooter : Nat} {blockBitmap paBat : List Nat} (checked : checkEntries
      ((layoutOf file (lastSector file)).limits ((layoutOf file (lastSector file)).entries file))
      ⟨[], file.size - cbFooter, false⟩ ((layoutOf file (lastSector file)).entries file) =
      .ok (paBat, ⟨blockBitmap, offFooter, false⟩)) (fDryRun : Bool) :
    vhdRepair (fun _ => false) fDryRun file = .returned none false file := by
  have table : checkTable (fun _ => false) file (lastSector file)
      (file.byte.drop (dataOffset (lastSector file))) false =
      .ok { rc := none, fDynamic := true, fRepairFooter := false, fRepairBat := false
            footer := lastSector file, offFooter
            offBat := (layoutOf file (lastSector file)).offBat, paBat } := by
    have inside : tableOffset (file.byte.drop (dataOffset (lastSector file))) +
        4 * maxTableEntries (file.byte.drop (dataOffset (lastSector file))) ≤ file.size :=
      tableInside
    rw [checkTable]
    simp only
    rw [if_neg (u64_le_of_le inside), if_neg (by decide),
      if_neg (not_or.mpr ⟨by decide, Nat.not_lt.mpr inside⟩), if_neg (by decide)]
    have found : checkEntries
        (limitsOf file.size (file.byte.drop (dataOffset (lastSector file)))
          ((layoutOf file (lastSector file)).entries file))
        ⟨[], file.size - cbFooter, false⟩ ((layoutOf file (lastSector file)).entries file) =
        .ok (paBat, ⟨blockBitmap, offFooter, false⟩) := checked
    have same : (layoutOf file (lastSector file)).entries file =
        batEntries (file.byte.drop
          (tableOffset (file.byte.drop (dataOffset (lastSector file)))))
          (maxTableEntries (file.byte.drop (dataOffset (lastSector file)))) := rfl
    rw [same] at found
    rw [found]
    rfl
  rw [vhdRepair, check, readFooter_last large valid.1]
  simp only [valid.2, Bool.true_eq_false, if_false, dynamic, if_true, checkDynamic,
    u64_le_of_le headerInside, Nat.not_lt.mpr headerInside, or_self, Bool.false_eq_true, header,
    table, Bool.or_self, closeStatus, and_false]

end Again

/-! ### The repaired file -/

section Repaired

variable {file after : ByteFile} {footer : Buf} {fMissing : Bool}

/-- What is left of a sound image lies where it was. -/
theorem WrittenTable.layout (written : WrittenTable file footer after) :
    layoutOf after (lastSector after) = layoutOf file footer := by
  obtain ⟨-, -, offset, -⟩ := footer_congr written.last
  obtain ⟨-, table, entries, block⟩ :=
    header_congr (b := after.byte.drop (dataOffset footer))
      (c := file.byte.drop (dataOffset footer)) written.header
  simp only [layoutOf, offset, written.size, table, entries, block]

theorem SoundTable.repaired (sound : SoundTable file (layoutOf file footer) fMissing)
    (entries : (layoutOf file footer).entries after = (layoutOf file footer).kept file) :
    TableRepaired (layoutOf file footer) file after := by
  have first : ∀ i entry, ((layoutOf file footer).entries file)[i]? = some entry →
      ((layoutOf file footer).First ((layoutOf file footer).entries file) i entry ↔
        ((layoutOf file footer).limits ((layoutOf file footer).entries file)).fits entry = true ∧
          entry ∉ [] ∧ entry ∉ ((layoutOf file footer).entries file).take i) := by
    intro i entry here
    constructor
    · exact fun first => ⟨first.1.fits _, not_mem_nil, first.2⟩
    · exact fun fits => ⟨(sound.of_fits (mem_of_getElem? here) fits.1).1, fits.2.2⟩
  refine ⟨fun i entry here isFirst => ?_, fun i entry here notFirst => ?_, ?_⟩
  · rw [entries, Layout.kept, firsts_getElem?, here, Option.map_some,
      if_pos ((first i entry here).mp isFirst)]
  · rw [entries, Layout.kept, firsts_getElem?, here, Option.map_some,
      if_neg fun fits => notFirst ((first i entry here).mpr fits)]
  · rw [entries, pairwise_iff_getElem]
    intro i j below below' less live live'
    -- what is not cleared is in the table as it was, and passes
    have known : ∀ k (inside : k < ((layoutOf file footer).kept file).length),
        ((layoutOf file footer).kept file)[k] ≠ cleared →
        ((layoutOf file footer).entries file)[k]? = some ((layoutOf file footer).kept file)[k] ∧
          (layoutOf file footer).First ((layoutOf file footer).entries file) k
            ((layoutOf file footer).kept file)[k] := by
      intro k inside live
      have there : ((layoutOf file footer).kept file)[k]? =
        some ((layoutOf file footer).kept file)[k] := getElem?_eq_getElem inside
      generalize ((layoutOf file footer).kept file)[k] = value at live there
      rw [Layout.kept, firsts_getElem?, Option.map_eq_some_iff] at there
      obtain ⟨entry, here, same⟩ := there
      by_cases fits : ((layoutOf file footer).limits
          ((layoutOf file footer).entries file)).fits entry = true ∧
          entry ∉ [] ∧ entry ∉ ((layoutOf file footer).entries file).take k
      · rw [if_pos fits] at same
        exact same ▸ ⟨here, (first k entry here).mpr fits⟩
      · rw [if_neg fits] at same
        exact absurd same.symm live
    obtain ⟨here, block, -⟩ := known i below live
    obtain ⟨here', block', fresh⟩ := known j below' live'
    rcases sound.disjoint _ (mem_of_getElem? here) _ (mem_of_getElem? here') block block'
      with equal | apart
    · refine absurd ?_ fresh
      rw [← equal]
      exact mem_of_getElem? (i := i) (by rw [getElem?_take_of_lt less, here])
    · exact apart

theorem WrittenTable.repaired (written : WrittenTable file footer after)
    (chosen : Chosen file footer fMissing) (checksum : footerChecksum footer = true)
    (dynamic : fDynamicType footer = true)
    (header : headerChecksum (file.byte.drop (dataOffset footer)) = true)
    (sound : SoundTable file (layoutOf file footer) fMissing) : Repaired file after := by
  obtain ⟨cookie, sum, offset, type⟩ := footer_congr written.last
  have headers := header_congr (b := after.byte.drop (dataOffset footer))
    (c := file.byte.drop (dataOffset footer)) written.header
  have large : cbFooter ≤ after.size := written.size ▸ chosen.large
  have valid : ValidFooter (lastSector after) := ⟨cookie ▸ chosen.cookie, sum ▸ checksum⟩
  have dynamic : fDynamicType (lastSector after) = true := by
    rw [fDynamicType, type]
    exact dynamic
  have header : headerChecksum (after.byte.drop (dataOffset (lastSector after))) = true := by
    rw [offset, headers.1]
    exact header
  refine ⟨large, valid, fun _ => ?_, fun _ => header, fun _ => ?_, ?_⟩
  · obtain ⟨cookie', sum', -, -⟩ := footer_congr written.backup
    cases fMissing with
    | false => exact ⟨cookie' ▸ (sound.backup rfl).1, sum' ▸ (sound.backup rfl).2⟩
    | true =>
      rw [chosen.backup rfl] at checksum
      have start := chosen.cookie
      rw [chosen.backup rfl] at start
      exact ⟨cookie' ▸ start, sum' ▸ checksum⟩
  · rw [written.layout]
    exact sound.repaired written.entries
  · have headerInside : dataOffset (lastSector after) + cbHeader ≤ after.size := by
      rw [offset, written.size]
      exact le_trans sound.header (Nat.sub_le _ _)
    have tableInside : (layoutOf after (lastSector after)).offBat +
        4 * (layoutOf after (lastSector after)).cBatEntries ≤ after.size := by
      rw [written.layout, written.size]
      exact le_trans sound.table (Nat.sub_le _ _)
    have free : ((layoutOf file footer).limits
        ((layoutOf file footer).entries file)).fits cleared = false := rfl
    obtain ⟨blockBitmap, checked⟩ := @checkEntries_eq
      ((layoutOf file footer).limits ((layoutOf file footer).kept file)) (file.size - cbFooter)
      ((layoutOf file footer).kept file)
      (sound.indexed (fun entry member => mem_of_mem_firsts member) (idxMinBlockOf_firsts _ _))
      ((layoutOf file footer).kept file) [] (fun _ member => member)
      (fun _ member => (not_mem_nil member).elim) false
    have kept : firsts ((layoutOf file footer).limits ((layoutOf file footer).kept file)).fits []
        ((layoutOf file footer).kept file) = (layoutOf file footer).kept file :=
      firsts_firsts free [] _
    rw [kept, decide_eq_false (not_not.mpr rfl), Bool.or_false] at checked
    rw [← written.size, ← written.entries, ← written.layout] at checked
    exact vhdRepair_dynamic large valid dynamic headerInside header tableInside checked

theorem repaired_plain (chosen : Chosen file footer fMissing)
    (checksum : footerChecksum footer = true)
    (fixed : diskType footer = VHD_FOOTER_DISK_TYPE_FIXED) :
    Repaired file (writeBack (fun _ => false) (plainRepair file footer fMissing) file).2 := by
  have large := chosen.large
  have written : (writeBack (fun _ => false) (plainRepair file footer fMissing) file).2 =
      if fMissing then file.write (file.size - cbFooter) cbFooter footer else file := by
    cases fMissing <;> simp [writeBack, plainRepair, writeUnless]
  rw [written]
  -- in both cases the last sector is the footer
  have last : ∀ after : ByteFile, after.size = file.size →
      (∀ i < cbFooter, lastSector after i = footer i) → Repaired file after := by
    intro after size agree
    obtain ⟨cookie, sum, -, type⟩ := footer_congr agree
    have valid : ValidFooter (lastSector after) := ⟨cookie ▸ chosen.cookie, sum ▸ checksum⟩
    have static : fDynamicType (lastSector after) = false := by
      rw [fDynamicType, type, fixed]
      rfl
    have large : cbFooter ≤ after.size := size ▸ large
    refine ⟨large, valid, fun dynamic => ?_, fun dynamic => ?_, fun dynamic => ?_,
      vhdRepair_fixed large valid (type.trans fixed)⟩
    all_goals exact absurd (static.symm.trans dynamic) (by decide)
  cases fMissing with
  | false => exact last file rfl fun i _ => by rw [chosen.last rfl]
  | true =>
    have size : (file.write (file.size - cbFooter) cbFooter footer).size = file.size :=
      size_write_inside (by omega)
    rw [if_pos rfl]
    refine last _ size fun i below => ?_
    rw [lastSector, size, Buf.drop_apply,
      ByteFile.byte_write_of_mem (Nat.le_add_right _ _) (by omega), Nat.add_sub_cancel_left]

end Repaired

/-! ### Small images -/

/-- A structure with its checksum filled in. -/
def sealed (offChecksum cbSize : Nat) (bytes : Buf) : Buf := fun i =>
  if offChecksum ≤ i ∧ i < offChecksum + 4 then
    leByte (vhdChecksum (withoutChecksum offChecksum bytes) cbSize) (offChecksum + 3 - i)
  else bytes i

/-- A footer: the cookie, the offset of the header and the type. -/
def smallFooter (type : UInt8) : Buf := fun i =>
  if i < 8 then [0x63, 0x6f, 0x6e, 0x65, 0x63, 0x74, 0x69, 0x78].getD i 0
  else if i = 22 then 2
  else if i = 63 then type
  else 0

/-- A dynamic disk header for a table behind it. -/
def smallHeader (cBatEntries cbData : Nat) : Buf := fun i =>
  if i = 22 then 6
  else if 28 ≤ i ∧ i < 32 then leByte cBatEntries (31 - i)
  else if 32 ≤ i ∧ i < 36 then leByte cbData (35 - i)
  else 0

/-- A dynamic image: the backup of the footer, the header, the table, the blocks and the footer. -/
def smallImage (cbData : Nat) (paBat : List Nat) (cbFile : Nat) : ByteFile where
  size := cbFile
  byte i :=
    if cbFile ≤ i then 0
    else if cbFile - cbFooter ≤ i then
      sealed 64 cbFooter (smallFooter 3) (i - (cbFile - cbFooter))
    else if i < 512 then sealed 64 cbFooter (smallFooter 3) i
    else if i < 1536 then sealed 36 cbHeader (smallHeader paBat.length cbData) (i - 512)
    else if i < 1536 + 4 * paBat.length then batBytes paBat (i - 1536)
    else 0
  beyond _ outside := if_pos outside

/-- A fixed image whose footer has no checksum. -/
def unsealedImage : ByteFile where
  size := 512
  byte i := if 512 ≤ i then 0 else smallFooter 2 i
  beyond _ outside := if_pos outside

/-- Two entries for one block, a free one and one beyond the file. -/
def twiceImage : ByteFile :=
  smallImage 512 ([4, cleared, 4, 1000] ++ List.replicate 4 cleared) 3072

theorem twiceImage_sound : Sound twiceImage := by
  intro footer fMissing chosen
  cases fMissing with
  | true => exact absurd (chosen.absent rfl) (by decide +kernel)
  | false =>
    obtain rfl := chosen.last rfl
    refine ⟨by decide +kernel, (fun _ missing => nomatch missing), fun _ _ => ⟨by decide +kernel,
      fun _ => ⟨fun _ => ⟨by decide +kernel, by decide +kernel⟩, by decide +kernel,
        by decide +kernel, by decide +kernel, by decide +kernel, ?_, ?_⟩⟩⟩
    · unfold Mapped
      decide +kernel
    · decide +kernel

/-- What was repaired once needs no repair. -/
theorem RepairRight.second {file : ByteFile} (right : RepairRight file) {found : Bool}
    (success : (vhdRepair (fun _ => false) false file).status = some (none, found)) :
    (vhdRepair (fun _ => false) false (vhdRepair (fun _ => false) false file).file).status =
      some (none, false) := by
  cases run : vhdRepair (fun _ => false) false file with
  | undefined leave => exact absurd run (right.defined _ _ leave)
  | returned rc found' after =>
    rw [run] at success
    obtain ⟨rfl, -⟩ := Prod.mk.inj (Option.some.inj success)
    rw [RepairVerdict.file, (right.repaired _ _ _ run).again false]
    rfl

theorem RepairRight.returns {file : ByteFile} (right : RepairRight file) :
    (vhdRepair (fun _ => false) false file).status ≠ none := by
  cases run : vhdRepair (fun _ => false) false file with
  | undefined leave => exact absurd run (right.defined _ _ leave)
  | returned rc found after => exact Option.some_ne_none _

end VBox.Storage.Vhd
