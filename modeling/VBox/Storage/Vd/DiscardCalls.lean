import VBox.Storage.Vd.Discard
import VBox.Storage.Vdi.Layout

/-!
What discards of a VDI image answer, and where the records of a disk send them.

A record is a block of the image. The backend is called for runs of its free sectors, or for
all of it, so the calls are inside the disk when no sector behind the end is free.
-/

namespace VBox.Storage.Vd

open VBox.Lib VBox.Storage.Vdi List Option

variable {image : VdiImage} {cbBlock cbDisk off cb : Nat}

/-- The sizes of an image, and how offsets are split. -/
structure Geometry (image : VdiImage) (cbBlock cbDisk : Nat) : Prop where
  blockSize : getImageBlockSize image.header = cbBlock
  diskSize : getImageDiskSize image.header = cbDisk
  offset : ∀ off, blockOffset image off = off % cbBlock
  positive : 0 < cbBlock
  sectors : 512 ∣ cbBlock ∨ cbBlock ∣ 512

variable {image' : VdiImage}

theorem Geometry.sameShape (geometry : Geometry image cbBlock cbDisk)
    (same : SameShape image image') : Geometry image' cbBlock cbDisk := by
  refine ⟨same.blockSize.trans geometry.blockSize, same.diskSize.trans geometry.diskSize,
    fun off => ?_, geometry.positive, geometry.sectors⟩
  rw [← geometry.offset off, blockOffset, blockOffset, same.uBlockMask]

theorem geometry_of_setUp (setUp : SetUp image) :
    Geometry image (getImageBlockSize image.header) (getImageDiskSize image.header) := by
  refine ⟨rfl, rfl, setUp.blockOffset_eq, setUp.blockSize_pos, ?_⟩
  rw [setUp.blockSize_eq]
  rcases Nat.le_total 9 image.uShiftOffset2Index with large | small
  · exact .inl (Nat.pow_dvd_pow 2 large)
  · exact .inr (Nat.pow_dvd_pow 2 small)

/-- What `vdiDiscard` answers to a range inside the disk. -/
structure Answer (cbBlock off cb : Nat) (result : DiscardResult) : Prop where
  valid : result.rc ≠ .verrInvalidParameter
  success : result.rc = .vinfSuccess →
    result.pcbActuallyDiscarded = some (min cb (cbBlock - off % cbBlock))
  recorded : result.rc = .verrVdDiscardAlignmentNotMet →
    ¬ (off % cbBlock = 0 ∧ cbBlock ≤ cb) ∧
    result.pcbActuallyDiscarded = some (min cb (cbBlock - off % cbBlock)) ∧
    result.pcbPreAllocated = some (off % cbBlock) ∧
    result.pcbPostAllocated =
      some (cbBlock - min cb (cbBlock - off % cbBlock) - off % cbBlock)

variable {rc : Status}

theorem vdiDiscardBlockAsync_rc {uBlock ptrBlock : Nat}
    (run : vdiDiscardBlockAsync image uBlock ptrBlock = some (rc, image')) :
    rc = .vinfSuccess ∨ rc = .verrEof := by
  unfold vdiDiscardBlockAsync at run
  simp only [bind_eq_bind, bind_eq_some_iff] at run
  obtain ⟨rev, -, uBlockLast, -, run⟩ := run
  split at run
  · obtain ⟨result, -, final⟩ := map_eq_some_iff.mp run
    cases final
    exact .inl rfl
  · cases moved : image.file.read (idxLastBlock image * image.cbTotalBlockData +
        image.offStartData) image.cbTotalBlockData with
    | none =>
      simp only [discardMoveBlock, moved] at run
      cases run
      exact .inr rfl
    | some pvBlock =>
      simp only [discardMoveBlock, moved] at run
      obtain ⟨result, -, final⟩ := map_eq_some_iff.mp run
      cases final
      exact .inl rfl

theorem answer_done (outcome : Status × VdiImage)
    (rc : outcome.1 = .vinfSuccess ∨ outcome.1 = .verrEof) :
    Answer cbBlock off cb (discardDone (min cb (cbBlock - off % cbBlock)) outcome) := by
  have plain : outcome.1 ≠ .verrInvalidParameter ∧ outcome.1 ≠ .verrVdDiscardAlignmentNotMet := by
    rcases rc with rc | rc <;> rw [rc] <;> decide
  exact ⟨plain.1, fun _ => rfl, fun recorded => absurd recorded plain.2⟩

theorem Geometry.answer (geometry : Geometry image cbBlock cbDisk) {fMarkUnused : Bool}
    {result : DiscardResult} (inside : off + cb ≤ cbDisk) (positive : 0 < cb)
    (run : vdiDiscard image off cb fMarkUnused = some result) :
    Answer cbBlock off cb result ∧ Geometry result.image cbBlock cbDisk := by
  constructor
  · have disk := getImageDiskSize_lt image.header
    have valid : ¬ (getImageDiskSize image.header < u64 (off + cb) ∨ cb = 0) := by
      rw [geometry.diskSize] at disk ⊢
      have := Nat.mod_eq_of_lt (show off + cb < 2 ^ 64 by omega)
      unfold u64
      omega
    have clip : clipToBlock image off cb = min cb (cbBlock - off % cbBlock) := by
      rw [clipToBlock, geometry.offset, geometry.blockSize]
    have small := Nat.mod_lt off geometry.positive
    have offset : off % cbBlock % cbBlock = off % cbBlock := Nat.mod_mod _ _
    unfold vdiDiscard at run
    split at run
    · cases run
      exact ⟨by simp, by simp, by simp⟩
    dsimp only at run
    rw [clip, geometry.offset, geometry.blockSize, offset] at run
    split at run
    · cases run
    split at run
    · cases run
      exact answer_done _ (.inl rfl)
    split at run
    · obtain ⟨⟨rc, image'⟩, removed, rfl⟩ := map_eq_some_iff.mp run
      exact answer_done _ (vdiDiscardBlockAsync_rc removed)
    rename_i part
    split at run
    · cases run
      exact answer_done _ (.inl rfl)
    unfold discardPartial at run
    dsimp only at run
    split at run
    · cases run
    split at run
    · cases run
      exact answer_done _ (.inr rfl)
    split at run
    · obtain ⟨⟨rc, image'⟩, removed, rfl⟩ := map_eq_some_iff.mp run
      exact answer_done _ (vdiDiscardBlockAsync_rc removed)
    · obtain ⟨bm, -, rfl⟩ := map_eq_some_iff.mp run
      refine ⟨by simp, by simp, fun _ => ⟨?_, rfl, ?_, ?_⟩⟩
      · rintro ⟨start, whole⟩
        exact part ⟨start, by rw [start]; omega⟩
      · rw [geometry.blockSize, offset]
      · rw [geometry.blockSize, offset]
  · by_cases success : result.rc = .vinfSuccess
    · exact geometry.sameShape (vdiDiscard_success run success).2.2.2.2.sameShape
    · rwa [vdiDiscard_failure run success]

/-! ### Records -/

/-- A record is a block of the image, with no free sector behind the end of the disk. -/
structure Recorded (cbBlock cbDisk : Nat) (b : VdDiscardBlock) : Prop where
  sectors : 512 ∣ cbBlock
  start : cbBlock ∣ b.key
  length : b.cbDiscard = cbBlock
  tail : ∀ i < cbBlock / 512, cbDisk ≤ b.key + 512 * i → b.pbmAllocated i = true

variable {b : VdDiscardBlock} {idxEnd : Nat}

theorem Recorded.clearRange (idxStart : Nat) (recorded : Recorded cbBlock cbDisk b)
    (inside : b.key + 512 * idxEnd ≤ cbDisk) :
    Recorded cbBlock cbDisk (b.clearRange idxStart idxEnd) := by
  refine ⟨recorded.sectors, recorded.start, recorded.length, fun i below behind => ?_⟩
  have notCleared : ¬ (idxStart ≤ i ∧ i < idxEnd) := by
    change cbDisk ≤ b.key + 512 * i at behind
    omega
  simp only [VdDiscardBlock.clearRange, recorded.tail i below behind, Bool.true_and]
  have outside : i < idxStart ∨ idxEnd ≤ i := by omega
  simpa [Decidable.or_iff_not_imp_left] using outside

theorem Recorded.setAllocated (recorded : Recorded cbBlock cbDisk b) (uOffset cbRange : Nat) :
    Recorded cbBlock cbDisk (b.setAllocated uOffset cbRange) := by
  refine ⟨recorded.sectors, recorded.start, recorded.length, fun i below behind => ?_⟩
  simp only [VdDiscardBlock.setAllocated, recorded.tail i below behind, Bool.true_or]

/-- A free sector of a record ends inside a disk of whole sectors. -/
theorem Recorded.free_inside (recorded : Recorded cbBlock cbDisk b) (whole : 512 ∣ cbDisk) {i : Nat}
    (below : i < cbBlock / 512) (free : b.pbmAllocated i = false) :
    b.key + 512 * (i + 1) ≤ cbDisk := by
  have before : b.key + 512 * i < cbDisk := by
    by_contra behind
    rw [recorded.tail i below (Nat.le_of_not_lt behind)] at free
    cases free
  have start := recorded.sectors.trans recorded.start
  omega

/-! ### Calls of the backend -/

/-- What a function has done beside its own work: the ranges it has handed on are inside
the disk, and the records that are left were there before. -/
structure Kept (cbBlock cbDisk : Nat) (s t : VdDisk) : Prop where
  geometry : Geometry s.image cbBlock cbDisk → Geometry t.image cbBlock cbDisk
  handed : (∀ r ∈ s.handed, r.1 + r.2 ≤ cbDisk) → ∀ r ∈ t.handed, r.1 + r.2 ≤ cbDisk
  listLru : ∀ b ∈ t.listLru, b ∈ s.listLru
  paRanges : t.paRanges = s.paRanges
  offCur : t.offCur = s.offCur
  cbDiscardLeft : t.cbDiscardLeft = s.cbDiscardLeft
  failed : t.failed = s.failed

theorem Kept.refl (s : VdDisk) : Kept cbBlock cbDisk s s :=
  ⟨id, id, fun _ => id, rfl, rfl, rfl, rfl⟩

variable {s t : VdDisk}

theorem Kept.trans {u : VdDisk} (first : Kept cbBlock cbDisk s t) (second : Kept cbBlock cbDisk t u)
    : Kept cbBlock cbDisk s u :=
  ⟨second.geometry ∘ first.geometry, second.handed ∘ first.handed,
    fun b member => first.listLru b (second.listLru b member),
    second.paRanges.trans first.paRanges, second.offCur.trans first.offCur,
    second.cbDiscardLeft.trans first.cbDiscardLeft, second.failed.trans first.failed⟩

theorem pfnDiscard_kept {fMarkUnused : Bool} {result : DiscardResult}
    (geometry : Geometry s.image cbBlock cbDisk) (inside : off + cb ≤ cbDisk) (positive : 0 < cb)
    (run : s.pfnDiscard off cb fMarkUnused = some (result, t)) :
    Answer cbBlock off cb result ∧ Kept cbBlock cbDisk s t := by
  obtain ⟨result', run', same⟩ := map_eq_some_iff.mp run
  obtain ⟨rfl, rfl⟩ := Prod.mk.inj same
  obtain ⟨answer, geometry'⟩ := geometry.answer inside positive run'
  refine ⟨answer, fun _ => geometry', fun handed r member => ?_, fun _ => id, rfl, rfl, rfl, rfl⟩
  rcases mem_append.mp member with old | new
  · exact handed r old
  · obtain rfl := mem_singleton.mp new
    exact inside

variable {isSet : Bool} {idxStart : Nat}

theorem nextBit_spec (found : b.nextBit isSet idxStart = some idxEnd) :
    idxStart < idxEnd ∧ idxEnd < b.cbDiscard / 512 ∧ b.pbmAllocated idxEnd = isSet ∧
      ∀ i, idxStart < i → i < idxEnd → b.pbmAllocated i = !isSet := by
  obtain ⟨here, below, first⟩ := find?_range_eq_some.mp found
  simp only [Bool.and_eq_true, decide_eq_true_eq, beq_iff_eq] at here
  refine ⟨here.1, mem_range.mp below, here.2, fun i above before => ?_⟩
  have notHere := first i before
  simp only [above, decide_true, Bool.true_and, Bool.not_eq_true', beq_eq_false_iff_ne] at notHere
  exact Bool.eq_not.mpr notHere

theorem nextBit_none (missing : b.nextBit isSet idxStart = none) {i : Nat} (above : idxStart < i)
    (below : i < b.cbDiscard / 512) : b.pbmAllocated i = !isSet := by
  have notHere := find?_range_eq_none.mp missing i below
  simp only [above, decide_true, Bool.true_and, Bool.not_eq_true', beq_eq_false_iff_ne] at notHere
  exact Bool.eq_not.mpr notHere

/-- A run of free sectors of a record, up to the next one that is not, is inside the disk. -/
theorem Recorded.run_inside (recorded : Recorded cbBlock cbDisk b) (whole : 512 ∣ cbDisk)
    {idxStart idxEnd : Nat} (before : idxStart < idxEnd) (below : idxEnd ≤ cbBlock / 512)
    (free : ∀ i, idxStart ≤ i → i < idxEnd → b.pbmAllocated i = false) :
    b.key + 512 * idxStart + (idxEnd - idxStart) * 512 ≤ cbDisk := by
  have last := recorded.free_inside whole (show idxEnd - 1 < cbBlock / 512 by omega)
    (free _ (by omega) (by omega))
  omega

variable {fuel : Nat}

theorem markUnused_last {offStart : Nat} {fAllocated : Bool} {idx : Option Nat}
    (run : VdDisk.markUnused b fuel s offStart idx 0 fAllocated = some (rc, t)) :
    rc ≠ .verrInvalidParameter ∧ Kept cbBlock cbDisk s t := by
  have final : VdDisk.markUnused b fuel s offStart idx 0 fAllocated = some (.vinfSuccess, s) := by
    cases fuel <;> cases idx <;> rfl
  obtain ⟨rfl, rfl⟩ := Prod.mk.inj (some.inj (final.symm.trans run))
  exact ⟨by decide, .refl s⟩

/-- The free sectors of a record are marked inside the disk. -/
theorem markUnused_kept (recorded : Recorded cbBlock cbDisk b)
    (whole : 512 ∣ cbDisk) {fuel cbLeft idx : Nat} {s t : VdDisk} {rc : Status}
    (geometry : Geometry s.image cbBlock cbDisk) (left : cbLeft + 512 * idx = cbBlock)
    (run : VdDisk.markUnused b fuel s (b.key + 512 * idx) (some idx) cbLeft (b.pbmAllocated idx) =
      some (rc, t)) : rc ≠ .verrInvalidParameter ∧ Kept cbBlock cbDisk s t := by
  have sectors := recorded.sectors
  have length := recorded.length
  induction fuel generalizing cbLeft idx s with
  | zero =>
    cases cbLeft with
    | zero => exact markUnused_last run
    | succ cbLeft => cases run
  | succ fuel ih =>
    cases cbLeft with
    | zero => exact markUnused_last run
    | succ cbLeft =>
      -- the call for a run of free sectors
      have call {u : VdDisk} {result : DiscardResult} {cbThis : Nat} (positive : 0 < cbThis)
          (inBlock : cbThis ≤ cbLeft + 1) (inside : b.key + 512 * idx + cbThis ≤ cbDisk)
          (run : s.pfnDiscard (b.key + 512 * idx) cbThis true = some (result, u)) :
          Kept cbBlock cbDisk s u ∧ result.rc ≠ .verrInvalidParameter ∧
            (result.rc = .vinfSuccess → result.pcbActuallyDiscarded = some cbThis) := by
        obtain ⟨answer, kept⟩ := pfnDiscard_kept geometry inside positive run
        refine ⟨kept, answer.valid, fun success => ?_⟩
        obtain ⟨k, start⟩ := recorded.start
        have offset : (b.key + 512 * idx) % cbBlock = 512 * idx := by
          rw [start, Nat.mul_add_mod]
          exact Nat.mod_eq_of_lt (by omega)
        rw [answer.success success, offset, Nat.min_eq_left (by omega)]
      rw [VdDisk.markUnused] at run
      cases found : b.nextBit (!b.pbmAllocated idx) idx with
      | none =>
        simp only [found, Nat.sub_self] at run
        split at run
        · exact markUnused_last run
        rename_i notSet
        have free : b.pbmAllocated idx = false := Bool.eq_false_iff.mpr notSet
        have allFree : ∀ i, idx ≤ i → i < cbBlock / 512 → b.pbmAllocated i = false := by
          intro i above below
          rcases Nat.eq_or_lt_of_le above with rfl | above
          · exact free
          · simpa [free] using nextBit_none found above (by omega)
        have inside := recorded.run_inside whole (by omega) le_rfl allFree
        split at run
        · cases run
        rename_i result u returned
        obtain ⟨kept, valid, success⟩ :=
          call (Nat.succ_pos cbLeft) le_rfl (by omega) returned
        split at run
        · obtain ⟨rfl, rfl⟩ := Prod.mk.inj (some.inj run)
          exact ⟨valid, kept⟩
        rename_i notFailed
        simp only [success (Decidable.of_not_not notFailed), Nat.sub_self] at run
        exact (markUnused_last run).imp_right kept.trans
      | some idxEnd =>
        obtain ⟨before, below, atEnd, between⟩ := nextBit_spec found
        have offset : b.key + 512 * idx + (idxEnd - idx) * 512 = b.key + 512 * idxEnd := by
          omega
        have rest : cbLeft + 1 - (idxEnd - idx) * 512 + 512 * idxEnd = cbBlock := by omega
        simp only [found, offset] at run
        split at run
        · rename_i set
          refine ih geometry rest ?_
          simpa [atEnd, set] using run
        rename_i notSet
        have free : b.pbmAllocated idx = false := Bool.eq_false_iff.mpr notSet
        have inside := recorded.run_inside whole before (by omega) (fun i above below => by
          rcases Nat.eq_or_lt_of_le above with rfl | above
          · exact free
          · simpa [free] using between i above below)
        split at run
        · cases run
        rename_i result u returned
        obtain ⟨kept, valid, success⟩ := call (by omega) (by omega) inside returned
        split at run
        · obtain ⟨rfl, rfl⟩ := Prod.mk.inj (some.inj run)
          exact ⟨valid, kept⟩
        rename_i notFailed
        simp only [success (Decidable.of_not_not notFailed), offset] at run
        refine (ih (kept.geometry geometry) rest ?_).imp_right kept.trans
        simpa [atEnd, free] using run

theorem removeBlocks_kept {cbDiscardingNew : Nat} (whole : 512 ∣ cbDisk)
    (geometry : Geometry s.image cbBlock cbDisk)
    (recorded : ∀ b ∈ s.listLru, Recorded cbBlock cbDisk b)
    (run : s.removeBlocks cbDiscardingNew fuel = some (rc, t)) :
    rc ≠ .verrInvalidParameter ∧ Kept cbBlock cbDisk s t := by
  induction fuel generalizing s with
  | zero =>
    unfold VdDisk.removeBlocks at run
    split at run
    · obtain ⟨rfl, rfl⟩ := Prod.mk.inj (some.inj run)
      exact ⟨by decide, .refl s⟩
    · cases run
  | succ fuel ih =>
    unfold VdDisk.removeBlocks at run
    split at run
    · obtain ⟨rfl, rfl⟩ := Prod.mk.inj (some.inj run)
      exact ⟨by decide, .refl s⟩
    cases last : s.listLru.getLast? with
    | none =>
      simp only [last] at run
      cases run
    | some pBlock =>
      have here := recorded pBlock (mem_of_getLast? last)
      simp only [last] at run
      split at run
      · cases run
      rename_i rc' u marked
      obtain ⟨valid, kept⟩ := markUnused_kept here whole geometry
        (show pBlock.cbDiscard + 512 * 0 = cbBlock from here.length) marked
      split at run
      · obtain ⟨rfl, rfl⟩ := Prod.mk.inj (some.inj run)
        exact ⟨valid, kept⟩
      let v : VdDisk := { u with
        listLru := u.listLru.dropLast, cbDiscarding := u.cbDiscarding - pBlock.cbDiscard }
      have dropped : Kept cbBlock cbDisk u v :=
        ⟨id, id, fun b member => mem_of_mem_dropLast member, rfl, rfl, rfl, rfl⟩
      have keptBoth := kept.trans dropped
      refine (ih (keptBoth.geometry geometry) (fun b member => ?_) run).imp_right keptBoth.trans
      exact recorded b (keptBoth.listLru b member)

theorem discardWholeBlock_kept {idx : Nat} (recorded : Recorded cbBlock cbDisk b)
    (whole : 512 ∣ cbDisk) (geometry : Geometry s.image cbBlock cbDisk) (empty : b.isEmpty = true)
    (run : s.discardWholeBlock idx b = some (rc, t)) :
    rc ≠ .verrInvalidParameter ∧ Kept cbBlock cbDisk s t := by
  have sectors := recorded.sectors
  have positive := geometry.positive
  have free : ∀ i, 0 ≤ i → i < cbBlock / 512 → b.pbmAllocated i = false := by
    intro i _ below
    rw [← recorded.length] at below
    simpa using List.all_eq_true.mp empty i (mem_range.mpr below)
  have inside := recorded.run_inside whole (by omega) le_rfl free
  unfold VdDisk.discardWholeBlock at run
  split at run
  · cases run
  rename_i result u returned
  rw [recorded.length] at returned
  obtain ⟨answer, kept⟩ := pfnDiscard_kept geometry (by omega) positive returned
  split at run
  · obtain ⟨rfl, rfl⟩ := Prod.mk.inj (some.inj run)
    exact ⟨by decide, kept.geometry, kept.handed,
      fun b member => kept.listLru b (mem_of_mem_eraseIdx member), kept.paRanges,
      kept.offCur, kept.cbDiscardLeft, kept.failed⟩
  · obtain ⟨rfl, rfl⟩ := Prod.mk.inj (some.inj run)
    exact ⟨answer.valid, kept⟩

end VBox.Storage.Vd
